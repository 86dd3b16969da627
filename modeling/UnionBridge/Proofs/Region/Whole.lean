import UnionBridge.Proofs.Region.Depth
import UnionBridge.World.Record

/-! Worlds that differ in what their registries hold. Everything lies within the whole region, and only a registry that is
asked can tell such worlds apart. -/
namespace UnionBridge

variable {w w' x x' : World} {hidden name : String} {t : Table String Registry} {id home : Nat} {c : ClassRef} {v : Value}

/-! ### The whole region -/

mutual

theorem Value.within_whole : ∀ v : Value, v.Within .whole
  | .box _ v => within_box.mpr (within_whole v)
  | .carrier _ v es => within_carrier.mpr ⟨within_whole v, Value.list_whole es⟩
  | .record _ fields => within_record.mpr ⟨trivial, Value.fields_whole fields⟩
  | .bare _ => trivial
  | .cls c => by cases c <;> trivial
  | .function f => by cases f <;> trivial
  | .module m => by cases m <;> trivial
  | .tuple vs => within_tuple.mpr (Value.list_whole vs)
  | .list vs => within_list.mpr (Value.list_whole vs)
  | .iterator _ vs => within_iterator.mpr (Value.list_whole vs)
  | .intrinsic _ => fun c _ => by cases c <;> trivial
  | .none | .bool _ | .int _ | .float _ | .text _ | .writtenInt _ _ | .writtenText _ _ | .registry _ | .feature _ => trivial

theorem Value.list_whole : ∀ vs : List Value, ∀ v ∈ vs, v.Within .whole
  | [] => fun _ hv => absurd hv List.not_mem_nil
  | v :: vs => List.forall_mem_cons.mpr ⟨within_whole v, Value.list_whole vs⟩

theorem Value.fields_whole : ∀ fields : List (String × Value), ∀ e ∈ fields, e.2.Within .whole
  | [] => fun _ he => absurd he List.not_mem_nil
  | (_, v) :: fields => List.forall_mem_cons.mpr ⟨within_whole v, Value.fields_whole fields⟩

end

theorem ClassRef.within_whole (c : ClassRef) : c.Within .whole := by cases c <;> trivial

theorem FunctionRef.within_whole (f : FunctionRef) : f.Within .whole := by cases f <;> trivial

theorem Supplied.within_whole (s : Supplied) : s.Within .whole :=
  ⟨fun v _ => v.within_whole, fun e _ => e.2.within_whole⟩

theorem Table.within_whole {α : Type} [DecidableEq α] (t : Table α Value) : t.Within .whole := fun _ v _ => v.within_whole

theorem DeclaredClass.within_whole (c : DeclaredClass) : c.Within .whole :=
  ⟨fun d _ => d.within_whole, fun d _ => d.within_whole, c.attributes.within_whole, fun _ _ _ _ v _ => v.within_whole⟩

theorem Outside.within_whole (o : Outside) : o.Within .whole :=
  ⟨fun _ _ a _ _ => a.within_whole, fun _ _ v _ _ _ => v.within_whole⟩

theorem Region.le_whole (κ : Region) : κ.Le .whole := ⟨fun _ _ => trivial, fun _ _ => trivial, fun _ _ => trivial⟩

/-! ### Other registries -/

namespace World

theorem same_withRegistries (w : World) (t : Table String Registry) : w.Same .whole (w.withRegistries t) where
  home _ _ _ _ := trivial
  class_eq _ _ := rfl
  class_within _ c _ _ := c.within_whole
  module_eq _ _ := rfl
  module_within _ m _ _ := m.globals.within_whole
  misplaced_eq _ _ := rfl
  misplaced_within _ v _ _ := v.within_whole
  outside_eq := rfl
  outside_within := w.outside.within_whole

theorem global_withRegistries : (w.withRegistries t).global home name = w.global home name := rfl

theorem memberPath_withRegistries {names : List String} :
    (w.withRegistries t).memberPath v names = w.memberPath v names :=
  ((w.same_withRegistries t).concur_memberPath v.within_whole).1

theorem globalPath_withRegistries {d : DottedName} : (w.withRegistries t).globalPath home d = w.globalPath home d := by
  simp only [globalPath, global_withRegistries, memberPath_withRegistries]

theorem classAttribute?_withRegistries : (w.withRegistries t).classAttribute? c name = w.classAttribute? c name :=
  (w.same_withRegistries t).classAttribute?_eq c.within_whole

theorem take_withRegistries : (w.withRegistries t).take v name = w.take v name := by
  have hmember (name : String) : (w.withRegistries t).member? v name = w.member? v name :=
    (w.same_withRegistries t).member?_eq v.within_whole
  simp only [take, hmember]
  rfl

theorem chainAbove_withRegistries {bases : List ClassRef} : (w.withRegistries t).chainAbove bases = w.chainAbove bases := rfl

theorem declareClass_withRegistries {bases : List ClassRef} {attributes : Table String Value}
    {fields : Option (List Parameter)} (h : w.declareClass name bases attributes fields = .ok (id, x)) :
    (w.withRegistries t).declareClass name bases attributes fields = .ok (id, x.withRegistries t) := by
  have hmap : (w.withRegistries t).declareClass name bases attributes fields =
      (w.declareClass name bases attributes fields).map fun e => (e.1, e.2.withRegistries t) := by
    simp only [declareClass]
    split
    · rfl
    · rw [chainAbove_withRegistries]
      cases w.chainAbove bases <;> rfl
  rw [hmap, h]
  rfl

theorem parameterOf_withRegistries {type : DottedName} :
    (w.withRegistries t).parameterOf c name type = w.parameterOf c name type := by
  have hhome : (w.withRegistries t).requireHome c = w.requireHome c := by
    simp only [requireHome, classAttribute?_withRegistries]
    rfl
  simp only [parameterOf, classAttribute?_withRegistries, hhome]
  rfl

theorem signature_withRegistries {fields : List (Parameter × DottedName)} :
    (w.withRegistries t).signature fields = w.signature fields := by
  have hdisplay (v : Value) : (w.withRegistries t).display v = w.display v :=
    (w.same_withRegistries t).display_eq v v.within_whole
  simp only [signature, hdisplay]

theorem className_withRegistries : (w.withRegistries t).className c = w.className c := rfl

theorem setClass_withRegistries {f : DeclaredClass → DeclaredClass} :
    (w.withRegistries t).setClass id f = (w.setClass id f).withRegistries t := rfl

theorem setAttribute_withRegistries :
    (w.withRegistries t).setAttribute id name v = (w.setAttribute id name v).withRegistries t := rfl

theorem rename_withRegistries : (w.withRegistries t).rename id c name = (w.rename id c name).withRegistries t := rfl

theorem makeRecord_withRegistries {fields : List (String × DottedName)} (h : w.makeRecord id fields = .ok x) :
    (w.withRegistries t).makeRecord id fields = .ok (x.withRegistries t) := by
  have hmap : (w.withRegistries t).makeRecord id fields = (w.makeRecord id fields).map (·.withRegistries t) := by
    simp only [makeRecord, setAttribute_withRegistries, setClass_withRegistries, parameterOf_withRegistries,
      signature_withRegistries, classAttribute?_withRegistries, className_withRegistries, bind, Except.bind]
    cases List.mapM (m := Except Failure) _ _ with
    | error f => rfl
    | ok parameters =>
      simp only
      cases checkOrder false parameters with
      | error f => rfl
      | ok _ =>
        simp only
        split <;> rfl
  rw [hmap, h]
  rfl

theorem attachVariant_withRegistries {union variant : Nat} : (w.withRegistries t).attachVariant union variant name =
    ((w.attachVariant union variant name).1.withRegistries t, (w.attachVariant union variant name).2) := by
  have hspread (x : World) (v : Value) : (x.withRegistries t).spread v = x.spread v :=
    ((x.same_withRegistries t).concur_spread v.within_whole).1
  have hmember (x : World) (v : Value) (name : String) : (x.withRegistries t).member? v name = x.member? v name :=
    (x.same_withRegistries t).member?_eq v.within_whole
  simp only [attachVariant, rename_withRegistries, setAttribute_withRegistries, className_withRegistries, hspread, hmember]
  split
  · rfl
  · split
    · rfl
    · split <;> rfl

end World
end UnionBridge
