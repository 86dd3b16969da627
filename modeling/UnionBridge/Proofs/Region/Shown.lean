import UnionBridge.Proofs.Region.Basic

/-! Classes, names and texts in a region of two worlds. -/
namespace UnionBridge.World

/-! ### The texts of values, form by form -/

section

variable (w : World) (v : Value) (vs : List Value) (fields : List (String × Value))

theorem display_box {c : String} : w.display (.box c v) = c ++ "(value=" ++ w.display v ++ ")" := rfl

theorem display_effectful : w.display (.carrier .effectful v vs) =
    "Effectful(value=" ++ w.display v ++ ", effects=" ++ tupleText (w.displayList vs) ++ ")" := rfl

theorem display_record (id : Nat) : w.display (.record id fields) =
    w.qualifiedName (.declared id) ++ "(" ++ ", ".intercalate (w.displayFields fields) ++ ")" := rfl

theorem display_bare (id : Nat) : w.display (.bare id) = opaqueText (w.qualifiedName (.declared id)) := rfl

theorem display_cls (c : ClassRef) : w.display (.cls c) = w.classText c := rfl

theorem display_module (m : ModuleRef) : w.display (.module m) = w.moduleText m := rfl

theorem display_tuple : w.display (.tuple vs) = tupleText (w.displayList vs) := rfl

theorem display_list : w.display (.list vs) = "[" ++ ", ".intercalate (w.displayList vs) ++ "]" := rfl

theorem displayList_cons : w.displayList (v :: vs) = w.display v :: w.displayList vs := rfl

theorem displayFields_cons (name : String) :
    w.displayFields ((name, v) :: fields) = (name ++ "=" ++ w.display v) :: w.displayFields fields := rfl

end

namespace Same

variable {ρ : Region} {w w' : World} {c : ClassRef} {v target : Value} {m : ModuleRef} {id : Nat}

variable (h : w.Same ρ w')
include h

/-- Within a region every question to a single world has an answer that stays there. -/
theorem here : w.Same ρ w where
  home := h.home
  class_eq _ _ := rfl
  class_within := h.class_within
  module_eq _ _ := rfl
  module_within := h.module_within
  misplaced_eq _ _ := rfl
  misplaced_within := h.misplaced_within
  outside_eq := rfl
  outside_within := h.outside_within

/-! ### Classes -/

theorem class?_eq (hc : c.Within ρ) : w'.class? c = w.class? c := by
  cases c with
  | builtin b => rfl
  | declared id => exact h.class_eq id hc

theorem within_class? {d : DeclaredClass} (hc : c.Within ρ) (hd : w.class? c = some d) : d.Within ρ := by
  cases c with
  | builtin b => cases hd
  | declared id => exact h.class_within id d hc hd

theorem chain_eq (hc : c.Within ρ) : w'.chain c = w.chain c := by
  cases c with
  | builtin b => rfl
  | declared id => simp only [chain, h.class?_eq hc]

theorem within_chain (hc : c.Within ρ) : ∀ d ∈ w.chain c, d.Within ρ := by
  intro d hd
  cases c with
  | builtin b =>
    obtain ⟨b', _, rfl⟩ := List.mem_map.mp hd
    trivial
  | declared id =>
    cases hclass : w.class? (.declared id) with
    | none => simp [chain, hclass] at hd
    | some decl =>
      simp only [chain, hclass, Option.elim_some] at hd
      exact (h.within_class? hc hclass).chain d hd

theorem className_eq (hc : c.Within ρ) : w'.className c = w.className c := by
  cases c with
  | builtin b => rfl
  | declared id => simp only [className, h.class?_eq hc]

theorem qualifiedName_eq (hc : c.Within ρ) : w'.qualifiedName c = w.qualifiedName c := by
  cases c with
  | builtin b => rfl
  | declared id => simp only [qualifiedName, h.class?_eq hc]

theorem isInstance_eq (hv : v.Within ρ) : w'.isInstance v c = w.isInstance v c := by
  simp only [isInstance, isSubclass, h.chain_eq (Value.within_classOf hv)]

theorem typeName_eq (hv : v.Within ρ) : w'.typeName v = w.typeName v := h.className_eq (Value.within_classOf hv)

/-! ### Modules -/

theorem globals_eq (hm : ρ.modules id) : w'.globals id = w.globals id := by
  simp only [globals, module?, h.module_eq id hm]

theorem within_globals (hm : ρ.modules id) : (w.globals id).Within ρ := by
  intro name v hv
  cases hmodule : w.module? id with
  | none => simp [globals, hmodule] at hv
  | some m =>
    simp only [globals, hmodule, Option.elim_some] at hv
    exact h.module_within id m hm hmodule name v hv

theorem moduleLabel?_eq (hm : m.Within ρ) : w'.moduleLabel? m = w.moduleLabel? m := by
  cases m with
  | library path => rfl
  | loaded id => simp only [moduleLabel?, h.globals_eq hm]

theorem moduleFile?_eq (hm : m.Within ρ) : w'.moduleFile? m = w.moduleFile? m := by
  cases m with
  | library path => rfl
  | loaded id => simp only [moduleFile?, h.globals_eq hm]

/-! ### Texts -/

theorem classText_eq (hc : c.Within ρ) : w'.classText c = w.classText c := by
  simp only [classText, h.class?_eq hc, h.className_eq hc, h.qualifiedName_eq hc]

omit h

mutual

theorem display_eq (h : w.Same ρ w') : ∀ v : Value, v.Within ρ → w'.display v = w.display v
  | .box _ v, hv => by rw [display_box, display_box, display_eq h v (Value.within_box.mp hv)]
  | .carrier .effectful v es, hv => by
    obtain ⟨hv, hes⟩ := Value.within_carrier.mp hv
    rw [display_effectful, display_effectful, display_eq h v hv, displayList_eq h es hes]
  | .record id fields, hv => by
    obtain ⟨hid, hfields⟩ := Value.within_record.mp hv
    rw [display_record, display_record, displayFields_eq h fields hfields,
      h.qualifiedName_eq (ClassRef.within_declared.mpr hid)]
  | .bare id, hv => by
    rw [display_bare, display_bare, h.qualifiedName_eq (ClassRef.within_declared.mpr (Value.within_bare.mp hv))]
  | .cls c, hv => by rw [display_cls, display_cls, h.classText_eq (Value.within_cls.mp hv)]
  | .module m, hv => by
    have hm := Value.within_module.mp hv
    simp only [display_module, moduleText, h.moduleLabel?_eq hm, h.moduleFile?_eq hm]
  | .tuple items, hv => by rw [display_tuple, display_tuple, displayList_eq h items (Value.within_tuple.mp hv)]
  | .list items, hv => by rw [display_list, display_list, displayList_eq h items (Value.within_list.mp hv)]
  | .carrier (.written _) _ _, _ | .none, _ | .bool _, _ | .int _, _ | .float _, _ | .text _, _
  | .writtenInt _ _, _ | .writtenText _ _, _ | .function _, _ | .registry _, _ | .iterator _ _, _ | .feature _, _
  | .intrinsic _, _ => rfl

theorem displayList_eq (h : w.Same ρ w') : ∀ vs : List Value, (∀ v ∈ vs, v.Within ρ) → w'.displayList vs = w.displayList vs
  | [], _ => rfl
  | v :: vs, hvs => by
    obtain ⟨hv, hvs⟩ := List.forall_mem_cons.mp hvs
    rw [displayList_cons, displayList_cons, display_eq h v hv, displayList_eq h vs hvs]

theorem displayFields_eq (h : w.Same ρ w') : ∀ fields : List (String × Value), (∀ e ∈ fields, e.2.Within ρ) →
    w'.displayFields fields = w.displayFields fields
  | [], _ => rfl
  | (name, v) :: fields, hf => by
    obtain ⟨hv, hfields⟩ := List.forall_mem_cons.mp hf
    rw [displayFields_cons, displayFields_cons, display_eq h v hv, displayFields_eq h fields hfields]

end

include h

theorem displayed_eq (hv : v.Within ρ) : w'.displayed v = w.displayed v := by
  simp only [displayed, h.display_eq v hv]

theorem targetName_eq (hv : v.Within ρ) : w'.targetName v = w.targetName v := by
  cases v with
  | cls c => exact h.qualifiedName_eq (Value.within_cls.mp hv)
  | function f => rfl
  | intrinsic i => rfl
  | _ => exact h.display_eq _ hv

theorem rejection_eq (hv : v.Within ρ) (ht : target.Within ρ) (reason : Option String) (cause : Option ErrorKind) :
    Failure.rejection w' v target reason cause = Failure.rejection w v target reason cause := by
  simp only [Failure.rejection, h.display_eq v hv, h.targetName_eq ht]

theorem exhaustion_eq (hv : v.Within ρ) (dest case : String) (tried : List String) :
    Failure.exhaustion w' v dest case tried = Failure.exhaustion w v dest case tried := by
  simp only [Failure.exhaustion, h.display_eq v hv]

theorem foreign_eq (hv : v.Within ρ) (union : String) : Failure.foreign w' v union = Failure.foreign w v union := by
  simp only [Failure.foreign, h.qualifiedName_eq (Value.within_classOf hv)]

end Same

end UnionBridge.World
