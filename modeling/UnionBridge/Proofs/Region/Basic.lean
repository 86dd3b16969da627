import UnionBridge.Proofs.Table
import UnionBridge.World.Instance

/-! Regions of a world: some of its classes, functions and modules. A value lies within a region if nothing in it leads
out of there. Two worlds that are the same in a region cannot be told apart by what lies within it. -/
namespace UnionBridge

/-- What is found first is found by any test that answers alike. -/
theorem findSome?_congr {α β : Type} {f g : α → Option β} {l : List α} (h : ∀ a ∈ l, f a = g a) :
    l.findSome? f = l.findSome? g := by
  induction l with
  | nil => rfl
  | cons a l ih =>
    obtain ⟨ha, hl⟩ := List.forall_mem_cons.mp h
    rw [List.findSome?_cons, List.findSome?_cons, ha, ih hl]

/-! ### Results that are the same -/

section Concur

variable {α β : Type} {P Q : α → Prop} {R : β → Prop} {x y : Except Failure α} {f g : α → Except Failure β}

/-- Two results are the same, and what comes well out of them has a property. -/
def Concur (P : α → Prop) (x y : Except Failure α) : Prop := x = y ∧ ∀ a, y = .ok a → P a

namespace Concur

theorem of_eq (h : x = y) : Concur (fun _ => True) x y := ⟨h, fun _ _ => trivial⟩

protected theorem ok {a : α} (h : P a) : Concur P (.ok a) (.ok a) :=
  ⟨rfl, fun _ ha => Except.ok.inj ha ▸ h⟩

protected theorem error {e : Failure} : Concur P (.error e) (.error e) :=
  ⟨rfl, fun _ ha => by cases ha⟩

theorem mono (h : Concur P x y) (hPQ : ∀ a, P a → Q a) : Concur Q x y := ⟨h.1, fun a ha => hPQ a (h.2 a ha)⟩

protected theorem bind (h : Concur P x y) (hf : ∀ a, P a → Concur R (f a) (g a)) : Concur R (x >>= f) (y >>= g) := by
  obtain ⟨rfl, hP⟩ := h
  cases x with
  | error e => exact .error
  | ok a => exact hf a (hP a rfl)

theorem bind_eq (h : x = y) (hf : ∀ a, Concur R (f a) (g a)) : Concur R (x >>= f) (y >>= g) :=
  (of_eq h).bind fun a _ => hf a

theorem mapError {k k' : Failure → Failure} (h : Concur P x y) (hk : ∀ e, k e = k' e) :
    Concur P (x.mapError k) (y.mapError k') := by
  obtain ⟨rfl, hP⟩ := h
  cases x with
  | error e =>
    simp only [Except.mapError, hk]
    exact .error
  | ok a => exact .ok (hP a rfl)

theorem mapM {f g : β → Except Failure α} {bs : List β} (h : ∀ b ∈ bs, Concur P (f b) (g b)) :
    Concur (∀ a ∈ ·, P a) (bs.mapM f) (bs.mapM g) := by
  induction bs with
  | nil => exact .ok (by simp)
  | cons b bs ih =>
    rw [List.mapM_cons, List.mapM_cons]
    refine (h b List.mem_cons_self).bind fun a ha => (ih fun b hb => h b (List.mem_cons_of_mem _ hb)).bind fun as has => ?_
    exact .ok (List.forall_mem_cons.mpr ⟨ha, has⟩)

theorem foldlM {f g : α → β → Except Failure α} {bs : List β} {a : α} (ha : P a)
    (h : ∀ a, P a → ∀ b ∈ bs, Concur P (f a b) (g a b)) : Concur P (bs.foldlM f a) (bs.foldlM g a) := by
  induction bs generalizing a with
  | nil => exact .ok ha
  | cons b bs ih =>
    rw [List.foldlM_cons, List.foldlM_cons]
    exact (h a ha b List.mem_cons_self).bind fun a' ha' => ih ha' fun a ha b hb => h a ha b (List.mem_cons_of_mem _ hb)

end Concur

end Concur

/-! ### Regions -/

structure Region where
  classes : Nat → Prop
  /-- Functions that modules define. -/
  functions : FunctionRef → Prop
  /-- Modules that were loaded. -/
  modules : Nat → Prop

/-- Everything there is. -/
def Region.whole : Region := ⟨fun _ => True, fun _ => True, fun _ => True⟩

/-- The module that defines a function. -/
def FunctionRef.home? : FunctionRef → Option Nat
  | .builtin _ => none
  | .conversion home _ | .dispatcher home _ | .registrar home _ => some home

/-- One region is part of another. -/
structure Region.Le (κ ρ : Region) : Prop where
  classes : ∀ id, κ.classes id → ρ.classes id
  functions : ∀ f, κ.functions f → ρ.functions f
  modules : ∀ id, κ.modules id → ρ.modules id

theorem Region.Le.refl (ρ : Region) : ρ.Le ρ := ⟨fun _ h => h, fun _ h => h, fun _ h => h⟩

theorem Region.Le.trans {κ ρ σ : Region} (h : κ.Le ρ) (h' : ρ.Le σ) : κ.Le σ where
  classes id hid := h'.classes id (h.classes id hid)
  functions f hf := h'.functions f (h.functions f hf)
  modules id hid := h'.modules id (h.modules id hid)

section Within

variable (ρ : Region)

def ClassRef.Within : ClassRef → Prop
  | .builtin _ => True
  | .declared id => ρ.classes id

def FunctionRef.Within : FunctionRef → Prop
  | .builtin _ => True
  | f => ρ.functions f

def ModuleRef.Within : ModuleRef → Prop
  | .library _ => True
  | .loaded id => ρ.modules id

/-- Something that is handed on can only lead to a class, by making instances of it. -/
def Intrinsic.Within (i : Intrinsic) : Prop := ∀ c, i.reaction = .constructs c → c.Within ρ

mutual

def Value.Within : Value → Prop
  | .box _ v => v.Within
  | .carrier _ v es => v.Within ∧ Value.ListWithin es
  | .record id fields => ρ.classes id ∧ Value.FieldsWithin fields
  | .bare id => ρ.classes id
  | .cls c => c.Within ρ
  | .function f => f.Within ρ
  | .module m => m.Within ρ
  | .tuple items | .list items | .iterator _ items => Value.ListWithin items
  | .intrinsic i => i.Within ρ
  | _ => True

def Value.ListWithin : List Value → Prop
  | [] => True
  | v :: rest => v.Within ∧ Value.ListWithin rest

def Value.FieldsWithin : List (String × Value) → Prop
  | [] => True
  | (_, v) :: rest => v.Within ∧ Value.FieldsWithin rest

end

def Parameter.Within (p : Parameter) : Prop := ∀ v, p.default = some v → v.Within ρ

def Supplied.Within (s : Supplied) : Prop := (∀ v ∈ s.positional, v.Within ρ) ∧ ∀ e ∈ s.keyword, e.2.Within ρ

/-- Whatever a table holds lies within a region. -/
def Table.Within {κ : Type} [DecidableEq κ] (t : Table κ Value) : Prop := ∀ k v, t.get? k = some v → v.Within ρ

structure DeclaredClass.Within (c : DeclaredClass) : Prop where
  bases : ∀ d ∈ c.bases, d.Within ρ
  chain : ∀ d ∈ c.chain, d.Within ρ
  attributes : c.attributes.Within ρ
  fields : ∀ ps, c.fields = some ps → ∀ p ∈ ps, p.Within ρ

/-- For what lies within a region, what is outside of the program has nothing that leads out of there. -/
structure Outside.Within (o : Outside) : Prop where
  attributes : ∀ v name a, v.Within ρ → o.attribute? v name = some a → a.Within ρ
  answers : ∀ f s v, f.Within ρ → s.Within ρ → o.answer? f s = some (.ok v) → v.Within ρ

end Within

/-- What is outside of the program leads to no class, function or module that it is not given. -/
def Outside.Closed (o : Outside) : Prop := ∀ ρ, o.Within ρ

/-- Two worlds have the same classes and modules in a region, and the same outside, and nothing of that leads out of the
region. -/
structure World.Same (ρ : Region) (w w' : World) : Prop where
  home : ∀ (f : FunctionRef) home, f.Within ρ → f.home? = some home → ρ.modules home
  class_eq : ∀ id, ρ.classes id → w'.classes[id]? = w.classes[id]?
  class_within : ∀ id c, ρ.classes id → w.classes[id]? = some c → c.Within ρ
  module_eq : ∀ id, ρ.modules id → w'.modules[id]? = w.modules[id]?
  module_within : ∀ id m, ρ.modules id → w.modules[id]? = some m → m.globals.Within ρ
  misplaced_eq : ∀ f : FunctionRef, f.Within ρ → w'.misplaced.get? f = w.misplaced.get? f
  misplaced_within : ∀ (f : FunctionRef) v, f.Within ρ → w.misplaced.get? f = some v → v.Within ρ
  outside_eq : w'.outside = w.outside
  outside_within : w.outside.Within ρ

/-! ### Values and tables -/

section

variable {ρ : Region} {v : Value} {vs : List Value}

@[simp]
theorem Value.listWithin_iff : Value.ListWithin ρ vs ↔ ∀ v ∈ vs, v.Within ρ := by
  induction vs with
  | nil => simp [ListWithin]
  | cons v vs ih => simp [ListWithin, ih]

@[simp]
theorem Value.fieldsWithin_iff {fields : List (String × Value)} :
    Value.FieldsWithin ρ fields ↔ ∀ e ∈ fields, e.2.Within ρ := by
  induction fields with
  | nil => simp [FieldsWithin]
  | cons e fields ih =>
    obtain ⟨name, v⟩ := e
    simp [FieldsWithin, ih]

namespace Value

variable {c : ClassRef} {id : Nat} {fields : List (String × Value)} {k : Carrier}

@[simp]
theorem within_box {c : String} : (Value.box c v).Within ρ ↔ v.Within ρ := Iff.rfl

@[simp]
theorem within_carrier : (Value.carrier k v vs).Within ρ ↔ v.Within ρ ∧ ∀ e ∈ vs, e.Within ρ :=
  and_congr_right fun _ => listWithin_iff

@[simp]
theorem within_record : (Value.record id fields).Within ρ ↔ ρ.classes id ∧ ∀ e ∈ fields, e.2.Within ρ :=
  and_congr_right fun _ => fieldsWithin_iff

@[simp]
theorem within_bare : (Value.bare id).Within ρ ↔ ρ.classes id := Iff.rfl

@[simp]
theorem within_cls : (Value.cls c).Within ρ ↔ c.Within ρ := Iff.rfl

@[simp]
theorem within_function {f : FunctionRef} : (Value.function f).Within ρ ↔ f.Within ρ := Iff.rfl

@[simp]
theorem within_module {m : ModuleRef} : (Value.module m).Within ρ ↔ m.Within ρ := Iff.rfl

@[simp]
theorem within_tuple : (Value.tuple vs).Within ρ ↔ ∀ v ∈ vs, v.Within ρ := listWithin_iff

@[simp]
theorem within_list : (Value.list vs).Within ρ ↔ ∀ v ∈ vs, v.Within ρ := listWithin_iff

@[simp]
theorem within_iterator {ofList : Bool} : (Value.iterator ofList vs).Within ρ ↔ ∀ v ∈ vs, v.Within ρ :=
  listWithin_iff

@[simp]
theorem within_intrinsic {i : Intrinsic} : (Value.intrinsic i).Within ρ ↔ i.Within ρ := Iff.rfl

@[simp]
theorem within_none : Value.none.Within ρ := trivial

@[simp]
theorem within_bool (b : Bool) : (Value.bool b).Within ρ := trivial

@[simp]
theorem within_int (n : Int) : (Value.int n).Within ρ := trivial

@[simp]
theorem within_float (x : Float) : (Value.float x).Within ρ := trivial

@[simp]
theorem within_text (s : String) : (Value.text s).Within ρ := trivial

@[simp]
theorem within_writtenInt (c : String) (n : Int) : (Value.writtenInt c n).Within ρ := trivial

@[simp]
theorem within_writtenText (c s : String) : (Value.writtenText c s).Within ρ := trivial

@[simp]
theorem within_registry (name : String) : (Value.registry name).Within ρ := trivial

@[simp]
theorem within_feature (name : String) : (Value.feature name).Within ρ := trivial

end Value

@[simp]
theorem ClassRef.within_builtin (b : Builtin) : (ClassRef.builtin b).Within ρ := trivial

@[simp]
theorem ClassRef.within_declared {id : Nat} : (ClassRef.declared id).Within ρ ↔ ρ.classes id := Iff.rfl

@[simp]
theorem FunctionRef.within_builtin (f : BuiltinFunction) : (FunctionRef.builtin f).Within ρ := trivial

@[simp]
theorem ModuleRef.within_library (path : String) : (ModuleRef.library path).Within ρ := trivial

@[simp]
theorem ModuleRef.within_loaded {id : Nat} : (ModuleRef.loaded id).Within ρ ↔ ρ.modules id := Iff.rfl

theorem Intrinsic.within_of {i : Intrinsic} (h : ∀ c, i.reaction ≠ .constructs c) : i.Within ρ :=
  fun c hc => absurd hc (h c)

section Le

variable {κ : Region}

theorem ClassRef.Within.mono {c : ClassRef} (h : c.Within κ) (hle : κ.Le ρ) : c.Within ρ := by
  cases c with
  | builtin b => trivial
  | declared id => exact hle.classes id h

theorem FunctionRef.Within.mono {f : FunctionRef} (h : f.Within κ) (hle : κ.Le ρ) : f.Within ρ := by
  cases f with
  | builtin f => trivial
  | _ => exact hle.functions _ h

theorem ModuleRef.Within.mono {m : ModuleRef} (h : m.Within κ) (hle : κ.Le ρ) : m.Within ρ := by
  cases m with
  | library path => trivial
  | loaded id => exact hle.modules id h

mutual

theorem Value.Within.mono (hle : κ.Le ρ) : ∀ {v : Value}, v.Within κ → v.Within ρ
  | .box _ _, h => within_box.mpr ((within_box.mp h).mono hle)
  | .carrier _ _ _, h => by
    obtain ⟨hv, hes⟩ := within_carrier.mp h
    exact within_carrier.mpr ⟨hv.mono hle, Value.list_mono hle hes⟩
  | .record _ _, h => by
    obtain ⟨hid, hfields⟩ := within_record.mp h
    exact within_record.mpr ⟨hle.classes _ hid, Value.fields_mono hle hfields⟩
  | .bare _, h => within_bare.mpr (hle.classes _ (within_bare.mp h))
  | .cls _, h => within_cls.mpr ((within_cls.mp h).mono hle)
  | .function _, h => within_function.mpr ((within_function.mp h).mono hle)
  | .module _, h => within_module.mpr ((within_module.mp h).mono hle)
  | .tuple _, h => within_tuple.mpr (Value.list_mono hle (within_tuple.mp h))
  | .list _, h => within_list.mpr (Value.list_mono hle (within_list.mp h))
  | .iterator _ _, h => within_iterator.mpr (Value.list_mono hle (within_iterator.mp h))
  | .intrinsic _, h => within_intrinsic.mpr fun c hc => (within_intrinsic.mp h c hc).mono hle
  | .none, _ | .bool _, _ | .int _, _ | .float _, _ | .text _, _ | .writtenInt _ _, _ | .writtenText _ _, _ | .registry _, _
  | .feature _, _ => trivial

theorem Value.list_mono (hle : κ.Le ρ) : ∀ {vs : List Value}, (∀ v ∈ vs, v.Within κ) → ∀ v ∈ vs, v.Within ρ
  | [], _ => fun _ hv => absurd hv List.not_mem_nil
  | _ :: _, h => by
    obtain ⟨hv, hvs⟩ := List.forall_mem_cons.mp h
    exact List.forall_mem_cons.mpr ⟨hv.mono hle, Value.list_mono hle hvs⟩

theorem Value.fields_mono (hle : κ.Le ρ) :
    ∀ {fields : List (String × Value)}, (∀ e ∈ fields, e.2.Within κ) → ∀ e ∈ fields, e.2.Within ρ
  | [], _ => fun _ he => absurd he List.not_mem_nil
  | (_, _) :: _, h => by
    obtain ⟨hv, hfields⟩ := List.forall_mem_cons.mp h
    exact List.forall_mem_cons.mpr ⟨hv.mono hle, Value.fields_mono hle hfields⟩

end

theorem Table.Within.mono {α : Type} [DecidableEq α] {t : Table α Value} (h : t.Within κ) (hle : κ.Le ρ) : t.Within ρ :=
  fun k v hv => (h k v hv).mono hle

theorem DeclaredClass.Within.mono {c : DeclaredClass} (h : c.Within κ) (hle : κ.Le ρ) : c.Within ρ where
  bases d hd := (h.bases d hd).mono hle
  chain d hd := (h.chain d hd).mono hle
  attributes := h.attributes.mono hle
  fields ps hps p hp v hv := (h.fields ps hps p hp v hv).mono hle

end Le

theorem Value.within_classOf (h : v.Within ρ) : v.classOf.Within ρ := by
  cases v with
  | record id fields => exact (within_record.mp h).1
  | bare id => exact within_bare.mp h
  | cls c => cases c <;> trivial
  | function f => cases f <;> trivial
  | _ => trivial

namespace Table

variable {κ : Type} [DecidableEq κ] {t : Table κ Value}

theorem Within.of_entries (h : ∀ e ∈ t.entries, e.2.Within ρ) : t.Within ρ :=
  fun _ _ hk => h _ (mem_entries_of_get? hk)

theorem within_empty : (∅ : Table κ Value).Within ρ := fun _ _ h => by cases h

theorem Within.insert (h : t.Within ρ) (k : κ) (hv : v.Within ρ) : (t.insert k v).Within ρ := by
  intro k' v' hk'
  rw [get?_insert] at hk'
  split at hk'
  · exact Option.some.inj hk' ▸ hv
  · exact h k' v' hk'

theorem Within.insertAll {es : List (κ × Value)} (h : t.Within ρ) (hes : ∀ e ∈ es, e.2.Within ρ) :
    (t.insertAll es).Within ρ := by
  induction es generalizing t with
  | nil => exact h
  | cons e es ih =>
    rw [insertAll_cons]
    exact ih (h.insert _ (hes e List.mem_cons_self)) fun e he => hes e (List.mem_cons_of_mem _ he)

end Table

theorem Supplied.within_of (h : ∀ v ∈ vs, v.Within ρ) : (Supplied.of vs).Within ρ :=
  ⟨h, fun _ he => absurd he List.not_mem_nil⟩

/-- Calling what is outside gives nothing that leads out. -/
theorem Outside.Within.concur_call {o : Outside} {f : Value} {s : Supplied} (h : o.Within ρ) (hf : f.Within ρ)
    (hs : s.Within ρ) : Concur (·.Within ρ) (o.call f s) (o.call f s) := by
  refine ⟨rfl, fun v hv => ?_⟩
  rw [Outside.call] at hv
  cases ha : o.answer? f s with
  | none =>
    rw [ha] at hv
    cases hv
  | some r =>
    rw [ha] at hv
    exact h.answers f s v hf hs (ha.trans (congrArg some hv))

theorem Outside.closed_unknown : Outside.unknown.Closed := by
  intro ρ
  constructor
  · intro _ _ _ _ h
    cases h
  · intro _ _ _ _ _ h
    cases h

end

end UnionBridge
