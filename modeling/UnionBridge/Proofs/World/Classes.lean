import UnionBridge.Proofs.Execution.Loading

/-! Classes that are declared, given fields and made variants of a union: what becomes of each of them, and what a union
answers about its variants. -/
namespace UnionBridge

namespace DeclaredClass

/-- A class under the name that it has as a variant of a union. -/
def named (d : DeclaredClass) (owner name : String) : DeclaredClass := { d with name, qualname := s!"{owner}.{name}" }

/-- A class with one more variant, after those that it had. -/
def withVariant (d : DeclaredClass) (es : List (String × Nat)) (name : String) (n : Nat) : DeclaredClass :=
  let listed := (es.map fun e => Value.text e.1) ++ [.text name]
  { d with attributes := (d.attributes.insert name (.cls (.declared n))).insert World.variantList (.tuple listed) }

/-- A class that has got some variants: it has them as attributes under their names, which it lists, and nothing but the
class of all objects is above it. -/
structure Collects (d : DeclaredClass) (k : Nat) (es : List (String × Nat)) : Prop where
  chain : d.chain = [.declared k, .builtin .object]
  listed : d.attributes.get? World.variantList = if es.isEmpty then none else some (.tuple (es.map fun e => .text e.1))
  held : ∀ e ∈ es, d.attributes.get? e.1 = some (.cls (.declared e.2))
  allowed : ∀ e ∈ es, ∃ owner, World.refusal? owner e.1 = none

namespace Collects

variable {d : DeclaredClass} {k n : Nat} {es : List (String × Nat)} {name owner : String}

/-- No variant is called what the list of the variants is called. -/
theorem ne_variantList (h : d.Collects k es) {e : String × Nat} (he : e ∈ es) : e.1 ≠ World.variantList := by
  intro heq
  have hheld := h.held e he
  rw [heq, h.listed] at hheld
  split at hheld <;> cases hheld

/-- A class gets one more variant. -/
theorem extend (h : d.Collects k es) (hnew : name ∉ es.map Prod.fst) (hname : name ≠ World.variantList)
    (howner : World.refusal? owner name = none) :
    (d.withVariant es name n).Collects k (es ++ [(name, n)]) where
  chain := h.chain
  listed := by simp [withVariant]
  held e he := by
    simp only [List.mem_append, List.mem_singleton] at he
    rcases he with he | rfl
    · have hne : name ≠ e.1 := fun heq => hnew (heq ▸ List.mem_map_of_mem he)
      rw [withVariant, Table.get?_insert_of_ne _ _ (h.ne_variantList he).symm, Table.get?_insert_of_ne _ _ hne,
        h.held e he]
    · rw [withVariant, Table.get?_insert_of_ne _ _ hname.symm, Table.get?_insert_self]
  allowed e he := by
    simp only [List.mem_append, List.mem_singleton] at he
    rcases he with he | rfl
    · exact h.allowed e he
    · exact ⟨owner, howner⟩

/-- An attribute that is called neither like a variant nor like their list changes nothing about them. -/
theorem insert (h : d.Collects k es) (hname : name ∉ es.map Prod.fst) (hlist : name ≠ World.variantList) (v : Value) :
    { d with attributes := d.attributes.insert name v }.Collects k es where
  chain := h.chain
  listed := by rw [Table.get?_insert_of_ne _ _ hlist, h.listed]
  held e he := by
    have hne : name ≠ e.1 := fun heq => hname (heq ▸ List.mem_map_of_mem he)
    rw [Table.get?_insert_of_ne _ _ hne, h.held e he]
  allowed := h.allowed

end Collects

end DeclaredClass

namespace World

variable {w w' : World} {id k n j : Nat} {name owner : String} {d : DeclaredClass} {v : Value} {bases : List ClassRef}
  {attributes : Table String Value} {fields : Option (List Parameter)} {es : List (String × Nat)}
  {f g : DeclaredClass → DeclaredClass}

/-! ### Changing a class -/

theorem class?_setClass (w : World) (id j : Nat) (f : DeclaredClass → DeclaredClass) :
    (w.setClass id f).class? (.declared j) =
      if id = j then (w.class? (.declared j)).map f else w.class? (.declared j) := by
  simp only [setClass, class?, List.getElem?_modify]
  split <;> simp

theorem setClass_setClass : (w.setClass id f).setClass id g = w.setClass id (g ∘ f) := by
  simp only [setClass, List.modify_modify_eq]

theorem modules_attachVariant (w : World) (union variant : Nat) (name : String) :
    (w.attachVariant union variant name).1.modules = w.modules := by
  simp only [attachVariant]
  split
  · rfl
  · split
    · rfl
    · split <;> rfl

/-! ### Declaring -/

/-- A class is declared: it is the last one, and nothing else changes. -/
theorem declareClass_eq_ok (h : w.declareClass name bases attributes fields = .ok (id, w')) :
    id = w.classes.length ∧ ∃ above, w.chainAbove bases = .ok above ∧
      w' = { w with classes := w.classes ++ [⟨name, name, name, if bases.isEmpty then [.builtin .object] else bases,
        .declared id :: above, w.completed name above attributes, fields⟩] } := by
  simp only [declareClass] at h
  split at h
  · cases h
  · obtain ⟨above, habove, h⟩ := Except.exists_of_bind_eq_ok h
    obtain ⟨rfl, rfl⟩ := Prod.mk.inj (Except.ok.inj h)
    exact ⟨rfl, above, habove, rfl⟩

/-- A class without a base that says that it has no places, and something about itself, gets nothing more. -/
theorem declareClass_alone (hslots : attributes.contains "__slots__") (hdoc : attributes.contains "__doc__")
    (h : w.declareClass name [] attributes fields = .ok (id, w')) :
    id = w.classes.length ∧ w' = { w with classes := w.classes ++ [⟨name, name, name, [.builtin .object],
      [.declared w.classes.length, .builtin .object], attributes, fields⟩] } := by
  obtain ⟨rfl, above, habove, rfl⟩ := declareClass_eq_ok h
  obtain rfl : [.builtin .object] = above := Except.ok.inj habove
  have hcompleted : w.completed name [.builtin .object] attributes = attributes := by
    simp only [completed, hslots, Bool.or_true, if_true, List.map_nil]
    exact if_pos hdoc
  rw [hcompleted]
  exact ⟨rfl, rfl⟩

/-! ### Fields -/

theorem name_parameterOf {c : ClassRef} {type : DottedName} {p : Parameter} (h : w.parameterOf c name type = .ok p) :
    p.name = name := by
  unfold parameterOf at h
  extract_lets default finish at h
  have hfinish (u : PUnit) (h : finish u = .ok p) : p.name = name := by
    simp only [finish] at h
    split at h <;> cases h
    rfl
  split at h
  · obtain ⟨u, _, h⟩ := Except.exists_of_bind_eq_ok h
    exact hfinish u h
  · exact hfinish () h

theorem names_parameters {c : ClassRef} {entries : List (String × DottedName)} {ps : List Parameter}
    (h : entries.mapM (fun (field, type) => w.parameterOf c field type) = .ok ps) :
    ps.map (·.name) = entries.map Prod.fst := by
  induction entries generalizing ps with
  | nil =>
    cases h
    rfl
  | cons e entries ih =>
    rw [List.mapM_cons] at h
    obtain ⟨p, hp, h⟩ := Except.exists_of_bind_eq_ok h
    obtain ⟨ps, hps, h⟩ := Except.exists_of_bind_eq_ok h
    cases h
    rw [List.map_cons, List.map_cons, name_parameterOf hp, ih hps]

/-- A class gets fields, and is the same class otherwise. -/
theorem makeRecord_eq_ok {entries : List (String × DottedName)} (h : w.makeRecord id entries = .ok w') :
    ∃ g, w' = w.setClass id g ∧ ∀ d, (g d).givenName = d.givenName ∧ (g d).bases = d.bases ∧
      (g d).fields.map (·.map (·.name)) = some (Table.insertAll ∅ entries).keys := by
  unfold makeRecord at h
  extract_lets c name w₁ entries' at h
  obtain ⟨ps, hps, h⟩ := Except.exists_of_bind_eq_ok h
  obtain ⟨_, _, h⟩ := Except.exists_of_bind_eq_ok h
  extract_lets typed docText w₂ at h
  have hnames : ps.map (·.name) = (Table.insertAll ∅ entries).keys := names_parameters hps
  split at h
  · obtain rfl := Except.ok.inj h
    refine ⟨_, (congrArg (setClass · id _) setClass_setClass).trans setClass_setClass, fun d => ⟨rfl, rfl, ?_⟩⟩
    exact congrArg some hnames
  · obtain rfl : w₂ = w' := Except.ok.inj h
    exact ⟨_, setClass_setClass, fun d => ⟨rfl, rfl, congrArg some hnames⟩⟩

/-! ### Attributes -/

/-- What may become an attribute of a class is found there. -/
theorem classAttribute?_of_own (hd : w.class? (.declared k) = some d) (hchain : d.chain.head? = some (.declared k))
    (hv : d.attributes.get? name = some v) (hname : refusal? owner name = none) :
    w.classAttribute? (.declared k) name = some v := by
  have hown (reader : String) : w.ownAttribute? reader name (.declared k) = some v := by
    simp only [ownAttribute?, hd, Option.bind_some, hv]
  have hinherited : w.inherited? (.declared k) name = some v := by
    obtain ⟨above, habove⟩ := List.head?_eq_some_iff.mp hchain
    have hclasses : w.chain (.declared k) = .declared k :: above := by simp [chain, hd, habove]
    rw [inherited?, hclasses, List.findSome?_cons, hown]
  have hdata : w.classData? (.declared k) name = none ∨ w.classData? (.declared k) name = some v := by
    unfold classData?
    split
    case h_9 | h_10 | h_11 =>
      right
      simp only [hown]
      rfl
    case h_17 => exact .inl rfl
    all_goals cases hname
  rw [classAttribute?]
  split
  · exact hown _
  · rcases hdata with hdata | hdata
    · rw [hdata, hinherited]
      rfl
    · rw [hdata]
      rfl

theorem provision?_variantList (b : Builtin) (hb : b = .object ∨ b = .type) : b.provision? variantList = none := by
  rcases hb with rfl | rfl <;> decide +kernel

/-- The list of its variants is found in a class itself or nowhere. -/
theorem classAttribute?_variantList (hd : w.class? (.declared k) = some d)
    (hchain : d.chain = [.declared k, .builtin .object]) :
    w.classAttribute? (.declared k) variantList = d.attributes.get? variantList := by
  have hclasses : w.chain (.declared k) = [.declared k, .builtin .object] := by simp [chain, hd, hchain]
  have hobject : w.ownAttribute? (w.qualifiedName (.declared k)) variantList (.builtin .object) = none := by
    unfold ownAttribute?
    simp only [provision?_variantList _ (.inl rfl)]
    rfl
  have hmeta : w.fromMetaclass? (.declared k) variantList = none := by
    unfold fromMetaclass?
    simp only [provision?_variantList _ (.inr rfl)]
    rfl
  have hdata : w.classData? (.declared k) variantList = none := rfl
  have hneq : variantList ≠ "__abstractmethods__" := by decide
  have hinherited : w.inherited? (.declared k) variantList = d.attributes.get? variantList := by
    rw [inherited?, hclasses, List.findSome?_cons, List.findSome?_cons, hobject]
    simp only [ownAttribute?, hd, Option.bind_some, List.findSome?_nil]
    cases d.attributes.get? variantList <;> rfl
  rw [classAttribute?, if_neg hneq, hdata, hmeta, hinherited]
  cases d.attributes.get? variantList <;> rfl

theorem member_of_own (hd : w.class? (.declared k) = some d) (hchain : d.chain.head? = some (.declared k))
    (hv : d.attributes.get? name = some v) (hname : refusal? owner name = none) :
    w.member (.cls (.declared k)) name = .ok v := by
  have hmember : w.member? (.cls (.declared k)) name = some v := classAttribute?_of_own hd hchain hv hname
  simp only [member, overridden?, hmember]

/-! ### Variants -/

section Collecting

variable (hk : w.class? (.declared k) = some d) (hd : d.Collects k es)
include hk hd

theorem member_of_collects {e : String × Nat} (he : e ∈ es) :
    w.member (.cls (.declared k)) e.1 = .ok (.cls (.declared e.2)) := by
  obtain ⟨owner, howner⟩ := hd.allowed e he
  exact member_of_own hk (by rw [hd.chain]; rfl) (hd.held e he) howner

theorem variantNames_of_collects :
    w.variantNames (.cls (.declared k)) = .ok (es.map fun e => .text e.1) := by
  have hlisted : w.member? (.cls (.declared k)) variantList = _ :=
    (classAttribute?_variantList hk hd.chain).trans hd.listed
  rw [variantNames, hlisted]
  cases es <;> rfl

/-- A union lists its variants in the order in which it got them. -/
theorem variantsOf_of_collects :
    w.variantsOf (.cls (.declared k)) = .ok (es.map fun e => .cls (.declared e.2)) := by
  have hmap (es' : List (String × Nat)) (hsub : ∀ e ∈ es', e ∈ es) :
      ((es'.map fun e => Value.text e.1).mapM fun name => do w.member (.cls (.declared k)) (← w.textOf name)) =
        .ok (es'.map fun e => .cls (.declared e.2)) := by
    induction es' with
    | nil => rfl
    | cons e es' ih =>
      have hmember := member_of_collects hk hd (hsub e List.mem_cons_self)
      simp only [List.map_cons, List.mapM_cons]
      rw [ih fun e he => hsub e (List.mem_cons_of_mem _ he)]
      change (w.member (.cls (.declared k)) e.1 >>= _) = _
      rw [hmember]
      rfl
  rw [variantsOf, variantNames_of_collects hk hd]
  exact hmap es fun _ he => he

/-- A class becomes one more variant: it is renamed, and the union has it from then on. -/
theorem attachVariant_eq_ok (hne : n ≠ k) (hnew : name ∉ es.map Prod.fst)
    (h : w.attachVariant k n name = (w', .ok ())) :
    w' = (w.setClass n (·.named d.qualname name)).setClass k (·.withVariant es name n) ∧
      (d.withVariant es name n).Collects k (es ++ [(name, n)]) := by
  have hqualified : w.qualifiedName (.declared k) = d.qualname := by simp [qualifiedName, hk]
  unfold attachVariant at h
  split at h
  · cases h
  · extract_lets w₁ at h
    have hw₁ : w₁ = w.setClass n (·.named d.qualname name) := by
      simp only [w₁, rename, hqualified, DeclaredClass.named]
    have hk₁ : w₁.class? (.declared k) = some d := by
      rw [hw₁, class?_setClass, if_neg hne, hk]
    split at h
    · cases (Prod.mk.inj h).2
    · rename_i w₂ _ hrefusal
      have hk₂ : w₂.class? (.declared k) =
          some { d with attributes := d.attributes.insert name (.cls (.declared n)) } := by
        simp only [w₂, setAttribute, class?_setClass, if_true, hk₁, Option.map_some]
      have hlisted : w₂.member? (.cls (.declared k)) variantList =
          (d.attributes.insert name (.cls (.declared n))).get? variantList := classAttribute?_variantList hk₂ hd.chain
      rw [hlisted, Table.get?_insert] at h
      split at h
      · rename_i names hnames
        obtain rfl := (Prod.mk.inj h).1
        by_cases hname : name = variantList
        · rw [if_pos hname] at hnames
          cases hnames
        · rw [if_neg hname, hd.listed] at hnames
          have hnames : names = es.map fun e => .text e.1 := by
            cases es <;> exact (Except.ok.inj hnames).symm
          subst hnames
          refine ⟨?_, hd.extend hnew hname hrefusal⟩
          simp only [w₂, hw₁, setAttribute, setClass_setClass]
          rfl
      · cases (Prod.mk.inj h).2

end Collecting

end World

end UnionBridge
