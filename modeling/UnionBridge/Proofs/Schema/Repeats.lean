import UnionBridge.Proofs.Mapping.Directives
import UnionBridge.Proofs.Schema.Distinct

/-! Repeated names. A declaration is reported just in case an earlier one in its scope has its name; so the reports on a
scope and the names in it are together as many as its declarations. -/
namespace UnionBridge

/-- An element of a list, with those before it. -/
structure Occurrence (α : Type) where
  before : List α
  item : α

namespace Occurrence

variable {α : Type} {key : α → String} {before l : List α}

/-- An earlier element has the same key. -/
def Repeats (key : α → String) (o : Occurrence α) : Prop := key o.item ∈ o.before.map key

instance (key : α → String) (o : Occurrence α) : Decidable (o.Repeats key) := inferInstanceAs (Decidable (_ ∈ _))

/-- The elements of a list in order, where some others are before them all. -/
def ofList : (before : List α) → List α → List (Occurrence α)
  | _, [] => []
  | before, a :: rest => ⟨before, a⟩ :: ofList (before ++ [a]) rest

/-- Of the elements of a list, those with a key that was there before are as many as there are elements, less the keys
that are new. -/
theorem countP_repeats_add (key : α → String) (before l : List α) :
    (ofList before l).countP (·.Repeats key) + ((l.map key).toFinset \ (before.map key).toFinset).card = l.length := by
  induction l generalizing before with
  | nil => simp [ofList]
  | cons a l ih =>
    have ih := ih (before ++ [a])
    rw [List.map_append, List.toFinset_append, List.map_singleton] at ih
    rw [ofList, List.countP_cons, List.map_cons, List.toFinset_cons, List.length_cons, ← ih]
    by_cases ha : key a ∈ before.map key
    · have hseen : (before.map key).toFinset ∪ [key a].toFinset = (before.map key).toFinset := by simpa using ha
      have hrepeats : Repeats key ⟨before, a⟩ := ha
      rw [if_pos (decide_eq_true hrepeats), Finset.insert_sdiff_of_mem _ (List.mem_toFinset.mpr ha), hseen]
      omega
    · have hnew : key a ∉ (l.map key).toFinset \ ((before.map key).toFinset ∪ [key a].toFinset) := by simp
      have hinsert : insert (key a) (l.map key).toFinset \ (before.map key).toFinset =
          insert (key a) ((l.map key).toFinset \ ((before.map key).toFinset ∪ [key a].toFinset)) := by
        ext name
        by_cases hname : name = key a
        · subst hname
          simpa using ha
        · simp [hname]
      rw [if_neg (by simpa [Repeats] using ha), hinsert, Finset.card_insert_of_notMem hnew]
      omega

/-- The repeated elements of a list and its distinct keys are together as many as all elements. -/
theorem countP_repeats_add_card (key : α → String) (l : List α) :
    (ofList [] l).countP (·.Repeats key) + (l.map key).toFinset.card = l.length := by
  simpa using countP_repeats_add key [] l

end Occurrence

/-- Where keys are distinct, an element is the only one with its key. -/
theorem filter_eq_toList_find? {α : Type} {key : α → String} {l : List α} (hn : (l.map key).Nodup) (name : String) :
    l.filter (key · = name) = (l.find? (key · = name)).toList := by
  induction l with
  | nil => rfl
  | cons a l ih =>
    obtain ⟨hhead, htail⟩ := List.nodup_cons.mp hn
    by_cases ha : key a = name
    · have hrest : l.filter (key · = name) = [] := by
        rw [List.filter_eq_nil_iff]
        intro b hb hname
        exact hhead (List.mem_map.mpr ⟨b, hb, (of_decide_eq_true hname).trans ha.symm⟩)
      rw [List.filter_cons_of_pos (by simpa using ha), List.find?_cons_of_pos (by simpa using ha), hrest]
      rfl
    · rw [List.filter_cons_of_neg (by simpa using ha), List.find?_cons_of_neg (by simpa using ha), ih htail]

/-- A name that a schema declares, with the declarations before it in the same scope. -/
inductive Declaration
  | union (o : Occurrence Union)
  | variant (u : Union) (o : Occurrence Variant)
  | field (u : Union) (v : Variant) (o : Occurrence String)

namespace Declaration

/-- An earlier declaration in the same scope has the same name. -/
def Repeats : Declaration → Prop
  | .union o => o.Repeats (·.name)
  | .variant _ o => o.Repeats (·.name)
  | .field _ _ o => o.Repeats id

instance : (d : Declaration) → Decidable d.Repeats
  | .union o => inferInstanceAs (Decidable (o.Repeats _))
  | .variant _ o => inferInstanceAs (Decidable (o.Repeats _))
  | .field _ _ o => inferInstanceAs (Decidable (o.Repeats _))

def isUnion : Declaration → Bool
  | .union _ => true
  | _ => false

def isVariant : Declaration → Bool
  | .variant _ _ => true
  | _ => false

/-- What is said of a declaration whose name is taken. -/
def message : Declaration → String
  | .union o => s!"union '{o.item.name}' is declared more than once"
  | .variant u o => s!"variant '{u.name}.{o.item.name}' is declared more than once"
  | .field u v o => s!"field '{o.item}' of '{u.name}.{v.name}' is declared more than once"

/-- Where it is said: of a field, at its variant. -/
def place : Declaration → Place
  | .union o => o.item.place
  | .variant _ o => o.item.place
  | .field _ v _ => v.place

/-- A diagnostic says of a declaration that its name is taken. -/
structure Reported (file : Option String) (d : Declaration) (g : Diagnostic) : Prop where
  code : g.code = some Fault.duplicateName.code
  phase : g.phase = some "parser"
  isError : g.isError
  span : g.span = Span.ofPlace d.place file
  message : g.message = d.message

end Declaration

variable {s : Schema} {u : Union} {v : Variant} {file : Option String} {seen : List String}

/-- The named fields of a variant, in order. -/
def Variant.declarations (v : Variant) (u : Union) : List Declaration :=
  (Occurrence.ofList [] v.body.fieldNames).map (.field u v)

/-- The variants of a union in order, each before its fields. -/
def Union.declarations (u : Union) : List Declaration :=
  (Occurrence.ofList [] u.variants).flatMap fun o => .variant u o :: o.item.declarations u

namespace Schema

/-- The unions of a schema in order, each before what it declares. -/
def declarations (s : Schema) : List Declaration :=
  (Occurrence.ofList [] s.unions).flatMap fun o => .union o :: o.item.declarations

/-! ### What is found -/

/-- A declaration is reported, once, just in case its name is taken. -/
theorem reported_head {d : Declaration} {r : Repeat} {p : Bool} (hp : p ↔ d.Repeats)
    (hr : d.Reported file (r.diagnostic file)) :
    List.Forall₂ (Declaration.Reported file) ([d].filter (·.Repeats))
      ((if p then [r] else []).map fun r => r.diagnostic file) := by
  by_cases h : d.Repeats
  · rw [List.filter_cons_of_pos (by simpa using h), if_pos (hp.mpr h)]
    exact .cons hr .nil
  · rw [List.filter_cons_of_neg (by simpa using h), if_neg (mt hp.mp h)]
    exact .nil

section Scope

variable {α : Type} {name : α → String} {report : α → Repeat} {declaration : Occurrence α → Declaration}

/-- A scope is gone through with the names seen so far: at each declaration its own repeat comes first, then what is
found inside it. -/
theorem reported_scope (walk : List String → List α → List Repeat) (inside : α → List Declaration)
    (inner : α → List Repeat) (hnil : ∀ seen, walk seen [] = [])
    (hcons : ∀ seen a rest, walk seen (a :: rest) =
      (if seen.contains (name a) then [report a] else []) ++ inner a ++ walk (name a :: seen) rest)
    (hrepeats : ∀ o, (declaration o).Repeats ↔ o.Repeats name)
    (hreport : ∀ o, (declaration o).Reported file ((report o.item).diagnostic file)) (before l : List α)
    (hinner : ∀ a ∈ l, List.Forall₂ (Declaration.Reported file) ((inside a).filter (·.Repeats))
      ((inner a).map fun r => r.diagnostic file))
    (hseen : ∀ n, n ∈ seen ↔ n ∈ before.map name) :
    List.Forall₂ (Declaration.Reported file)
      (((Occurrence.ofList before l).flatMap fun o => declaration o :: inside o.item).filter (·.Repeats))
      ((walk seen l).map fun r => r.diagnostic file) := by
  induction l generalizing before seen with
  | nil =>
    rw [hnil]
    exact .nil
  | cons a l ih =>
    have hhead : (seen.contains (name a) : Prop) ↔ (declaration ⟨before, a⟩).Repeats := by
      rw [hrepeats, List.contains_iff_mem]
      exact hseen (name a)
    have hrest (n : String) : n ∈ name a :: seen ↔ n ∈ (before ++ [a]).map name := by
      simp [hseen, or_comm]
    rw [Occurrence.ofList, List.flatMap_cons, ← List.singleton_append, List.filter_append, List.filter_append, hcons,
      List.map_append, List.map_append]
    refine List.rel_append (List.rel_append ?_ ?_) ?_
    · exact reported_head hhead (hreport ⟨before, a⟩)
    · exact hinner a List.mem_cons_self
    · exact ih (before ++ [a]) (fun b hb => hinner b (List.mem_cons_of_mem a hb)) hrest

end Scope

theorem reported_fields (u : Union) (v : Variant) :
    List.Forall₂ (Declaration.Reported file) ((v.declarations u).filter (·.Repeats))
      ((fieldRepeats u v).map fun r => r.diagnostic file) := by
  have hcons (seen : List String) (name : String) (rest : List String) :
      (repeats id seen (name :: rest)).map (Repeat.field u v) =
        (if seen.contains (id name) then [.field u v name] else []) ++ [] ++
          (repeats id (id name :: seen) rest).map (Repeat.field u v) := by
    rw [repeats]
    split <;> rfl
  have hreport (o : Occurrence String) :
      (Declaration.field u v o).Reported file ((Repeat.field u v o.item).diagnostic file) := ⟨rfl, rfl, rfl, rfl, rfl⟩
  rw [Variant.declarations, List.map_eq_flatMap]
  exact reported_scope (fun seen names => (repeats id seen names).map (.field u v)) (fun _ => []) (fun _ => [])
    (fun _ => rfl) hcons (fun _ => Iff.rfl) hreport [] _ (fun _ _ => .nil) (fun _ => Iff.rfl)

theorem reported_variants (u : Union) :
    List.Forall₂ (Declaration.Reported file) (u.declarations.filter (·.Repeats))
      ((variantRepeats u [] u.variants).map fun r => r.diagnostic file) :=
  reported_scope (variantRepeats u) (·.declarations u) (fieldRepeats u) (fun _ => rfl) (fun _ _ _ => rfl) (fun _ => Iff.rfl)
    (fun _ => ⟨rfl, rfl, rfl, rfl, rfl⟩) [] _ (fun v _ => reported_fields u v) (fun _ => Iff.rfl)

theorem reported_unions (s : Schema) :
    List.Forall₂ (Declaration.Reported file) (s.declarations.filter (·.Repeats)) (s.repeatedNames file) :=
  reported_scope unionRepeats (·.declarations) (fun u => variantRepeats u [] u.variants) (fun _ => rfl) (fun _ _ _ => rfl)
    (fun _ => Iff.rfl) (fun _ => ⟨rfl, rfl, rfl, rfl, rfl⟩) [] _ (fun u _ => reported_variants u) (fun _ => Iff.rfl)

/-! ### How much is found -/

/-- In a scope, the declarations whose name is taken and the names are together as many as the declarations. What is
declared inside them is of another kind. -/
theorem countP_scope {α : Type} {name : α → String} {declaration : Occurrence α → Declaration}
    {inside : α → List Declaration} {kind : Declaration → Bool} (l : List α) (hkind : ∀ o, kind (declaration o))
    (hrepeats : ∀ o, (declaration o).Repeats ↔ o.Repeats name) (hinside : ∀ a, ∀ d ∈ inside a, ¬kind d) :
    (((Occurrence.ofList [] l).flatMap fun o => declaration o :: inside o.item).filter (·.Repeats)).countP kind +
      (l.map name).toFinset.card = l.length := by
  rw [← Occurrence.countP_repeats_add_card name l, List.countP_filter, Nat.add_right_cancel_iff]
  induction Occurrence.ofList [] l with
  | nil => rfl
  | cons o os ih =>
    have hnone : (inside o.item).countP (fun d => kind d && decide d.Repeats) = 0 := by
      rw [List.countP_eq_zero]
      intro d hd
      simp [hinside o.item d hd]
    rw [List.flatMap_cons, List.cons_append, List.countP_cons, List.countP_append, hnone, ih, List.countP_cons]
    simp only [hkind, hrepeats, Bool.true_and, Nat.zero_add]

theorem countP_unions (s : Schema) :
    (s.declarations.filter (·.Repeats)).countP (·.isUnion) + (s.unions.map (·.name)).toFinset.card = s.unions.length := by
  have hinside (u : Union) (d : Declaration) (hd : d ∈ u.declarations) : ¬d.isUnion := by
    obtain ⟨o, _, hd⟩ := List.mem_flatMap.mp hd
    rcases List.mem_cons.mp hd with rfl | hd
    · exact Bool.false_ne_true
    · obtain ⟨_, _, rfl⟩ := List.mem_map.mp hd
      exact Bool.false_ne_true
  exact countP_scope s.unions (fun _ => rfl) (fun _ => Iff.rfl) hinside

theorem countP_variants (u : Union) :
    (u.declarations.filter (·.Repeats)).countP (·.isVariant) + (u.variants.map (·.name)).toFinset.card =
      u.variants.length := by
  have hinside (v : Variant) (d : Declaration) (hd : d ∈ v.declarations u) : ¬d.isVariant := by
    obtain ⟨_, _, rfl⟩ := List.mem_map.mp hd
    exact Bool.false_ne_true
  exact countP_scope u.variants (fun _ => rfl) (fun _ => Iff.rfl) hinside

theorem length_fields (u : Union) (v : Variant) :
    ((v.declarations u).filter (·.Repeats)).length + v.body.fieldNames.toFinset.card = v.body.fieldNames.length := by
  have hcount := Occurrence.countP_repeats_add_card id v.body.fieldNames
  rw [List.map_id] at hcount
  rw [Variant.declarations, List.filter_map, List.length_map, ← List.countP_eq_length_filter]
  exact hcount

/-- Nothing is reported on a schema just in case the names in each of its scopes are distinct. Otherwise each declaration
whose name an earlier one in its scope has is reported, in source order and at its union or variant, and nothing else is:
in each scope as many as there are declarations more than names, also inside a union or variant that is itself reported.
Where nothing is reported, a look-up by name finds the only declaration that has the name. -/
theorem repeatedNames_exact (s : Schema) (file : Option String) :
    (s.repeatedNames file = [] ↔ (s.unions.map (·.name)).Nodup ∧
      ∀ u ∈ s.unions, (u.variants.map (·.name)).Nodup ∧ ∀ v ∈ u.variants, v.body.fieldNames.Nodup) ∧
    List.Forall₂ (Declaration.Reported file) (s.declarations.filter (·.Repeats)) (s.repeatedNames file) ∧
    (s.declarations.filter (·.Repeats)).countP (·.isUnion) + (s.unions.map (·.name)).toFinset.card = s.unions.length ∧
    (∀ u ∈ s.unions, (u.declarations.filter (·.Repeats)).countP (·.isVariant) +
      (u.variants.map (·.name)).toFinset.card = u.variants.length) ∧
    (∀ u ∈ s.unions, ∀ v ∈ u.variants, ((v.declarations u).filter (·.Repeats)).length +
      v.body.fieldNames.toFinset.card = v.body.fieldNames.length) ∧
    (s.repeatedNames file = [] → ∀ name, s.unions.filter (·.name = name) = (s.union? name).toList ∧
      ∀ u ∈ s.unions, u.variants.filter (·.name = name) = (u.variant? name).toList) := by
  refine ⟨?_, reported_unions s, countP_unions s, fun u _ => countP_variants u, fun u _ v _ => length_fields u v, ?_⟩
  · rw [repeatedNames_eq_nil_iff]
    constructor
    · exact fun h => ⟨h.unions, fun u hu => ⟨h.variants u hu, h.fields u hu⟩⟩
    · exact fun h => ⟨h.1, fun u hu => (h.2 u hu).1, fun u hu => (h.2 u hu).2⟩
  · intro h name
    have hs : s.Distinct := repeatedNames_eq_nil_iff.mp h
    exact ⟨filter_eq_toList_find? hs.unions name, fun u hu => filter_eq_toList_find? (hs.variants u hu) name⟩

end Schema

end UnionBridge
