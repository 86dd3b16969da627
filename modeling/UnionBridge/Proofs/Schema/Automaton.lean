import Mathlib
import UnionBridge.Schema.Automaton

/-! The parsing table fits the grammar. Right sides of rules can be followed forwards from every state that has a place
for their left side, and backwards from every state that reduces them; reductions of single symbols do not go round in
circles. -/
namespace UnionBridge

/-- The number of states. -/
def stateCount : Nat := 103

/-- States that do not exist have nothing in their row. -/
theorem lt_stateCount {q : Nat} (h : stateRow q ≠ ⟨[], none, []⟩) : q < stateCount := by
  refine Nat.lt_of_not_le fun hle => h ?_
  have hnone : stateRows[q]? = none := Array.getElem?_eq_none hle
  rw [stateRow, hnone]
  rfl

namespace StateRow

/-- Where a state goes with a symbol. -/
def next? (row : StateRow) : GrammarSymbol → Option Nat
  | .t k => (row.shifts.find? fun s => s.1 = k).map Prod.snd
  | .n n => row.goto? n

/-- All symbols with which a state goes on, and where it goes. -/
def edges (row : StateRow) : List (GrammarSymbol × Nat) :=
  row.shifts.map (fun s => (.t s.1, s.2)) ++ row.gotos.map fun g => (.n g.1, g.2)

variable {row : StateRow} {k : Terminal} {p : Nat}

theorem mem_gotos {n : Nonterminal} (h : row.goto? n = some p) : (n, p) ∈ row.gotos := by
  obtain ⟨g, hg, rfl⟩ := Option.map_eq_some_iff.mp h
  have hn : g.1 = n := by simpa using List.find?_some hg
  subst n
  exact List.mem_of_find?_eq_some hg

theorem mem_edges {X : GrammarSymbol} (h : row.next? X = some p) : (X, p) ∈ row.edges := by
  rw [edges, List.mem_append]
  cases X with
  | t k =>
    left
    obtain ⟨s, hs, rfl⟩ := Option.map_eq_some_iff.mp h
    have hk : s.1 = k := by simpa using List.find?_some hs
    subst k
    exact List.mem_map.mpr ⟨s, List.mem_of_find?_eq_some hs, rfl⟩
  | n n =>
    right
    exact List.mem_map.mpr ⟨_, mem_gotos h, rfl⟩

theorem action?_of_next? (h : row.next? (.t k) = some p) : row.action? k = some (.shift p) := by
  obtain ⟨s, hs, rfl⟩ := Option.map_eq_some_iff.mp h
  rw [action?, hs]

theorem next?_of_action? (h : row.action? k = some (.shift p)) : row.next? (.t k) = some p := by
  rw [action?] at h
  split at h
  · rename_i hs
    cases h
    rw [next?, hs]
    rfl
  · split at h
    · split at h <;> cases h
    · cases h

theorem reduction_of_action? {i : Nat} (h : row.action? k = some (.reduce i)) :
    ∃ on, row.reduction = some (i, on) ∧ k ∈ on := by
  rw [action?] at h
  split at h
  · cases h
  · split at h
    · rename_i on hr
      split at h
      · rename_i hon
        cases h
        exact ⟨on, hr, by simpa using hon⟩
      · cases h
    · cases h

theorem mem_terminals (h : (row.action? k).isSome) : k ∈ row.terminals := by
  rw [terminals, List.mem_append]
  rw [action?] at h
  split at h
  · rename_i t p hs
    have hk : t = k := by simpa using List.find?_some hs
    exact Or.inl (List.mem_map.mpr ⟨_, List.mem_of_find?_eq_some hs, hk⟩)
  · split at h
    · rename_i on hr
      split at h
      · rename_i hon
        rw [hr]
        exact Or.inr (by simpa using hon)
      · cases h
    · cases h

end StateRow

/-- The state that is reached with some symbols. -/
def path? (q : Nat) : List GrammarSymbol → Option Nat
  | [] => some q
  | X :: Xs => ((stateRow q).next? X).bind fun p => path? p Xs

/-! ### The rows of the table -/

/-- A rule can be followed from a state to one that reduces it wherever it may go on from another one. -/
def fits (q i : Nat) (right : List GrammarSymbol) (p : Nat) : Bool :=
  match path? q right with
  | some e => (stateRow p).terminals.all fun k => (stateRow e).action? k = some (.reduce i)
  | none => false

/-- The states from which a state is reached, each with the symbol that leads there. -/
def predecessors (q : Nat) : List (GrammarSymbol × Nat) :=
  (List.range stateCount).flatMap fun p => (stateRow p).edges.filterMap fun e =>
    if e.2 = q then some (e.1, p) else none

/-- However a state was reached, it was with these symbols, which are given from the last one. -/
def backs (q : Nat) : List GrammarSymbol → Bool
  | [] => true
  | X :: Xs => q ≠ 0 && (predecessors q).all fun e => e.1 = X && backs e.2 Xs

/-- How many reductions of single symbols can follow each other from a state on. -/
def unitDepth (q : Nat) : Nat :=
  if [9, 10, 12].contains q then 3
  else if [7, 14, 36].contains q then 2
  else if [5, 8, 30, 33, 40, 54, 55, 73].contains q then 1
  else 0

/-- From wherever a nonterminal is complete, fewer such reductions follow than from a state. -/
def falls (q : Nat) (n : Nonterminal) : Bool :=
  (List.range stateCount).all fun p => ((stateRow p).goto? n).all fun p' => unitDepth p' < unitDepth q

/-- What can be seen of the table by going through its rows. -/
structure TableFits : Prop where
  follows : ∀ q < stateCount, ∀ g ∈ (stateRow q).gotos, ∀ i < rules.size, ∀ r ∈ rules[i]?, r.left = g.1 →
    fits q i r.right g.2
  followsSchema : ∀ i < rules.size, ∀ r ∈ rules[i]?, r.left = .schema →
    ((path? 0 r.right).any fun e => (stateRow e).action? .finish = some (.reduce i))
  gotoSchema : ∀ q < stateCount, ∀ g ∈ (stateRow q).gotos, g.1 = .schema → g.2 = finalState
  backs : ∀ q < stateCount, ∀ e ∈ (stateRow q).reduction, ∀ r ∈ rules[e.1]?, backs q r.right.reverse
  beforeFinal : predecessors finalState = [(.n .schema, 0)]
  beforeStart : predecessors 0 = []
  rule : ∀ q < stateCount, ∀ e ∈ (stateRow q).reduction, (rules[e.1]?).isSome
  goesOn : ∀ p < stateCount, ∀ i < rules.size, ∀ r ∈ rules[i]?, ∀ q ∈ path? p r.right,
    ∀ e ∈ (stateRow q).reduction, e.1 = i → ((stateRow p).goto? r.left).isSome
  finish : ∀ q < stateCount, ∀ e ∈ (stateRow q).edges, e.1 ≠ .t .finish
  finishSchema : ∀ q < stateCount, ∀ e ∈ (stateRow q).reduction, ∀ r ∈ rules[e.1]?, r.left = .schema →
    e.2 = [.finish]
  falls : ∀ q < stateCount, ∀ e ∈ (stateRow q).reduction, ∀ r ∈ rules[e.1]?, r.right.length = 1 → falls q r.left
  nonempty : ∀ i < rules.size, ∀ r ∈ rules[i]?, r.right = [] → r.left = .schema

instance tableFits : Fact TableFits where
  out :=
    { follows := by decide +kernel
      followsSchema := by decide +kernel
      gotoSchema := by decide +kernel
      backs := by decide +kernel
      beforeFinal := by decide +kernel
      beforeStart := by decide +kernel
      rule := by decide +kernel
      goesOn := by decide +kernel
      finish := by decide +kernel
      finishSchema := by decide +kernel
      falls := by decide +kernel
      nonempty := by decide +kernel }

/-! ### Forwards -/

theorem fits_iff {q i p : Nat} {right : List GrammarSymbol} :
    fits q i right p ↔
      ∃ e, path? q right = some e ∧ ∀ k ∈ (stateRow p).terminals, (stateRow e).action? k = some (.reduce i) := by
  rw [fits]
  split
  · rename_i e he
    simp [he]
  · rename_i he
    simp [he]

/-- Where a state goes on with a nonterminal, it can follow every rule for it, and the state at the end reduces the rule
on every terminal that can stand next. -/
theorem exists_path {q p i : Nat} {r : Rule} (hr : rules[i]? = some r)
    (hq : (stateRow q).next? (.n r.left) = some p) :
    ∃ e, path? q r.right = some e ∧ ∀ k ∈ (stateRow p).terminals, (stateRow e).action? k = some (.reduce i) := by
  have hmem := StateRow.mem_gotos hq
  have hlt : q < stateCount := lt_stateCount fun h => by rw [h] at hmem; cases hmem
  obtain ⟨hi, _⟩ := Array.getElem?_eq_some_iff.mp hr
  exact fits_iff.mp (tableFits.out.follows q hlt _ hmem i hi r hr rfl)

/-- The rules of a whole schema lead from the start to a state that reduces them at the end of the text. -/
theorem exists_path_schema {i : Nat} {r : Rule} (hr : rules[i]? = some r) (hleft : r.left = .schema) :
    ∃ e, path? 0 r.right = some e ∧ (stateRow e).action? .finish = some (.reduce i) := by
  obtain ⟨hi, _⟩ := Array.getElem?_eq_some_iff.mp hr
  have h := tableFits.out.followsSchema i hi r hr hleft
  obtain ⟨e, he, ha⟩ := (Option.any_eq_true _ _).mp h
  exact ⟨e, he, by simpa using ha⟩

theorem goto_schema : (stateRow 0).goto? .schema = some finalState := by decide +kernel

/-- Only the end is reached with a schema. -/
theorem goto_schema_final {p q : Nat} (h : (stateRow q).goto? .schema = some p) : p = finalState := by
  have hmem := StateRow.mem_gotos h
  have hlt : q < stateCount := lt_stateCount fun h => by rw [h] at hmem; cases hmem
  exact tableFits.out.gotoSchema q hlt _ hmem rfl

/-! ### Backwards -/

theorem mem_predecessors {p q : Nat} {X : GrammarSymbol} (h : (stateRow p).next? X = some q) :
    (X, p) ∈ predecessors q := by
  have hmem := StateRow.mem_edges h
  have hlt : p < stateCount := lt_stateCount fun h => by rw [h] at hmem; cases hmem
  refine List.mem_flatMap.mpr ⟨p, List.mem_range.mpr hlt, List.mem_filterMap.mpr ⟨_, hmem, ?_⟩⟩
  simp

theorem backs_cons {p q : Nat} {X Y : GrammarSymbol} {Xs : List GrammarSymbol} (h : backs q (X :: Xs))
    (hp : (stateRow p).next? Y = some q) : Y = X ∧ backs p Xs := by
  rw [backs, Bool.and_eq_true, List.all_eq_true] at h
  simpa using h.2 _ (mem_predecessors hp)

theorem backs_zero {X : GrammarSymbol} {Xs : List GrammarSymbol} : ¬backs 0 (X :: Xs) := by
  simp [backs]

/-- A state that reduces a rule has been reached with the right side of the rule. -/
theorem backs_of_reduction {q i : Nat} {on : List Terminal} {r : Rule} (h : (stateRow q).reduction = some (i, on))
    (hr : rules[i]? = some r) : backs q r.right.reverse := by
  have hlt : q < stateCount := lt_stateCount fun hq => by rw [hq] at h; cases h
  exact tableFits.out.backs q hlt _ h r hr

/-- The end is reached with a schema, and from the start alone. -/
theorem predecessors_final {p : Nat} {X : GrammarSymbol} (h : (stateRow p).next? X = some finalState) :
    X = .n .schema ∧ p = 0 := by
  have hmem := mem_predecessors h
  rw [tableFits.out.beforeFinal, List.mem_singleton] at hmem
  exact Prod.mk.inj hmem

theorem next?_ne_zero {p : Nat} {X : GrammarSymbol} : (stateRow p).next? X ≠ some 0 := by
  intro h
  have hmem := mem_predecessors h
  rw [tableFits.out.beforeStart] at hmem
  cases hmem

/-! ### Ways on -/

theorem exists_rule {q i : Nat} {on : List Terminal} (h : (stateRow q).reduction = some (i, on)) :
    ∃ r, rules[i]? = some r := by
  have hlt : q < stateCount := lt_stateCount fun hq => by rw [hq] at h; cases h
  exact Option.isSome_iff_exists.mp (tableFits.out.rule q hlt _ h)

/-- A state from which the right side of a rule leads to its reduction has a way on with the left side. -/
theorem exists_goto {p q i : Nat} {on : List Terminal} {r : Rule} (hr : rules[i]? = some r)
    (hp : path? p r.right = some q) (hq : (stateRow q).reduction = some (i, on)) :
    ∃ target, (stateRow p).goto? r.left = some target := by
  have hlt : p < stateCount := by
    refine lt_stateCount fun hempty => ?_
    cases hright : r.right with
    | nil =>
      rw [hright, path?, Option.some.injEq] at hp
      rw [← hp, hempty] at hq
      cases hq
    | cons X Xs =>
      rw [hright, path?, hempty] at hp
      cases X <;> cases hp
  obtain ⟨hi, _⟩ := Array.getElem?_eq_some_iff.mp hr
  exact Option.isSome_iff_exists.mp (tableFits.out.goesOn p hlt i hi r hr q hp _ hq rfl)

/-- There is nothing after the end of the text. -/
theorem next?_finish {p q : Nat} : (stateRow q).next? (.t .finish) ≠ some p := by
  intro h
  have hmem := StateRow.mem_edges h
  have hlt : q < stateCount := lt_stateCount fun hq => by rw [hq] at hmem; cases hmem
  exact tableFits.out.finish q hlt _ hmem rfl

/-- A whole schema is complete at the end of the text, and nowhere before. -/
theorem eq_finish_of_schema {q i : Nat} {k : Terminal} {r : Rule} (h : (stateRow q).action? k = some (.reduce i))
    (hr : rules[i]? = some r) (hleft : r.left = .schema) : k = .finish := by
  obtain ⟨on, hon, hk⟩ := StateRow.reduction_of_action? h
  have hlt : q < stateCount := lt_stateCount fun hq => by rw [hq] at hon; cases hon
  obtain rfl := tableFits.out.finishSchema q hlt _ hon r hr hleft
  exact List.mem_singleton.mp hk

/-! ### Reductions of single symbols -/

theorem unitDepth_le (q : Nat) : unitDepth q ≤ 3 := by
  rw [unitDepth]
  split
  · exact Nat.le_refl 3
  · split
    · exact Nat.le_succ 2
    · split <;> omega

/-- A reduction of a single symbol leads to a state from which fewer follow. -/
theorem unitDepth_lt {q p p' i : Nat} {on : List Terminal} {r : Rule} (h : (stateRow q).reduction = some (i, on))
    (hr : rules[i]? = some r) (hone : r.right.length = 1) (hg : (stateRow p).goto? r.left = some p') :
    unitDepth p' < unitDepth q := by
  have hlt : q < stateCount := lt_stateCount fun hq => by rw [hq] at h; cases h
  have hmem := StateRow.mem_gotos hg
  have hlt' : p < stateCount := lt_stateCount fun hp => by rw [hp] at hmem; cases hmem
  have hfalls := List.all_eq_true.mp (tableFits.out.falls q hlt _ h r hr hone) p (List.mem_range.mpr hlt')
  rw [hg] at hfalls
  simpa using hfalls

/-- Only a whole schema has a rule without symbols. -/
theorem left_of_right_nil {i : Nat} {r : Rule} (hr : rules[i]? = some r) (hnil : r.right = []) : r.left = .schema := by
  obtain ⟨hi, _⟩ := Array.getElem?_eq_some_iff.mp hr
  exact tableFits.out.nonempty i hi r hr hnil

end UnionBridge
