import UnionBridge.Proofs.Schema.Derivation

/-! Sets of right sides, read as patterns: one after the other, optional, repeated. Each is matched with a type whose
elements are all the ways to derive it. -/
namespace UnionBridge

/-- Right sides that may stand in the same place. -/
abbrev Alternatives := List (List GrammarSymbol)

namespace Alternatives

/-- The right sides of all rules for a nonterminal. -/
def ofRules (n : Nonterminal) : Alternatives := (rules.toList.filter fun r => r.left = n).map Rule.right

def token (k : Terminal) : Alternatives := [[.t k]]

def node (n : Nonterminal) : Alternatives := [[.n n]]

/-- Something of the first, and then something of the second. -/
def andThen (A B : Alternatives) : Alternatives := A.flatMap fun Xs => B.map (Xs ++ ·)

def orNothing (A : Alternatives) : Alternatives := [] :: A

/-- The same right sides, perhaps in another order. -/
def Same (A B : Alternatives) : Prop := (∀ Xs ∈ A, Xs ∈ B) ∧ ∀ Xs ∈ B, Xs ∈ A

instance (A B : Alternatives) : Decidable (Same A B) := inferInstanceAs (Decidable (_ ∧ _))

/-- What a derivation of one of the right sides puts below a node. -/
def Makes (A : Alternatives) (cs : List Tree) : Prop := ∃ Xs ∈ A, ∃ ts, Derives Xs ts ∧ ts.flatMap Tree.spliced = cs

/-- The elements of a type are the ways to derive one of the right sides. -/
def Spells {α : Type} (A : Alternatives) (f : α → List Tree) : Prop := ∀ cs, A.Makes cs ↔ ∃ a, f a = cs

end Alternatives

open Alternatives

section Derivations

variable {n : Nonterminal} {Xs Ys : List GrammarSymbol} {ts : List Tree} {A B : Alternatives} {cs : List Tree}

theorem right_mem_ofRules {i : Nat} {r : Rule} (h : rules[i]? = some r) : r.right ∈ ofRules r.left := by
  refine List.mem_map.mpr ⟨r, List.mem_filter.mpr ⟨?_, by simp⟩, rfl⟩
  exact Array.mem_toList_iff.mpr (Array.mem_of_getElem? h)

theorem exists_rule_of_mem (h : Xs ∈ ofRules n) : ∃ (i : Nat) (r : Rule), rules[i]? = some r ∧ r.left = n ∧ r.right = Xs := by
  obtain ⟨r, hr, rfl⟩ := List.mem_map.mp h
  obtain ⟨hr, hn⟩ := List.mem_filter.mp hr
  obtain ⟨i, hi⟩ := List.mem_iff_getElem?.mp hr
  exact ⟨i, r, by simpa using hi, by simpa using hn, rfl⟩

theorem derives_append_iff :
    Derives (Xs ++ Ys) ts ↔ ∃ us vs, ts = us ++ vs ∧ Derives Xs us ∧ Derives Ys vs := by
  constructor
  · intro h
    induction Xs generalizing ts with
    | nil => exact ⟨[], ts, rfl, .nil, h⟩
    | cons X Xs ih =>
      cases h with
      | token hk h =>
        obtain ⟨us, vs, rfl, hu, hv⟩ := ih h
        exact ⟨_ :: us, vs, rfl, .token hk hu, hv⟩
      | rule hr hn hcs h =>
        obtain ⟨us, vs, rfl, hu, hv⟩ := ih h
        exact ⟨_ :: us, vs, rfl, .rule hr hn hcs hu, hv⟩
  · rintro ⟨us, vs, rfl, hu, hv⟩
    exact hu.append hv

theorem derives_node_iff :
    Derives [.n n] ts ↔ ∃ Xs ∈ ofRules n, ∃ cs, Derives Xs cs ∧ ts = [Tree.build n cs] := by
  constructor
  · intro h
    cases h with
    | rule hr hn hcs h =>
      cases h
      subst hn
      exact ⟨_, right_mem_ofRules hr, _, hcs, rfl⟩
  · rintro ⟨Xs, hXs, cs, hcs, rfl⟩
    obtain ⟨i, r, hr, hn, rfl⟩ := exists_rule_of_mem hXs
    exact .rule hr hn hcs .nil

theorem makes_andThen_iff : (A.andThen B).Makes cs ↔ ∃ ds es, cs = ds ++ es ∧ A.Makes ds ∧ B.Makes es := by
  constructor
  · rintro ⟨Zs, hZs, ts, hts, rfl⟩
    obtain ⟨Xs, hXs, hZs⟩ := List.mem_flatMap.mp hZs
    obtain ⟨Ys, hYs, rfl⟩ := List.mem_map.mp hZs
    obtain ⟨us, vs, rfl, hu, hv⟩ := derives_append_iff.mp hts
    exact ⟨_, _, List.flatMap_append, ⟨Xs, hXs, us, hu, rfl⟩, ⟨Ys, hYs, vs, hv, rfl⟩⟩
  · rintro ⟨_, _, rfl, ⟨Xs, hXs, us, hu, rfl⟩, ⟨Ys, hYs, vs, hv, rfl⟩⟩
    exact ⟨Xs ++ Ys, List.mem_flatMap.mpr ⟨Xs, hXs, List.mem_map.mpr ⟨Ys, hYs, rfl⟩⟩, us ++ vs, hu.append hv,
      List.flatMap_append⟩

theorem makes_orNothing_iff : A.orNothing.Makes cs ↔ cs = [] ∨ A.Makes cs := by
  constructor
  · rintro ⟨Xs, hXs, ts, hts, rfl⟩
    rcases List.mem_cons.mp hXs with rfl | hXs
    · cases hts
      exact .inl rfl
    · exact .inr ⟨Xs, hXs, ts, hts, rfl⟩
  · rintro (rfl | ⟨Xs, hXs, ts, hts, rfl⟩)
    · exact ⟨[], List.mem_cons_self, [], .nil, rfl⟩
    · exact ⟨Xs, List.mem_cons_of_mem _ hXs, ts, hts, rfl⟩

theorem makes_node_iff :
    (Alternatives.node n).Makes cs ↔ ∃ ds, (ofRules n).Makes ds ∧ cs = (Tree.node n ds).spliced := by
  constructor
  · rintro ⟨Xs, hXs, ts, hts, rfl⟩
    obtain rfl := List.mem_singleton.mp hXs
    obtain ⟨Ys, hYs, us, hus, rfl⟩ := derives_node_iff.mp hts
    exact ⟨_, ⟨Ys, hYs, us, hus, rfl⟩, List.append_nil _⟩
  · rintro ⟨_, ⟨Ys, hYs, us, hus, rfl⟩, rfl⟩
    exact ⟨_, List.mem_singleton_self _, _, derives_node_iff.mpr ⟨Ys, hYs, us, hus, rfl⟩, List.append_nil _⟩

/-- A node that is not spliced is its own child. -/
theorem makes_singleton_iff {t : Tree} (hn : n.isSpliced = false) :
    (Alternatives.node n).Makes [t] ↔ Derives [.n n] [t] := by
  have hspliced (cs : List Tree) : (Tree.node n cs).spliced = [.node n cs] := by simp [Tree.spliced, hn]
  constructor
  · rintro ⟨Xs, hXs, ts, hts, ht⟩
    obtain rfl := List.mem_singleton.mp hXs
    obtain ⟨Ys, _, us, _, rfl⟩ := derives_node_iff.mp hts
    rw [Tree.build, List.flatMap_cons, hspliced, List.flatMap_nil, List.append_nil] at ht
    rwa [← ht]
  · intro h
    obtain ⟨Ys, hYs, us, hus, ht⟩ := derives_node_iff.mp h
    obtain rfl := List.singleton_inj.mp ht
    exact makes_node_iff.mpr ⟨_, ⟨Ys, hYs, us, hus, rfl⟩, (hspliced _).symm⟩

end Derivations

namespace Alternatives.Spells

variable {α β : Type} {A B : Alternatives} {f : α → List Tree} {g : β → List Tree} {n : Nonterminal} {k : Terminal}

theorem token : Spells (token k) fun t : {t : Token // t.terminal = k} => [.leaf t.1] := by
  intro cs
  constructor
  · rintro ⟨Xs, hXs, ts, hts, rfl⟩
    obtain rfl := List.mem_singleton.mp hXs
    cases hts with
    | token hk h =>
      cases h
      exact ⟨⟨_, hk⟩, rfl⟩
  · rintro ⟨t, rfl⟩
    exact ⟨_, List.mem_singleton_self _, _, .token t.2 .nil, rfl⟩

theorem node (h : (ofRules n).Spells f) (hn : n.isSpliced = false) :
    (Alternatives.node n).Spells fun a => [.node n (f a)] := by
  intro cs
  rw [makes_node_iff]
  constructor
  · rintro ⟨ds, hds, rfl⟩
    obtain ⟨a, rfl⟩ := (h ds).mp hds
    exact ⟨a, by simp [Tree.spliced, hn]⟩
  · rintro ⟨a, rfl⟩
    exact ⟨f a, (h _).mpr ⟨a, rfl⟩, by simp [Tree.spliced, hn]⟩

theorem spliced (h : (ofRules n).Spells f) (hn : n.isSpliced) : (Alternatives.node n).Spells f := by
  intro cs
  rw [makes_node_iff, ← h cs]
  simp [Tree.spliced, hn]

theorem andThen (hf : A.Spells f) (hg : B.Spells g) : (A.andThen B).Spells fun p : α × β => f p.1 ++ g p.2 := by
  intro cs
  rw [makes_andThen_iff]
  constructor
  · rintro ⟨ds, es, rfl, hd, he⟩
    obtain ⟨a, rfl⟩ := (hf ds).mp hd
    obtain ⟨b, rfl⟩ := (hg es).mp he
    exact ⟨(a, b), rfl⟩
  · rintro ⟨⟨a, b⟩, rfl⟩
    exact ⟨f a, g b, rfl, (hf _).mpr ⟨a, rfl⟩, (hg _).mpr ⟨b, rfl⟩⟩

theorem orNothing (hf : A.Spells f) : A.orNothing.Spells fun o : Option α => (o.map f).getD [] := by
  intro cs
  rw [makes_orNothing_iff, hf cs]
  constructor
  · rintro (rfl | ⟨a, rfl⟩)
    · exact ⟨none, rfl⟩
    · exact ⟨some a, rfl⟩
  · rintro ⟨_ | a, rfl⟩
    · exact .inl rfl
    · exact .inr ⟨a, rfl⟩

theorem either (hf : A.Spells f) (hg : B.Spells g) : Spells (A ++ B) (Sum.elim f g) := by
  intro cs
  have happend : Makes (A ++ B) cs ↔ A.Makes cs ∨ B.Makes cs := by
    simp only [Makes, List.mem_append, or_and_right, exists_or]
  rw [happend, hf cs, hg cs, Sum.exists]
  rfl

theorem congr (h : A.Spells f) (hsame : Same B A) : B.Spells f := by
  intro cs
  rw [← h cs]
  constructor
  · rintro ⟨Xs, hXs, hcs⟩
    exact ⟨Xs, hsame.1 Xs hXs, hcs⟩
  · rintro ⟨Xs, hXs, hcs⟩
    exact ⟨Xs, hsame.2 Xs hXs, hcs⟩

/-- The same ways in another form. -/
theorem ofType (h : A.Spells f) (toOther : β → α) (hsurjective : ∀ a, ∃ b, toOther b = a)
    (hg : ∀ b, g b = f (toOther b)) : A.Spells g := by
  intro cs
  rw [h cs]
  constructor
  · rintro ⟨a, rfl⟩
    obtain ⟨b, rfl⟩ := hsurjective a
    exact ⟨b, hg b⟩
  · rintro ⟨b, rfl⟩
    exact ⟨toOther b, (hg b).symm⟩

section Repeated

variable {Ys : List GrammarSymbol} (hn : n.isSpliced) (hrules : Same (ofRules n) [Ys, .n n :: Ys]) (h : Spells [Ys] f)

include hn

theorem spliced_build (cs : List Tree) : (Tree.build n cs).spliced = cs.flatMap Tree.spliced := by
  rw [Tree.build, Tree.spliced, if_pos hn]

include hrules h

/-- By induction on the derivation: it takes the last element off each time. -/
theorem exists_list_of_derives {Xs : List GrammarSymbol} {ts : List Tree} (hd : Derives Xs ts)
    {rest : List GrammarSymbol} (hXs : Xs = .n n :: rest) :
    ∃ t us, ts = t :: us ∧ Derives rest us ∧ ∃ l : List α, l.flatMap f = t.spliced := by
  induction hd generalizing rest with
  | nil => cases hXs
  | token _ _ => cases hXs
  | @rule i r n' Xs cs ts hr hn' hcs hd ihcs =>
    obtain ⟨hn'', rfl⟩ := List.cons.inj hXs
    obtain rfl := GrammarSymbol.n.inj hn''
    subst hn'
    refine ⟨_, ts, rfl, hd, ?_⟩
    rw [spliced_build hn]
    rcases List.mem_cons.mp (hrules.1 _ (right_mem_ofRules hr)) with hright | hright
    · obtain ⟨a, ha⟩ := (h _).mp ⟨Ys, List.mem_singleton_self _, cs, hright ▸ hcs, rfl⟩
      exact ⟨[a], by simpa using ha⟩
    · obtain ⟨t, us, rfl, hus, l, hl⟩ := ihcs (List.mem_singleton.mp hright)
      obtain ⟨a, ha⟩ := (h _).mp ⟨Ys, List.mem_singleton_self _, us, hus, rfl⟩
      exact ⟨l ++ [a], by simp [hl, ha]⟩

theorem exists_derives_append (l : List α) {t : Tree} (ht : Derives [.n n] [t]) :
    ∃ t', Derives [.n n] [t'] ∧ t'.spliced = t.spliced ++ l.flatMap f := by
  induction l generalizing t with
  | nil => exact ⟨t, ht, (List.append_nil _).symm⟩
  | cons a l ih =>
    obtain ⟨Xs, hXs, us, hus, hus'⟩ := (h _).mpr ⟨a, rfl⟩
    obtain rfl := List.mem_singleton.mp hXs
    have hstep : Derives [.n n] [Tree.build n (t :: us)] :=
      derives_node_iff.mpr ⟨_, hrules.2 _ (by simp), _, ht.append hus, rfl⟩
    obtain ⟨t', ht', hspliced⟩ := ih hstep
    refine ⟨t', ht', ?_⟩
    rw [hspliced, spliced_build hn, List.flatMap_cons, hus', List.flatMap_cons, List.append_assoc]

/-- A nonterminal for a repetition, or nothing, stands for all lists. -/
theorem list : (Alternatives.node n).orNothing.Spells fun l : List α => l.flatMap f := by
  intro cs
  rw [makes_orNothing_iff]
  constructor
  · rintro (rfl | ⟨Xs, hXs, ts, hts, rfl⟩)
    · exact ⟨[], rfl⟩
    · obtain ⟨t, us, rfl, hus, l, hl⟩ := exists_list_of_derives hn hrules h hts (List.mem_singleton.mp hXs)
      cases hus
      exact ⟨l, by simp [hl]⟩
  · rintro ⟨_ | ⟨a, l⟩, rfl⟩
    · exact .inl rfl
    · obtain ⟨Xs, hXs, us, hus, hus'⟩ := (h _).mpr ⟨a, rfl⟩
      obtain rfl := List.mem_singleton.mp hXs
      have hone : Derives [.n n] [Tree.build n us] := derives_node_iff.mpr ⟨_, hrules.2 _ (by simp), _, hus, rfl⟩
      obtain ⟨t, ht, hspliced⟩ := exists_derives_append hn hrules h l hone
      refine .inr ⟨_, List.mem_singleton_self _, _, ht, ?_⟩
      simp [hspliced, spliced_build hn, hus']

end Repeated

end Alternatives.Spells

end UnionBridge
