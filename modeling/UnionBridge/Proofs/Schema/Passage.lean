import UnionBridge.Proofs.Schema.Syntax

/-! Which names may be written where. A name that spells a keyword is read as a name as long as the keyword may not stand
in the same place; a schema whose names keep to that can be followed through the states with every token readable. -/
namespace UnionBridge

open Alternatives

/-- The keywords that a name is mistaken for when it is read in a state. -/
def mistakable (e : Nat) : List Terminal :=
  if (Parse.allowed e).contains .name then (Parse.allowed e).filter Terminal.isKeyword else []

/-- The keywords that a name may be mistaken for when the whole stack is in a state; the name may have been read in an
earlier one. -/
def doubtful (q : Nat) : List Terminal :=
  if [6, 38].contains q then [.unionWord]
  else if [5, 7, 9, 11, 18].contains q then [.fromWord, .importWord, .unionWord]
  else mistakable q

/-- A token that is what it is meant to be when it is read in a state. -/
def Readable (e : Nat) (t : Token) : Prop :=
  t.terminal = .name → ∀ k ∈ Terminal.keywords, k.1 ∈ mistakable e → t.text ≠ k.2

/-- A state in which a token may be read when the whole stack is in another one. -/
def MayRead (q e : Nat) : Prop := ∀ k ∈ mistakable e, k ∈ doubtful q

/-! ### Facts about the table -/

/-- Everything doubtful at the end of a rule is doubtful where its left side is complete. -/
def doubtStays (q : Nat) (right : List GrammarSymbol) (p : Nat) : Bool :=
  (path? q right).all fun q₁ => (doubtful q₁).all (doubtful p).contains

theorem mayRead_bounds : Bounds MayRead where
  shift {q k p} hp := by
    have hall : ∀ q < stateCount, ∀ s ∈ (stateRow q).shifts, ∀ k ∈ mistakable s.2, k ∈ doubtful s.2 := by
      decide +kernel
    obtain ⟨s, hs, rfl⟩ := Option.map_eq_some_iff.mp hp
    have hmem := List.mem_of_find?_eq_some hs
    have hlt : q < stateCount := lt_stateCount fun h => by rw [h] at hmem; cases hmem
    exact hall q hlt s hmem
  reduce {i r q q₁ p e} hr hq₁ hp he := by
    have hall : ∀ q < stateCount, ∀ g ∈ (stateRow q).gotos, ∀ i < rules.size, ∀ r ∈ rules[i]?, r.left = g.1 →
        doubtStays q r.right g.2 := by
      decide +kernel
    have hmem := StateRow.mem_gotos hp
    have hlt : q < stateCount := lt_stateCount fun h => by rw [h] at hmem; cases hmem
    obtain ⟨hi, _⟩ := Array.getElem?_eq_some_iff.mp hr
    have h := hall q hlt _ hmem i hi r hr rfl
    rw [doubtStays, hq₁, Option.all_some, List.all_eq_true] at h
    exact fun k hk => by simpa using h k (he k hk)

/-- The nonterminals below which a name may stand where a keyword may stand, too. -/
def unquiet : List Nonterminal := [.schema, .items, .item, .union, .variants, .variant, .namesImport, .importNames]

/-- A symbol below which no name is mistaken, whatever it is. -/
def quiet (q : Nat) (X : GrammarSymbol) : Bool :=
  ((stateRow q).next? X).isSome &&
    match X with
    | .t k => k ≠ .name || (doubtful q).isEmpty
    | .n n => !unquiet.contains n && (n ≠ .importName || (doubtful q).isEmpty)

def alongQuiet (q : Nat) : List GrammarSymbol → Bool
  | [] => true
  | X :: Xs => quiet q X && ((stateRow q).next? X).all fun p => alongQuiet p Xs

theorem along_of_alongQuiet {q : Nat} {Xs : List GrammarSymbol} (h : alongQuiet q Xs) :
    Along (fun q X => quiet q X) q Xs := by
  induction Xs generalizing q with
  | nil => trivial
  | cons X Xs ih =>
    obtain ⟨hX, hXs⟩ := Bool.and_eq_true_iff.mp h
    exact ⟨hX, fun p hp => ih (by simpa [hp] using hXs)⟩

theorem alongQuiet_of_quiet {q i : Nat} {r : Rule} (h : quiet q (.n r.left)) (hr : rules[i]? = some r) :
    alongQuiet q r.right := by
  have hall : ∀ q < stateCount, ∀ i < rules.size, ∀ r ∈ rules[i]?, quiet q (.n r.left) → alongQuiet q r.right := by
    decide +kernel
  obtain ⟨p, hp⟩ := Option.isSome_iff_exists.mp (Bool.and_eq_true_iff.mp h).1
  have hmem := StateRow.mem_gotos hp
  have hlt : q < stateCount := lt_stateCount fun h => by rw [h] at hmem; cases hmem
  obtain ⟨hi, _⟩ := Array.getElem?_eq_some_iff.mp hr
  exact hall q hlt i hi r hr h

/-! ### Passing through the states -/

/-- Trees of some symbols through which there is a way from a state, wherever their first token may be read. -/
def Passes (q : Nat) (Xs : List GrammarSymbol) (ts : List Tree) : Prop :=
  ∀ q' e, path? q Xs = some q' → MayRead q e → ∃ e', Walk Readable q e Xs ts q' e' ∧ MayRead q' e'

variable {q q' e e' : Nat} {R : Nat → Token → Prop} {n : Nonterminal} {Xs Ys : List GrammarSymbol} {ts us : List Tree}

theorem path?_append : path? q (Xs ++ Ys) = (path? q Xs).bind fun p => path? p Ys := by
  induction Xs generalizing q with
  | nil => rfl
  | cons X Xs ih =>
    rw [List.cons_append, path?, path?, Option.bind_assoc]
    simp only [ih]

theorem Walk.append {q₁ e₁ : Nat} (h : Walk R q e Xs ts q₁ e₁) (h' : Walk R q₁ e₁ Ys us q' e') :
    Walk R q e (Xs ++ Ys) (ts ++ us) q' e' := by
  induction h with
  | nil => exact h'
  | token hk hp hR _ ih => exact .token hk hp hR (ih h')
  | rule hr hn hcs hp _ _ ih => exact .rule hr hn hcs hp (ih h')

theorem Passes.nil : Passes q [] [] := by
  rintro q' e hq he
  cases hq
  exact ⟨e, .nil, he⟩

theorem Passes.append (h : Passes q Xs ts) (h' : ∀ p, path? q Xs = some p → Passes p Ys us) :
    Passes q (Xs ++ Ys) (ts ++ us) := by
  intro q' e hq he
  rw [path?_append] at hq
  obtain ⟨p, hp, hq⟩ := Option.bind_eq_some_iff.mp hq
  obtain ⟨e₁, hwalk, he₁⟩ := h p e hp he
  obtain ⟨e', hwalk', he'⟩ := h' p hp q' e₁ hq he₁
  exact ⟨e', hwalk.append hwalk', he'⟩

theorem Passes.node (hXs : Xs ∈ ofRules n) (h : ((stateRow q).next? (.n n)).isSome → Passes q Xs ts) :
    Passes q [.n n] [Tree.build n ts] := by
  intro q' e hq he
  obtain ⟨i, r, hr, rfl, rfl⟩ := exists_rule_of_mem hXs
  obtain ⟨p, hp, hq⟩ := Option.bind_eq_some_iff.mp hq
  cases hq
  obtain ⟨q₁, hq₁, _⟩ := exists_path hr hp
  obtain ⟨e₁, hwalk, he₁⟩ := h (by rw [hp]; rfl) q₁ e hq₁ he
  exact ⟨e₁, .rule hr rfl hwalk hp .nil, mayRead_bounds.reduce hr hq₁ hp he₁⟩

theorem Passes.token {t : Token} (h : t.terminal = .name → ∀ k ∈ Terminal.keywords, k.1 ∈ doubtful q → t.text ≠ k.2) :
    Passes q [.t t.terminal] [.leaf t] := by
  intro q' e hq he
  obtain ⟨p, hp, hq⟩ := Option.bind_eq_some_iff.mp hq
  cases hq
  exact ⟨q', .token rfl hp (fun hname k hk hmem => h hname k hk (he _ hmem)) .nil, mayRead_bounds.shift hp⟩

theorem Passes.of_quiet (hd : Derives Xs ts) (hquiet : alongQuiet q Xs) : Passes q Xs ts := by
  intro q' e hq he
  refine Walk.of_derives mayRead_bounds (fun q i r h hr => along_of_alongQuiet (alongQuiet_of_quiet h hr)) ?_ hd hq
    (along_of_alongQuiet hquiet) he
  intro q e p t hK hp he hname k hk hmem
  have hdoubt : doubtful q = [] := by simpa [quiet, hname] using (Bool.and_eq_true_iff.mp hK).2
  have hnone := he _ hmem
  rw [hdoubt] at hnone
  cases hnone

namespace Alternatives

variable {A B : Alternatives} {Q Q' : Nat → Prop} {cs ds : List Tree}

/-- One of the right sides makes these children, with trees that pass from all states of a kind. -/
def PassesFrom (A : Alternatives) (Q : Nat → Prop) (cs : List Tree) : Prop :=
  ∃ Xs ∈ A, ∃ ts, ts.flatMap Tree.spliced = cs ∧ ∀ q, Q q → Passes q Xs ts

/-- One of the right sides makes these children, with trees that pass from everywhere. -/
abbrev PassesAnywhere (A : Alternatives) (cs : List Tree) : Prop := A.PassesFrom (fun _ => True) cs

theorem PassesFrom.mono (h : A.PassesFrom Q' cs) (hQ : ∀ q, Q q → Q' q) : A.PassesFrom Q cs := by
  obtain ⟨Xs, hXs, ts, hts, hpass⟩ := h
  exact ⟨Xs, hXs, ts, hts, fun q hq => hpass q (hQ q hq)⟩

theorem PassesFrom.congr (h : A.PassesFrom Q cs) (hsub : ∀ Xs ∈ A, Xs ∈ B) : B.PassesFrom Q cs := by
  obtain ⟨Xs, hXs, ts, hts, hpass⟩ := h
  exact ⟨Xs, hsub Xs hXs, ts, hts, hpass⟩

theorem PassesFrom.andThen (h : A.PassesFrom Q cs) (h' : B.PassesFrom Q' ds)
    (hQ : ∀ q, Q q → ∀ Xs ∈ A, ∀ p, path? q Xs = some p → Q' p) : (A.andThen B).PassesFrom Q (cs ++ ds) := by
  obtain ⟨Xs, hXs, ts, rfl, hpass⟩ := h
  obtain ⟨Ys, hYs, us, rfl, hpass'⟩ := h'
  refine ⟨Xs ++ Ys, List.mem_flatMap.mpr ⟨Xs, hXs, List.mem_map.mpr ⟨Ys, hYs, rfl⟩⟩, ts ++ us, List.flatMap_append, ?_⟩
  exact fun q hq => (hpass q hq).append fun p hp => hpass' p (hQ q hq Xs hXs p hp)

theorem PassesFrom.of_quiet (h : A.Makes cs) (hquiet : ∀ q, Q q → ∀ Xs ∈ A, alongQuiet q Xs) : A.PassesFrom Q cs := by
  obtain ⟨Xs, hXs, ts, hd, hts⟩ := h
  exact ⟨Xs, hXs, ts, hts, fun q hq => .of_quiet hd (hquiet q hq Xs hXs)⟩

/-- The states that have a place for a nonterminal. -/
def HasRoom (n : Nonterminal) (q : Nat) : Prop := ((stateRow q).next? (.n n)).isSome

theorem PassesFrom.node (h : (ofRules n).PassesFrom (HasRoom n) cs) :
    (Alternatives.node n).PassesAnywhere (Tree.node n cs).spliced := by
  obtain ⟨Xs, hXs, ts, rfl, hpass⟩ := h
  exact ⟨_, List.mem_singleton_self _, [Tree.build n ts], List.append_nil _, fun q _ => .node hXs (hpass q)⟩

theorem passesAnywhere_token {k : Terminal} (t : TokenOf k) (hk : k ≠ .name) :
    (Alternatives.token k).PassesAnywhere [t.tree] := by
  obtain ⟨t, rfl⟩ := t
  exact ⟨_, List.mem_singleton_self _, [.leaf t], rfl, fun q _ => .token fun hname => absurd hname hk⟩

theorem passesFrom_name (t : TokenOf .name)
    (h : ∀ q, Q q → ∀ k ∈ Terminal.keywords, k.1 ∈ doubtful q → t.1.text ≠ k.2) :
    (Alternatives.token .name).PassesFrom Q [t.tree] := by
  obtain ⟨t, ht⟩ := t
  refine ⟨_, List.mem_singleton_self _, [.leaf t], rfl, fun q hq => ?_⟩
  rw [← ht]
  exact .token fun _ => h q hq

theorem PassesFrom.nothing : A.orNothing.PassesFrom Q [] :=
  ⟨[], List.mem_cons_self, [], rfl, fun _ _ => .nil⟩

theorem PassesFrom.something (h : A.PassesFrom Q cs) : A.orNothing.PassesFrom Q cs :=
  h.congr fun _ hXs => List.mem_cons_of_mem _ hXs

theorem passesAnywhere_comma (o : Option (TokenOf .comma)) :
    (Alternatives.token .comma).orNothing.PassesAnywhere (Phrase.childrenOf? (fun t => [t.tree]) o) := by
  cases o with
  | none => exact .nothing
  | some t => exact (passesAnywhere_token t (by decide)).something

/-- A list passes if its elements do. -/
theorem passesAnywhere_list {α : Type} {f : α → List Tree} (Ys : List GrammarSymbol) (hn : n.isSpliced)
    (hrules : Same (ofRules n) [Ys, .n n :: Ys]) (l : List α) (h : ∀ a ∈ l, PassesAnywhere [Ys] (f a)) :
    (Alternatives.node n).orNothing.PassesAnywhere (l.flatMap f) := by
  have hone (a : α) (ha : a ∈ l) :
      ∃ us : List Tree, us.flatMap Tree.spliced = f a ∧ ∀ q, Passes q Ys us := by
    obtain ⟨Xs, hXs, us, hus, hpass⟩ := h a ha
    obtain rfl := List.mem_singleton.mp hXs
    exact ⟨us, hus, fun q => hpass q trivial⟩
  -- the elements after those that have been put together to one tree
  have hmore (m : List α) (hm : ∀ a ∈ m, a ∈ l) (t : Tree) (ht : ∀ q, Passes q [.n n] [t]) :
      ∃ t', (∀ q, Passes q [.n n] [t']) ∧ t'.spliced = t.spliced ++ m.flatMap f := by
    induction m generalizing t with
    | nil => exact ⟨t, ht, (List.append_nil _).symm⟩
    | cons a m ih =>
      obtain ⟨us, hus, hpass⟩ := hone a (hm a List.mem_cons_self)
      have hstep (q : Nat) : Passes q [.n n] [Tree.build n (t :: us)] :=
        .node (hrules.2 _ (by simp)) fun _ => (ht q).append fun p _ => hpass p
      obtain ⟨t', ht', hspliced⟩ := ih (fun b hb => hm b (List.mem_cons_of_mem _ hb)) _ hstep
      refine ⟨t', ht', ?_⟩
      rw [hspliced, Spells.spliced_build hn, List.flatMap_cons, hus, List.flatMap_cons, List.append_assoc]
  cases l with
  | nil => exact .nothing
  | cons a l =>
    obtain ⟨us, hus, hpass⟩ := hone a List.mem_cons_self
    have hfirst (q : Nat) : Passes q [.n n] [Tree.build n us] := .node (hrules.2 _ (by simp)) fun _ => hpass q
    obtain ⟨t, ht, hspliced⟩ := hmore l (fun b hb => List.mem_cons_of_mem _ hb) _ hfirst
    refine ⟨[.n n], by simp [orNothing, Alternatives.node], [t], ?_, fun q _ => ht q⟩
    rw [List.flatMap_cons, List.flatMap_nil, List.append_nil, hspliced, Spells.spliced_build hn, hus, List.flatMap_cons]

end Alternatives

end UnionBridge
