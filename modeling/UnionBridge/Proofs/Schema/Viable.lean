import UnionBridge.Proofs.Schema.Progress
import UnionBridge.Proofs.Schema.Spacing

/-! Mistakes of syntax are found at the first token that no schema has there: all that was read before is the beginning
of some schema, and with the token that is reported it is the beginning of none. -/
namespace UnionBridge

open UnionBridge.Tree (leavesOf)

/-! ### Ways to go on -/

/-- How many single symbols have to be completed before more of a stack is needed. -/
def completionDepth (q : Nat) : Nat :=
  if q = 1 then 6
  else if q = 8 then 5
  else if [2, 3, 4, 6].contains q then 4
  else if [9, 10, 12].contains q then 3
  else if [7, 14, 36, 38, 51, 52].contains q then 2
  else if [5, 22, 30, 33, 40, 54, 55, 69, 73].contains q then 1
  else 0

/-- A state was reached with the beginning of a right side, and from wherever that was there is a way on with the left
side. It does not lead in circles. -/
def completes (q : Nat) (left : Nonterminal) (start : List GrammarSymbol) : Bool :=
  !start.isEmpty && backs q start.reverse && (List.range stateCount).all fun p =>
    path? p start ≠ some q || ((stateRow p).goto? left).any fun p' =>
      1 < start.length || completionDepth p' < completionDepth q

/-- Some rule can be completed in a state. -/
def completable (q : Nat) : Bool :=
  (List.range rules.size).any fun i => (rules[i]?).any fun r =>
    (List.range (r.right.length + 1)).any fun k => completes q r.left (r.right.take k)

theorem completable_all (q : Nat) (hlt : q < stateCount) (hstart : q ≠ 0) (hfinal : q ≠ finalState) : completable q := by
  -- The states are gone through in four parts, as all of them at once take much memory.
  have hfirst : ∀ q < 26, q ≠ 0 → q ≠ finalState → completable q := by decide +kernel
  have hsecond : ∀ i < 26, completable (26 + i) := by decide +kernel
  have hthird : ∀ i < 26, completable (52 + i) := by decide +kernel
  have hlast : ∀ i < 25, completable (78 + i) := by decide +kernel
  have hcount : stateCount = 103 := rfl
  by_cases h26 : q < 26
  · exact hfirst q h26 hstart hfinal
  by_cases h52 : q < 52
  · exact Nat.add_sub_of_le (Nat.le_of_not_lt h26) ▸ hsecond (q - 26) (by omega)
  by_cases h78 : q < 78
  · exact Nat.add_sub_of_le (Nat.le_of_not_lt h52) ▸ hthird (q - 52) (by omega)
  · exact Nat.add_sub_of_le (Nat.le_of_not_lt h78) ▸ hlast (q - 78) (by omega)

theorem completionDepth_le (q : Nat) : completionDepth q ≤ 6 := by
  simp only [completionDepth]
  repeat' split
  all_goals omega

/-- In every state but the first and the last some rule can be completed. -/
theorem exists_completion {q : Nat} (hlt : q < stateCount) (hstart : q ≠ 0) (hfinal : q ≠ finalState) :
    ∃ (i : Nat) (r : Rule) (before after : List GrammarSymbol), rules[i]? = some r ∧ r.right = before ++ after ∧
      before ≠ [] ∧ backs q before.reverse ∧
      ∀ p, path? p before = some q → ∃ p', (stateRow p).next? (.n r.left) = some p' ∧
        (1 < before.length ∨ completionDepth p' < completionDepth q) := by
  obtain ⟨i, _, hi⟩ := List.any_eq_true.mp (completable_all q hlt hstart hfinal)
  obtain ⟨r, hr, hk⟩ := (Option.any_eq_true _ _).mp hi
  obtain ⟨k, _, hcompletes⟩ := List.any_eq_true.mp hk
  simp only [completes, Bool.and_eq_true, Bool.not_eq_true', List.isEmpty_eq_false_iff] at hcompletes
  obtain ⟨⟨hne, hback⟩, hall⟩ := hcompletes
  refine ⟨i, r, r.right.take k, r.right.drop k, hr, (List.take_append_drop k r.right).symm, hne, hback, fun p hp => ?_⟩
  have hplt : p < stateCount := by
    refine lt_stateCount fun hempty => ?_
    obtain ⟨X, Xs, hcons⟩ := List.exists_cons_of_ne_nil hne
    rw [hcons, path?, hempty] at hp
    cases X <;> cases hp
  have hgoes := List.all_eq_true.mp hall p (List.mem_range.mpr hplt)
  simp only [hp, ne_eq, not_true_eq_false, decide_false, Bool.false_or] at hgoes
  obtain ⟨p', hp', hdepth⟩ := (Option.any_eq_true _ _).mp hgoes
  refine ⟨p', hp', ?_⟩
  simpa using hdepth

/-- A nonterminal can be derived by rules that nest no deeper than this. -/
def derivable : Nat → Nonterminal → Bool
  | 0, _ => false
  | depth + 1, n => (List.range rules.size).any fun i => (rules[i]?).any fun r => r.left = n && r.right.all fun
    | .t _ => true
    | .n m => derivable depth m

theorem derivable_all (n : Nonterminal) : derivable 8 n := by
  cases n <;> decide +kernel

/-- Symbols can be derived if all nonterminals among them can. -/
theorem exists_derives_of_mem (Xs : List GrammarSymbol) (h : ∀ n, .n n ∈ Xs → ∃ tree, Derives [.n n] [tree]) :
    ∃ ts, Derives Xs ts := by
  induction Xs with
  | nil => exact ⟨[], .nil⟩
  | cons X Xs ih =>
    obtain ⟨ts, hts⟩ := ih fun n hn => h n (List.mem_cons_of_mem _ hn)
    cases X with
    | t k => exact ⟨_, .token (t := ⟨k, [], {}⟩) rfl hts⟩
    | n n =>
      obtain ⟨tree, htree⟩ := h n List.mem_cons_self
      exact ⟨_, htree.append hts⟩

theorem exists_derivation (depth : Nat) (n : Nonterminal) (h : derivable depth n) :
    ∃ tree, Derives [.n n] [tree] := by
  induction depth generalizing n with
  | zero => cases h
  | succ depth ih =>
    obtain ⟨i, _, hi⟩ := List.any_eq_true.mp h
    obtain ⟨r, hr, hright⟩ := (Option.any_eq_true _ _).mp hi
    rw [Bool.and_eq_true, decide_eq_true_eq, List.all_eq_true] at hright
    obtain ⟨cs, hcs⟩ := exists_derives_of_mem r.right fun m hm => ih m (hright.2 _ hm)
    exact ⟨_, .rule hr hright.1 hcs .nil⟩

/-- Any symbols can be derived. -/
theorem exists_derives (Xs : List GrammarSymbol) : ∃ ts, Derives Xs ts :=
  exists_derives_of_mem Xs fun n _ => exists_derivation 8 n (derivable_all n)

namespace Stack

variable {stack : Stack}

theorem Holds.state_lt (h : stack.Holds) (hstart : stack.state ≠ 0) : stack.state < stateCount := by
  cases h with
  | nil => exact absurd rfl hstart
  | @cons below X q tree _ hq _ =>
    have hlt : ∀ p < stateCount, ∀ e ∈ (stateRow p).edges, e.2 < stateCount := by decide +kernel
    have hmem := StateRow.mem_edges hq
    exact hlt _ (lt_stateCount fun hempty => by rw [hempty] at hmem; cases hmem) _ hmem

/-- Whatever was read onto a stack is the beginning of a schema. The induction takes frames off the stack, or else makes
do with fewer completions of single symbols. -/
theorem Holds.exists_schema (h : stack.Holds) :
    ∃ tree more, Derives [.n .schema] [tree] ∧ tree.leaves = stack.leaves ++ more := by
  induction hn : 7 * stack.length + completionDepth stack.state using Nat.strongRecOn generalizing stack with
  | _ n ih =>
    by_cases hstart : stack.state = 0
    · obtain rfl := h.eq_nil hstart
      have hrule : rules[0]? = some ⟨.schema, []⟩ := rfl
      exact ⟨Tree.build .schema [], [], .rule hrule rfl .nil .nil, rfl⟩
    by_cases hfinal : stack.state = finalState
    · cases h with
      | nil => exact absurd rfl hstart
      | cons hbelow hq htree =>
        obtain rfl : _ = finalState := hfinal
        obtain ⟨rfl, hzero⟩ := predecessors_final hq
        obtain rfl := hbelow.eq_nil hzero
        exact ⟨_, [], htree, by simp [leaves]⟩
    obtain ⟨i, r, before, after, hr, hright, hne, hback, hgoes⟩ :=
      exists_completion (h.state_lt hstart) hstart hfinal
    obtain ⟨hle, hpath⟩ := h.path_of_backs hback
    rw [List.length_reverse, List.reverse_reverse] at hpath
    rw [List.length_reverse] at hle
    obtain ⟨p', hp', hdepth⟩ := hgoes _ hpath
    have hbefore := h.derives_of_backs hback
    rw [List.length_reverse, List.reverse_reverse] at hbefore
    obtain ⟨us, hus⟩ := exists_derives after
    have hwhole := hright ▸ hbefore.append hus
    -- the rule is completed with these trees, and its left side takes the place of what was there
    have hnext : Holds (⟨p', Tree.build r.left ((stack.take before.length).reverse.map Frame.tree ++ us)⟩ ::
        stack.drop before.length) := .cons (h.drop _) hp' (.rule hr rfl hwhole .nil)
    have hpos := List.length_pos_iff.mpr hne
    have hsmaller : 7 * (stack.drop before.length).length + 7 + completionDepth p' < n := by
      have hdepth' := completionDepth_le p'
      rw [List.length_drop, ← hn]
      omega
    obtain ⟨tree, more, htree, hleaves⟩ := ih _ (by simpa [state, Nat.mul_add] using hsmaller) hnext rfl
    refine ⟨tree, leavesOf us ++ more, htree, ?_⟩
    rw [hleaves, leaves_cons, Tree.leaves_build, Tree.leavesOf_append, ← List.append_assoc, leaves_drop, List.append_assoc]

end Stack

/-! ### Tokens that a stack takes -/

/-- A sequence of terminals with which the tokens of some schema begin. -/
def Phrase.Begins (ks : List Terminal) : Prop := ∃ d : Phrase.Schema, ks <+: d.tokens.map Token.terminal

namespace Stack

variable {stack stack' next mid top : Stack} {t t' : Token} {ts us : List Token} {tree : Tree}

/-- Tokens are shifted one after the other, wherever they were read. -/
abbrev Shifts : Stack → List Token → Stack → Prop := Runs fun _ _ => True

/-- Where a token is shifted and which stack comes of it is settled by the stack. -/
theorem Shifts.unique (h : Shifts stack ts mid) (h' : Shifts stack ts top) : mid = top := by
  induction h with
  | nil =>
    cases h'
    rfl
  | cons _ hm _ ih =>
    cases h' with
    | cons _ hm' h' =>
      cases hm.symm.trans hm'
      exact ih h'

theorem Shifts.exists_mid (h : Shifts stack (ts ++ us) top) : ∃ mid, Shifts stack ts mid ∧ Shifts mid us top := by
  induction ts generalizing stack with
  | nil => exact ⟨stack, .nil, h⟩
  | cons t ts ih =>
    cases h with
    | cons _ hm h =>
      obtain ⟨mid, hts, hus⟩ := ih h
      exact ⟨mid, .cons trivial hm hts, hus⟩

/-- Tokens of the same terminals are shifted by a stack with the same states. -/
theorem Shifts.exists_states (h : Shifts stack us top) (hstates : stack'.states = stack.states)
    (hks : ts.map Token.terminal = us.map Token.terminal) : ∃ top', Shifts stack' ts top' ∧ top'.states = top.states := by
  induction h generalizing stack' ts with
  | nil =>
    obtain rfl := List.map_eq_nil_iff.mp hks
    exact ⟨stack', .nil, hstates⟩
  | @cons stack next top u us _ hm _ ih =>
    obtain ⟨t, ts, rfl, hk, hks⟩ := List.map_eq_cons_iff.mp hks
    obtain ⟨next', hm', hnext⟩ := exists_shifted hm hstates hk
    obtain ⟨top', hts, htop⟩ := ih hnext hks
    exact ⟨top', .cons trivial hm' hts, htop⟩

/-- Whether a stack is accepted depends on its states only. -/
theorem exists_accepted (hm : stack.meet t = .accepted tree) (h : stack'.states = stack.states)
    (hk : t'.terminal = t.terminal) : ∃ tree', stack'.meet t' = .accepted tree' := by
  revert stack' tree
  refine meet_induction t (P := fun stack advance => ∀ {stack' : Stack} {tree : Tree}, advance = .accepted tree →
    stack'.states = stack.states → ∃ tree', stack'.meet t' = .accepted tree') ?_ ?_ ?_ ?_ ?_ stack
  · exact fun _ _ _ _ h => nomatch h
  · exact fun _ _ _ _ _ h => nomatch h
  · exact fun _ _ _ _ _ _ h => nomatch h
  · intro stack i frame below ha hr hfinal stack' tree _ h
    obtain ⟨next', hr', hstates⟩ := exists_reduce? h hr
    rw [← hk, ← state_of_states h] at ha
    cases next' with
    | nil => cases hstates
    | cons frame' below' =>
      have hframe : frame'.state = frame.state := (List.cons.inj hstates).1
      exact ⟨_, meet_of_final ha hr' (hframe.trans hfinal)⟩
  · intro stack i frame below ha hr hfinal ih stack' tree htree h
    obtain ⟨next', hr', hstates⟩ := exists_reduce? h hr
    rw [← hk, ← state_of_states h] at ha
    cases next' with
    | nil => cases hstates
    | cons frame' below' =>
      have hframe : frame'.state = frame.state := (List.cons.inj hstates).1
      rw [meet_of_reduce ha hr' (hframe ▸ hfinal)]
      exact ih htree hstates

theorem Shifts.holds (h : Shifts stack ts top) (hs : stack.Holds) : top.Holds ∧ top.leaves = stack.leaves ++ ts := by
  induction h with
  | nil => exact ⟨hs, (List.append_nil _).symm⟩
  | @cons stack next top t ts _ hm _ ih =>
    obtain ⟨hnext, hleaves⟩ := hs.shift hm
    obtain ⟨htop, hleaves'⟩ := ih hnext
    exact ⟨htop, by rw [hleaves', hleaves, List.append_assoc, List.singleton_append]⟩

theorem exists_shifts_of_ofTokens {last : Position} (h : Parse.ofTokens stack last ts = .ok tree) :
    ∃ top, Shifts stack ts top ∧ ∃ t : Token, t.terminal = .finish ∧ top.meet t = .accepted tree := by
  induction ts generalizing stack last with
  | nil =>
    rw [Parse.ofTokens] at h
    split at h
    · rename_i hm
      cases h
      exact ⟨stack, .nil, _, rfl, hm⟩
    · cases h
    · cases h
  | cons t ts ih =>
    rw [Parse.ofTokens] at h
    split at h
    · rename_i next hm
      obtain ⟨top, hts, haccepted⟩ := ih h
      exact ⟨top, .cons trivial hm hts, haccepted⟩
    · cases h
    · cases h

theorem exists_shifts (d : Phrase.Schema) :
    ∃ top, Shifts [] d.tokens top ∧ ∃ t : Token, t.terminal = .finish ∧ top.meet t = .accepted d.tree := by
  have hderives : Derives [.n .schema] [d.tree] := Phrase.derives_schema_iff.mpr ⟨d, rfl⟩
  have htokens : Parse.ofTokens [] {} d.tokens = .ok d.tree := Parse.ofTokens_eq_ok_iff.mpr ⟨hderives, rfl⟩
  exact exists_shifts_of_ofTokens htokens

/-- What is shifted from the start is the beginning of a schema. -/
theorem Shifts.exists_schema (h : Shifts [] ts stack) : ∃ d : Phrase.Schema, ts <+: d.tokens := by
  obtain ⟨hholds, hleaves⟩ := h.holds .nil
  obtain ⟨tree, more, htree, htokens⟩ := hholds.exists_schema
  obtain ⟨d, rfl⟩ := Phrase.derives_schema_iff.mp htree
  exact ⟨d, more, by rw [Phrase.Schema.tokens, htokens, hleaves]; rfl⟩

/-- Where a schema goes on with a token, it is shifted. -/
theorem Shifts.exists_next (h : Shifts [] ts stack) (hbegins : Phrase.Begins (ts.map Token.terminal ++ [t.terminal])) :
    ∃ next, stack.meet t = .shifted next := by
  obtain ⟨d, more, hd⟩ := hbegins
  obtain ⟨top, hshifts, _⟩ := exists_shifts d
  have hks : ts.map Token.terminal ++ t.terminal :: more = d.tokens.map Token.terminal := by
    rw [← hd, List.append_assoc, List.singleton_append]
  obtain ⟨us, us', hus, hts, hmore⟩ := List.map_eq_append_iff.mp hks.symm
  obtain ⟨u, us'', rfl, hu, _⟩ := List.map_eq_cons_iff.mp hmore
  rw [hus] at hshifts
  obtain ⟨mid, hbefore, hafter⟩ := hshifts.exists_mid
  have hstart : states [] = states [] := rfl
  obtain ⟨stack', hstack', hstates⟩ := hbefore.exists_states hstart hts.symm
  obtain rfl := h.unique hstack'
  cases hafter with
  | cons _ hm _ =>
    obtain ⟨next, hnext, _⟩ := exists_shifted hm hstates hu.symm
    exact ⟨next, hnext⟩

/-- Where a schema ends, it is accepted. -/
theorem Shifts.exists_tree (h : Shifts [] ts stack) {d : Phrase.Schema}
    (hd : d.tokens.map Token.terminal = ts.map Token.terminal) (ht : t.terminal = .finish) :
    ∃ tree, stack.meet t = .accepted tree := by
  obtain ⟨top, hshifts, t', ht', haccepted⟩ := exists_shifts d
  have hstart : states [] = states [] := rfl
  obtain ⟨stack', hstack', hstates⟩ := hshifts.exists_states hstart hd.symm
  obtain rfl := h.unique hstack'
  exact exists_accepted haccepted hstates (ht.trans ht'.symm)

end Stack

/-! ### Reading up to a mistake -/

namespace Lexer

variable {allowed : List Terminal} {cursor : Cursor} {cs rest : List Char} {w : Word} {t : Token}

/-- A word that is found where everything may stand is found wherever its terminal may. -/
theorem match?_of_anywhere (h : match? anywhere cs = some w) (hmem : w.1 ∈ allowed) : match? allowed cs = some w := by
  have happart : ∀ w ∈ Terminal.keywords, ∀ m ∈ marks, w.1 ≠ m.2 := by decide
  have hmarks : ∀ m ∈ marks, m.2 ≠ .name := by decide
  have hkeywords : ∀ w ∈ Terminal.keywords, w.1 ≠ .name ∧ w.1 ∈ anywhere := by decide
  obtain ⟨rest, rfl, hmatched⟩ := exists_matched h
  cases hmatched with
  | @whole cs hcs _ hrest =>
    refine match?_word (Matched.whole hcs (by decide) hrest).valid hmem (fun _ => hrest) fun hname k hk _ heq => ?_
    obtain rfl : cs = k.2 := heq
    have hfind : Terminal.keywords.find? (fun k' => k'.2 = k.2 && anywhere.contains k'.1) = none := by
      simp only [wordTerminal] at hname
      cases hfind : Terminal.keywords.find? (fun k' => k'.2 = k.2 && anywhere.contains k'.1) with
      | none => rfl
      | some k' =>
        rw [hfind] at hname
        exact absurd hname (hkeywords _ (List.mem_of_find?_eq_some hfind)).1
    have hnot := List.find?_eq_none.mp hfind k hk
    simp [(hkeywords k hk).2] at hnot
  | keyword _ _ hname => exact absurd (by decide) hname
  | @mark c k hc _ =>
    refine match?_word (.mark hc) hmem (fun hruns => ?_) fun hname => absurd hname (hmarks _ (mem_marks hc))
    rcases hruns with hname | hkeyword
    · exact absurd hname (hmarks _ (mem_marks hc))
    · exact absurd rfl (happart _ hkeyword _ (mem_marks hc))

/-- A misplaced token has a terminal for which there is no room. -/
theorem notMem_of_misplaced (h : next allowed cursor = .misplaced t) : t.terminal ∉ allowed := by
  intro hmem
  rw [next] at h
  split at h
  · cases h
  · split at h
    · cases h
    · rename_i hnone
      split at h
      · rename_i k text hanywhere
        cases h
        cases hnone.symm.trans (match?_of_anywhere hanywhere hmem)
      · cases h

theorem ne_finish_of_misplaced (h : next allowed cursor = .misplaced t) : t.terminal ≠ .finish := by
  rw [next] at h
  split at h
  · cases h
  · split at h
    · cases h
    · split at h
      · rename_i k text hanywhere
        cases h
        obtain ⟨_, _, hmatched⟩ := exists_matched hanywhere
        exact hmatched.valid.ne_finish
      · cases h

end Lexer

namespace Parse

variable {stack stack' : Stack} {cursor cursor' : Cursor} {ts : List Token} {f : ParseFailure}

/-- Tokens are read off a text and shifted, each in the state that those before it left. -/
inductive Follows : Stack → Cursor → List Token → Stack → Cursor → Prop
  | nil {stack : Stack} {cursor : Cursor} : Follows stack cursor [] stack cursor
  | cons {stack next stack' : Stack} {cursor after cursor' : Cursor} {t : Token} {ts : List Token}
      (hnext : Lexer.next (allowed stack.state) cursor = .token t after) (hm : stack.meet t = .shifted next)
      (h : Follows next after ts stack' cursor') : Follows stack cursor (t :: ts) stack' cursor'

theorem Follows.shifts (h : Follows stack cursor ts stack' cursor') : stack.Shifts ts stack' := by
  induction h with
  | nil => exact .nil
  | cons _ hm _ ih => exact .cons trivial hm ih

/-- How a failure comes about behind the tokens that were read before. -/
inductive FailsAt (stack : Stack) (cursor : Cursor) (ts : List Token) : ParseFailure → Prop
  /-- A token, whether the state has room for it or not, with which no schema goes on. -/
  | token {t : Token} {expected : List Terminal}
      (hnext : (∃ after, Lexer.next (allowed stack.state) cursor = .token t after) ∨
        Lexer.next (allowed stack.state) cursor = .misplaced t)
      (hnot : ¬Phrase.Begins (ts.map Token.terminal ++ [t.terminal])) : FailsAt stack cursor ts (.unexpectedToken t expected)
  /-- The end of the text, where no schema ends. -/
  | finish {t : Token} {expected : List Terminal} (hnext : Lexer.next (allowed stack.state) cursor = .finish)
      (ht : t.terminal = .finish) (hnot : ∀ d : Phrase.Schema, d.tokens.map Token.terminal ≠ ts.map Token.terminal) :
      FailsAt stack cursor ts (.unexpectedToken t expected)
  /-- A character with which no token begins. -/
  | character {start : Position} {expected : List Terminal}
      (hnext : Lexer.next (allowed stack.state) cursor = .foreign start) :
      FailsAt stack cursor ts (.unexpectedCharacter start expected)

/-- A token with which a schema goes on is neither refused nor misplaced. -/
theorem not_begins_of_refused {t : Token} {expected : List Terminal} (h : Stack.Shifts [] ts stack)
    (hm : stack.meet t = .refused expected) : ¬Phrase.Begins (ts.map Token.terminal ++ [t.terminal]) := by
  intro hbegins
  obtain ⟨next, hnext⟩ := h.exists_next hbegins
  cases hm.symm.trans hnext

theorem not_begins_of_misplaced {t : Token} (h : Stack.Shifts [] ts stack)
    (hnext : Lexer.next (allowed stack.state) cursor = .misplaced t) :
    ¬Phrase.Begins (ts.map Token.terminal ++ [t.terminal]) := by
  intro hbegins
  obtain ⟨next, hm⟩ := h.exists_next hbegins
  exact Lexer.notMem_of_misplaced hnext (Stack.mem_allowed hm (Lexer.ne_finish_of_misplaced hnext))

/-- From any point that parsing comes to it goes on until it fails as it should. -/
theorem exists_failsAt {before : List Token} {fuel : Nat} {last : Position} (hbefore : Stack.Shifts [] before stack)
    (h : loop fuel stack cursor last = .error f) (hf : f ≠ .stuck) :
    ∃ ts stack' cursor', Follows stack cursor ts stack' cursor' ∧ FailsAt stack' cursor' (before ++ ts) f := by
  induction fuel generalizing stack cursor last before with
  | zero =>
    cases h
    exact absurd rfl hf
  | succ fuel ih =>
    rw [loop] at h
    cases hnext : Lexer.next (allowed stack.state) cursor with
    | foreign start =>
      rw [hnext] at h
      cases h
      exact ⟨[], _, _, .nil, .character hnext⟩
    | misplaced t =>
      rw [hnext] at h
      cases h
      refine ⟨[], _, _, .nil, .token (.inr hnext) ?_⟩
      rw [List.append_nil]
      exact not_begins_of_misplaced hbefore hnext
    | finish =>
      rw [hnext] at h
      simp only at h
      split at h
      · cases h
      · rename_i expected hm
        cases h
        refine ⟨[], _, _, .nil, .finish hnext rfl fun d hd => ?_⟩
        rw [List.append_nil] at hd
        obtain ⟨tree, haccepted⟩ := hbefore.exists_tree hd (rfl : (finishToken last).terminal = .finish)
        cases hm.symm.trans haccepted
      · cases h
        exact absurd rfl hf
    | token t after =>
      rw [hnext] at h
      simp only at h
      split at h
      · rename_i next hm
        have hshifts : Stack.Shifts [] (before ++ [t]) next := hbefore.append (.cons trivial hm .nil)
        obtain ⟨ts, stack', cursor', hfollows, hfails⟩ := ih hshifts h
        rw [List.append_assoc, List.singleton_append] at hfails
        exact ⟨t :: ts, stack', cursor', .cons hnext hm hfollows, hfails⟩
      · rename_i expected hm
        cases h
        refine ⟨[], _, _, .nil, .token (.inl ⟨after, hnext⟩) ?_⟩
        rw [List.append_nil]
        exact not_begins_of_refused hbefore hm
      · cases h
        exact absurd rfl hf

end Parse

/-- Where a text does not parse, the tokens before the mistake are the beginning of a schema. A token that is reported is
one with which no schema goes on behind them; where the end is reported, no schema ends there. -/
theorem Schema.earliest_of_parse {source : String} {f : ParseFailure} (h : parse source = .error f) :
    ∃ ts stack cursor, Parse.Follows [] ⟨source.toList, {}⟩ ts stack cursor ∧
      (∃ d : Phrase.Schema, ts <+: d.tokens) ∧ Parse.FailsAt stack cursor ts f := by
  have hf : f ≠ .stuck := by
    rintro rfl
    exact (parse_ends source).2.2.2.1 h
  rw [parse] at h
  cases htree : Parse.tree source.toList with
  | ok tree =>
    obtain ⟨-, s, hs⟩ := exists_ofTree? htree
    rw [htree] at h
    simp [bind, Except.bind, hs] at h
  | error f' =>
    rw [htree] at h
    cases h
    obtain ⟨ts, stack, cursor, hfollows, hfails⟩ := Parse.exists_failsAt .nil htree hf
    exact ⟨ts, stack, cursor, hfollows, hfollows.shifts.exists_schema, hfails⟩

/-- A colon after the name of a case is reported where it stands: no schema goes on with it behind `union A { x`. -/
theorem Schema.earliest_of_parse_colon :
    parse "union A \x7b x: int \x7d" =
        .error (.unexpectedToken ⟨.colon, [':'], ⟨1, 12, 11⟩⟩ [.comma, .leftBrace, .leftParen, .at, .name, .rightBrace]) ∧
      ∃ ts stack cursor, Parse.Follows [] ⟨"union A \x7b x: int \x7d".toList, {}⟩ ts stack cursor ∧
        (∃ d : Phrase.Schema, ts <+: d.tokens) ∧
        Parse.FailsAt stack cursor ts
          (.unexpectedToken ⟨.colon, [':'], ⟨1, 12, 11⟩⟩ [.comma, .leftBrace, .leftParen, .at, .name, .rightBrace]) :=
  have h : parse "union A \x7b x: int \x7d" =
      .error (.unexpectedToken ⟨.colon, [':'], ⟨1, 12, 11⟩⟩
        [.comma, .leftBrace, .leftParen, .at, .name, .rightBrace]) := by
    decide +kernel
  ⟨h, Schema.earliest_of_parse h⟩

end UnionBridge
