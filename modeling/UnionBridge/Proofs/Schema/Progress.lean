import UnionBridge.Proofs.Schema.Distinct
import UnionBridge.Proofs.Schema.Parsing
import UnionBridge.Proofs.Schema.Passage

/-! Parsing step by step. Whatever the text, the steps come to an end, reductions find on the stack what they need, and
the tree of a text that is accepted has the parts that a schema is built from. -/
namespace UnionBridge

namespace Stack

variable {stack next : Stack} {t : Token} {tree : Tree} {i : Nat} {Xs : List GrammarSymbol}

/-- The states on a stack are a path with the symbols through which its state must have been reached. -/
theorem Holds.path_of_backs (h : stack.Holds) (hback : backs stack.state Xs) :
    Xs.length ≤ stack.length ∧ path? (state (stack.drop Xs.length)) Xs.reverse = some stack.state := by
  induction Xs generalizing stack with
  | nil => exact ⟨Nat.zero_le _, rfl⟩
  | cons X Xs ih =>
    cases h with
    | nil => exact absurd hback backs_zero
    | @cons below Y q tree h hq htree =>
      obtain ⟨rfl, hbelow⟩ := backs_cons hback hq
      obtain ⟨hle, hpath⟩ := ih h hbelow
      refine ⟨Nat.succ_le_succ hle, ?_⟩
      rw [List.length_cons, List.drop_succ_cons, List.reverse_cons, path?_append, hpath, Option.bind_some, path?, hq]
      rfl

/-- A reduction finds the states of its right side, and a way on below them. -/
theorem Holds.exists_target (h : stack.Holds) (ha : (stateRow stack.state).action? t.terminal = some (.reduce i)) :
    ∃ r target, rules[i]? = some r ∧ r.right.length ≤ stack.length ∧
      (stateRow (state (stack.drop r.right.length))).goto? r.left = some target := by
  obtain ⟨on, hon, -⟩ := StateRow.reduction_of_action? ha
  obtain ⟨r, hr⟩ := exists_rule hon
  obtain ⟨hle, hpath⟩ := h.path_of_backs (backs_of_reduction hon hr)
  rw [List.length_reverse, List.reverse_reverse] at hpath
  rw [List.length_reverse] at hle
  obtain ⟨target, htarget⟩ := exists_goto hr hpath hon
  exact ⟨r, target, hr, hle, htarget⟩

/-- The end of the text is not shifted. -/
theorem meet_ne_shifted (ht : t.terminal = .finish) : stack.meet t ≠ .shifted next := by
  refine meet_induction t (P := fun _ a => a ≠ .shifted next) ?_ ?_ ?_ ?_ ?_ stack
  · rintro _ _ ⟨⟩
  · intro stack q ha
    exact absurd (StateRow.next?_of_action? (ht ▸ ha)) next?_finish
  · rintro _ _ _ _ ⟨⟩
  · rintro _ _ _ _ _ _ _ ⟨⟩
  · exact fun _ _ _ _ _ _ _ ih => ih

/-- Only the end of the text completes a schema. -/
theorem finish_of_accepted (hm : stack.meet t = .accepted tree) : t.terminal = .finish := by
  refine meet_induction t (P := fun _ a => a = .accepted tree → t.terminal = .finish) ?_ ?_ ?_ ?_ ?_ stack hm
  · rintro _ _ ⟨⟩
  · rintro _ _ _ ⟨⟩
  · rintro _ _ _ _ ⟨⟩
  · intro stack i frame below ha hr hfinal _
    obtain ⟨r, target, hrule, _, hgo, hnext⟩ := reduce?_eq_some_iff.mp hr
    obtain ⟨rfl, rfl⟩ := List.cons_eq_cons.mp hnext
    obtain rfl : target = finalState := hfinal
    obtain ⟨hleft, -⟩ := predecessors_final (X := .n r.left) hgo
    exact eq_finish_of_schema ha hrule (GrammarSymbol.n.inj hleft)
  · exact fun _ _ _ _ _ _ _ ih => ih

end Stack

namespace Lexer

variable {allowed : List Terminal} {cs text : List Char} {k : Terminal} {cursor after : Cursor} {t : Token}

theorem mem_of_match? (h : match? allowed cs = some (k, text)) : k ∈ allowed := by
  cases cs with
  | nil => cases h
  | cons c rest =>
    rw [match?] at h
    split at h
    · rename_i hname
      obtain ⟨hk, -⟩ := Prod.mk.inj (Option.some.inj h)
      rw [← hk, wordTerminal]
      split
      · rename_i hword
        have hfound := List.find?_some hword
        simp only [Bool.and_eq_true, List.contains_eq_mem, decide_eq_true_eq] at hfound
        exact hfound.2
      · simp only [Bool.and_eq_true, List.contains_eq_mem, decide_eq_true_eq] at hname
        exact hname.1
    · split at h
      · rename_i hword
        cases h
        have hfound := List.find?_some hword
        simp only [Bool.and_eq_true, List.contains_eq_mem, decide_eq_true_eq] at hfound
        exact hfound.1
      · split at h
        · split at h
          · rename_i hmem
            cases h
            simpa using hmem
          · cases h
        · cases h

theorem mem_of_next (h : next allowed cursor = .token t after) : t.terminal ∈ allowed := by
  rw [next] at h
  split at h
  · cases h
  · split at h
    · rename_i hm
      cases h
      exact mem_of_match? hm
    · split at h <;> cases h

end Lexer

/-- More fuel than characters makes no difference. -/
theorem Parse.loop_eq_loop {m n : Nat} {stack : Stack} {cursor : Cursor} {last : Position}
    (hm : cursor.rest.length < m) (hn : cursor.rest.length < n) : loop m stack cursor last = loop n stack cursor last := by
  induction m generalizing n stack cursor last with
  | zero => exact absurd hm (Nat.not_lt_zero _)
  | succ m ih =>
    obtain ⟨n, rfl⟩ : ∃ n', n = n' + 1 := Nat.exists_eq_succ_of_ne_zero (by omega)
    simp only [loop]
    split
    · rfl
    · rfl
    · rfl
    · rename_i t after hnext
      have hlt := Lexer.length_rest_lt hnext
      split
      · exact ih (by omega) (by omega)
      · rfl
      · rfl

/-- A moment of parsing. Between being read and being shifted, a token meets the stack. -/
structure Machine where
  stack : Stack
  cursor : Cursor
  /-- Where the token before began. -/
  last : Position
  token? : Option Token

namespace Machine

inductive Step
  | goes (m : Machine)
  | ends (r : Except ParseFailure Tree)

def start (source : List Char) : Machine := ⟨[], ⟨source, {}⟩, {}, none⟩

/-- Reads the next token. -/
def read (m : Machine) : Step :=
  match Lexer.next (Parse.allowed m.stack.state) m.cursor with
  | .foreign start => .ends (.error (.unexpectedCharacter start (Parse.expectedText m.stack.state)))
  | .misplaced t => .ends (.error (.unexpectedToken t (Parse.expectedText m.stack.state)))
  | .finish => .goes { m with token? := some (Parse.finishToken m.last) }
  | .token t after => .goes { m with cursor := after, token? := some t }

/-- Shifts a token, or reduces once. -/
def act (m : Machine) (t : Token) : Step :=
  match (stateRow m.stack.state).action? t.terminal with
  | none => .ends (.error (.unexpectedToken t (stateRow m.stack.state).terminals))
  | some (.shift q) => .goes ⟨⟨q, .leaf t⟩ :: m.stack, m.cursor, t.start, none⟩
  | some (.reduce i) =>
    match m.stack.reduce? i with
    | some (frame :: below) =>
      if frame.state = finalState then .ends (.ok frame.tree) else .goes { m with stack := frame :: below }
    | _ => .ends (.error .stuck)

def step (m : Machine) : Step :=
  match m.token? with
  | none => m.read
  | some t => m.act t

def Goes (m m' : Machine) : Prop := m.step = .goes m'

/-- The machine ends after some number of steps that go on. -/
inductive EndsIn : Nat → Machine → Except ParseFailure Tree → Prop
  | now {m : Machine} {r : Except ParseFailure Tree} (h : m.step = .ends r) : EndsIn 0 m r
  | later {n : Nat} {m m' : Machine} {r : Except ParseFailure Tree} (h : m.Goes m') (hm : EndsIn n m' r) :
      EndsIn (n + 1) m r

variable {m m' : Machine} {r : Except ParseFailure Tree} {t : Token} {n : Nat} {stack : Stack} {cursor after : Cursor}
  {last : Position}

/-! ### What a step does -/

theorem goes_of_none (h : Goes ⟨stack, cursor, last, none⟩ m') :
    (Lexer.next (Parse.allowed stack.state) cursor = .finish ∧
      m' = ⟨stack, cursor, last, some (Parse.finishToken last)⟩) ∨
    ∃ t after, Lexer.next (Parse.allowed stack.state) cursor = .token t after ∧ m' = ⟨stack, after, last, some t⟩ := by
  simp only [Goes, step, read] at h
  split at h
  · cases h
  · cases h
  · rename_i hnext
    cases h
    exact .inl ⟨hnext, rfl⟩
  · rename_i t after hnext
    cases h
    exact .inr ⟨t, after, hnext, rfl⟩

theorem goes_of_some (h : Goes ⟨stack, cursor, last, some t⟩ m') :
    (∃ q, (stateRow stack.state).action? t.terminal = some (.shift q) ∧
      m' = ⟨⟨q, .leaf t⟩ :: stack, cursor, t.start, none⟩) ∨
    ∃ i frame below, (stateRow stack.state).action? t.terminal = some (.reduce i) ∧
      stack.reduce? i = some (frame :: below) ∧ frame.state ≠ finalState ∧
      m' = ⟨frame :: below, cursor, last, some t⟩ := by
  simp only [Goes, step, act] at h
  split at h
  · cases h
  · rename_i q ha
    cases h
    exact .inl ⟨q, ha, rfl⟩
  · rename_i i ha
    split at h
    · rename_i frame below hr
      split at h
      · cases h
      · rename_i hfinal
        cases h
        exact .inr ⟨i, frame, below, ha, hr, hfinal, rfl⟩
    · cases h

/-! ### The end -/

/-- A bound for the number of steps that are left. A character pays for the reading of its token, for the shift, and for
the reductions that the shift makes possible. -/
def height (m : Machine) : Nat :=
  9 * m.cursor.rest.length + m.stack.height +
    match m.token? with
    | none => 1
    | some t => if t.terminal = .finish then 0 else 9

theorem height_lt (h : m.Goes m') : m'.height < m.height := by
  obtain ⟨stack, cursor, last, _ | t⟩ := m
  · rcases goes_of_none h with ⟨_, rfl⟩ | ⟨t, after, hnext, rfl⟩
    · simp [height, Parse.finishToken]
    · have hlt := Lexer.length_rest_lt hnext
      simp only [height]
      split <;> omega
  · rcases goes_of_some h with ⟨q, ha, rfl⟩ | ⟨i, frame, below, ha, hr, hfinal, rfl⟩
    · have hfinish : t.terminal ≠ .finish := fun ht => next?_finish (StateRow.next?_of_action? (ht ▸ ha))
      have hle := unitDepth_le q
      simp only [height, Stack.height, Stack.state, List.length_cons, if_neg hfinish]
      omega
    · have hlt := Stack.height_lt_of_reduce ha hr hfinal
      simp only [height]
      omega

theorem exists_endsIn (m : Machine) : ∃ n ≤ m.height, ∃ r, EndsIn n m r := by
  induction hm : m.height using Nat.strongRecOn generalizing m with
  | _ k ih =>
    cases hs : m.step with
    | ends r => exact ⟨0, Nat.zero_le _, r, .now hs⟩
    | goes m' =>
      have hlt : m'.height < k := hm ▸ height_lt hs
      obtain ⟨n, hn, r, hr⟩ := ih _ hlt m' rfl
      exact ⟨n + 1, by omega, r, .later hs hr⟩

/-! ### The result -/

/-- What parsing gives from here on. -/
def result (m : Machine) : Except ParseFailure Tree :=
  match m.token? with
  | none => Parse.loop (m.cursor.rest.length + 1) m.stack m.cursor m.last
  | some t =>
    match m.stack.meet t with
    | .shifted next => Parse.loop (m.cursor.rest.length + 1) next m.cursor t.start
    | .accepted tree => .ok tree
    | .refused expected => .error (.unexpectedToken t expected)
    | .stuck => .error .stuck

/-- Once a token is read, parsing goes on with how the stack meets it. -/
theorem result_of_finish (h : Lexer.next (Parse.allowed stack.state) cursor = .finish) :
    result ⟨stack, cursor, last, some (Parse.finishToken last)⟩ = result ⟨stack, cursor, last, none⟩ := by
  simp only [result, Parse.loop, h]
  have hm : stack.advance (Parse.finishToken last) stack.steps = stack.meet (Parse.finishToken last) := rfl
  rw [hm]
  cases hmeet : stack.meet (Parse.finishToken last) with
  | shifted next => exact absurd hmeet (Stack.meet_ne_shifted rfl)
  | accepted tree => rfl
  | refused expected => rfl
  | stuck => rfl

theorem result_of_token (h : Lexer.next (Parse.allowed stack.state) cursor = .token t after) :
    result ⟨stack, after, last, some t⟩ = result ⟨stack, cursor, last, none⟩ := by
  have hlt := Lexer.length_rest_lt h
  have hm : stack.advance t stack.steps = stack.meet t := rfl
  simp only [result, Parse.loop, h, hm]
  cases hmeet : stack.meet t with
  | shifted next => exact Parse.loop_eq_loop (Nat.lt_succ_self _) hlt
  | accepted tree =>
    have hallowed := Lexer.mem_of_next h
    simp [Parse.allowed, Stack.finish_of_accepted hmeet] at hallowed
  | refused expected => rfl
  | stuck => rfl

theorem result_of_goes (h : m.Goes m') : m'.result = m.result := by
  obtain ⟨stack, cursor, last, _ | t⟩ := m
  · rcases goes_of_none h with ⟨hnext, rfl⟩ | ⟨t, after, hnext, rfl⟩
    · exact result_of_finish hnext
    · exact result_of_token hnext
  · rcases goes_of_some h with ⟨q, ha, rfl⟩ | ⟨i, frame, below, ha, hr, hfinal, rfl⟩
    · simp only [result, Stack.meet_of_shift ha]
    · simp only [result, Stack.meet_of_reduce ha hr hfinal]

theorem result_of_ends (h : m.step = .ends r) : m.result = r := by
  obtain ⟨stack, cursor, last, _ | t⟩ := m
  · simp only [step, read] at h
    simp only [result, Parse.loop]
    cases hnext : Lexer.next (Parse.allowed stack.state) cursor with
    | token t after =>
      rw [hnext] at h
      cases h
    | finish =>
      rw [hnext] at h
      cases h
    | misplaced t =>
      rw [hnext] at h
      cases h
      rfl
    | foreign start =>
      rw [hnext] at h
      cases h
      rfl
  · simp only [step, act] at h
    simp only [result]
    split at h
    · rename_i ha
      cases h
      rw [Stack.meet_of_none ha]
    · cases h
    · rename_i i ha
      split at h
      · rename_i frame below hr
        split at h
        · rename_i hfinal
          cases h
          rw [Stack.meet_of_final ha hr hfinal]
        · cases h
      · rename_i hnone
        cases h
        rcases hr : stack.reduce? i with _ | _ | ⟨frame, below⟩
        · rw [Stack.meet_of_stuck ha hr]
        · exact absurd rfl (Stack.ne_nil_of_reduce hr)
        · exact absurd hr (hnone frame below)

theorem EndsIn.result_eq (h : EndsIn n m r) : m.result = r := by
  induction h with
  | now h => exact result_of_ends h
  | later h _ ih => exact (result_of_goes h).symm.trans ih

/-! ### The stack -/

theorem holds_of_goes (hs : m.stack.Holds) (h : m.Goes m') : m'.stack.Holds := by
  obtain ⟨stack, cursor, last, _ | t⟩ := m
  · rcases goes_of_none h with ⟨_, rfl⟩ | ⟨t, after, _, rfl⟩ <;> exact hs
  · rcases goes_of_some h with ⟨q, ha, rfl⟩ | ⟨i, frame, below, ha, hr, _, rfl⟩
    · exact .cons hs (StateRow.next?_of_action? ha) (.token rfl .nil)
    · exact (hs.reduce ha hr).1

theorem holds_of_reaches (hs : m.stack.Holds) (h : Relation.ReflTransGen Goes m m') : m'.stack.Holds := by
  induction h with
  | refl => exact hs
  | tail _ h ih => exact holds_of_goes ih h

theorem step_ne_stuck (hs : m.stack.Holds) : m.step ≠ .ends (.error .stuck) := by
  obtain ⟨stack, cursor, last, _ | t⟩ := m
  · intro h
    simp only [step, read] at h
    split at h <;> cases h
  · intro h
    simp only [step, act] at h
    split at h
    · cases h
    · cases h
    · rename_i i ha
      obtain ⟨r, target, hr, hle, hgo⟩ := hs.exists_target ha
      rw [Stack.reduce?_eq_some_iff.mpr ⟨r, target, hr, hle, hgo, rfl⟩] at h
      simp only at h
      split at h <;> cases h

theorem EndsIn.ne_stuck (hs : m.stack.Holds) (h : EndsIn n m r) : r ≠ .error .stuck := by
  induction h with
  | now h =>
    rintro rfl
    exact step_ne_stuck hs h
  | later h _ ih => exact ih (holds_of_goes hs h)

end Machine

/-! ### Schemas -/

namespace Schema

variable {source : List Char} {tree : Tree}

/-- What is accepted is the tree of a phrase. -/
theorem exists_phrase (h : Parse.tree source = .ok tree) : ∃ d : Phrase.Schema, d.tree = tree := by
  obtain ⟨tokens, _, htokens⟩ := Parse.tree_eq_ok_iff.mp h
  exact Phrase.derives_schema_iff.mp (Parse.ofTokens_eq_ok_iff.mp htokens).1

theorem exists_ofTree? (h : Parse.tree source = .ok tree) :
    (∀ item ∈ tree.children, item.isImport ∨ item.is .union) ∧ ∃ s, ofTree? tree = some s := by
  obtain ⟨d, rfl⟩ := exists_phrase h
  refine ⟨fun item hitem => ?_, _, d.ofTree?_tree⟩
  obtain ⟨i, _, rfl⟩ := List.mem_map.mp hitem
  cases i with
  | wholeImport i => exact .inl rfl
  | namesImport i => exact .inl rfl
  | union u => exact .inr rfl

theorem code_of_repeatedNames {s : Schema} {file : Option String} {d : Diagnostic} (h : d ∈ s.repeatedNames file) :
    d.code = some Fault.duplicateName.code := by
  obtain ⟨r, _, rfl⟩ := List.mem_map.mp h
  rfl

/-- Parsing never gets stuck. It ends after a number of steps that the length of the text bounds; every reduction on the
way finds the states of its right side and has a way on from the state below; every tree that is accepted consists of
imports and unions with all their parts. So a text has a schema, or one mistake of syntax, or names declared twice. -/
theorem parse_ends (source : String) :
    (∃ n ≤ 9 * source.toList.length + 1,
      Machine.EndsIn n (.start source.toList) (Parse.tree source.toList)) ∧
    (∀ m, Relation.ReflTransGen Machine.Goes (.start source.toList) m → ∀ t ∈ m.token?, ∀ i,
      (stateRow m.stack.state).action? t.terminal = some (.reduce i) →
        ∃ r target, rules[i]? = some r ∧ r.right.length ≤ m.stack.length ∧
          (stateRow (Stack.state (m.stack.drop r.right.length))).goto? r.left = some target) ∧
    (∀ tree, Parse.tree source.toList = .ok tree →
      (∀ item ∈ tree.children, item.isImport ∨ item.is .union) ∧ ∃ s, ofTree? tree = some s) ∧
    parse source ≠ .error .stuck ∧
    ∀ file, (∃ s, read source file = .ok s) ∨ ∃ e, read source file = .error e ∧
      ((∃ d, e.diagnostics = [d] ∧ d.code = some Fault.badSyntax.code) ∨
        (e.diagnostics ≠ [] ∧ ∀ d ∈ e.diagnostics, d.code = some Fault.duplicateName.code)) := by
  have hstart : (Machine.start source.toList).stack.Holds := .nil
  obtain ⟨n, hn, r, hends⟩ := Machine.exists_endsIn (.start source.toList)
  obtain rfl : Parse.tree source.toList = r := hends.result_eq
  refine ⟨⟨n, hn, hends⟩, fun m hm t _ i ha => (Machine.holds_of_reaches hstart hm).exists_target ha,
    fun tree => exists_ofTree?, ?_, fun file => ?_⟩
  · intro hstuck
    rw [parse] at hstuck
    cases htree : Parse.tree source.toList with
    | error f =>
      rw [htree] at hstuck
      cases hstuck
      exact hends.ne_stuck hstart htree
    | ok tree =>
      obtain ⟨-, s, hs⟩ := exists_ofTree? htree
      rw [htree] at hstuck
      simp [bind, Except.bind, hs] at hstuck
  · rw [read]
    split
    · exact .inr ⟨_, rfl, .inl ⟨_, rfl, rfl⟩⟩
    · rename_i s _
      split
      · exact .inl ⟨s, rfl⟩
      · rename_i faults hne
        refine .inr ⟨_, rfl, .inr ⟨fun hnil => hne hnil, fun d hd => code_of_repeatedNames hd⟩⟩

end Schema

end UnionBridge
