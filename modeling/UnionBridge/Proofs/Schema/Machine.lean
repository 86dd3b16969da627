import UnionBridge.Schema.Parse
import UnionBridge.Proofs.Schema.Automaton

/-! How a stack meets a token. The reductions come to an end, so no step of the machine depends on its fuel. -/
namespace UnionBridge

namespace Stack

variable {t : Token} {stack next : Stack} {frame : Frame} {i q : Nat}

/-- What a stack does with a token. -/
def meet (t : Token) (stack : Stack) : Advance := stack.advance t stack.steps

/-- A bound for the number of reductions before the next shift. -/
def height (stack : Stack) : Nat := 4 * stack.length + unitDepth stack.state

theorem height_lt_steps (stack : Stack) : stack.height < stack.steps := by
  have h := unitDepth_le stack.state
  rw [height, steps]
  omega

/-- A reduction takes the frames of the right side off and puts one for the left side in their place. -/
theorem reduce?_eq_some_iff :
    stack.reduce? i = some next ↔
      ∃ r target, rules[i]? = some r ∧ r.right.length ≤ stack.length ∧
        (stateRow (state (stack.drop r.right.length))).goto? r.left = some target ∧
        next = ⟨target, Tree.build r.left ((stack.take r.right.length).reverse.map Frame.tree)⟩ ::
          stack.drop r.right.length := by
  rw [reduce?]
  constructor
  · intro h
    obtain ⟨r, hr, h⟩ := Option.bind_eq_some_iff.mp h
    obtain ⟨_, hn, h⟩ := Option.bind_eq_some_iff.mp h
    obtain ⟨target, hgo, h⟩ := Option.bind_eq_some_iff.mp h
    have hle : r.right.length ≤ stack.length := by
      by_cases hle : r.right.length ≤ stack.length
      · exact hle
      · simp [guard, hle] at hn
    exact ⟨r, target, hr, hle, hgo, (Option.some.inj h).symm⟩
  · rintro ⟨r, target, hr, hle, hgo, rfl⟩
    simp [hr, hle, hgo, guard]

theorem height_lt_of_reduce (ha : (stateRow stack.state).action? t.terminal = some (.reduce i))
    (hr : stack.reduce? i = some next) (hfinal : next.state ≠ finalState) : next.height < stack.height := by
  obtain ⟨on, hon, -⟩ := StateRow.reduction_of_action? ha
  obtain ⟨r, target, hrule, hle, hgo, rfl⟩ := reduce?_eq_some_iff.mp hr
  have hdepth : unitDepth target ≤ 3 := unitDepth_le target
  simp only [height, state, List.length_cons, List.length_drop]
  rcases hlen : r.right.length with _ | _ | n
  · have hleft : r.left = .schema := left_of_right_nil hrule (List.length_eq_zero_iff.mp hlen)
    rw [hleft] at hgo
    exact absurd (goto_schema_final hgo) hfinal
  · have hlt := unitDepth_lt hon hrule hlen hgo
    simp only [state] at hlt
    omega
  · omega

/-- What holds of a stack if it holds after its next reduction holds of every stack. -/
theorem reduction_induction (t : Token) {P : Stack → Prop}
    (h : ∀ stack : Stack, (∀ i next, (stateRow stack.state).action? t.terminal = some (.reduce i) →
      stack.reduce? i = some next → next.state ≠ finalState → P next) → P stack) (stack : Stack) : P stack := by
  induction hn : stack.height using Nat.strongRecOn generalizing stack with
  | _ n ih =>
    refine h stack fun i next ha hr hfinal => ih next.height ?_ next rfl
    rw [← hn]
    exact height_lt_of_reduce ha hr hfinal

theorem advance_succ (t : Token) (n : Nat) (stack : Stack) :
    stack.advance t (n + 1) =
      match (stateRow stack.state).action? t.terminal with
      | none => .refused (stateRow stack.state).terminals
      | some (.shift state) => .shifted (⟨state, .leaf t⟩ :: stack)
      | some (.reduce rule) =>
        match stack.reduce? rule with
        | none => .stuck
        | some next =>
          match next with
          | [] => .stuck
          | frame :: _ => if frame.state = finalState then .accepted frame.tree else advance t n next :=
  rfl

/-- Fuel beyond the height makes no difference. -/
theorem advance_eq_advance {m n : Nat} (hm : stack.height < m) (hn : stack.height < n) :
    stack.advance t m = stack.advance t n := by
  induction stack using reduction_induction t generalizing m n with
  | h stack ih =>
    obtain ⟨m, rfl⟩ : ∃ m', m = m' + 1 := Nat.exists_eq_succ_of_ne_zero (by omega)
    obtain ⟨n, rfl⟩ : ∃ n', n = n' + 1 := Nat.exists_eq_succ_of_ne_zero (by omega)
    simp only [advance_succ]
    split
    · rfl
    · rfl
    · rename_i i ha
      split
      · rfl
      · rename_i next hr
        split
        · rfl
        · rename_i frame below
          split
          · rfl
          · rename_i hfinal
            have hlt := height_lt_of_reduce ha hr hfinal
            exact ih i _ ha hr hfinal (by omega) (by omega)

theorem meet_eq : stack.meet t = stack.advance t (8 * stack.length + 7 + 1) := rfl

theorem meet_of_shift (ha : (stateRow stack.state).action? t.terminal = some (.shift q)) :
    stack.meet t = .shifted (⟨q, .leaf t⟩ :: stack) := by
  simp only [meet_eq, advance_succ, ha]

theorem meet_of_none (ha : (stateRow stack.state).action? t.terminal = none) :
    stack.meet t = .refused (stateRow stack.state).terminals := by
  simp only [meet_eq, advance_succ, ha]

theorem meet_of_stuck (ha : (stateRow stack.state).action? t.terminal = some (.reduce i))
    (hr : stack.reduce? i = none) : stack.meet t = .stuck := by
  simp only [meet_eq, advance_succ, ha, hr]

theorem meet_of_final (ha : (stateRow stack.state).action? t.terminal = some (.reduce i))
    (hr : stack.reduce? i = some (frame :: next)) (hfinal : frame.state = finalState) :
    stack.meet t = .accepted frame.tree := by
  simp only [meet_eq, advance_succ, ha, hr, hfinal, if_true]

theorem meet_of_reduce (ha : (stateRow stack.state).action? t.terminal = some (.reduce i))
    (hr : stack.reduce? i = some (frame :: next)) (hfinal : frame.state ≠ finalState) :
    stack.meet t = meet t (frame :: next) := by
  have hlt : height (frame :: next) < stack.height := height_lt_of_reduce ha hr hfinal
  have hsteps := height_lt_steps stack
  have hunfold : stack.meet t = advance t (8 * stack.length + 7) (frame :: next) := by
    simp only [meet_eq, advance_succ, ha, hr, hfinal, if_false]
  rw [hunfold, meet]
  refine advance_eq_advance ?_ (height_lt_steps _)
  rw [steps] at hsteps
  omega

theorem ne_nil_of_reduce (hr : stack.reduce? i = some next) : next ≠ [] := by
  obtain ⟨_, _, _, _, _, rfl⟩ := reduce?_eq_some_iff.mp hr
  exact List.cons_ne_nil _ _

/-- How a stack meets a token, case by case: what holds after a reduction is taken over. -/
theorem meet_induction (t : Token) {P : Stack → Advance → Prop}
    (refused : ∀ stack : Stack, (stateRow stack.state).action? t.terminal = none →
      P stack (.refused (stateRow stack.state).terminals))
    (shifted : ∀ (stack : Stack) q, (stateRow stack.state).action? t.terminal = some (.shift q) →
      P stack (.shifted (⟨q, .leaf t⟩ :: stack)))
    (stuck : ∀ (stack : Stack) i, (stateRow stack.state).action? t.terminal = some (.reduce i) →
      stack.reduce? i = none → P stack .stuck)
    (accepted : ∀ (stack : Stack) i frame below, (stateRow stack.state).action? t.terminal = some (.reduce i) →
      stack.reduce? i = some (frame :: below) → frame.state = finalState → P stack (.accepted frame.tree))
    (reduced : ∀ (stack : Stack) i frame below, (stateRow stack.state).action? t.terminal = some (.reduce i) →
      stack.reduce? i = some (frame :: below) → frame.state ≠ finalState →
      P (frame :: below) (meet t (frame :: below)) → P stack (meet t (frame :: below)))
    (stack : Stack) : P stack (stack.meet t) := by
  induction stack using reduction_induction t with
  | h stack ih =>
    cases ha : (stateRow stack.state).action? t.terminal with
    | none => exact meet_of_none ha ▸ refused stack ha
    | some action =>
      cases action with
      | shift q => exact meet_of_shift ha ▸ shifted stack q ha
      | reduce i =>
        rcases hr : stack.reduce? i with _ | _ | ⟨frame, below⟩
        · exact meet_of_stuck ha hr ▸ stuck stack i ha hr
        · exact absurd rfl (ne_nil_of_reduce hr)
        · by_cases hfinal : frame.state = finalState
          · exact meet_of_final ha hr hfinal ▸ accepted stack i frame below ha hr hfinal
          · rw [meet_of_reduce ha hr hfinal]
            exact reduced stack i frame below ha hr hfinal (ih i _ ha hr hfinal)

end Stack

end UnionBridge
