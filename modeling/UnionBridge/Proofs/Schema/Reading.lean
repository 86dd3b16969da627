import UnionBridge.Proofs.Schema.Derivation

/-! Parsing text is reading its tokens, each as the stack before it allows, and parsing those. -/
namespace UnionBridge

namespace Lexer

variable {allowed : List Terminal} {cs text : List Char} {k : Terminal} {cursor after : Cursor} {t : Token}

theorem length_skip_le (inComment : Bool) (cs : List Char) (p : Position) :
    (skip inComment cs p).rest.length ≤ cs.length := by
  induction cs generalizing inComment p with
  | nil => exact Nat.le_refl 0
  | cons c cs ih =>
    rw [skip, List.length_cons]
    split
    · exact Nat.le_succ_of_le (ih _ _)
    · split
      · exact Nat.le_succ_of_le (ih _ _)
      · split
        · exact Nat.le_succ_of_le (ih _ _)
        · exact Nat.le_refl _

theorem isNamePart_of_isNameStart {c : Char} (h : isNameStart c) : isNamePart c := by
  rw [isNameStart, Bool.or_eq_true] at h
  rw [isNamePart, Bool.or_eq_true]
  rcases h with h | h
  · left
    rw [Char.isAlphanum, h, Bool.true_or]
  · exact .inr h

theorem match?_ne_nil (h : match? allowed cs = some (k, text)) : text ≠ [] := by
  cases cs with
  | nil => cases h
  | cons c rest =>
    rw [match?] at h
    split at h
    · rename_i hstart
      obtain ⟨-, rfl⟩ := Prod.mk.inj (Option.some.inj h)
      rw [List.takeWhile_cons_of_pos (isNamePart_of_isNameStart (Bool.and_eq_true_iff.mp hstart).2)]
      exact List.cons_ne_nil _ _
    · split at h
      · rename_i k' hk
        have hmem := List.mem_of_find?_eq_some hk
        have hall : ∀ k ∈ Terminal.keywords, k.2 ≠ [] := by decide
        cases h
        exact hall _ hmem
      · split at h
        · split at h
          · cases h
            exact List.cons_ne_nil _ _
          · cases h
        · cases h

/-- Every token takes at least one character off the text. -/
theorem length_rest_lt (h : next allowed cursor = .token t after) : after.rest.length < cursor.rest.length := by
  have hskip := length_skip_le false cursor.rest cursor.position
  rw [next] at h
  split at h
  · cases h
  · rename_i cs hcs
    split at h
    · rename_i k text hm
      cases h
      have htext := List.length_pos_iff.mpr (match?_ne_nil hm)
      have hpos : 0 < (skip false cursor.rest cursor.position).rest.length := List.length_pos_iff.mpr hcs
      rw [List.length_drop]
      omega
    · split at h <;> cases h

end Lexer

namespace Parse

variable {stack : Stack} {cursor : Cursor} {last : Position} {ts : List Token} {tree : Tree}

/-- The tokens that are read off a text, each in the state of the stack when all those before it are shifted. -/
def Reads (stack : Stack) (cursor : Cursor) : List Token → Prop
  | [] => Lexer.next (allowed stack.state) cursor = .finish
  | t :: ts =>
    ∃ after next, Lexer.next (allowed stack.state) cursor = .token t after ∧ stack.meet t = .shifted next ∧
      Reads next after ts

theorem loop_of_reads {fuel : Nat} (h : Reads stack cursor ts) (hfuel : cursor.rest.length < fuel) :
    loop fuel stack cursor last = ofTokens stack last ts := by
  induction fuel generalizing stack cursor last ts with
  | zero => exact absurd hfuel (Nat.not_lt_zero _)
  | succ fuel ih =>
    cases ts with
    | nil =>
      rw [Reads] at h
      rw [loop, h]
      rfl
    | cons t ts =>
      obtain ⟨after, next, hnext, hm, hreads⟩ := h
      have hlt := Lexer.length_rest_lt hnext
      have hm' := hm
      rw [Stack.meet] at hm'
      simp only [loop, hnext, hm', ofTokens, hm]
      exact ih hreads (by omega)

theorem exists_reads_of_loop {fuel : Nat} (h : loop fuel stack cursor last = .ok tree) :
    ∃ ts, Reads stack cursor ts ∧ ofTokens stack last ts = .ok tree := by
  induction fuel generalizing stack cursor last with
  | zero => cases h
  | succ fuel ih =>
    rw [loop] at h
    cases hnext : Lexer.next (allowed stack.state) cursor with
    | foreign start =>
      rw [hnext] at h
      cases h
    | misplaced t =>
      rw [hnext] at h
      cases h
    | finish =>
      rw [hnext] at h
      exact ⟨[], hnext, h⟩
    | token t after =>
      rw [hnext] at h
      simp only at h
      split at h
      · rename_i next hm
        obtain ⟨ts, hreads, hts⟩ := ih h
        refine ⟨t :: ts, ⟨after, next, hnext, hm, hreads⟩, ?_⟩
        rw [ofTokens, Stack.meet, hm]
        exact hts
      · cases h
      · cases h

/-- A text is parsed exactly if its tokens are. -/
theorem tree_eq_ok_iff {source : List Char} :
    Parse.tree source = .ok tree ↔ ∃ ts, Reads [] ⟨source, {}⟩ ts ∧ ofTokens [] {} ts = .ok tree := by
  constructor
  · exact exists_reads_of_loop
  · rintro ⟨ts, hreads, h⟩
    rw [Parse.tree, loop_of_reads hreads (Nat.lt_succ_self _), h]

end Parse

end UnionBridge
