import UnionBridge.Module.Preamble.Token
import UnionBridge.Proofs.Module.Quotation

/-! The tokens of a whole program, with the margin of each line, and what a comment and a quotation at its start
contribute to them. -/
namespace UnionBridge

variable {cs before inside rest value : List Char} {c : Char} {steps depth : Nat} {start : Bool}
  {named : CharacterNames}

/-! ### Line ends -/

namespace Preamble

theorem unifyLines_cons (h : c ≠ '\r') (rest : List Char) : unifyLines (c :: rest) = c :: unifyLines rest := by
  rw [unifyLines]
  · rintro _ rfl
    exact absurd rfl h
  · exact fun heq => absurd heq h

theorem unifyLines_of_notMem (h : '\r' ∉ before) (rest : List Char) :
    unifyLines (before ++ rest) = before ++ unifyLines rest := by
  induction before with
  | nil => rfl
  | cons c before ih =>
    have hc : c ≠ '\r' := fun heq => h (heq ▸ List.mem_cons_self)
    have hbefore : '\r' ∉ before := fun hmem => h (List.mem_cons_of_mem c hmem)
    rw [List.cons_append, unifyLines_cons hc, ih hbefore, List.cons_append]

theorem unifyLines_eq_self (h : '\r' ∉ cs) : unifyLines cs = cs := by
  have happend := unifyLines_of_notMem h []
  rwa [List.append_nil, unifyLines, List.append_nil] at happend

theorem return_notMem_unifyLines (cs : List Char) : '\r' ∉ unifyLines cs := by
  fun_induction unifyLines cs with
  | case1 rest ih => simpa using ih
  | case2 rest _ ih => simpa using ih
  | case3 c rest _ hc ih => simpa [Ne.symm hc] using ih
  | case4 => simp

theorem length_unifyLines_le (cs : List Char) : (unifyLines cs).length ≤ cs.length := by
  fun_induction unifyLines cs with
  | case1 | case2 | case3 => simp only [List.length_cons]; omega
  | case4 => exact Nat.le_refl _

/-- Line ends are unified apart on both sides of a place that does not divide one. -/
theorem unifyLines_append (cs : List Char) (hrest : rest.head? ≠ some '\n') :
    unifyLines (cs ++ rest) = unifyLines cs ++ unifyLines rest := by
  fun_induction unifyLines cs with
  | case1 cs ih => rw [List.cons_append, List.cons_append, unifyLines, ih, List.cons_append]
  | case2 cs hcs ih =>
    rw [List.cons_append, unifyLines, ih, List.cons_append]
    rintro after heq
    rcases cs with _ | ⟨c, cs⟩
    · rw [List.nil_append] at heq
      rw [heq] at hrest
      exact hrest rfl
    · obtain ⟨rfl, _⟩ := List.cons.inj heq
      exact hcs cs rfl
  | case3 c cs h hc ih =>
    rw [List.cons_append, unifyLines_cons hc, ih, List.cons_append]
  | case4 => rfl

end Preamble

/-! ### Lexemes -/

/-- What a line starts with, or one of its tokens. -/
inductive Lexeme
  | margin (blanks : List Char)
  | token (t : Preamble.Token)
  deriving DecidableEq, Repr

namespace Lexeme

open Preamble

/-- The signs of a program that open nothing and close nothing. -/
def signs : List Char := ['.', ':', '=', '@', '*', '|']

/-- The token at the start of a program text, like that of a preamble, but with more signs. -/
def next? (named : CharacterNames) (depth : Nat) (cs : List Char) : Option (Preamble.Token × Nat × List Char) :=
  (token? named depth cs).orElse fun _ =>
    match cs with
    | c :: rest =>
      if c ∈ signs then some (.sign c, depth, rest)
      else if c ∈ ['[', '\x7b'] then if depth < depthLimit then some (.sign c, depth + 1, rest) else none
      else if c ∈ [']', '\x7d'] then if depth = 0 then none else some (.sign c, depth - 1, rest)
      else none
    | [] => none

/-- The lexemes of a text in at most so many steps; the flag says that a line starts. -/
def read? (named : CharacterNames) : (steps : Nat) → (depth : Nat) → (atStart : Bool) → List Char → Option (List Lexeme)
  | 0, _, _, _ => none
  | steps + 1, depth, true, cs =>
    match cs.dropWhile isSpace with
    | [] => if depth = 0 then some [] else none
    | '\n' :: rest => read? named steps depth true rest
    | '#' :: rest => read? named steps depth true (skipComment rest)
    | more => (read? named steps depth false more).map (.margin (cs.takeWhile isSpace) :: ·)
  | steps + 1, depth, false, cs =>
    match skipSpaces cs with
    | [] => if depth = 0 then some [] else none
    | '#' :: rest => read? named steps depth false (skipComment rest)
    | '\n' :: rest =>
      if depth = 0 then (read? named steps 0 true rest).map (.token .lineEnd :: ·) else read? named steps depth false rest
    | more => (next? named depth more).bind fun (t, depth, rest) => (read? named steps depth false rest).map (.token t :: ·)

theorem read?_succ {ls : List Lexeme} (h : read? named steps depth start cs = some ls) :
    read? named (steps + 1) depth start cs = some ls := by
  induction steps generalizing depth start cs ls with
  | zero => cases h
  | succ steps ih =>
    rw [read?.eq_def] at h
    rw [read?.eq_def]
    cases start with
    | true =>
      simp only at h ⊢
      split at h
      · exact h
      · exact ih h
      · exact ih h
      · obtain ⟨more, hmore, rfl⟩ := Option.map_eq_some_iff.mp h
        rw [ih hmore, Option.map_some]
    | false =>
      simp only at h ⊢
      split at h
      · exact h
      · exact ih h
      · split_ifs at h with hdepth
        · obtain ⟨more, hmore, rfl⟩ := Option.map_eq_some_iff.mp h
          rw [if_pos hdepth, ih hmore, Option.map_some]
        · rw [if_neg hdepth, ih h]
      · obtain ⟨⟨t, depth, rest⟩, hnext, h⟩ := Option.bind_eq_some_iff.mp h
        obtain ⟨more, hmore, rfl⟩ := Option.map_eq_some_iff.mp h
        rw [hnext, Option.bind_some, ih hmore, Option.map_some]

theorem read?_add {ls : List Lexeme} (h : read? named steps depth start cs = some ls) (more : Nat) :
    read? named (steps + more) depth start cs = some ls := by
  induction more with
  | zero => exact h
  | succ more ih => exact read?_succ ih

/-- A text consists of these lexemes. -/
def Reads (named : CharacterNames) (text : String) (ls : List Lexeme) : Prop :=
  '\x00' ∉ text.toList ∧ ∃ steps, read? named steps 0 true (unifyLines text.toList) = some ls

theorem skipComment_append (hline : '\n' ∉ before) (rest : List Char) :
    skipComment (before ++ '\n' :: rest) = '\n' :: rest := by
  rw [skipComment, List.dropWhile_append_of_pos]
  · simp
  · intro c hc
    have hne : c ≠ '\n' := fun heq => hline (heq ▸ hc)
    simpa using hne

theorem read?_comment (hline : '\n' ∉ before) (steps : Nat) (rest : List Char) :
    read? named (steps + 2) 0 true ('#' :: before ++ '\n' :: rest) = read? named steps 0 true rest := by
  have hmark : ('#' :: before ++ '\n' :: rest).dropWhile isSpace = '#' :: (before ++ '\n' :: rest) := by
    simp [isSpace]
  have hend : ('\n' :: rest).dropWhile isSpace = '\n' :: rest := by simp [isSpace]
  rw [read?, hmark]
  simp only [skipComment_append hline]
  rw [read?, hend]
  simp only

/-- What a program reads as if it starts with a text on a line of its own. -/
def leading (value : List Char) (ls : List Lexeme) : List Lexeme :=
  .margin [] :: .token (.text value) :: .token .lineEnd :: ls

theorem next?_quotation {text : List Char}
    (h : Quotation.read? named false ('"' :: text) = some (value, rest)) (depth : Nat) :
    next? named depth ('"' :: text) = some (.text value, depth, rest) := by
  have hword : isWordChar '"' = false := by decide
  have hmark : Quotation.isMark '"' = true := by decide
  simp [next?, token?, hword, hmark, Quotation.isRaw?, h]

theorem read?_quotation {text : List Char}
    (h : Quotation.read? named false ('"' :: text) = some (value, '\n' :: rest)) (steps : Nat) :
    read? named (steps + 3) 0 true ('"' :: text) = (read? named steps 0 true rest).map (leading value) := by
  have hmark : ('"' :: text).dropWhile isSpace = '"' :: text := by simp [isSpace]
  have hblanks : ('"' :: text).takeWhile isSpace = [] := by simp [isSpace]
  have hskip : skipSpaces ('"' :: text) = '"' :: text := by simp [skipSpaces, isSpace]
  have hend : skipSpaces ('\n' :: rest) = '\n' :: rest := by simp [skipSpaces, isSpace]
  have hleading : leading value = fun ls => .margin [] :: .token (.text value) :: .token .lineEnd :: ls := rfl
  simp [read?, hmark, hblanks, hskip, hend, next?_quotation h, Function.comp_def, hleading]

end Lexeme

end UnionBridge
