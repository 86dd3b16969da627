import UnionBridge.Module.Preamble.Quotation

/-! The tokens of a preamble. Lines count where no parenthesis is open, and have to start at the margin there. -/
namespace UnionBridge.Preamble

inductive Token
  | text (value : List Char)
  | word (name : String)
  /-- A parenthesis, a comma or a semicolon. -/
  | sign (c : Char)
  | lineEnd
  deriving DecidableEq, Repr

/-- Every kind of line end becomes the same. -/
def unifyLines : List Char → List Char
  | '\r' :: '\n' :: rest => '\n' :: unifyLines rest
  | '\r' :: rest => '\n' :: unifyLines rest
  | c :: rest => c :: unifyLines rest
  | [] => []

def isSpace (c : Char) : Bool := c = ' ' || c = '\t' || c = '\x0c'

/-- Drops spaces, also across a line end that a backslash hides. -/
def skipSpaces : List Char → List Char
  | '\\' :: '\n' :: rest => skipSpaces rest
  | c :: rest => if isSpace c then skipSpaces rest else c :: rest
  | [] => []

/-- Drops the spaces that a line starts with, and says whether they move it off the margin. A new page starts at the
margin again; a line end that a backslash hides holds on to the first place off the margin. -/
def skipMargin (moved held : Bool) : List Char → Bool × List Char
  | '\\' :: '\n' :: rest => skipMargin moved (held || moved) rest
  | ' ' :: rest | '\t' :: rest => skipMargin true held rest
  | '\x0c' :: rest => skipMargin false held rest
  | cs => (held || moved, cs)

def skipComment (cs : List Char) : List Char := cs.dropWhile (· ≠ '\n')

def isWordChar (c : Char) : Bool := c.isAlphanum || c = '_'

/-- The most parentheses that can be open at once. -/
def depthLimit : Nat := 200

variable (named : CharacterNames)

/-- The token at the start of a text, the parentheses that are open after it, and the rest. -/
def token? (depth : Nat) (cs : List Char) : Option (Token × Nat × List Char) := do
  let letters := cs.takeWhile isWordChar
  match cs.dropWhile isWordChar with
  | [] => if letters.isEmpty then none else some (.word (String.ofList letters), depth, [])
  | c :: rest =>
    if Quotation.isMark c then do
      let raw ← Quotation.isRaw? letters
      let (value, rest) ← Quotation.read? named raw (c :: rest)
      return (.text value, depth, rest)
    else if !letters.isEmpty then some (.word (String.ofList letters), depth, c :: rest)
    else
      match c with
      | '(' => if depth < depthLimit then some (.sign c, depth + 1, rest) else none
      | ')' => if depth = 0 then none else some (.sign c, depth - 1, rest)
      | ',' | ';' => some (.sign c, depth, rest)
      | _ => none

/-- The tokens of a text in at most so many steps; the flag says that a line starts. -/
def tokens? : (steps : Nat) → (depth : Nat) → (atStart : Bool) → List Char → Option (List Token)
  | 0, _, _, _ => none
  | steps + 1, depth, true, cs =>
    let (moved, cs) := skipMargin false false cs
    match cs with
    | [] => some []
    | '\n' :: rest => tokens? steps depth true rest
    | '#' :: rest => tokens? steps depth true (skipComment rest)
    | cs => if moved && depth = 0 then none else tokens? steps depth false cs
  | steps + 1, depth, false, cs =>
    match skipSpaces cs with
    | [] => some []
    | '#' :: rest => tokens? steps depth false (skipComment rest)
    | '\n' :: rest =>
      if depth = 0 then (tokens? steps depth true rest).map (.lineEnd :: ·) else tokens? steps depth true rest
    | cs => do
      let (token, depth, rest) ← token? named depth cs
      return token :: (← tokens? steps depth false rest)

end UnionBridge.Preamble
