/-! Quotations: strings as programs write them, between marks and with escapes. -/
namespace UnionBridge

/-- The characters that names stand for. The names are those of the version of Unicode that the interpreter comes with,
and nothing is assumed of them. -/
abbrev CharacterNames := List Char → Option Char

namespace Quotation

variable (named : CharacterNames)

/-- The inside of a string up to its three closing marks, and the rest. -/
def untilThree (mark : Char) : List Char → Option (List Char × List Char)
  | '\\' :: c :: rest => (untilThree mark rest).map fun (s, r) => ('\\' :: c :: s, r)
  | a :: b :: c :: rest =>
    if a = mark && b = mark && c = mark then some ([], rest)
    else (untilThree mark (b :: c :: rest)).map fun (s, r) => (a :: s, r)
  | _ => none

/-- The inside of a string up to its closing mark on the same line, and the rest. -/
def untilOne (mark : Char) : List Char → Option (List Char × List Char)
  | '\\' :: c :: rest => (untilOne mark rest).map fun (s, r) => ('\\' :: c :: s, r)
  | c :: rest =>
    if c = mark then some ([], rest)
    else if c = '\n' then none
    else (untilOne mark rest).map fun (s, r) => (c :: s, r)
  | [] => none

def hexValue? (c : Char) : Option Nat :=
  if c.isDigit then some (c.toNat - '0'.toNat)
  else if 'a' ≤ c && c ≤ 'f' then some (c.toNat - 'a'.toNat + 10)
  else if 'A' ≤ c && c ≤ 'F' then some (c.toNat - 'A'.toNat + 10)
  else none

def isOctal (c : Char) : Bool := '0' ≤ c && c ≤ '7'

/-- A character by its number, if it has that many hexadecimal digits. -/
def byNumber (width : Nat) (cs : List Char) : Option Char :=
  let digits := (cs.take width).filterMap hexValue?
  let n := digits.foldl (fun n d => 16 * n + d) 0
  if digits.length = width && n.isValidChar then some (Char.ofNat n) else none

/-- A character by its name, which stands between braces, and the rest. -/
def byName : List Char → Option (Char × List Char)
  | '\x7b' :: rest =>
    match rest.dropWhile (· ≠ '\x7d') with
    | [] => none
    | _ :: after => (named (rest.takeWhile (· ≠ '\x7d'))).map (·, after)
  | _ => none

/-- Characters that stand for others behind a backslash. -/
def simpleEscape? : Char → Option Char
  | '\\' => some '\\'
  | '\'' => some '\''
  | '"' => some '"'
  | 'a' => some '\x07'
  | 'b' => some '\x08'
  | 'f' => some '\x0c'
  | 'n' => some '\n'
  | 'r' => some '\r'
  | 't' => some '\t'
  | 'v' => some '\x0b'
  | _ => none

/-- The number of digits that a character number has after its letter. -/
def numberWidth? : Char → Option Nat
  | 'x' => some 2
  | 'u' => some 4
  | 'U' => some 8
  | _ => none

/-- What the inside of a string stands for, in at most as many steps as it is long. Unknown escapes stay. -/
def unescape : (steps : Nat) → List Char → Option (List Char)
  | _, [] => some []
  | 0, _ => none
  | steps + 1, '\\' :: c :: rest =>
    if c = '\n' then unescape steps rest
    else if c = 'N' then do
      let (c, rest) ← byName named rest
      return c :: (← unescape steps rest)
    else if isOctal c then
      let digits := (c :: rest.takeWhile isOctal).take 3
      let n := digits.foldl (fun n d => 8 * n + (d.toNat - '0'.toNat)) 0
      (unescape steps (rest.drop (digits.length - 1))).map (Char.ofNat n :: ·)
    else
      match simpleEscape? c, numberWidth? c with
      | some e, _ => (unescape steps rest).map (e :: ·)
      | none, some width => do return (← byNumber width rest) :: (← unescape steps (rest.drop width))
      | none, none => (unescape steps rest).map ('\\' :: c :: ·)
  | steps + 1, c :: rest => (unescape steps rest).map (c :: ·)

/-- A string between single or triple marks, taken as it stands if it is raw, and the rest. -/
def read? (raw : Bool) (cs : List Char) : Option (List Char × List Char) := do
  let (inside, rest) ← match cs with
    | '"' :: '"' :: '"' :: cs => untilThree '"' cs
    | '\'' :: '\'' :: '\'' :: cs => untilThree '\'' cs
    | '"' :: cs => untilOne '"' cs
    | '\'' :: cs => untilOne '\'' cs
    | _ => none
  let value ← if raw then some inside else unescape named inside.length inside
  return (value, rest)

def isMark (c : Char) : Bool := c = '"' || c = '\''

/-- Whether a string is raw, by the letters before its first mark. -/
def isRaw? : List Char → Option Bool
  | [] => some false
  | [c] => if c = 'r' || c = 'R' then some true else if c = 'u' || c = 'U' then some false else none
  | _ => none

end Quotation

end UnionBridge
