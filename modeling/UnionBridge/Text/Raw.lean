import UnionBridge.Text.Quoted

/-! Text as it reaches a program from outside: characters, and bytes that are part of none. -/
namespace UnionBridge

inductive Glyph
  | char (c : Char)
  /-- A byte that is part of no character; all such bytes are above ASCII. -/
  | stray (b : UInt8)
  deriving DecidableEq, Repr

namespace Glyph

def char? : Glyph → Option Char
  | .char c => some c
  | .stray _ => none

def isStray : Glyph → Bool
  | .char _ => false
  | .stray _ => true

end Glyph

abbrev Raw := List Glyph

namespace Raw

def ofChars (cs : List Char) : Raw := cs.map .char

def ofString (s : String) : Raw := ofChars s.toList

/-- The text, if every byte is part of a character. -/
def text? (r : Raw) : Option String := (r.mapM Glyph.char?).map String.ofList

/-- Why something cannot be written as UTF-8: where its first stray bytes are, and how many stand there in a row. -/
structure EncodingError where
  position : Nat
  bytes : List UInt8
  deriving DecidableEq, Repr

namespace EncodingError

/-- A stray byte as an escape. -/
def escape (b : UInt8) : String := "\\udc" ++ Text.hex 2 b.toNat

def message (e : EncodingError) : String :=
  match e.bytes with
  | [b] => s!"'utf-8' codec can't encode character '{escape b}' in position {e.position}: surrogates not allowed"
  | bytes =>
    let last := e.position + bytes.length - 1
    s!"'utf-8' codec can't encode characters in position {e.position}-{last}: surrogates not allowed"

end EncodingError

/-- The bytes of the strays that a text begins with. -/
def leadingStrays : Raw → List UInt8
  | .stray b :: rest => b :: leadingStrays rest
  | _ => []

/-- The bytes of a text in UTF-8. -/
def encode (r : Raw) : Except EncodingError (List UInt8) :=
  match r.text? with
  | some s => .ok s.toUTF8.toList
  | none => .error ⟨(r.takeWhile (!·.isStray)).length, leadingStrays (r.dropWhile (!·.isStray))⟩

/-- A text with its stray bytes as escapes. -/
def escaped (r : Raw) : String :=
  String.join (r.map fun
    | .char c => c.toString
    | .stray b => EncodingError.escape b)

/-- A text between quotes, as in messages. -/
def quoted (r : Raw) : Raw :=
  let mark := Text.quoteMark (String.ofList (r.filterMap Glyph.char?))
  let shown (g : Glyph) : String :=
    match g with
    | .char c => Text.quotedChar mark c
    | .stray b => EncodingError.escape b
  ofString (mark.toString ++ String.join (r.map shown) ++ mark.toString)

end Raw

end UnionBridge
