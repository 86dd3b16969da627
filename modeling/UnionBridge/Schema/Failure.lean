import UnionBridge.Diagnostic
import UnionBridge.Schema.Parse
import UnionBridge.Text.Column

/-! The diagnostic of a text that is no schema: what was found, what was expected, and the line with a mark under it. -/
namespace UnionBridge.ParseFailure

/-- How far a message looks to either side of the failure. -/
def contextReach : Nat := 40

def lastLine (cs : List Char) : List Char := (cs.reverse.takeWhile (· ≠ '\n')).reverse

/-- The line around an offset, and below it a mark under the character at the offset. -/
def context (source : List Char) (offset : Nat) : String :=
  let before := lastLine ((source.take offset).drop (offset - contextReach))
  let after := ((source.drop offset).take contextReach).takeWhile (· ≠ '\n')
  let indent := "".pushn ' ' (Text.expandedWidth before)
  String.ofList (before ++ after) ++ "\n" ++ indent ++ "^"

def expectedNote (expected : List Terminal) : List String :=
  match (expected.map Terminal.label).mergeSort (· ≤ ·) with
  | [] => []
  | labels => ["expected one of: " ++ ", ".intercalate labels]

def message : ParseFailure → String
  | .unexpectedToken t _ =>
    if t.terminal = .finish then "unexpected end of schema"
    else s!"unexpected {t.terminal.label} '{String.ofList t.text}'"
  | .unexpectedCharacter _ _ => "unexpected character"
  | .stuck => "unexpected parser state"

def start? : ParseFailure → Option Position
  | .unexpectedToken t _ => some t.start
  | .unexpectedCharacter start _ => some start
  | .stuck => none

def expected : ParseFailure → List Terminal
  | .unexpectedToken _ ts => ts
  | .unexpectedCharacter _ ts => ts
  | .stuck => []

def diagnostic (f : ParseFailure) (source : String) (file : Option String) : Diagnostic where
  message := f.message
  code := some Fault.badSyntax.code
  phase := some "parser"
  span :=
    { file, line := f.start?.map (fun p => (p.line : Int)), column := f.start?.map (fun p => (p.column : Int)) }
  notes := expectedNote f.expected ++ (f.start?.map fun p => context source.toList p.offset).toList

end UnionBridge.ParseFailure
