import UnionBridge.Diagnostic
import UnionBridge.Schema.Basic

/-! Names that are declared twice: unions in a schema, variants in a union, fields in a variant. -/
namespace UnionBridge

/-- The occurrences in a list that repeat an earlier one, by key. -/
def repeats {α : Type} (key : α → String) : (seen : List String) → List α → List α
  | _, [] => []
  | seen, a :: rest =>
    let later := repeats key (key a :: seen) rest
    if seen.contains (key a) then a :: later else later

namespace Schema

/-- A name that an earlier declaration of the same scope has taken. -/
inductive Repeat
  | union (u : Union)
  | variant (u : Union) (v : Variant)
  | field (u : Union) (v : Variant) (name : String)

namespace Repeat

def message : Repeat → String
  | .union u => s!"union '{u.name}' is declared more than once"
  | .variant u v => s!"variant '{u.name}.{v.name}' is declared more than once"
  | .field u v name => s!"field '{name}' of '{u.name}.{v.name}' is declared more than once"

/-- Repeated fields are reported at their variant. -/
def place : Repeat → Place
  | .union u => u.place
  | .variant _ v => v.place
  | .field _ v _ => v.place

def diagnostic (r : Repeat) (file : Option String) : Diagnostic where
  message := r.message
  code := some Fault.duplicateName.code
  phase := some "parser"
  span := Span.ofPlace r.place file

end Repeat

def fieldRepeats (u : Union) (v : Variant) : List Repeat :=
  (repeats id [] (v.body.fields.filterMap (·.name))).map (.field u v)

/-- A variant's own repeat comes before those of its fields. -/
def variantRepeats (u : Union) : (seen : List String) → List Variant → List Repeat
  | _, [] => []
  | seen, v :: rest =>
    (if seen.contains v.name then [.variant u v] else []) ++ fieldRepeats u v ++ variantRepeats u (v.name :: seen) rest

/-- A union's own repeat comes before those of its variants. -/
def unionRepeats : (seen : List String) → List Union → List Repeat
  | _, [] => []
  | seen, u :: rest =>
    (if seen.contains u.name then [.union u] else []) ++ variantRepeats u [] u.variants ++
      unionRepeats (u.name :: seen) rest

def repeatedNames (s : Schema) (file : Option String) : List Diagnostic :=
  (unionRepeats [] s.unions).map fun r => r.diagnostic file

end Schema

end UnionBridge
