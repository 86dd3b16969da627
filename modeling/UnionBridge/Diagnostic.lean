import UnionBridge.Span

/-! Diagnostics, and the error that carries all the diagnostics of a failed compilation. -/
namespace UnionBridge

/-- The kinds of mistake that the passes report. -/
inductive Fault
  | badSyntax
  | duplicateName
  | missingSource
  | unknownSource
  | unknownDirective
  | unknownOption
  | misplacedDirective
  | ambiguousUnit
  | unknownCase
  | fieldShape
  | nonExhaustive
  deriving DecidableEq, Repr

def Fault.code : Fault → String
  | .badSyntax => "E-SYNTAX"
  | .duplicateName => "E-DUPLICATE-NAME"
  | .missingSource => "E-MISSING-SOURCE"
  | .unknownSource => "E-UNKNOWN-SOURCE"
  | .unknownDirective => "E-UNKNOWN-DIRECTIVE"
  | .unknownOption => "E-UNKNOWN-OPTION"
  | .misplacedDirective => "E-MISPLACED-DIRECTIVE"
  | .ambiguousUnit => "E-AMBIGUOUS-UNIT-VARIANT"
  | .unknownCase => "E-UNKNOWN-CASE"
  | .fieldShape => "E-FIELD-SHAPE"
  | .nonExhaustive => "E-NON-EXHAUSTIVE"

structure Diagnostic where
  message : String
  code : Option String := none
  phase : Option String := none
  severity : String := "error"
  span : Span := {}
  notes : List String := []
  deriving DecidableEq, Repr, Inhabited

namespace Diagnostic

/-- The file of the span, or a default that has a name. -/
def file (d : Diagnostic) (default : Option String) : Option String :=
  (Span.namedFile d.span.file).or default

/-- One line, `file:line:column: severity: message`. -/
def format (d : Diagnostic) (default : Option String) : String :=
  let file := (Span.namedFile (d.file default)).getD "<schema>"
  s!"{file}:{d.span.short}: {d.severity}: {d.message}"

def isError (d : Diagnostic) : Bool := d.severity = "error"

end Diagnostic

/-- A compilation that failed, with everything that was found wrong. -/
structure CompileError where
  diagnostics : List Diagnostic
  deriving DecidableEq, Repr, Inhabited

namespace CompileError

def message (e : CompileError) : String :=
  let lines := "\n".intercalate (e.diagnostics.map (·.format none))
  if lines = "" then "compilation failed" else lines

def codes (e : CompileError) : List (Option String) := e.diagnostics.map (·.code)

/-- The errors among some diagnostics, if there are any. -/
def ofErrors? (ds : List Diagnostic) : Option CompileError :=
  match ds.filter Diagnostic.isError with
  | [] => none
  | errors => some ⟨errors⟩

end CompileError

end UnionBridge
