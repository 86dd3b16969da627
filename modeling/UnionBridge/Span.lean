/-! Source spans. Every part may be unknown, and a location of any kind can be turned into a span. -/
namespace UnionBridge

structure Span where
  file : Option String := none
  line : Option Int := none
  column : Option Int := none
  endLine : Option Int := none
  endColumn : Option Int := none
  deriving DecidableEq, Repr, Inhabited

/-- A line and a column, both counted from 1. -/
structure Place where
  line : Nat
  column : Nat
  deriving DecidableEq, Repr, Inhabited

/-- Where something is, as its reporter knows it. -/
inductive Location
  | unknown
  | span (s : Span)
  | place (p : Place)
  /-- Attributes of some other kind of object; its file gives way to a known one. -/
  | other (s : Span)
  deriving DecidableEq, Repr

namespace Span

/-- A file name of no characters counts as no file. -/
def namedFile (file : Option String) : Option String :=
  file.filter (· ≠ "")

/-- The span of a location. A span keeps its own file; any other location takes `file` first. -/
def ofLocation (loc : Location) (file : Option String) : Span :=
  match loc with
  | .unknown => { file }
  | .span s => if s.file.isNone then { s with file } else s
  | .place p => { file := namedFile file, line := some p.line, column := some p.column }
  | .other s => { s with file := (namedFile file).or (namedFile s.file) }

/-- Whether `ofLocation` hands back the very span it was given. -/
def isKept (loc : Location) (file : Option String) : Bool :=
  match loc with
  | .span s => s.file.isSome || file.isNone
  | _ => false

def ofPlace (p : Place) (file : Option String) : Span := ofLocation (.place p) file

/-- The line and column with a question mark for what is unknown. -/
def short (s : Span) : String :=
  let part : Option Int → String := fun n => (n.map toString).getD "?"
  s!"{part s.line}:{part s.column}"

end Span

end UnionBridge
