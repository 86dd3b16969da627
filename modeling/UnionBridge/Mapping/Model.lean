import UnionBridge.Schema.Basic
import UnionBridge.Merge

/-! What a destination union accepts: its sources, and for each of its variants the source cases that may become it. -/
namespace UnionBridge

/-- A variant of a destination union. Its index is its place in the declaration, so no two of a union are equal. -/
structure Target where
  name : String
  body : Body
  index : Nat
  span : Span
  deriving DecidableEq, Repr

namespace Target

def fields (t : Target) : List Field := t.body.fields

def hasFields (t : Target) : Bool := !t.fields.isEmpty

end Target

/-- The sources that a claim is about. -/
inductive SourceRef
  | every
  | one (source : DottedName)
  deriving DecidableEq, Repr

namespace SourceRef

def text : SourceRef → String
  | .every => "*"
  | .one s => s.text

end SourceRef

/-- The source cases a variant claims, by source. -/
abbrev Claims := Table SourceRef (List String)

structure Mapping where
  dest : String
  sources : List DottedName
  container : Option DottedName
  /-- The variants of the destination in declaration order. -/
  targets : List Target
  claims : List (Target × Claims)
  span : Span
  deriving Repr

end UnionBridge
