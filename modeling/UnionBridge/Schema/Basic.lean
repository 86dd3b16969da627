import UnionBridge.Span

/-! Schemas: imports, and unions of variants. A union that carries a directive is a destination. -/
namespace UnionBridge

/-- Names joined by dots; there is always a first one. -/
structure DottedName where
  head : String
  rest : List String := []
  deriving DecidableEq, Repr, Inhabited

namespace DottedName

def parts (d : DottedName) : List String := d.head :: d.rest

def text (d : DottedName) : String := ".".intercalate d.parts

instance : ToString DottedName := ⟨text⟩

def ofName (s : String) : DottedName := { head := s }

/-- A name without a dot. -/
def simple? (d : DottedName) : Option String := if d.rest.isEmpty then some d.head else none

/-- The name one level further in. -/
def child (d : DottedName) (s : String) : DottedName := { d with rest := d.rest ++ [s] }

end DottedName

/-- One field of a variant. Positional fields have no name. -/
structure Field where
  name : Option String
  type : DottedName
  index : Nat
  deriving DecidableEq, Repr

namespace Field

/-- The name, or else the position, of a field. -/
def key (f : Field) : String := f.name.getD (toString f.index)

/-- The attribute that holds the field on a value. -/
def attr (f : Field) : String := f.name.getD s!"_{f.index}"

end Field

/-- How a variant carries its fields. -/
inductive Body
  | unit
  | positional (types : List DottedName)
  | named (fields : List (String × DottedName))
  deriving DecidableEq, Repr

namespace Body

def shapeName : Body → String
  | .unit => "unit"
  | .positional _ => "positional"
  | .named _ => "named"

/-- The fields in order, each with its position. -/
def fields : Body → List Field
  | .unit => []
  | .positional types => types.mapIdx fun i t => ⟨none, t, i⟩
  | .named fs => fs.mapIdx fun i (n, t) => ⟨some n, t, i⟩

def isNamed : Body → Bool
  | .named _ => true
  | _ => false

def isPositional : Body → Bool
  | .positional _ => true
  | _ => false

end Body

/-- `value`, or `key = value`. -/
structure Argument where
  key : Option DottedName
  value : DottedName
  place : Place
  deriving DecidableEq, Repr

structure Directive where
  name : String
  args : List Argument
  place : Place
  deriving DecidableEq, Repr

structure Variant where
  name : String
  body : Body
  directives : List Directive
  place : Place
  deriving DecidableEq, Repr

structure Union where
  name : String
  variants : List Variant
  directives : List Directive
  place : Place
  deriving DecidableEq, Repr

/-- What an import binds: a whole module, or names out of it. -/
inductive Imported
  | whole (newName? : Option String)
  | names (first : String × Option String) (more : List (String × Option String))
  deriving DecidableEq, Repr

namespace Imported

/-- The names taken out of the module; none when it is imported whole. -/
def nameList : Imported → List (String × Option String)
  | .whole _ => []
  | .names first more => first :: more

end Imported

structure Import where
  module : DottedName
  imported : Imported
  place : Place
  deriving DecidableEq, Repr

structure Schema where
  imports : List Import
  unions : List Union
  deriving DecidableEq, Repr

namespace Union

def variant? (u : Union) (name : String) : Option Variant := u.variants.find? (·.name = name)

/-- A union is a destination when it or one of its variants carries a directive. -/
def isDestination (u : Union) : Bool :=
  !u.directives.isEmpty || u.variants.any fun v => !v.directives.isEmpty

end Union

namespace Schema

/-- The first union of a name. -/
def union? (s : Schema) (name : String) : Option Union := s.unions.find? (·.name = name)

/-- The union that a source path means, if it is declared in the schema itself. -/
def declared? (s : Schema) (source : DottedName) : Option Union := source.simple?.bind s.union?

def destinations (s : Schema) : List Union := s.unions.filter Union.isDestination

end Schema

end UnionBridge
