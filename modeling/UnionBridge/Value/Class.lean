/-! Classes of values: the built-in ones, and those that a running program declares. -/
namespace UnionBridge

/-- A class of effect containers that someone writes: it keeps a value and a list of effects. -/
structure WrittenCarrier where
  name : String
  /-- Whether it is declared as a container; otherwise it just has the operations of one. -/
  isDeclared : Bool
  /-- The effects that it adds when it is split. -/
  splitMarks : List String
  /-- The effects that it adds when it is composed. -/
  composeMarks : List String
  deriving DecidableEq, Repr

/-- The kinds of effect containers. -/
inductive Carrier
  /-- Of the library, and compared by content. -/
  | effectful
  | written (c : WrittenCarrier)
  deriving DecidableEq, Repr

/-- The classes that no module declares: those of the language and of the library that a module may name, those of things
it holds, and those of integers, texts, single values and containers that someone writes. Which values a written class
refuses is for the world to say (`Outside`). Any other class is `internal`, and it is for the world to say as well what
its attributes are and its calls give. -/
inductive Builtin
  | object
  | noneType
  | bool
  | int
  | float
  | str
  | tuple
  | list
  | iterator (ofList : Bool)
  | type
  /-- Classes whose class this is can leave operations open. -/
  | abcMeta
  | function
  | module
  /-- Of integers, and made as `int` is. -/
  | writtenInt (name : String)
  /-- Of texts, and made as `str` is. -/
  | writtenText (name : String)
  /-- Of instances that hold a single value, and are compared by it. -/
  | box (name : String)
  | withEffects
  | carrier (k : Carrier)
  /-- Can be split, but neither made nor composed. -/
  | splitOnly (name : String)
  | registry
  | conversionFailed
  | exhausted
  | feature
  /-- Any class about which nothing is settled here but its name. -/
  | internal (name : String)
  deriving DecidableEq, Repr

namespace Builtin

def name : Builtin → String
  | .object => "object"
  | .noneType => "NoneType"
  | .bool => "bool"
  | .int => "int"
  | .float => "float"
  | .str => "str"
  | .tuple => "tuple"
  | .list => "list"
  | .iterator ofList => if ofList then "list_iterator" else "tuple_iterator"
  | .type => "type"
  | .abcMeta => "ABCMeta"
  | .function => "function"
  | .module => "module"
  | .withEffects => "WithEffects"
  | .carrier .effectful => "Effectful"
  | .carrier (.written c) => c.name
  | .registry => "ConverterRegistry"
  | .conversionFailed => "ConversionFailed"
  | .exhausted => "ExhaustedCandidatesError"
  | .feature => "_Feature"
  | .writtenInt name | .writtenText name | .box name | .splitOnly name | .internal name => name

/-- The module that a built-in class says it is from. -/
def home : Builtin → String
  | .withEffects | .carrier .effectful => "casemap.runtime.effects"
  | .registry | .conversionFailed | .exhausted => "casemap.runtime.convert"
  | .writtenInt _ | .writtenText _ | .box _ | .carrier _ | .splitOnly _ => "__main__"
  | .feature => "__future__"
  | .abcMeta => "abc"
  | _ => "builtins"

/-- The class that a built-in class specialises, below the class of all objects. -/
def parent? : Builtin → Option Builtin
  | .bool | .writtenInt _ => some .int
  | .writtenText _ => some .str
  | .carrier .effectful => some .withEffects
  | .carrier (.written c) => if c.isDeclared then some .withEffects else none
  | .abcMeta => some .type
  | _ => none

/-- A class and the classes above it, nearest first. -/
def chain (b : Builtin) : List Builtin :=
  if b = .object then [.object] else b :: (b.parent?.toList ++ [.object])

/-- The class of a built-in class. -/
def metaclass (b : Builtin) : Builtin := if b.chain.contains .withEffects then .abcMeta else .type

end Builtin

/-- A class: built in, or declared, by its number. -/
inductive ClassRef
  | builtin (b : Builtin)
  | declared (id : Nat)
  deriving DecidableEq, Repr

end UnionBridge
