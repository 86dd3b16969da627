import UnionBridge.Value.Basic

/-! What built-in classes give to themselves and to their instances. Most of it is only ever handed on, so that all that
matters is which names there are and of which class each thing is. -/
namespace UnionBridge

/-- How a class provides an attribute. -/
inductive Provision
  /-- An operator of the language. -/
  | operator
  | method
  /-- The same for the class and its instances. -/
  | shared
  /-- Worked out for each instance. -/
  | computed
  | member
  /-- A function that is bound to the instance through which it is reached. -/
  | function
  deriving DecidableEq, Repr

namespace Builtin

/-- The operators that a class defines itself. -/
def operators : Builtin → List String
  | .object => ["__delattr__", "__eq__", "__ge__", "__getattribute__", "__gt__", "__hash__", "__init__", "__le__",
    "__lt__", "__ne__", "__repr__", "__setattr__", "__str__"]
  | .type => ["__call__", "__delattr__", "__getattribute__", "__init__", "__or__", "__repr__", "__ror__", "__setattr__"]
  | .int => ["__abs__", "__add__", "__and__", "__bool__", "__divmod__", "__eq__", "__float__", "__floordiv__", "__ge__",
    "__getattribute__", "__gt__", "__hash__", "__index__", "__int__", "__invert__", "__le__", "__lshift__", "__lt__",
    "__mod__", "__mul__", "__ne__", "__neg__", "__or__", "__pos__", "__pow__", "__radd__", "__rand__", "__rdivmod__",
    "__repr__", "__rfloordiv__", "__rlshift__", "__rmod__", "__rmul__", "__ror__", "__rpow__", "__rrshift__",
    "__rshift__", "__rsub__", "__rtruediv__", "__rxor__", "__sub__", "__truediv__", "__xor__"]
  | .bool => ["__and__", "__or__", "__rand__", "__repr__", "__ror__", "__rxor__", "__xor__"]
  | .float => ["__abs__", "__add__", "__bool__", "__divmod__", "__eq__", "__float__", "__floordiv__", "__ge__",
    "__getattribute__", "__gt__", "__hash__", "__int__", "__le__", "__lt__", "__mod__", "__mul__", "__ne__", "__neg__",
    "__pos__", "__pow__", "__radd__", "__rdivmod__", "__repr__", "__rfloordiv__", "__rmod__", "__rmul__", "__rpow__",
    "__rsub__", "__rtruediv__", "__sub__", "__truediv__"]
  | .str => ["__add__", "__contains__", "__eq__", "__ge__", "__getattribute__", "__getitem__", "__gt__", "__hash__",
    "__iter__", "__le__", "__len__", "__lt__", "__mod__", "__mul__", "__ne__", "__repr__", "__rmod__", "__rmul__",
    "__str__"]
  | .tuple => ["__add__", "__contains__", "__eq__", "__ge__", "__getattribute__", "__getitem__", "__gt__", "__hash__",
    "__iter__", "__le__", "__len__", "__lt__", "__mul__", "__ne__", "__repr__", "__rmul__"]
  | .list => ["__add__", "__contains__", "__delitem__", "__eq__", "__ge__", "__getattribute__", "__gt__", "__iadd__",
    "__imul__", "__init__", "__iter__", "__le__", "__len__", "__lt__", "__mul__", "__ne__", "__repr__", "__rmul__",
    "__setitem__"]
  | .iterator _ => ["__getattribute__", "__iter__", "__next__"]
  | .noneType => ["__bool__", "__repr__"]
  | .function => ["__call__", "__get__", "__repr__"]
  | .module => ["__delattr__", "__getattribute__", "__init__", "__repr__", "__setattr__"]
  | _ => []

def methods : Builtin → List String
  | .object => ["__dir__", "__format__", "__getstate__", "__reduce__", "__reduce_ex__", "__sizeof__"]
  | .type => ["__dir__", "__instancecheck__", "__sizeof__", "__subclasscheck__", "__subclasses__", "mro"]
  | .int => ["__ceil__", "__floor__", "__format__", "__getnewargs__", "__round__", "__sizeof__", "__trunc__",
    "as_integer_ratio", "bit_count", "bit_length", "conjugate", "to_bytes"]
  | .float => ["__ceil__", "__floor__", "__format__", "__getnewargs__", "__round__", "__trunc__", "as_integer_ratio",
    "conjugate", "hex", "is_integer"]
  | .str => ["__format__", "__getnewargs__", "__sizeof__", "capitalize", "casefold", "center", "count", "encode",
    "endswith", "expandtabs", "find", "format", "format_map", "index", "isalnum", "isalpha", "isascii", "isdecimal",
    "isdigit", "isidentifier", "islower", "isnumeric", "isprintable", "isspace", "istitle", "isupper", "join", "ljust",
    "lower", "lstrip", "partition", "removeprefix", "removesuffix", "replace", "rfind", "rindex", "rjust", "rpartition",
    "rsplit", "rstrip", "split", "splitlines", "startswith", "strip", "swapcase", "title", "translate", "upper",
    "zfill"]
  | .tuple => ["__getnewargs__", "count", "index"]
  | .list => ["__getitem__", "__reversed__", "__sizeof__", "append", "clear", "copy", "count", "extend", "index",
    "insert", "pop", "remove", "reverse", "sort"]
  | .iterator _ => ["__length_hint__", "__reduce__", "__setstate__"]
  | .module => ["__dir__"]
  | _ => []

def sharedNames : Builtin → List String
  | .object => ["__new__", "__init_subclass__", "__subclasshook__"]
  | .type => ["__new__", "__prepare__"]
  | .int => ["__new__", "from_bytes"]
  | .float => ["__new__", "__getformat__", "fromhex"]
  | .str => ["__new__", "maketrans"]
  | .tuple | .list => ["__new__", "__class_getitem__"]
  | .bool | .noneType | .function | .module => ["__new__"]
  | _ => []

def computedNames : Builtin → List String
  | .object => ["__class__"]
  | .int => ["denominator", "imag", "numerator", "real"]
  | .float => ["imag", "real"]
  | .function => ["__annotations__", "__code__", "__defaults__", "__dict__", "__kwdefaults__", "__name__",
    "__qualname__"]
  | .module => ["__annotations__"]
  | _ => []

def memberNames : Builtin → List String
  | .function => ["__builtins__", "__closure__", "__globals__"]
  | .module => ["__dict__"]
  | _ => []

/-- What a class that compares by content defines. -/
def recordFunctions : List String := ["__delattr__", "__eq__", "__hash__", "__init__", "__repr__", "__setattr__"]

def functionNames : Builtin → List String
  | .writtenInt _ | .writtenText _ => ["__new__"]
  | .box _ => "__post_init__" :: recordFunctions
  | .carrier .effectful => recordFunctions
  | .carrier _ | .conversionFailed | .exhausted => ["__init__"]
  | .registry => ["__init__", "into", "into_effects", "lookup", "register", "try_into", "try_into_effects"]
  | .feature => ["__init__", "__repr__", "getMandatoryRelease", "getOptionalRelease"]
  | _ => []

/-- How a class itself provides a name, if it does. -/
def provision? (b : Builtin) (name : String) : Option Provision :=
  if b.operators.contains name then some .operator
  else if b.methods.contains name then some .method
  else if b.sharedNames.contains name then some .shared
  else if b.computedNames.contains name then some .computed
  else if b.memberNames.contains name then some .member
  else if b.functionNames.contains name then some .function
  else none

end Builtin

namespace Intrinsic

/-- Operators without a second operand. -/
def unary : List String :=
  ["__abs__", "__bool__", "__float__", "__hash__", "__index__", "__int__", "__invert__", "__iter__", "__len__",
    "__neg__", "__next__", "__pos__", "__repr__", "__str__"]

/-- Methods that take nothing besides the instance. -/
def bare : List String :=
  ["__ceil__", "__dir__", "__floor__", "__getnewargs__", "__getstate__", "__init_subclass__", "__reduce__",
    "__reversed__", "__sizeof__", "__subclasses__", "__trunc__", "as_integer_ratio", "bit_count", "bit_length",
    "capitalize", "casefold", "clear", "conjugate", "copy", "hex", "is_integer", "isalnum", "isalpha", "isascii",
    "isdecimal", "isdigit", "isidentifier", "islower", "isnumeric", "isprintable", "isspace", "istitle", "isupper",
    "lower", "mro", "swapcase", "title", "upper"]

/-- A function of the language that is bound to an instance of a class, or to the class itself. -/
def builtinMethod (cls name : String) : Intrinsic where
  cls := "builtin_function_or_method"
  text := s!"<built-in method {name} of {cls} object>"
  label := s!"{cls}.{name}"
  reaction :=
    if name = "__new__" then .wantsClass s!"{cls}.{name}"
    else if bare.contains name then .refuses s!"{cls}.{name}() takes no arguments (1 given)"
    else .outside

/-- What a class provides, as the class itself, of name `cls`, has it. -/
def unbound (owner : Builtin) (cls name : String) : Provision → Intrinsic
  | .operator => {
      cls := "wrapper_descriptor"
      text := s!"<slot wrapper '{name}' of '{owner.name}' objects>"
      label := s!"{owner.name}.{name}"
      reaction :=
        if owner ≠ .object then .outside
        else if name = "__init__" then .givesNothing
        else if name = "__str__" then .displays
        else if name = "__setattr__" then .refuses "expected 2 arguments, got 0"
        else if unary.contains name then .outside
        else .refuses "expected 1 argument, got 0" }
  | .method => {
      cls := "method_descriptor"
      text := s!"<method '{name}' of '{owner.name}' objects>"
      label := s!"{owner.name}.{name}"
      reaction := .outside }
  | .shared => builtinMethod (if name = "__new__" then owner.name else cls) name
  | .computed => {
      cls := "getset_descriptor"
      text := s!"<attribute '{name}' of '{owner.name}' objects>"
      label := s!"{owner.name}.{name}" }
  | .member => {
      cls := "member_descriptor"
      text := s!"<member '{name}' of '{owner.name}' objects>"
      label := s!"{owner.name}.{name}" }
  | .function => {
      cls := "function"
      text := s!"<function {owner.name}.{name}>"
      label := s!"{owner.name}.{name}"
      reaction := .outside }

/-- What a class provides, as an instance of a class named `cls` has it. -/
def bound (owner : Builtin) (cls name : String) : Provision → Intrinsic
  | .operator => {
      cls := "method-wrapper"
      text := s!"<method-wrapper '{name}' of {cls} object>"
      label := s!"{owner.name}.{name}"
      reaction := if unary.contains name then .refuses "expected 0 arguments, got 1" else .outside }
  | .method => builtinMethod cls name
  | .function => {
      cls := "method"
      text := s!"<bound method {owner.name}.{name}>"
      label := s!"{owner.name}.{name}"
      reaction := .outside }
  | p => unbound owner cls name p

/-- A table of names. It cannot be part of a key. -/
def dictionary (text : String) (filled : Bool) : Intrinsic where
  cls := "dict"
  text
  filled

/-- The classes of things that can be changed, and so cannot be part of a key. -/
def isKey (i : Intrinsic) : Bool := !(["dict", "mappingproxy"].contains i.cls)

end Intrinsic

end UnionBridge
