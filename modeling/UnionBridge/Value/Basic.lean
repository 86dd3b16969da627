import UnionBridge.Module.Basic
import UnionBridge.Value.Class

/-! The values that a running program handles. -/
namespace UnionBridge

/-- What a container can be asked for. -/
inductive CarrierOp
  | new
  | compose
  | split
  deriving DecidableEq, Repr

/-- The functions that generated modules call and do not define. -/
inductive BuiltinFunction
  /-- Tells whether a value is an instance of a class. -/
  | classTest
  /-- Makes a function an attribute that ignores the class it belongs to. -/
  | detach
  /-- Gives a class a constructor that sets its fields. -/
  | recordClass
  | attachVariant
  | variantsOf
  | requireContainer
  | notAVariant
  | converter
  | carrier (k : Carrier) (op : CarrierOp)
  /-- An operation of containers that a class declares, and that has no result. -/
  | abstract (cls : Builtin) (op : CarrierOp)
  deriving DecidableEq, Repr

namespace BuiltinFunction

/-- The class of a function. -/
def cls : BuiltinFunction → Builtin
  | .classTest => .internal "builtin_function_or_method"
  | .detach => .type
  | .carrier _ .split | .abstract _ .split => .function
  | .carrier _ _ | .abstract _ _ => .internal "method"
  | _ => .function

end BuiltinFunction

/-- A function: built in, or defined by a module, which it keeps as its home. -/
inductive FunctionRef
  | builtin (f : BuiltinFunction)
  | conversion (home : Nat) (c : Conversion)
  | dispatcher (home : Nat) (d : Dispatcher)
  | registrar (home : Nat) (rs : List Registration)
  deriving DecidableEq, Repr

/-- A module: loaded, by its number, or one of the library, by its path. -/
inductive ModuleRef
  | loaded (id : Nat)
  | library (path : String)
  deriving DecidableEq, Repr

/-- How something answers to being called with one value. -/
inductive Reaction
  | notCallable
  | refuses (message : String)
  | givesNothing
  /-- Gives the value as it is displayed. -/
  | displays
  /-- Wants a class, and refuses anything else in the name of a function. -/
  | wantsClass (function : String)
  | constructs (c : ClassRef)
  /-- As what is outside of the program has it. -/
  | outside
  deriving DecidableEq, Repr

/-- Something that the running program hands on and does not look into: a descriptor, a bound method, a dictionary. -/
structure Intrinsic where
  /-- The name of its class. -/
  cls : String
  /-- What it is displayed as. -/
  text : String
  /-- Whether it counts as true. -/
  filled : Bool := true
  /-- What it is called as the target of a conversion, unless that is its text. -/
  label : Option String := none
  reaction : Reaction := .notCallable
  deriving DecidableEq, Repr

inductive Value
  | none
  | bool (b : Bool)
  | int (n : Int)
  | float (x : Float)
  | text (s : String)
  | writtenInt (cls : String) (n : Int)
  | writtenText (cls s : String)
  | box (cls : String) (content : Value)
  | carrier (k : Carrier) (content : Value) (effects : List Value)
  /-- An instance of a declared class that has fields, with these in order. -/
  | record (cls : Nat) (fields : List (String × Value))
  /-- An instance of a declared class without a constructor. -/
  | bare (cls : Nat)
  | cls (c : ClassRef)
  | function (f : FunctionRef)
  | module (m : ModuleRef)
  | registry (name : String)
  | tuple (items : List Value)
  | list (items : List Value)
  /-- What is left of a sequence that is being gone through. -/
  | iterator (ofList : Bool) (items : List Value)
  /-- A feature of the language that modules can ask for. -/
  | feature (name : String)
  | intrinsic (i : Intrinsic)
  deriving Inhabited

namespace Value

mutual

/-- The number of constructors in a value. -/
def size : Value → Nat
  | .box _ v => v.size + 1
  | .carrier _ v es => v.size + sizeList es + 1
  | .record _ fields => sizeFields fields + 1
  | .tuple items => sizeList items + 1
  | .list items => sizeList items + 1
  | .iterator _ items => sizeList items + 1
  | _ => 1

def sizeList : List Value → Nat
  | [] => 0
  | v :: rest => v.size + sizeList rest

def sizeFields : List (String × Value) → Nat
  | [] => 0
  | (_, v) :: rest => v.size + sizeFields rest

end

end Value

end UnionBridge
