import UnionBridge.World.Attach
import UnionBridge.World.Construct

/-! Calls of built-in functions and of methods, given a way to call anything. -/
namespace UnionBridge

/-- How something is called; the values, classes and functions of a program are called in the same way. -/
abbrev Caller := Value → Supplied → Except Failure Value

namespace CarrierOp

/-- The effects that containers of a kind add when others pass through an operation. -/
def mark : Carrier → CarrierOp → List Value
  | .written c, .split => c.splitMarks.map .text
  | .written c, .compose => c.composeMarks.map .text
  | _, _ => []

end CarrierOp

namespace BuiltinFunction

/-- What a function that takes its values by name has for parameters; the flag says that a class comes before them. -/
def parameters? : BuiltinFunction → Option (Bool × List Parameter)
  | .classTest | .detach => none
  | .recordClass => some (false, [⟨"cls", some .none⟩])
  | .attachVariant => some (false, Parameters.required ["union", "variant", "name"])
  | .variantsOf => some (false, Parameters.required ["union"])
  | .requireContainer => some (false, Parameters.required ["container"])
  | .notAVariant => some (false, Parameters.required ["value", "union"])
  | .converter => some (false, Parameters.required ["source", "target"] ++ [⟨"fn", some .none⟩])
  | .carrier _ .split | .abstract _ .split => some (false, Parameters.required ["self"])
  | .carrier _ .new | .abstract _ .new => some (true, Parameters.required ["value", "effects"])
  | .carrier _ .compose | .abstract _ .compose =>
    some (true, Parameters.required ["value", "composed_effects"])

end BuiltinFunction

namespace World

variable (w : World)

/-- An operation of a container. -/
def carrierCall (k : Carrier) (op : CarrierOp) (args : List Value) : Except Failure Value :=
  match op, args with
  | .new, [v, effects] | .compose, [v, effects] => do
    return .carrier k v ((← w.items effects) ++ op.mark k)
  | .split, [v] => do
    let content ← w.member v "value"
    let effects ← w.items (← w.member v "effects")
    return .tuple [content, .iterator (k != .effectful) (effects ++ op.mark k)]
  | _, _ => Failure.typeError "wrong number of arguments for an effect container"

mutual

/-- Whether a value is an instance of what should be a class, or of one of several. -/
def instanceTest (v : Value) : Value → Except Failure Bool
  | .cls c => .ok (w.isInstance v c)
  | .tuple cs => instanceTestAny v cs
  | _ => Failure.typeError "isinstance() arg 2 must be a type, a tuple of types, or a union"

def instanceTestAny (v : Value) : List Value → Except Failure Bool
  | [] => .ok false
  | c :: rest => do if ← instanceTest v c then return true else instanceTestAny v rest

end

/-- A built-in function that takes a fixed number of values. -/
def wrongCount (f : BuiltinFunction) (expected : Nat) (s : Supplied) : Except Failure Value :=
  let plural := if expected = 1 then "" else "s"
  if s.keyword.isEmpty then
    Failure.typeError s!"{f.name} expected {expected} argument{plural}, got {s.positional.length}"
  else Failure.typeError s!"{f.name}() takes no keyword arguments"

/-- What a built-in function makes of the values of its parameters. Where that would change something, it is left open. -/
def apply (f : BuiltinFunction) (values : List Value) : Except Failure Value :=
  match f, values with
  | .requireContainer, [v] => do
    w.requireContainer v
    return v
  | .variantsOf, [v] => do return .tuple (← w.variantsOf v)
  | .notAVariant, _ => .ok (.intrinsic { cls := "TypeError", text := "TypeError" })
  | .converter, [_, _, .none] => .ok (.intrinsic { cls := "function", text := "<function deco>", reaction := .outside })
  | .recordClass, [.none] => .ok (.intrinsic { cls := "function", text := "<function wrap>", reaction := .outside })
  | .recordClass, [.cls _] => Failure.undetermined "a class is changed"
  | .recordClass, [v] => do
    let _ ← w.member v "__module__"
    Failure.typeError "a record class is made of a class only"
  | .carrier k op, args => w.carrierCall k op args
  | .abstract _ _, _ => .ok .none
  | f, _ => Failure.undetermined s!"what {f.name}() changes is left open here"

/-- Calls of built-in functions. -/
def builtinCall (f : BuiltinFunction) (s : Supplied) : Except Failure Value :=
  match f, f.parameters?, s with
  | .classTest, _, ⟨[v, c], []⟩ => do return .bool (← w.instanceTest v c)
  | .classTest, _, s => wrongCount f 2 s
  | .detach, _, ⟨[v], []⟩ => .ok v
  | .detach, _, s => wrongCount f 1 s
  | f, some (ofClass, parameters), s => do
    let values ← Parameters.bind f.qualifiedName (if ofClass then 1 else 0) parameters s
    w.apply f (values.map Prod.snd)
  | f, none, s => w.apply f s.positional

/-- How something that the program only hands on answers to a call. What it does with anything but one value by place is a
matter of what is outside, unless it makes instances of a class, or cannot be called. -/
def react (i : Intrinsic) (s : Supplied) : Except Failure Value :=
  match i.reaction, s with
  | .notCallable, _ => Failure.typeError s!"'{i.cls}' object is not callable"
  | .constructs c, s => w.construct c s
  | .refuses message, ⟨[_], []⟩ => Failure.typeError message
  | .givesNothing, ⟨[_], []⟩ => .ok .none
  | .displays, ⟨[v], []⟩ => do return .text (← w.displayed v)
  | .wantsClass _, ⟨[.cls c], []⟩ => w.outside.call (.intrinsic i) (.of [.cls c])
  | .wantsClass function, ⟨[v], []⟩ =>
    Failure.typeError s!"{function}(X): X is not a type object ({w.typeName v})"
  | _, s => w.outside.call (.intrinsic i) s

/-- Calls an attribute of a value. A method of a container or of a class of containers knows its own kind. -/
def invoke (call : Caller) (v : Value) (name : String) (args : List Value) : Except Failure Value :=
  match v, CarrierOp.ofName? name with
  | .carrier k _ _, some .split =>
    if args.isEmpty then w.carrierCall k .split [v]
    else
      Failure.typeError
        s!"{(Builtin.carrier k).name}.{name}() takes 1 positional argument but {args.length + 1} were given"
  | _, _ => do call (← w.member v name) (.of args)

end World

end UnionBridge
