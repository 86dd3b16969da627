import UnionBridge.Number.Literal
import UnionBridge.World.Member
import UnionBridge.World.Operator

/-! Calling classes. -/
namespace UnionBridge

namespace World

variable (w : World)

/-- The integer part of a float. -/
def truncate (x : Float) : Except Failure Int :=
  match Binary64.ofFloat x with
  | .nan => .error (.error .valueError "cannot convert float NaN to integer")
  | .infinite _ => .error (.error .overflow "cannot convert float infinity to integer")
  | .finite negative m e => .ok (Binary64.truncate negative m e)

/-- The failure to read a text as an integer. Only the beginning of a long text is shown. -/
def unreadableInt (s : String) : Literal.IntFault → Failure
  | .malformed =>
    .error .valueError ("invalid literal for int() with base 10: " ++ ((Text.quoted s).take 200).toString)
  | .tooLong digits =>
    .error .valueError (s!"Exceeds the limit ({Literal.digitLimit} digits) for integer string conversion: " ++
      s!"value has {digits} digits; use sys.set_int_max_str_digits() to increase the limit")

/-- The operations that make an integer of a value, each with what is said when it makes something else. -/
def intOperations : List (String × String) :=
  [("__int__", "__int__ returned non-int (type "), ("__index__", "__index__ returned non-int (type "),
    ("__trunc__", "__trunc__ returned non-Integral (type ")]

/-- The operations that make a float of a value. -/
def floatOperations (cls : String) : List (String × String) :=
  [("__float__", cls ++ ".__float__ returned non-float (type "), ("__index__", "__index__ returned non-int (type ")]

/-- What a declared class in the place of one of some operations leads to: it never makes a number. -/
def misled? {α : Type} (v : Value) (operations : List (String × String)) : Option (Except Failure α) :=
  operations.findSome? fun (operation, before) =>
    (w.overridden? v operation []).map fun result => do w.wrongResult before (← result) ")"

def intOf (v : Value) : Except Failure Int :=
  match v.asNumber?, v.asText?, w.misled? v intOperations with
  | some (.int n), _, _ => .ok n
  | some (.float x), _, _ => truncate x
  | none, some s, _ => (Literal.int s).mapError (unreadableInt s)
  | none, none, some result => result
  | none, none, none =>
    Failure.typeError
      s!"int() argument must be a string, a bytes-like object or a real number, not '{w.typeName v}'"

def floatFrom (v : Value) : Except Failure Float :=
  match v.asNumber?, v.asText?, w.misled? v (floatOperations (w.typeName v)) with
  | some n, _, _ => floatOf n
  | none, some s, _ =>
    match Literal.float? s with
    | some x => .ok x
    | none => .error (.error .valueError s!"could not convert string to float: {Text.quoted s}")
  | none, none, some result => result
  | none, none, none =>
    Failure.typeError s!"float() argument must be a string or a real number, not '{w.typeName v}'"

/-- An instance of a written class, unless the class refuses what it would hold. -/
def unlessRefused (b : Builtin) (content made : Value) : Except Failure Value :=
  match w.outside.refusal? b content with
  | some (kind, message) => .error (.error kind message)
  | none => .ok made

/-- What a built-in class makes of one value. -/
def convert (b : Builtin) (v : Value) : Except Failure Value :=
  match b with
  | .bool => do return .bool (← w.truth v)
  | .int => do return .int (← w.intOf v)
  | .float => do return .float (← w.floatFrom v)
  | .str => do return .text (← w.textOf v)
  | .tuple => do return .tuple (← w.items v)
  | .list => do return .list (← w.items v)
  | .type => .ok (.cls v.classOf)
  | .writtenInt cls => do
    let n ← w.intOf v
    w.unlessRefused b (.int n) (.writtenInt cls n)
  | .writtenText cls => do
    let s ← w.textOf v
    w.unlessRefused b (.text s) (.writtenText cls s)
  | .noneType => Failure.typeError "NoneType takes no arguments"
  | b => noArguments b.name

/-- What a built-in class makes of nothing. -/
def empty (b : Builtin) : Except Failure Value :=
  match b with
  | .bool => .ok (.bool false)
  | .int => .ok (.int 0)
  | .float => .ok (.float 0.0)
  | .str => .ok (.text "")
  | .tuple => .ok (.tuple [])
  | .list => .ok (.list [])
  | .noneType => .ok .none
  | .type => Failure.typeError "type() takes 1 or 3 arguments"
  | .withEffects =>
    Failure.typeError "Can't instantiate abstract class WithEffects with abstract methods into_value_and_effects, new"
  | b => .ok (.intrinsic { cls := b.name, text := opaqueText b.name })

/-- What a built-in class says to more values than one, or to values that are passed by name. -/
def refuse (b : Builtin) (s : Supplied) : Except Failure Value :=
  let given := s.positional.length + s.keyword.length
  let name := b.name
  match b, s.positional, s.keyword with
  | .noneType, _, _ => Failure.typeError "NoneType takes no arguments"
  | .type, [_], _ => Failure.typeError "type() takes no keyword arguments"
  | .type, _, _ => Failure.typeError "type() takes 1 or 3 arguments"
  | .int, _, (key, _) :: _ | .str, _, (key, _) :: _ =>
    Failure.typeError s!"'{key}' is an invalid keyword argument for {name}()"
  | .int, [_, base], [] => Failure.typeError s!"'{w.typeName base}' object cannot be interpreted as an integer"
  | .int, _, [] => Failure.typeError s!"int() takes at most 2 arguments ({given} given)"
  | .str, _ :: encoding :: _, [] =>
    if given > 3 then Failure.typeError s!"str() takes at most 3 arguments ({given} given)"
    else Failure.typeError s!"str() argument 'encoding' must be str, not {w.typeName encoding}"
  | .bool, _, _ :: _ | .float, _, _ :: _ | .tuple, _, _ :: _ | .list, _, _ :: _ =>
    Failure.typeError s!"{name}() takes no keyword arguments"
  | .bool, _, [] | .float, _, [] | .tuple, _, [] | .list, _, [] =>
    Failure.typeError s!"{name} expected at most 1 argument, got {given}"
  | _, _, _ => noArguments name

/-- The parameters of the built-in classes that take their values by name. -/
def constructor? (b : Builtin) : Option (String × List Parameter) :=
  let named (names : List String) (optional : List (String × Value)) : List Parameter :=
    Parameters.required names ++ optional.map fun (name, v) => ⟨name, some v⟩
  match b with
  | .writtenInt _ | .writtenText _ => some ("__new__", named ["v"] [])
  | .box _ => some ("__init__", named ["value"] [])
  | .carrier .effectful => some ("__init__", named ["value"] [("effects", .tuple [])])
  | .carrier _ => some ("__init__", named ["value", "effects"] [])
  | .registry => some ("__init__", [])
  | .conversionFailed => some ("__init__", named ["value", "target"] [("reason", .none)])
  | .exhausted => some ("__init__", named ["value", "dest", "case"] [("tried", .tuple [])])
  | _ => none

/-- What a built-in class makes of the values of its parameters. -/
def assemble (b : Builtin) (values : List Value) : Except Failure Value :=
  match b, values with
  | .box cls, [v] => w.unlessRefused b v (.box cls v)
  | .carrier k, [v, effects] =>
    match k, effects with
    | _, .tuple es | _, .list es | _, .iterator _ es => .ok (.carrier k v es)
    | .effectful, _ => .ok (.carrier k v [effects])
    | _, _ => do return .carrier k v (← w.items effects)
  | .writtenInt _, [v] | .writtenText _, [v] => w.convert b v
  | b, _ => .ok (.intrinsic { cls := b.name, text := opaqueText b.name })

def construct (c : ClassRef) (s : Supplied) : Except Failure Value :=
  match c with
  | .declared id => w.instantiate id s
  | .builtin (.internal _) => w.outside.call (.cls c) s
  | .builtin b =>
    match constructor? b, s with
    | some (method, parameters), s => do
      let values ← Parameters.bind s!"{b.name}.{method}" 1 parameters s
      w.assemble b (values.map Prod.snd)
    | none, ⟨[], []⟩ => empty b
    | none, ⟨[v], []⟩ => w.convert b v
    | none, s => w.refuse b s

end World

end UnionBridge
