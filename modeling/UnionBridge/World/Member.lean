import UnionBridge.World.Instance
import UnionBridge.World.Library

/-! Attributes of modules, classes and values. -/
namespace UnionBridge

namespace CarrierOp

def ofName? : String → Option CarrierOp
  | "new" => some .new
  | "compose_from" => some .compose
  | "into_value_and_effects" => some .split
  | _ => none

end CarrierOp

/-- The attributes of built-in classes that make them containers, or fail to. -/
def Builtin.operation? : Builtin → String → Option Value
  | .carrier k, name => (CarrierOp.ofName? name).map fun op => .function (.builtin (.carrier k op))
  | .withEffects, name => (CarrierOp.ofName? name).map fun op => .function (.builtin (.abstract .withEffects op))
  | .splitOnly cls, name =>
    (CarrierOp.ofName? name).map fun
      | .split => .function (.builtin (.abstract (.splitOnly cls) .split))
      | _ => .none
  | _, _ => none

namespace World

variable (w : World)

/-- The attribute that one class has under a name, as a class named `reader` reaches it. -/
def ownAttribute? (reader name : String) : ClassRef → Option Value
  | .builtin b =>
    match b.operation? name, b.provision? name, name with
    | some v, _, _ => some v
    | none, some p, _ => some (.intrinsic (.unbound b reader name p))
    | none, none, "__doc__" => some (if b = .noneType then .none else .text "")
    | none, none, "__module__" => if b.home = "builtins" then none else some (.text b.home)
    | none, none, "__hash__" => if b = .list then some .none else none
    | none, none, _ =>
      match b with
      | .internal _ => w.outside.attribute? (.cls (.builtin b)) name
      | _ => none
  | .declared id => (w.class? (.declared id)).bind (·.attributes.get? name)

/-- What a class has under a name, its own or of the nearest class above it. -/
def inherited? (c : ClassRef) (name : String) : Option Value :=
  (w.chain c).findSome? (w.ownAttribute? (w.qualifiedName c) name)

/-- The classes directly above a class. -/
def bases : ClassRef → List ClassRef
  | .builtin .object => []
  | .builtin b => [.builtin (b.parent?.getD .object)]
  | .declared id => (w.class? (.declared id)).elim [] (·.bases)

/-- Whether instances of a class can be given attributes. -/
def isOpen (c : ClassRef) : Bool := (w.chain c).any fun c => (w.class? c).any (·.attributes.contains "__dict__")

/-- Numbers that describe how instances of a class are stored. -/
def layout (c : ClassRef) (name : String) : Int :=
  let isOpen := w.isOpen c
  match name with
  | "__basicsize__" => if isOpen then 24 else 16
  | "__dictoffset__" => if isOpen then -1 else 0
  | "__weakrefoffset__" => if isOpen then 16 else 0
  | "__flags__" => 284160
  | _ => 0

/-- What every class has of its own, whatever its attributes are. -/
def classData? (c : ClassRef) : String → Option Value
  | "__class__" => some (.cls (.builtin (match c with
    | .builtin b => b.metaclass
    | .declared _ => .type)))
  | "__name__" => some (.text (w.className c))
  | "__qualname__" => some (.text (w.qualifiedName c))
  | "__bases__" => some (.tuple ((w.bases c).map .cls))
  | "__base__" => some (((w.bases c).head?).elim .none .cls)
  | "__mro__" => some (.tuple ((w.chain c).map .cls))
  | "__dict__" => some (.intrinsic { cls := "mappingproxy", text := "mappingproxy" })
  | "__text_signature__" => some .none
  | "__module__" => (w.ownAttribute? (w.qualifiedName c) "__module__" c) <|> match c with
    | .builtin b => some (.text b.home)
    | .declared _ => none
  | "__doc__" => some ((w.ownAttribute? (w.qualifiedName c) "__doc__" c).getD .none)
  | "__annotations__" =>
    (w.ownAttribute? (w.qualifiedName c) "__annotations__" c) <|> match c with
    | .builtin _ => none
    | .declared _ => some (.intrinsic (.dictionary "\x7b\x7d" false))
  | "__basicsize__" => some (.int (w.layout c "__basicsize__"))
  | "__itemsize__" => some (.int 0)
  | "__dictoffset__" => some (.int (w.layout c "__dictoffset__"))
  | "__weakrefoffset__" => some (.int (w.layout c "__weakrefoffset__"))
  | "__flags__" => some (.int (w.layout c "__flags__"))
  | _ => none

/-- What the class of classes gives to a class. -/
def fromMetaclass? (c : ClassRef) (name : String) : Option Value :=
  match name, Builtin.type.provision? name with
  | "__call__", _ =>
    some (.intrinsic { Intrinsic.bound .type "type" name .operator with reaction := .constructs c })
  | _, some .operator => some (.intrinsic (.bound .type "type" name .operator))
  | _, some p => some (.intrinsic (.bound .type (w.qualifiedName c) name p))
  | _, none => none

/-- The attribute of a class: what every class has, then what it inherits, then what classes can do. -/
def classAttribute? (c : ClassRef) (name : String) : Option Value :=
  if name = "__abstractmethods__" then w.ownAttribute? (w.qualifiedName c) name c
  else (w.classData? c name) <|> (w.inherited? c name) <|> w.fromMetaclass? c name

/-- What a number is worked out to. -/
def numberData? (v : Value) (name : String) : Option Value :=
  match v, v.asInt?, name with
  | .float x, _, "real" => some (.float x)
  | .float _, _, "imag" => some (.float 0.0)
  | _, some n, "real" | _, some n, "numerator" => some (.int n)
  | _, some _, "imag" => some (.int 0)
  | _, some _, "denominator" => some (.int 1)
  | _, _, _ => none

/-- What a function or a module is worked out to. -/
def homeData? (v : Value) (name : String) : Option Value :=
  match v, name with
  | .function f, "__name__" => some (.text f.name)
  | .function f, "__qualname__" => some (.text f.qualifiedName)
  | .function (.builtin _), "__module__" => some (.text "casemap.runtime.convert")
  | .function (.conversion home _), "__module__" | .function (.dispatcher home _), "__module__" |
      .function (.registrar home _), "__module__" => (w.globals home).get? "__name__"
  | .function _, "__defaults__" | .function _, "__kwdefaults__" | .function _, "__closure__" => some .none
  | .function _, "__code__" => some (.intrinsic { cls := "code", text := "<code object>" })
  | .function _, "__globals__" | .function _, "__builtins__" =>
    some (.intrinsic (.dictionary "\x7b...\x7d" true))
  | .function _, "__dict__" | .function _, "__annotations__" => some (.intrinsic (.dictionary "\x7b\x7d" false))
  | .function f, "__doc__" => some (f.doc?.elim .none .text)
  | .module _, "__dict__" => some (.intrinsic (.dictionary "\x7b...\x7d" true))
  | .module _, "__annotations__" => some (.intrinsic (.dictionary "\x7b\x7d" false))
  | _, _ => none

/-- What an instance is worked out to, before its own attributes are looked at. -/
def instanceData? (v : Value) (name : String) : Option Value :=
  match v, name with
  | _, "__class__" => some (.cls v.classOf)
  | .record id fields, "__dict__" =>
    if w.isOpen (.declared id) then
      let entries := (w.displayFields fields).zip fields |>.map fun (_, k, f) =>
        Text.quoted k ++ ": " ++ w.display f
      some (.intrinsic (.dictionary ("\x7b" ++ ", ".intercalate entries ++ "\x7d") (!fields.isEmpty)))
    else none
  | .record _ _, "__weakref__" => some .none
  | .feature f, "compiler_flag" => (Feature.mark? f).map fun n => .int n
  | v, name => (numberData? v name) <|> w.homeData? v name

/-- The attributes that a value has of its own. -/
def ownValue? : Value → String → Option Value
  | .module (.loaded id), name => (w.globals id).get? name
  | .module (.library path), name => (Library.attribute? path name) <|> w.outside.attribute? (.module (.library path)) name
  | .intrinsic i, name => w.outside.attribute? (.intrinsic i) name
  | .record _ fields, name => (fields.find? (·.1 = name)).map Prod.snd
  | .carrier _ v _, "value" => some v
  | .carrier .effectful _ es, "effects" => some (.tuple es)
  | .carrier _ _ es, "effects" => some (.list es)
  | .box _ v, "value" => some v
  | .function f, "from_source" => w.misplaced.get? f
  | .registry _, "_converters" => some (.intrinsic (.dictionary "\x7b...\x7d" true))
  | _, _ => none

/-- What an instance has from its class: functions are bound to it. -/
def fromClass? (v : Value) (name : String) : Option Value :=
  let cls := w.qualifiedName v.classOf
  (w.chain v.classOf).findSome? fun c =>
    match c with
    | .builtin b =>
      match b.operation? name, b.provision? name with
      | none, some p => some (.intrinsic (.bound b cls name p))
      | _, _ => w.ownAttribute? cls name c
    | .declared _ =>
      (w.ownAttribute? cls name c).map fun
        | .intrinsic i =>
          if i.cls = "function" then
            .intrinsic { i with cls := "method", text := s!"<bound method {i.label.getD name} of {w.display v}>" }
          else .intrinsic i
        | a => a

/-- The attribute of a value, if nothing takes over looking for it. -/
def member? : Value → String → Option Value
  | .cls c, name => w.classAttribute? c name
  | v, name => (w.instanceData? v name) <|> (w.ownValue? v name) <|> w.fromClass? v name

/-- What a value is called when one of its attributes is missing. -/
def ownerText : Value → String
  | .module m => (w.moduleLabel? m).elim "module" fun name => s!"module '{name}'"
  | .cls c => s!"type object '{w.className c}'"
  | v => s!"'{w.typeName v}' object"

def member (v : Value) (name : String) : Except Failure Value :=
  match w.overridden? v "__getattribute__" [.text name] with
  | some result => result
  | none =>
    match w.member? v name, w.overridden? v "__getattr__" [.text name], v, name with
    | some a, _, _, _ => .ok a
    | none, some result, _, _ => result
    | none, none, .cls _, "__abstractmethods__" => Failure.attributeError name
    | none, none, _, _ => Failure.attributeError s!"{w.ownerText v} has no attribute '{name}'"

/-- The attribute of the attribute of a value, and so on. -/
def memberPath (v : Value) (names : List String) : Except Failure Value := names.foldlM w.member v

/-- The fields of a value, as whoever asks its class for a list of them goes through them. -/
def fieldsOf (v : Value) : Except Failure (List (String × Value)) := do
  let listing := "__dataclass_fields__"
  let misled (table : Value) : Except Failure (List (String × Value)) := do
    let values ← w.member table "values"
    Failure.typeError s!"'{w.typeName values}' object is not callable"
  match v, w.overridden? v "__getattribute__" [.text listing] with
  | _, some table => misled (← table)
  | .record _ fields, none =>
    match fields.find? (·.1 = listing) with
    | some (_, table) => misled table
    | none => return fields
  | v, none => misled (← w.member v listing)

/-- Whether the class of a value keeps a list of fields. -/
def hasFields (v : Value) : Bool :=
  match v with
  | .record _ _ => true
  | .bare id => (w.inherited? (.declared id) "__dataclass_fields__").isSome
  | _ => false

def isCallable : Value → Bool
  | .cls _ => true
  | .function _ => true
  | .intrinsic i => i.reaction ≠ .notCallable
  | _ => false

/-- Whether something can serve as an effect container. -/
def requireContainer (v : Value) : Except Failure Unit :=
  match v with
  | .cls c =>
    if w.isSubclass c (.builtin .withEffects) then .ok ()
    else
      let missing := ["new", "into_value_and_effects", "compose_from"].filter fun name =>
        !((w.member? v name).elim false isCallable)
      if missing.isEmpty then .ok ()
      else
        let names := ", ".intercalate missing
        Failure.typeError
          s!"effect container {w.qualifiedName c} does not implement WithEffects (missing: {names})"
  | _ => do Failure.typeError ("effect container must be a class, got " ++ (← w.displayed v))

end World

end UnionBridge
