import UnionBridge.World.Linearize

/-! Classes with fields. Each field becomes a parameter of the constructor, and what the class already has under the name
of a field becomes its default. -/
namespace UnionBridge.World

variable (w : World)

/-- How the class of a record is set up. -/
def recordSettings : Intrinsic where
  cls := "_DataclassParams"
  text := "_DataclassParams(init=True,repr=True,eq=True,order=False,unsafe_hash=False,frozen=True)"

/-- Whether a value is a place in instances rather than something that a class has. -/
def isPlace : Value → Bool
  | .intrinsic i => i.cls = "member_descriptor"
  | _ => false

/-- Whether a value is of a class whose instances can be changed. -/
def isChangeable : Value → Bool
  | .list _ => true
  | .intrinsic i => !i.isKey
  | _ => false

/-- What the module of a class is looked up as, to see what a type without a dot means. -/
def requireHome (c : ClassRef) : Except Failure Unit :=
  let home := (w.classAttribute? c "__module__").getD .none
  match home.unhashable?, (home.asText?).bind w.importable.get? with
  | some name, _ => Failure.typeError s!"unhashable type: '{name}'"
  | none, none => Failure.attributeError "'NoneType' object has no attribute '__dict__'"
  | none, some _ => .ok ()

/-- One field of a class, given the type in its annotation. -/
def parameterOf (c : ClassRef) (name : String) (type : DottedName) : Except Failure Parameter := do
  let default := (w.classAttribute? c name).filter (!isPlace ·)
  if type.rest.isEmpty then w.requireHome c
  match default.filter isChangeable with
  | some v =>
    let text := w.classText v.classOf
    .error (.error .valueError s!"mutable default {text} for field {name} is not allowed: use default_factory")
  | none => return ⟨name, default⟩

/-- A field without a default must not follow one with a default. -/
def checkOrder : (seenDefault : Bool) → List Parameter → Except Failure Unit
  | _, [] => .ok ()
  | seenDefault, p :: rest =>
    if p.default.isSome then checkOrder true rest
    else if seenDefault then Failure.typeError s!"non-default argument '{p.name}' follows default argument"
    else checkOrder false rest

/-- How the constructor of a class is called. -/
def signature (fields : List (Parameter × DottedName)) : String :=
  "(" ++ ", ".intercalate (fields.map fun (p, type) =>
    s!"{p.name}: '{type}'" ++ p.default.elim "" fun v => " = " ++ w.display v) ++ ")"

/-- A function of a class, and what it says to a single value. -/
def recordFunction (cls name : String) (parameters : List String) : Value :=
  let label := s!"{cls}.{name}"
  let reaction : Reaction :=
    match parameters.length with
    | 0 => if name = "__init__" then .givesNothing else .outside
    | n =>
      let plural := if n = 1 then "" else "s"
      .refuses s!"{label}() missing {n} required positional argument{plural}: {Parameters.namesText parameters}"
  .intrinsic { cls := "function", text := s!"<function {label}>", label := some label, reaction }

/-- What a class gets when it becomes a record. -/
def recordAttributes (cls : String) (fields : List (Parameter × DottedName)) : List (String × Value) :=
  let names := fields.map (·.1.name)
  let required := (fields.filter (·.1.default.isNone)).map (·.1.name)
  let function (name : String) (parameters : List String) := (name, recordFunction cls name parameters)
  let table : Intrinsic := .dictionary "\x7b...\x7d" (!fields.isEmpty)
  [("__dataclass_fields__", .intrinsic table), function "__init__" required, function "__repr__" [],
    function "__eq__" ["other"], function "__setattr__" ["name", "value"], function "__delattr__" ["name"],
    function "__hash__" [], ("__match_args__", .tuple (names.map .text))]

/-- Makes a declared class a record. A name that occurs again is the same field with its last type. -/
def makeRecord (id : Nat) (fields : List (String × DottedName)) : Except Failure World := do
  let c := ClassRef.declared id
  let name := w.className c
  let w := w.setAttribute id "__dataclass_params__" (.intrinsic recordSettings)
  let fields := (Table.insertAll ∅ fields).entries
  let parameters ← fields.mapM fun (field, type) => w.parameterOf c field type
  checkOrder false parameters
  let typed := parameters.zip (fields.map Prod.snd)
  let docText := name ++ w.signature typed
  let w := w.setClass id fun d =>
    { d with
      fields := some parameters
      attributes := d.attributes.insertAll (recordAttributes name typed) }
  match w.classAttribute? c "__doc__" with
  | some .none => return w.setAttribute id "__doc__" (.text docText)
  | _ => return w

end UnionBridge.World
