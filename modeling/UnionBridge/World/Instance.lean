import UnionBridge.World.Show

/-! Making instances of declared classes, and the operations that a class takes over from the language. -/
namespace UnionBridge

namespace Parameters

/-- Names in quotes, joined as a sentence joins them. -/
def namesText (names : List String) : String :=
  let quoted := names.map fun n => s!"'{n}'"
  match quoted.reverse with
  | [] => ""
  | [a] => a
  | [b, a] => s!"{a} and {b}"
  | last :: before => ", ".intercalate before.reverse ++ s!", and {last}"

/-- The values passed by name, added to those that have a place already. -/
def byName (function : String) (parameters : List String) (bound : List (String × Value)) :
    List (String × Value) → Except Failure (List (String × Value))
  | [] => .ok bound
  | (name, v) :: rest =>
    if !parameters.contains name then
      Failure.typeError s!"{function}() got an unexpected keyword argument '{name}'"
    else if (bound.map Prod.fst).contains name then
      Failure.typeError s!"{function}() got multiple values for argument '{name}'"
    else byName function parameters (bound ++ [(name, v)]) rest

/-- How many values a function takes, as a message says it. -/
def countText (least most : Nat) : String :=
  if least < most then s!"from {least} to {most} positional arguments"
  else s!"{most} positional argument" ++ (if most = 1 then "" else "s")

/-- Gives every parameter its value. What a call passes without saying so, such as the instance that a constructor is to
fill, counts in the message about too many values. -/
def bind (function : String) (unsaid : Nat) (parameters : List Parameter) (s : Supplied) :
    Except Failure (List (String × Value)) := do
  let names := parameters.map (·.name)
  let bound ← byName function names (names.zip s.positional) s.keyword
  if s.positional.length > parameters.length then
    let least := (parameters.filter (·.default.isNone)).length
    let given := s.positional.length + unsaid
    let verb := if given = 1 then "was" else "were"
    Failure.typeError
      s!"{function}() takes {countText (least + unsaid) (parameters.length + unsaid)} but {given} {verb} given"
  else
    let isBound (p : Parameter) : Bool := (bound.map Prod.fst).contains p.name
    let missing := (parameters.filter fun p => p.default.isNone && !isBound p).map (·.name)
    if missing.isEmpty then
      .ok (parameters.filterMap fun p =>
        (bound.find? (·.1 = p.name)) <|> p.default.map fun v => (p.name, v))
    else
      let plural := if missing.length = 1 then "" else "s"
      Failure.typeError
        s!"{function}() missing {missing.length} required positional argument{plural}: {namesText missing}"

/-- Parameters that every call has to pass. -/
def required (names : List String) : List Parameter := names.map fun name => ⟨name, none⟩

end Parameters

namespace World

variable (w : World)

def noArguments {α : Type} (name : String) : Except Failure α := Failure.typeError s!"{name}() takes no arguments"

/-- What one field of a new instance cannot be set to. -/
def fieldRefusal? (cls : ClassRef) (field : String × Value) : Option Failure :=
  match field with
  | ("__class__", .cls _) =>
    some (.error .typeError "__class__ assignment only supported for mutable types or ModuleType subclasses")
  | ("__class__", v) =>
    some (.error .typeError s!"__class__ must be set to a class, not '{w.typeName v}' object")
  | ("__weakref__", _) =>
    some (.error .attributeError s!"attribute '__weakref__' of '{w.className cls}' objects is not writable")
  | _ => none

/-- The declared class that stands in the place of an operation of a value. -/
def override? (c : ClassRef) (operation : String) : Option Nat :=
  match (w.chain c).findSome? fun c => (w.class? c).bind (·.attributes.get? operation) with
  | some (.cls (.declared id)) => some id
  | _ => none

/-- Makes an instance of a declared class whose constructor sets some fields. -/
def fill (id : Nat) (givenName : String) (fields : List Parameter) (s : Supplied) : Except Failure Value := do
  let values ← Parameters.bind s!"{givenName}.__init__" 1 fields s
  match values.findSome? (w.fieldRefusal? (.declared id)) with
  | some f => .error f
  | none => .ok (.record id values)

def endless {α : Type} : Except Failure α :=
  .error (.error .recursion "maximum recursion depth exceeded while calling a Python object")

/-- Makes an instance of a declared class. Without a constructor of its own, a class takes no arguments. A class that
stands in the place of the making of instances is made in the same way, and so on without end. -/
def instantiate (id : Nat) (s : Supplied) : Except Failure Value :=
  let c := ClassRef.declared id
  if (w.override? c "__new__").isSome then endless
  else
    match w.class? c with
    | some { givenName, fields := some fields, .. } => w.fill id givenName fields s
    | some cls =>
      if cls.attributes.contains "__abstractmethods__" then Failure.typeError "'type' object is not iterable"
      else
        match w.override? c "__init__" with
        | none => if s.isEmpty then .ok (.bare id) else noArguments cls.name
        | some constructor =>
          match w.class? (.declared constructor) with
          | some { name, givenName, fields := some fields, .. } => do
            let _ ← w.fill constructor givenName fields s
            Failure.typeError s!"__init__() should return None, not '{name}'"
          | _ => endless
    | none => noArguments ""

/-- What an operation of a value gives if a declared class stands in its place: an instance of that class. -/
def overridden? (v : Value) (operation : String) (args : List Value) : Option (Except Failure Value) :=
  match v with
  | .record id _ | .bare id => (w.override? (.declared id) operation).map fun o => w.instantiate o (.of args)
  | _ => none

end World

end UnionBridge
