import UnionBridge.Execution.Load

/-! Sessions: a world, and the modules that were loaded in it by name. -/
namespace UnionBridge

/-- The place of a value: a loaded module, and a path inside it. -/
structure Reference where
  module : String
  path : List String
  deriving DecidableEq, Repr

structure Session where
  world : World
  /-- The module that the last successful load of a name gave. -/
  loaded : Table String Nat

inductive SessionFailure
  /-- No load of that name has succeeded. -/
  | notLoaded (module : String)
  | load (f : LoadFailure)
  | failed (f : Failure)

namespace Session

/-- Nothing loaded and nothing registered. -/
def initial : Session := ⟨Library.world, ∅⟩

variable (s : Session)

abbrev Answer (α : Type) := Except SessionFailure α

def ofOutcome {α : Type} (r : Except Failure α) : Answer α := r.mapError .failed

def module (name : String) : Answer Nat :=
  match s.loaded.get? name with
  | some id => .ok id
  | none => .error (.notLoaded name)

def resolve (r : Reference) : Answer Value := do
  let id ← s.module r.module
  ofOutcome (s.world.memberPath (.module (.loaded id)) r.path)

/-- Loads a module, which then answers to its name if nothing failed. -/
def load (r : LoadRequest) : Session × Answer Nat :=
  match s.world.load r with
  | (w, .ok id) => (⟨w, s.loaded.insert r.name id⟩, .ok id)
  | (w, .error f) => ({ s with world := w }, .error (.load f))

def call (f : Value) (args : Supplied) : Answer Value := ofOutcome (s.world.call f args)

/-- Makes a container. -/
def contain (container v : Value) (effects : List Value) : Answer Value :=
  ofOutcome (s.world.invoke s.world.call container "new" [v, .list effects])

/-- Makes a container of effects that are already joined. -/
def compose (container v : Value) (effects : List Value) : Answer Value :=
  ofOutcome (s.world.invoke s.world.call container "compose_from" [v, .iterator true effects])

/-- The value and the effects of a container. -/
def split (c : Value) : Answer (Value × List Value) := ofOutcome do
  let (v, effects) ← s.world.pair (← s.world.invoke s.world.call c "into_value_and_effects" [])
  return (v, ← s.world.items effects)

def register (registry : String) (source target : Value) (fallible : Bool) (c : Converter) : Answer Session :=
  ofOutcome do
    let k : ConverterKey := ⟨source, target, fallible⟩
    k.require
    return { s with world := s.world.register registry k c }

/-- Registers the conversions of a loaded module once more. -/
def registerModule (name registry : String) : Session × Answer Unit :=
  match s.resolve ⟨name, [Module.registrar]⟩ with
  | .error e => (s, .error e)
  | .ok f =>
    let (result, w) := (Loading.register f (.registry registry)).run.run s.world
    ({ s with world := w }, ofOutcome result)

/-- The converter that a registry has for the values of a class. -/
def lookup (registry : String) (source target : Value) (fallible : Bool) : Answer (Option Converter) :=
  match source with
  | .cls c => ofOutcome (s.world.lookup (s.world.registry registry) c target fallible)
  | v => ofOutcome (Failure.attributeError s!"{s.world.ownerText v} has no attribute '__mro__'")

/-- The operations of a registry. -/
def request (request : Request) (registry : String) (v target : Value) (container : Option Value) : Answer Value :=
  ofOutcome (s.world.answer s.world.call registry request v target container)

/-- Whether imports find anything under a name, and whether that is the module that was loaded last under it. -/
def inImports (name : String) : Bool × Bool :=
  let found := s.world.importable.get? name
  (found.isSome, found == (s.loaded.get? name).map .loaded)

/-- The classes that a loaded module offers, each with its variants. -/
def unions (id : Nat) : Answer (List (String × List String)) := ofOutcome do
  let w := s.world
  let offered ← w.items ((w.globals id).get? "__all__" |>.getD (.list []))
  let named ← (offered.filterMap Value.asText?).mapM fun name => do
    return (name, ← w.member (.module (.loaded id)) name)
  named.filterMapM fun (name, v) => do
    match v with
    | .cls c => return some (name, (← w.variantsOf (.cls c)).map w.targetName)
    | _ => return none

/-- The names that a loaded module offers. -/
def exports (id : Nat) : List String :=
  match (s.world.globals id).get? "__all__" with
  | some (.list names) => names.filterMap Value.asText?
  | _ => []

end Session

end UnionBridge
