import UnionBridge.World.Invoke

/-! Converting values through a registry. A registered converter wins; otherwise a value that is of the target class
already stays, and any other value is handed to the target. -/
namespace UnionBridge

namespace Behaviour

variable (w : World) (call : Caller)

/-- The effects, each with the value in place of its braces. -/
def effectTexts (effects : List String) (v : Value) : Except Failure (List Value) :=
  effects.mapM fun e => do return .text (e.replace "\x7b\x7d" (← w.textOf v))

def run (v : Value) : Behaviour → Except Failure Value
  | .pure f => f v
  | .constant result => .ok result
  | .add amount => w.add v amount
  | .make target => call target (.of [v])
  | .atMost limit target reason => do
    if ← w.exceeds v limit then .error (.rejection w v target reason none) else .ok v
  | .reject target reason => .error (.rejection w v target reason none)
  | .raise kind text => .error (.error kind (if kind = .keyError then Text.quoted text else text))
  | .withEffects container target effects => do
    let content ← match target with
      | some t => call t (.of [v])
      | none => .ok v
    w.invoke call container "new" [content, .list (← effectTexts w effects v)]

end Behaviour

namespace Converter

def run (w : World) (call : Caller) (v : Value) : Converter → Except Failure Value
  | .callable f => call f (.of [v])
  | .custom _ b => b.run w call v

end Converter

namespace World

variable (w : World) (call : Caller)

/-- Refuses what cannot be part of a key. -/
def requireKey (v : Value) : Except Failure Unit :=
  match v.unhashable? with
  | some name => Failure.typeError s!"unhashable type: '{name}'"
  | none => .ok ()

end World

/-- Refuses a key of which some part cannot be one. -/
def ConverterKey.require (k : ConverterKey) : Except Failure Unit := do
  World.requireKey k.source
  World.requireKey k.target

namespace World

variable (w : World) (call : Caller)

/-- The converter that a registry has for the values of a class. -/
def lookup (r : Registry) (c : ClassRef) (target : Value) (fallible : Bool) : Except Failure (Option Converter) := do
  requireKey target
  return r.lookup (w.chain c) target fallible

/-- What happens to a value that no converter applies to. -/
def fit (v target : Value) : Except Failure Value :=
  match target with
  | .cls c => if w.isInstance v c then .ok v else call target (.of [v])
  | _ => call target (.of [v])

/-- A conversion that has to succeed. -/
def into (r : Registry) (v target : Value) : Except Failure Value := do
  match ← w.lookup r v.classOf target false with
  | some c => c.run w call v
  | none => w.fit call v target

/-- A failure as an attempt reports it: errors that mean a misfit become a rejection of the value. -/
def asRejection (v target : Value) : Failure → Failure
  | .error kind message =>
    if kind.meansMisfit then .rejection w v target (some message) (some kind) else .error kind message
  | f => f

/-- A conversion that may reject its value. -/
def tryInto (r : Registry) (v target : Value) : Except Failure Value := do
  let converter ← w.lookup r v.classOf target true
  let result := match converter with
    | some c => c.run w call v
    | none => w.into call r v target
  result.mapError (w.asRejection v target)

/-- Puts a result into a container, unless it is one. -/
def lift (result container : Value) : Except Failure Value := do
  if ← w.instanceTest result container then .ok result
  else w.invoke call container "new" [result, .list []]

def intoEffects (r : Registry) (v target container : Value) : Except Failure Value := do
  w.lift call (← w.into call r v target) container

def tryIntoEffects (r : Registry) (v target container : Value) : Except Failure Value := do
  w.lift call (← w.tryInto call r v target) container

end World

/-- The operations of a registry that generated functions use. -/
inductive Request
  | into
  | tryInto
  deriving DecidableEq, Repr

namespace Request

/-- The name of the operation, with or without a container to put the result into. -/
def name (contained : Bool) : Request → String
  | .into => if contained then "into_effects" else "into"
  | .tryInto => if contained then "try_into_effects" else "try_into"

end Request

/-- How registries, given by name, answer requests about a value, a target and a container, if there is one. -/
abbrev Answerer := String → Request → Value → Value → Option Value → Except Failure Value

/-- The answers of the registries of a world. -/
def World.answer (w : World) (call : Caller) : Answerer
  | registry, .into, v, target, none => w.into call (w.registry registry) v target
  | registry, .tryInto, v, target, none => w.tryInto call (w.registry registry) v target
  | registry, .into, v, target, some c => w.intoEffects call (w.registry registry) v target c
  | registry, .tryInto, v, target, some c => w.tryIntoEffects call (w.registry registry) v target c

end UnionBridge
