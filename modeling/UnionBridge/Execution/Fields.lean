import UnionBridge.Execution.Scope
import UnionBridge.Module.Variables

/-! Converting the fields of a value and constructing the result. -/
namespace UnionBridge

namespace FieldStep

variable (container : Option DottedName) (f : FieldStep) (s : Scope)

/-- Hands the attribute of the source value and the type of the field to the registry of the module. -/
def ask (request : Request) : Action Value := do
  let owner ← s.fetch "_registry"
  let operation ← match owner with
    | .registry _ => pure Value.none
    | _ => s.world.member owner (request.name container.isSome)
  let v ← s.world.member (← s.fetch Conversion.parameter) f.attr
  let target ← s.fetchPath f.type
  let c ← container.mapM s.fetchPath
  match owner with
  | .registry name => s.answer name request v target c
  | _ => s.call operation (.of ([v, target] ++ c.toList))

/-- Takes a container apart. -/
def unpack (c : Value) : Action Unit := do
  let (v, effects) ← s.world.pair (← s.world.invoke s.call c "into_value_and_effects" [])
  Scope.assign (f.valueSlot container) v
  Scope.assign f.effectsSlot effects

/-- A conversion that has to succeed. -/
def convert : Action Unit := do
  let result ← f.ask container s .into
  match container with
  | some _ => f.unpack container s result
  | none => Scope.assign f.slot result

/-- A conversion that is attempted. -/
def attempt : Action Unit := do
  Scope.assign f.slot (← f.ask container s .tryInto)

/-- Takes apart what an attempt left, if there is a container. -/
def settle : Action Unit := do
  match container with
  | some _ => f.unpack container s (← s.fetch f.slot)
  | none => pure ()

end FieldStep

namespace Attempt

variable (container : Option DottedName) (a : Attempt) (s : Scope)

/-- The values of the fields as the constructor receives them. -/
def supplied : Action Supplied := do
  let values ← a.steps.mapM fun f => s.fetch (f.valueSlot container)
  match a.passing with
  | .byPosition => return ⟨values, []⟩
  | .byKeyword => return ⟨[], (a.steps.map (·.attr)).zip values⟩

/-- The result of the candidate. -/
def construct : Action Value := do
  let constructor ← s.fetchPath a.constructor
  s.call constructor (← a.supplied container s)

/-- The effects of all fields, in their order. -/
def effects : Action (List Value) := do
  let parts ← a.steps.mapM fun f => do s.world.spread (← s.fetch f.effectsSlot)
  return parts.flatten

/-- The result of the candidate, in a container if there is one. -/
def finish : Action Value := do
  let v ← a.construct container s
  match container with
  | none => return v
  | some c =>
    Scope.assign resultSlot v
    let compose ← s.world.member (← s.fetchPath c) "compose_from"
    let v ← s.fetch resultSlot
    s.call compose (.of [v, .list (← a.effects s)])

/-- A candidate that has to succeed. -/
def runDirect : Action Value := do
  a.steps.forM (·.convert container s)
  a.finish container s

/-- A candidate that may fail; then there is no result. -/
def runTry : Action (Option Value) := do
  let accepted ← tryCatch (do a.steps.forM (·.attempt container s); return true) fun f => do
    if ← s.catches f then return false else throw f
  if accepted then
    a.steps.forM (·.settle container s)
    some <$> a.finish container s
  else return none

end Attempt

end UnionBridge
