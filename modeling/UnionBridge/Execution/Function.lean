import UnionBridge.Execution.Fields

/-! Running the functions of a module. -/
namespace UnionBridge

namespace ArmBody

/-- The candidates one after the other; the first that accepts the value gives the result. -/
def firstAccepted (container : Option DottedName) (s : Scope) : List Attempt → Action (Option Value)
  | [] => return none
  | a :: rest => do
    match ← a.runTry container s with
    | some v => return some v
    | none => firstAccepted container s rest

variable (c : Conversion) (s : Scope)

/-- What a case does once it is recognised. -/
def run (case : String) : ArmBody → Action Value
  | .direct a => a.runDirect c.container s
  | .firstFit attempts => do
    match ← firstAccepted c.container s attempts with
    | some v => return v
    | none =>
      let error ← s.helper "ExhaustedCandidatesError"
      let v ← s.fetch Conversion.parameter
      s.raiseBy error [v, .text c.dest, .text s!"{c.source}.{case}", .tuple (attempts.map fun a => .text a.label)]

end ArmBody

namespace Scope

/-- Says that a value is of none of the unions it could be of. -/
def raiseForeign (s : Scope) (parameter unions : String) : Action Value := do
  let error ← s.helper "not_a_variant"
  s.raiseBy error [← s.fetch parameter, .text unions]

end Scope

namespace Conversion

variable (c : Conversion) (s : Scope)

/-- The arms in order; the first whose case the value is of decides. -/
def runArms : List Arm → Action Value
  | [] => s.raiseForeign parameter c.source.text
  | arm :: rest => do
    if ← s.isInstance parameter (c.source.child arm.case) then arm.body.run c s arm.case else runArms rest

def body : Action Value := c.runArms s c.arms

end Conversion

namespace Dispatcher

variable (d : Dispatcher) (s : Scope)

/-- The sources in order; the first that the value is of decides. -/
def runRoutes : List (DottedName × String) → Action Value
  | [] => s.raiseForeign parameter d.sourcesText
  | (source, function) :: rest => do
    if ← s.isInstance parameter source then
      let f ← s.fetch function
      s.call f (.of [← s.fetch parameter])
    else runRoutes rest

def body : Action Value := d.runRoutes s d.routes

end Dispatcher

namespace Registration

/-- The name of the parameter of registrars. -/
def parameter : String := "registry"

/-- What a registration registers: a source, a target and a function. -/
def evaluate (r : Registration) (s : Scope) : Action (Value × Value × Value) := do
  let source ← s.fetchPath r.source
  let target ← s.fetch r.dest
  let f ← s.fetch r.function
  return (source, target, f)

/-- Registering with something that is no registry: whatever it has under that name is called. -/
def body (s : Scope) : List Registration → Action Value
  | [] => return .none
  | r :: rest => do
    let operation ← s.world.member (← s.fetch parameter) "register"
    let (source, target, f) ← r.evaluate s
    let _ ← s.call operation (.of [source, target, f])
    body s rest

end Registration

namespace FunctionRef

/-- The module, the variables and the body of a function that a module defines, with its parameter first among the
variables. -/
def definition? : FunctionRef → Option (Nat × List String × String × (Scope → Action Value))
  | .builtin _ => none
  | .conversion home c => some (home, c.ownNames, Conversion.parameter, c.body)
  | .dispatcher home d => some (home, d.ownNames, Dispatcher.parameter, d.body)
  | .registrar home rs => some (home, [Registration.parameter], Registration.parameter, fun s => Registration.body s rs)

end FunctionRef

namespace World

variable (w : World)

/-- Calls anything, given how the functions of modules run. -/
def callBy (run : FunctionRef → Supplied → Except Failure Value) : Caller := fun f s =>
  match f with
  | .cls c => w.construct c s
  | .function (.builtin f) => w.builtinCall f s
  | .function f => run f s
  | .intrinsic i => w.react i s
  | _ =>
    match w.override? f.classOf "__call__" with
    | some id => w.instantiate id s
    | none => Failure.typeError s!"'{w.typeName f}' object is not callable"

/-- Runs a function of a module; its calls nest at most `depth` deep. -/
def runWithin : (depth : Nat) → FunctionRef → Supplied → Except Failure Value
  | 0, _, _ => .error (.error .recursion "maximum recursion depth exceeded")
  | depth + 1, f, supplied =>
    match f.definition? with
    | none => .ok .none
    | some (home, own, parameter, body) => do
      let call := w.callBy (runWithin depth)
      let s : Scope := ⟨w, home, call, w.answer call, own⟩
      let locals ← Parameters.bind f.name 0 (Parameters.required [parameter]) supplied
      ((body s).run.run ⟨locals⟩).1

/-- Calls anything. -/
def callWithin (depth : Nat) : Caller := w.callBy (w.runWithin depth)

/-- How deep calls may nest. Each level of a value takes a few calls: a dispatcher, the conversion it
chooses, and what a converter calls in turn. -/
def depthFor (values : List Value) : Nat := 4 * (Value.sizeList values + 8)

def call : Caller := fun f s => w.callWithin (depthFor (s.positional ++ s.keyword.map Prod.snd)) f s

end World

end UnionBridge
