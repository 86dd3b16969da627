import UnionBridge.Module.Basic

/-! The variables of generated functions: the parameter, and every name that some line assigns. -/
namespace UnionBridge

/-- The parameter of conversion functions. -/
def Conversion.parameter : String := "src"

/-- The variable that holds a result before it goes into its container. -/
def Attempt.resultSlot : String := "value"

/-- The parameter of dispatchers. -/
def Dispatcher.parameter : String := "value"

namespace FieldStep

variable (container : Option DottedName) (f : FieldStep)

/-- What converting a field assigns where it has to succeed. -/
def directVariables : List String :=
  match container with
  | some _ => [f.valueSlot container, f.effectsSlot]
  | none => [f.slot]

/-- What converting a field assigns where it may fail. -/
def triedVariables : List String :=
  match container with
  | some _ => [f.slot, f.valueSlot container, f.effectsSlot]
  | none => [f.slot]

end FieldStep

namespace ArmBody

def assigned (container : Option DottedName) : ArmBody → List String
  | .direct a => a.steps.flatMap (·.directVariables container)
  | .firstFit attempts => attempts.flatMap fun a => a.steps.flatMap (·.triedVariables container)

end ArmBody

namespace Conversion

/-- Whether some line assigns the result before it goes into its container. -/
def holdsResult (c : Conversion) : Bool := c.container.isSome && c.arms.any fun a => !a.body.attempts.isEmpty

def ownNames (c : Conversion) : List String :=
  parameter :: ((if c.holdsResult then [Attempt.resultSlot] else []) ++
    c.arms.flatMap fun a => a.body.assigned c.container)

end Conversion

namespace Dispatcher

def ownNames (_ : Dispatcher) : List String := [parameter]

end Dispatcher

end UnionBridge
