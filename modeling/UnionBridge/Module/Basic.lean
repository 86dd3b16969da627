import UnionBridge.Schema.Basic
import UnionBridge.Module.Naming

/-! Generated modules: union classes with their variants, conversion functions, dispatchers and registrations. -/
namespace UnionBridge

/-- The class of one variant, with its attributes and their annotations. -/
structure CaseClass where
  union : String
  case : String
  fields : List (String × DottedName)
  deriving DecidableEq, Repr

def CaseClass.name (c : CaseClass) : String := Naming.className c.union c.case

structure UnionClass where
  name : String
  cases : List CaseClass
  deriving DecidableEq, Repr

/-- Reading one attribute of the source value and converting it to a type; the result goes to a local variable. -/
structure FieldStep where
  slot : String
  attr : String
  type : DottedName
  deriving DecidableEq, Repr

namespace FieldStep

/-- The variable that holds the value of a field in the end. -/
def valueSlot (f : FieldStep) : (container : Option DottedName) → String
  | some _ => s!"{f.slot}_value"
  | none => f.slot

/-- The variable that holds the effects of a field. -/
def effectsSlot (f : FieldStep) : String := s!"{f.slot}_effects"

end FieldStep

/-- How the fields of a result are passed to its constructor. -/
inductive Passing
  | byPosition
  | byKeyword
  deriving DecidableEq, Repr

/-- Converting all fields of one destination variant and constructing it. -/
structure Attempt where
  dest : String
  case : String
  passing : Passing
  steps : List FieldStep
  deriving DecidableEq, Repr

namespace Attempt

/-- The destination variant as messages call it. -/
def label (a : Attempt) : String := s!"{a.dest}.{a.case}"

/-- The path of the constructor. -/
def constructor (a : Attempt) : DottedName := ⟨a.dest, [a.case]⟩

end Attempt

/-- What happens to a source case: one conversion that has to succeed, or several that are tried in turn. -/
inductive ArmBody
  | direct (a : Attempt)
  | firstFit (attempts : List Attempt)
  deriving DecidableEq, Repr

namespace ArmBody

def attempts : ArmBody → List Attempt
  | .direct a => [a]
  | .firstFit attempts => attempts

end ArmBody

structure Arm where
  case : String
  body : ArmBody
  deriving DecidableEq, Repr

/-- The function that converts the values of one source union. -/
structure Conversion where
  name : String
  source : DottedName
  dest : String
  container : Option DottedName
  arms : List Arm
  deriving DecidableEq, Repr

/-- The function that converts the values of any source union of a destination. -/
structure Dispatcher where
  name : String
  dest : String
  routes : List (DottedName × String)
  deriving DecidableEq, Repr

namespace Dispatcher

/-- The sources as the message about a foreign value calls them; without a source it is the destination. -/
def sourcesText (d : Dispatcher) : String :=
  if d.routes.isEmpty then d.dest else " | ".intercalate (d.routes.map fun r => r.1.text)

end Dispatcher

/-- All that a module holds for one destination. -/
structure Bridge where
  dest : String
  container : Option DottedName
  conversions : List Conversion
  deriving DecidableEq, Repr

namespace Bridge

def dispatcher (b : Bridge) : Dispatcher where
  name := Naming.dispatcherName b.dest
  dest := b.dest
  routes := b.conversions.map fun c => (c.source, c.name)

end Bridge

/-- The registration of a conversion function under its source and destination. -/
structure Registration where
  source : DottedName
  dest : String
  function : String
  deriving DecidableEq, Repr

structure Module where
  /-- The schema file that the first line names. -/
  origin : Option String
  docstring : String
  imports : List Import
  unions : List UnionClass
  bridges : List Bridge
  deriving DecidableEq, Repr

namespace Module

/-- The version that generated modules name. -/
def version : String := "0.3.0"

/-- The first line. -/
def headerText (m : Module) : String :=
  let origin := (m.origin.map fun file => s!" from {file}").getD ""
  s!"# Generated by casemap {version}" ++ origin ++ ". Do not edit."

def conversions (m : Module) : List Conversion := m.bridges.flatMap (·.conversions)

def registrations (m : Module) : List Registration :=
  m.conversions.map fun c => ⟨c.source, c.dest, c.name⟩

/-- The function that registers all conversions of the module. -/
def registrar : String := "register_conversions"

/-- The names that the module offers. -/
def exported (m : Module) : List String :=
  m.unions.map (·.name) ++ m.conversions.map (·.name) ++ [registrar]

end Module

end UnionBridge
