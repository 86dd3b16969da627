import UnionBridge.World.Member
import UnionBridge.World.Operator

/-! Variants of unions. A variant is a class that its union has as an attribute under the name of the case. -/
namespace UnionBridge.World

variable (w : World)

/-- Whether a text holds the character that no name can hold. -/
def hasNull (s : String) : Bool := s.toList.contains '\x00'

def nullInName : Failure := .error .valueError "type name must not contain null characters"

/-- The attribute that lists the names of the variants. -/
def variantList : String := "__variants__"

/-- Why a class does not become an attribute of a class under a name. -/
def refusal? (owner name : String) : Option Failure :=
  match name with
  | "__class__" =>
    some (.error .typeError "__class__ assignment only supported for mutable types or ModuleType subclasses")
  | "__name__" | "__qualname__" =>
    some (.error .typeError s!"can only assign string to {owner}.{name}, not 'type'")
  | "__bases__" => some (.error .typeError s!"can only assign tuple to {owner}.__bases__, not type")
  | "__mro__" | "__base__" | "__basicsize__" | "__itemsize__" | "__flags__" | "__weakrefoffset__" | "__dictoffset__" =>
    some (.error .attributeError "readonly attribute")
  | "__dict__" | "__text_signature__" =>
    some (.error .attributeError s!"attribute '{name}' of 'type' objects is not writable")
  | _ => none

def setAttribute (id : Nat) (name : String) (v : Value) : World :=
  w.setClass id fun c => { c with attributes := c.attributes.insert name v }

/-- Renames a class after its place in a union. -/
def rename (variant : Nat) (union : ClassRef) (name : String) : World :=
  w.setClass variant fun c => { c with name, qualname := s!"{w.qualifiedName union}.{name}" }

/-- The variants that a union names, or that the nearest class above it names. -/
def variantNames (union : Value) : Except Failure (List Value) :=
  match w.member? union variantList with
  | none => .ok []
  | some v => w.items v

/-- Gives a union a variant. What was done before a failure stays. -/
def attachVariant (union variant : Nat) (name : String) : World × Except Failure Unit :=
  if hasNull name then (w, .error nullInName) else
  let w := w.rename variant (.declared union) name
  match refusal? (w.className (.declared union)) name with
  | some f => (w, .error f)
  | none =>
    let w := w.setAttribute union name (.cls (.declared variant))
    match w.spread ((w.member? (.cls (.declared union)) variantList).getD (.tuple [])) with
    | .ok names => (w.setAttribute union variantList (.tuple (names ++ [.text name])), .ok ())
    | .error f => (w, .error f)

/-- The attributes of a union under the names of its variants. -/
def variantsOf (union : Value) : Except Failure (List Value) := do
  (← w.variantNames union).mapM fun name => do w.member union (← w.textOf name)

end UnionBridge.World
