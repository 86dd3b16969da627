import UnionBridge.World.Attach

/-! The order in which a class and the classes above it are searched: every class before the classes above it, and bases
in the order in which they are given. -/
namespace UnionBridge.Linearize

variable {α : Type} [DecidableEq α]

/-- The first head that stands in no list behind its head. -/
def nextHead? (lists : List (List α)) : Option α :=
  (lists.filterMap List.head?).find? fun a => !lists.any fun l => l.tail.contains a

def dropHead (a : α) (l : List α) : List α := if l.head? = some a then l.tail else l

/-- Merges lists into one that keeps the order of each. If that fails, the heads that block each other. -/
def merge : (steps : Nat) → List (List α) → Except (List α) (List α)
  | 0, _ => .ok []
  | steps + 1, lists =>
    let rest := lists.filter (!·.isEmpty)
    if rest.isEmpty then .ok []
    else
      match nextHead? rest with
      | some a => (merge steps (rest.map (dropHead a))).map (a :: ·)
      | none => .error (rest.filterMap List.head?).eraseDups

/-- One step for each element is enough. -/
def mergeAll (lists : List (List α)) : Except (List α) (List α) := merge (lists.flatten.length + 1) lists

end UnionBridge.Linearize

namespace UnionBridge.World

variable (w : World)

/-- The first class that stands again further on. -/
def repeated? : List ClassRef → Option ClassRef
  | [] => none
  | c :: rest => if rest.contains c then some c else repeated? rest

/-- The chain of a new class under its bases; without a base that is the class of all objects. -/
def chainAbove (bases : List ClassRef) : Except Failure (List ClassRef) :=
  let bases := if bases.isEmpty then [.builtin .object] else bases
  match repeated? bases with
  | some c => Failure.typeError s!"duplicate base class {w.className c}"
  | none =>
    match Linearize.mergeAll (bases.map w.chain ++ [bases]) with
    | .ok chain => .ok chain
    | .error heads =>
      let names := ", ".intercalate (heads.map w.className)
      Failure.typeError s!"Cannot create a consistent method resolution\norder (MRO) for bases {names}"

/-- A name with a place in every instance of a class. -/
def placeOf (cls name : String) : Value :=
  .intrinsic { cls := "getset_descriptor", text := s!"<attribute '{name}' of '{cls}' objects>" }

/-- What a class has besides what its body gives it: places for attributes, unless the body says that there are none or a
class above has them, and a text about itself, which is missing at first. -/
def completed (name : String) (above : List ClassRef) (attributes : Table String Value) : Table String Value :=
  let hasPlaces := above.any fun c => (w.class? c).any (·.attributes.contains "__dict__")
  let places := if hasPlaces || attributes.contains "__slots__" then [] else ["__dict__", "__weakref__"]
  let withPlaces := attributes.insertAll (places.map fun p => (p, placeOf name p))
  if withPlaces.contains "__doc__" then withPlaces else withPlaces.insert "__doc__" .none

/-- Declares a class. -/
def declareClass (name : String) (bases : List ClassRef) (attributes : Table String Value)
    (fields : Option (List Parameter)) : Except Failure (Nat × World) := do
  if hasNull name then throw nullInName
  let above ← w.chainAbove bases
  let attributes := w.completed name above attributes
  let bases := if bases.isEmpty then [.builtin .object] else bases
  return w.addClass fun self => ⟨name, name, name, bases, self :: above, attributes, fields⟩

end UnionBridge.World
