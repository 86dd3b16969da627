import UnionBridge.Mapping.OfUnion
import UnionBridge.Mapping.Plan

/-! Checking a plan against the sources that its schema declares: claimed cases exist, destination fields can be read,
and every case of a source has a candidate. Sources from elsewhere are not checked. -/
namespace UnionBridge

/-- Why a destination variant cannot be read from a source variant. -/
inductive Unreadable
  | notNamed (field : String)
  | noField (field : String)
  | notPositional (index : Nat)
  | tooFew (present needed : Nat)

def Unreadable.message : Unreadable → String
  | .notNamed field => s!"field '{field}' needs a source variant with named fields"
  | .noField field => s!"source variant has no field '{field}'"
  | .notPositional index => s!"positional field {index} needs a source variant with positional fields"
  | .tooFew present needed => s!"source variant has {present} positional field(s), need at least {needed}"

namespace Body

/-- What keeps one destination field from being read. -/
def unreadable? (source : Body) (f : Field) : Option Unreadable :=
  match f.name with
  | some name =>
    if !source.isNamed then some (.notNamed name)
    else if source.fields.all fun s => s.name ≠ some name then some (.noField name)
    else none
  | none =>
    if !source.isPositional then some (.notPositional f.index)
    else if f.index ≥ source.fields.length then some (.tooFew source.fields.length (f.index + 1))
    else none

end Body

namespace Plan

def unknownCase (p : Plan) (decl : Union) (source : DottedName) (case : String) (t : Target) : Diagnostic where
  message := s!"'{p.mapping.variantPath t}' maps from '{source}.{case}', but '{source}' has no such case"
  code := some Fault.unknownCase.code
  phase := some "check"
  span := t.span
  notes := [s!"cases of '{source}': " ++ Union.listedOrNone (decl.variants.map (·.name))]

def unreadableFields (p : Plan) (source : DottedName) (case : String) (t : Target) (why : Unreadable) : Diagnostic where
  message := s!"cannot convert '{source}.{case}' into '{p.mapping.variantPath t}': {why.message}"
  code := some Fault.fieldShape.code
  phase := some "check"
  span := t.span

def uncovered (p : Plan) (source : DottedName) (cases : List String) : Diagnostic where
  message := s!"conversion from '{source}' into '{p.dest}' does not cover: " ++ ", ".intercalate cases
  code := some Fault.nonExhaustive.code
  phase := some "check"
  span := p.mapping.span
  notes := ["add @from_case directives or same-named variants for the missing cases"]

/-- The faults of one claimed case. -/
def caseFaults (p : Plan) (decl : Union) (source : DottedName) (case : String) (candidates : List Candidate) :
    List Diagnostic :=
  match decl.variant? case with
  | none => (candidates.map (·.target)).eraseDups.map (p.unknownCase decl source case)
  | some v =>
    candidates.filterMap fun c =>
      (c.target.fields.findSome? v.body.unreadable?).map (p.unreadableFields source case c.target)

/-- The declared cases without a candidate. -/
def missingCases (decl : Union) (byCase : Table String (List Candidate)) : List String :=
  (decl.variants.map (·.name)).filter fun name => !byCase.contains name

def sourceFaults (p : Plan) (decl : Union) (source : DottedName) (byCase : Table String (List Candidate)) :
    List Diagnostic :=
  byCase.entries.flatMap (fun (case, candidates) => p.caseFaults decl source case candidates) ++
    match missingCases decl byCase with
    | [] => []
    | cases => [p.uncovered source cases]

/-- Everything that is wrong with a plan. -/
def faults (p : Plan) (s : Schema) : List Diagnostic :=
  p.table.entries.flatMap fun (source, byCase) =>
    match s.declared? source with
    | none => []
    | some decl => p.sourceFaults decl source byCase

end Plan

end UnionBridge
