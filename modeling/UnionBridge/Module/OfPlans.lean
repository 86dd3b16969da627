import UnionBridge.Mapping.Plan
import UnionBridge.Module.Basic

/-! The module of a schema and the plans of its destinations. All choices were made in the plans; here each gets its
place in the module. -/
namespace UnionBridge

namespace CaseClass

def ofVariant (u : Union) (v : Variant) : CaseClass :=
  ⟨u.name, v.name, v.body.fields.map fun f => (f.attr, f.type)⟩

end CaseClass

def UnionClass.ofUnion (u : Union) : UnionClass := ⟨u.name, u.variants.map (CaseClass.ofVariant u)⟩

def FieldStep.ofField (f : Field) : FieldStep := ⟨Naming.slot f.key, f.attr, f.type⟩

def Attempt.ofTarget (dest : String) (t : Target) : Attempt where
  dest
  case := t.name
  passing := if t.body.isNamed then .byKeyword else .byPosition
  steps := t.fields.map FieldStep.ofField

def ArmBody.ofCandidates (dest : String) (candidates : List Candidate) : ArmBody :=
  let attempts := candidates.map fun c => Attempt.ofTarget dest c.target
  match attempts with
  | [a] => .direct a
  | _ => .firstFit attempts

namespace Conversion

/-- The cases of a source in the order of its declaration, then those that it does not declare in the order of their
claims. -/
def caseOrder (decl : Option Union) (byCase : Table String (List Candidate)) : List String :=
  match decl with
  | none => byCase.keys
  | some u =>
    let declared := (u.variants.map (·.name)).filter byCase.contains
    declared ++ byCase.keys.filter fun case => !declared.contains case

def ofCases (m : Mapping) (decl : Option Union) (name : String) (source : DottedName)
    (byCase : Table String (List Candidate)) : Conversion where
  name
  source
  dest := m.dest
  container := m.container
  arms := (caseOrder decl byCase).filterMap fun case =>
    (byCase.get? case).map fun candidates => ⟨case, .ofCandidates m.dest candidates⟩

/-- The conversions of a plan, one for each source, each under a name that no earlier function has; and all the names
used by then. -/
def ofSources (s : Schema) (m : Mapping) : (used : List String) →
    List (DottedName × Table String (List Candidate)) → List Conversion × List String
  | used, [] => ([], used)
  | used, (source, byCase) :: rest =>
    let name := Naming.fresh (Naming.functionName m.dest source.text) used
    let (more, used) := ofSources s m (name :: used) rest
    (ofCases m (s.declared? source) name source byCase :: more, used)

end Conversion

namespace Bridge

/-- The bridges of some plans, with function names that differ throughout. -/
def ofPlans (s : Schema) : (used : List String) → List Plan → List Bridge
  | _, [] => []
  | used, p :: rest =>
    let (conversions, used) := Conversion.ofSources s p.mapping used p.table.entries
    ⟨p.dest, p.mapping.container, conversions⟩ :: ofPlans s used rest

end Bridge

namespace Module

def defaultDocstring : String := "Union types and conversions generated by casemap."

/-- The module of a schema. Neither an empty file name nor an empty docstring counts as given. -/
def ofPlans (s : Schema) (plans : List Plan) (file docstring : Option String) : Module where
  origin := file.filter (· ≠ "")
  docstring := (docstring.filter (· ≠ "")).getD defaultDocstring
  imports := s.imports
  unions := s.unions.map UnionClass.ofUnion
  bridges := Bridge.ofPlans s [] plans

end Module

end UnionBridge
