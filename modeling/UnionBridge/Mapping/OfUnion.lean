import UnionBridge.Diagnostic
import UnionBridge.Mapping.Model

/-! Reading the directives of a destination union. Every mistake is reported, in source order. -/
namespace UnionBridge

def fromUnion : String := "from_union"

def fromCase : String := "from_case"

def effectContainer : String := "effect_container"

/-- A mistake in the directives of one union. -/
inductive DirectiveFault
  | caseOnUnion (d : Directive)
  | unionOnVariant (v : Variant) (d : Directive)
  | unknown (d : Directive)
  | option (key : DottedName) (a : Argument)
  | noSource
  | dottedCase (a : Argument)
  | undeclaredSource (v : Variant) (key : DottedName)

namespace DirectiveFault

def fault : DirectiveFault → Fault
  | .caseOnUnion _ | .unionOnVariant _ _ => .misplacedDirective
  | .unknown _ => .unknownDirective
  | .option _ _ => .unknownOption
  | .noSource => .missingSource
  | .dottedCase _ => .badSyntax
  | .undeclaredSource _ _ => .unknownSource

def message (u : Union) : DirectiveFault → String
  | .caseOnUnion _ => s!"@{fromCase} belongs on a variant, not on union '{u.name}'"
  | .unionOnVariant v _ => s!"@{fromUnion} belongs on the union, not on variant '{v.name}'"
  | .unknown d => s!"unknown directive '@{d.name}' (expected @{fromUnion} or @{fromCase})"
  | .option key _ => s!"@{fromUnion} only accepts source unions and {effectContainer} = Container, got '{key}'"
  | .noSource => s!"union '{u.name}' needs @{fromUnion}(Source, ...) naming at least one source union"
  | .dottedCase a => s!"expected a case name in @{fromCase}, got '{a.value}' (write Source = Case)"
  | .undeclaredSource v key => s!"variant '{v.name}' maps from '{key}', which is not a source of '{u.name}'"

def place (u : Union) : DirectiveFault → Place
  | .caseOnUnion d | .unionOnVariant _ d | .unknown d => d.place
  | .option _ a | .dottedCase a => a.place
  | .noSource => u.place
  | .undeclaredSource v _ => v.place

end DirectiveFault

namespace Union

/-- The arguments of the directives of a name, in order. -/
def argumentsOf (name : String) (ds : List Directive) : List Argument :=
  (ds.filter (·.name = name)).flatMap (·.args)

/-- The source unions, each once, in the order in which they are first written. -/
def sources (u : Union) : List DottedName :=
  ((argumentsOf fromUnion u.directives).filterMap fun a =>
    if a.key.isNone then some a.value else none).eraseDups

/-- The effect container; the last one written holds. -/
def container? (u : Union) : Option DottedName :=
  ((argumentsOf fromUnion u.directives).filterMap fun a =>
    if a.key = some (.ofName effectContainer) then some a.value else none).getLast?

def optionFault? (a : Argument) : Option DirectiveFault :=
  match a.key with
  | none => none
  | some key => if key = .ofName effectContainer then none else some (.option key a)

/-- The faults of a directive of the union itself. -/
def headFaults (d : Directive) : List DirectiveFault :=
  if d.name = fromCase then [.caseOnUnion d]
  else if d.name = fromUnion then d.args.filterMap optionFault?
  else [.unknown d]

/-- The claim that an argument of a variant makes. -/
def claim? (sources : List DottedName) (v : Variant) (a : Argument) : Except DirectiveFault (SourceRef × String) :=
  match a.value.simple?, a.key with
  | none, _ => .error (.dottedCase a)
  | some case, none => .ok (.every, case)
  | some case, some key => if sources.contains key then .ok (.one key, case) else .error (.undeclaredSource v key)

/-- The faults of a directive of a variant. -/
def variantFaults (sources : List DottedName) (v : Variant) (d : Directive) : List DirectiveFault :=
  if d.name = fromUnion then [.unionOnVariant v d]
  else if d.name = fromCase then
    d.args.filterMap fun a =>
      match claim? sources v a with
      | .error f => some f
      | .ok _ => none
  else [.unknown d]

/-- All faults in the directives of a union. -/
def directiveFaults (u : Union) : List DirectiveFault :=
  u.directives.flatMap headFaults ++ (if u.sources.isEmpty then [.noSource] else []) ++
    u.variants.flatMap fun v => v.directives.flatMap (variantFaults u.sources v)

/-- Names with commas between them; a pair of parentheses says that there are none. -/
def listedOrNone (names : List String) : String :=
  if names.isEmpty then "(none)" else ", ".intercalate names

def faultNotes (u : Union) : DirectiveFault → List String
  | .undeclaredSource _ _ => ["declared sources: " ++ listedOrNone (u.sources.map DottedName.text)]
  | _ => []

def faultDiagnostic (u : Union) (file : Option String) (f : DirectiveFault) : Diagnostic where
  message := f.message u
  code := some f.fault.code
  phase := some "mapping"
  span := Span.ofPlace (f.place u) file
  notes := u.faultNotes f

/-- The claims of one directive. -/
def directiveClaims (sources : List DottedName) (v : Variant) (d : Directive) : Claims :=
  if d.name = fromCase then
    Mergeable.mergeAll (d.args.filterMap fun a =>
      match claim? sources v a with
      | .ok (ref, case) => some (Mergeable.single ref [case])
      | .error _ => none)
  else ∅

/-- The claims of a variant. One that claims nothing accepts the case of its own name from every source. -/
def variantClaims (sources : List DottedName) (v : Variant) : Claims :=
  let written : Claims := Mergeable.mergeAll (v.directives.map (directiveClaims sources v))
  if written.isEmpty then Mergeable.single .every [v.name] else written

def targets (u : Union) (file : Option String) : List Target :=
  u.variants.mapIdx fun i v => ⟨v.name, v.body, i, Span.ofPlace v.place file⟩

end Union

namespace Mapping

/-- The mapping of a destination union, or everything that is wrong with its directives. -/
def ofUnion (u : Union) (file : Option String) : Except (List Diagnostic) Mapping :=
  match u.directiveFaults with
  | [] =>
    let targets := u.targets file
    .ok {
      dest := u.name
      sources := u.sources
      container := u.container?
      targets
      claims := targets.zip (u.variants.map (Union.variantClaims u.sources))
      span := Span.ofPlace u.place file }
  | faults => .error (faults.map (u.faultDiagnostic file))

end Mapping

end UnionBridge
