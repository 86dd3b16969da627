import UnionBridge.Diagnostic
import UnionBridge.Mapping.Model

/-! Candidates: for each source and each of its cases, the destination variants that the case may become, in
declaration order. -/
namespace UnionBridge

/-- A source case may become a destination variant. -/
structure Candidate where
  case : String
  target : Target
  deriving DecidableEq, Repr

abbrev CandidateTable := Table DottedName (Table String (List Candidate))

/-- A case with several candidates is settled by trying them in turn. -/
def isFallible (candidates : List Candidate) : Bool := candidates.length > 1

namespace Mapping

/-- The sources that a claim is about, among those of the mapping. -/
def claimed (m : Mapping) : SourceRef → List DottedName
  | .every => m.sources
  | .one s => [s]

/-- The candidates that one claim gives, by case. -/
def byCase (target : Target) (cases : List String) : Table String (List Candidate) :=
  Mergeable.mergeAll (cases.map fun case => Mergeable.single case [⟨case, target⟩])

/-- The candidates that one variant gives: a table for every source that one of its claims is about. -/
def contributions (m : Mapping) (target : Target) (claims : Claims) : List CandidateTable :=
  claims.entries.flatMap fun (ref, cases) =>
    (m.claimed ref).map fun source => Mergeable.single source (byCase target cases)

/-- Every source with no candidates yet, in the order of declaration. -/
def seed (m : Mapping) : CandidateTable := ⟨m.sources.map fun s => (s, ∅)⟩

/-- All candidates in the order of their claims. -/
def gathered (m : Mapping) : CandidateTable :=
  (m.claims.flatMap fun (target, claims) => m.contributions target claims).foldl Mergeable.merge m.seed

/-- Candidates in the order in which they are tried. -/
def inOrder (candidates : List Candidate) : List Candidate :=
  candidates.mergeSort fun a b => a.target.index ≤ b.target.index

def candidateTable (m : Mapping) : CandidateTable := m.gathered.mapValues (·.mapValues inOrder)

/-- A variant without fields that would have to be tried, where it happens, and the other candidates there. -/
structure Ambiguity where
  target : Target
  rivals : List Target
  source : DottedName
  case : String

/-- The fieldless candidates of one case that are not reported yet. -/
def caseAmbiguities (source : DottedName) (case : String) (candidates : List Candidate) :
    (reported : List Target) → (index : Nat) → List Candidate → List Ambiguity × List Target
  | reported, _, [] => ([], reported)
  | reported, i, c :: rest =>
    if c.target.hasFields || reported.contains c.target then
      caseAmbiguities source case candidates reported (i + 1) rest
    else
      let rivals := (candidates.eraseIdx i).map (·.target)
      let (more, reported) := caseAmbiguities source case candidates (c.target :: reported) (i + 1) rest
      (⟨c.target, rivals, source, case⟩ :: more, reported)

/-- Every candidate list of a table with the source and the case it belongs to. -/
def cells (t : CandidateTable) : List (DottedName × String × List Candidate) :=
  t.entries.flatMap fun (source, byCase) => byCase.entries.map fun (case, candidates) => (source, case, candidates)

/-- The ambiguities of a table; no variant is reported twice. -/
def ambiguities (t : CandidateTable) : List Ambiguity :=
  ((cells t).foldl (fun (found, reported) (source, case, candidates) =>
    if isFallible candidates then
      let (more, reported) := caseAmbiguities source case candidates reported 0 candidates
      (found ++ more, reported)
    else (found, reported)) (([], []) : List Ambiguity × List Target)).1

/-- A destination variant as messages call it. -/
def variantPath (m : Mapping) (t : Target) : String := s!"{m.dest}.{t.name}"

def ambiguityDiagnostic (m : Mapping) (a : Ambiguity) : Diagnostic where
  message :=
    let rivals := ", ".intercalate (a.rivals.map m.variantPath)
    s!"variant '{m.variantPath a.target}' has no fields but competes with {rivals} for '{a.source}.{a.case}'; " ++
      "there is nothing to attempt a conversion on"
  code := some Fault.ambiguousUnit.code
  phase := some "resolve"
  span := a.target.span

/-- The candidate table of a mapping, or the variants without fields that would have to be tried. -/
def resolve (m : Mapping) : Except (List Diagnostic) CandidateTable :=
  let t := m.candidateTable
  match ambiguities t with
  | [] => .ok t
  | found => .error (found.map m.ambiguityDiagnostic)

end Mapping

end UnionBridge
