import UnionBridge.Proofs.Planning
import UnionBridge.Proofs.Schema.RoundTrip

/-! Plans without places. Where the parts of a schema stand goes into spans, and spans go into messages only: everything
else about a plan is the same for schemas that differ in nothing but places. -/
namespace UnionBridge

open Mergeable

/-- The span of things without a place. -/
def Span.nowhere : Span := ofPlace default none

def Target.unplaced (t : Target) : Target := { t with span := .nowhere }

def Candidate.unplaced (c : Candidate) : Candidate := { c with target := c.target.unplaced }

def CandidateTable.unplaced (t : CandidateTable) : CandidateTable :=
  t.mapValues (Table.mapValues (List.map Candidate.unplaced))

def Mapping.unplaced (m : Mapping) : Mapping :=
  { m with targets := m.targets.map Target.unplaced, claims := m.claims.map fun e => (e.1.unplaced, e.2), span := .nowhere }

def Plan.unplaced (p : Plan) : Plan := ⟨p.mapping.unplaced, p.table.unplaced⟩

variable {s : Schema} {u : Union} {v : Variant} {d : Directive} {p q : Plan} {m : Mapping} {file : Option String}

/-! ### Directives -/

def DirectiveFault.unplaced : DirectiveFault → DirectiveFault
  | .caseOnUnion d => .caseOnUnion d.unplaced
  | .unionOnVariant v d => .unionOnVariant v.unplaced d.unplaced
  | .unknown d => .unknown d.unplaced
  | .option key a => .option key a.unplaced
  | .noSource => .noSource
  | .dottedCase a => .dottedCase a.unplaced
  | .undeclaredSource v key => .undeclaredSource v.unplaced key

namespace Union

theorem argumentsOf_unplaced (name : String) (ds : List Directive) :
    argumentsOf name (ds.map Directive.unplaced) = (argumentsOf name ds).map Argument.unplaced := by
  simp only [argumentsOf, List.filter_map, List.flatMap_map, List.map_flatMap]
  rfl

@[simp]
theorem sources_unplaced (u : Union) : u.unplaced.sources = u.sources := by
  simp only [sources, unplaced, argumentsOf_unplaced, List.filterMap_map]
  rfl

@[simp]
theorem container?_unplaced (u : Union) : u.unplaced.container? = u.container? := by
  simp only [container?, unplaced, argumentsOf_unplaced, List.filterMap_map]
  rfl

theorem shape_unplaced (u : Union) : u.unplaced.shape = u.shape := by
  simp [shape, unplaced, Variant.unplaced, Function.comp_def]

@[simp]
theorem isDestination_unplaced (u : Union) : u.unplaced.isDestination = u.isDestination := by
  simp [isDestination, unplaced, Variant.unplaced, Function.comp_def]

theorem targets_unplaced (u : Union) (file : Option String) :
    u.unplaced.targets none = (u.targets file).map Target.unplaced := by
  apply List.ext_getElem?
  intro i
  simp only [Mapping.getElem?_targets, List.getElem?_map, Option.map_map, unplaced]
  rfl

variable {sources : List DottedName}

/-- A claim can be read, wherever it stands, or is refused for the same reason. -/
theorem claim?_unplaced (v : Variant) (a : Argument) :
    claim? sources v.unplaced a.unplaced = (claim? sources v a).mapError DirectiveFault.unplaced := by
  simp only [claim?, Argument.unplaced]
  split
  · rfl
  · rfl
  · split <;> rfl

theorem directiveClaims_unplaced (v : Variant) (d : Directive) :
    directiveClaims sources v.unplaced d.unplaced = directiveClaims sources v d := by
  simp only [directiveClaims, Directive.unplaced, List.filterMap_map]
  refine if_congr Iff.rfl (congrArg mergeAll (List.filterMap_congr fun a _ => ?_)) rfl
  simp only [Function.comp_apply, claim?_unplaced]
  cases claim? sources v a <;> rfl

theorem variantClaims_unplaced (v : Variant) : variantClaims sources v.unplaced = variantClaims sources v := by
  have hwritten : v.unplaced.directives.map (directiveClaims sources v.unplaced) =
      v.directives.map (directiveClaims sources v) := by
    simp only [Variant.unplaced, List.map_map]
    exact List.map_congr_left fun d _ => directiveClaims_unplaced v d
  simp only [variantClaims, hwritten]
  rfl

theorem optionFault?_unplaced (a : Argument) :
    optionFault? a.unplaced = (optionFault? a).map DirectiveFault.unplaced := by
  obtain ⟨_ | key, value, place⟩ := a
  · rfl
  · simp only [optionFault?, Argument.unplaced]
    split <;> rfl

theorem headFaults_unplaced (d : Directive) : headFaults d.unplaced = (headFaults d).map DirectiveFault.unplaced := by
  have hoptions : d.unplaced.args.filterMap optionFault? =
      (d.args.filterMap optionFault?).map DirectiveFault.unplaced := by
    rw [Directive.unplaced, List.filterMap_map, List.map_filterMap]
    exact List.filterMap_congr fun a _ => optionFault?_unplaced a
  rw [headFaults, headFaults, apply_ite (List.map _), apply_ite (List.map _), ← hoptions]
  rfl

/-- The faults of the arguments of a directive for cases. -/
def argumentFaults (sources : List DottedName) (v : Variant) (as : List Argument) : List DirectiveFault :=
  as.filterMap fun a => match claim? sources v a with
    | .error f => some f
    | .ok _ => none

theorem argumentFaults_unplaced (v : Variant) (as : List Argument) :
    argumentFaults sources v.unplaced (as.map Argument.unplaced) =
      (argumentFaults sources v as).map DirectiveFault.unplaced := by
  rw [argumentFaults, argumentFaults, List.filterMap_map, List.map_filterMap]
  refine List.filterMap_congr fun a _ => ?_
  simp only [Function.comp_apply, claim?_unplaced]
  cases claim? sources v a <;> rfl

theorem variantFaults_unplaced (v : Variant) (d : Directive) :
    variantFaults sources v.unplaced d.unplaced = (variantFaults sources v d).map DirectiveFault.unplaced := by
  have hdef (v : Variant) (d : Directive) : variantFaults sources v d =
      if d.name = fromUnion then [.unionOnVariant v d]
      else if d.name = fromCase then argumentFaults sources v d.args else [.unknown d] := rfl
  rw [hdef, hdef, apply_ite (List.map _), apply_ite (List.map _), ← argumentFaults_unplaced]
  rfl

/-- The same mistakes are found in the same order. -/
theorem directiveFaults_unplaced (u : Union) :
    u.unplaced.directiveFaults = u.directiveFaults.map DirectiveFault.unplaced := by
  simp only [directiveFaults, sources_unplaced, List.map_append, List.map_flatMap]
  congr 1
  · congr 1
    · simp only [unplaced, List.flatMap_map, headFaults_unplaced]
    · split <;> rfl
  · simp only [unplaced, Variant.unplaced, List.flatMap_map]
    refine List.flatMap_congr fun v _ => ?_
    simp only [← variantFaults_unplaced]
    rfl

end Union

/-! ### Candidates -/

theorem hom_unplaced : Hom CandidateTable.unplaced := (hom_map Candidate.unplaced).mapValues.mapValues

namespace Mapping

theorem described_unplaced (u : Union) (file : Option String) :
    (described u file).unplaced = described u.unplaced none := by
  have hclaims : u.unplaced.variants.map (Union.variantClaims u.sources) =
      u.variants.map (Union.variantClaims u.sources) := by
    rw [Union.unplaced, List.map_map]
    exact List.map_congr_left fun v _ => Union.variantClaims_unplaced v
  simp only [described, unplaced, u.targets_unplaced file, Union.sources_unplaced, Union.container?_unplaced, hclaims,
    List.zip_map_left]
  rfl

theorem byCase_unplaced (t : Target) (cases : List String) :
    (byCase t cases).mapValues (List.map Candidate.unplaced) = byCase t.unplaced cases := by
  rw [byCase, (hom_map Candidate.unplaced).mapValues.mergeAll, List.map_map]
  rfl

theorem contributions_unplaced (m : Mapping) (t : Target) (claims : Claims) :
    m.unplaced.contributions t.unplaced claims = (m.contributions t claims).map CandidateTable.unplaced := by
  simp only [contributions, List.map_flatMap, List.map_map, ← byCase_unplaced]
  refine List.flatMap_congr fun e _ => ?_
  cases e.1 <;> rfl

theorem gathered_unplaced (m : Mapping) : m.unplaced.gathered = m.gathered.unplaced := by
  have hseed : m.unplaced.seed = CandidateTable.unplaced m.seed := by
    simp only [seed, unplaced, CandidateTable.unplaced, Table.mapValues, List.map_map]
    rfl
  rw [gathered, gathered, hom_unplaced.foldl, List.map_flatMap, hseed]
  simp only [← contributions_unplaced, unplaced, List.flatMap_map]

theorem inOrder_unplaced (l : List Candidate) :
    inOrder (l.map Candidate.unplaced) = (inOrder l).map Candidate.unplaced :=
  (List.map_mergeSort (f := Candidate.unplaced) fun _ _ _ _ => rfl).symm

theorem candidateTable_unplaced (m : Mapping) : m.unplaced.candidateTable = m.candidateTable.unplaced := by
  simp only [candidateTable, gathered_unplaced, CandidateTable.unplaced, Table.mapValues, List.map_map,
    Function.comp_def, inOrder_unplaced]

theorem cells_unplaced (t : CandidateTable) :
    cells t.unplaced = (cells t).map fun e => (e.1, e.2.1, e.2.2.map Candidate.unplaced) := by
  simp only [cells, CandidateTable.unplaced, Table.mapValues, List.flatMap_map, List.map_flatMap, List.map_map]
  rfl

theorem clear_unplaced (t : CandidateTable) : Clear (cells t.unplaced) ↔ Clear (cells t) := by
  simp only [cells_unplaced, Clear, List.forall_mem_map, isFallible, List.length_map]
  rfl

end Mapping

/-! ### Plans -/

namespace Plan

variable {decl : Union} {S : DottedName} {case : String} {candidates : List Candidate}
  {byCase : Table String (List Candidate)}

theorem caseFaults_unplaced (p : Plan) (decl : Union) (S : DottedName) (case : String) (candidates : List Candidate) :
    p.unplaced.caseFaults decl S case (candidates.map Candidate.unplaced) = [] ↔
      p.caseFaults decl S case candidates = [] := by
  have hnil (ts : List Target) : ts.eraseDups = [] ↔ ts = [] := by
    simp [List.eq_nil_iff_forall_not_mem]
  simp only [caseFaults]
  cases decl.variant? case with
  | none => simp only [List.map_eq_nil_iff, hnil]
  | some v =>
    simp only [List.filterMap_map, List.filterMap_eq_nil_iff, Function.comp_apply, Option.map_eq_none_iff]
    rfl

theorem sourceFaults_unplaced (p : Plan) (decl : Union) (S : DottedName) (byCase : Table String (List Candidate)) :
    p.unplaced.sourceFaults decl S (byCase.mapValues (List.map Candidate.unplaced)) = [] ↔
      p.sourceFaults decl S byCase = [] := by
  have hmissing : missingCases decl (byCase.mapValues (List.map Candidate.unplaced)) = missingCases decl byCase := by
    simp only [missingCases, Table.contains, Table.get?_mapValues, Option.isSome_map]
  rw [sourceFaults, sourceFaults, hmissing, List.append_eq_nil_iff, List.append_eq_nil_iff]
  refine and_congr ?_ ?_
  · simp only [Table.mapValues, List.flatMap_eq_nil_iff, List.forall_mem_map, caseFaults_unplaced]
  · cases missingCases decl byCase <;> simp

/-- Whether a check finds anything does not depend on places. -/
theorem faults_unplaced (p : Plan) (s : Schema) : p.unplaced.faults s = [] ↔ p.faults s = [] := by
  have hentries : p.unplaced.table.entries =
      p.table.entries.map fun e => (e.1, e.2.mapValues (List.map Candidate.unplaced)) := rfl
  simp only [faults, hentries, List.flatMap_eq_nil_iff, List.forall_mem_map]
  refine forall₂_congr fun e _ => ?_
  cases s.declared? e.1 with
  | none => exact Iff.rfl
  | some decl => exact p.sourceFaults_unplaced decl e.1 e.2

end Plan

namespace Schema

theorem declared?_unplaced (s : Schema) (S : DottedName) :
    s.unplaced.declared? S = (s.declared? S).map Union.unplaced := by
  have hunion (name : String) : s.unplaced.union? name = (s.union? name).map Union.unplaced := by
    simp only [union?, unplaced, List.find?_map]
    rfl
  rw [declared?, declared?, Option.map_bind]
  exact congrArg (S.simple?.bind ·) (funext hunion)

theorem destinations_unplaced (s : Schema) : s.unplaced.destinations = s.destinations.map Union.unplaced := by
  simp only [destinations, unplaced, List.filter_map, Function.comp_def, Union.isDestination_unplaced]

theorem distinct_unplaced (s : Schema) : s.unplaced.Distinct ↔ s.Distinct := by
  have hunions : s.unplaced.unions.map (·.name) = s.unions.map (·.name) := by
    simp [unplaced, Union.unplaced, Function.comp_def]
  have hvariants (u : Union) : u.unplaced.variants.map (·.name) = u.variants.map (·.name) := by
    simp [Union.unplaced, Variant.unplaced, Function.comp_def]
  constructor
  · intro h
    refine ⟨hunions ▸ h.unions, fun u hu => ?_, fun u hu v hv => ?_⟩
    · exact hvariants u ▸ h.variants _ (List.mem_map_of_mem hu)
    · exact h.fields u.unplaced (List.mem_map_of_mem hu) v.unplaced (List.mem_map_of_mem hv)
  · intro h
    refine ⟨hunions ▸ h.unions, fun u' hu' => ?_, fun u' hu' v' hv' => ?_⟩
    · obtain ⟨u, hu, rfl⟩ := List.mem_map.mp hu'
      exact hvariants u ▸ h.variants u hu
    · obtain ⟨u, hu, rfl⟩ := List.mem_map.mp hu'
      obtain ⟨v, hv, rfl⟩ := List.mem_map.mp hv'
      exact h.fields u hu v hv

end Schema

namespace Plan

/-- A plan with the mapping and the table of a destination is a plan of it exactly if it is one without places. -/
theorem of_unplaced_iff (hm : p.mapping = Mapping.described u file) (ht : p.table = p.mapping.candidateTable) :
    p.unplaced.Of s.unplaced u.unplaced none ↔ p.Of s u file := by
  have hm' : p.unplaced.mapping = Mapping.described u.unplaced none := by
    rw [← Mapping.described_unplaced u file, ← hm]
    rfl
  have ht' : p.unplaced.table = p.unplaced.mapping.candidateTable :=
    (congrArg CandidateTable.unplaced ht).trans (Mapping.candidateTable_unplaced p.mapping).symm
  have hshapes (S : DottedName) : (s.unplaced.declared? S).map Union.shape = (s.declared? S).map Union.shape := by
    rw [Schema.declared?_unplaced, Option.map_map]
    simp only [Function.comp_def, Union.shape_unplaced]
  have hchecked : p.unplaced.faults s.unplaced = [] ↔ p.faults s = [] := by
    rw [Plan.faults_congr fun S _ => hshapes S, faults_unplaced]
  have hmapped : u.unplaced.directiveFaults = [] ↔ u.directiveFaults = [] := by
    rw [Union.directiveFaults_unplaced, List.map_eq_nil_iff]
  constructor
  · rintro ⟨hmapped', hresolved, hfaultless⟩
    exact ⟨Mapping.ofUnion_eq_ok_iff.mpr ⟨hmapped.mp (Mapping.ofUnion_eq_ok_iff.mp hmapped').1, hm⟩,
      Mapping.resolve_eq_ok_iff.mpr ⟨ht, (Mapping.clear_unplaced p.table).mp (Mapping.resolve_eq_ok_iff.mp hresolved).2⟩,
      hchecked.mp hfaultless⟩
  · rintro ⟨hmapped', hresolved, hfaultless⟩
    exact ⟨Mapping.ofUnion_eq_ok_iff.mpr ⟨hmapped.mpr (Mapping.ofUnion_eq_ok_iff.mp hmapped').1, hm'⟩,
      Mapping.resolve_eq_ok_iff.mpr ⟨ht', (Mapping.clear_unplaced p.table).mpr (Mapping.resolve_eq_ok_iff.mp hresolved).2⟩,
      hchecked.mpr hfaultless⟩

theorem Of.unplaced (h : p.Of s u file) : p.unplaced.Of s.unplaced u.unplaced none :=
  (of_unplaced_iff (Mapping.ofUnion_eq_ok_iff.mp h.mapped).2 h.table_eq).mpr h

/-- A plan without places comes from one for the places that there are. -/
theorem Of.exists_placed (h : q.Of s.unplaced u.unplaced none) (file : Option String) :
    ∃ p : Plan, p.Of s u file ∧ p.unplaced = q := by
  let p : Plan := ⟨Mapping.described u file, (Mapping.described u file).candidateTable⟩
  have hmapping : p.unplaced.mapping = q.mapping := by
    rw [(Mapping.ofUnion_eq_ok_iff.mp h.mapped).2]
    exact Mapping.described_unplaced u file
  have htable : p.unplaced.table = q.table := by
    rw [h.table_eq, ← hmapping]
    exact (Mapping.candidateTable_unplaced p.mapping).symm
  obtain rfl : p.unplaced = q := by
    cases q
    exact congr (congrArg Plan.mk hmapping) htable
  exact ⟨p, (of_unplaced_iff rfl rfl).mp h, rfl⟩

theorem forall₂_placed {us : List Union} {qs : List Plan}
    (h : List.Forall₂ (fun u (q : Plan) => q.Of s.unplaced u.unplaced none) us qs) (file : Option String) :
    ∃ plans : List Plan, List.Forall₂ (fun u (p : Plan) => p.Of s u file) us plans ∧ plans.map Plan.unplaced = qs := by
  induction h with
  | nil => exact ⟨[], .nil, rfl⟩
  | cons hq _ ih =>
    obtain ⟨p, hp, rfl⟩ := hq.exists_placed file
    obtain ⟨plans, hplans, rfl⟩ := ih
    exact ⟨p :: plans, .cons hp hplans, rfl⟩

end Plan

end UnionBridge
