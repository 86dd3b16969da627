import UnionBridge.Proofs.Compile
import UnionBridge.Proofs.Coverage

/-! A destination with a variant after all others: what it accepted before has the same candidates, and the new variant
only comes after them. -/
namespace UnionBridge

open Mergeable

variable {u u' : Union} {v : Variant} {file : Option String} {S : DottedName} {C : String} {t : CandidateTable}
  {byCase byCase' : Table String (List Candidate)}

/-- A union is another one with a variant after all others. -/
structure Union.Adds (u' u : Union) (v : Variant) : Prop where
  name : u'.name = u.name
  directives : u'.directives = u.directives
  variants : u'.variants = u.variants ++ [v]

/-- The variant as a target of its union. -/
def Union.lastTarget (u : Union) (v : Variant) (file : Option String) : Target :=
  ⟨v.name, v.body, u.variants.length, Span.ofPlace v.place file⟩

namespace Union.Adds

variable (h : u'.Adds u v)
include h

theorem sources_eq : u'.sources = u.sources := by
  rw [sources, sources, h.directives]

theorem container?_eq : u'.container? = u.container? := by
  rw [container?, container?, h.directives]

theorem targets_eq (file : Option String) : u'.targets file = u.targets file ++ [u.lastTarget v file] := by
  simp [targets, h.variants, List.mapIdx_append, lastTarget]

theorem targetVariants_eq (file : Option String) :
    Mapping.targetVariants u' file = Mapping.targetVariants u file ++ [(u.lastTarget v file, v)] := by
  rw [Mapping.targetVariants, h.targets_eq, h.variants, List.zip_append (by simp [targets])]
  rfl

/-- The candidates of a case are those that it had, then the new variant as often as it claims the case. -/
theorem asked_eq (file : Option String) (S : DottedName) (C : String) :
    Mapping.asked u' file S C =
      Mapping.asked u file S C ++ List.replicate (v.claimCount S C) ⟨C, u.lastTarget v file⟩ := by
  rw [Mapping.asked, h.targetVariants_eq, List.flatMap_append, List.flatMap_singleton]
  rfl

theorem claims_eq (file : Option String) : (Mapping.described u' file).claims =
    (Mapping.described u file).claims ++ [(u.lastTarget v file, Union.variantClaims u.sources v)] := by
  simp only [Mapping.described, h.targets_eq, h.variants, h.sources_eq, List.map_append, List.map_cons, List.map_nil]
  rw [List.zip_append (by simp [targets])]
  rfl

/-- The claims of the new variant are gathered last. -/
theorem gathered_eq (file : Option String) : (Mapping.described u' file).gathered =
    ((Mapping.described u file).contributions (u.lastTarget v file) (Union.variantClaims u.sources v)).foldl merge
      (Mapping.described u file).gathered := by
  have hclaimed (ref : SourceRef) : (Mapping.described u' file).claimed ref = (Mapping.described u file).claimed ref := by
    cases ref with
    | every => exact h.sources_eq
    | one S => rfl
  have hcontributions : (Mapping.described u' file).contributions = (Mapping.described u file).contributions := by
    funext target claims
    simp only [Mapping.contributions, hclaimed]
  have hseed : (Mapping.described u' file).seed = (Mapping.described u file).seed := by
    simp only [Mapping.seed, Mapping.described, h.sources_eq]
  rw [Mapping.gathered, hcontributions, hseed, h.claims_eq, List.flatMap_append, List.foldl_append,
    List.flatMap_singleton]
  rfl

end Union.Adds

/-! ### Cases -/

namespace CandidateTable

theorem exists_get?_addEntry (h : t.get? S = some byCase) (e : DottedName × Table String (List Candidate)) :
    ∃ byCase', Table.get? (addEntry t e) S = some byCase' ∧ byCase.keys <+: byCase'.keys := by
  rw [get?_addEntry]
  split
  · rename_i heq
    rw [heq, h]
    exact ⟨_, rfl, keys_prefix_merge byCase e.2⟩
  · exact ⟨byCase, h, List.prefix_rfl⟩

theorem exists_get?_merge (h : t.get? S = some byCase) (part : CandidateTable) :
    ∃ byCase', Table.get? (merge t part) S = some byCase' ∧ byCase.keys <+: byCase'.keys := by
  obtain ⟨es⟩ := part
  rw [merge_def]
  induction es generalizing t byCase with
  | nil => exact ⟨byCase, h, List.prefix_rfl⟩
  | cons e es ih =>
    obtain ⟨byCase', h', hkeys⟩ := exists_get?_addEntry h e
    obtain ⟨byCase'', h'', hkeys'⟩ := ih h'
    exact ⟨byCase'', h'', hkeys.trans hkeys'⟩

/-- Merging more into a table leaves the cases of a source in their places. -/
theorem exists_get?_foldl (h : t.get? S = some byCase) (parts : List CandidateTable) :
    ∃ byCase', Table.get? (parts.foldl merge t) S = some byCase' ∧ byCase.keys <+: byCase'.keys := by
  induction parts generalizing t byCase with
  | nil => exact ⟨byCase, h, List.prefix_rfl⟩
  | cons part parts ih =>
    obtain ⟨byCase', h', hkeys⟩ := exists_get?_merge h part
    obtain ⟨byCase'', h'', hkeys'⟩ := ih h'
    exact ⟨byCase'', h'', hkeys.trans hkeys'⟩

end CandidateTable

namespace Plan.Of

variable {s s' : Schema} {p p' : Plan} (h : p.Of s u file) (hS : p.table.get? S = some byCase)
include h

theorem table_eq_gathered : p.table = (Mapping.described u file).gathered := by
  obtain ⟨_, hm⟩ := Mapping.ofUnion_eq_ok_iff.mp h.mapped
  rw [h.table_eq, Mapping.candidateTable_ofUnion h.mapped, hm]

include hS

theorem get?_eq_some_asked (hC : C ∈ byCase.keys) : byCase.get? C = some (Mapping.asked u file S C) := by
  obtain ⟨L, hL⟩ := Option.isSome_iff_exists.mp (Table.isSome_get?_iff.mpr hC)
  rw [hL, (h.eq_asked hS hL).2]

/-- What a variant claims is a case of the source. -/
theorem mem_keys_of_asked (hC : Mapping.asked u file S C ≠ []) : C ∈ byCase.keys := by
  have hmem : S ∈ p.table.keys := Table.isSome_get?_iff.mp (by simp [hS])
  have hcell : p.table.cell S C = Mapping.asked u file S C := by
    rw [h.table_eq]
    exact Mapping.cell_candidateTable_ofUnion h.mapped (h.keys_table ▸ hmem) C
  have hget := h.tidy_table.get?_eq hmem C
  rw [hcell, if_neg hC, hS, Option.bind_some] at hget
  exact Table.isSome_get?_iff.mp (by simp [hget])

/-- A conversion has an arm for each case, with what the variants ask for. -/
theorem arms_ofCases (decl : Option Union) (name : String) :
    (Conversion.ofCases p.mapping decl name S byCase).arms = (Conversion.caseOrder decl byCase).map fun C =>
      ⟨C, .ofCandidates p.dest (Mapping.asked u file S C)⟩ := by
  rw [Conversion.ofCases, ← List.filterMap_eq_map]
  refine List.filterMap_congr fun C hC => ?_
  rw [h.get?_eq_some_asked hS (Conversion.mem_caseOrder.mp hC)]
  rfl

variable (h' : p'.Of s' u' file) (hS' : p'.table.get? S = some byCase') (ha : u'.Adds u v)
include h' hS' ha

theorem keys_prefix : byCase.keys <+: byCase'.keys := by
  rw [h.table_eq_gathered] at hS
  rw [h'.table_eq_gathered, ha.gathered_eq] at hS'
  obtain ⟨found, hfound, hkeys⟩ := CandidateTable.exists_get?_foldl hS
    ((Mapping.described u file).contributions (u.lastTarget v file) (Union.variantClaims u.sources v))
  obtain rfl := Option.some.inj (hfound.symm.trans hS')
  exact hkeys

/-- Cases keep their places, whether their source declares them or not. -/
theorem caseOrder_prefix (hdecl : Option.Rel (fun d d' : Union => d.variants.map (·.name) <+: d'.variants.map (·.name))
    (s.declared? S) (s'.declared? S)) :
    Conversion.caseOrder (s.declared? S) byCase <+: Conversion.caseOrder (s'.declared? S) byCase' := by
  cases hd : s.declared? S with
  | none =>
    cases hd' : s'.declared? S with
    | none => exact h.keys_prefix hS h' hS' ha
    | some d' =>
      rw [hd, hd'] at hdecl
      cases hdecl
  | some d =>
    cases hd' : s'.declared? S with
    | none =>
      rw [hd, hd'] at hdecl
      cases hdecl
    | some d' =>
      rw [hd, hd'] at hdecl
      rw [h.caseOrder_eq hS hd, h'.caseOrder_eq hS' hd']
      obtain ⟨hcases⟩ := hdecl
      exact hcases

end Plan.Of

end UnionBridge
