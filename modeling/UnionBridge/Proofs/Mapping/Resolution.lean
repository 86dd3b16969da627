import UnionBridge.Proofs.Mapping.Candidates

/-! Resolution: sorting candidates, refusing ambiguous ones, and the table that comes out, which depends on what the
directives say and not on the order in which claims are gathered. -/
namespace UnionBridge

namespace Mapping

variable {m : Mapping} {t : CandidateTable} {u : Union} {file : Option String} {source : DottedName} {case : String}
  {l : List Candidate}

/-! ### Order -/

def Ordered (l : List Candidate) : Prop := l.Pairwise fun a b => a.target.index ≤ b.target.index

theorem inOrder_perm (l : List Candidate) : (inOrder l).Perm l := List.mergeSort_perm l _

theorem ordered_inOrder (l : List Candidate) : Ordered (inOrder l) := by
  have h := @List.pairwise_mergeSort Candidate (fun a b => decide (a.target.index ≤ b.target.index))
    (fun a b c hab hbc => by
      simp only [decide_eq_true_eq] at hab hbc ⊢
      omega)
    (fun a b => by
      simp only [Bool.or_eq_true, decide_eq_true_eq]
      omega) l
  exact h.imp fun hab => by simpa using hab

theorem inOrder_of_ordered (h : Ordered l) : inOrder l = l := by
  apply List.mergeSort_of_pairwise
  simpa [Ordered] using h

theorem inOrder_eq_nil_iff : inOrder l = [] ↔ l = [] := by
  constructor
  · intro h
    exact List.Perm.eq_nil (h ▸ (inOrder_perm l).symm)
  · rintro rfl
    exact inOrder_of_ordered List.Pairwise.nil

theorem mem_inOrder {c : Candidate} : c ∈ inOrder l ↔ c ∈ l := (inOrder_perm l).mem_iff

theorem keys_candidateTable (m : Mapping) : m.candidateTable.keys = m.gathered.keys := Table.keys_mapValues _ _

theorem cell_candidateTable (m : Mapping) (source : DottedName) (case : String) :
    m.candidateTable.cell source case = inOrder (m.gathered.cell source case) := by
  have hnil : inOrder [] = [] := inOrder_of_ordered List.Pairwise.nil
  simp only [CandidateTable.cell, candidateTable, Table.get?_mapValues]
  cases m.gathered.get? source with
  | none => simp [hnil]
  | some byCase =>
    simp only [Option.map_some, Option.getD_some, Table.listed, Table.get?_mapValues]
    cases byCase.get? case <;> simp [hnil]

theorem tidy_candidateTable (m : Mapping) : CandidateTable.Tidy m.candidateTable := by
  intro source byCase h
  rw [candidateTable, Table.get?_mapValues, Option.map_eq_some_iff] at h
  obtain ⟨old, hold, rfl⟩ := h
  obtain ⟨hn, hp⟩ := tidy_gathered m source old hold
  refine ⟨by rwa [Table.keys_mapValues], ?_⟩
  intro case l hl
  rw [Table.get?_mapValues, Option.map_eq_some_iff] at hl
  obtain ⟨old, hold, rfl⟩ := hl
  exact inOrder_eq_nil_iff.not.mpr (hp case old hold)

/-! ### Ambiguity -/

theorem caseAmbiguities_of_fields {i : Nat} {all : List Candidate} (h : ∀ c ∈ l, c.target.hasFields) :
    caseAmbiguities source case all [] i l = ([], []) := by
  induction l generalizing i with
  | nil => rfl
  | cons c l ih =>
    rw [caseAmbiguities, if_pos (by simp [h c (by simp)])]
    exact ih fun d hd => h d (by simp [hd])

theorem caseAmbiguities_ne_nil {i : Nat} {all : List Candidate} {c : Candidate} (hc : c ∈ l)
    (hf : c.target.hasFields = false) : (caseAmbiguities source case all [] i l).1 ≠ [] := by
  induction l generalizing i with
  | nil => simp at hc
  | cons d l ih =>
    rw [caseAmbiguities]
    split
    · rename_i hd
      rcases List.mem_cons.mp hc with rfl | hc
      · simp [hf] at hd
      · exact ih hc
    · simp

/-- Whether no candidate without fields has a rival in one of some cells. -/
def Clear (cs : List (DottedName × String × List Candidate)) : Prop :=
  ∀ e ∈ cs, isFallible e.2.2 → ∀ c ∈ e.2.2, c.target.hasFields

/-- What one more cell adds to the ambiguities found, and to the variants reported. -/
def report (so : List Ambiguity × List Target) (e : DottedName × String × List Candidate) :
    List Ambiguity × List Target :=
  if isFallible e.2.2 then
    let (more, reported) := caseAmbiguities e.1 e.2.1 e.2.2 so.2 0 e.2.2
    (so.1 ++ more, reported)
  else so

theorem ambiguities_def (t : CandidateTable) : ambiguities t = ((cells t).foldl report ([], [])).1 := rfl

/-- Once something is found, it stays found. -/
theorem foldl_report_ne_nil {so : List Ambiguity × List Target} (cs : List (DottedName × String × List Candidate))
    (h : so.1 ≠ []) : (cs.foldl report so).1 ≠ [] := by
  induction cs generalizing so with
  | nil => exact h
  | cons e cs ih =>
    apply ih
    rw [report]
    split
    · simp [h]
    · exact h

/-- Nothing is reported exactly if every case is clear. -/
theorem ambiguities_eq_nil_iff : ambiguities t = [] ↔ Clear (cells t) := by
  rw [ambiguities_def]
  induction cells t with
  | nil => simp [Clear]
  | cons e cs ih =>
    rw [List.foldl_cons]
    by_cases hl : isFallible e.2.2
    · by_cases hf : ∀ c ∈ e.2.2, c.target.hasFields
      · have hstep : report ([], []) e = ([], []) := by simp [report, caseAmbiguities_of_fields hf]
        rw [hstep, ih]
        simp only [Clear, List.mem_cons, forall_eq_or_imp]
        exact ⟨fun h => ⟨fun _ => hf, h⟩, And.right⟩
      · obtain ⟨c, hc, hcf⟩ : ∃ c ∈ e.2.2, c.target.hasFields = false := by simpa using hf
        have hstep : (report ([], []) e).1 ≠ [] := by
          simpa [report, hl] using caseAmbiguities_ne_nil hc hcf
        constructor
        · intro h
          exact absurd h (foldl_report_ne_nil cs hstep)
        · intro h
          exact absurd (h e (by simp) hl) hf
    · have hstep : report ([], []) e = ([], []) := by simp [report, hl]
      rw [hstep, ih]
      simp only [Clear, List.mem_cons, forall_eq_or_imp, hl]
      simp

theorem mem_cells (hn : t.keys.Nodup) (ht : t.Tidy) {l : List Candidate} :
    (source, case, l) ∈ cells t ↔ (t.get? source).bind (·.get? case) = some l := by
  simp only [cells, List.mem_flatMap, List.mem_map, Prod.mk.injEq, Option.bind_eq_some_iff]
  constructor
  · rintro ⟨⟨s, byCase⟩, hs, ⟨c, l'⟩, hc, rfl, rfl, rfl⟩
    have hs := Table.get?_of_mem_entries hn hs
    exact ⟨byCase, hs, Table.get?_of_mem_entries (ht s byCase hs).1 hc⟩
  · rintro ⟨byCase, hs, hc⟩
    exact ⟨(source, byCase), Table.mem_entries_of_get? hs, (case, l), Table.mem_entries_of_get? hc, rfl, rfl, rfl⟩

/-- A mapping resolves to its candidate table, provided that every case is clear. -/
theorem resolve_eq_ok_iff : m.resolve = .ok t ↔ t = m.candidateTable ∧ Clear (cells t) := by
  simp only [resolve]
  cases h : ambiguities m.candidateTable with
  | nil =>
    have hclear := ambiguities_eq_nil_iff.mp h
    constructor
    · intro ht
      obtain rfl := Except.ok.inj ht
      exact ⟨rfl, hclear⟩
    · rintro ⟨rfl, _⟩
      rfl
  | cons a as =>
    constructor
    · intro ht
      cases ht
    · rintro ⟨rfl, hclear⟩
      rw [ambiguities_eq_nil_iff.mpr hclear] at h
      cases h

/-! ### The order of claims -/

theorem mem_cell_gathered (hm : m.Settled) (hs : source ∈ m.sources) {c : Candidate}
    (hc : c ∈ m.gathered.cell source case) : c.case = case ∧ ∃ e ∈ m.claims, e.1 = c.target := by
  rw [cell_gathered hm.sources hs, List.mem_flatMap] at hc
  obtain ⟨e, he, hc⟩ := hc
  obtain rfl := List.eq_of_mem_replicate hc
  exact ⟨rfl, e, he, rfl⟩

theorem keys_candidateTable_perm (hm : m.Settled) {claims : List (Target × Claims)} (hp : claims.Perm m.claims) :
    (candidateTable { m with claims }).keys = m.candidateTable.keys := by
  rw [keys_candidateTable, keys_candidateTable, keys_gathered hm, keys_gathered (hm.perm hp)]

/-- Gathering the claims in another order leads to the same cells. -/
theorem cell_perm (hm : m.Settled) {claims : List (Target × Claims)} (hp : claims.Perm m.claims)
    (hs : source ∈ m.sources) (case : String) :
    (candidateTable { m with claims }).cell source case = m.candidateTable.cell source case := by
  have hm' := hm.perm hp
  rw [cell_candidateTable, cell_candidateTable]
  apply List.Perm.eq_of_pairwise ?_ (ordered_inOrder _) (ordered_inOrder _)
  · refine (inOrder_perm _).trans (List.Perm.trans ?_ (inOrder_perm _).symm)
    rw [cell_gathered hm'.sources hs, cell_gathered hm.sources hs]
    exact hp.flatMap_right _
  · intro a b ha hb hab hba
    obtain ⟨hac, e, he, hea⟩ := mem_cell_gathered hm' hs (mem_inOrder.mp ha)
    obtain ⟨hbc, e', he', heb⟩ := mem_cell_gathered hm hs (mem_inOrder.mp hb)
    have htarget : a.target = b.target := by
      rw [← hea, ← heb]
      apply hm.targets e (hp.mem_iff.mp he) e' he'
      rw [hea, heb]
      omega
    cases a
    cases b
    simp_all

/-! ### The mapping of a union -/

/-- What the directives of a destination describe, whether or not something is wrong with them. -/
def described (u : Union) (file : Option String) : Mapping where
  dest := u.name
  sources := u.sources
  container := u.container?
  targets := u.targets file
  claims := (u.targets file).zip (u.variants.map (Union.variantClaims u.sources))
  span := Span.ofPlace u.place file

/-- A union without faults in its directives has the mapping that they describe. -/
theorem ofUnion_eq_ok_iff : Mapping.ofUnion u file = .ok m ↔ u.directiveFaults = [] ∧ m = described u file := by
  simp only [ofUnion]
  split
  · rename_i hf
    constructor
    · intro h
      exact ⟨hf, (Except.ok.inj h).symm⟩
    · rintro ⟨_, rfl⟩
      rfl
  · rename_i hne
    constructor
    · intro h
      cases h
    · rintro ⟨hf, _⟩
      exact absurd hf hne

theorem getElem?_targets (u : Union) (file : Option String) (i : Nat) :
    (u.targets file)[i]? = u.variants[i]?.map fun v => ⟨v.name, v.body, i, Span.ofPlace v.place file⟩ := by
  simp [Union.targets]

/-- Each target with the variant it stands for. -/
def targetVariants (u : Union) (file : Option String) : List (Target × Variant) := (u.targets file).zip u.variants

theorem claims_eq (h : Mapping.ofUnion u file = .ok m) :
    m.claims = (targetVariants u file).map fun e => (e.1, Union.variantClaims u.sources e.2) := by
  obtain ⟨_, rfl⟩ := ofUnion_eq_ok_iff.mp h
  simp only [described, targetVariants, List.zip_map_right]
  rfl

theorem index_targetVariants {i : Nat} {e : Target × Variant} (h : (targetVariants u file)[i]? = some e) :
    e.1.index = i ∧ u.variants[i]? = some e.2 ∧ e.1 = ⟨e.2.name, e.2.body, i, Span.ofPlace e.2.place file⟩ := by
  obtain ⟨t, v⟩ := e
  rw [targetVariants, List.getElem?_zip_eq_some, getElem?_targets, Option.map_eq_some_iff] at h
  obtain ⟨⟨v', hv', rfl⟩, hv⟩ := h
  have hvv : v' = v := Option.some.inj (hv'.symm.trans hv)
  subst v'
  exact ⟨rfl, hv, rfl⟩

theorem pairwise_targetVariants (u : Union) (file : Option String) :
    (targetVariants u file).Pairwise fun a b => a.1.index < b.1.index := by
  rw [List.pairwise_iff_getElem]
  intro i j hi hj hij
  rw [(index_targetVariants (List.getElem?_eq_getElem hi)).1, (index_targetVariants (List.getElem?_eq_getElem hj)).1]
  exact hij

theorem settled_ofUnion (h : Mapping.ofUnion u file = .ok m) : m.Settled where
  sources := by
    obtain ⟨_, rfl⟩ := ofUnion_eq_ok_iff.mp h
    exact u.nodup_sources
  claimed e he s hs := by
    rw [claims_eq h, List.mem_map] at he
    obtain ⟨e, he, rfl⟩ := he
    obtain ⟨hf, rfl⟩ := ofUnion_eq_ok_iff.mp h
    exact Union.mem_sources_of_variantClaims (Union.claimable_of_directiveFaults hf (List.of_mem_zip he).2) hs
  targets e he e' he' hi := by
    rw [claims_eq h, List.mem_map] at he he'
    obtain ⟨e, he, rfl⟩ := he
    obtain ⟨e', he', rfl⟩ := he'
    obtain ⟨i, hi'⟩ := List.getElem?_of_mem he
    obtain ⟨j, hj'⟩ := List.getElem?_of_mem he'
    obtain ⟨hii, _, hie⟩ := index_targetVariants hi'
    obtain ⟨hjj, _, hje⟩ := index_targetVariants hj'
    have hij : j = i := by
      simp only at hi
      omega
    rw [hij, hi'] at hj'
    rw [Option.some.inj hj']

/-- The candidates that the directives of a union ask for, variant by variant. -/
def asked (u : Union) (file : Option String) (source : DottedName) (case : String) : List Candidate :=
  (targetVariants u file).flatMap fun e => List.replicate (e.2.claimCount source case) ⟨case, e.1⟩

theorem ordered_asked (u : Union) (file : Option String) (source : DottedName) (case : String) :
    Ordered (asked u file source case) := by
  rw [Ordered, asked, List.pairwise_flatMap]
  refine ⟨fun e _ => by simp, (pairwise_targetVariants u file).imp ?_⟩
  intro a b hab x hx y hy
  obtain rfl := List.eq_of_mem_replicate hx
  obtain rfl := List.eq_of_mem_replicate hy
  exact Nat.le_of_lt hab

theorem cell_ofUnion (h : Mapping.ofUnion u file = .ok m) (hs : source ∈ u.sources) (case : String) :
    m.gathered.cell source case = asked u file source case := by
  have hsources : m.sources = u.sources := by
    obtain ⟨_, rfl⟩ := ofUnion_eq_ok_iff.mp h
    rfl
  rw [cell_gathered (settled_ofUnion h).sources (hsources ▸ hs), claims_eq h, List.flatMap_map, asked,
    List.flatMap_def, List.flatMap_def]
  congr 1
  apply List.map_congr_left
  intro e he
  have hv := Union.claimable_of_directiveFaults (ofUnion_eq_ok_iff.mp h).1 (List.of_mem_zip he).2
  simp only [Union.total_variantClaims hv]

/-- The claims of a union are gathered in the order of its variants, and sorting them changes nothing. -/
theorem cell_candidateTable_ofUnion (h : Mapping.ofUnion u file = .ok m) (hs : source ∈ u.sources) (case : String) :
    m.candidateTable.cell source case = asked u file source case := by
  rw [cell_candidateTable, cell_ofUnion h hs, inOrder_of_ordered (ordered_asked u file source case)]

theorem sum_map_eq_single {α : Type} {l : List α} {f : α → Nat} {i : Nat} {a : α} (hi : l[i]? = some a)
    (h : ∀ j b, l[j]? = some b → j ≠ i → f b = 0) : (l.map f).sum = f a := by
  induction l generalizing i with
  | nil => simp at hi
  | cons b l ih =>
    rw [List.map_cons, List.sum_cons]
    cases i with
    | zero =>
      obtain rfl : b = a := by simpa using hi
      have hzero : ∀ n ∈ l.map f, n = 0 := by
        intro n hn
        obtain ⟨c, hc, rfl⟩ := List.mem_map.mp hn
        obtain ⟨j, hj⟩ := List.getElem?_of_mem hc
        exact h (j + 1) c (by simpa using hj) (by omega)
      rw [List.eq_replicate_of_mem hzero]
      simp
    | succ i =>
      rw [h 0 b rfl (by omega), ih (by simpa using hi), Nat.zero_add]
      intro j c hj hji
      exact h (j + 1) c (by simpa using hj) (by omega)

/-- A variant is among the candidates of a cell as often as it claims the case. -/
theorem count_asked {i : Nat} {v : Variant} (hv : u.variants[i]? = some v) (source : DottedName) (case : String) :
    (asked u file source case).count ⟨case, ⟨v.name, v.body, i, Span.ofPlace v.place file⟩⟩ =
      v.claimCount source case := by
  have hi : (targetVariants u file)[i]? = some (⟨v.name, v.body, i, Span.ofPlace v.place file⟩, v) := by
    simp [targetVariants, List.getElem?_zip_eq_some, getElem?_targets, hv]
  rw [asked, List.count_flatMap, sum_map_eq_single hi]
  · simp
  · intro j e hj hji
    have hne : e.1.index ≠ i := by
      rw [(index_targetVariants hj).1]
      exact hji
    rw [Function.comp_apply, List.count_replicate, if_neg]
    intro heq
    simp only [beq_iff_eq, Candidate.mk.injEq, true_and] at heq
    exact hne (by rw [heq])

theorem mem_asked {c : Candidate} (h : c ∈ asked u file source case) : c.case = case ∧ c.target ∈ u.targets file := by
  obtain ⟨e, he, hc⟩ := List.mem_flatMap.mp h
  obtain rfl := List.eq_of_mem_replicate hc
  exact ⟨rfl, (List.of_mem_zip he).1⟩

/-! ### The resolved table -/

/-- Whether no cell of a table has a candidate without fields next to another one. -/
theorem clear_cells_iff (hn : t.keys.Nodup) (ht : t.Tidy) :
    Clear (cells t) ↔
      ∀ source ∈ t.keys, ∀ case, isFallible (t.cell source case) → ∀ c ∈ t.cell source case, c.target.hasFields := by
  constructor
  · intro h source hs case hf c hc
    apply h (source, case, t.cell source case) ?_ hf c hc
    rw [mem_cells hn ht, ht.get?_eq hs, if_neg]
    rintro hnil
    simp [hnil] at hc
  · rintro h ⟨source, case, l⟩ he hf c hc
    have hget := (mem_cells hn ht).mp he
    have hs : source ∈ t.keys := by
      obtain ⟨byCase, hs, _⟩ := Option.bind_eq_some_iff.mp hget
      exact Table.isSome_get?_iff.mp (Option.isSome_of_eq_some hs)
    have hl : l = t.cell source case := by
      rw [ht.get?_eq hs] at hget
      split at hget
      · cases hget
      · exact (Option.some.inj hget).symm
    subst l
    exact h source hs case hf c hc

theorem keys_candidateTable_ofUnion (h : Mapping.ofUnion u file = .ok m) : m.candidateTable.keys = u.sources := by
  rw [keys_candidateTable, keys_gathered (settled_ofUnion h)]
  obtain ⟨_, rfl⟩ := ofUnion_eq_ok_iff.mp h
  rfl

/-- A table whose claims come in the order of the variants is never reordered. -/
theorem candidateTable_ofUnion (h : Mapping.ofUnion u file = .ok m) : m.candidateTable = m.gathered := by
  have hsettled := settled_ofUnion h
  have hn : m.gathered.keys.Nodup := keys_gathered hsettled ▸ hsettled.sources
  have hsources : m.sources = u.sources := by
    obtain ⟨_, rfl⟩ := ofUnion_eq_ok_iff.mp h
    rfl
  have hlist (source : DottedName) (byCase : Table String (List Candidate))
      (hs : (source, byCase) ∈ m.gathered.entries) : byCase.mapValues inOrder = byCase := by
    have hget := Table.get?_of_mem_entries hn hs
    have hmem : source ∈ u.sources := by
      rw [← hsources, ← keys_gathered hsettled]
      exact List.mem_map.mpr ⟨_, hs, rfl⟩
    have hkey (e : String × List Candidate) (he : e ∈ byCase.entries) : (e.1, inOrder e.2) = e := by
      have hcase := Table.get?_of_mem_entries (tidy_gathered m source byCase hget).1 he
      have hcell := cell_ofUnion h hmem e.1
      rw [CandidateTable.cell_of_get? hget, Table.listed_of_get? hcase] at hcell
      rw [inOrder_of_ordered]
      rw [hcell]
      exact ordered_asked u file source e.1
    rw [Table.mapValues, List.map_congr_left hkey, List.map_id']
  have hentry (e : DottedName × Table String (List Candidate)) (he : e ∈ m.gathered.entries) :
      (e.1, e.2.mapValues inOrder) = e := by
    rw [hlist e.1 e.2 he]
  rw [candidateTable, Table.mapValues, List.map_congr_left hentry, List.map_id']

/-- A destination all of whose variants have fields has nothing ambiguous. -/
theorem resolve_of_hasFields (h : Mapping.ofUnion u file = .ok m) (hf : ∀ t ∈ u.targets file, t.hasFields) :
    m.resolve = .ok m.candidateTable := by
  have hkeys := keys_candidateTable_ofUnion h
  refine resolve_eq_ok_iff.mpr ⟨rfl, ?_⟩
  rw [clear_cells_iff (hkeys ▸ u.nodup_sources) (tidy_candidateTable m), hkeys]
  intro source hs case _ c hc
  rw [cell_candidateTable_ofUnion h hs] at hc
  exact hf c.target (mem_asked hc).2

/-- Gathering the claims of a mapping in another order, a resolved mapping stays resolved, with the same cells. -/
theorem resolve_perm (hm : m.Settled) (ht : m.resolve = .ok t) {claims : List (Target × Claims)}
    (hp : claims.Perm m.claims) :
    ∃ t', resolve { m with claims } = .ok t' ∧ t'.keys = t.keys ∧
      ∀ source case, (t'.get? source).bind (·.get? case) = (t.get? source).bind (·.get? case) := by
  obtain ⟨rfl, hclear⟩ := resolve_eq_ok_iff.mp ht
  have hkeys := keys_candidateTable_perm hm hp
  have hsources : m.candidateTable.keys = m.sources := (keys_candidateTable m).trans (keys_gathered hm)
  have htidy := tidy_candidateTable m
  have htidy' := tidy_candidateTable { m with claims }
  have hn : m.candidateTable.keys.Nodup := hsources ▸ hm.sources
  refine ⟨candidateTable { m with claims }, resolve_eq_ok_iff.mpr ⟨rfl, ?_⟩, hkeys, ?_⟩
  · rw [clear_cells_iff hn htidy] at hclear
    rw [clear_cells_iff (hkeys ▸ hn) htidy', hkeys]
    intro source hs case
    rw [cell_perm hm hp (hsources ▸ hs)]
    exact hclear source hs case
  · intro source case
    by_cases hs : source ∈ m.candidateTable.keys
    · rw [htidy.get?_eq hs, htidy'.get?_eq (hkeys ▸ hs), cell_perm hm hp (hsources ▸ hs)]
    · rw [Table.get?_eq_none_iff.mpr hs, Table.get?_eq_none_iff.mpr (hkeys ▸ hs)]

/-- The candidate table of a destination is the one that its directives describe. Its sources are those that the
directives of the union name, each once and in the order in which they are first written. A case of a source has an
entry only if a variant claims it; then every variant is in it as often as it claims the case, in the order of
declaration, and nothing else is. The order in which claims are gathered makes no difference to any entry. -/
theorem resolve_exact (hm : Mapping.ofUnion u file = .ok m) (ht : m.resolve = .ok t) :
    (∀ source, source ∈ t.keys ↔ source ∈ u.writtenSources) ∧
    t.keys.Pairwise (fun a b => u.writtenSources.idxOf a < u.writtenSources.idxOf b) ∧
    (∀ source ∈ t.keys, ∀ case,
      (t.get? source).bind (·.get? case) =
        (if t.cell source case = [] then none else some (t.cell source case)) ∧
      (∀ (i : Nat) v, u.variants[i]? = some v →
        (t.cell source case).count ⟨case, ⟨v.name, v.body, i, Span.ofPlace v.place file⟩⟩ =
          v.claimCount source case) ∧
      (∀ c ∈ t.cell source case, c.case = case ∧ c.target ∈ u.targets file) ∧
      (t.cell source case).Pairwise fun a b => a.target.index ≤ b.target.index) ∧
    ∀ claims : List (Target × Claims), claims.Perm m.claims →
      ∃ t', resolve { m with claims } = .ok t' ∧ t'.keys = t.keys ∧
        ∀ source case, (t'.get? source).bind (·.get? case) = (t.get? source).bind (·.get? case) := by
  have hsettled := settled_ofUnion hm
  have hkeys : t.keys = u.sources := by
    obtain ⟨rfl, _⟩ := resolve_eq_ok_iff.mp ht
    exact keys_candidateTable_ofUnion hm
  refine ⟨fun source => ?_, ?_, fun source hs case => ?_, fun claims hp => resolve_perm hsettled ht hp⟩
  · rw [hkeys, Union.mem_sources]
  · rw [hkeys, Union.sources_eq]
    exact pairwise_idxOf_eraseDups _
  · obtain ⟨rfl, _⟩ := resolve_eq_ok_iff.mp ht
    have hcell := cell_candidateTable_ofUnion hm (hkeys ▸ hs) case
    refine ⟨(tidy_candidateTable m).get?_eq hs case, ?_⟩
    rw [hcell]
    exact ⟨fun i v hv => count_asked hv source case, fun c hc => mem_asked hc, ordered_asked u file source case⟩

/-- A destination of two sources, whose first variant claims one case of every source and once more of the second. -/
def twoSources : Union where
  name := "Shape"
  variants := [
    ⟨"Both", .named [("x", .ofName "int")],
      [⟨fromCase, [⟨none, .ofName "Dot", ⟨3, 3⟩⟩, ⟨some (.ofName "B"), .ofName "Dot", ⟨3, 8⟩⟩], ⟨3, 3⟩⟩], ⟨3, 20⟩⟩,
    ⟨"Dot", .named [("x", .ofName "int")], [], ⟨4, 3⟩⟩]
  directives := [⟨fromUnion, [⟨none, .ofName "A", ⟨1, 1⟩⟩, ⟨none, .ofName "B", ⟨1, 4⟩⟩], ⟨1, 1⟩⟩]
  place := ⟨2, 1⟩

theorem resolve_exact_twoSources :
    ∃ m t, Mapping.ofUnion twoSources none = .ok m ∧ m.resolve = .ok t ∧
      (t.cell (.ofName "B") "Dot").count
        ⟨"Dot", ⟨"Both", .named [("x", .ofName "int")], 0, Span.ofPlace ⟨3, 20⟩ none⟩⟩ = 2 := by
  have hm : Mapping.ofUnion twoSources none = .ok (described twoSources none) :=
    ofUnion_eq_ok_iff.mpr ⟨by decide +kernel, rfl⟩
  have ht := resolve_of_hasFields hm (by decide +kernel)
  obtain ⟨hkeys, _, hcells, _⟩ := resolve_exact hm ht
  have hs : .ofName "B" ∈ (described twoSources none).candidateTable.keys := (hkeys _).mpr (by decide +kernel)
  obtain ⟨_, hcount, _, _⟩ := hcells _ hs "Dot"
  refine ⟨_, _, hm, ht, ?_⟩
  rw [hcount 0 _ rfl]
  decide +kernel

end Mapping

end UnionBridge
