import UnionBridge.Mapping.Candidates
import UnionBridge.Proofs.Mapping.Claims

/-! The candidate table cell by cell: which destination variants a case of a source may become, how often, and in which
order. -/
namespace UnionBridge

open Mergeable

namespace CandidateTable

variable {t : CandidateTable} {byCase : Table String (List Candidate)} {source : DottedName} {case : String}

/-- The candidates of one case of one source; none if nobody claims it. -/
def cell (t : CandidateTable) (source : DottedName) (case : String) : List Candidate :=
  ((t.get? source).getD ∅).listed case

/-- The tables under the sources of a table hold no case twice, and no case without a candidate. -/
def Tidy (t : CandidateTable) : Prop :=
  ∀ source byCase, t.get? source = some byCase → byCase.keys.Nodup ∧ byCase.Populated

theorem cell_of_get? (h : t.get? source = some byCase) (case : String) : t.cell source case = byCase.listed case := by
  simp [cell, h]

theorem Tidy.get?_eq (ht : t.Tidy) (h : source ∈ t.keys) (case : String) :
    (t.get? source).bind (·.get? case) =
      if t.cell source case = [] then none else some (t.cell source case) := by
  obtain ⟨byCase, hs⟩ := Option.isSome_iff_exists.mp (Table.isSome_get?_iff.mpr h)
  rw [hs, Option.bind_some, (ht source byCase hs).2.get?_eq case, cell_of_get? hs]

theorem cell_addEntry (t : CandidateTable) (e : DottedName × Table String (List Candidate)) (he : e.2.keys.Nodup)
    (source : DottedName) (case : String) :
    CandidateTable.cell (addEntry t e) source case =
      t.cell source case ++ if e.1 = source then e.2.listed case else [] := by
  rw [cell, get?_addEntry]
  by_cases h : e.1 = source
  · subst source
    rw [if_pos rfl, if_pos rfl, Option.getD_some, listed_merge _ he]
    rfl
  · simp [h, cell]

theorem cell_foldl (parts : List (DottedName × Table String (List Candidate))) (t : CandidateTable)
    (hp : ∀ p ∈ parts, p.2.keys.Nodup) (source : DottedName) (case : String) :
    ((parts.map fun p => single p.1 p.2).foldl merge t).cell source case =
      t.cell source case ++ parts.flatMap fun p => if p.1 = source then p.2.listed case else [] := by
  induction parts generalizing t with
  | nil => simp
  | cons p ps ih =>
    simp only [List.map_cons, List.foldl_cons, List.flatMap_cons]
    rw [ih _ fun q hq => hp q (by simp [hq]), merge_single, cell_addEntry t p (hp p (by simp)), List.append_assoc]

theorem tidy_addEntry {e : DottedName × Table String (List Candidate)} (ht : t.Tidy)
    (he : ∀ c ∈ e.2.entries, c.2 ≠ []) : CandidateTable.Tidy (addEntry t e) := by
  intro source byCase h
  rw [get?_addEntry] at h
  split at h
  · obtain rfl := Option.some.inj h
    have hold : ((t.get? e.1).getD ∅).keys.Nodup ∧ ((t.get? e.1).getD ∅).Populated := by
      cases hk : t.get? e.1 with
      | none => exact ⟨by simp, Table.populated_empty⟩
      | some old => exact ht e.1 old hk
    exact ⟨nodup_keys_merge hold.1, populated_merge hold.2 he⟩
  · exact ht source byCase h

theorem tidy_foldl {parts : List (DottedName × Table String (List Candidate))} (ht : t.Tidy)
    (hp : ∀ p ∈ parts, ∀ c ∈ p.2.entries, c.2 ≠ []) :
    CandidateTable.Tidy ((parts.map fun p => single p.1 p.2).foldl merge t) := by
  induction parts generalizing t with
  | nil => exact ht
  | cons p ps ih => exact ih (tidy_addEntry ht (hp p (by simp))) fun q hq => hp q (by simp [hq])

end CandidateTable

namespace Mapping

variable {m : Mapping} {u : Union} {file : Option String} {source : DottedName} {case : String} {target : Target}

/-! ### One claim -/

/-- A claim lists its target under a case as often as it names the case. -/
theorem listed_byCase (target : Target) (cases : List String) (case : String) :
    (byCase target cases).listed case = List.replicate (cases.count case) ⟨case, target⟩ := by
  have h := listed_foldl_single (cases.map fun c => (c, [(⟨c, target⟩ : Candidate)])) ∅ case
  simp only [List.map_map, Function.comp_def] at h
  rw [byCase, mergeAll_def, h]
  simp only [Table.listed_empty, List.nil_append, List.flatMap_map]
  clear h
  induction cases with
  | nil => rfl
  | cons c cases ih =>
    rw [List.flatMap_cons, ih, List.count_cons]
    by_cases hc : c = case
    · subst c
      simp [List.replicate_succ]
    · simp [hc]

theorem nodup_keys_byCase (target : Target) (cases : List String) : (byCase target cases).keys.Nodup :=
  nodup_keys_mergeAll _

theorem populated_byCase (target : Target) (cases : List String) : (byCase target cases).Populated := by
  rw [byCase, mergeAll_def]
  have key (t : Table String (List Candidate)) (ht : t.Populated) :
      ((cases.map fun c => single c [(⟨c, target⟩ : Candidate)]).foldl merge t).Populated := by
    induction cases generalizing t with
    | nil => exact ht
    | cons c cases ih => exact ih _ (populated_addEntry ht (by simp))
  exact key ∅ Table.populated_empty

theorem ne_nil_of_mem_byCase {cases : List String} {e : String × List Candidate}
    (he : e ∈ (byCase target cases).entries) : e.2 ≠ [] :=
  populated_byCase target cases e.1 e.2 (Table.get?_of_mem_entries (nodup_keys_byCase target cases) he)

/-! ### All claims -/

/-- What all claims contribute, each to a single source. -/
def parts (m : Mapping) : List (DottedName × Table String (List Candidate)) :=
  m.claims.flatMap fun (target, claims) => claims.entries.flatMap fun (ref, cases) =>
    (m.claimed ref).map fun source => (source, byCase target cases)

theorem gathered_eq (m : Mapping) : m.gathered = (m.parts.map fun p => single p.1 p.2).foldl merge m.seed := by
  simp only [gathered, parts, contributions, List.map_flatMap, List.map_map, Function.comp_def]

/-- No source twice, claims on its sources only, and targets that their indices tell apart. -/
structure Settled (m : Mapping) : Prop where
  sources : m.sources.Nodup
  claimed : ∀ e ∈ m.claims, ∀ s, .one s ∈ e.2.keys → s ∈ m.sources
  targets : ∀ e ∈ m.claims, ∀ e' ∈ m.claims, e.1.index = e'.1.index → e.1 = e'.1

theorem Settled.perm (hm : m.Settled) {claims : List (Target × Claims)} (hp : claims.Perm m.claims) :
    Settled { m with claims } where
  sources := hm.sources
  claimed e he := hm.claimed e (hp.mem_iff.mp he)
  targets e he e' he' := hm.targets e (hp.mem_iff.mp he) e' (hp.mem_iff.mp he')

theorem count_claimed (hm : m.sources.Nodup) (hs : source ∈ m.sources) (ref : SourceRef) :
    (m.claimed ref).count source = if ref.covers source then 1 else 0 := by
  cases ref with
  | every => simp [claimed, SourceRef.covers, hm.count, hs]
  | one s => simp [claimed, SourceRef.covers, List.count_singleton]

theorem flatMap_replicate_if {α β : Type} [BEq α] [LawfulBEq α] [DecidableEq α] (l : List α) (a : α) (n : Nat) (b : β) :
    (l.flatMap fun x => if x = a then List.replicate n b else []) = List.replicate (l.count a * n) b := by
  induction l with
  | nil => simp
  | cons x l ih =>
    rw [List.flatMap_cons, ih, List.count_cons]
    by_cases h : x = a
    · simp [h, Nat.add_mul, Nat.add_comm]
    · simp [h]

/-- One variant gives a cell as many candidates as its claims weigh there. -/
theorem flatMap_claims (hm : m.sources.Nodup) (hs : source ∈ m.sources) (target : Target) (claims : Claims)
    (case : String) :
    ((claims.entries.flatMap fun (ref, cases) => (m.claimed ref).map fun s => (s, byCase target cases)).flatMap
      fun p => if p.1 = source then p.2.listed case else []) =
      List.replicate (claims.total (SourceRef.weight source case)) ⟨case, target⟩ := by
  obtain ⟨es⟩ := claims
  induction es with
  | nil => simp [Table.total]
  | cons e es ih =>
    simp only [Table.total, List.map_cons, List.sum_cons, List.flatMap_cons, List.flatMap_append] at ih ⊢
    rw [ih, ← List.replicate_append_replicate]
    congr 1
    simp only [List.flatMap_map, listed_byCase]
    rw [flatMap_replicate_if, count_claimed hm hs, SourceRef.weight]
    split <;> simp

/-- A cell of the gathered table holds the claims on it in their order. -/
theorem cell_gathered (hm : m.sources.Nodup) (hs : source ∈ m.sources) (case : String) :
    m.gathered.cell source case = m.claims.flatMap fun (target, claims) =>
      List.replicate (claims.total (SourceRef.weight source case)) ⟨case, target⟩ := by
  have hseed : m.seed.cell source case = [] := by
    have : m.seed.get? source = some ∅ := Table.get?_of_mem_entries
      (by simpa [Table.keys, seed, Function.comp_def] using hm) (List.mem_map.mpr ⟨source, hs, rfl⟩)
    rw [CandidateTable.cell_of_get? this, Table.listed_empty]
  rw [gathered_eq, CandidateTable.cell_foldl, hseed, List.nil_append, parts, List.flatMap_assoc]
  · congr 1
    funext e
    exact flatMap_claims hm hs e.1 e.2 case
  · intro p hp
    simp only [parts, List.mem_flatMap, List.mem_map] at hp
    obtain ⟨e, _, c, _, s, _, rfl⟩ := hp
    exact nodup_keys_byCase _ _

/-- Gathering adds no source and leaves their order alone. -/
theorem keys_gathered (hm : m.Settled) : m.gathered.keys = m.sources := by
  have hseed : m.seed.keys = m.sources := by simp [Table.keys, seed, Function.comp_def]
  have key (ps : List (DottedName × Table String (List Candidate))) (t : CandidateTable)
      (hp : ∀ p ∈ ps, p.1 ∈ t.keys) : ((ps.map fun p => single p.1 p.2).foldl merge t).keys = t.keys := by
    induction ps generalizing t with
    | nil => rfl
    | cons p ps ih =>
      have ht : (merge t (single p.1 p.2)).keys = t.keys := by
        apply keys_merge_of_subset
        intro k hk
        obtain rfl : k = p.1 := by simpa [Table.keys, single] using hk
        exact hp p (by simp)
      rw [List.map_cons, List.foldl_cons, ih _ (fun q hq => by rw [ht]; exact hp q (by simp [hq])), ht]
  rw [gathered_eq, key, hseed]
  intro p hp
  simp only [parts, List.mem_flatMap, List.mem_map] at hp
  obtain ⟨e, he, ⟨ref, cases⟩, hc, s, hs, rfl⟩ := hp
  rw [hseed]
  cases ref with
  | every => exact hs
  | one k =>
    obtain rfl : s = k := by simpa [claimed] using hs
    exact hm.claimed e he s (List.mem_map.mpr ⟨_, hc, rfl⟩)

/-- No case is gathered twice for a source, or without candidates. -/
theorem tidy_gathered (m : Mapping) : CandidateTable.Tidy m.gathered := by
  rw [gathered_eq]
  apply CandidateTable.tidy_foldl
  · intro source byCase h
    have hmem := Table.mem_entries_of_get? h
    simp only [seed, List.mem_map, Prod.mk.injEq] at hmem
    obtain ⟨_, _, _, rfl⟩ := hmem
    exact ⟨by simp, Table.populated_empty⟩
  · intro p hp
    simp only [parts, List.mem_flatMap, List.mem_map] at hp
    obtain ⟨e, _, c, _, s, _, rfl⟩ := hp
    intro c hc
    exact ne_nil_of_mem_byCase hc

end Mapping

end UnionBridge
