import UnionBridge.Merge
import UnionBridge.Proofs.Table

/-! What merging does to keys, to lists under a key, and to any measure that adds up. -/
namespace UnionBridge

namespace Table

variable {κ α β : Type} [DecidableEq κ] {t : Table κ (List β)} {k : κ} {l : List β}

/-- What a table of lists holds under a key, if anything. -/
def listed (t : Table κ (List β)) (k : κ) : List β := (t.get? k).getD []

/-- A key that is present has something in its list. -/
def Populated (t : Table κ (List β)) : Prop := ∀ k l, t.get? k = some l → l ≠ []

theorem listed_of_get? (h : t.get? k = some l) : t.listed k = l := by simp [listed, h]

@[simp]
theorem listed_empty (k : κ) : (∅ : Table κ (List β)).listed k = [] := rfl

theorem populated_empty : (∅ : Table κ (List β)).Populated := by
  intro k l h
  simp at h

theorem Populated.get?_eq (h : t.Populated) (k : κ) :
    t.get? k = if t.listed k = [] then none else some (t.listed k) := by
  cases hk : t.get? k with
  | none => simp [listed, hk]
  | some l => simp [listed_of_get? hk, h k l hk]

/-- The sum of a measure over all entries. -/
def total (g : κ → α → Nat) (t : Table κ α) : Nat := (t.entries.map fun e => g e.1 e.2).sum

end Table

namespace Mergeable

variable {κ α β : Type} [DecidableEq κ] [Mergeable α] {t u : Table κ α} {k k' : κ} {a : α}

theorem merge_def (t u : Table κ α) : merge t u = u.entries.foldl addEntry t := rfl

theorem mergeAll_def (parts : List (Table κ α)) : mergeAll parts = parts.foldl merge ∅ := rfl

theorem merge_list (l m : List β) : merge l m = l ++ m := rfl

theorem merge_single (t : Table κ α) (k : κ) (a : α) : merge t (single k a) = addEntry t (k, a) := rfl

/-! ### Keys -/

theorem keys_addEntry (t : Table κ α) (e : κ × α) :
    (addEntry t e).keys = if e.1 ∈ t.keys then t.keys else t.keys ++ [e.1] :=
  Table.keys_alter t e.1 _

theorem mem_keys_addEntry {e : κ × α} : k ∈ (addEntry t e).keys ↔ k ∈ t.keys ∨ k = e.1 := by
  rw [keys_addEntry]
  split
  · constructor
    · exact Or.inl
    · rintro (h | rfl) <;> assumption
  · simp

theorem mem_keys_merge : k ∈ (merge t u).keys ↔ k ∈ t.keys ∨ k ∈ u.keys := by
  obtain ⟨es⟩ := u
  rw [merge_def]
  induction es generalizing t with
  | nil => simp [Table.keys]
  | cons e es ih =>
    rw [List.foldl_cons, ih, mem_keys_addEntry, or_assoc]
    simp [Table.keys]

/-- Keys keep their places: others come after them. -/
theorem keys_prefix_merge (t u : Table κ α) : t.keys <+: (merge t u).keys := by
  obtain ⟨es⟩ := u
  rw [merge_def]
  induction es generalizing t with
  | nil => exact List.prefix_rfl
  | cons e es ih =>
    have he : t.keys <+: (addEntry t e).keys := by
      rw [keys_addEntry]
      split
      · exact List.prefix_rfl
      · exact List.prefix_append _ _
    exact he.trans (ih (addEntry t e))

theorem nodup_keys_merge (h : t.keys.Nodup) : (merge t u).keys.Nodup := by
  obtain ⟨es⟩ := u
  rw [merge_def]
  induction es generalizing t with
  | nil => exact h
  | cons e es ih => exact ih (Table.nodup_keys_alter h)

theorem keys_merge_of_subset (h : ∀ k ∈ u.keys, k ∈ t.keys) : (merge t u).keys = t.keys := by
  obtain ⟨es⟩ := u
  rw [merge_def]
  induction es generalizing t with
  | nil => rfl
  | cons e es ih =>
    have he : (addEntry t e).keys = t.keys := by
      rw [keys_addEntry, if_pos (h e.1 (by simp [Table.keys]))]
    rw [List.foldl_cons, ih, he]
    intro k hk
    rw [he]
    exact h k (by simpa [Table.keys] using Or.inr hk)

theorem nodup_keys_foldl (parts : List (Table κ α)) (h : t.keys.Nodup) : (parts.foldl merge t).keys.Nodup := by
  induction parts generalizing t with
  | nil => exact h
  | cons p ps ih => exact ih (nodup_keys_merge h)

theorem nodup_keys_mergeAll (parts : List (Table κ α)) : (mergeAll parts).keys.Nodup :=
  nodup_keys_foldl parts (t := ∅) (by simp)

theorem mem_keys_foldl {parts : List (Table κ α)} :
    k ∈ (parts.foldl merge t).keys ↔ k ∈ t.keys ∨ ∃ p ∈ parts, k ∈ p.keys := by
  induction parts generalizing t with
  | nil => simp
  | cons p ps ih => simp [ih, mem_keys_merge, or_assoc]

theorem mem_keys_mergeAll {parts : List (Table κ α)} : k ∈ (mergeAll parts).keys ↔ ∃ p ∈ parts, k ∈ p.keys := by
  rw [mergeAll_def, mem_keys_foldl]
  simp

theorem isEmpty_mergeAll {parts : List (Table κ α)} :
    (mergeAll parts).isEmpty ↔ ∀ p ∈ parts, p.isEmpty := by
  have key (t : Table κ α) : t.isEmpty ↔ ∀ k, k ∉ t.keys := by
    rw [← List.eq_nil_iff_forall_not_mem]
    simp [Table.isEmpty, Table.keys]
  simp only [key, mem_keys_mergeAll, not_exists, not_and]
  constructor
  · intro h p hp k
    exact h k p hp
  · intro h k p hp
    exact h p hp k

/-! ### Values -/

theorem get?_addEntry (t : Table κ α) (e : κ × α) (k : κ) :
    (addEntry t e).get? k = if e.1 = k then some (merge ((t.get? e.1).getD empty) e.2) else t.get? k :=
  Table.get?_alter t e.1 k _

theorem listed_addEntry (t : Table κ (List β)) (e : κ × List β) (k : κ) :
    (addEntry t e).listed k = t.listed k ++ if e.1 = k then e.2 else [] := by
  rw [Table.listed, get?_addEntry]
  by_cases h : e.1 = k
  · subst k
    simp only [if_true, Option.getD_some, Table.listed]
    rfl
  · simp [h, Table.listed]

/-- Merging tables of lists appends what is listed. -/
theorem listed_merge (t : Table κ (List β)) {u : Table κ (List β)} (hu : u.keys.Nodup) (k : κ) :
    (merge t u).listed k = t.listed k ++ u.listed k := by
  obtain ⟨es⟩ := u
  rw [merge_def]
  induction es generalizing t with
  | nil => exact (List.append_nil _).symm
  | cons e es ih =>
    simp only [Table.keys, List.map_cons, List.nodup_cons] at hu ih
    rw [List.foldl_cons, ih _ hu.2, listed_addEntry, List.append_assoc]
    congr 1
    by_cases h : e.1 = k
    · subst k
      have hnone : (⟨es⟩ : Table κ (List β)).get? e.1 = none := Table.get?_eq_none_iff.mpr hu.1
      simp [Table.listed, Table.get?_cons, hnone]
    · simp [Table.listed, Table.get?_cons, h]

theorem listed_foldl_single (parts : List (κ × List β)) (t : Table κ (List β)) (k : κ) :
    ((parts.map fun p => single p.1 p.2).foldl merge t).listed k =
      t.listed k ++ parts.flatMap fun p => if p.1 = k then p.2 else [] := by
  induction parts generalizing t with
  | nil => simp
  | cons p ps ih =>
    simp only [List.map_cons, List.foldl_cons, List.flatMap_cons]
    rw [ih, merge_single, listed_addEntry, List.append_assoc]

theorem populated_addEntry {t : Table κ (List β)} {e : κ × List β} (ht : t.Populated) (he : e.2 ≠ []) :
    (addEntry t e).Populated := by
  intro k l h
  rw [get?_addEntry] at h
  split at h
  · obtain rfl := Option.some.inj h
    rw [merge_list]
    simp [he]
  · exact ht k l h

theorem populated_merge {t u : Table κ (List β)} (ht : t.Populated) (hu : ∀ e ∈ u.entries, e.2 ≠ []) :
    (merge t u).Populated := by
  obtain ⟨es⟩ := u
  rw [merge_def]
  induction es generalizing t with
  | nil => exact ht
  | cons e es ih => exact ih (populated_addEntry ht (hu e (by simp))) (fun e he => hu e (by simp [he]))

/-! ### Measures -/

/-- A measure of entries that merging adds up. -/
structure Additive (g : κ → α → Nat) : Prop where
  empty : ∀ k, g k empty = 0
  merge : ∀ k a b, g k (merge a b) = g k a + g k b

variable {g : κ → α → Nat}

theorem total_addEntry (hg : Additive g) (t : Table κ α) (e : κ × α) :
    (addEntry t e).total g = t.total g + g e.1 e.2 := by
  obtain ⟨es⟩ := t
  simp only [Table.total, addEntry, Table.alter]
  induction es with
  | nil => simp [Table.alterEntries, hg.merge, hg.empty]
  | cons f es ih =>
    rw [Table.alterEntries]
    by_cases h : f.1 = e.1
    · simp [h, hg.merge]
      omega
    · simp only [h, if_false, List.map_cons, List.sum_cons, ih]
      omega

/-- Measures that add up do so over merged tables. -/
theorem total_merge (hg : Additive g) (t u : Table κ α) : (merge t u).total g = t.total g + u.total g := by
  obtain ⟨es⟩ := u
  rw [merge_def]
  induction es generalizing t with
  | nil => simp [Table.total]
  | cons e es ih =>
    rw [List.foldl_cons, ih, total_addEntry hg]
    simp [Table.total]
    omega

theorem total_mergeAll (hg : Additive g) (parts : List (Table κ α)) :
    (mergeAll parts).total g = (parts.map (Table.total g)).sum := by
  have key (t : Table κ α) : (parts.foldl merge t).total g = t.total g + (parts.map (Table.total g)).sum := by
    induction parts generalizing t with
    | nil => simp
    | cons p ps ih =>
      simp only [List.foldl_cons, List.map_cons, List.sum_cons, ih, total_merge hg]
      omega
  rw [mergeAll_def, key]
  exact Nat.zero_add _

omit [DecidableEq κ] [Mergeable α] in
theorem total_single (g : κ → α → Nat) (k : κ) (a : α) : (single k a).total g = g k a := by
  simp [Table.total, single]

/-! ### Maps of containers -/

/-- A map between containers that goes with merging. -/
structure Hom {α β : Type} [Mergeable α] [Mergeable β] (g : α → β) : Prop where
  empty : g empty = empty
  merge : ∀ a b, g (merge a b) = merge (g a) (g b)

theorem hom_map {α β : Type} (g : α → β) : Hom (List.map g) := ⟨rfl, fun _ _ => List.map_append⟩

namespace Hom

variable {α β : Type} [Mergeable α] [Mergeable β] {g : α → β}

theorem foldl (hg : Hom g) (parts : List α) (a : α) :
    g (parts.foldl Mergeable.merge a) = (parts.map g).foldl Mergeable.merge (g a) := by
  rw [List.foldl_map]
  exact (List.foldl_hom g fun x y => (hg.merge x y).symm).symm

theorem mergeAll (hg : Hom g) (parts : List α) : g (mergeAll parts) = Mergeable.mergeAll (parts.map g) := by
  rw [Mergeable.mergeAll, hg.foldl, hg.empty]
  rfl

theorem addEntry (hg : Hom g) (t : Table κ α) (e : κ × α) :
    (addEntry t e).mapValues g = Mergeable.addEntry (t.mapValues g) (e.1, g e.2) := by
  have hvalue (present : Option α) :
      g (Mergeable.merge (present.getD Mergeable.empty) e.2) =
        Mergeable.merge ((present.map g).getD Mergeable.empty) (g e.2) := by
    rw [hg.merge]
    cases present with
    | none => rw [Option.getD_none, hg.empty]; rfl
    | some a => rfl
  exact Table.mapValues_alter hvalue t e.1

/-- Mapping the values of tables goes with merging them. -/
theorem mapValues (hg : Hom g) : Hom (Table.mapValues g : Table κ α → Table κ β) where
  empty := rfl
  merge t u := by
    obtain ⟨es⟩ := u
    rw [merge_def]
    induction es generalizing t with
    | nil => rfl
    | cons e es ih => rw [List.foldl_cons, ih, hg.addEntry]; rfl

end Hom

end Mergeable

end UnionBridge
