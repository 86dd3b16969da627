import Mathlib
import UnionBridge.Table

/-! Looking keys up in ordered tables, after each operation that changes them. -/
namespace UnionBridge

/-- Among entries with distinct keys, the one with a given key is found. -/
theorem find?_of_nodup {κ α : Type} [DecidableEq κ] {key : α → κ} {l : List α} {a : α} (hn : (l.map key).Nodup)
    (ha : a ∈ l) : (l.find? fun b => key b = key a) = some a := by
  obtain ⟨b, hb⟩ := Option.isSome_iff_exists.mp
    (List.find?_isSome (p := fun b => decide (key b = key a)) |>.mpr ⟨a, ha, by simp⟩)
  have hkey : key b = key a := by simpa using List.find?_some hb
  rw [hb, List.inj_on_of_nodup_map hn (List.mem_of_find?_eq_some hb) ha hkey]

namespace Table

variable {κ α β : Type} [DecidableEq κ] {t : Table κ α} {k k' : κ} {a : α}

theorem get?_cons (e : κ × α) (es : List (κ × α)) (k : κ) :
    (⟨e :: es⟩ : Table κ α).get? k = if e.1 = k then some e.2 else (⟨es⟩ : Table κ α).get? k := by
  simp only [get?, List.find?_cons]
  by_cases h : e.1 = k <;> simp [h]

@[simp]
theorem get?_empty (k : κ) : (∅ : Table κ α).get? k = none := rfl

theorem get?_alterEntries (k k' : κ) (f : Option α → α) (es : List (κ × α)) :
    (⟨alterEntries k f es⟩ : Table κ α).get? k' =
      if k = k' then some (f ((⟨es⟩ : Table κ α).get? k)) else (⟨es⟩ : Table κ α).get? k' := by
  induction es with
  | nil =>
    rw [alterEntries, get?_cons]
    rfl
  | cons e rest ih =>
    obtain ⟨l, b⟩ := e
    rw [alterEntries]
    by_cases hl : l = k
    · subst l
      by_cases hk : k = k' <;> simp [get?_cons, hk]
    · simp only [hl, if_false, get?_cons, ih]
      by_cases hk : k = k'
      · subst k'
        simp [hl]
      · simp [hk]

theorem get?_alter (t : Table κ α) (k k' : κ) (f : Option α → α) :
    (t.alter k f).get? k' = if k = k' then some (f (t.get? k)) else t.get? k' :=
  get?_alterEntries k k' f t.entries

theorem get?_insert (t : Table κ α) (k k' : κ) (a : α) :
    (t.insert k a).get? k' = if k = k' then some a else t.get? k' :=
  get?_alter t k k' _

@[simp]
theorem get?_insert_self (t : Table κ α) (k : κ) (a : α) : (t.insert k a).get? k = some a := by
  simp [get?_insert]

theorem get?_insert_of_ne (t : Table κ α) (a : α) (h : k ≠ k') : (t.insert k a).get? k' = t.get? k' := by
  simp [get?_insert, h]

theorem get?_erase (t : Table κ α) (k k' : κ) : (t.erase k).get? k' = if k = k' then none else t.get? k' := by
  obtain ⟨es⟩ := t
  induction es with
  | nil => simp [erase, get?]
  | cons e es ih =>
    rw [erase] at ih ⊢
    by_cases he : e.1 = k
    · rw [List.filter_cons_of_neg (by simpa using he), ih, get?_cons, he]
      split <;> rfl
    · rw [List.filter_cons_of_pos (by simpa using he), get?_cons, get?_cons, ih]
      by_cases hk : k = k'
      · simp [hk ▸ he, hk]
      · simp [hk]

theorem get?_mapValues (f : α → β) (t : Table κ α) (k : κ) : (t.mapValues f).get? k = (t.get? k).map f := by
  obtain ⟨es⟩ := t
  induction es with
  | nil => rfl
  | cons e es ih =>
    simp only [mapValues, List.map_cons, get?_cons] at ih ⊢
    by_cases h : e.1 = k
    · simp [h]
    · simp [h, ih]

/-- Mapping values after changing one comes to changing the mapped one. -/
theorem mapValues_alter {g : α → β} {f : Option α → α} {f' : Option β → β} (hf : ∀ a, g (f a) = f' (a.map g))
    (t : Table κ α) (k : κ) : (t.alter k f).mapValues g = (t.mapValues g).alter k f' := by
  obtain ⟨es⟩ := t
  simp only [alter, mapValues, mk.injEq]
  induction es with
  | nil => simp [alterEntries, hf]
  | cons e es ih =>
    rw [alterEntries, List.map_cons, alterEntries]
    split
    · rw [List.map_cons, hf]
      rfl
    · rw [List.map_cons, ih]

omit [DecidableEq κ] in
@[simp]
theorem keys_mapValues (f : α → β) (t : Table κ α) : (t.mapValues f).keys = t.keys := by
  simp [keys, mapValues]

theorem get?_eq_none_iff : t.get? k = none ↔ k ∉ t.keys := by
  simp only [get?, keys, Option.map_eq_none_iff, List.find?_eq_none, decide_eq_true_eq, List.mem_map, not_exists,
    not_and]

theorem isSome_get?_iff : (t.get? k).isSome ↔ k ∈ t.keys := by
  rw [← Option.ne_none_iff_isSome, ne_eq, get?_eq_none_iff, Decidable.not_not]

theorem contains_iff : t.contains k ↔ k ∈ t.keys := isSome_get?_iff

theorem mem_entries_of_get? (h : t.get? k = some a) : (k, a) ∈ t.entries := by
  simp only [get?, Option.map_eq_some_iff] at h
  obtain ⟨e, he, rfl⟩ := h
  have hk : e.1 = k := by simpa using List.find?_some he
  subst k
  exact List.mem_of_find?_eq_some he

theorem get?_of_mem_entries (hn : t.keys.Nodup) (h : (k, a) ∈ t.entries) : t.get? k = some a := by
  rw [get?, find?_of_nodup hn h]
  rfl

theorem mem_entries_iff (hn : t.keys.Nodup) : (k, a) ∈ t.entries ↔ t.get? k = some a :=
  ⟨get?_of_mem_entries hn, mem_entries_of_get?⟩

theorem nodup_keys_alter {f : Option α → α} (hn : t.keys.Nodup) : (t.alter k f).keys.Nodup := by
  rw [keys_alter]
  split
  · exact hn
  · rename_i h
    exact List.nodup_append.mpr ⟨hn, by simp, by rintro a ha b hb rfl; simp_all⟩

/-! ### Several entries -/

theorem insertAll_cons (t : Table κ α) (e : κ × α) (es : List (κ × α)) :
    t.insertAll (e :: es) = (t.insert e.1 e.2).insertAll es := rfl

theorem insertAll_append (t : Table κ α) (es es' : List (κ × α)) :
    t.insertAll (es ++ es') = (t.insertAll es).insertAll es' := List.foldl_append

theorem get?_insertAll_of_notMem {es : List (κ × α)} (h : k ∉ es.map Prod.fst) :
    (t.insertAll es).get? k = t.get? k := by
  induction es generalizing t with
  | nil => rfl
  | cons e es ih =>
    simp only [List.map_cons, List.mem_cons, not_or] at h
    rw [insertAll_cons, ih h.2, get?_insert_of_ne t e.2 (Ne.symm h.1)]

/-- After several insertions a key has one of the values that were inserted for it. -/
theorem exists_get?_insertAll {es : List (κ × α)} (h : k ∈ es.map Prod.fst) :
    ∃ a, (k, a) ∈ es ∧ (t.insertAll es).get? k = some a := by
  induction es generalizing t with
  | nil => cases h
  | cons e es ih =>
    rw [insertAll_cons]
    by_cases hk : k ∈ es.map Prod.fst
    · obtain ⟨a, ha, hget⟩ := ih (t := t.insert e.1 e.2) hk
      exact ⟨a, List.mem_cons_of_mem e ha, hget⟩
    · obtain rfl : k = e.1 := (List.mem_cons.mp h).resolve_right hk
      exact ⟨e.2, List.mem_cons_self, by rw [get?_insertAll_of_notMem hk, get?_insert_self]⟩

/-- What is inserted stays exactly until something else is inserted for its key. -/
theorem get?_insertAll_cons_iff {es : List (κ × α)} (hne : ∀ b, (k, b) ∈ es → b ≠ a) :
    (t.insertAll ((k, a) :: es)).get? k = some a ↔ k ∉ es.map Prod.fst := by
  rw [insertAll_cons]
  constructor
  · intro h hk
    obtain ⟨b, hb, hget⟩ := exists_get?_insertAll (t := t.insert k a) hk
    rw [hget] at h
    exact hne b hb (Option.some.inj h)
  · intro hk
    rw [get?_insertAll_of_notMem hk, get?_insert_self]

/-- After several insertions under distinct keys each key has what was inserted. -/
theorem get?_insertAll_of_mem {es : List (κ × α)} (hn : (es.map Prod.fst).Nodup) (h : (k, a) ∈ es) :
    (t.insertAll es).get? k = some a := by
  induction es generalizing t with
  | nil => cases h
  | cons e es ih =>
    simp only [List.map_cons, List.nodup_cons] at hn
    rw [insertAll_cons]
    rcases List.mem_cons.mp h with rfl | h
    · rw [get?_insertAll_of_notMem hn.1, get?_insert_self]
    · exact ih hn.2 h

end Table

end UnionBridge
