import Mathlib
import Std.Data.String.ToNat
import UnionBridge.Schema.Basic

/-! The fields of a variant. Distinct names make distinct attributes and keys; positions are always distinct. -/
namespace UnionBridge.Body

variable {b : Body} {f : Field}

/-- The names of the fields that have one. -/
def fieldNames (b : Body) : List String := b.fields.filterMap (·.name)

/-- The attributes of the fields, in order. -/
def attrs (b : Body) : List String := b.fields.map (·.attr)

theorem mem_fields_named {fs : List (String × DottedName)} :
    f ∈ (named fs).fields ↔ ∃ i e, fs[i]? = some e ∧ f = ⟨some e.1, e.2, i⟩ := by
  simp only [fields, List.mem_mapIdx]
  constructor
  · rintro ⟨i, hi, rfl⟩
    exact ⟨i, fs[i], List.getElem?_eq_getElem hi, rfl⟩
  · rintro ⟨i, e, he, hf⟩
    obtain ⟨hi, rfl⟩ := List.getElem?_eq_some_iff.mp he
    exact ⟨i, hi, hf.symm⟩

theorem mem_fields_positional {ts : List DottedName} :
    f ∈ (positional ts).fields ↔ ∃ i t, ts[i]? = some t ∧ f = ⟨none, t, i⟩ := by
  simp only [fields, List.mem_mapIdx]
  constructor
  · rintro ⟨i, hi, rfl⟩
    exact ⟨i, ts[i], List.getElem?_eq_getElem hi, rfl⟩
  · rintro ⟨i, t, ht, hf⟩
    obtain ⟨hi, rfl⟩ := List.getElem?_eq_some_iff.mp ht
    exact ⟨i, hi, hf.symm⟩

theorem map_fields_named {g : Field → String} (h : ∀ f n, f.name = some n → g f = n) (fs : List (String × DottedName)) :
    (named fs).fields.map g = fs.map Prod.fst := by
  apply List.ext_getElem
  · simp [fields]
  · intro i _ _
    simp only [fields, List.getElem_map, List.getElem_mapIdx]
    exact h _ _ rfl

theorem fieldNames_named (fs : List (String × DottedName)) : (named fs).fieldNames = fs.map Prod.fst := by
  have hkey (f : Field) (n : String) (h : f.name = some n) : f.key = n := by simp [Field.key, h]
  rw [← map_fields_named hkey, fieldNames, ← List.filterMap_eq_map]
  apply List.filterMap_congr
  intro f hf
  obtain ⟨_, _, _, rfl⟩ := mem_fields_named.mp hf
  rfl

/-- A text for every field differs between fields if it is the name where there is one and else tells positions
apart. -/
theorem nodup_map_fields {g : Field → String} (hn : b.fieldNames.Nodup) (hname : ∀ f n, f.name = some n → g f = n)
    (hindex : ∀ f f', f.name = none → f'.name = none → g f = g f' → f.index = f'.index) :
    (b.fields.map g).Nodup := by
  cases b with
  | unit => simp [fields]
  | named fs =>
    rw [map_fields_named hname]
    rwa [fieldNames_named] at hn
  | positional ts =>
    rw [List.Nodup, List.pairwise_map, List.pairwise_iff_getElem]
    intro i j hi hj hij heq
    simp only [fields, List.getElem_mapIdx] at heq
    have := hindex _ _ rfl rfl heq
    simp only at this
    omega

theorem nodup_attrs (hn : b.fieldNames.Nodup) : b.attrs.Nodup := by
  apply nodup_map_fields hn
  · intro f n h
    simp [Field.attr, h]
  · intro f f' h h' heq
    simp only [Field.attr, h, h', Option.getD_none] at heq
    exact Nat.repr_injective ((String.append_right_inj "_").mp heq)

theorem nodup_keys (hn : b.fieldNames.Nodup) : (b.fields.map (·.key)).Nodup := by
  apply nodup_map_fields hn
  · intro f n h
    simp [Field.key, h]
  · intro f f' h h' heq
    simp only [Field.key, h, h', Option.getD_none] at heq
    exact Nat.repr_injective heq

end UnionBridge.Body
