import UnionBridge.Compile
import UnionBridge.Proofs.Mapping.Claims
import UnionBridge.Proofs.Schema.Fields

/-! Schemas without repeated names. -/
namespace UnionBridge

/-- Nothing repeats exactly if the names differ from each other and from those seen before. -/
theorem repeats_eq_nil_iff {α : Type} {key : α → String} {seen : List String} {l : List α} :
    repeats key seen l = [] ↔ (l.map key).Nodup ∧ ∀ a ∈ l, key a ∉ seen := by
  induction l generalizing seen with
  | nil => simp [repeats]
  | cons a l ih =>
    rw [repeats]
    by_cases ha : key a ∈ seen
    · simp [ha]
    · simp only [List.contains_eq_mem, ha, decide_false, if_false, ih, List.map_cons, List.nodup_cons, List.mem_map,
        List.mem_cons, not_or, forall_eq_or_imp, not_exists, not_and, Bool.false_eq_true]
      constructor
      · rintro ⟨hn, hl⟩
        exact ⟨⟨fun b hb => (hl b hb).1, hn⟩, not_false, fun b hb => (hl b hb).2⟩
      · rintro ⟨⟨hne, hn⟩, _, hl⟩
        exact ⟨hn, fun b hb => ⟨hne b hb, hl b hb⟩⟩

namespace Schema

variable {u : Union} {v : Variant} {s : Schema} {file : Option String}

/-- No name is declared twice in the same scope. -/
structure Distinct (s : Schema) : Prop where
  unions : (s.unions.map (·.name)).Nodup
  variants : ∀ u ∈ s.unions, (u.variants.map (·.name)).Nodup
  fields : ∀ u ∈ s.unions, ∀ v ∈ u.variants, v.body.fieldNames.Nodup

theorem fieldRepeats_eq_nil_iff : fieldRepeats u v = [] ↔ v.body.fieldNames.Nodup := by
  rw [fieldRepeats, List.map_eq_nil_iff, repeats_eq_nil_iff]
  simp [Body.fieldNames]

theorem variantRepeats_eq_nil_iff {seen : List String} {vs : List Variant} :
    variantRepeats u seen vs = [] ↔
      (vs.map (·.name)).Nodup ∧ (∀ v ∈ vs, v.name ∉ seen) ∧ ∀ v ∈ vs, v.body.fieldNames.Nodup := by
  induction vs generalizing seen with
  | nil => simp [variantRepeats]
  | cons v vs ih =>
    rw [variantRepeats, List.append_eq_nil_iff, List.append_eq_nil_iff, fieldRepeats_eq_nil_iff, ih]
    by_cases hv : v.name ∈ seen
    · simp [hv]
    · simp only [List.contains_eq_mem, hv, decide_false, Bool.false_eq_true, if_false, true_and, List.map_cons,
        List.nodup_cons, List.mem_map, List.mem_cons, not_or, forall_eq_or_imp, not_exists, not_and]
      constructor
      · rintro ⟨hf, hn, hl, hfs⟩
        exact ⟨⟨fun w hw => (hl w hw).1, hn⟩, ⟨not_false, fun w hw => (hl w hw).2⟩, hf, hfs⟩
      · rintro ⟨⟨hne, hn⟩, ⟨_, hl⟩, hf, hfs⟩
        exact ⟨hf, hn, fun w hw => ⟨hne w hw, hl w hw⟩, hfs⟩

theorem unionRepeats_eq_nil_iff {seen : List String} {us : List Union} :
    unionRepeats seen us = [] ↔
      (us.map (·.name)).Nodup ∧ (∀ u ∈ us, u.name ∉ seen) ∧
        ∀ u ∈ us, (u.variants.map (·.name)).Nodup ∧ ∀ v ∈ u.variants, v.body.fieldNames.Nodup := by
  induction us generalizing seen with
  | nil => simp [unionRepeats]
  | cons u us ih =>
    rw [unionRepeats, List.append_eq_nil_iff, List.append_eq_nil_iff, variantRepeats_eq_nil_iff, ih]
    by_cases hu : u.name ∈ seen
    · simp [hu]
    · simp only [List.contains_eq_mem, hu, decide_false, Bool.false_eq_true, if_false, true_and, List.map_cons,
        List.nodup_cons, List.mem_map, List.mem_cons, not_or, forall_eq_or_imp, not_exists, not_and]
      constructor
      · rintro ⟨⟨hvn, _, hf⟩, hn, hl, hus⟩
        exact ⟨⟨fun w hw => (hl w hw).1, hn⟩, ⟨not_false, fun w hw => (hl w hw).2⟩, ⟨hvn, hf⟩, hus⟩
      · rintro ⟨⟨hne, hn⟩, ⟨_, hl⟩, ⟨hvn, hf⟩, hus⟩
        exact ⟨⟨hvn, by simp, hf⟩, hn, fun w hw => ⟨hne w hw, hl w hw⟩, hus⟩

theorem repeatedNames_eq_nil_iff : s.repeatedNames file = [] ↔ s.Distinct := by
  rw [repeatedNames, List.map_eq_nil_iff, unionRepeats_eq_nil_iff]
  constructor
  · rintro ⟨hn, _, hus⟩
    exact ⟨hn, fun u hu => (hus u hu).1, fun u hu => (hus u hu).2⟩
  · intro h
    exact ⟨h.unions, by simp, fun u hu => ⟨h.variants u hu, h.fields u hu⟩⟩

/-- Only schemas without repeated names are read. -/
theorem read_eq_ok_iff {source : String} :
    Schema.read source file = .ok s ↔ parse source = .ok s ∧ s.Distinct := by
  rw [read]
  cases hp : parse source with
  | error f => simp
  | ok t =>
    simp only
    rw [← @repeatedNames_eq_nil_iff s file]
    split
    · rename_i hn
      constructor
      · intro h
        obtain rfl := Except.ok.inj h
        exact ⟨rfl, hn⟩
      · rintro ⟨h, _⟩
        rw [Except.ok.inj h]
    · rename_i hne
      constructor
      · intro h
        cases h
      · rintro ⟨h, hs⟩
        obtain rfl := Except.ok.inj h
        exact absurd hs hne

theorem union?_of_mem (hn : (s.unions.map (·.name)).Nodup) (hu : u ∈ s.unions) : s.union? u.name = some u :=
  find?_of_nodup hn hu

theorem declared?_of_mem (hn : (s.unions.map (·.name)).Nodup) (hu : u ∈ s.unions) :
    s.declared? (.ofName u.name) = some u :=
  union?_of_mem hn hu

theorem mem_of_declared? {source : DottedName} (h : s.declared? source = some u) :
    u ∈ s.unions ∧ source = .ofName u.name := by
  obtain ⟨name, hname, hfind⟩ := Option.bind_eq_some_iff.mp h
  have hu : u.name = name := by simpa using List.find?_some hfind
  exact ⟨List.mem_of_find?_eq_some hfind, hu ▸ DottedName.simple?_eq_some_iff.mp hname⟩

end Schema

end UnionBridge
