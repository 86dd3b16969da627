import UnionBridge.Proofs.Compile
import UnionBridge.Proofs.Mapping.Directives

/-! The check of a plan against the sources that its schema declares. Every gap between what is claimed and what is
declared is reported, as often as it is there, and nothing else is. -/
namespace UnionBridge

variable {s : Schema} {u decl : Union} {p : Plan} {file : Option String} {S : DottedName}
  {byCase : Table String (List Candidate)} {case : String} {L : List Candidate}

/-! ### Tables -/

/-- Among entries with distinct keys, what occurs under one key only occurs as often as it occurs there. -/
theorem Table.count_flatMap_entries {κ α β : Type} [DecidableEq κ] [DecidableEq β] {t : Table κ α}
    {f : κ × α → List β} {k : κ} {b : β} (hn : t.keys.Nodup) (hb : ∀ e, b ∈ f e → e.1 = k) :
    (t.entries.flatMap f).count b = (t.get? k).elim 0 fun a => (f (k, a)).count b := by
  obtain ⟨es⟩ := t
  induction es with
  | nil => rfl
  | cons e es ih =>
    obtain ⟨hhead, htail⟩ := List.nodup_cons.mp hn
    rw [List.flatMap_cons, List.count_append, ih htail, get?_cons]
    split
    · rename_i hk
      subst hk
      rw [get?_eq_none_iff.mpr hhead]
      rfl
    · rename_i hk
      rw [List.count_eq_zero.mpr fun h => hk (hb e h), Nat.zero_add]

/-! ### What there is to find -/

/-- A field can be read from a variant: one with a name from a variant that has a field of that name, one with a
position from a variant with more fields than that, which have no names either. -/
def Body.Offers : Body → Field → Prop
  | .named fs, ⟨some name, _, _⟩ => name ∈ fs.map Prod.fst
  | .positional types, ⟨none, _, index⟩ => index < types.length
  | _, _ => False

/-- A source declares the case, and every field of the target can be read from it. -/
def Union.Supplies (decl : Union) (case : String) (t : Target) : Prop :=
  ∃ v ∈ decl.variants, v.name = case ∧ ∀ f ∈ t.fields, v.body.Offers f

/-- The cases of a source are its variants, and each supplies its candidates. -/
structure Union.Covered (decl : Union) (byCase : Table String (List Candidate)) : Prop where
  cases : ∀ case, case ∈ byCase.keys ↔ case ∈ decl.variants.map (·.name)
  supplied : ∀ case, ∀ c ∈ byCase.listed case, decl.Supplies case c.target

/-- A gap between the claims on a source and its declaration. -/
inductive Gap
  | unknownCase (case : String) (t : Target)
  | unreadable (case : String) (c : Candidate)
  | uncovered (cases : List String)
  deriving DecidableEq

instance : (b : Body) → (f : Field) → Decidable (b.Offers f)
  | .named fs, ⟨some name, _, _⟩ => inferInstanceAs (Decidable (name ∈ fs.map Prod.fst))
  | .positional types, ⟨none, _, index⟩ => inferInstanceAs (Decidable (index < types.length))
  | .unit, _ | .named _, ⟨none, _, _⟩ | .positional _, ⟨some _, _, _⟩ => .isFalse id

instance (decl : Union) (case : String) (t : Target) : Decidable (decl.Supplies case t) :=
  inferInstanceAs (Decidable (∃ v ∈ decl.variants, v.name = case ∧ ∀ f ∈ t.fields, v.body.Offers f))

/-- The gaps of a declared source: each target that claims a case which is not declared, once for that case; each
candidate that a declared case does not supply, as often as it is one; and, if there are any, the variants without a
candidate, once and in the order of declaration. -/
structure Union.Gaps (decl : Union) (byCase : Table String (List Candidate)) (gaps : List Gap) : Prop where
  unknownCase : ∀ case t, gaps.count (.unknownCase case t) =
    if case ∉ decl.variants.map (·.name) ∧ t ∈ (byCase.listed case).map (·.target) then 1 else 0
  unreadable : ∀ case c, gaps.count (.unreadable case c) =
    if case ∈ decl.variants.map (·.name) ∧ ¬decl.Supplies case c.target then (byCase.listed case).count c else 0
  uncovered : ∀ cases, gaps.count (.uncovered cases) =
    if cases ≠ [] ∧ cases = (decl.variants.map (·.name)).filter (byCase.listed · = []) then 1 else 0

/-- A diagnostic is the report of a gap. -/
def Gap.Reported (p : Plan) (S : DottedName) : Gap → Diagnostic → Prop
  | .unknownCase case t, d => d.code = some Fault.unknownCase.code ∧ d.phase = some "check" ∧ d.isError ∧
    d.span = t.span ∧ d.message = s!"'{p.mapping.variantPath t}' maps from '{S}.{case}', but '{S}' has no such case"
  | .unreadable case c, d => d.code = some Fault.fieldShape.code ∧ d.phase = some "check" ∧ d.isError ∧
    d.span = c.target.span ∧ ∃ why : Unreadable,
      d.message = s!"cannot convert '{S}.{case}' into '{p.mapping.variantPath c.target}': {why.message}"
  | .uncovered cases, d => d.code = some Fault.nonExhaustive.code ∧ d.phase = some "check" ∧ d.isError ∧
    d.span = p.mapping.span ∧
      d.message = s!"conversion from '{S}' into '{p.dest}' does not cover: " ++ ", ".intercalate cases

namespace Union.Gaps

variable {gaps : List Gap} (h : decl.Gaps byCase gaps)
include h

theorem mem_unknownCase {t : Target} : .unknownCase case t ∈ gaps ↔
    case ∉ decl.variants.map (·.name) ∧ t ∈ (byCase.listed case).map (·.target) := by
  rw [← List.count_pos_iff, h.unknownCase]
  split
  · exact iff_of_true Nat.one_pos ‹_›
  · exact iff_of_false (Nat.lt_irrefl 0) ‹_›

theorem mem_unreadable {c : Candidate} : .unreadable case c ∈ gaps ↔
    (case ∈ decl.variants.map (·.name) ∧ ¬decl.Supplies case c.target) ∧ c ∈ byCase.listed case := by
  rw [← List.count_pos_iff, h.unreadable]
  split
  · rw [List.count_pos_iff, and_iff_right ‹_›]
  · exact iff_of_false (Nat.lt_irrefl 0) fun hc => absurd hc.1 ‹_›

theorem mem_uncovered {cases : List String} : .uncovered cases ∈ gaps ↔
    cases ≠ [] ∧ cases = (decl.variants.map (·.name)).filter (byCase.listed · = []) := by
  rw [← List.count_pos_iff, h.uncovered]
  split
  · exact iff_of_true Nat.one_pos ‹_›
  · exact iff_of_false (Nat.lt_irrefl 0) ‹_›

/-- Where there are no gaps, all is covered. -/
theorem eq_nil_iff (ht : byCase.Populated) : gaps = [] ↔ decl.Covered byCase := by
  have hkeys (case : String) : case ∈ byCase.keys ↔ byCase.listed case ≠ [] := by
    rw [← Table.isSome_get?_iff, ht.get?_eq]
    split <;> simp_all
  constructor
  · rintro rfl
    have hdeclared (case : String) (hcase : byCase.listed case ≠ []) : case ∈ decl.variants.map (·.name) := by
      by_contra hno
      obtain ⟨c, hc⟩ := List.exists_mem_of_ne_nil _ hcase
      exact List.not_mem_nil (h.mem_unknownCase.mpr ⟨hno, List.mem_map_of_mem hc⟩)
    refine ⟨fun case => ⟨fun hk => hdeclared case ((hkeys case).mp hk), fun hv => (hkeys case).mpr fun hno => ?_⟩,
      fun case c hc => ?_⟩
    · have hmissing : case ∈ (decl.variants.map (·.name)).filter (byCase.listed · = []) :=
        List.mem_filter.mpr ⟨hv, decide_eq_true hno⟩
      exact List.not_mem_nil (h.mem_uncovered.mpr ⟨List.ne_nil_of_mem hmissing, rfl⟩)
    · by_contra hno
      exact List.not_mem_nil (h.mem_unreadable.mpr ⟨⟨hdeclared case (List.ne_nil_of_mem hc), hno⟩, hc⟩)
  · intro hc
    rw [List.eq_nil_iff_forall_not_mem]
    rintro (⟨case, t⟩ | ⟨case, c⟩ | cases) hgap
    · obtain ⟨hno, ht⟩ := h.mem_unknownCase.mp hgap
      obtain ⟨c, hmem, _⟩ := List.mem_map.mp ht
      exact hno ((hc.cases case).mp ((hkeys case).mpr (List.ne_nil_of_mem hmem)))
    · obtain ⟨⟨_, hno⟩, hmem⟩ := h.mem_unreadable.mp hgap
      exact hno (hc.supplied case c hmem)
    · obtain ⟨hne, heq⟩ := h.mem_uncovered.mp hgap
      obtain ⟨case, hmem⟩ := List.exists_mem_of_ne_nil cases hne
      obtain ⟨hv, hno⟩ := List.mem_filter.mp (heq ▸ hmem)
      exact (hkeys case).mp ((hc.cases case).mpr hv) (of_decide_eq_true hno)

end Union.Gaps

/-! ### What is found -/

namespace Plan

/-- The gaps of one claimed case. -/
def caseGaps (decl : Union) (case : String) (L : List Candidate) : List Gap :=
  if case ∈ decl.variants.map (·.name) then
    (L.filter fun c => ¬decl.Supplies case c.target).map (.unreadable case)
  else (L.map (·.target)).eraseDups.map (.unknownCase case)

/-- The gap that missing cases are; none if no case is missing. -/
def missingGap : List String → List Gap
  | [] => []
  | case :: cases => [.uncovered (case :: cases)]

def sourceGaps (decl : Union) (byCase : Table String (List Candidate)) : List Gap :=
  byCase.entries.flatMap (fun (case, L) => caseGaps decl case L) ++ missingGap (missingCases decl byCase)

theorem eq_of_mem_caseGaps {g : Gap} (h : g ∈ caseGaps decl case L) :
    (∃ t, g = .unknownCase case t) ∨ ∃ c, g = .unreadable case c := by
  rw [caseGaps] at h
  split at h
  · obtain ⟨c, _, rfl⟩ := List.mem_map.mp h
    exact .inr ⟨c, rfl⟩
  · obtain ⟨t, _, rfl⟩ := List.mem_map.mp h
    exact .inl ⟨t, rfl⟩

theorem count_unknownCase {t : Target} : (caseGaps decl case L).count (.unknownCase case t) =
    if case ∉ decl.variants.map (·.name) ∧ t ∈ L.map (·.target) then 1 else 0 := by
  have hn : (L.map (·.target)).eraseDups.Nodup := nodup_eraseDups _
  rw [caseGaps]
  split
  · rename_i hv
    rw [if_neg fun h => h.1 hv, List.count_eq_zero]
    simp
  · rename_i hv
    rw [List.count_map_of_injective _ _ fun _ _ h => (Gap.unknownCase.inj h).2, hn.count]
    simp only [List.mem_eraseDups, hv, not_false_eq_true, true_and]

theorem count_unreadable {c : Candidate} : (caseGaps decl case L).count (.unreadable case c) =
    if case ∈ decl.variants.map (·.name) ∧ ¬decl.Supplies case c.target then L.count c else 0 := by
  rw [caseGaps]
  split
  · rename_i hv
    rw [List.count_map_of_injective _ _ fun _ _ h => (Gap.unreadable.inj h).2]
    split
    · rename_i hc
      exact List.count_filter (decide_eq_true hc.2)
    · rename_i hc
      rw [List.count_eq_zero, List.mem_filter]
      exact fun h => hc ⟨hv, of_decide_eq_true h.2⟩
  · rename_i hv
    rw [if_neg fun h => hv h.1, List.count_eq_zero]
    simp

theorem count_missingGap (missing cases : List String) :
    (missingGap missing).count (.uncovered cases) = if cases ≠ [] ∧ cases = missing then 1 else 0 := by
  cases missing with
  | nil => simp [missingGap]
  | cons case missing =>
    rw [missingGap, List.count_singleton]
    simp only [beq_iff_eq, Gap.uncovered.injEq]
    refine if_congr ⟨?_, fun h => h.2.symm⟩ rfl rfl
    rintro rfl
    exact ⟨List.cons_ne_nil _ _, rfl⟩

theorem mem_missingGap {g : Gap} {missing : List String} (h : g ∈ missingGap missing) : g = .uncovered missing := by
  cases missing with
  | nil => cases h
  | cons case missing => exact List.mem_singleton.mp h

theorem gaps_sourceGaps (hn : byCase.keys.Nodup) (ht : byCase.Populated) :
    decl.Gaps byCase (sourceGaps decl byCase) := by
  have hcount (g : Gap) (case : String) (hg : ∀ e : String × List Candidate, g ∈ caseGaps decl e.1 e.2 → e.1 = case) :
      (byCase.entries.flatMap fun e => caseGaps decl e.1 e.2).count g =
        (caseGaps decl case (byCase.listed case)).count g := by
    rw [Table.count_flatMap_entries hn hg, Table.listed]
    cases byCase.get? case with
    | none => simp [caseGaps]
    | some L => rfl
  have hmissing : missingCases decl byCase = (decl.variants.map (·.name)).filter (byCase.listed · = []) := by
    refine List.filter_congr fun case _ => ?_
    rw [Table.contains, ht.get?_eq]
    split <;> simp_all
  refine ⟨fun case t => ?_, fun case c => ?_, fun cases => ?_⟩
  all_goals rw [sourceGaps, List.count_append]
  · have hno : .unknownCase case t ∉ missingGap (missingCases decl byCase) := fun h => by cases mem_missingGap h
    rw [List.count_eq_zero.mpr hno, hcount _ case fun e he => ?_, count_unknownCase, Nat.add_zero]
    obtain ⟨_, h⟩ | ⟨_, h⟩ := eq_of_mem_caseGaps he
    · exact (Gap.unknownCase.inj h).1.symm
    · cases h
  · have hno : .unreadable case c ∉ missingGap (missingCases decl byCase) := fun h => by cases mem_missingGap h
    rw [List.count_eq_zero.mpr hno, hcount _ case fun e he => ?_, count_unreadable, Nat.add_zero]
    obtain ⟨_, h⟩ | ⟨_, h⟩ := eq_of_mem_caseGaps he
    · cases h
    · exact (Gap.unreadable.inj h).1.symm
  · have hno : .uncovered cases ∉ byCase.entries.flatMap fun e => caseGaps decl e.1 e.2 := by
      rw [List.mem_flatMap]
      rintro ⟨_, _, he⟩
      obtain ⟨_, h⟩ | ⟨_, h⟩ := eq_of_mem_caseGaps he <;> cases h
    rw [List.count_eq_zero.mpr hno, Nat.zero_add, count_missingGap, hmissing]

theorem exists_field_named_iff {fs : List (String × DottedName)} {name : String} :
    (∃ f ∈ (Body.named fs).fields, f.name = some name) ↔ name ∈ fs.map Prod.fst := by
  constructor
  · rintro ⟨_, hf, hname⟩
    obtain ⟨_, e, he, rfl⟩ := Body.mem_fields_named.mp hf
    exact List.mem_map.mpr ⟨e, List.mem_of_getElem? he, Option.some.inj hname⟩
  · intro h
    obtain ⟨e, he, rfl⟩ := List.mem_map.mp h
    obtain ⟨i, hi⟩ := List.getElem?_of_mem he
    exact ⟨_, Body.mem_fields_named.mpr ⟨i, e, hi, rfl⟩, rfl⟩

theorem unreadable?_eq_none_iff {b : Body} {f : Field} : b.unreadable? f = none ↔ b.Offers f := by
  obtain ⟨name, type, index⟩ := f
  cases name with
  | none => cases b <;> simp [Body.unreadable?, Body.Offers, Body.isPositional, Body.fields]
  | some name =>
    cases b with
    | unit => simp [Body.unreadable?, Body.Offers, Body.isNamed]
    | positional types => simp [Body.unreadable?, Body.Offers, Body.isNamed]
    | named fs =>
      rw [Body.Offers, ← exists_field_named_iff]
      simp [Body.unreadable?, Body.isNamed]

theorem supplies_iff (hn : (decl.variants.map (·.name)).Nodup) {v : Variant} (hv : decl.variant? case = some v)
    {t : Target} : decl.Supplies case t ↔ t.fields.findSome? v.body.unreadable? = none := by
  obtain ⟨hmem, hname⟩ : v ∈ decl.variants ∧ v.name = case :=
    ⟨List.mem_of_find?_eq_some hv, by simpa using List.find?_some hv⟩
  simp only [List.findSome?_eq_none_iff, unreadable?_eq_none_iff]
  constructor
  · rintro ⟨w, hw, hwname, hoffers⟩
    rwa [List.inj_on_of_nodup_map hn hw hmem (hwname.trans hname.symm)] at hoffers
  · exact fun hoffers => ⟨v, hmem, hname, hoffers⟩

theorem reported_caseGaps (hn : (decl.variants.map (·.name)).Nodup) :
    List.Forall₂ (Gap.Reported p S) (caseGaps decl case L) (p.caseFaults decl S case L) := by
  rw [caseGaps, caseFaults]
  cases hv : decl.variant? case with
  | none =>
    have hno : case ∉ decl.variants.map (·.name) := by simpa [Union.variant?] using hv
    rw [if_neg hno, List.forall₂_map_left_iff, List.forall₂_map_right_iff, List.forall₂_same]
    exact fun t _ => ⟨rfl, rfl, rfl, rfl, rfl⟩
  | some v =>
    have hmem : case ∈ decl.variants.map (·.name) :=
      List.mem_map.mpr ⟨v, List.mem_of_find?_eq_some hv, by simpa using List.find?_some hv⟩
    rw [if_pos hmem]
    refine forall₂_filter_map fun c _ => ?_
    rw [decide_eq_true_eq, supplies_iff hn hv]
    cases hw : c.target.fields.findSome? v.body.unreadable? with
    | none => exact .inr ⟨not_not_intro rfl, rfl⟩
    | some why => exact .inl ⟨nofun, _, rfl, rfl, rfl, rfl, rfl, why, rfl⟩

theorem reported_sourceGaps (hn : (decl.variants.map (·.name)).Nodup) :
    List.Forall₂ (Gap.Reported p S) (sourceGaps decl byCase) (p.sourceFaults decl S byCase) := by
  rw [sourceGaps, sourceFaults]
  refine List.rel_append (forall₂_flatMap fun e _ => reported_caseGaps hn) ?_
  cases missingCases decl byCase with
  | nil => exact .nil
  | cons case cases => exact .cons ⟨rfl, rfl, rfl, rfl, rfl⟩ .nil

/-- The gaps of a source; none if the schema does not declare it. -/
def gaps (p : Plan) (s : Schema) (S : DottedName) : List Gap :=
  match s.declared? S with
  | none => []
  | some decl => sourceGaps decl ((p.table.get? S).getD ∅)

theorem reported_gaps (hs : s.Distinct) (hn : p.table.keys.Nodup) :
    List.Forall₂ (fun (e : DottedName × Gap) d => e.2.Reported p e.1 d)
      (p.table.keys.flatMap fun S => (p.gaps s S).map (S, ·)) (p.faults s) := by
  rw [Table.keys, List.flatMap_map, faults]
  refine forall₂_flatMap fun e he => ?_
  obtain ⟨S, byCase⟩ := e
  rw [List.forall₂_map_left_iff, gaps, Table.get?_of_mem_entries hn he]
  cases hd : s.declared? S with
  | none => simpa only [hd] using .nil
  | some decl =>
    simp only [hd, Option.getD_some]
    exact reported_sourceGaps (hs.variants decl (Schema.mem_of_declared? hd).1)

theorem gaps_of_declared (hs : s.Distinct) (ht : p.table.Tidy) (hd : decl ∈ s.unions)
    (hS : p.table.get? (.ofName decl.name) = some byCase) : decl.Gaps byCase (p.gaps s (.ofName decl.name)) := by
  rw [gaps, Schema.declared?_of_mem hs.unions hd, hS]
  exact gaps_sourceGaps (ht _ _ hS).1 (ht _ _ hS).2

theorem gaps_of_undeclared (h : ∀ decl ∈ s.unions, S ≠ .ofName decl.name) : p.gaps s S = [] := by
  rw [gaps]
  cases hd : s.declared? S with
  | none => rfl
  | some decl => exact absurd (Schema.mem_of_declared? hd).2 (h decl (Schema.mem_of_declared? hd).1)

/-- The check of a plan finds nothing just in case every source that the schema declares is covered. Otherwise each gap
of such a source is reported, source by source in the order of the plan, and nothing else is. -/
theorem faults_exact (hs : s.Distinct) (hm : Mapping.ofUnion u file = .ok p.mapping)
    (hr : p.mapping.resolve = .ok p.table) :
    (p.faults s = [] ↔ ∀ decl ∈ s.unions, ∀ byCase, p.table.get? (.ofName decl.name) = some byCase →
      decl.Covered byCase) ∧
    ∃ gaps : DottedName → List Gap,
      List.Forall₂ (fun (e : DottedName × Gap) d => e.2.Reported p e.1 d)
        (p.table.keys.flatMap fun S => (gaps S).map (S, ·)) (p.faults s) ∧
      (∀ S, (∀ decl ∈ s.unions, S ≠ .ofName decl.name) → gaps S = []) ∧
      ∀ decl ∈ s.unions, ∀ byCase, p.table.get? (.ofName decl.name) = some byCase →
        decl.Gaps byCase (gaps (.ofName decl.name)) := by
  obtain ⟨htable, _⟩ := Mapping.resolve_eq_ok_iff.mp hr
  have hn : p.table.keys.Nodup := by
    rw [htable, Mapping.keys_candidateTable_ofUnion hm]
    exact u.nodup_sources
  have ht : p.table.Tidy := htable ▸ Mapping.tidy_candidateTable _
  have hreported := reported_gaps hs hn
  refine ⟨?_, p.gaps s, hreported, fun S => gaps_of_undeclared, fun decl hd byCase => gaps_of_declared hs ht hd⟩
  have hnil : p.faults s = [] ↔ ∀ S ∈ p.table.keys, p.gaps s S = [] := by
    rw [← List.length_eq_zero_iff, ← hreported.length_eq, List.length_eq_zero_iff, List.flatMap_eq_nil_iff]
    simp only [List.map_eq_nil_iff]
  rw [hnil]
  constructor
  · intro h decl hd byCase hS
    have hkey : .ofName decl.name ∈ p.table.keys := Table.isSome_get?_iff.mp (by rw [hS]; rfl)
    exact ((gaps_of_declared hs ht hd hS).eq_nil_iff (ht _ _ hS).2).mp (h _ hkey)
  · intro h S hkey
    by_cases hdecl : ∃ decl ∈ s.unions, S = .ofName decl.name
    · obtain ⟨decl, hd, rfl⟩ := hdecl
      obtain ⟨byCase, hS⟩ := Option.isSome_iff_exists.mp (Table.isSome_get?_iff.mpr hkey)
      exact ((gaps_of_declared hs ht hd hS).eq_nil_iff (ht _ _ hS).2).mpr (h decl hd byCase hS)
    · exact gaps_of_undeclared fun decl hd hS => hdecl ⟨decl, hd, hS⟩

/-- A destination of a source of this schema and of one from elsewhere. It wants a field that is not there, claims a
case that is not there, and misses a case. -/
def threeGaps : Schema where
  imports := []
  unions :=
    let named (name field : String) (ds : List Directive) (line : Nat) : Variant :=
      ⟨name, .named [(field, .ofName "int")], ds, ⟨line, 3⟩⟩
    [⟨"S", [named "A" "x" [] 2, named "B" "y" [] 3], [], ⟨1, 1⟩⟩,
      ⟨"D", [named "A" "z" [] 6,
          named "C" "x" [⟨fromCase, [⟨some (.ofName "S"), .ofName "Z", ⟨7, 14⟩⟩], ⟨7, 3⟩⟩] 8],
        [⟨fromUnion, [⟨none, .ofName "S", ⟨4, 13⟩⟩, ⟨none, ⟨"ext", ["T"]⟩, ⟨4, 16⟩⟩], ⟨4, 1⟩⟩], ⟨5, 1⟩⟩]

theorem faults_exact_threeGaps : ∃ (u : Union) (p : Plan), u ∈ threeGaps.destinations ∧
    Mapping.ofUnion u none = .ok p.mapping ∧ p.mapping.resolve = .ok p.table ∧
    (p.faults threeGaps).map (·.code) =
      [some Fault.fieldShape.code, some Fault.unknownCase.code, some Fault.nonExhaustive.code] ∧
    ¬∀ decl ∈ threeGaps.unions, ∀ byCase, p.table.get? (.ofName decl.name) = some byCase → decl.Covered byCase := by
  let u := threeGaps.unions[1]
  have hm : Mapping.ofUnion u none = .ok (Mapping.described u none) :=
    Mapping.ofUnion_eq_ok_iff.mpr ⟨by decide +kernel, rfl⟩
  have hr : (Plan.described u none).mapping.resolve = .ok (Plan.described u none).table := by
    rw [described, Mapping.resolve_of_hasFields hm (by decide +kernel), Mapping.candidateTable_ofUnion hm]
  have hcodes : ((Plan.described u none).faults threeGaps).map (·.code) =
      [some Fault.fieldShape.code, some Fault.unknownCase.code, some Fault.nonExhaustive.code] := by
    decide +kernel
  have hs : threeGaps.repeatedNames none = [] := by decide +kernel
  obtain ⟨hnil, _⟩ := faults_exact (Schema.repeatedNames_eq_nil_iff.mp hs) hm hr
  refine ⟨u, Plan.described u none, by decide +kernel, hm, hr, hcodes, fun hcovered => ?_⟩
  rw [hnil.mpr hcovered] at hcodes
  cases hcodes

end Plan

end UnionBridge
