import UnionBridge.Proofs.Mapping.Resolution
import UnionBridge.Proofs.Schema.Distinct

/-! What a compiled schema consists of: a plan for every destination, and a function for each of its sources. -/
namespace UnionBridge

variable {s : Schema} {u : Union} {p : Plan} {plans : List Plan} {file doc : Option String} {source : String}
  {S : DottedName} {byCase : Table String (List Candidate)} {C : String} {L : List Candidate}

section Pairing

variable {α β : Type} {r : α → β → Prop} {l : List α} {m : List β}

theorem exists_left_of_forall₂ (h : List.Forall₂ r l m) {b : β} (hb : b ∈ m) : ∃ a ∈ l, r a b := by
  induction h with
  | nil => cases hb
  | cons hr _ ih =>
    rcases List.mem_cons.mp hb with rfl | hb
    · exact ⟨_, List.mem_cons_self, hr⟩
    · obtain ⟨a, ha, hab⟩ := ih hb
      exact ⟨a, List.mem_cons_of_mem _ ha, hab⟩

theorem exists_right_of_forall₂ (h : List.Forall₂ r l m) {a : α} (ha : a ∈ l) : ∃ b ∈ m, r a b := by
  induction h with
  | nil => cases ha
  | cons hr _ ih =>
    rcases List.mem_cons.mp ha with rfl | ha
    · exact ⟨_, List.mem_cons_self, hr⟩
    · obtain ⟨b, hb, hab⟩ := ih ha
      exact ⟨b, List.mem_cons_of_mem _ hb, hab⟩

end Pairing

/-! ### Plans -/

/-- A plan of a destination: its directives can be read and resolved, and nothing is wrong with the outcome. -/
structure Plan.Of (p : Plan) (s : Schema) (u : Union) (file : Option String) : Prop where
  mapped : Mapping.ofUnion u file = .ok p.mapping
  resolved : p.mapping.resolve = .ok p.table
  faultless : p.faults s = []

theorem Mapping.ofUnion_ne_error : Mapping.ofUnion u file ≠ .error [] := by
  simp only [ofUnion]
  split
  · simp
  · rename_i hne
    simpa using hne

theorem Mapping.resolve_ne_error {m : Mapping} : m.resolve ≠ .error [] := by
  simp only [resolve]
  split
  · simp
  · rename_i hne
    simpa using hne

namespace Planning

/-- A planning without faults has come to a plan. -/
theorem planned_of_faults (h : (Planning.ofUnion s u file).faults = []) :
    ∃ p : Plan, Planning.ofUnion s u file = .planned p ∧ p.Of s u file := by
  rw [ofUnion] at h ⊢
  cases hm : Mapping.ofUnion u file with
  | error fs =>
    rw [hm] at h
    obtain rfl : fs = [] := h
    exact absurd hm Mapping.ofUnion_ne_error
  | ok m =>
    cases ht : m.resolve with
    | error fs =>
      rw [hm] at h
      simp only [ht] at h
      obtain rfl : fs = [] := h
      exact absurd ht Mapping.resolve_ne_error
    | ok t =>
      cases hf : Plan.faults ⟨m, t⟩ s with
      | nil =>
        refine ⟨⟨m, t⟩, ?_, hm, ht, hf⟩
        simp [ht, hf]
      | cons f fs =>
        rw [hm] at h
        simp only [ht, hf] at h
        cases h

theorem ofUnion_eq_planned (h : p.Of s u file) : Planning.ofUnion s u file = .planned p := by
  simp [ofUnion, h.mapped, h.resolved, h.faultless]

end Planning

/-- A schema is planned if there is a plan for each of its destinations. -/
theorem Schema.plans_eq_ok_iff :
    s.plans file = .ok plans ↔ List.Forall₂ (fun u (p : Plan) => p.Of s u file) s.destinations plans := by
  simp only [Schema.plans, plannings]
  constructor
  · intro h
    split at h
    · rename_i hf
      obtain rfl := Except.ok.inj h
      generalize s.destinations = us at hf ⊢
      induction us with
      | nil => exact List.Forall₂.nil
      | cons u us ih =>
        simp only [List.map_cons, List.flatMap_cons, List.append_eq_nil_iff] at hf
        obtain ⟨p, hp, hof⟩ := Planning.planned_of_faults hf.1
        rw [List.map_cons, List.filterMap_cons, hp]
        exact List.Forall₂.cons hof (ih hf.2)
    · cases h
  · intro h
    have hall : s.destinations.map (fun u => Planning.ofUnion s u file) = plans.map .planned := by
      generalize s.destinations = us at h ⊢
      induction h with
      | nil => rfl
      | cons hof _ ih => rw [List.map_cons, List.map_cons, Planning.ofUnion_eq_planned hof, ih]
    have hf : (plans.map Planning.planned).flatMap Planning.faults = [] := by simp [Planning.faults]
    have hp : (plans.map Planning.planned).filterMap Planning.plan? = plans := by
      simp [List.filterMap_map, Function.comp_def, Planning.plan?]
    rw [hall, hf, hp]

/-- The plan that the directives of a destination describe. -/
def Plan.described (u : Union) (file : Option String) : Plan :=
  ⟨Mapping.described u file, (Mapping.described u file).gathered⟩

theorem Plan.of_described (hd : u.directiveFaults = []) (ht : ∀ t ∈ u.targets file, t.hasFields)
    (hf : (Plan.described u file).faults s = []) : (Plan.described u file).Of s u file := by
  have hm : Mapping.ofUnion u file = .ok (Mapping.described u file) := Mapping.ofUnion_eq_ok_iff.mpr ⟨hd, rfl⟩
  refine ⟨hm, ?_, hf⟩
  rw [described, Mapping.resolve_of_hasFields hm ht, Mapping.candidateTable_ofUnion hm]

theorem Plan.Of.dest_eq (h : p.Of s u file) : p.dest = u.name := by
  obtain ⟨_, hm⟩ := Mapping.ofUnion_eq_ok_iff.mp h.mapped
  rw [dest, hm]
  rfl

namespace Plan.Of

variable (h : p.Of s u file)
include h

theorem container_eq : p.mapping.container = u.container? := by
  obtain ⟨_, hm⟩ := Mapping.ofUnion_eq_ok_iff.mp h.mapped
  rw [hm]
  rfl

theorem table_eq : p.table = p.mapping.candidateTable := (Mapping.resolve_eq_ok_iff.mp h.resolved).1

theorem keys_table : p.table.keys = u.sources := by
  rw [h.table_eq]
  exact Mapping.keys_candidateTable_ofUnion h.mapped

theorem tidy_table : p.table.Tidy := by
  rw [h.table_eq]
  exact Mapping.tidy_candidateTable _

theorem mem_entries_table {e : DottedName × Table String (List Candidate)} :
    e ∈ p.table.entries ↔ p.table.get? e.1 = some e.2 :=
  Table.mem_entries_iff (h.keys_table ▸ u.nodup_sources)

theorem eq_asked (hS : p.table.get? S = some byCase) (hC : byCase.get? C = some L) :
    L ≠ [] ∧ L = Mapping.asked u file S C := by
  refine ⟨(h.tidy_table S byCase hS).2 C L hC, ?_⟩
  have hmem : S ∈ u.sources := h.keys_table ▸ Table.isSome_get?_iff.mp (by simp [hS])
  rw [← Mapping.cell_candidateTable_ofUnion h.mapped hmem, ← h.table_eq, CandidateTable.cell_of_get? hS,
    Table.listed_of_get? hC]

theorem ordered_candidates (hS : p.table.get? S = some byCase) (hC : byCase.get? C = some L) : Mapping.Ordered L := by
  rw [(h.eq_asked hS hC).2]
  exact Mapping.ordered_asked u file S C

/-- A candidate stands for a declared variant. -/
theorem variant_of_candidate (hS : p.table.get? S = some byCase) (hC : byCase.get? C = some L) {c : Candidate}
    (hc : c ∈ L) : ∃ v ∈ u.variants, c.target.name = v.name ∧ c.target.body = v.body := by
  rw [(h.eq_asked hS hC).2] at hc
  obtain ⟨i, hi⟩ := List.getElem?_of_mem (Mapping.mem_asked hc).2
  rw [Mapping.getElem?_targets, Option.map_eq_some_iff] at hi
  obtain ⟨v, hv, ht⟩ := hi
  exact ⟨v, List.mem_of_getElem? hv, by rw [← ht], by rw [← ht]⟩

end Plan.Of

/-- What compiles is a schema without repeated names and with a plan for each destination. -/
theorem compile_eq_ok_iff {c : Compiled} :
    compile source file doc = .ok c ↔
      Schema.parse source = .ok c.schema ∧ c.schema.Distinct ∧
        List.Forall₂ (fun u (p : Plan) => p.Of c.schema u file) c.schema.destinations c.plans ∧
        c.module = Module.ofPlans c.schema c.plans file doc := by
  rw [← Schema.plans_eq_ok_iff, ← and_assoc, ← Schema.read_eq_ok_iff, compile]
  constructor
  · intro h
    cases hs : Schema.read source file with
    | error e =>
      rw [hs] at h
      cases h
    | ok s =>
      rw [hs] at h
      cases hp : s.plans file with
      | error e =>
        simp only [bind, Except.bind, hp] at h
        cases h
      | ok plans =>
        simp only [bind, Except.bind, hp] at h
        obtain rfl := Except.ok.inj h
        exact ⟨rfl, hp, rfl⟩
  · rintro ⟨hs, hp, hm⟩
    simp only [hs, hp, bind, Except.bind]
    rw [← hm]

/-- A schema all of whose destination variants have fields compiles to the plans that its directives describe. -/
theorem compile_of_described (hp : Schema.parse source = .ok s) (hn : s.repeatedNames file = [])
    (hd : ∀ u ∈ s.destinations, u.directiveFaults = [] ∧ (∀ t ∈ u.targets file, t.hasFields) ∧
      (Plan.described u file).faults s = []) :
    compile source file doc = .ok ⟨s, s.destinations.map (Plan.described · file),
      Module.ofPlans s (s.destinations.map (Plan.described · file)) file doc⟩ := by
  refine compile_eq_ok_iff.mpr ⟨hp, Schema.repeatedNames_eq_nil_iff.mp hn, ?_, rfl⟩
  simp only [List.forall₂_map_right_iff, List.forall₂_same]
  intro u hu
  obtain ⟨hfaults, hfields, hplan⟩ := hd u hu
  exact Plan.of_described hfaults hfields hplan

/-! ### Texts -/

/-- A text, character by character. What a text is made of can be evaluated much faster than taken out of it again. -/
def Lettered (text : String) (cs : List Char) : Prop := text = String.ofList cs

namespace Lettered

variable {text text' : String} {cs cs' : List Char}

theorem literal : Lettered (String.ofList cs) cs := rfl

theorem append (h : Lettered text cs) (h' : Lettered text' cs') : Lettered (text ++ text') (cs ++ cs') := by
  rw [Lettered, h, h', String.ofList_append]

theorem parse_eq (h : Lettered source cs) (hp : (Parse.tree cs).toOption.bind Schema.ofTree? = some s) :
    Schema.parse source = .ok s := by
  rw [Schema.parse, h, String.toList_ofList]
  cases ht : Parse.tree cs with
  | error e =>
    rw [ht] at hp
    cases hp
  | ok tree =>
    rw [ht] at hp
    have htree : Schema.ofTree? tree = some s := hp
    simp only [htree, bind, Except.bind]

end Lettered

/-- A schema whose text is given character by character. -/
theorem compile_of_lettered {cs : List Char} (hs : Lettered source cs)
    (hp : (Parse.tree cs).toOption.bind Schema.ofTree? = some s) (hn : s.repeatedNames file = [])
    (hd : ∀ u ∈ s.destinations, u.directiveFaults = [] ∧ (∀ t ∈ u.targets file, t.hasFields) ∧
      (Plan.described u file).faults s = []) :
    compile source file doc = .ok ⟨s, s.destinations.map (Plan.described · file),
      Module.ofPlans s (s.destinations.map (Plan.described · file)) file doc⟩ :=
  compile_of_described (hs.parse_eq hp) hn hd

/-! ### Conversions -/

namespace Conversion

theorem mem_caseOrder {decl : Option Union} : C ∈ caseOrder decl byCase ↔ C ∈ byCase.keys := by
  cases decl with
  | none => rfl
  | some u =>
    rw [caseOrder, List.mem_append]
    constructor
    · rintro (h | h)
      · exact Table.contains_iff.mp (List.mem_filter.mp h).2
      · exact List.mem_of_mem_filter h
    · intro h
      by_cases hd : C ∈ (u.variants.map (·.name)).filter byCase.contains
      · exact Or.inl hd
      · exact Or.inr (List.mem_filter.mpr ⟨h, by simpa [-List.mem_filter] using hd⟩)

/-- A conversion has one arm for each case, in order. -/
theorem map_case_arms (m : Mapping) (decl : Option Union) (name : String) (S : DottedName)
    (byCase : Table String (List Candidate)) :
    (ofCases m decl name S byCase).arms.map (·.case) = caseOrder decl byCase := by
  have key (cases : List String) (h : ∀ case ∈ cases, case ∈ byCase.keys) :
      (cases.filterMap fun case => (byCase.get? case).map fun l => (⟨case, .ofCandidates m.dest l⟩ : Arm)).map
        (·.case) = cases := by
    induction cases with
    | nil => rfl
    | cons case cases ih =>
      obtain ⟨l, hl⟩ := Option.isSome_iff_exists.mp (Table.isSome_get?_iff.mpr (h case (by simp)))
      simp [hl, ih fun case' h' => h case' (by simp [h'])]
  exact key _ fun case h => mem_caseOrder.mp h

theorem mem_arms_ofCases {m : Mapping} {decl : Option Union} {name : String} {arm : Arm} :
    arm ∈ (ofCases m decl name S byCase).arms ↔
      ∃ l, byCase.get? arm.case = some l ∧ arm.body = .ofCandidates m.dest l := by
  simp only [ofCases, List.mem_filterMap, Option.map_eq_some_iff]
  constructor
  · rintro ⟨case, _, l, hl, rfl⟩
    exact ⟨l, hl, rfl⟩
  · rintro ⟨l, hl, hb⟩
    refine ⟨arm.case, mem_caseOrder.mpr (Table.isSome_get?_iff.mp (by simp [hl])), l, hl, ?_⟩
    rw [← hb]

/-- Each source of a plan has a function of its own. -/
theorem forall₂_ofSources (s : Schema) (m : Mapping) (used : List String)
    (entries : List (DottedName × Table String (List Candidate))) :
    List.Forall₂ (fun e c => ∃ name, c = ofCases m (s.declared? e.1) name e.1 e.2) entries
      (ofSources s m used entries).1 := by
  induction entries generalizing used with
  | nil => exact List.Forall₂.nil
  | cons e entries ih => exact List.Forall₂.cons ⟨_, rfl⟩ (ih _)

theorem map_source_ofSources (s : Schema) (m : Mapping) (used : List String)
    (entries : List (DottedName × Table String (List Candidate))) :
    (ofSources s m used entries).1.map (fun c => (c.source, c.dest)) = entries.map fun e => (e.1, m.dest) := by
  induction entries generalizing used with
  | nil => rfl
  | cons e entries ih =>
    simp only [ofSources, List.map_cons, ih]
    rfl

end Conversion

namespace Module

/-- The functions for a plan, one for each source. -/
theorem mem_ofPlans {conv : Conversion} {used : List String} :
    conv ∈ (Bridge.ofPlans s used plans).flatMap (·.conversions) →
      ∃ p ∈ plans, ∃ e ∈ p.table.entries, ∃ name, conv = .ofCases p.mapping (s.declared? e.1) name e.1 e.2 := by
  induction plans generalizing used with
  | nil => simp [Bridge.ofPlans]
  | cons p plans ih =>
    rw [Bridge.ofPlans, List.flatMap_cons, List.mem_append]
    rintro (h | h)
    · obtain ⟨e, he, name, hconv⟩ := exists_left_of_forall₂ (Conversion.forall₂_ofSources s p.mapping used _) h
      exact ⟨p, by simp, e, he, name, hconv⟩
    · obtain ⟨q, hq, hconv⟩ := ih h
      exact ⟨q, by simp [hq], hconv⟩

theorem map_source_ofPlans (s : Schema) (used : List String) (plans : List Plan) :
    ((Bridge.ofPlans s used plans).flatMap (·.conversions)).map (fun c => (c.source, c.dest)) =
      plans.flatMap fun p => p.table.keys.map fun S => (S, p.dest) := by
  induction plans generalizing used with
  | nil => rfl
  | cons p plans ih =>
    rw [Bridge.ofPlans, List.flatMap_cons, List.map_append, ih, List.flatMap_cons]
    simp only [Conversion.map_source_ofSources, Table.keys, List.map_map]
    rfl

/-- A module has an arm for a case of a source, in the function that leads to a destination. -/
structure Emits (m : Module) (S : DottedName) (dest C : String) (conv : Conversion) (arm : Arm) : Prop where
  mem_conversions : conv ∈ m.conversions
  source_eq : conv.source = S
  dest_eq : conv.dest = dest
  mem_arms : arm ∈ conv.arms
  case_eq : arm.case = C

end Module

namespace Compiled

variable {c : Compiled} (hc : compile source file doc = .ok c)
include hc

theorem distinct : c.schema.Distinct := (compile_eq_ok_iff.mp hc).2.1

theorem exists_destination (hp : p ∈ c.plans) : ∃ u ∈ c.schema.destinations, p.Of c.schema u file :=
  exists_left_of_forall₂ (compile_eq_ok_iff.mp hc).2.2.1 hp

/-- No two plans have the same destination. -/
theorem nodup_dests : (c.plans.map (·.dest)).Nodup := by
  have h := (compile_eq_ok_iff.mp hc).2.2.1
  have hmap : c.plans.map (·.dest) = c.schema.destinations.map (·.name) := by
    generalize c.schema.destinations = us at h ⊢
    generalize c.plans = ps at h ⊢
    induction h with
    | nil => rfl
    | cons hof _ ih => rw [List.map_cons, List.map_cons, hof.dest_eq, ih]
  rw [hmap]
  exact (distinct hc).unions.sublist (List.filter_sublist.map _)

theorem map_source_conversions :
    c.module.conversions.map (fun conv => (conv.source, conv.dest)) =
      c.plans.flatMap fun p => p.table.keys.map fun S => (S, p.dest) := by
  obtain ⟨_, _, _, hm⟩ := compile_eq_ok_iff.mp hc
  rw [hm]
  exact Module.map_source_ofPlans _ _ _

/-- No two conversions have the same source and the same destination. -/
theorem nodup_conversions : (c.module.conversions.map fun conv => (conv.source, conv.dest)).Nodup := by
  rw [map_source_conversions hc, List.nodup_flatMap]
  constructor
  · intro p hp
    obtain ⟨u, _, hof⟩ := exists_destination hc hp
    rw [hof.keys_table]
    exact u.nodup_sources.map fun S T h => congrArg Prod.fst h
  · refine (List.pairwise_map.mp (nodup_dests hc)).imp fun {p q} hne => ?_
    intro e hp hq
    obtain ⟨_, _, rfl⟩ := List.mem_map.mp hp
    obtain ⟨_, _, heq⟩ := List.mem_map.mp hq
    exact hne (congrArg Prod.snd heq).symm

/-- Every conversion belongs to one source of one plan. -/
theorem conversion_cases {conv : Conversion} (h : conv ∈ c.module.conversions) :
    ∃ p ∈ c.plans, ∃ byCase name, p.table.get? conv.source = some byCase ∧
      conv = .ofCases p.mapping (c.schema.declared? conv.source) name conv.source byCase := by
  obtain ⟨_, _, _, hm⟩ := compile_eq_ok_iff.mp hc
  rw [hm] at h
  obtain ⟨p, hp, e, he, name, rfl⟩ := Module.mem_ofPlans h
  obtain ⟨_, _, hof⟩ := exists_destination hc hp
  exact ⟨p, hp, e.2, name, hof.mem_entries_table.mp he, rfl⟩

theorem eq_plan {q : Plan} (hp : p ∈ c.plans) (hq : q ∈ c.plans) (h : q.dest = p.dest) : q = p :=
  List.inj_on_of_nodup_map (nodup_dests hc) hq hp h

/-- A source of a plan has one conversion. -/
theorem exists_conversion (hp : p ∈ c.plans) (hS : p.table.get? S = some byCase) :
    ∃ conv ∈ c.module.conversions, ∃ name, conv = .ofCases p.mapping (c.schema.declared? S) name S byCase ∧
      ∀ conv' ∈ c.module.conversions, conv'.source = S → conv'.dest = p.dest → conv' = conv := by
  have hmem : (S, p.dest) ∈ c.module.conversions.map fun conv => (conv.source, conv.dest) := by
    rw [map_source_conversions hc]
    refine List.mem_flatMap.mpr ⟨p, hp, List.mem_map.mpr ⟨S, ?_, rfl⟩⟩
    exact Table.isSome_get?_iff.mp (by simp [hS])
  obtain ⟨conv, hconv, heq⟩ := List.mem_map.mp hmem
  obtain ⟨rfl, hdest⟩ := Prod.mk.inj heq
  obtain ⟨q, hq, byCase', name, hS', heq'⟩ := conversion_cases hc hconv
  have hqp : q = p := by
    apply eq_plan hc hp hq
    rw [← hdest, heq']
    rfl
  subst q
  obtain rfl := Option.some.inj (hS.symm.trans hS')
  refine ⟨conv, hconv, name, heq', fun conv' hconv' hs hd => ?_⟩
  apply List.inj_on_of_nodup_map (nodup_conversions hc) hconv' hconv
  rw [hs, hd, hdest]

/-- A case of a source of a plan has one arm, made from its candidates. -/
theorem exists_arm (hp : p ∈ c.plans) (hS : p.table.get? S = some byCase) (hC : byCase.get? C = some L) :
    ∃ conv arm, c.module.Emits S p.dest C conv arm ∧ conv.container = p.mapping.container ∧
      arm.body = .ofCandidates p.dest L ∧
      ∀ conv' arm', c.module.Emits S p.dest C conv' arm' → conv' = conv ∧ arm' = arm := by
  obtain ⟨conv, hconv, name, heq, huniq⟩ := exists_conversion hc hp hS
  have harm : (⟨C, .ofCandidates p.dest L⟩ : Arm) ∈ conv.arms := by
    rw [heq]
    exact Conversion.mem_arms_ofCases.mpr ⟨L, hC, rfl⟩
  refine ⟨conv, ⟨C, .ofCandidates p.dest L⟩, ⟨hconv, ?_, ?_, harm, rfl⟩, ?_, rfl, fun conv' arm' h => ?_⟩
  · rw [heq]
    rfl
  · rw [heq]
    rfl
  · rw [heq]
    rfl
  · obtain rfl := huniq conv' h.mem_conversions h.source_eq h.dest_eq
    refine ⟨rfl, ?_⟩
    have harm' := h.mem_arms
    rw [heq] at harm'
    obtain ⟨l, hl, hbody⟩ := Conversion.mem_arms_ofCases.mp harm'
    rw [h.case_eq, hC] at hl
    obtain rfl := Option.some.inj hl
    obtain ⟨case, body⟩ := arm'
    obtain rfl : case = C := h.case_eq
    obtain rfl : body = .ofCandidates p.dest L := hbody
    rfl

end Compiled

end UnionBridge
