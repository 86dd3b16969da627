import UnionBridge.Proofs.Compile

/-! Every destination is planned on its own: what comes of it depends on its declaration and on the sources that it
names, not on the other destinations and not on the order of the unions. -/
namespace UnionBridge

variable {s s' : Schema} {u v : Union} {p : Plan} {plans : List Plan} {file : Option String} {S : DottedName}

/-! ### What a planning depends on -/

namespace Union

/-- The names and bodies of the variants: what others read of a union. -/
def shape (u : Union) : List (String × Body) := u.variants.map fun v => (v.name, v.body)

theorem names_shape (u : Union) : u.shape.map Prod.fst = u.variants.map (·.name) := by
  simp [shape, Function.comp_def]

theorem body_variant? (u : Union) (name : String) :
    (u.variant? name).map (·.body) = (u.shape.find? fun e => e.1 = name).map Prod.snd := by
  simp [variant?, shape, List.find?_map, Function.comp_def]

/-- A union without its directives. -/
def bare (u : Union) : Union :=
  { u with directives := [], variants := u.variants.map fun v => { v with directives := [] } }

@[simp]
theorem shape_bare (u : Union) : u.bare.shape = u.shape := by
  simp [shape, bare, Function.comp_def]

theorem not_isDestination_bare (u : Union) : ¬u.bare.isDestination := by
  simp [isDestination, bare]

end Union

namespace Plan

variable {case : String} {candidates : List Candidate} {byCase : Table String (List Candidate)}

theorem caseFaults_congr (h : u.shape = v.shape) (p : Plan) (S : DottedName) (case : String)
    (candidates : List Candidate) : p.caseFaults u S case candidates = p.caseFaults v S case candidates := by
  have hnames : u.variants.map (·.name) = v.variants.map (·.name) := by
    rw [← Union.names_shape, ← Union.names_shape, h]
  have hbody : (u.variant? case).map (·.body) = (v.variant? case).map (·.body) := by
    rw [Union.body_variant?, Union.body_variant?, h]
  have hunknown : p.unknownCase u S case = p.unknownCase v S case := by
    funext t
    rw [unknownCase, unknownCase, hnames]
  unfold caseFaults
  cases hu : u.variant? case <;> cases hv : v.variant? case <;> rw [hu, hv] at hbody
  · rw [hunknown]
  · cases hbody
  · cases hbody
  · simp only [Option.map_some, Option.some.injEq] at hbody
    simp only [hbody]

theorem sourceFaults_congr (h : u.shape = v.shape) (p : Plan) (S : DottedName) (byCase : Table String (List Candidate)) :
    p.sourceFaults u S byCase = p.sourceFaults v S byCase := by
  have hmissing : missingCases u byCase = missingCases v byCase := by
    rw [missingCases, missingCases, ← Union.names_shape, ← Union.names_shape, h]
  rw [sourceFaults, sourceFaults, hmissing]
  simp only [caseFaults_congr h]

/-- The check of a plan reads the shapes of the declared sources, and nothing else. -/
theorem faults_congr (h : ∀ S ∈ p.table.keys, (s'.declared? S).map Union.shape = (s.declared? S).map Union.shape) :
    p.faults s' = p.faults s := by
  simp only [faults]
  refine List.flatMap_congr fun e he => ?_
  have hS := h e.1 (List.mem_map_of_mem he)
  cases hd' : s'.declared? e.1 <;> cases hd : s.declared? e.1 <;> rw [hd', hd] at hS
  · cases hS
  · cases hS
  · exact sourceFaults_congr (Option.some.inj hS) p e.1 e.2

end Plan

/-- What comes of a destination depends on its declaration and on the shapes of the sources that it names. -/
theorem Planning.ofUnion_congr
    (h : ∀ S ∈ u.sources, (s'.declared? S).map Union.shape = (s.declared? S).map Union.shape) :
    Planning.ofUnion s' u file = Planning.ofUnion s u file := by
  unfold ofUnion
  cases hm : Mapping.ofUnion u file with
  | error fs => rfl
  | ok m =>
    cases ht : m.resolve with
    | error fs => simp only [ht]
    | ok table =>
      have hkeys : table.keys = u.sources := by
        rw [(Mapping.resolve_eq_ok_iff.mp ht).1]
        exact Mapping.keys_candidateTable_ofUnion hm
      have hfaults : Plan.faults ⟨m, table⟩ s' = Plan.faults ⟨m, table⟩ s := Plan.faults_congr (by rwa [hkeys])
      simp only [ht, hfaults]

/-! ### All destinations together -/

namespace Schema

/-- The diagnostics of one destination. -/
def faultsOf (s : Schema) (file : Option String) (u : Union) : List Diagnostic := (Planning.ofUnion s u file).faults

/-- The plan of one destination, if there is one. -/
def planOf? (s : Schema) (file : Option String) (u : Union) : Option Plan := (Planning.ofUnion s u file).plan?

theorem contribution_congr
    (h : ∀ S ∈ u.sources, (s'.declared? S).map Union.shape = (s.declared? S).map Union.shape) :
    s'.faultsOf file u = s.faultsOf file u ∧ s'.planOf? file u = s.planOf? file u := by
  rw [faultsOf, faultsOf, planOf?, planOf?, Planning.ofUnion_congr h]
  exact ⟨rfl, rfl⟩

theorem faultsOf_eq_nil_iff : s.faultsOf file u = [] ↔ ∃ p, s.planOf? file u = some p := by
  constructor
  · intro h
    obtain ⟨p, hp, _⟩ := Planning.planned_of_faults h
    exact ⟨p, by rw [planOf?, hp, Planning.plan?]⟩
  · rintro ⟨p, hp⟩
    rw [planOf?] at hp
    rw [faultsOf]
    cases h : Planning.ofUnion s u file <;> rw [h] at hp <;> first | rfl | cases hp

/-- Planning gives the plans of the destinations, in order, or the diagnostics of all of them if there are any. -/
theorem plans_eq : s.plans file =
    match s.destinations.flatMap (s.faultsOf file) with
    | [] => .ok (s.destinations.filterMap (s.planOf? file))
    | faults => .error ⟨faults⟩ := by
  have hfaults : (s.plannings file).flatMap Planning.faults = s.destinations.flatMap (s.faultsOf file) := by
    rw [plannings, List.flatMap_map]
    rfl
  have hplans : (s.plannings file).filterMap Planning.plan? = s.destinations.filterMap (s.planOf? file) := by
    rw [plannings, List.filterMap_map]
    rfl
  cases hnone : s.destinations.flatMap (s.faultsOf file) with
  | nil => simp only [plans, hfaults, hnone, hplans]
  | cons fault faults => simp only [plans, hfaults, hnone]

theorem plans_eq_ok_iff_map :
    s.plans file = .ok plans ↔ s.destinations.map (s.planOf? file) = plans.map some := by
  rw [plans_eq]
  constructor
  · intro h
    split at h
    · rename_i hnone
      obtain rfl := Except.ok.inj h
      have hall : ∀ u ∈ s.destinations, (s.planOf? file u).isSome := fun u hu =>
        Option.isSome_iff_exists.mpr (faultsOf_eq_nil_iff.mp (List.flatMap_eq_nil_iff.mp hnone u hu))
      exact (List.map_filterMap_some_eq_filter_map_isSome ..).trans (List.filter_eq_self.mpr (by simpa using hall)) |>.symm
    · cases h
  · intro h
    have hnone : s.destinations.flatMap (s.faultsOf file) = [] := by
      refine List.flatMap_eq_nil_iff.mpr fun u hu => faultsOf_eq_nil_iff.mpr ?_
      have hmem : s.planOf? file u ∈ plans.map some := h ▸ List.mem_map_of_mem hu
      obtain ⟨p, _, hp⟩ := List.mem_map.mp hmem
      exact ⟨p, hp.symm⟩
    have hplans : s.destinations.filterMap (s.planOf? file) = plans := by
      have := congrArg (List.filterMap id) h
      simpa [List.filterMap_map, Function.comp_def] using this
    rw [hnone, hplans]

theorem map_dest_of_plans (h : s.plans file = .ok plans) : plans.map (·.dest) = s.destinations.map (·.name) := by
  have hall := plans_eq_ok_iff.mp h
  clear h
  generalize s.destinations = us at hall
  induction hall with
  | nil => rfl
  | cons hp _ ih => rw [List.map_cons, List.map_cons, hp.dest_eq, ih]

/-- Planning fails exactly if a destination has diagnostics, and then with those of all of them. -/
theorem plans_eq_error_iff {e : CompileError} :
    s.plans file = .error e ↔
      e.diagnostics = s.destinations.flatMap (s.faultsOf file) ∧ s.destinations.flatMap (s.faultsOf file) ≠ [] := by
  obtain ⟨faults⟩ := e
  rw [plans_eq]
  cases s.destinations.flatMap (s.faultsOf file) with
  | nil => simp
  | cons f fs =>
    simp only [Except.error.injEq, CompileError.mk.injEq, ne_eq, reduceCtorEq, not_false_eq_true, and_true]
    exact eq_comm

theorem exists_plans_iff : (∃ plans, s.plans file = .ok plans) ↔ ∀ u ∈ s.destinations, s.faultsOf file u = [] := by
  rw [← List.flatMap_eq_nil_iff, plans_eq]
  cases s.destinations.flatMap (s.faultsOf file) <;> simp

/-! ### Schemas with the same unions -/

/-- The order of unions with distinct names is of no concern to what a name means. -/
theorem declared?_of_perm (hn : (s.unions.map (·.name)).Nodup) (h : s'.unions.Perm s.unions) :
    s'.declared? = s.declared? := by
  have hn' : (s'.unions.map (·.name)).Nodup := (h.map _).nodup_iff.mpr hn
  have hunion (name : String) : s'.union? name = s.union? name := by
    cases hu : s.union? name with
    | none =>
      rw [union?, List.find?_eq_none] at hu ⊢
      exact fun u hmem => hu u (h.mem_iff.mp hmem)
    | some u =>
      obtain rfl : u.name = name := by simpa using List.find?_some hu
      exact union?_of_mem hn' (h.mem_iff.mpr (List.mem_of_find?_eq_some hu))
  funext S
  rw [declared?, declared?, funext hunion]

theorem distinct_of_perm (h : s'.unions.Perm s.unions) (hs : s.Distinct) : s'.Distinct where
  unions := (h.map _).nodup_iff.mpr hs.unions
  variants u hu := hs.variants u (h.mem_iff.mp hu)
  fields u hu := hs.fields u (h.mem_iff.mp hu)

/-- The schema with a single destination: the directives of all other unions are left out. -/
def only (s : Schema) (u : Union) : Schema :=
  { s with unions := s.unions.map fun v => if v = u then v else v.bare }

theorem destinations_only (hn : s.unions.Nodup) (hu : u ∈ s.destinations) : (s.only u).destinations = [u] := by
  obtain ⟨hmem, hdest⟩ := List.mem_filter.mp hu
  obtain ⟨before, after, hsplit⟩ := List.append_of_mem hmem
  rw [hsplit, List.nodup_middle, List.nodup_cons, List.mem_append, not_or] at hn
  obtain ⟨⟨hbefore, hafter⟩, _⟩ := hn
  have hbare (l : List Union) (hl : u ∉ l) :
      (l.map fun v => if v = u then v else v.bare).filter Union.isDestination = [] := by
    rw [List.filter_eq_nil_iff]
    intro v hv
    obtain ⟨w, hw, rfl⟩ := List.mem_map.mp hv
    rw [if_neg (ne_of_mem_of_not_mem hw hl)]
    exact w.not_isDestination_bare
  rw [destinations, only, hsplit]
  simp [hbare before hbefore, hbare after hafter, hdest]

theorem shape_declared?_only (s : Schema) (u : Union) (S : DottedName) :
    ((s.only u).declared? S).map Union.shape = (s.declared? S).map Union.shape := by
  have hname (v : Union) : (if v = u then v else v.bare).name = v.name := by
    split <;> rfl
  have hshape (v : Union) : (if v = u then v else v.bare).shape = v.shape := by
    split
    · rfl
    · exact v.shape_bare
  rw [declared?, declared?]
  cases S.simple? with
  | none => rfl
  | some name => simp [union?, only, List.find?_map, Function.comp_def, hname, hshape]

/-- What comes of a destination does not depend on the other destinations. -/
theorem plans_only (hn : s.unions.Nodup) (hu : u ∈ s.destinations) :
    (s.faultsOf file u = [] → ∃ p, s.planOf? file u = some p ∧ (s.only u).plans file = .ok [p]) ∧
      (s.faultsOf file u ≠ [] → (s.only u).plans file = .error ⟨s.faultsOf file u⟩) := by
  have hdests := destinations_only hn hu
  have hsame : (s.only u).faultsOf file u = s.faultsOf file u ∧ (s.only u).planOf? file u = s.planOf? file u :=
    contribution_congr fun S _ => shape_declared?_only s u S
  obtain ⟨hfaults, hplan⟩ := hsame
  refine ⟨fun hnone => ?_, fun hne => plans_eq_error_iff.mpr ?_⟩
  · obtain ⟨p, hp⟩ := faultsOf_eq_nil_iff.mp hnone
    exact ⟨p, hp, plans_eq_ok_iff_map.mpr (by simp [hdests, hplan, hp])⟩
  · simpa [hdests, hfaults] using hne

/-- Destinations are planned independently of each other. Planning succeeds exactly if no destination has diagnostics,
and then gives the plans of all of them, in order; otherwise it fails with the diagnostics of all of them, in order. What
each destination contributes is what it gives as the only destination, and depends on its own declaration and on those
of the sources that it names. So after a permutation of the unions it is the same. -/
theorem plans_independent (hn : (s.unions.map (·.name)).Nodup) (file : Option String) :
    ((∃ plans, s.plans file = .ok plans) ↔ ∀ u ∈ s.destinations, s.faultsOf file u = []) ∧
    (∀ plans, s.plans file = .ok plans →
      plans.map some = s.destinations.map (s.planOf? file) ∧ plans.map (·.dest) = s.destinations.map (·.name)) ∧
    (∀ e, s.plans file = .error e → e.diagnostics = s.destinations.flatMap (s.faultsOf file)) ∧
    (∀ u ∈ s.destinations,
      (s.faultsOf file u = [] → ∃ p, s.planOf? file u = some p ∧ (s.only u).plans file = .ok [p]) ∧
      (s.faultsOf file u ≠ [] → (s.only u).plans file = .error ⟨s.faultsOf file u⟩)) ∧
    (∀ u (s' : Schema), (∀ S ∈ u.sources, s'.declared? S = s.declared? S) →
      s'.faultsOf file u = s.faultsOf file u ∧ s'.planOf? file u = s.planOf? file u) ∧
    ∀ s' : Schema, s'.unions.Perm s.unions →
      s'.destinations.Perm s.destinations ∧ (s'.Distinct ↔ s.Distinct) ∧
      (∀ plans, s.plans file = .ok plans →
        ∃ plans', s'.plans file = .ok plans' ∧ plans'.map some = s'.destinations.map (s.planOf? file) ∧
          plans'.Perm plans) ∧
      (∀ e, s.plans file = .error e →
        ∃ e', s'.plans file = .error e' ∧ e'.diagnostics = s'.destinations.flatMap (s.faultsOf file) ∧
          e'.diagnostics.Perm e.diagnostics) := by
  refine ⟨exists_plans_iff, fun plans h => ⟨(plans_eq_ok_iff_map.mp h).symm, map_dest_of_plans h⟩,
    fun e h => (plans_eq_error_iff.mp h).1, fun u hu => plans_only (List.Nodup.of_map _ hn) hu,
    fun u s' h => contribution_congr fun S hS => by rw [h S hS], fun s' hperm => ?_⟩
  have hdests : s'.destinations.Perm s.destinations := hperm.filter _
  have hsame (u : Union) : s'.faultsOf file u = s.faultsOf file u ∧ s'.planOf? file u = s.planOf? file u :=
    contribution_congr fun S _ => by rw [declared?_of_perm hn hperm]
  have hfaults : s'.faultsOf file = s.faultsOf file := funext fun u => (hsame u).1
  have hplan : s'.planOf? file = s.planOf? file := funext fun u => (hsame u).2
  refine ⟨hdests, ⟨distinct_of_perm hperm.symm, distinct_of_perm hperm⟩, fun plans h => ?_, fun e h => ?_⟩
  · have hnone : ∀ u ∈ s'.destinations, s'.faultsOf file u = [] := fun u hu => by
      rw [hfaults]
      exact exists_plans_iff.mp ⟨plans, h⟩ u (hdests.mem_iff.mp hu)
    obtain ⟨plans', h'⟩ := exists_plans_iff.mpr hnone
    have hmap := (plans_eq_ok_iff_map.mp h').symm
    rw [hplan] at hmap
    refine ⟨plans', h', hmap, ?_⟩
    have hperm' : (plans'.map some).Perm (plans.map some) := by
      rw [hmap, ← plans_eq_ok_iff_map.mp h]
      exact hdests.map _
    simpa [List.filterMap_map, Function.comp_def] using hperm'.filterMap id
  · obtain ⟨heq, hne⟩ := plans_eq_error_iff.mp h
    have hlist : (s'.destinations.flatMap (s.faultsOf file)).Perm (s.destinations.flatMap (s.faultsOf file)) :=
      hdests.flatMap_right _
    refine ⟨⟨s'.destinations.flatMap (s.faultsOf file)⟩, plans_eq_error_iff.mpr ⟨by rw [hfaults], ?_⟩, rfl, heq ▸ hlist⟩
    rw [hfaults]
    exact fun hnil => hne (hlist.symm.trans (hnil ▸ .nil)).eq_nil

/-- A source and two destinations, of which the first misses a case and the second wants a field that is not there. -/
def twoFaulty : Schema where
  imports := []
  unions :=
    let variant (name field : String) (line : Nat) : Variant := ⟨name, .named [(field, .ofName "int")], [], ⟨line, 3⟩⟩
    let directive (line : Nat) : Directive := ⟨fromUnion, [⟨none, .ofName "S", ⟨line, 13⟩⟩], ⟨line, 1⟩⟩
    [⟨"S", [variant "A" "x" 2, variant "B" "y" 3], [], ⟨1, 1⟩⟩,
      ⟨"First", [variant "A" "x" 6], [directive 4], ⟨4, 1⟩⟩,
      ⟨"Second", [variant "A" "y" 9, variant "B" "y" 10], [directive 7], ⟨7, 1⟩⟩]

theorem plans_independent_twoFaulty :
    ∃ e e', twoFaulty.plans none = .error e ∧
      ({ twoFaulty with unions := twoFaulty.unions.reverse } : Schema).plans none = .error e' ∧
      e.diagnostics.map (·.code) = [some Fault.nonExhaustive.code, some Fault.fieldShape.code] ∧
      e'.diagnostics.map (·.code) = [some Fault.fieldShape.code, some Fault.nonExhaustive.code] ∧
      e'.diagnostics.Perm e.diagnostics := by
  obtain ⟨_, _, _, _, _, hperm⟩ := plans_independent (s := twoFaulty) (by decide) none
  have he : twoFaulty.plans none = .error ⟨twoFaulty.destinations.flatMap (twoFaulty.faultsOf none)⟩ :=
    plans_eq_error_iff.mpr ⟨rfl, by decide +kernel⟩
  obtain ⟨_, _, _, herror⟩ := hperm { twoFaulty with unions := twoFaulty.unions.reverse } (List.reverse_perm _)
  obtain ⟨e', he', heq, hdiagnostics⟩ := herror _ he
  refine ⟨_, e', he, he', by decide +kernel, ?_, hdiagnostics⟩
  rw [heq]
  decide +kernel

end Schema

end UnionBridge
