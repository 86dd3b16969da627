import UnionBridge.Proofs.Mapping.Resolution

/-! Mistakes in directives. Each directive and each argument that has no place where it stands is reported once, in
source order, and nothing else is; a union without mistakes has a mapping. -/
namespace UnionBridge

section Reporting

variable {α β γ : Type} {R : β → γ → Prop} {l : List α}

theorem forall₂_flatMap {items : α → List β} {reports : α → List γ}
    (h : ∀ a ∈ l, List.Forall₂ R (items a) (reports a)) :
    List.Forall₂ R (l.flatMap items) (l.flatMap reports) := by
  induction l with
  | nil => exact .nil
  | cons a l ih =>
    rw [List.flatMap_cons, List.flatMap_cons]
    exact List.rel_append (h a List.mem_cons_self) (ih fun b hb => h b (List.mem_cons_of_mem a hb))

theorem forall₂_filter_map {p : α → Bool} {item : α → β} {report : α → Option γ}
    (h : ∀ a ∈ l, p a ∧ (∃ c, report a = some c ∧ R (item a) c) ∨ ¬p a ∧ report a = none) :
    List.Forall₂ R ((l.filter p).map item) (l.filterMap report) := by
  induction l with
  | nil => exact .nil
  | cons a l ih =>
    have ih := ih fun b hb => h b (List.mem_cons_of_mem a hb)
    obtain ⟨hp, c, hc, hr⟩ | ⟨hp, hc⟩ := h a List.mem_cons_self
    · rw [List.filter_cons_of_pos hp, List.filterMap_cons_some hc]
      exact .cons hr ih
    · rw [List.filter_cons_of_neg hp, List.filterMap_cons_none hc]
      exact ih

end Reporting

theorem DottedName.simple?_eq_none_iff {n : DottedName} : n.simple? = none ↔ ¬∃ s, n = .ofName s := by
  simp only [Option.eq_none_iff_forall_ne_some, ne_eq, DottedName.simple?_eq_some_iff, not_exists]

/-- The union itself, a directive or one of its arguments, where the union has it: at its head or at a variant. -/
inductive Written
  | union
  | head (d : Directive)
  | headArgument (d : Directive) (a : Argument)
  | branch (v : Variant) (d : Directive)
  | branchArgument (v : Variant) (d : Directive) (a : Argument)

/-- Where a mistake is reported. Of an undeclared source it is the variant that is at fault. -/
def Written.place (u : Union) : Written → Fault → Place
  | .union, _ => u.place
  | .head d, _ | .branch _ d, _ => d.place
  | .branchArgument v _ _, .unknownSource => v.place
  | .headArgument _ a, _ | .branchArgument _ _ a, _ => a.place

namespace Union

/-- What the directives of a union consist of, in source order; the union itself stands where its own directives end. -/
def written (u : Union) : List Written :=
  (u.directives.flatMap fun d => .head d :: d.args.map (.headArgument d)) ++ .union ::
    u.variants.flatMap fun v => v.directives.flatMap fun d => .branch v d :: d.args.map (.branchArgument v d)

/-- A directive of the union names a source. -/
def Declares (u : Union) (source : DottedName) : Prop :=
  ∃ d ∈ u.directives, d.name = fromUnion ∧ ∃ a ∈ d.args, a.key = none ∧ a.value = source

/-- The mistakes, and their kinds. -/
inductive Offends (u : Union) : Written → Fault → Prop
  | caseOnUnion {d : Directive} (hd : d.name = fromCase) : Offends u (.head d) .misplacedDirective
  | unknownAtHead {d : Directive} (hc : d.name ≠ fromCase) (hu : d.name ≠ fromUnion) :
    Offends u (.head d) .unknownDirective
  | option {d : Directive} {a : Argument} {key : DottedName} (hd : d.name = fromUnion) (ha : a.key = some key)
    (hk : key ≠ .ofName effectContainer) : Offends u (.headArgument d a) .unknownOption
  | noSource (hu : ¬∃ source, u.Declares source) : Offends u .union .missingSource
  | unionOnVariant {v : Variant} {d : Directive} (hd : d.name = fromUnion) :
    Offends u (.branch v d) .misplacedDirective
  | unknownAtBranch {v : Variant} {d : Directive} (hu : d.name ≠ fromUnion) (hc : d.name ≠ fromCase) :
    Offends u (.branch v d) .unknownDirective
  | dottedCase {v : Variant} {d : Directive} {a : Argument} (hd : d.name = fromCase)
    (ha : ¬∃ case, a.value = .ofName case) : Offends u (.branchArgument v d a) .badSyntax
  | undeclaredSource {v : Variant} {d : Directive} {a : Argument} {case : String} {key : DottedName}
    (hd : d.name = fromCase) (hv : a.value = .ofName case) (ha : a.key = some key) (hk : ¬u.Declares key) :
    Offends u (.branchArgument v d a) .unknownSource

/-- A diagnostic is the report of a mistake. -/
def Reports (u : Union) (file : Option String) (w : Written) (d : Diagnostic) : Prop :=
  ∃ f, u.Offends w f ∧ d.code = some f.code ∧ d.phase = some "mapping" ∧ d.isError ∧
    d.span = Span.ofPlace (w.place u f) file

/-- The directives of a union as they should be: of the union itself, sources and containers, and at least one source;
of the variants, cases, each of any source or of one that is declared. -/
structure WellDirected (u : Union) : Prop where
  source : ∃ source, u.Declares source
  heads : ∀ d ∈ u.directives, d.name = fromUnion ∧ ∀ a ∈ d.args, a.key = none ∨ a.key = some (.ofName effectContainer)
  branches : ∀ v ∈ u.variants, ∀ d ∈ v.directives, d.name = fromCase ∧
    ∀ a ∈ d.args, (∃ case, a.value = .ofName case) ∧ (a.key = none ∨ ∃ source, a.key = some source ∧ u.Declares source)

/-- The arguments of the union's directives that name a container, in source order. -/
def containerArguments (u : Union) : List Argument :=
  (u.directives.flatMap (·.args)).filter (·.key = some (.ofName effectContainer))

variable {u : Union} {v : Variant} {d : Directive} {a : Argument} {key : DottedName} {file : Option String}

theorem mem_sources_iff_declares : key ∈ u.sources ↔ u.Declares key := by
  rw [mem_sources, writtenSources, Declares]
  simp only [argumentsOf, List.mem_filterMap, List.mem_flatMap, List.mem_filter, decide_eq_true_eq,
    Option.ite_none_right_eq_some, Option.some.injEq]
  constructor
  · rintro ⟨a, ⟨d, ⟨hd, hname⟩, ha⟩, hkey⟩
    exact ⟨d, hd, hname, a, ha, hkey⟩
  · rintro ⟨d, hd, hname, a, ha, hkey⟩
    exact ⟨a, ⟨d, ⟨hd, hname⟩, ha⟩, hkey⟩

theorem sources_eq_nil_iff : u.sources = [] ↔ ¬∃ source, u.Declares source := by
  simp only [List.eq_nil_iff_forall_not_mem, mem_sources_iff_declares, not_exists]

/-! ### What offends -/

theorem offends_head_iff : (∃ f, u.Offends (.head d) f) ↔ d.name ≠ fromUnion := by
  constructor
  · rintro ⟨_, h⟩
    cases h with
    | caseOnUnion hd => rw [hd]; decide
    | unknownAtHead _ hu => exact hu
  · intro hu
    by_cases hc : d.name = fromCase
    · exact ⟨_, .caseOnUnion hc⟩
    · exact ⟨_, .unknownAtHead hc hu⟩

theorem offends_headArgument_iff : (∃ f, u.Offends (.headArgument d a) f) ↔
    d.name = fromUnion ∧ a.key ≠ none ∧ a.key ≠ some (.ofName effectContainer) := by
  constructor
  · rintro ⟨_, h⟩
    cases h with
    | option hd ha hk => simp [hd, ha, hk]
  · rintro ⟨hd, hne, hk⟩
    obtain ⟨key, ha⟩ := Option.ne_none_iff_exists'.mp hne
    exact ⟨_, .option hd ha fun h => hk (h ▸ ha)⟩

theorem offends_union_iff : (∃ f, u.Offends .union f) ↔ u.sources = [] := by
  rw [sources_eq_nil_iff]
  exact ⟨fun ⟨_, .noSource hu⟩ => hu, fun hu => ⟨_, .noSource hu⟩⟩

theorem offends_branch_iff : (∃ f, u.Offends (.branch v d) f) ↔ d.name ≠ fromCase := by
  constructor
  · rintro ⟨_, h⟩
    cases h with
    | unionOnVariant hd => rw [hd]; decide
    | unknownAtBranch _ hc => exact hc
  · intro hc
    by_cases hu : d.name = fromUnion
    · exact ⟨_, .unionOnVariant hu⟩
    · exact ⟨_, .unknownAtBranch hu hc⟩

theorem offends_branchArgument_iff : (∃ f, u.Offends (.branchArgument v d a) f) ↔
    d.name = fromCase ∧ (a.value.simple? = none ∨ ∃ key ∈ a.key, ¬u.Declares key) := by
  constructor
  · rintro ⟨_, h⟩
    cases h with
    | dottedCase hd ha => exact ⟨hd, .inl (DottedName.simple?_eq_none_iff.mpr ha)⟩
    | undeclaredSource hd _ ha hk => exact ⟨hd, .inr ⟨_, ha, hk⟩⟩
  · rintro ⟨hd, h⟩
    cases hcase : a.value.simple? with
    | none => exact ⟨_, .dottedCase hd (DottedName.simple?_eq_none_iff.mp hcase)⟩
    | some case =>
      obtain ⟨key, ha, hk⟩ := h.resolve_left (by simp [hcase])
      exact ⟨_, .undeclaredSource hd (DottedName.simple?_eq_some_iff.mp hcase) ha hk⟩

instance : Decidable (u.Declares key) :=
  inferInstanceAs (Decidable (∃ d ∈ u.directives, d.name = fromUnion ∧ ∃ a ∈ d.args, a.key = none ∧ a.value = key))

instance : (w : Written) → Decidable (∃ f, u.Offends w f)
  | .union => decidable_of_iff _ offends_union_iff.symm
  | .head _ => decidable_of_iff _ offends_head_iff.symm
  | .headArgument _ _ => decidable_of_iff _ offends_headArgument_iff.symm
  | .branch _ _ => decidable_of_iff _ offends_branch_iff.symm
  | .branchArgument _ _ _ => decidable_of_iff _ offends_branchArgument_iff.symm

/-- The mistakes among what is written, in its order. -/
def offending (u : Union) (ws : List Written) : List Written := ws.filter fun w => ∃ f, u.Offends w f

theorem offending_eq_nil_iff {ws : List Written} : u.offending ws = [] ↔ ∀ w ∈ ws, ¬∃ f, u.Offends w f := by
  simp [offending]

theorem offending_append (ws ws' : List Written) : u.offending (ws ++ ws') = u.offending ws ++ u.offending ws' :=
  List.filter_append ..

theorem offending_cons_of {w : Written} {ws : List Written} (h : ∃ f, u.Offends w f) :
    u.offending (w :: ws) = w :: u.offending ws :=
  List.filter_cons_of_pos (decide_eq_true h)

theorem offending_cons_of_not {w : Written} {ws : List Written} (h : ¬∃ f, u.Offends w f) :
    u.offending (w :: ws) = u.offending ws :=
  List.filter_cons_of_neg (by simpa using h)

/-- Of a directive that has no place at the head, only the directive is at fault. -/
theorem offending_head (d : Directive) : u.offending (.head d :: d.args.map (.headArgument d)) =
    if d.name = fromUnion then u.offending (d.args.map (.headArgument d)) else [.head d] := by
  split
  · rename_i hd
    exact offending_cons_of_not fun h => offends_head_iff.mp h hd
  · rename_i hd
    rw [offending_cons_of (offends_head_iff.mpr hd), offending_eq_nil_iff.mpr]
    exact List.forall_mem_map.mpr fun a _ h => hd (offends_headArgument_iff.mp h).1

/-- Of a directive that has no place at a variant, only the directive is at fault. -/
theorem offending_branch (v : Variant) (d : Directive) : u.offending (.branch v d :: d.args.map (.branchArgument v d)) =
    if d.name = fromCase then u.offending (d.args.map (.branchArgument v d)) else [.branch v d] := by
  split
  · rename_i hd
    exact offending_cons_of_not fun h => offends_branch_iff.mp h hd
  · rename_i hd
    rw [offending_cons_of (offends_branch_iff.mpr hd), offending_eq_nil_iff.mpr]
    exact List.forall_mem_map.mpr fun a _ h => hd (offends_branchArgument_iff.mp h).1

theorem offending_head_eq_nil_iff : u.offending (.head d :: d.args.map (.headArgument d)) = [] ↔
    d.name = fromUnion ∧ ∀ a ∈ d.args, a.key = none ∨ a.key = some (.ofName effectContainer) := by
  rw [offending_head]
  split
  · rename_i hd
    rw [offending_eq_nil_iff, List.forall_mem_map]
    simp only [offends_headArgument_iff, hd, true_and, not_and_or, Decidable.not_not]
  · rename_i hd
    simp [hd]

theorem offending_branch_eq_nil_iff : u.offending (.branch v d :: d.args.map (.branchArgument v d)) = [] ↔
    d.name = fromCase ∧ ∀ a ∈ d.args, (∃ case, a.value = .ofName case) ∧
      (a.key = none ∨ ∃ source, a.key = some source ∧ u.Declares source) := by
  rw [offending_branch]
  split
  · rename_i hd
    rw [offending_eq_nil_iff, List.forall_mem_map]
    simp only [offends_branchArgument_iff, hd, true_and, not_or, DottedName.simple?_eq_none_iff, not_not]
    refine forall₂_congr fun a _ => and_congr_right fun _ => ?_
    cases a.key <;> simp
  · rename_i hd
    simp [hd]

theorem offending_flatMap {α : Type} (l : List α) (items : α → List Written) :
    u.offending (l.flatMap items) = l.flatMap fun a => u.offending (items a) :=
  List.filter_flatMap ..

theorem offending_flatMap_eq_nil_iff {α : Type} {l : List α} {items : α → List Written} :
    u.offending (l.flatMap items) = [] ↔ ∀ a ∈ l, u.offending (items a) = [] := by
  rw [offending_flatMap, List.flatMap_eq_nil_iff]

/-- Nothing offends in directives as they should be. -/
theorem offending_written_eq_nil_iff : u.offending u.written = [] ↔ u.WellDirected := by
  have hunion (ws : List Written) :
      u.offending (.union :: ws) = [] ↔ (∃ source, u.Declares source) ∧ u.offending ws = [] := by
    rw [offending_eq_nil_iff, List.forall_mem_cons, offends_union_iff, sources_eq_nil_iff, not_not,
      ← offending_eq_nil_iff]
  rw [written, offending_append, List.append_eq_nil_iff, hunion]
  simp only [offending_flatMap_eq_nil_iff, offending_head_eq_nil_iff, offending_branch_eq_nil_iff]
  exact ⟨fun ⟨hheads, hsource, hbranches⟩ => ⟨hsource, hheads, hbranches⟩, fun h => ⟨h.heads, h.source, h.branches⟩⟩

/-! ### What is reported -/

theorem forall₂_headFaults (d : Directive) :
    List.Forall₂ (u.Reports file) (u.offending (.head d :: d.args.map (.headArgument d)))
      ((headFaults d).map (u.faultDiagnostic file)) := by
  rw [offending_head, headFaults]
  by_cases hc : d.name = fromCase
  · have hu : d.name ≠ fromUnion := by rw [hc]; decide
    rw [if_neg hu, if_pos hc]
    exact .cons ⟨_, .caseOnUnion hc, rfl, rfl, rfl, rfl⟩ .nil
  rw [if_neg hc]
  by_cases hu : d.name = fromUnion
  · rw [if_pos hu, if_pos hu, List.map_filterMap, offending, List.filter_map]
    refine forall₂_filter_map fun a _ => ?_
    rw [Function.comp_apply, decide_eq_true_eq, offends_headArgument_iff, optionFault?]
    cases hkey : a.key with
    | none => simp
    | some key =>
      by_cases hk : key = .ofName effectContainer
      · simp [hk]
      · refine .inl ⟨by simp [hu, hk], _, by simp [hk]; rfl, _, .option hu hkey hk, rfl, rfl, rfl, rfl⟩
  · rw [if_neg hu, if_neg hu]
    exact .cons ⟨_, .unknownAtHead hc hu, rfl, rfl, rfl, rfl⟩ .nil

theorem forall₂_variantFaults (v : Variant) (d : Directive) :
    List.Forall₂ (u.Reports file) (u.offending (.branch v d :: d.args.map (.branchArgument v d)))
      ((variantFaults u.sources v d).map (u.faultDiagnostic file)) := by
  rw [offending_branch, variantFaults]
  by_cases hu : d.name = fromUnion
  · have hc : d.name ≠ fromCase := by rw [hu]; decide
    rw [if_neg hc, if_pos hu]
    exact .cons ⟨_, .unionOnVariant hu, rfl, rfl, rfl, rfl⟩ .nil
  rw [if_neg hu]
  by_cases hc : d.name = fromCase
  · rw [if_pos hc, if_pos hc, List.map_filterMap, offending, List.filter_map]
    refine forall₂_filter_map fun a _ => ?_
    rw [Function.comp_apply, decide_eq_true_eq, offends_branchArgument_iff, claim?]
    cases hcase : a.value.simple? with
    | none =>
      have hoff : u.Offends (.branchArgument v d a) .badSyntax :=
        .dottedCase hc (DottedName.simple?_eq_none_iff.mp hcase)
      exact .inl ⟨⟨hc, .inl rfl⟩, _, rfl, _, hoff, rfl, rfl, rfl, rfl⟩
    | some case =>
      have hv : a.value = .ofName case := DottedName.simple?_eq_some_iff.mp hcase
      cases hkey : a.key with
      | none => exact .inr ⟨by simp, rfl⟩
      | some key =>
        by_cases hk : u.Declares key
        · have hmem : u.sources.contains key := List.contains_iff_mem.mpr (mem_sources_iff_declares.mpr hk)
          exact .inr ⟨by simp [hk], by simp only [hmem, if_true]; rfl⟩
        · have hmem : ¬u.sources.contains key := fun h => hk (mem_sources_iff_declares.mp (List.contains_iff_mem.mp h))
          exact .inl ⟨⟨hc, .inr ⟨key, rfl, hk⟩⟩, _, by simp only [hmem]; rfl,
            _, .undeclaredSource hc hv hkey hk, rfl, rfl, rfl, rfl⟩
  · rw [if_neg hc, if_neg hc]
    exact .cons ⟨_, .unknownAtBranch hu hc, rfl, rfl, rfl, rfl⟩ .nil

theorem forall₂_sourceFaults : List.Forall₂ (u.Reports file) (u.offending [.union])
    ((if u.sources.isEmpty then [DirectiveFault.noSource] else []).map (u.faultDiagnostic file)) := by
  simp only [List.isEmpty_iff]
  split
  · rename_i hu
    rw [offending_cons_of (offends_union_iff.mpr hu)]
    exact .cons ⟨_, .noSource (sources_eq_nil_iff.mp hu), rfl, rfl, rfl, rfl⟩ .nil
  · rename_i hu
    rw [offending_cons_of_not (hu ∘ offends_union_iff.mp)]
    exact .nil

theorem forall₂_directiveFaults (u : Union) (file : Option String) :
    List.Forall₂ (u.Reports file) (u.offending u.written) (u.directiveFaults.map (u.faultDiagnostic file)) := by
  rw [written, ← List.singleton_append, offending_append, offending_append, directiveFaults, List.append_assoc,
    List.map_append, List.map_append, List.map_flatMap, List.map_flatMap]
  simp only [List.map_flatMap]
  refine List.rel_append ?_ (List.rel_append forall₂_sourceFaults ?_)
  · rw [offending_flatMap]
    exact forall₂_flatMap fun d _ => forall₂_headFaults d
  · rw [offending_flatMap]
    refine forall₂_flatMap fun v _ => ?_
    rw [offending_flatMap]
    exact forall₂_flatMap fun d _ => forall₂_variantFaults v d

/-- Where the directives of the union all declare sources, the container is the value of the last argument that names
one. -/
theorem container?_eq (h : ∀ d ∈ u.directives, d.name = fromUnion) :
    u.container? = u.containerArguments.getLast?.map (·.value) := by
  have hargs : argumentsOf fromUnion u.directives = u.directives.flatMap (·.args) := by
    rw [argumentsOf, List.filter_eq_self.mpr fun d hd => decide_eq_true (h d hd)]
  rw [container?, hargs, containerArguments, ← List.getLast?_map, ← List.filterMap_eq_map, List.filterMap_filter]
  simp only [decide_eq_true_eq, Function.comp_apply]

end Union

/-- A union has a mapping just in case its directives are as they should be. Otherwise each of its mistakes is reported
once, in source order, and nothing else is. -/
theorem Mapping.ofUnion_exact (u : Union) (file : Option String) :
    match Mapping.ofUnion u file with
    | .ok m => u.WellDirected ∧ m.container = u.containerArguments.getLast?.map (·.value)
    | .error ds => ¬u.WellDirected ∧ List.Forall₂ (u.Reports file) (u.offending u.written) ds := by
  have hreports := Union.forall₂_directiveFaults u file
  cases h : Mapping.ofUnion u file with
  | ok m =>
    obtain ⟨hfaults, rfl⟩ := Mapping.ofUnion_eq_ok_iff.mp h
    rw [hfaults, List.map_nil, List.forall₂_nil_right_iff] at hreports
    have hu := Union.offending_written_eq_nil_iff.mp hreports
    exact ⟨hu, Union.container?_eq fun d hd => (hu.heads d hd).1⟩
  | error ds =>
    rw [Mapping.ofUnion] at h
    split at h
    · cases h
    · rename_i hfaults
      cases h
      refine ⟨fun hu => hfaults ?_, hreports⟩
      rw [Union.offending_written_eq_nil_iff.mpr hu, List.forall₂_nil_left_iff, List.map_eq_nil_iff] at hreports
      exact hreports

/-- Neither the misplaced `@from_case` nor the option names a source, so every source of a case is undeclared. -/
example :
    let u : Union := {
      name := "Shape"
      variants := [⟨"Dot", .unit, [⟨"form_case", [], ⟨3, 3⟩⟩,
        ⟨fromCase, [⟨some (.ofName "A"), .ofName "Dot", ⟨4, 13⟩⟩, ⟨none, ⟨"a", ["Dot"]⟩, ⟨4, 22⟩⟩], ⟨4, 3⟩⟩], ⟨5, 3⟩⟩]
      directives := [⟨fromCase, [⟨none, .ofName "A", ⟨1, 11⟩⟩], ⟨1, 1⟩⟩,
        ⟨fromUnion, [⟨some (.ofName "to"), .ofName "List", ⟨2, 13⟩⟩], ⟨2, 1⟩⟩]
      place := ⟨6, 1⟩ }
    (match Mapping.ofUnion u none with
      | .ok _ => []
      | .error ds => ds.map (·.code)) =
      [Fault.misplacedDirective, .unknownOption, .missingSource, .unknownDirective, .unknownSource, .badSyntax].map
        (some ·.code) := by
  decide +kernel

end UnionBridge
