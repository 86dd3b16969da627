import UnionBridge.Execution.Statement
import UnionBridge.Proofs.Compile
import UnionBridge.Proofs.Execution.Action

/-! Sources that their schema declares: each of their cases has one arm, which reads what the case has and passes all
that a variant needs. -/
namespace UnionBridge

variable {s : Schema} {u decl : Union} {p : Plan} {file doc : Option String} {source : String} {S : DottedName}
  {byCase : Table String (List Candidate)} {C : String} {L : List Candidate}

/-! ### Attributes -/

namespace Body

variable {b : Body} {f : Field}

/-- A field that can be read from a variant is read from an attribute that the variant has. -/
theorem attr_mem_attrs (h : b.unreadable? f = none) : f.attr ∈ b.attrs := by
  obtain ⟨name, type, index⟩ := f
  cases name with
  | some name =>
    simp only [unreadable?] at h
    split at h
    · cases h
    split at h
    · cases h
    · rename_i hex
      obtain ⟨g, hg, hname⟩ : ∃ g ∈ b.fields, g.name = some name := by simpa using hex
      refine List.mem_map.mpr ⟨g, hg, ?_⟩
      simp [Field.attr, hname]
  | none =>
    simp only [unreadable?] at h
    split at h
    · cases h
    split at h
    · cases h
    · rename_i hpos hlen
      cases b with
      | unit => simp [isPositional] at hpos
      | named fs => simp [isPositional] at hpos
      | positional ts =>
        have hi : index < ts.length := by simpa [fields] using hlen
        exact List.mem_map.mpr ⟨_, mem_fields_positional.mpr ⟨index, _, List.getElem?_eq_getElem hi, rfl⟩, rfl⟩

end Body

namespace CaseClass

variable {cls attr : String}

/-- Whether a class keeps an attribute under another name: one that begins with two low lines, and does not end with
two, unless the name of the class is nothing but low lines. -/
def Private (cls attr : String) : Prop :=
  attr.startsWith "__" ∧ ¬attr.endsWith "__" ∧ cls.toList.dropWhile (· = '_') ≠ []

instance : Decidable (Private cls attr) := inferInstanceAs (Decidable (_ ∧ _))

theorem privateName_of_private (h : Private cls attr) :
    (privateName cls attr).toList = '_' :: (cls.toList.dropWhile (· = '_') ++ attr.toList) := by
  obtain ⟨hs, he, hi⟩ := h
  have hi : String.ofList (cls.toList.dropWhile (· = '_')) ≠ "" := by
    intro h
    exact hi (by simpa using congrArg String.toList h)
  rw [privateName, if_pos (by simp [hs, he, hi])]
  simp [String.toList_append, toString]

theorem privateName_of_not_private (h : ¬Private cls attr) : privateName cls attr = attr := by
  rw [privateName]
  apply if_neg
  intro hc
  simp only [Bool.and_eq_true, Bool.not_eq_true', decide_eq_true_eq, ne_eq] at hc
  apply h
  refine ⟨hc.1.1, by simp [hc.1.2], fun hnil => hc.2 ?_⟩
  rw [hnil]

theorem privateName_eq_self_iff : privateName cls attr = attr ↔ ¬Private cls attr := by
  constructor
  · intro h hp
    have := congrArg List.length ((congrArg String.toList h).symm.trans (privateName_of_private hp))
    simp at this
    omega
  · exact privateName_of_not_private

/-- A renamed attribute begins with a single low line. -/
theorem privateName_ne_of_private {attr' : String} (h : Private cls attr) (h' : Private cls attr') :
    privateName cls attr' ≠ attr := by
  intro heq
  have hlist := privateName_of_private h'
  rw [heq] at hlist
  obtain ⟨rest, hrest⟩ := String.startsWith_string_iff.mp h.1
  rw [← hrest] at hlist
  obtain ⟨c, cs, hc⟩ := List.exists_cons_of_ne_nil h'.2.2
  have hne : c ≠ '_' := by
    have := List.head_dropWhile_not (fun c => decide (c = '_')) h'.2.2
    simpa [hc] using this
  rw [hc] at hlist
  simp at hlist
  exact hne hlist.1.symm

/-- The attributes that a class writes down. -/
def written (c : CaseClass) : List String := c.fields.map Prod.fst

/-- The attributes that its values have, and that its constructor takes. -/
def kept (c : CaseClass) : List String := c.recordFields.map Prod.fst

/-- A class keeps what it writes down under its own name, unless that is private to the class. -/
theorem mem_kept_iff {c : CaseClass} (h : attr ∈ c.written) : attr ∈ c.kept ↔ ¬Private c.name attr := by
  simp only [kept, recordFields, List.map_map, List.mem_map, Function.comp_def]
  constructor
  · rintro ⟨⟨attr', _⟩, _, heq⟩ hp
    by_cases hp' : Private c.name attr'
    · exact privateName_ne_of_private hp hp' heq
    · rw [privateName_of_not_private hp'] at heq
      exact hp' (heq ▸ hp)
  · intro hp
    obtain ⟨⟨_, type⟩, he, rfl⟩ := List.mem_map.mp h
    exact ⟨_, he, privateName_of_not_private hp⟩

theorem kept_eq_written_iff {c : CaseClass} : c.kept = c.written ↔ ∀ attr ∈ c.written, ¬Private c.name attr := by
  simp only [kept, written, recordFields, List.map_map, Function.comp_def, List.map_inj_left, privateName_eq_self_iff,
    List.forall_mem_map]

theorem written_ofVariant (u : Union) (v : Variant) : (ofVariant u v).written = v.body.attrs := by
  simp [written, ofVariant, Body.attrs]

end CaseClass

/-! ### Coverage -/

namespace Plan.Of

variable (h : p.Of s u file) (hS : p.table.get? S = some byCase) (hd : s.declared? S = some decl)
include h hS hd

theorem sourceFaults_eq_nil : p.sourceFaults decl S byCase = [] := by
  have hf := List.flatMap_eq_nil_iff.mp h.faultless (S, byCase) (Table.mem_entries_of_get? hS)
  simpa only [hd] using hf

theorem mem_keys_of_variant {v : Variant} (hv : v ∈ decl.variants) : v.name ∈ byCase.keys := by
  have hf := (List.append_eq_nil_iff.mp (h.sourceFaults_eq_nil hS hd)).2
  split at hf
  · rename_i hm
    have hc := List.filter_eq_nil_iff.mp hm v.name (List.mem_map.mpr ⟨v, hv, rfl⟩)
    exact Table.contains_iff.mp (by simpa using hc)
  · cases hf

/-- A claimed case is declared, and its candidates can be read from it. -/
theorem readable (hC : byCase.get? C = some L) :
    ∃ v ∈ decl.variants, v.name = C ∧ ∀ c ∈ L, ∀ f ∈ c.target.fields, f.attr ∈ v.body.attrs := by
  have hf := (List.append_eq_nil_iff.mp (h.sourceFaults_eq_nil hS hd)).1
  have hf := List.flatMap_eq_nil_iff.mp hf (C, L) (Table.mem_entries_of_get? hC)
  simp only [caseFaults] at hf
  split at hf
  · have hne := (h.eq_asked hS hC).1
    obtain ⟨c, hc⟩ := List.exists_mem_of_ne_nil L hne
    have hmem : c.target ∈ (L.map (·.target)).eraseDups := List.mem_eraseDups.mpr (List.mem_map.mpr ⟨c, hc, rfl⟩)
    rw [List.map_eq_nil_iff.mp hf] at hmem
    cases hmem
  · rename_i v hv
    refine ⟨v, List.mem_of_find?_eq_some hv, by simpa using List.find?_some hv, fun c hc f hfield => ?_⟩
    have hc := List.filterMap_eq_nil_iff.mp hf c hc
    rw [Option.map_eq_none_iff, List.findSome?_eq_none_iff] at hc
    exact Body.attr_mem_attrs (hc f hfield)

/-- Every variant of a declared source is a case, in the order of declaration, and nothing else is. -/
theorem caseOrder_eq : Conversion.caseOrder (some decl) byCase = decl.variants.map (·.name) := by
  have hall : (decl.variants.map (·.name)).filter byCase.contains = decl.variants.map (·.name) := by
    rw [List.filter_eq_self, List.forall_mem_map]
    intro v hv
    exact Table.contains_iff.mpr (h.mem_keys_of_variant hS hd hv)
  have hnone : (byCase.keys.filter fun case => !(decl.variants.map (·.name)).contains case) = [] := by
    rw [List.filter_eq_nil_iff]
    intro case hcase
    obtain ⟨l, hl⟩ := Option.isSome_iff_exists.mp (Table.isSome_get?_iff.mpr hcase)
    obtain ⟨v, hv, rfl, _⟩ := h.readable hS hd hl
    simpa using ⟨v, hv, rfl⟩
  simp only [Conversion.caseOrder, hall, hnone, List.append_nil]

end Plan.Of

/-- The attributes that an attempt reads. The constructor takes them under the same names, if it takes names. -/
def Attempt.reads (a : Attempt) : List String := a.steps.map (·.attr)

theorem Attempt.reads_ofTarget (dest : String) (t : Target) : (ofTarget dest t).reads = t.body.attrs := by
  simp [reads, ofTarget, Target.fields, Body.attrs, FieldStep.ofField]

theorem Attempt.byKeyword_ofTarget {dest : String} {t : Target} :
    (ofTarget dest t).passing = .byKeyword ↔ t.body.isNamed := by
  simp only [ofTarget]
  split <;> simp_all

/-- An attempt reads what the source variant writes down and passes what the destination variant writes down. -/
theorem Attempt.fits {dest : Union} {v t : Variant} {target : Target} {name : String} (hn : t.body.fieldNames.Nodup)
    (ht : target.body = t.body) (hr : ∀ f ∈ target.fields, f.attr ∈ v.body.attrs) :
    (∀ attr ∈ (ofTarget name target).reads, attr ∈ (CaseClass.ofVariant decl v).written) ∧
      (ofTarget name target).reads = (CaseClass.ofVariant dest t).written ∧ (ofTarget name target).reads.Nodup ∧
      (∀ attr ∈ (ofTarget name target).reads, attr ∈ (CaseClass.ofVariant decl v).kept ↔
        ¬CaseClass.Private (CaseClass.ofVariant decl v).name attr) ∧
      ((ofTarget name target).reads = (CaseClass.ofVariant dest t).kept ↔
        ∀ attr ∈ (ofTarget name target).reads, ¬CaseClass.Private (CaseClass.ofVariant dest t).name attr) := by
  have hwritten : ∀ attr ∈ (ofTarget name target).reads, attr ∈ (CaseClass.ofVariant decl v).written := by
    rw [reads_ofTarget, CaseClass.written_ofVariant, Body.attrs, List.forall_mem_map]
    exact hr
  have hpassed : (ofTarget name target).reads = (CaseClass.ofVariant dest t).written := by
    rw [reads_ofTarget, CaseClass.written_ofVariant, ht]
  refine ⟨hwritten, hpassed, ?_, fun attr ha => CaseClass.mem_kept_iff (hwritten attr ha), ?_⟩
  · rw [reads_ofTarget, ht]
    exact Body.nodup_attrs hn
  · rw [hpassed, eq_comm]
    exact CaseClass.kept_eq_written_iff

theorem ArmBody.attempts_ofCandidates (dest : String) (L : List Candidate) :
    (ofCandidates dest L).attempts = L.map fun c => Attempt.ofTarget dest c.target := by
  simp only [ofCandidates]
  split
  · rename_i a h
    simp only [attempts, h]
  · rfl

/-- The first arm whose case the value is of is run, whatever comes after it. -/
theorem Conversion.eval_runArms_first {conv : Conversion} {sc : Scope} {l : Locals} {before after : List Arm} {arm : Arm}
    (hb : ∀ a ∈ before, Action.eval (sc.isInstance parameter (conv.source.child a.case)) l = (.ok false, l))
    (ha : Action.eval (sc.isInstance parameter (conv.source.child arm.case)) l = (.ok true, l)) :
    Action.eval (conv.runArms sc (before ++ arm :: after)) l = Action.eval (arm.body.run conv sc arm.case) l := by
  induction before with
  | nil => rw [List.nil_append, runArms, Action.eval_bind_ok ha, if_pos rfl]
  | cons b before ih =>
    rw [List.cons_append, runArms, Action.eval_bind_ok (hb b List.mem_cons_self), if_neg Bool.false_ne_true]
    exact ih fun a ha => hb a (List.mem_cons_of_mem _ ha)

/-- A value that the tests say to be of one case only goes to the arm of that case. -/
theorem Conversion.eval_runArms {conv : Conversion} {sc : Scope} {l : Locals} {arms : List Arm} {arm : Arm}
    (ha : arm ∈ arms) (hn : (arms.map (·.case)).Nodup)
    (ht : ∀ a ∈ arms,
      Action.eval (sc.isInstance parameter (conv.source.child a.case)) l = (.ok (a.case = arm.case), l)) :
    Action.eval (conv.runArms sc arms) l = Action.eval (arm.body.run conv sc arm.case) l := by
  obtain ⟨before, after, rfl⟩ := List.append_of_mem ha
  refine eval_runArms_first (fun a ha => ?_) ((ht arm (by simp)).trans (by simp))
  have hne : a.case ≠ arm.case := by
    rw [List.map_append, List.nodup_append] at hn
    exact hn.2.2 _ (List.mem_map_of_mem ha) _ (by simp)
  rw [ht a (by simp [ha])]
  simp [hne]

/-- The conversion from a declared source has one arm for each of its variants, in the order of declaration, so a value
of any of them goes to the arm of that variant. Each attempt in an arm reads attributes that the class of the source
variant writes down, and passes each field of the destination variant once, by name exactly if the fields have names.
What is read is there, and what is passed is taken, exactly as far as no class keeps an attribute under another name. -/
theorem Compiled.conversion_of_declared {c : Compiled} (hc : compile source file doc = .ok c) (hp : p ∈ c.plans)
    (hS : S ∈ p.table.keys) (hd : c.schema.declared? S = some decl) :
    ∃ conv ∈ c.module.conversions, (conv.source = S ∧ conv.dest = p.dest) ∧
      (∀ conv' ∈ c.module.conversions, conv'.source = S → conv'.dest = p.dest → conv' = conv) ∧
      conv.arms.map (·.case) = decl.variants.map (·.name) ∧ (conv.arms.map (·.case)).Nodup ∧
      (∀ (sc : Scope) (l : Locals), ∀ v ∈ decl.variants,
        (∀ w ∈ decl.variants,
          Action.eval (sc.isInstance Conversion.parameter (S.child w.name)) l = (.ok (w.name = v.name), l)) →
        ∃ arm ∈ conv.arms, arm.case = v.name ∧
          Action.eval (conv.body sc) l = Action.eval (arm.body.run conv sc arm.case) l) ∧
      ∃ dest ∈ c.schema.unions, dest.name = p.dest ∧
        UnionClass.ofUnion decl ∈ c.module.unions ∧ UnionClass.ofUnion dest ∈ c.module.unions ∧
        ∀ arm ∈ conv.arms, ∃ v ∈ decl.variants, v.name = arm.case ∧ ∀ a ∈ arm.body.attempts, ∃ t ∈ dest.variants,
          a.constructor = ⟨dest.name, [t.name]⟩ ∧ (a.passing = .byKeyword ↔ t.body.isNamed) ∧
          (∀ attr ∈ a.reads, attr ∈ (CaseClass.ofVariant decl v).written) ∧
          a.reads = (CaseClass.ofVariant dest t).written ∧ a.reads.Nodup ∧
          (∀ attr ∈ a.reads, attr ∈ (CaseClass.ofVariant decl v).kept ↔
            ¬CaseClass.Private (CaseClass.ofVariant decl v).name attr) ∧
          (a.reads = (CaseClass.ofVariant dest t).kept ↔
            ∀ attr ∈ a.reads, ¬CaseClass.Private (CaseClass.ofVariant dest t).name attr) := by
  obtain ⟨byCase, hbyCase⟩ := Option.isSome_iff_exists.mp (Table.isSome_get?_iff.mpr hS)
  obtain ⟨conv, hconv, name, heq, huniq⟩ := exists_conversion hc hp hbyCase
  obtain ⟨dest, hdest, hof⟩ := exists_destination hc hp
  have hdistinct := distinct hc
  obtain ⟨hdecl, _⟩ := Schema.mem_of_declared? hd
  have hdest := List.mem_of_mem_filter hdest
  have hsource : conv.source = S ∧ conv.dest = p.dest := by
    rw [heq]
    exact ⟨rfl, rfl⟩
  have hcases : conv.arms.map (·.case) = decl.variants.map (·.name) := by
    rw [heq, Conversion.map_case_arms, hd, hof.caseOrder_eq hbyCase hd]
  have hn : (conv.arms.map (·.case)).Nodup := hcases ▸ hdistinct.variants decl hdecl
  have hunions (u : Union) (hu : u ∈ c.schema.unions) : UnionClass.ofUnion u ∈ c.module.unions := by
    obtain ⟨_, _, _, hm⟩ := compile_eq_ok_iff.mp hc
    rw [hm]
    exact List.mem_map.mpr ⟨u, hu, rfl⟩
  refine ⟨conv, hconv, hsource, huniq, hcases, hn, fun sc l v hv ht => ?_, dest, hdest, hof.dest_eq.symm,
    hunions decl hdecl, hunions dest hdest, fun arm harm => ?_⟩
  · obtain ⟨arm, harm, hcase⟩ : ∃ arm ∈ conv.arms, arm.case = v.name := by
      rw [← List.mem_map, hcases]
      exact List.mem_map.mpr ⟨v, hv, rfl⟩
    refine ⟨arm, harm, hcase, Conversion.eval_runArms harm hn fun a ha => ?_⟩
    obtain ⟨w, hw, hwa⟩ : ∃ w ∈ decl.variants, w.name = a.case := by
      rw [← List.mem_map, ← hcases]
      exact List.mem_map.mpr ⟨a, ha, rfl⟩
    rw [hsource.1, hcase, ← hwa]
    exact ht w hw
  · rw [heq] at harm
    obtain ⟨l, hl, hbody⟩ := Conversion.mem_arms_ofCases.mp harm
    obtain ⟨v, hv, hname, hreads⟩ := hof.readable hbyCase hd hl
    refine ⟨v, hv, hname, fun a ha => ?_⟩
    rw [hbody, ArmBody.attempts_ofCandidates] at ha
    obtain ⟨cand, hcand, rfl⟩ := List.mem_map.mp ha
    obtain ⟨t, ht, htname, htbody⟩ := hof.variant_of_candidate hbyCase hl hcand
    have hn := hdistinct.fields dest hdest t ht
    refine ⟨t, ht, ?_, ?_, Attempt.fits hn htbody (hreads cand hcand)⟩
    · rw [← hof.dest_eq, ← htname]
      rfl
    · rw [← htbody]
      exact Attempt.byKeyword_ofTarget

/-- A source with variants of both kinds. For the first there are two candidates, the one of which reads the fields in
another order; the second is converted by position. -/
def severalText : String :=
  "union S \x7b A \x7b x: int, y: str \x7d B(int, str) \x7d\n@from_union(S)\nunion D \x7b @from_case(A) F \x7b x: str \x7d " ++
    "@from_case(A) G \x7b y: str, x: int \x7d B(str, str) \x7d\n"

def severalSource : Union where
  name := "S"
  variants := [⟨"A", .named [("x", .ofName "int"), ("y", .ofName "str")], [], ⟨1, 11⟩⟩,
    ⟨"B", .positional [.ofName "int", .ofName "str"], [], ⟨1, 32⟩⟩]
  directives := []
  place := ⟨1, 1⟩

def severalSchema : Schema where
  imports := []
  unions := [severalSource,
    ⟨"D", [⟨"F", .named [("x", .ofName "str")], [⟨fromCase, [⟨none, .ofName "A", ⟨3, 22⟩⟩], ⟨3, 11⟩⟩], ⟨3, 11⟩⟩,
        ⟨"G", .named [("y", .ofName "str"), ("x", .ofName "int")],
          [⟨fromCase, [⟨none, .ofName "A", ⟨3, 49⟩⟩], ⟨3, 38⟩⟩], ⟨3, 38⟩⟩,
        ⟨"B", .positional [.ofName "str", .ofName "str"], [], ⟨3, 73⟩⟩],
      [⟨fromUnion, [⟨none, .ofName "S", ⟨2, 13⟩⟩], ⟨2, 1⟩⟩], ⟨2, 1⟩⟩]

set_option maxRecDepth 10000 in
theorem Compiled.conversion_of_declared_several :
    ∃ c, compile severalText none none = .ok c ∧ ∃ conv ∈ c.module.conversions,
      conv.arms.map (·.case) = ["A", "B"] ∧
      conv.arms.map (fun arm => arm.body.attempts.map fun a => (a.constructor.text, a.passing, a.reads)) =
        [[("D.F", .byKeyword, ["x"]), ("D.G", .byKeyword, ["y", "x"])], [("D.B", .byPosition, ["_0", "_1"])]] ∧
      ∀ arm ∈ conv.arms, ∃ v ∈ severalSource.variants, v.name = arm.case ∧
        ∀ a ∈ arm.body.attempts, ∀ attr ∈ a.reads, attr ∈ (CaseClass.ofVariant severalSource v).kept := by
  have hc : compile severalText none none = .ok ⟨severalSchema, _, _⟩ :=
    compile_of_lettered (by repeat first | apply Lettered.append | exact Lettered.literal)
      (by decide +kernel) (by decide +kernel) (by decide +kernel)
  obtain ⟨conv, hconv, _, _, hcases, _, _, dest, _, _, _, _, harms⟩ := conversion_of_declared hc
    (List.mem_singleton_self _) (S := .ofName "S") (by decide +kernel) rfl
  have hpublic : ∀ v ∈ severalSource.variants, ∀ attr ∈ (CaseClass.ofVariant severalSource v).written,
      ¬CaseClass.Private (CaseClass.ofVariant severalSource v).name attr := by decide +kernel
  refine ⟨_, hc, conv, hconv, hcases, ?_, fun arm harm => ?_⟩
  · obtain rfl := List.mem_singleton.mp hconv
    decide +kernel
  · obtain ⟨v, hv, hname, hattempts⟩ := harms arm harm
    refine ⟨v, hv, hname, fun a ha attr hattr => ?_⟩
    obtain ⟨_, _, _, _, hwritten, _, _, hkept, _⟩ := hattempts a ha
    exact (hkept attr hattr).mpr (hpublic v hv attr (hwritten attr hattr))

/-- A source and a destination of one variant each, with one field of a given name. -/
def oneField (attr : String) : Schema where
  imports := []
  unions := [
    ⟨"S", [⟨"A", .named [(attr, .ofName "int")], [], ⟨1, 11⟩⟩], [], ⟨1, 1⟩⟩,
    ⟨"D", [⟨"A", .named [(attr, .ofName "int")], [], ⟨3, 11⟩⟩],
      [⟨fromUnion, [⟨none, .ofName "S", ⟨2, 13⟩⟩], ⟨2, 1⟩⟩], ⟨2, 1⟩⟩]

/-- Its text. -/
def oneFieldText (attr : String) : String :=
  "union S \x7b A \x7b " ++ attr ++ ": int \x7d \x7d\n@from_union(S)\nunion D \x7b A \x7b " ++ attr ++
    ": int \x7d \x7d\n"

set_option maxRecDepth 10000 in
set_option synthInstance.maxSize 1000 in
/-- An attempt can read, and pass, an attribute that no value has. -/
theorem Compiled.conversion_of_declared_hidden :
    ∃ c, compile (oneFieldText "__x") none none = .ok c ∧
      ∃ conv ∈ c.module.conversions, ∃ arm ∈ conv.arms, ∃ a ∈ arm.body.attempts, ∃ attr ∈ a.reads,
        ∀ u ∈ c.module.unions, ∀ cls ∈ u.cases, attr ∉ cls.kept := by
  have hc : compile (oneFieldText "__x") none none = .ok ⟨oneField "__x", _, _⟩ :=
    compile_of_lettered (by repeat first | apply Lettered.append | exact Lettered.literal)
      (by decide +kernel) (by decide +kernel) (by decide +kernel)
  refine ⟨_, hc, ?_⟩
  decide +kernel

end UnionBridge
