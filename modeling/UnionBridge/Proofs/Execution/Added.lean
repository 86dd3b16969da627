import UnionBridge.Proofs.Execution.Explained
import UnionBridge.Proofs.Mapping.Added

/-! Destinations without a container, and the same with a variant after all others: what was accepted before comes to
the same variant with the same values. -/
namespace UnionBridge

open UnionBridge.Action

variable {s s' : Scope} {w w' : World} {home home' depth depth' : Nat} {conv conv' : Conversion} {as : List Attempt}
  {σ σ' : Sense} {γ γ' : String → ClassRef} {l l' : Locals} {x x' v q : Value} {vs : List Value} {L N : List Candidate}
  {c : Candidate} {dest : String} {r : Request}

/-! ### Outcomes -/

/-- Two conversions come to the same: the same value, or both to a failure that is a rejection or both to one that is
none. -/
def Agree (r r' : Except Failure Value) : Prop :=
  match r, r' with
  | .ok v, .ok v' => v = v'
  | .error e, .error e' => e.isRejection = e'.isRejection
  | _, _ => False

theorem Agree.eq_ok {r r' : Except Failure Value} (h : Agree r r') (hr : r = .ok v) : r' = .ok v := by
  subst hr
  cases r' with
  | error e => exact h.elim
  | ok v' => exact congrArg Except.ok (Eq.symm h)

theorem Agree.exists_error {r r' : Except Failure Value} {e : Failure} (h : Agree r r') (hr : r = .error e) :
    ∃ e', r' = .error e' ∧ e.isRejection = e'.isRejection := by
  subst hr
  cases r' with
  | error e' => exact ⟨e', rfl, h⟩
  | ok v' => exact h.elim

/-- The replies about the fields of a candidate come to the same in two scopes. -/
def Candidate.Agrees (c : Candidate) (σ σ' : Sense) (s s' : Scope) (x x' : Value) : Prop :=
  ∀ f ∈ c.target.fields, ∀ r, Agree (σ.reply s x r f.attr f.type) (σ'.reply s' x' r f.attr f.type)

section Fields

variable {α : Type} {fs : List α} {g g' : α → Except Failure Value}

theorem mapM_ok_of_agree (h : ∀ f ∈ fs, Agree (g f) (g' f)) (hr : fs.mapM g = .ok vs) : fs.mapM g' = .ok vs := by
  rw [mapM_eq_ok_iff] at hr ⊢
  induction hr with
  | nil => exact .nil
  | cons hf _ ih => exact .cons ((h _ (by simp)).eq_ok hf) (ih fun f hf => h f (by simp [hf]))

/-- The first failure of the one is the first failure of the other. -/
theorem mapM_error_of_agree {e : Failure} (h : ∀ f ∈ fs, Agree (g f) (g' f)) (hr : fs.mapM g = .error e) :
    ∃ e', fs.mapM g' = .error e' ∧ e.isRejection = e'.isRejection := by
  obtain ⟨before, f, after, us, rfl, hbefore, hf⟩ := mapM_eq_error hr
  obtain ⟨e', he', hsame⟩ := (h f (by simp)).exists_error hf
  refine ⟨e', mapM_eq_error_of_append (fun g hg => ?_) he', hsame⟩
  obtain ⟨v, _, hv⟩ := exists_right_of_forall₂ hbefore hg
  exact ⟨v, (h g (by simp [hg])).eq_ok hv⟩

end Fields

/-- What fits first in one scope fits first in another one that agrees about the fields. -/
theorem firstFit_of_agree (h : ∀ c ∈ L, c.Agrees σ σ' s s' x x')
    (hr : firstFit (Candidate.convert σ s x r) L = .ok (some (c, vs))) :
    firstFit (Candidate.convert σ' s' x' r) L = .ok (some (c, vs)) := by
  induction L with
  | nil => cases hr
  | cons d L ih =>
    have hfields : ∀ f ∈ d.target.fields, Agree (σ.reply s x r f.attr f.type) (σ'.reply s' x' r f.attr f.type) :=
      fun f hf => h d (by simp) f hf r
    rw [firstFit] at hr ⊢
    cases hd : d.convert σ s x r with
    | ok us =>
      have hd' : d.convert σ' s' x' r = .ok us := mapM_ok_of_agree hfields hd
      rw [hd] at hr
      rw [hd']
      exact hr
    | error e =>
      obtain ⟨e', he', hsame⟩ := mapM_error_of_agree hfields hd
      have hd' : d.convert σ' s' x' r = .error e' := he'
      rw [hd] at hr
      rw [hd']
      by_cases he : e.isRejection
      · simp only [he, if_true] at hr
        simp only [← hsame, he, if_true]
        exact ih (fun c hc => h c (by simp [hc])) hr
      · simp [he] at hr

/-- No converter that may fail applies to what a candidate is made from, so attempts accept what is accepted otherwise. -/
def Candidate.Settled (c : Candidate) (σ : Sense) (s : Scope) (x : Value) : Prop :=
  ∀ f ∈ c.target.fields, ∀ v, σ.reply s x .into f.attr f.type = .ok v → σ.reply s x .tryInto f.attr f.type = .ok v

theorem World.tryInto_eq_ok {call : Caller} {registry : Registry} {y target : Value}
    (hnone : registry.lookup (w.chain y.classOf) target true = none)
    (h : w.into call registry y target = .ok v) : w.tryInto call registry y target = .ok v := by
  have hkey : requireKey target = .ok () := by
    cases hk : requireKey target with
    | ok _ => rfl
    | error e =>
      simp only [into, lookup, hk, bind, Except.bind] at h
      cases h
  simp only [tryInto, lookup, hkey, hnone, bind, Except.bind, pure, Except.pure, h]
  rfl

/-- Where no converter that may fail applies, what is accepted is also accepted when it is tried. -/
theorem Sense.tryInto_of_into {own : List String} {attr : String} {type : DottedName} (hσ : σ.container = none)
    (hnone : ∀ y, w.member x attr = .ok y →
      (w.registry σ.registry).lookup (w.chain y.classOf) (σ.type type) true = none)
    (h : σ.reply (w.frame home own depth) x .into attr type = .ok v) :
    σ.reply (w.frame home own depth) x .tryInto attr type = .ok v := by
  rw [reply, hσ] at h ⊢
  change w.member x attr >>= _ = _ at h
  change w.member x attr >>= _ = _
  cases hy : w.member x attr with
  | error e =>
    rw [hy] at h
    cases h
  | ok y =>
    rw [hy] at h
    exact World.tryInto_eq_ok (hnone y hy) h

/-- A candidate that is chosen where the fields are converted in one way is chosen where there are more candidates
after it, and the fields may be tried. -/
theorem chosen_append {case : String} (h : ∀ c ∈ L, c.Agrees σ σ' s s' x x')
    (hs : ∀ c ∈ L, c.Settled σ' s' x') (hr : chosen σ s x dest case L = .ok (c, vs)) :
    firstFit (Candidate.convert σ' s' x' .tryInto) L = .ok (some (c, vs)) ∧ chosen σ' s' x' dest case L = .ok (c, vs) := by
  by_cases hlen : L.length = 1
  · obtain ⟨d, rfl⟩ := List.length_eq_one_iff.mp hlen
    rw [chosen] at hr
    cases hd : d.convert σ s x .into with
    | error e =>
      rw [hd] at hr
      cases hr
    | ok us =>
      rw [hd] at hr
      cases hr
      have hd' : c.convert σ' s' x' .into = .ok vs := mapM_ok_of_agree (fun f hf => h c (by simp) f hf .into) hd
      have htry : c.convert σ' s' x' .tryInto = .ok vs := by
        rw [Candidate.convert, mapM_eq_ok_iff] at hd' ⊢
        refine List.forall₂_iff_zip.mpr ⟨hd'.length_eq, fun {f v} hmem => ?_⟩
        exact hs c (by simp) f (List.of_mem_zip hmem).1 v ((List.forall₂_iff_zip.mp hd').2 hmem)
      exact ⟨by rw [firstFit, htry], by rw [chosen, hd']; rfl⟩
  · rw [chosen_several hlen] at hr ⊢
    cases hfit : firstFit (Candidate.convert σ s x .tryInto) L with
    | error e =>
      rw [hfit] at hr
      cases hr
    | ok o =>
      cases o with
      | none =>
        rw [hfit] at hr
        cases hr
      | some d =>
        rw [hfit] at hr
        obtain rfl := Except.ok.inj hr
        have hfit' := firstFit_of_agree h hfit
        exact ⟨hfit', by rw [hfit']⟩

/-! ### Runs -/

/-- Attempts after one that accepts are not made. -/
theorem ArmBody.firstAccepted_append {container : Option DottedName} {more : List Attempt}
    (h : (eval (firstAccepted container s as) l).1 = .ok (some v)) :
    (eval (firstAccepted container s (as ++ more)) l).1 = .ok (some v) := by
  induction as generalizing l with
  | nil => cases h
  | cons a as ih =>
    rw [List.cons_append, firstAccepted]
    rw [firstAccepted] at h
    cases ha : eval (a.runTry container s) l with
    | mk r l₁ =>
      cases r with
      | error e =>
        rw [eval_bind_error ha] at h
        cases h
      | ok o =>
        rw [eval_bind_ok ha] at h ⊢
        cases o with
        | none => exact ih h
        | some u => exact h

/-- An arm with more candidates after those that it had takes the one that it took. -/
theorem eval_run_append {arm : Arm} {source : DottedName} (hsource : conv'.source = source)
    (h : s'.Follows conv' (L.map fun c => .ofTarget conv'.dest c.target) σ') (hk : conv'.container = none)
    (harm : arm ∈ conv'.arms) (hb : arm.body = .ofCandidates conv'.dest (L ++ N))
    (hn : ∀ c ∈ L, c.target.body.fieldNames.Nodup) (hx : l.get? Conversion.parameter = some x')
    (hfit : firstFit (Candidate.convert σ' s' x' .tryInto) L = .ok (some (c, vs)))
    (hchosen : chosen σ' s' x' conv'.dest s!"{source}.{arm.case}" L = .ok (c, vs)) :
    (eval (arm.body.run conv' s' arm.case) l).1 = .ok (σ'.make (c, vs)) := by
  subst hsource
  cases N with
  | nil =>
    rw [List.append_nil] at hb
    have hfollows : s'.Follows conv' arm.body.attempts σ' := by
      rw [hb, ArmBody.attempts_ofCandidates]
      exact h
    rw [eval_run_plain hfollows hk harm hb hn hx, hchosen]
    rfl
  | cons d N =>
    obtain ⟨hc, hconvert⟩ := mem_of_firstFit hfit
    have hL : ∀ c ∈ L, Attempt.ofTarget conv'.dest c.target ∈ L.map fun c => Attempt.ofTarget conv'.dest c.target :=
      fun c hc => List.mem_map_of_mem hc
    have hlen : (L ++ d :: N).length ≠ 1 := by
      have := List.length_pos_of_mem hc
      simp only [List.length_append, List.length_cons]
      omega
    have ho : ∀ f ∈ (Attempt.ofTarget conv'.dest c.target).steps, f.slot ∈ s'.own := by
      intro f hf
      have hmem := Conversion.valueSlot_mem_ownNames harm (ArmBody.mem_attempts hb (List.mem_append_left _ hc)) hf
      rw [hk] at hmem
      rwa [h.own]
    obtain ⟨l', _, hl'⟩ := eval_firstAccepted_some h.tries hL hx hfit
    have haccepted : (eval (ArmBody.firstAccepted conv'.container s' (L.map fun c => .ofTarget conv'.dest c.target)) l).1 =
        .ok (some (σ'.make (c, vs))) := by
      rw [hl', eval_map, hk, eval_conclude_plain hk (hL c hc) (hn c hc) ho h (length_of_convert hconvert) l']
      rfl
    have hall : (eval (ArmBody.firstAccepted conv'.container s' ((L.map fun c => Attempt.ofTarget conv'.dest c.target) ++
        (d :: N).map fun c => .ofTarget conv'.dest c.target)) l).1 = .ok (some (σ'.make (c, vs))) :=
      ArmBody.firstAccepted_append haccepted
    rw [← List.map_append] at hall
    rw [hb, ArmBody.ofCandidates_several _ hlen, ArmBody.run]
    cases hr : eval (ArmBody.firstAccepted conv'.container s'
        ((L ++ d :: N).map fun c => Attempt.ofTarget conv'.dest c.target)) l with
    | mk r l₁ =>
      rw [hr] at hall
      obtain rfl : r = _ := hall
      rw [eval_bind_ok hr]
      rfl

/-- Where the arms of one function are continued by those of another, and arms of the same case come to related results,
so do the functions. -/
theorem Conversion.eval_runArms_append {R : Value → Value → Prop} {cases more : List String} {arm arm' : String → Arm}
    (hcase : ∀ C, (arm C).case = C ∧ (arm' C).case = C)
    (htest : ∀ C ∈ cases, ∃ b, eval (s.isInstance parameter (conv.source.child C)) l = (.ok b, l) ∧
      eval (s'.isInstance parameter (conv'.source.child C)) l' = (.ok b, l'))
    (hrun : ∀ C ∈ cases, ∀ q, (eval ((arm C).body.run conv s C) l).1 = .ok q →
      ∃ q', (eval ((arm' C).body.run conv' s' C) l').1 = .ok q' ∧ R q q')
    (hq : (eval (conv.runArms s (cases.map arm)) l).1 = .ok q) :
    ∃ q', (eval (conv'.runArms s' ((cases ++ more).map arm')) l').1 = .ok q' ∧ R q q' := by
  induction cases with
  | nil => exact absurd hq (Scope.eval_raiseForeign_ne_ok _ _)
  | cons C cases ih =>
    obtain ⟨b, hb, hb'⟩ := htest C (by simp)
    rw [List.map_cons, runArms, (hcase C).1, eval_bind_ok hb] at hq
    rw [List.cons_append, List.map_cons, runArms, (hcase C).2, eval_bind_ok hb']
    cases b with
    | true => exact hrun C (by simp) q hq
    | false => exact ih (fun C hC => htest C (by simp [hC])) (fun C hC => hrun C (by simp [hC])) hq

/-! ### Functions of a destination and of its continuation -/

section Continued

variable {sch sch' : Schema} {u u' : Union} {p p' : Plan} {added : Variant} {file : Option String} {S : DottedName}
  {byCase byCase' : Table String (List Candidate)} {decl decl' : Option Union} {name name' : String}

theorem Conversion.mem_ownNames_plain (hk : conv.container = none) {n : String} :
    n ∈ conv.ownNames ↔ n = parameter ∨ ∃ a ∈ conv.attempts, ∃ f ∈ a.steps, n = f.slot := by
  have hassigned (body : ArmBody) : n ∈ body.assigned none ↔
      ∃ a ∈ body.attempts, ∃ f ∈ a.steps, n = f.slot := by
    cases body with
    | direct a => simp [ArmBody.assigned, ArmBody.attempts, FieldStep.directVariables]
    | firstFit as => simp [ArmBody.assigned, ArmBody.attempts, FieldStep.triedVariables]
  simp only [ownNames, holdsResult, hk, Option.isSome_none, Bool.false_and, Bool.false_eq_true, if_false,
    List.nil_append, List.mem_cons, List.mem_flatMap, hassigned, attempts]
  constructor
  · rintro (h | ⟨arm, harm, a, ha, h⟩)
    · exact .inl h
    · exact .inr ⟨a, ⟨arm, harm, ha⟩, h⟩
  · rintro (h | ⟨a, ⟨arm, harm, ha⟩, h⟩)
    · exact .inl h
    · exact .inr ⟨arm, harm, a, ha, h⟩

theorem Plan.Of.mem_attempts (h : p.Of sch u file) (hS : p.table.get? S = some byCase) {a : Attempt} :
    a ∈ (Conversion.ofCases p.mapping decl name S byCase).attempts ↔
      ∃ C, ∃ c ∈ Mapping.asked u file S C, a = .ofTarget p.dest c.target := by
  simp only [Conversion.attempts, h.arms_ofCases hS, List.flatMap_map, List.mem_flatMap,
    ArmBody.attempts_ofCandidates, List.mem_map]
  constructor
  · rintro ⟨C, _, c, hc, rfl⟩
    exact ⟨C, c, hc, rfl⟩
  · rintro ⟨C, c, hc, rfl⟩
    refine ⟨C, Conversion.mem_caseOrder.mpr (h.mem_keys_of_asked hS ?_), c, hc, rfl⟩
    exact List.ne_nil_of_mem hc

/-- The new variant brings the variables of its own fields, and no others. -/
theorem Plan.Of.mem_ownNames_added (h : p.Of sch u file) (hS : p.table.get? S = some byCase)
    (h' : p'.Of sch' u' file) (hS' : p'.table.get? S = some byCase') (ha : u'.Adds u added)
    (hk : u.container? = none) {n : String}
    (hv : n ∈ (Conversion.ofCases p'.mapping decl' name' S byCase').ownNames) :
    n ∈ (Conversion.ofCases p.mapping decl name S byCase).ownNames ∨
      ∃ f ∈ added.body.fields, n = Naming.slot f.key := by
  have hplain : (Conversion.ofCases p.mapping decl name S byCase).container = none := h.container_eq.trans hk
  have hplain' : (Conversion.ofCases p'.mapping decl' name' S byCase').container = none :=
    (h'.container_eq.trans ha.container?_eq).trans hk
  rw [Conversion.mem_ownNames_plain hplain'] at hv
  rw [Conversion.mem_ownNames_plain hplain]
  rcases hv with hv | ⟨a, hmem, f, hf, hv⟩
  · exact .inl (.inl hv)
  · obtain ⟨C, c, hc, rfl⟩ := (h'.mem_attempts hS').mp hmem
    rw [ha.asked_eq, List.mem_append] at hc
    rcases hc with hc | hc
    · refine .inl (.inr ⟨.ofTarget p.dest c.target, (h.mem_attempts hS).mpr ⟨C, c, hc, rfl⟩, f, ?_, hv⟩)
      exact hf
    · obtain rfl := List.eq_of_mem_replicate hc
      obtain ⟨g, hg, rfl⟩ := mem_steps_ofTarget.mp hf
      exact .inr ⟨g, hg, hv⟩

/-- The arm for a case takes what it took before, if the fields come to the same. -/
theorem eval_run_added (h : s.Follows conv (L.map fun c => .ofTarget dest c.target) σ)
    (h' : s'.Follows conv' (L.map fun c => .ofTarget dest c.target) σ') (hk : conv.container = none)
    (hk' : conv'.container = none) {arm arm' : Arm} (harm : arm ∈ conv.arms) (harm' : arm' ∈ conv'.arms)
    (hcase : arm'.case = arm.case) (hsource : conv'.source = conv.source) (hd : conv.dest = dest)
    (hd' : conv'.dest = dest) (hb : arm.body = .ofCandidates dest L) (hb' : arm'.body = .ofCandidates dest (L ++ N))
    (hn : ∀ c ∈ L, c.target.body.fieldNames.Nodup) (hx : l.get? Conversion.parameter = some x)
    (hx' : l'.get? Conversion.parameter = some x') (hagree : ∀ c ∈ L, c.Agrees σ σ' s s' x x')
    (hsettled : ∀ c ∈ L, c.Settled σ' s' x') (hq : (eval (arm.body.run conv s arm.case) l).1 = .ok q) :
    ∃ c ∈ L, ∃ vs, q = σ.make (c, vs) ∧ vs.length = c.target.fields.length ∧
      (eval (arm'.body.run conv' s' arm'.case) l').1 = .ok (σ'.make (c, vs)) := by
  subst hd
  have hfollows : s.Follows conv arm.body.attempts σ := by
    rw [hb, ArmBody.attempts_ofCandidates]
    exact h
  rw [eval_run_plain hfollows hk harm hb hn hx] at hq
  cases hc : chosen σ s x conv.dest s!"{conv.source}.{arm.case}" L with
  | error e =>
    rw [hc] at hq
    cases hq
  | ok r =>
    obtain ⟨c, vs⟩ := r
    rw [hc] at hq
    obtain rfl := Except.ok.inj hq
    obtain ⟨hfit, hchosen⟩ := chosen_append hagree hsettled hc
    obtain ⟨hmem, hconvert⟩ := mem_of_firstFit hfit
    refine ⟨c, hmem, vs, rfl, ?_, ?_⟩
    · have hlen : (Attempt.ofTarget conv.dest c.target).steps.length = vs.length := length_of_convert hconvert
      simpa [Attempt.ofTarget] using hlen.symm
    · rw [← hd'] at h' hb' hchosen
      rw [← hcase] at hchosen
      exact eval_run_append hsource h' hk' harm' hb' hn hx' hfit hchosen

/-- A function goes on where another one ends: the arms of that come first, with all their candidates before others. -/
structure Conversion.Continues (conv' conv : Conversion) (u : Union) (added : Variant) : Prop where
  source_eq : conv'.source = conv.source
  dest_eq : conv'.dest = conv.dest
  plain : conv.container = none
  plain' : conv'.container = none
  exists_arms : ∃ (cases more : List String) (L N : String → List Candidate),
    conv.arms = cases.map (fun C => ⟨C, .ofCandidates conv.dest (L C)⟩) ∧
    conv'.arms = (cases ++ more).map (fun C => ⟨C, .ofCandidates conv.dest (L C ++ N C)⟩) ∧
    ∀ C ∈ cases, ∀ c ∈ L C, ∃ v ∈ u.variants, c.target.name = v.name ∧ c.target.body = v.body
  ownNames : ∀ n ∈ conv'.ownNames, n ∈ conv.ownNames ∨ ∃ f ∈ added.body.fields, n = Naming.slot f.key

/-- The functions of a destination and of the same with one variant more. -/
theorem Plan.Of.continues (h : p.Of sch u file) (hS : p.table.get? S = some byCase)
    (h' : p'.Of sch' u' file) (hS' : p'.table.get? S = some byCase') (ha : u'.Adds u added) (hk : u.container? = none)
    (horder : Conversion.caseOrder decl byCase <+: Conversion.caseOrder decl' byCase') :
    (Conversion.ofCases p'.mapping decl' name' S byCase').Continues (.ofCases p.mapping decl name S byCase) u added where
  source_eq := rfl
  dest_eq := h'.dest_eq.trans (ha.name.trans h.dest_eq.symm)
  plain := h.container_eq.trans hk
  plain' := (h'.container_eq.trans ha.container?_eq).trans hk
  exists_arms := by
    obtain ⟨more, hmore⟩ := horder
    have hplan : p'.dest = p.dest := h'.dest_eq.trans (ha.name.trans h.dest_eq.symm)
    refine ⟨_, more, Mapping.asked u file S,
      fun C => List.replicate (added.claimCount S C) ⟨C, u.lastTarget added file⟩, h.arms_ofCases hS decl name, ?_, ?_⟩
    · rw [h'.arms_ofCases hS' decl' name', hmore, hplan]
      simp only [ha.asked_eq]
      rfl
    · intro C _ c hc
      have hkey := h.mem_keys_of_asked hS (List.ne_nil_of_mem hc)
      exact h.variant_of_candidate hS (h.get?_eq_some_asked hS hkey) hc
  ownNames _ := h.mem_ownNames_added hS h' hS' ha hk

namespace Conversion.Continues

variable (h : conv'.Continues conv u added)
include h

theorem dest_of_mem_attempts {a : Attempt} (hmem : a ∈ conv.attempts) : a.dest = conv.dest := by
  obtain ⟨cases, _, L, _, harms, _⟩ := h.exists_arms
  rw [attempts, harms, List.flatMap_map, List.mem_flatMap] at hmem
  obtain ⟨C, _, hmem⟩ := hmem
  rw [ArmBody.attempts_ofCandidates] at hmem
  obtain ⟨c, _, rfl⟩ := List.mem_map.mp hmem
  rfl

/-- No path of the first function is hidden in the second one. -/
theorem shown (hshown : ∀ d ∈ conv.paths, d.head ∉ conv.ownNames ∧ ∀ f ∈ added.body.fields, d.head ≠ Naming.slot f.key) :
    ∀ d ∈ conv.paths, d.head ∉ conv'.ownNames := by
  intro d hd hmem
  rcases h.ownNames d.head hmem with hmem | ⟨f, hf, heq⟩
  · exact (hshown d hd).1 hmem
  · exact (hshown d hd).2 f hf heq

/-- What the first function makes of a value, the second one makes as well. -/
theorem callWithin_eq_ok (hfields : ∀ v ∈ u.variants, v.body.fieldNames.Nodup)
    (hcommon : ∀ n ∈ ["_registry", "_rt", "isinstance"], n ∉ conv.ownNames ∧ n ∉ conv'.ownNames)
    (hw : w.Explains home conv σ γ) (hw' : w'.Explains home' conv σ' γ') (hσ : σ.container = none)
    (hσ' : σ'.container = none)
    (hshown : ∀ d ∈ conv.paths, d.head ∉ conv.ownNames ∧ ∀ f ∈ added.body.fields, d.head ≠ Naming.slot f.key)
    (hinstance : ∀ arm ∈ conv.arms, w.isInstance x (γ arm.case) = w'.isInstance x' (γ' arm.case))
    (hagree : ∀ a ∈ conv.attempts, ∀ f ∈ a.steps, ∀ r,
      Agree (σ.reply (w.frame home conv.ownNames depth) x r f.attr f.type)
        (σ'.reply (w'.frame home' conv'.ownNames depth') x' r f.attr f.type))
    (hsettled : ∀ a ∈ conv.attempts, ∀ f ∈ a.steps, ∀ y, w'.member x' f.attr = .ok y →
      (w'.registry σ'.registry).lookup (w'.chain y.classOf) (σ'.type f.type) true = none)
    (hq : w.callWithin (depth + 1) (.function (.conversion home conv)) (.of [x]) = .ok q) :
    ∃ v ∈ u.variants, ∃ vs, vs.length = v.body.fields.length ∧ q = .record (σ.variant v.name) (v.body.attrs.zip vs) ∧
      w'.callWithin (depth' + 1) (.function (.conversion home' conv')) (.of [x']) =
        .ok (.record (σ'.variant v.name) (v.body.attrs.zip vs)) := by
  obtain ⟨cases, more, L, N, harms, harms', hvariants⟩ := h.exists_arms
  have hown := h.shown hshown
  have hfollows : (w.frame home conv.ownNames depth).Follows conv conv.attempts σ :=
    hw.follows (fun d hd => (hshown d hd).1) (fun n hn => (hcommon n (by simp at hn ⊢; tauto)).1)
      (fun _ => h.dest_of_mem_attempts) h.plain hσ
  have hfollows' : (w'.frame home' conv'.ownNames depth').Follows conv' conv.attempts σ' :=
    hw'.follows hown (fun n hn => (hcommon n (by simp at hn ⊢; tauto)).2) (fun _ => h.dest_of_mem_attempts) h.plain' hσ'
  have hpath : conv.source ∈ conv.paths := by simp [paths]
  have harm : ∀ C ∈ cases, (⟨C, .ofCandidates conv.dest (L C)⟩ : Arm) ∈ conv.arms := by
    intro C hC
    rw [harms]
    exact List.mem_map_of_mem (f := fun C => (⟨C, .ofCandidates conv.dest (L C)⟩ : Arm)) hC
  have harm' : ∀ C ∈ cases, (⟨C, .ofCandidates conv.dest (L C ++ N C)⟩ : Arm) ∈ conv'.arms := by
    intro C hC
    rw [harms']
    exact List.mem_map_of_mem (f := fun C => (⟨C, .ofCandidates conv.dest (L C ++ N C)⟩ : Arm))
      (List.mem_append_left _ hC)
  have hattempt : ∀ C ∈ cases, ∀ a ∈ (L C).map (fun c => Attempt.ofTarget conv.dest c.target), a ∈ conv.attempts := by
    intro C hC a ha
    refine List.mem_flatMap.mpr ⟨_, harm C hC, ?_⟩
    rwa [ArmBody.attempts_ofCandidates]
  have hstep : ∀ C ∈ cases, ∀ c ∈ L C, ∀ f ∈ c.target.fields,
      ∃ a ∈ conv.attempts, FieldStep.ofField f ∈ a.steps := fun C hC c hc f hf =>
    ⟨_, hattempt C hC _ (List.mem_map_of_mem hc), mem_steps_ofTarget.mpr ⟨f, hf, rfl⟩⟩
  rw [World.callWithin_eq rfl] at hq
  rw [World.callWithin_eq rfl]
  change (eval (conv.runArms (w.frame home conv.ownNames depth) conv.arms) ⟨[(parameter, x)]⟩).1 = .ok q at hq
  change ∃ v ∈ u.variants, ∃ vs, _ ∧ _ ∧
    (eval (conv'.runArms (w'.frame home' conv'.ownNames depth') conv'.arms) ⟨[(parameter, x')]⟩).1 = _
  rw [harms] at hq
  rw [harms']
  let R (q q' : Value) : Prop := ∃ v ∈ u.variants, ∃ vs, vs.length = v.body.fields.length ∧
    q = .record (σ.variant v.name) (v.body.attrs.zip vs) ∧ q' = .record (σ'.variant v.name) (v.body.attrs.zip vs)
  suffices hrun : ∃ q', (eval (conv'.runArms (w'.frame home' conv'.ownNames depth')
      ((cases ++ more).map fun C => ⟨C, .ofCandidates conv.dest (L C ++ N C)⟩)) ⟨[(parameter, x')]⟩).1 = .ok q' ∧ R q q' by
    obtain ⟨q', hq', v, hv, vs, hlen, hq, rfl⟩ := hrun
    exact ⟨v, hv, vs, hlen, hq, hq'⟩
  refine eval_runArms_append (fun C => ⟨rfl, rfl⟩) (fun C hC => ?_) (fun C hC q hq => ?_) hq
  · refine ⟨w.isInstance x (γ C), ?_, ?_⟩
    · exact (hw.toKnows.eval_isInstance (harm C hC) rfl (hshown _ hpath).1 (hcommon "isinstance" (by simp)).1 :)
    · rw [hinstance _ (harm C hC)]
      exact (hw'.toKnows.eval_isInstance (harm C hC) h.source_eq (hown _ hpath) (hcommon "isinstance" (by simp)).2 :)
  · have hn : ∀ c ∈ L C, c.target.body.fieldNames.Nodup := by
      intro c hc
      obtain ⟨v, hv, _, hbody⟩ := hvariants C hC c hc
      exact hbody ▸ hfields v hv
    have hagrees : ∀ c ∈ L C, c.Agrees σ σ' (w.frame home conv.ownNames depth)
        (w'.frame home' conv'.ownNames depth') x x' := by
      intro c hc f hf r
      obtain ⟨a, ha, hf⟩ := hstep C hC c hc f hf
      exact hagree a ha _ hf r
    have hsettles : ∀ c ∈ L C, c.Settled σ' (w'.frame home' conv'.ownNames depth') x' := by
      intro c hc f hf v hv
      obtain ⟨a, ha, hf⟩ := hstep C hC c hc f hf
      have hnone := hsettled a ha (.ofField f) hf
      exact Sense.tryInto_of_into hσ' hnone hv
    have hx : (⟨[(parameter, x')]⟩ : Locals).get? parameter = some x' := rfl
    obtain ⟨c, hc, vs, rfl, hlen, hrun⟩ := eval_run_added (hfollows.mono (hattempt C hC)) (hfollows'.mono (hattempt C hC))
      h.plain h.plain' (harm C hC) (harm' C hC) rfl h.source_eq rfl h.dest_eq rfl rfl hn rfl hx hagrees hsettles hq
    obtain ⟨v, hv, hname, hbody⟩ := hvariants C hC c hc
    refine ⟨_, hrun, v, hv, vs, ?_, ?_, ?_⟩
    · rw [hlen, Target.fields, hbody]
    · rw [Sense.make, hname, hbody]
    · rw [Sense.make, hname, hbody]

end Conversion.Continues

end Continued

/-- A variant that is added after all others of a destination without a container changes nothing for the values that
were accepted before. Take two schemas that compile, with a destination in the one and the same with one variant more in
the other, and a source whose declared cases are still there, in their places. Let what the first function mentions mean
something in either module, hidden neither by the variables of the first function nor by those of the fields of the new
variant, and let the fields of a value come to the same in both, without a converter that may fail. Then what the first
function makes of the value, the second one makes as well: the variant of the same name with the same values. -/
theorem Compiled.accepted_of_added {source source' : String} {file doc doc' : Option String} {c c' : Compiled}
    (hc : compile source file doc = .ok c) (hc' : compile source' file doc' = .ok c') {u u' : Union} {added : Variant}
    (hu : u ∈ c.schema.destinations) (hu' : u' ∈ c'.schema.destinations) (ha : u'.Adds u added)
    (hk : u.container? = none) {S : DottedName} (hS : S ∈ u.sources)
    (hdecl : Option.Rel (fun d d' : Union => d.variants.map (·.name) <+: d'.variants.map (·.name))
      (c.schema.declared? S) (c'.schema.declared? S)) :
    ∃ conv ∈ c.module.conversions, ∃ conv' ∈ c'.module.conversions,
      (∀ other ∈ c.module.conversions, other.source = S ∧ other.dest = u.name ↔ other = conv) ∧
      (∀ other ∈ c'.module.conversions, other.source = S ∧ other.dest = u'.name ↔ other = conv') ∧
      ∀ (w w' : World) (home home' depth depth' : Nat) (σ σ' : Sense) (γ γ' : String → ClassRef) (x x' q : Value),
        w.Explains home conv σ γ → w'.Explains home' conv σ' γ' → σ.container = none → σ'.container = none →
        (∀ d ∈ conv.paths, d.head ∉ conv.ownNames ∧ ∀ f ∈ added.body.fields, d.head ≠ Naming.slot f.key) →
        (∀ arm ∈ conv.arms, w.isInstance x (γ arm.case) = w'.isInstance x' (γ' arm.case)) →
        (∀ a ∈ conv.attempts, ∀ f ∈ a.steps, ∀ r,
          Agree (σ.reply (w.frame home conv.ownNames depth) x r f.attr f.type)
            (σ'.reply (w'.frame home' conv'.ownNames depth') x' r f.attr f.type)) →
        (∀ a ∈ conv.attempts, ∀ f ∈ a.steps, ∀ y, w'.member x' f.attr = .ok y →
          (w'.registry σ'.registry).lookup (w'.chain y.classOf) (σ'.type f.type) true = none) →
        w.callWithin (depth + 1) (.function (.conversion home conv)) (.of [x]) = .ok q →
          ∃ v ∈ u.variants, ∃ vs, vs.length = v.body.fields.length ∧
            q = .record (σ.variant v.name) (v.body.attrs.zip vs) ∧
            w'.callWithin (depth' + 1) (.function (.conversion home' conv')) (.of [x']) =
              .ok (.record (σ'.variant v.name) (v.body.attrs.zip vs)) := by
  obtain ⟨p, hp, hof⟩ := exists_right_of_forall₂ (compile_eq_ok_iff.mp hc).2.2.1 hu
  obtain ⟨p', hp', hof'⟩ := exists_right_of_forall₂ (compile_eq_ok_iff.mp hc').2.2.1 hu'
  obtain ⟨byCase, hbyCase⟩ := Option.isSome_iff_exists.mp (Table.isSome_get?_iff.mpr (hof.keys_table ▸ hS))
  have hS' : S ∈ p'.table.keys := by
    rw [hof'.keys_table, ha.sources_eq]
    exact hS
  obtain ⟨byCase', hbyCase'⟩ := Option.isSome_iff_exists.mp (Table.isSome_get?_iff.mpr hS')
  obtain ⟨conv, hconv, name, heq, huniq⟩ := exists_conversion hc hp hbyCase
  obtain ⟨conv', hconv', name', heq', huniq'⟩ := exists_conversion hc' hp' hbyCase'
  have hcontinues : conv'.Continues conv u added := by
    rw [heq, heq']
    exact hof.continues hbyCase hof' hbyCase' ha hk (hof.caseOrder_prefix hbyCase hof' hbyCase' ha hdecl)
  have hsource : conv.source = S := by
    rw [heq]
    rfl
  have hdest : conv.dest = u.name := by
    rw [heq]
    exact hof.dest_eq
  refine ⟨conv, hconv, conv', hconv', fun other hother => ⟨fun h => ?_, ?_⟩, fun other hother => ⟨fun h => ?_, ?_⟩, ?_⟩
  · exact huniq other hother h.1 (h.2.trans hof.dest_eq.symm)
  · rintro rfl
    exact ⟨hsource, hdest⟩
  · exact huniq' other hother h.1 (h.2.trans hof'.dest_eq.symm)
  · rintro rfl
    exact ⟨hcontinues.source_eq.trans hsource, (hcontinues.dest_eq.trans hdest).trans ha.name.symm⟩
  · intro w w' home home' depth depth' σ σ' γ γ' x x' q hw hw' hσ hσ' hshown hinstance hagree hsettled hq
    have hfields : ∀ v ∈ u.variants, v.body.fieldNames.Nodup := (distinct hc).fields u (List.mem_of_mem_filter hu)
    have hcommon : ∀ n ∈ ["_registry", "_rt", "isinstance"], n ∉ conv.ownNames ∧ n ∉ conv'.ownNames := by
      intro n hn
      exact ⟨common_notMem_ownNames hc hconv hn, common_notMem_ownNames hc' hconv' hn⟩
    exact hcontinues.callWithin_eq_ok hfields hcommon hw hw' hσ hσ' hshown hinstance hagree hsettled hq

/-- A source, and a destination that takes one of its two fields. -/
def continuedUnion (type : String) (more : List Variant) : Union where
  name := "D"
  variants := ⟨"V", .named [("x", .ofName type)], [], ⟨4, 1⟩⟩ :: more
  directives := [⟨fromUnion, [⟨none, .ofName "S", ⟨2, 13⟩⟩], ⟨2, 1⟩⟩]
  place := ⟨2, 1⟩

def continued (type : String) (more : List Variant) : Schema where
  imports := []
  unions := [⟨"S", [⟨"V", .named [("x", .ofName type), ("a", .ofName "int")], [], ⟨1, 11⟩⟩], [], ⟨1, 1⟩⟩,
    continuedUnion type more]

/-- A variant that takes the other field. -/
def continuedVariant : Variant :=
  ⟨"N", .named [("a", .ofName "int")], [⟨fromCase, [⟨none, .ofName "V", ⟨5, 12⟩⟩], ⟨5, 1⟩⟩], ⟨5, 1⟩⟩

def continuedText (type more : String) : String :=
  "union S \x7b V \x7b x: " ++ type ++ ", a: int \x7d \x7d\n@from_union(S)\nunion D \x7b\nV \x7b x: " ++ type ++
    " \x7d\n" ++ more ++ "\x7d\n"

def continuedMore : String := "@from_case(V) N \x7b a: int \x7d\n"

def continuedAttempt (type : String) : Attempt := ⟨"D", "V", .byKeyword, [⟨"f_x", "x", .ofName type⟩]⟩

def continuedConversion (type : String) (more : List Attempt) : Conversion where
  name := "d_from_s"
  source := .ofName "S"
  dest := "D"
  container := none
  arms := [⟨"V", if more.isEmpty then .direct (continuedAttempt type) else .firstFit (continuedAttempt type :: more)⟩]

def continuedAttempts : List Attempt := [⟨"D", "N", .byKeyword, [⟨"f_a", "a", .ofName "int"⟩]⟩]

/-- The classes of both modules, which share the source; another name for integers is around. -/
def continuedWorld : World where
  classes := [unionClass "S" 0 [("V", 1)], recordClass "V" 1 0 ["x", "a"], unionClass "D" 2 [("V", 3)],
    recordClass "V" 3 2 ["x"], unionClass "D" 4 [("V", 5), ("N", 6)], recordClass "V" 5 4 ["x"],
    recordClass "N" 6 4 ["a"]]
  modules := [2, 4].map fun dest => ⟨"m", ⟨[("S", .cls (.declared 0)), ("D", .cls (.declared dest)),
    ("_rt", .module (.library "casemap.runtime")), ("_registry", .registry "default"),
    ("f_a", .cls (.builtin .int))]⟩⟩
  registries := ∅
  importable := ∅
  misplaced := ∅

def continuedSense (variant : Nat) : Sense where
  registry := "default"
  type _ := .cls (.builtin .int)
  container := none
  variant _ := variant

def continuedValue : Value := .record 1 [("x", .int 1), ("a", .int 2)]

theorem attempts_continued {type : String} {a : Attempt} (ha : a ∈ (continuedConversion type []).attempts) :
    a = continuedAttempt type := by
  simpa [Conversion.attempts, continuedConversion, ArmBody.attempts] using ha

theorem explains_continued {type : String} (htype : type = "int" ∨ type = "f_a") {home : Nat}
    (hhome : home = 0 ∨ home = 1) :
    continuedWorld.Explains home (continuedConversion type []) (continuedSense (2 * home + 3)) fun _ => .declared 1 where
  registry := by rcases hhome with rfl | rfl <;> rfl
  tests := by rcases hhome with rfl | rfl <;> rfl
  cases arm harm := by
    obtain rfl : arm = _ := List.mem_singleton.mp harm
    rcases hhome with rfl | rfl <;> rfl
  types a ha f hf := by
    obtain rfl := attempts_continued ha
    obtain rfl : f = _ := List.mem_singleton.mp hf
    rcases hhome with rfl | rfl <;> rcases htype with rfl | rfl <;> rfl
  variants a ha := by
    obtain rfl := attempts_continued ha
    rcases hhome with rfl | rfl <;> rfl
  makes a ha := by
    obtain rfl := attempts_continued ha
    rcases hhome with rfl | rfl <;> exact ⟨⟨_, _, rfl, rfl, rfl⟩, rfl, by simp [continuedAttempt]⟩
  rejection := by rcases hhome with rfl | rfl <;> rfl
  exhaustion := by rcases hhome with rfl | rfl <;> rfl

def continuedCompiled (type : String) (more : List Variant) : Compiled :=
  let plans := (continued type more).destinations.map (Plan.described · none)
  ⟨continued type more, plans, Module.ofPlans (continued type more) plans none none⟩

set_option maxRecDepth 10000 in
/-- With the new variant the case has two candidates, but the value becomes what it became before. -/
theorem Compiled.accepted_of_added_continued :
    ∃ c c', compile (continuedText "int" "") none none = .ok c ∧
      compile (continuedText "int" continuedMore) none none = .ok c' ∧
      continuedConversion "int" [] ∈ c.module.conversions ∧
      continuedConversion "int" continuedAttempts ∈ c'.module.conversions ∧
      continuedWorld.callWithin 2 (.function (.conversion 0 (continuedConversion "int" []))) (.of [continuedValue]) =
        .ok (.record 3 [("x", .int 1)]) ∧
      continuedWorld.callWithin 2 (.function (.conversion 1 (continuedConversion "int" continuedAttempts)))
        (.of [continuedValue]) = .ok (.record 5 [("x", .int 1)]) := by
  have hc : compile (continuedText "int" "") none none = .ok (continuedCompiled "int" []) :=
    compile_of_lettered (by repeat first | apply Lettered.append | exact Lettered.literal)
      (by decide +kernel) (by decide +kernel) (by decide +kernel)
  have hc' : compile (continuedText "int" continuedMore) none none = .ok (continuedCompiled "int" [continuedVariant]) :=
    compile_of_lettered (by repeat first | apply Lettered.append | exact Lettered.literal)
      (by decide +kernel) (by decide +kernel) (by decide +kernel)
  have hadds : (continuedUnion "int" [continuedVariant]).Adds (continuedUnion "int" []) continuedVariant :=
    ⟨rfl, rfl, rfl⟩
  have hsource : .ofName "S" ∈ (continuedUnion "int" []).sources := by decide +kernel
  obtain ⟨conv, hconv, conv', hconv', huniq, huniq', hrun⟩ := accepted_of_added hc hc' (by decide +kernel)
    (by decide +kernel) hadds (by decide +kernel) hsource (.some List.prefix_rfl)
  obtain rfl := (huniq (continuedConversion "int" []) (by decide +kernel)).mp ⟨rfl, rfl⟩
  obtain rfl := (huniq' (continuedConversion "int" continuedAttempts) (by decide +kernel)).mp ⟨rfl, rfl⟩
  refine ⟨_, _, hc, hc', hconv, hconv', rfl, ?_⟩
  have hagree : ∀ a ∈ (continuedConversion "int" []).attempts, ∀ f ∈ a.steps, ∀ r,
      Agree ((continuedSense 3).reply (continuedWorld.frame 0 (continuedConversion "int" []).ownNames 1)
          continuedValue r f.attr f.type)
        ((continuedSense 5).reply (continuedWorld.frame 1 (continuedConversion "int" continuedAttempts).ownNames 1)
          continuedValue r f.attr f.type) := by
    intro a ha f hf r
    obtain rfl := attempts_continued ha
    obtain rfl : f = _ := List.mem_singleton.mp hf
    cases r <;> exact rfl
  obtain ⟨v, hv, vs, _, hq, hresult⟩ := hrun continuedWorld continuedWorld 0 1 1 1 (continuedSense 3) (continuedSense 5)
    (fun _ => .declared 1) (fun _ => .declared 1) continuedValue continuedValue (.record 3 [("x", .int 1)])
    (explains_continued (.inl rfl) (.inl rfl)) (explains_continued (.inl rfl) (.inr rfl)) rfl rfl (by decide +kernel)
    (fun _ _ => rfl) hagree (fun _ _ _ _ _ _ => List.findSome?_eq_none_iff.mpr fun _ _ => rfl) rfl
  have hzip := (Value.record.inj hq).2
  rw [hresult, ← hzip]
  rfl

set_option maxRecDepth 10000 in
/-- The variable of the new field takes the name of a type. The function then finds no type there, and values that the
destination took before are refused. -/
theorem Compiled.accepted_of_added_hidden :
    ∃ c c', compile (continuedText "f_a" "") none none = .ok c ∧
      compile (continuedText "f_a" continuedMore) none none = .ok c' ∧
      (continuedUnion "f_a" [continuedVariant]).Adds (continuedUnion "f_a" []) continuedVariant ∧
      continuedUnion "f_a" [] ∈ c.schema.destinations ∧ continuedUnion "f_a" [continuedVariant] ∈ c'.schema.destinations ∧
      continuedConversion "f_a" [] ∈ c.module.conversions ∧
      continuedConversion "f_a" continuedAttempts ∈ c'.module.conversions ∧
      (∀ home, home = 0 ∨ home = 1 → continuedWorld.Explains home (continuedConversion "f_a" [])
        (continuedSense (2 * home + 3)) fun _ => .declared 1) ∧
      continuedWorld.callWithin 2 (.function (.conversion 0 (continuedConversion "f_a" []))) (.of [continuedValue]) =
        .ok (.record 3 [("x", .int 1)]) ∧
      continuedWorld.callWithin 2 (.function (.conversion 1 (continuedConversion "f_a" continuedAttempts)))
        (.of [continuedValue]) = .error (.error .unboundLocal
          "cannot access local variable 'f_a' where it is not associated with a value") := by
  have hc : compile (continuedText "f_a" "") none none = .ok (continuedCompiled "f_a" []) :=
    compile_of_lettered (by repeat first | apply Lettered.append | exact Lettered.literal)
      (by decide +kernel) (by decide +kernel) (by decide +kernel)
  have hc' : compile (continuedText "f_a" continuedMore) none none = .ok (continuedCompiled "f_a" [continuedVariant]) :=
    compile_of_lettered (by repeat first | apply Lettered.append | exact Lettered.literal)
      (by decide +kernel) (by decide +kernel) (by decide +kernel)
  exact ⟨_, _, hc, hc', ⟨rfl, rfl, rfl⟩, by decide +kernel, by decide +kernel, by decide +kernel, by decide +kernel,
    fun home => explains_continued (.inr rfl), rfl, rfl⟩

end UnionBridge
