import UnionBridge.Proofs.Execution.Settling

/-! Arms with an effect container: running one is choosing a candidate and collecting the effects of its fields, unless
its fields are in each other's way. -/
namespace UnionBridge

open UnionBridge.Action

variable {s : Scope} {conv : Conversion} {arm : Arm} {attempts : List Attempt} {σ : Sense} {f : FieldStep} {l : Locals}
  {x : Value} {L : List Candidate} {dest : String} {t : Target} {c : Candidate} {d : DottedName} {k : ClassRef}
  {wrap : Value → List Value → Value} {ps : List (Value × Value)} {ess : List (List Value)}

/-- A body whose fields all spare those after them: none is named like an earlier one with `_value` or `_effects` after
its name. -/
def Body.Separate (b : Body) : Prop :=
  b.fields.Pairwise fun f g => g.key ≠ f.key ++ "_value" ∧ g.key ≠ f.key ++ "_effects"

instance (b : Body) : Decidable b.Separate := inferInstanceAs (Decidable (List.Pairwise _ _))

theorem spares_ofField {f g : Field} :
    (FieldStep.ofField f).Spares d (FieldStep.ofField g) ↔ g.key ≠ f.key ++ "_value" ∧ g.key ≠ f.key ++ "_effects" := by
  rw [FieldStep.Spares, FieldStep.slot_ofField, FieldStep.valueSlot_ofField_some, FieldStep.effectsSlot_ofField,
    Naming.slot_injective.ne_iff, Naming.slot_injective.ne_iff]

theorem pairwise_steps_ofTarget :
    (Attempt.ofTarget dest t).steps.Pairwise (FieldStep.Spares d) ↔ t.body.Separate := by
  rw [Attempt.ofTarget, List.pairwise_map, Body.Separate]
  exact List.Pairwise.iff fun _ _ => spares_ofField

/-- What the result for one field comes apart into. -/
def Sense.parts (σ : Sense) (s : Scope) (x : Value) (f : FieldStep) : Except Failure (Value × Value) := do
  s.unpacks (← σ.reply s x .into f.attr f.type)

/-- What converting a field comes to where there is a single candidate: its value, and with a container something that
gives its effects. -/
def Sense.taken (σ : Sense) (s : Scope) (x : Value) (f : FieldStep) : Except Failure (Value × Value) :=
  match σ.container with
  | none => (σ.reply s x .into f.attr f.type).map (·, .none)
  | some _ => σ.parts s x f

/-- What is assigned when a field is taken. -/
def FieldStep.take (container : Option DottedName) (f : FieldStep) (p : Value × Value) : List (String × Value) :=
  match container with
  | none => f.keep p.1
  | some _ => f.parts container p

theorem parameter_notMem_take (hf : f ∈ (Attempt.ofTarget dest t).steps) (container : Option DottedName)
    (p : Value × Value) : Conversion.parameter ∉ (f.take container p).map Prod.fst := by
  cases container with
  | none => exact parameter_notMem_keep hf p.1
  | some d => exact parameter_notMem_parts hf p

/-- Converting a field where there is a single candidate sets what it is taken as. What fails sets nothing. -/
theorem Scope.Reads.eval_convert (h : s.Reads conv attempts σ) {a : Attempt} (ha : a ∈ attempts) (hf : f ∈ a.steps)
    (hx : l.get? Conversion.parameter = some x) :
    eval (f.convert conv.container s) l = match σ.taken s x f with
      | .ok p => (.ok (), l.insertAll (f.take conv.container p))
      | .error e => (.error e, l) := by
  have hask := h.eval_ask ha hf hx .into
  have hcontainer := h.container
  rw [FieldStep.convert, Sense.taken]
  cases hreply : σ.reply s x .into f.attr f.type with
  | error e =>
    rw [hreply] at hask
    rw [eval_bind_error hask]
    cases σ.container <;> simp [Sense.parts, hreply, Except.map, bind, Except.bind]
  | ok q =>
    rw [hreply] at hask
    rw [eval_bind_ok hask]
    cases hd : conv.container <;> cases hk : σ.container <;> rw [hd, hk] at hcontainer
    case none.none => rfl
    case none.some => cases hcontainer
    case some.none => cases hcontainer
    case some.some d k =>
      simp only [Sense.parts, hreply]
      exact eval_unpack (some d) f q l

/-- The first field that fails is the end of a single candidate. -/
theorem Scope.Reads.eval_runDirect_error {e : Failure} (h : s.Reads conv attempts σ)
    (hc : Attempt.ofTarget dest t ∈ attempts) (hx : l.get? Conversion.parameter = some x)
    (hr : (Attempt.ofTarget dest t).steps.mapM (σ.taken s x) = .error e) :
    (eval ((Attempt.ofTarget dest t).runDirect conv.container s) l).1 = .error e := by
  obtain ⟨l', hl', _⟩ := eval_forM_error
    (fun f hf l p hx hp => (h.eval_convert hc hf hx).trans (by rw [hp]))
    (fun f hf l e hx he => (h.eval_convert hc hf hx).trans (by rw [he]))
    (fun f hf p => parameter_notMem_take hf conv.container p) hx hr
  rw [Attempt.runDirect, eval_bind_error hl']

/-- A single candidate is taken apart field by field while it is converted, so nothing is left under the variables that
another field could overwrite. -/
theorem eval_runDirect_contained (h : s.Reads conv attempts σ) (hk : conv.container = some d)
    (hσ : σ.container = some (.cls k)) (hw : s.Contains k wrap) (hc : Attempt.ofTarget dest c.target ∈ attempts)
    (hn : c.target.body.fieldNames.Nodup)
    (hv : ∀ f ∈ (Attempt.ofTarget dest c.target).steps, f.valueSlot (some d) ∈ s.own)
    (he : ∀ f ∈ (Attempt.ofTarget dest c.target).steps, f.effectsSlot ∈ s.own) (hr : Attempt.resultSlot ∈ s.own)
    (hx : l.get? Conversion.parameter = some x) :
    (eval ((Attempt.ofTarget dest c.target).runDirect (some d) s) l).1 =
      (Attempt.ofTarget dest c.target).steps.mapM (σ.parts s x) >>=
        σ.compose s wrap (Attempt.ofTarget dest c.target) := by
  have htaken : ∀ f : FieldStep, σ.taken s x f = σ.parts s x f := by
    intro f
    rw [Sense.taken, hσ]
  have hconvert : ∀ f ∈ (Attempt.ofTarget dest c.target).steps, ∀ l : Locals, l.get? Conversion.parameter = some x →
      eval (f.convert (some d) s) l = match σ.parts s x f with
        | .ok p => (.ok (), l.insertAll (f.parts (some d) p))
        | .error e => (.error e, l) := by
    intro f hf l hx
    have hrun := h.eval_convert hc hf hx
    rwa [hk, htaken] at hrun
  have hok : ∀ f ∈ (Attempt.ofTarget dest c.target).steps, ∀ (l : Locals) p,
      l.get? Conversion.parameter = some x → σ.parts s x f = .ok p →
        eval (f.convert (some d) s) l = (.ok (), l.insertAll (f.parts (some d) p)) := by
    intro f hf l p hx hp
    rw [hconvert f hf l hx, hp]
  have herror : ∀ f ∈ (Attempt.ofTarget dest c.target).steps, ∀ (l : Locals) e,
      l.get? Conversion.parameter = some x → σ.parts s x f = .error e →
        eval (f.convert (some d) s) l = (.error e, l) := by
    intro f hf l e hx hp
    rw [hconvert f hf l hx, hp]
  have hwrites : ∀ f ∈ (Attempt.ofTarget dest c.target).steps, ∀ p,
      Conversion.parameter ∉ (f.parts (some d) p).map Prod.fst := fun f hf => parameter_notMem_parts hf
  rw [Attempt.runDirect]
  cases hps : (Attempt.ofTarget dest c.target).steps.mapM (σ.parts s x) with
  | error e =>
    obtain ⟨l', hl', _⟩ := eval_forM_error hok herror hwrites hx hps
    rw [eval_bind_error hl']
    rfl
  | ok ps =>
    have hsteps := mapM_eq_ok_iff.mp hps
    rw [eval_bind_ok (eval_forM_ok hok hwrites hx hsteps)]
    exact eval_finish_contained h hk hσ hw hc hn hv he hr hsteps.length_eq l

section Contained

variable {qs : List Value} (h : s.Follows conv attempts σ) (hk : conv.container = some d)
  (hσ : σ.container = some (.cls k)) (hc : Attempt.ofTarget dest c.target ∈ attempts)

section Right

variable (hw : s.Contains k wrap) (hn : c.target.body.fieldNames.Nodup)
  (hv : ∀ f ∈ (Attempt.ofTarget dest c.target).steps, f.valueSlot (some d) ∈ s.own)
  (he : ∀ f ∈ (Attempt.ofTarget dest c.target).steps, f.effectsSlot ∈ s.own) (hr : Attempt.resultSlot ∈ s.own)
  (hp : List.Forall₂ (fun q p => s.unpacks q = .ok p) qs ps)
  (hs : List.Forall₂ (fun (p : Value × Value) es => s.world.spread p.2 = .ok es) ps ess)
include h hk hσ hc hw hn hv he hr hp hs

theorem eval_runDirect_ok (hx : l.get? Conversion.parameter = some x) (hq : c.convert σ s x .into = .ok qs) :
    (eval ((Attempt.ofTarget dest c.target).runDirect (some d) s) l).1 =
      .ok (wrap (σ.make (c, ps.map Prod.fst)) ess.flatten) := by
  have hl : (Attempt.ofTarget dest c.target).steps.length = ps.length := (length_of_convert hq).trans hp.length_eq
  rw [← mapM_steps .into dest c, mapM_eq_ok_iff] at hq
  have hsteps : List.Forall₂ (fun f p => σ.parts s x f = .ok p) (Attempt.ofTarget dest c.target).steps ps := by
    refine forall₂_comp hq hp fun f q p hfq hqp => ?_
    rw [Sense.parts, hfq]
    exact hqp
  rw [eval_runDirect_contained h.reads hk hσ hw hc hn hv he hr hx, mapM_eq_ok_iff.mpr hsteps]
  exact h.compose_eq_ok hc hn hl hs

variable (ho : ∀ f ∈ (Attempt.ofTarget dest c.target).steps, f.slot ∈ s.own)
include ho

/-- Of several candidates, the one that is chosen is taken apart after all of its fields are accepted. -/
theorem eval_conclude_contained (hl : (Attempt.ofTarget dest c.target).steps.length = qs.length)
    (hsep : c.target.body.Separate) (l : Locals) :
    (eval ((Attempt.ofTarget dest c.target).conclude (some d) s)
      ((Attempt.ofTarget dest c.target).keeping qs l)).1 =
      .ok (wrap (σ.make (c, ps.map Prod.fst)) ess.flatten) := by
  have hvariables : ∀ f ∈ (Attempt.ofTarget dest c.target).steps, constant? f.slot = none ∧ f.slot ∈ s.own :=
    fun f hf => ⟨constant?_slot_of_mem hf, ho f hf⟩
  have hspare : (Attempt.ofTarget dest c.target).steps.Pairwise (FieldStep.Spares d) :=
    pairwise_steps_ofTarget.mpr hsep
  have hlen := hl.trans hp.length_eq
  rw [Attempt.conclude, eval_bind_ok (eval_settle_ok hvariables (get?_kept hn hl l) hp hspare)]
  exact (eval_finish_contained h.reads hk hσ hw hc hn hv he hr hlen _).trans (h.compose_eq_ok hc hn hlen hs)

end Right

/-- Where fields are in each other's way, a value of one is taken apart in the place of another. -/
theorem eval_conclude_error (hn : c.target.body.fieldNames.Nodup)
    (ho : ∀ f ∈ (Attempt.ofTarget dest c.target).steps, f.slot ∈ s.own)
    (hp : List.Forall₂ (fun q p => s.unpacks q = .ok p) qs ps) (hsolid : ∀ p ∈ ps, s.Solid p.1 ∧ s.Solid p.2)
    (hl : (Attempt.ofTarget dest c.target).steps.length = qs.length) (hsep : ¬c.target.body.Separate) (l : Locals) :
    ∃ e, (eval ((Attempt.ofTarget dest c.target).conclude (some d) s)
      ((Attempt.ofTarget dest c.target).keeping qs l)).1 = .error e := by
  have hvariables : ∀ f ∈ (Attempt.ofTarget dest c.target).steps, constant? f.slot = none ∧ f.slot ∈ s.own :=
    fun f hf => ⟨constant?_slot_of_mem hf, ho f hf⟩
  have hstate : ∀ f ∈ (Attempt.ofTarget dest c.target).steps, ∃ q,
      ((Attempt.ofTarget dest c.target).keeping qs l).get? f.slot = some q ∧
        (s.Solid q ∨ ∃ p, s.unpacks q = .ok p ∧ s.Solid p.1 ∧ s.Solid p.2) := by
    intro f hf
    obtain ⟨q, hq, hkept⟩ := exists_right_of_forall₂ (get?_kept hn hl l) hf
    obtain ⟨p, hmem, hqp⟩ := exists_right_of_forall₂ hp hq
    exact ⟨q, hkept, Or.inr ⟨p, hqp, hsolid p hmem⟩⟩
  have hspare : ¬(Attempt.ofTarget dest c.target).steps.Pairwise (FieldStep.Spares d) :=
    mt pairwise_steps_ofTarget.mp hsep
  obtain ⟨e, l', hsettle⟩ := eval_settle_error hvariables hstate (Or.inr hspare)
  refine ⟨e, ?_⟩
  rw [Attempt.conclude, eval_bind_error hsettle]

end Contained

/-- Where one of several candidates is chosen, all that is left is to conclude it. -/
theorem eval_run_chosen {qs : List Value} {case : String} (h : s.Tries conv arm.body.attempts σ)
    (hb : arm.body = .ofCandidates conv.dest L) (hx : l.get? Conversion.parameter = some x) (hlen : L.length ≠ 1)
    (hq : chosen σ s x conv.dest case L = .ok (c, qs)) :
    c ∈ L ∧ (Attempt.ofTarget conv.dest c.target).steps.length = qs.length ∧ ∃ l' : Locals,
      (eval (arm.body.run conv s arm.case) l).1 =
        (eval ((Attempt.ofTarget conv.dest c.target).conclude conv.container s)
          ((Attempt.ofTarget conv.dest c.target).keeping qs l')).1 := by
  have hfit : firstFit (Candidate.convert σ s x .tryInto) L = .ok (some (c, qs)) := by
    rw [chosen_several hlen] at hq
    split at hq <;> simp_all
  obtain ⟨hc, hconvert⟩ := mem_of_firstFit hfit
  obtain ⟨l', _, hl'⟩ := eval_run_some h (fun c hc => ArmBody.mem_attempts hb hc) hx hfit
  refine ⟨hc, length_of_convert hconvert, l', ?_⟩
  rw [← hl', hb, ArmBody.ofCandidates_several conv.dest hlen]

section Arm

variable {qs : List Value} {case : String} (h : s.Follows conv arm.body.attempts σ) (hk : conv.container = some d)
  (harm : arm ∈ conv.arms) (hb : arm.body = .ofCandidates conv.dest L)
  (hn : ∀ c ∈ L, c.target.body.fieldNames.Nodup) (hx : l.get? Conversion.parameter = some x)
  (hq : chosen σ s x conv.dest case L = .ok (c, qs)) (hp : List.Forall₂ (fun q p => s.unpacks q = .ok p) qs ps)
include h hk harm hb hn hx hq hp

/-- An arm with a container takes the candidate that is chosen and makes its variant, with all effects. -/
theorem eval_run_contained (hσ : σ.container = some (.cls k)) (hw : s.Contains k wrap)
    (hs : List.Forall₂ (fun (p : Value × Value) es => s.world.spread p.2 = .ok es) ps ess)
    (hsep : L.length = 1 ∨ c.target.body.Separate) :
    (eval (arm.body.run conv s arm.case) l).1 = .ok (wrap (σ.make (c, ps.map Prod.fst)) ess.flatten) := by
  have hsome : conv.container.isSome := by simp [hk]
  have hv (c : Candidate) (hc : c ∈ L) (f : FieldStep) (hf : f ∈ (Attempt.ofTarget conv.dest c.target).steps) :
      f.valueSlot (some d) ∈ s.own := by
    have hmem := Conversion.valueSlot_mem_ownNames harm (ArmBody.mem_attempts hb hc) hf
    rwa [hk, ← h.own] at hmem
  have he (c : Candidate) (hc : c ∈ L) (f : FieldStep) (hf : f ∈ (Attempt.ofTarget conv.dest c.target).steps) :
      f.effectsSlot ∈ s.own :=
    h.own ▸ Conversion.effectsSlot_mem_ownNames harm (ArmBody.mem_attempts hb hc) hf hsome
  have hr (c : Candidate) (hc : c ∈ L) : Attempt.resultSlot ∈ s.own :=
    h.own ▸ Conversion.resultSlot_mem_ownNames harm (ArmBody.mem_attempts hb hc) hsome
  by_cases hlen : L.length = 1
  · obtain ⟨c', rfl⟩ := List.length_eq_one_iff.mp hlen
    obtain ⟨rfl, hconvert⟩ : c' = c ∧ c'.convert σ s x .into = .ok qs := by
      simp only [chosen] at hq
      cases hc' : c'.convert σ s x .into <;> simp_all [Except.map]
    have hc : c' ∈ [c'] := List.mem_singleton_self c'
    have hmem := ArmBody.mem_attempts hb hc
    rw [hb, ArmBody.ofCandidates_single, ArmBody.run, hk]
    exact eval_runDirect_ok h hk hσ hmem hw (hn c' hc) (hv c' hc) (he c' hc) (hr c' hc) hp hs hx hconvert
  · obtain ⟨hc, hl, l', hrun⟩ := eval_run_chosen h.tries hb hx hlen hq
    have hmem := ArmBody.mem_attempts hb hc
    have ho (f : FieldStep) (hf : f ∈ (Attempt.ofTarget conv.dest c.target).steps) : f.slot ∈ s.own :=
      h.own ▸ Conversion.slot_mem_ownNames harm (hb.trans (ArmBody.ofCandidates_several conv.dest hlen))
        (List.mem_map.mpr ⟨c, hc, rfl⟩) hf
    rw [hrun, hk]
    exact eval_conclude_contained h hk hσ hmem hw (hn c hc) (hv c hc) (he c hc) (hr c hc) hp hs ho hl
      (hsep.resolve_left hlen) l'

/-- With several candidates, an arm fails where fields of the one that is chosen are in each other's way. -/
theorem eval_run_collides (hlen : L.length ≠ 1) (hsep : ¬c.target.body.Separate)
    (hsolid : ∀ p ∈ ps, s.Solid p.1 ∧ s.Solid p.2) :
    ∃ e, (eval (arm.body.run conv s arm.case) l).1 = .error e := by
  obtain ⟨hc, hl, l', hrun⟩ := eval_run_chosen h.tries hb hx hlen hq
  have hmem := ArmBody.mem_attempts hb hc
  have ho (f : FieldStep) (hf : f ∈ (Attempt.ofTarget conv.dest c.target).steps) : f.slot ∈ s.own :=
    h.own ▸ Conversion.slot_mem_ownNames harm (hb.trans (ArmBody.ofCandidates_several conv.dest hlen))
      (List.mem_map.mpr ⟨c, hc, rfl⟩) hf
  rw [hrun, hk]
  exact eval_conclude_error (hn c hc) ho hp hsolid hl hsep l'

end Arm

/-- What results in a container come apart into are their values, and something that gives their effects. -/
theorem exists_parts_of_yields (hw : s.Contains k wrap) {qs : List Value} {ys : List (Value × List Value)}
    (hy : List.Forall₂ (fun q y => s.Yields k q y.1 y.2) qs ys) :
    ∃ ps, List.Forall₂ (fun q p => s.unpacks q = .ok p) (qs.map (s.lifted k wrap)) ps ∧
      ps.map Prod.fst = ys.map Prod.fst ∧
      List.Forall₂ (fun (p : Value × Value) es => s.world.spread p.2 = .ok es) ps (ys.map Prod.snd) := by
  induction hy with
  | nil => exact ⟨[], List.Forall₂.nil, rfl, List.Forall₂.nil⟩
  | @cons q y qs ys hqy _ ih =>
    obtain ⟨ps, hps, hvalues, hspread⟩ := ih
    obtain ⟨it, hunpack, hit⟩ := hw.unpacks_lifted hqy
    exact ⟨(y.1, it) :: ps, List.Forall₂.cons hunpack hps, by simp [hvalues], List.Forall₂.cons hit hspread⟩

/-- The arm for a case of a source, where the destination has a container: the candidate that is chosen as if there were
none gives the variant, with the value of each field's own conversion, in a container with all of their effects, in the
order of the fields. With several candidates that takes fields which are not in each other's way; where they are, and
values do not come apart themselves, the arm fails. -/
theorem Compiled.effects_of_arm {source : String} {file doc : Option String} {c : Compiled} {p : Plan} {S : DottedName}
    {byCase : Table String (List Candidate)} {C : String} (hc : compile source file doc = .ok c) (hp : p ∈ c.plans)
    (hk : p.mapping.container = some d) (hS : p.table.get? S = some byCase) (hC : byCase.get? C = some L) :
    ∃ conv arm, c.module.Emits S p.dest C conv arm ∧
      (∀ conv' arm', c.module.Emits S p.dest C conv' arm' → conv' = conv ∧ arm' = arm) ∧
      ∀ (s : Scope) (σ : Sense) (l : Locals) (x : Value) (k : ClassRef) (wrap : Value → List Value → Value),
        s.Follows conv arm.body.attempts σ → σ.container = some (.cls k) → s.Contains k wrap → s.Lifts σ.registry k →
        l.get? Conversion.parameter = some x → ∀ c' qs ys, chosen σ.bare s x p.dest s!"{S}.{C}" L = .ok (c', qs) →
          List.Forall₂ (fun q y => s.Yields k q y.1 y.2) qs ys →
            (L.length = 1 ∨ c'.target.body.Separate → (eval (arm.body.run conv s C) l).1 =
              .ok (wrap (σ.make (c', ys.map Prod.fst)) (ys.flatMap Prod.snd))) ∧
            (L.length ≠ 1 → ¬c'.target.body.Separate → (∃ run, s.call = s.world.callBy run) →
              (∀ y ∈ ys, s.Solid y.1) → ∃ e, (eval (arm.body.run conv s C) l).1 = .error e) := by
  obtain ⟨conv, arm, he, hcontainer, hbody, huniq⟩ := exists_arm hc hp hS hC
  obtain ⟨dest, hdest, hof⟩ := exists_destination hc hp
  refine ⟨conv, arm, he, huniq, fun s σ l x k wrap h hσ hw hl hx c' qs ys hq hy => ?_⟩
  have hn (c' : Candidate) (hc' : c' ∈ L) : c'.target.body.fieldNames.Nodup := by
    obtain ⟨v, hv, _, hb⟩ := hof.variant_of_candidate hS hC hc'
    rw [hb]
    exact (distinct hc).fields dest (List.mem_of_mem_filter hdest) v hv
  have hk' : conv.container = some d := hcontainer.trans hk
  have hb : arm.body = .ofCandidates conv.dest L := he.dest_eq ▸ hbody
  have hlifted : chosen σ s x conv.dest s!"{S}.{C}" L = .ok (c', qs.map (s.lifted k wrap)) := by
    rw [he.dest_eq, chosen_lifted hw hl hσ, hq]
    rfl
  obtain ⟨ps, hps, hvalues, hspread⟩ := exists_parts_of_yields hw hy
  rw [← he.case_eq]
  constructor
  · intro hsep
    rw [eval_run_contained h hk' he.mem_arms hb hn hx hlifted hps hσ hw hspread hsep, hvalues, List.flatMap]
  · rintro hlen hsep ⟨run, hcall⟩ hsolid
    refine eval_run_collides h hk' he.mem_arms hb hn hx hlifted hps hlen hsep fun p hmem => ?_
    obtain ⟨es, _, hes⟩ := exists_right_of_forall₂ hspread hmem
    have hvalue : p.1 ∈ ys.map Prod.fst := hvalues ▸ List.mem_map_of_mem hmem
    obtain ⟨y, hy, hyp⟩ := List.mem_map.mp hvalue
    exact ⟨hyp ▸ hsolid y hy, Scope.solid_of_plain hcall (World.plain_of_spread hes)⟩

/-- A destination with a container and two variants for one case, of which the first has a field that is in the way of
another. -/
def collidingDest : Union where
  name := "D"
  variants := [
    ⟨"F", .named [("x", .ofName "int"), ("x_value", .ofName "int")],
      [⟨fromCase, [⟨none, .ofName "A", ⟨5, 12⟩⟩], ⟨5, 1⟩⟩], ⟨5, 1⟩⟩,
    ⟨"G", .named [("x", .ofName "Effectful")], [⟨fromCase, [⟨none, .ofName "A", ⟨6, 12⟩⟩], ⟨6, 1⟩⟩], ⟨6, 1⟩⟩]
  directives := [⟨fromUnion, [⟨none, .ofName "S", ⟨3, 13⟩⟩,
    ⟨some (.ofName "effect_container"), .ofName "Effectful", ⟨3, 16⟩⟩], ⟨3, 1⟩⟩]
  place := ⟨3, 1⟩

def colliding : Schema where
  imports := [⟨⟨"casemap", ["runtime"]⟩, .names ("Effectful", none) [], ⟨1, 1⟩⟩]
  unions := [⟨"S", [⟨"A", .named [("x", .ofName "object"), ("x_value", .ofName "int")], [], ⟨2, 11⟩⟩], [], ⟨2, 1⟩⟩,
    collidingDest]

def collidingText : String :=
  "from casemap.runtime import Effectful\nunion S \x7b A \x7b x: object, x_value: int \x7d \x7d\n" ++
    "@from_union(S, effect_container = Effectful)\nunion D \x7b\n@from_case(A) F \x7b x: int, x_value: int \x7d\n" ++
    "@from_case(A) G \x7b x: Effectful \x7d\n\x7d\n"

def collidingAttempts : List Attempt :=
  [⟨"D", "F", .byKeyword, [⟨"f_x", "x", .ofName "int"⟩, ⟨"f_x_value", "x_value", .ofName "int"⟩]⟩,
    ⟨"D", "G", .byKeyword, [⟨"f_x", "x", .ofName "Effectful"⟩]⟩]

def collidingArm : Arm := ⟨"A", .firstFit collidingAttempts⟩

def collidingConversion : Conversion := ⟨"d_from_s", .ofName "S", "D", some (.ofName "Effectful"), [collidingArm]⟩

def collidingWorld : World where
  classes := [unionClass "S" 0 [("A", 1)], recordClass "A" 1 0 ["x", "x_value"], unionClass "D" 2 [("F", 3), ("G", 4)],
    recordClass "F" 3 2 ["x", "x_value"], recordClass "G" 4 2 ["x"]]
  modules := [⟨"m", ⟨[("Effectful", .cls (.builtin (.carrier .effectful))), ("S", .cls (.declared 0)),
    ("D", .cls (.declared 2)), ("_rt", .module (.library "casemap.runtime")), ("_registry", .registry "default")]⟩⟩]
  registries := ∅
  importable := ∅
  misplaced := ∅

def collidingScope : Scope where
  world := collidingWorld
  home := 0
  call := collidingWorld.callBy (collidingWorld.runWithin 8)
  answer := collidingWorld.answer (collidingWorld.callBy (collidingWorld.runWithin 8))
  own := collidingConversion.ownNames

def collidingSense : Sense where
  registry := "default"
  type d := if d = .ofName "int" then .cls (.builtin .int) else .cls (.builtin (.carrier .effectful))
  container := some (.cls (.builtin (.carrier .effectful)))
  variant name := if name = "F" then 3 else 4

set_option maxRecDepth 10000 in
theorem follows_colliding : collidingScope.Follows collidingConversion collidingAttempts collidingSense where
  own := rfl
  calls _ _ := rfl
  registry _ := rfl
  types a ha f hf := by
    simp only [collidingAttempts, List.mem_cons, List.not_mem_nil, or_false] at ha
    rcases ha with rfl | rfl
    · simp only [List.mem_cons, List.not_mem_nil, or_false] at hf
      rcases hf with rfl | rfl
      · intro l
        rfl
      · intro l
        rfl
    · obtain rfl := List.mem_singleton.mp hf
      intro l
      rfl
  container := .some fun _ => rfl
  variants a ha := by
    simp only [collidingAttempts, List.mem_cons, List.not_mem_nil, or_false] at ha
    rcases ha with rfl | rfl
    · intro l
      rfl
    · intro l
      rfl
  makes a ha := by
    simp only [collidingAttempts, List.mem_cons, List.not_mem_nil, or_false] at ha
    rcases ha with rfl | rfl
    · exact ⟨⟨_, _, rfl, rfl, rfl⟩, rfl, by decide⟩
    · exact ⟨⟨_, _, rfl, rfl, rfl⟩, rfl, by decide⟩
  rejection _ := rfl
  exhaustion _ := rfl

def collidingFirst : Candidate :=
  ⟨"A", ⟨"F", .named [("x", .ofName "int"), ("x_value", .ofName "int")], 0, Span.ofPlace ⟨5, 1⟩ none⟩⟩

def collidingSecond : Candidate := ⟨"A", ⟨"G", .named [("x", .ofName "Effectful")], 1, Span.ofPlace ⟨6, 1⟩ none⟩⟩

theorem compile_colliding : compile collidingText none none =
    .ok ⟨colliding, [Plan.described collidingDest none],
      Module.ofPlans colliding [Plan.described collidingDest none] none none⟩ :=
  compile_of_lettered (.append (.append .literal .literal) .literal) (by decide +kernel) (by decide +kernel) (by decide +kernel)

theorem emits_colliding :
    (Module.ofPlans colliding [Plan.described collidingDest none] none none).Emits (.ofName "S") "D" "A"
      collidingConversion collidingArm where
  mem_conversions := by decide +kernel
  source_eq := rfl
  dest_eq := rfl
  mem_arms := by simp [collidingConversion]
  case_eq := rfl

def collidingSource (v : Value) : Value := .record 1 [("x", v), ("x_value", .int 2)]

set_option maxRecDepth 10000 in
theorem Compiled.effects_of_arm_laterFits :
    ∃ c, compile collidingText none none = .ok c ∧
      ∃ conv arm, c.module.Emits (.ofName "S") "D" "A" conv arm ∧
        collidingScope.Follows conv arm.body.attempts collidingSense ∧
        (eval (arm.body.run conv collidingScope "A")
          ⟨[("src", collidingSource (.carrier .effectful (.text "ab") [.text "e"]))]⟩).1 =
          .ok (.carrier .effectful (.record 4 [("x", .text "ab")]) [.text "e"]) := by
  have hS : (Plan.described collidingDest none).table.get? (.ofName "S") =
      some ⟨[("A", [collidingFirst, collidingSecond])]⟩ := by decide +kernel
  obtain ⟨conv, arm, he, huniq, hrun⟩ :=
    effects_of_arm compile_colliding (List.mem_singleton_self _) rfl hS (C := "A") rfl
  obtain ⟨rfl, rfl⟩ := huniq _ _ emits_colliding
  refine ⟨_, compile_colliding, _, _, he, follows_colliding, ?_⟩
  have hyields : collidingScope.Yields (.builtin (.carrier .effectful)) (.carrier .effectful (.text "ab") [.text "e"])
      (.text "ab") [.text "e"] := ⟨.iterator false [.text "e"], rfl, rfl⟩
  obtain ⟨hright, _⟩ := hrun collidingScope collidingSense
    ⟨[("src", collidingSource (.carrier .effectful (.text "ab") [.text "e"]))]⟩ _ _ _ follows_colliding rfl
    (Scope.contains_effectful rfl) (Scope.lifts_of_answer rfl _ _) rfl collidingSecond
    [.carrier .effectful (.text "ab") [.text "e"]] [(.text "ab", [.text "e"])] rfl (.cons hyields .nil)
  exact hright (.inr (by decide))

/-- Both fields of the variant are accepted, but the value of the first is taken apart as if it were what the second had
left. -/
theorem Compiled.effects_of_arm_collision :
    ∃ c, compile collidingText none none = .ok c ∧
      ∃ conv arm, c.module.Emits (.ofName "S") "D" "A" conv arm ∧
        collidingScope.Follows conv arm.body.attempts collidingSense ∧
        collidingScope.Contains (.builtin (.carrier .effectful)) (.carrier .effectful) ∧
        chosen collidingSense.bare collidingScope (collidingSource (.int 1)) "D" "S.A"
          [collidingFirst, collidingSecond] = .ok (collidingFirst, [.int 1, .int 2]) ∧
        ∃ e, (eval (arm.body.run conv collidingScope "A") ⟨[("src", collidingSource (.int 1))]⟩).1 = .error e := by
  have hchosen : chosen collidingSense collidingScope (collidingSource (.int 1)) "D" "S.A"
      [collidingFirst, collidingSecond] =
        .ok (collidingFirst, [.carrier .effectful (.int 1) [], .carrier .effectful (.int 2) []]) := rfl
  have hparts : List.Forall₂ (fun q p => collidingScope.unpacks q = .ok p)
      [.carrier .effectful (.int 1) [], .carrier .effectful (.int 2) []]
      [(.int 1, .iterator false []), (.int 2, .iterator false [])] := .cons rfl (.cons rfl .nil)
  have hsolid : ∀ p ∈ [(Value.int 1, Value.iterator false []), (.int 2, .iterator false [])],
      collidingScope.Solid p.1 ∧ collidingScope.Solid p.2 := by
    simp only [List.mem_cons, List.not_mem_nil, or_false, forall_eq_or_imp, forall_eq]
    exact ⟨⟨Scope.solid_of_plain rfl (.int 1), Scope.solid_of_plain rfl (.iterator false [])⟩,
      Scope.solid_of_plain rfl (.int 2), Scope.solid_of_plain rfl (.iterator false [])⟩
  have hlost : ∃ e, (eval (collidingArm.body.run collidingConversion collidingScope collidingArm.case)
      ⟨[("src", collidingSource (.int 1))]⟩).1 = .error e :=
    eval_run_collides follows_colliding rfl (List.mem_singleton_self _) rfl (by decide) rfl hchosen hparts (by decide)
      (by decide) hsolid
  exact ⟨_, compile_colliding, _, _, emits_colliding, follows_colliding, Scope.contains_effectful rfl, rfl, hlost⟩

end UnionBridge
