import UnionBridge.Proofs.Execution.Nesting
import UnionBridge.Proofs.Execution.Routing

/-! Destinations with containers of their own, or with none: what becomes of fields that are typed with other
destinations, and of the effects of their conversions. -/
namespace UnionBridge

open UnionBridge.Action

variable {w w' v : World} {s : Scope} {id depth : Nat} {conv : Conversion} {arm : Arm} {τ : Sense} {μ : Meaning}
  {κ : String → Option ClassRef} {wrap : ClassRef → Value → List Value → Value} {x y q : Value} {es : List Value}
  {d : DottedName} {k : ClassRef} {l : Locals} {L : List Candidate} {c : Compiled} {p p' : Plan} {S : DottedName}
  {r : Request}

/-! ### Results of conversions -/

/-- What a function gives for a value with effects: the value, in a container if there is one. -/
def Sense.hold (τ : Sense) (wrap : ClassRef → Value → List Value → Value) (v : Value) (es : List Value) : Value :=
  match τ.container with
  | some (.cls k) => wrap k v es
  | _ => v

/-- The value and the effects that a function takes from what a registry answers about a field. Without a container it
takes all of it for the value. -/
def Sense.Splits (τ : Sense) (s : Scope) (q v : Value) (es : List Value) : Prop :=
  match τ.container with
  | some (.cls k) => s.Yields k q v es
  | _ => v = q ∧ es = []

/-- What names as a container in some scope is one. -/
def Sense.Contained (τ : Sense) (s : Scope) (wrap : ClassRef → Value → List Value → Value) : Prop :=
  ∀ x, τ.container = some x → ∃ k, x = .cls k ∧ s.Contains k (wrap k)

/-- An attribute of a value is converted for a field, with these value and effects. -/
def Sense.Converts (τ : Sense) (s : Scope) (x : Value) (r : Request) (f : Field) (p : Value × List Value) : Prop :=
  ∃ y q, s.world.member x f.attr = .ok y ∧ s.answer τ.registry r y (τ.type f.type) none = .ok q ∧ τ.Splits s q p.1 p.2

/-- A candidate that is converted is made of the values of its fields, and has their effects. -/
def Sense.Composes (τ : Sense) (s : Scope) (wrap : ClassRef → Value → List Value → Value) (x : Value) (a : Attempt)
    (fs : List Field) (q : Value) : Prop :=
  ∃ r ps, List.Forall₂ (τ.Converts s x r) fs ps ∧ ∃ v,
    s.world.construct (.declared (τ.variant a.case)) (a.supply (ps.map Prod.fst)) = .ok v ∧
      q = τ.hold wrap v (ps.flatMap Prod.snd)

theorem converts_of_reply_plain (hσ : τ.container = none) {f : Field} (h : τ.reply s x r f.attr f.type = .ok q) :
    τ.Converts s x r f (q, []) := by
  rw [Sense.reply, hσ] at h
  cases hy : s.world.member x f.attr with
  | error e =>
    rw [hy] at h
    cases h
  | ok y =>
    rw [hy] at h
    refine ⟨y, q, hy, h, ?_⟩
    rw [Sense.Splits, hσ]
    exact ⟨rfl, rfl⟩

theorem converts_of_reply_contained (hσ : τ.container = some (.cls k)) (hw : s.Contains k (wrap k))
    (hl : s.Lifts τ.registry k) {f : Field} {p : Value × Value} (h : τ.reply s x r f.attr f.type = .ok q)
    (hp : s.unpacks q = .ok p) (hs : s.world.spread p.2 = .ok es) : τ.Converts s x r f (p.1, es) := by
  rw [reply_lifted hw hl hσ] at h
  cases hq : τ.bare.reply s x r f.attr f.type with
  | error e =>
    rw [hq] at h
    cases h
  | ok q₀ =>
    rw [hq] at h
    obtain rfl := Except.ok.inj h
    obtain ⟨y, q₁, hy, hanswer, hsplit⟩ := converts_of_reply_plain rfl hq
    obtain rfl : q₀ = q₁ := hsplit.1
    refine ⟨y, q₀, hy, hanswer, ?_⟩
    rw [Sense.Splits, hσ]
    exact hw.yields_of_unpacks_lifted hp hs

/-- What fields come apart into is what the results for them come apart into. -/
theorem exists_replies_of_parts {steps : List FieldStep} {ps : List (Value × Value)}
    (h : steps.mapM (τ.parts s x) = .ok ps) :
    ∃ qs, steps.mapM (fun f => τ.reply s x .into f.attr f.type) = .ok qs ∧
      List.Forall₂ (fun q p => s.unpacks q = .ok p) qs ps := by
  have hsteps := mapM_eq_ok_iff.mp h
  clear h
  induction hsteps with
  | nil => exact ⟨[], rfl, .nil⟩
  | @cons f p steps ps hf _ ih =>
    obtain ⟨qs, hqs, hparts⟩ := ih
    rw [Sense.parts] at hf
    cases hreply : τ.reply s x .into f.attr f.type with
    | error e =>
      rw [hreply] at hf
      cases hf
    | ok q =>
      rw [hreply] at hf
      exact ⟨q :: qs, mapM_eq_ok_iff.mpr (.cons hreply (mapM_eq_ok_iff.mp hqs)), .cons hf hparts⟩

theorem forall₂_zip_fst {α β κ ε : Type} {r : α → β × κ → Prop} {r' : β × κ → ε → Prop} {r'' : α → β × ε → Prop}
    {as : List α} {ps : List (β × κ)} {es : List ε} (hr : List.Forall₂ r as ps) (hr' : List.Forall₂ r' ps es)
    (h : ∀ a p e, r a p → r' p e → r'' a (p.1, e)) : List.Forall₂ r'' as ((ps.map Prod.fst).zip es) := by
  induction hr generalizing es with
  | nil => exact .nil
  | cons hap _ ih =>
    cases hr' with
    | cons hpe hrest => exact .cons (h _ _ _ hap hpe) (ih hrest)

/-! ### Arms -/

namespace Scope.Tries

variable (h : s.Tries conv arm.body.attempts τ) (harm : arm ∈ conv.arms)
  (hb : arm.body = .ofCandidates conv.dest L) (hn : ∀ c ∈ L, c.target.body.fieldNames.Nodup)
  (hx : l.get? Conversion.parameter = some x) (hrun : (eval (arm.body.run conv s arm.case) l).1 = .ok q)
include h harm hb hn hx hrun

/-- What an arm with a container gives is composed of what the fields of a candidate come apart into. -/
theorem exists_compose_of_run (hk : conv.container = some d) (hσ : τ.container = some (.cls k))
    (hw : s.Contains k (wrap k)) (hsep : L.length = 1 ∨ ∀ c ∈ L, c.target.body.Separate) :
    ∃ c ∈ L, ∃ r qs ps, c.convert τ s x r = .ok qs ∧ List.Forall₂ (fun q p => s.unpacks q = .ok p) qs ps ∧
      τ.compose s (wrap k) (Attempt.ofTarget conv.dest c.target) ps = .ok q := by
  have hsome : conv.container.isSome := by simp [hk]
  have hv (c : Candidate) (hc : c ∈ L) (f : FieldStep) (hf : f ∈ (Attempt.ofTarget conv.dest c.target).steps) :
      f.valueSlot (some d) ∈ s.own := by
    have hmem := Conversion.valueSlot_mem_ownNames harm (ArmBody.mem_attempts hb hc) hf
    rwa [hk, ← h.own] at hmem
  have he (c : Candidate) (hc : c ∈ L) (f : FieldStep) (hf : f ∈ (Attempt.ofTarget conv.dest c.target).steps) :
      f.effectsSlot ∈ s.own :=
    h.own ▸ Conversion.effectsSlot_mem_ownNames harm (ArmBody.mem_attempts hb hc) hf hsome
  have hr (c : Candidate) (hc : c ∈ L) : Attempt.resultSlot ∈ s.own :=
    h.own ▸ Conversion.resultSlot_mem_ownNames harm (ArmBody.mem_attempts hb hc) hsome
  by_cases hlen : L.length = 1
  · obtain ⟨c, rfl⟩ := List.length_eq_one_iff.mp hlen
    have hc : c ∈ [c] := List.mem_singleton_self c
    rw [hb, ArmBody.ofCandidates_single, ArmBody.run, hk, eval_runDirect_contained h.toReads hk hσ hw
      (ArmBody.mem_attempts hb hc) (hn c hc) (hv c hc) (he c hc) (hr c hc) hx] at hrun
    cases hps : (Attempt.ofTarget conv.dest c.target).steps.mapM (τ.parts s x) with
    | error e =>
      rw [hps] at hrun
      cases hrun
    | ok ps =>
      rw [hps] at hrun
      obtain ⟨qs, hqs, hparts⟩ := exists_replies_of_parts hps
      rw [mapM_steps] at hqs
      exact ⟨c, hc, .into, qs, ps, hqs, hparts, hrun⟩
  · cases hchosen : chosen τ s x conv.dest s!"{conv.source}.{arm.case}" L with
    | error e =>
      rw [hb, ArmBody.ofCandidates_several conv.dest hlen] at hrun
      rw [chosen_several hlen] at hchosen
      have hL (c : Candidate) (hc : c ∈ L) := ArmBody.mem_attempts hb hc
      cases hfit : firstFit (Candidate.convert τ s x .tryInto) L with
      | error e =>
        rw [eval_run_error h hL hx hfit] at hrun
        cases hrun
      | ok o =>
        rw [hfit] at hchosen
        cases o with
        | none =>
          rw [eval_run_none h hL hx hfit] at hrun
          cases hrun
        | some r => cases hchosen
    | ok r =>
      obtain ⟨c, qs⟩ := r
      obtain ⟨hc, hl, l', heq⟩ := eval_run_chosen h hb hx hlen hchosen
      obtain ⟨_, r, hconvert⟩ := mem_of_chosen hchosen
      have hvariables : ∀ f ∈ (Attempt.ofTarget conv.dest c.target).steps, constant? f.slot = none ∧ f.slot ∈ s.own :=
        fun f hf => ⟨constant?_slot_of_mem hf, h.own ▸ Conversion.slot_mem_ownNames harm
          (hb.trans (ArmBody.ofCandidates_several conv.dest hlen)) (List.mem_map.mpr ⟨c, hc, rfl⟩) hf⟩
      have hspare : (Attempt.ofTarget conv.dest c.target).steps.Pairwise (FieldStep.Spares d) :=
        pairwise_steps_ofTarget.mpr (hsep.resolve_left hlen c hc)
      have hkept : List.Forall₂ (fun f v => ((Attempt.ofTarget conv.dest c.target).keeping qs l').get? f.slot = some v)
          (Attempt.ofTarget conv.dest c.target).steps qs := get?_kept (hn c hc) hl l'
      rw [heq, hk, Attempt.conclude] at hrun
      cases hsettle : eval ((Attempt.ofTarget conv.dest c.target).steps.forM (·.settle (some d) s))
          ((Attempt.ofTarget conv.dest c.target).keeping qs l') with
      | mk result l₁ =>
        cases result with
        | error e =>
          rw [eval_bind_error hsettle] at hrun
          cases hrun
        | ok u =>
          obtain ⟨ps, hps⟩ := exists_parts_of_settle hvariables hkept hspare (congrArg Prod.fst hsettle)
          refine ⟨c, hc, r, qs, ps, hconvert, hps, ?_⟩
          rw [eval_bind_ok (eval_settle_ok hvariables hkept hps hspare)] at hrun
          exact (eval_finish_contained h.toReads hk hσ hw (ArmBody.mem_attempts hb hc) (hn c hc) (hv c hc) (he c hc)
            (hr c hc) (hl.trans hps.length_eq) _).symm.trans hrun

/-- What an arm gives is made of what the fields of one of its candidates are converted to. -/
theorem exists_composes_of_run (hw : τ.Contained s wrap) (hl : ∀ k, s.Lifts τ.registry k)
    (hsep : conv.container.isSome → L.length = 1 ∨ ∀ c ∈ L, c.target.body.Separate) :
    ∃ c ∈ L, τ.Composes s wrap x (Attempt.ofTarget conv.dest c.target) c.target.fields q := by
  have hrel := h.container
  cases hk : conv.container with
  | none =>
    have hσ : τ.container = none := by
      cases hσ : τ.container with
      | none => rfl
      | some x' =>
        rw [hk, hσ] at hrel
        cases hrel
    rw [h.eval_run_plain hk harm hb hn hx] at hrun
    cases hchosen : chosen τ s x conv.dest s!"{conv.source}.{arm.case}" L with
    | error e =>
      rw [hchosen] at hrun
      cases hrun
    | ok p =>
      obtain ⟨c, qs⟩ := p
      rw [hchosen] at hrun
      obtain ⟨hc, r, hconvert⟩ := mem_of_chosen hchosen
      have hfields := mapM_eq_ok_iff.mp hconvert
      have hvalues : (qs.map fun q => (q, ([] : List Value))).map Prod.fst = qs := by
        simp [Function.comp_def]
      refine ⟨c, hc, r, qs.map fun q => (q, []), ?_, q, hvalues.symm ▸ hrun, ?_⟩
      · exact List.forall₂_map_right_iff.mpr (hfields.imp fun f q hq => converts_of_reply_plain hσ hq)
      · rw [Sense.hold, hσ]
  | some d =>
    obtain ⟨x', hσ⟩ : ∃ x', τ.container = some x' := by
      cases hσ : τ.container with
      | some x' => exact ⟨x', rfl⟩
      | none =>
        rw [hk, hσ] at hrel
        cases hrel
    obtain ⟨k, rfl, hcontains⟩ := hw x' hσ
    obtain ⟨c, hc, r, qs, ps, hconvert, hparts, hcompose⟩ :=
      h.exists_compose_of_run harm hb hn hx hrun hk hσ hcontains (hsep (by simp [hk]))
    obtain ⟨v, ess, hconstruct, hspread, rfl⟩ := Sense.compose_eq_ok_iff.mp hcompose
    have hlen : (ps.map Prod.fst).length = ess.length := by simpa using hspread.length_eq
    have hfields := forall₂_comp (mapM_eq_ok_iff.mp hconvert) hparts
      (fun f q p hq hp => (⟨q, hq, hp⟩ : ∃ q, τ.reply s x r f.attr f.type = .ok q ∧ s.unpacks q = .ok p))
    refine ⟨c, hc, r, (ps.map Prod.fst).zip ess, ?_, v, ?_, ?_⟩
    · refine forall₂_zip_fst hfields hspread fun f p es hf hes => ?_
      obtain ⟨q, hq, hp⟩ := hf
      exact converts_of_reply_contained hσ hcontains (hl k) hq hp hes
    · rwa [List.map_fst_zip hlen.le]
    · rw [Sense.hold, hσ, List.flatMap, List.map_snd_zip hlen.ge]

end Scope.Tries

/-! ### Containers within containers -/

/-- What the names in the functions of a destination stand for, where each destination has a container of its own or
none. -/
def Meaning.within (μ : Meaning) (κ : String → Option ClassRef) (dest : String) : Sense where
  registry := μ.registry
  type := μ.type
  container := (κ dest).map .cls
  variant := μ.variant dest

/-- What a conversion with a container, if it has one, gives for values of a union fits in where another conversion, with
a container or without, puts it: a container is one of those that the other takes apart, and a value is none. -/
def World.Fits (w : World) (wrap : ClassRef → Value → List Value → Value) (union : Nat) :
    Option ClassRef → Option ClassRef → Prop
  | none, inner => inner = none
  | some k, none => ∀ v, w.isInstance v (.declared union) → ¬w.isInstance v k
  | some k, some k' => ∀ v es, w.isInstance (wrap k' v es) k

/-- A destination has a field that is typed with another one. -/
def Meaning.Nests (μ : Meaning) (p p' : Plan) : Prop :=
  ∃ e ∈ p.table.entries, ∃ e' ∈ e.2.entries, ∃ cand ∈ e'.2, ∃ f ∈ cand.target.fields,
    μ.type f.type = .cls (.declared (μ.dest p'.dest))

/-- Where a destination with a container has several candidates for a case, their fields are not in each other's way. -/
def Compiled.Separate (c : Compiled) : Prop :=
  ∀ p ∈ c.plans, p.mapping.container.isSome → ∀ e ∈ p.table.entries, ∀ e' ∈ e.2.entries,
    e'.2.length = 1 ∨ ∀ cand ∈ e'.2, cand.target.body.Separate

instance : Decidable c.Separate := inferInstanceAs (Decidable (∀ p ∈ c.plans, _))

mutual

/-- A value of a source becomes the variant of a candidate for its case, with what comes of the fields of that. -/
inductive Gathers (w : World) (home : Nat) (μ : Meaning) (κ : String → Option ClassRef) (plans : List Plan) :
    Plan → DottedName → Value → Outcome → Prop
  | node {p : Plan} {S : DottedName} {byCase : Table String (List Candidate)} {C : String} {L : List Candidate}
      {c : Candidate} {x : Value} {ts : List Outcome} (hp : p ∈ plans) (hS : p.table.get? S = some byCase)
      (hC : byCase.get? C = some L) (hc : c ∈ L) (hx : w.isInstance x (μ.case S C))
      (hts : GathersFields w home μ κ plans p x c.target.fields ts) :
      Gathers w home μ κ plans p S x (.node (μ.variant p.dest c.target.name) c.target.body.attrs ts)

/-- Each field of a variant of a destination is made from the attribute of its name. -/
inductive GathersFields (w : World) (home : Nat) (μ : Meaning) (κ : String → Option ClassRef) (plans : List Plan) :
    Plan → Value → List Field → List Outcome → Prop
  | nil {p : Plan} {x : Value} : GathersFields w home μ κ plans p x [] []
  | cons {p : Plan} {x y : Value} {f : Field} {fs : List Field} {t : Outcome} {ts : List Outcome}
      (hy : w.member x f.attr = .ok y) (ht : GathersField w home μ κ plans p (μ.type f.type) y t)
      (hts : GathersFields w home μ κ plans p x fs ts) : GathersFields w home μ κ plans p x (f :: fs) (t :: ts)

/-- A value of a source of a destination becomes an instance of that destination, with the effects of its own conversion;
what any other type makes of a value is a leaf. -/
inductive GathersField (w : World) (home : Nat) (μ : Meaning) (κ : String → Option ClassRef) (plans : List Plan) :
    Plan → Value → Value → Outcome → Prop
  | nested {p p' : Plan} {S : DottedName} {y : Value} {t : Outcome} (hp : p' ∈ plans)
      (hS : μ.nearest? w p' y = some S) (ht : Gathers w home μ κ plans p' S y t)
      (hunion : w.isInstance t.value (.declared (μ.dest p'.dest))) :
      GathersField w home μ κ plans p (.cls (.declared (μ.dest p'.dest))) y t
  | leaf {p : Plan} {type y q v : Value} {es : List Value} {depth : Nat} {r : Request}
      (hfar : ∀ p ∈ plans, type = .cls (.declared (μ.dest p.dest)) → μ.nearest? w p y = none)
      (hq : w.answer (w.callWithin depth) μ.registry r y type none = .ok q)
      (hv : (μ.within κ p.dest).Splits (w.frame home [] depth) q v es) :
      GathersField w home μ κ plans p type y (.leaf v es)

end

/-- A schema is at work in a world, where each destination has a container of its own or none: the names in its module
mean what they should, the class of a variant makes values of its union, and for destinations the registry holds nothing
but the conversions of the module. -/
structure Compiled.Runs (c : Compiled) (w : World) (id : Nat) (μ : Meaning) (κ : String → Option ClassRef)
    (wrap : ClassRef → Value → List Value → Value) : Prop where
  resolved : c.module.Resolved w id μ.source μ.dest
  known : c.module.Known w id (fun conv => μ.within κ conv.dest) fun conv => μ.case conv.source
  builds : ∀ conv ∈ c.module.conversions, ∀ a ∈ conv.attempts, a.Builds w (μ.variant conv.dest a.case)
  below : ∀ conv ∈ c.module.conversions, ∀ a ∈ conv.attempts,
    w.isSubclass (.declared (μ.variant conv.dest a.case)) (.declared (μ.dest conv.dest))
  served : c.module.Served w id μ
  infallible : ∀ p ∈ c.plans, ∀ a,
    (w.registry μ.registry).get? ⟨.cls a, .cls (.declared (μ.dest p.dest)), true⟩ = none
  contains : ∀ p ∈ c.plans, ∀ k, κ p.dest = some k → w.Contains k (wrap k)

/-- What a conversion gives: an outcome with a value of the destination, which is all of it without a container. -/
structure World.Brings (w : World) (id : Nat) (μ : Meaning) (κ : String → Option ClassRef) (plans : List Plan)
    (wrap : ClassRef → Value → List Value → Value) (p : Plan) (S : DottedName) (x q : Value) (t : Outcome) : Prop where
  gathers : Gathers w id μ κ plans p S x t
  isInstance : w.isInstance t.value (.declared (μ.dest p.dest))
  eq_hold : q = (μ.within κ p.dest).hold wrap t.value t.effects
  pure : κ p.dest = none → t.effects = []

theorem Scope.Tries.mono {as more : List Attempt} (h : s.Tries conv more τ) (hsub : ∀ a ∈ as, a ∈ more) :
    s.Tries conv as τ :=
  ⟨⟨h.own, h.calls, h.registry, fun a ha => h.types a (hsub a ha), h.container, fun a ha => h.variants a (hsub a ha)⟩,
    h.rejection, h.exhaustion⟩

namespace World

/-- What a nested conversion gives fits into the outer one, which takes its value and its effects from it. -/
theorem Brings.eq_of_splits {plans : List Plan} {t : Outcome} {home : Nat} {own : List String} {u : Value}
    (h : w.Brings id μ κ plans wrap p' S y q t)
    (hcontains : ∀ k, κ p'.dest = some k → w.Contains k (wrap k))
    (hfits : w.Fits wrap (μ.dest p'.dest) (κ p.dest) (κ p'.dest))
    (hv : (μ.within κ p.dest).Splits (w.frame home own depth) q u es) : t.value = u ∧ t.effects = es := by
  obtain rfl := h.eq_hold
  cases hk : κ p.dest with
  | none =>
    obtain hk' : κ p'.dest = none := by rwa [hk] at hfits
    simp only [Sense.Splits, Sense.hold, Meaning.within, hk, hk', Option.map_none] at hv
    exact ⟨hv.1.symm, (h.pure hk').trans hv.2.symm⟩
  | some k =>
    rw [hk] at hfits
    cases hk' : κ p'.dest with
    | none =>
      rw [hk'] at hfits
      have hnot : ¬(w.frame home own depth).world.isInstance t.value k := hfits _ h.isInstance
      simp only [Sense.Splits, Sense.hold, Meaning.within, hk, hk', Option.map_none, Option.map_some] at hv
      rw [Scope.Yields, if_neg hnot] at hv
      exact ⟨hv.1.symm, (h.pure hk').trans hv.2.symm⟩
    | some k' =>
      rw [hk'] at hfits
      have hcontained : (w.frame home own depth).world.isInstance (wrap k' t.value t.effects) k := hfits _ _
      simp only [Sense.Splits, Sense.hold, Meaning.within, hk, hk', Option.map_some] at hv
      rw [Scope.Yields, if_pos hcontained] at hv
      obtain ⟨it, hunpack, hspread⟩ := hv
      obtain ⟨it', hunpack', hspread'⟩ := ((hcontains k' hk').laws home own depth).split t.value t.effects
      obtain ⟨rfl, rfl⟩ := Prod.mk.inj (Except.ok.inj (hunpack'.symm.trans hunpack))
      exact ⟨rfl, Except.ok.inj (hspread'.symm.trans hspread)⟩

end World

namespace Compiled.Runs

variable {source : String} {file doc : Option String} {own : List String} {type u : Value} {f : Field}
  (hc : compile source file doc = .ok c) (h : c.Runs w id μ κ wrap)
  (hnames : ∀ conv ∈ c.module.conversions, w.global id conv.name = .ok (.function (.conversion id conv)))
include hc h hnames

/-- Whatever is asked about a value of a source, if it is answered, is answered by the conversion from that. -/
theorem call_of_answer {call : Caller} (hp : p ∈ c.plans) (hS : μ.nearest? w p y = some S)
    (hq : w.answer call μ.registry r y (.cls (.declared (μ.dest p.dest))) none = .ok q) :
    ∃ conv ∈ c.module.conversions, conv.source = S ∧ conv.dest = p.dest ∧
      call (.function (.conversion id conv)) (.of [y]) = .ok q := by
  obtain ⟨conv, hconv, hsource, hdest, hinto⟩ := h.served.into_eq hc hnames hp hS call
  refine ⟨conv, hconv, hsource, hdest, ?_⟩
  cases r with
  | into => exact hinto.symm.trans hq
  | tryInto =>
    have hnone : (w.registry μ.registry).lookup (w.chain y.classOf) (.cls (.declared (μ.dest p.dest))) true = none :=
      List.findSome?_eq_none_iff.mpr fun a _ => h.infallible p hp a
    simp only [World.answer, World.tryInto, World.lookup, World.requireKey, Value.unhashable?, hnone, hinto, bind,
      Except.bind, pure, Except.pure] at hq
    cases hcall : call (.function (.conversion id conv)) (.of [y]) with
    | error e =>
      rw [hcall] at hq
      cases hq
    | ok q' =>
      rw [hcall] at hq
      exact hq

omit hnames in
/-- What a conversion gives is made of what the fields of a candidate are converted to. -/
theorem exists_composes (hsep : c.Separate) (hconv : conv ∈ c.module.conversions) (hp : p ∈ c.plans)
    (hdest : p.dest = conv.dest)
    (hq : w.callWithin (depth + 1) (.function (.conversion id conv)) (.of [x]) = .ok q) :
    ∃ byCase C L cand, p.table.get? conv.source = some byCase ∧ byCase.get? C = some L ∧ cand ∈ L ∧
      Attempt.ofTarget conv.dest cand.target ∈ conv.attempts ∧ w.isInstance x (μ.case conv.source C) ∧
        (μ.within κ conv.dest).Composes (w.frame id conv.ownNames depth) wrap x
          (Attempt.ofTarget conv.dest cand.target) cand.target.fields q := by
  have hknows := h.known.knows conv hconv
  have hshown := h.known.shown conv hconv
  have htest : (w.frame id conv.ownNames depth).name ⟨[(Conversion.parameter, x)]⟩ "isinstance" =
      .ok (.function (.builtin .classTest)) :=
    (Scope.name_of_foreign (common_notMem_ownNames hc hconv (by simp))).trans hknows.tests
  have hcases (arm : Arm) (harm : arm ∈ conv.arms) : (w.frame id conv.ownNames depth).path
      ⟨[(Conversion.parameter, x)]⟩ (conv.source.child arm.case) = .ok (.cls (μ.case conv.source arm.case)) :=
    (Scope.path_of_foreign (hshown _ (List.mem_append_right _ List.mem_cons_self))).trans (hknows.cases arm harm)
  rw [World.callWithin_eq rfl] at hq
  obtain ⟨arm, harm, hcase, hrun⟩ := Conversion.exists_arm_of_eval htest rfl (fun _ => rfl) hcases hq
  obtain ⟨p', hp', byCase, L, hdest', hS, hC, hcontainer, hb, hn⟩ := exists_candidates hc hconv harm
  obtain rfl : p' = p := eq_plan hc hp hp' (hdest'.trans hdest.symm)
  have htries : (w.frame id conv.ownNames depth).Tries conv arm.body.attempts (μ.within κ conv.dest) :=
    (h.known.tries hc hconv depth).mono fun a ha => Conversion.mem_attempts harm ha
  have hcontained : (μ.within κ conv.dest).Contained (w.frame id conv.ownNames depth) wrap := by
    intro y hy
    obtain ⟨k, hk, rfl⟩ := Option.map_eq_some_iff.mp hy
    exact ⟨k, rfl, (h.contains p' hp k (hdest ▸ hk)).laws id conv.ownNames depth⟩
  have hspaced : conv.container.isSome → L.length = 1 ∨ ∀ cand ∈ L, cand.target.body.Separate := fun hk =>
    hsep p' hp (hcontainer ▸ hk) _ (Table.mem_entries_of_get? hS) _ (Table.mem_entries_of_get? hC)
  obtain ⟨cand, hcand, hcomposes⟩ := htries.exists_composes_of_run harm hb hn rfl hrun hcontained
    (fun k => Scope.lifts_of_answer rfl _ _) hspaced
  exact ⟨byCase, arm.case, L, cand, hS, hC, hcand, Conversion.mem_attempts harm (ArmBody.mem_attempts hb hcand), hcase,
    hcomposes⟩

section Depth

variable (ih : ∀ conv ∈ c.module.conversions, ∀ p ∈ c.plans, p.dest = conv.dest → ∀ x q,
  w.callWithin depth (.function (.conversion id conv)) (.of [x]) = .ok q →
    ∃ t, w.Brings id μ κ c.plans wrap p conv.source x q t)
include ih

/-- What is taken for a field is what comes of it. -/
theorem exists_field
    (hfits : ∀ p' ∈ c.plans, type = .cls (.declared (μ.dest p'.dest)) →
      w.Fits wrap (μ.dest p'.dest) (κ p.dest) (κ p'.dest))
    (hq : w.answer (w.callWithin depth) μ.registry r y type none = .ok q)
    (hv : (μ.within κ p.dest).Splits (w.frame id own depth) q u es) :
    ∃ t, GathersField w id μ κ c.plans p type y t ∧ t.value = u ∧ t.effects = es := by
  by_cases hnested : ∃ p' ∈ c.plans, type = .cls (.declared (μ.dest p'.dest)) ∧ ∃ S, μ.nearest? w p' y = some S
  · obtain ⟨p', hp', rfl, S, hS⟩ := hnested
    obtain ⟨conv, hconv, hsource, hdest, hcall⟩ := h.call_of_answer hc hnames hp' hS hq
    obtain ⟨t, ht⟩ := ih conv hconv p' hp' hdest.symm y q hcall
    exact ⟨t, .nested hp' hS (hsource ▸ ht.gathers) ht.isInstance,
      ht.eq_of_splits (h.contains p' hp') (hfits p' hp' rfl) hv⟩
  · refine ⟨.leaf u es, .leaf (fun p' hp' htype => ?_) hq hv, rfl, Outcome.effects_leaf _ _⟩
    by_contra hne
    obtain ⟨S, hS⟩ := Option.ne_none_iff_exists'.mp hne
    exact hnested ⟨p', hp', htype, S, hS⟩

theorem exists_fields {fs : List Field} {ps : List (Value × List Value)}
    (hfits : ∀ f ∈ fs, ∀ p' ∈ c.plans, μ.type f.type = .cls (.declared (μ.dest p'.dest)) →
      w.Fits wrap (μ.dest p'.dest) (κ p.dest) (κ p'.dest))
    (hps : List.Forall₂ ((μ.within κ p.dest).Converts (w.frame id own depth) x r) fs ps) :
    ∃ ts, GathersFields w id μ κ c.plans p x fs ts ∧ ts.map Outcome.value = ps.map Prod.fst ∧
      ts.map Outcome.effects = ps.map Prod.snd := by
  induction hps with
  | nil => exact ⟨[], .nil, rfl, rfl⟩
  | @cons f e fs ps hf _ ihs =>
    obtain ⟨y, q, hy, hq, hv⟩ := hf
    obtain ⟨t, ht, hvalue, heffects⟩ := h.exists_field hc hnames ih (hfits f List.mem_cons_self) hq hv
    obtain ⟨ts, hts, hvalues, hes⟩ := ihs fun f hf => hfits f (List.mem_cons_of_mem _ hf)
    exact ⟨t :: ts, .cons hy ht hts, by rw [List.map_cons, List.map_cons, hvalue, hvalues],
      by rw [List.map_cons, List.map_cons, heffects, hes]⟩

variable (hsep : c.Separate)
  (hfits : ∀ p ∈ c.plans, ∀ p' ∈ c.plans, μ.Nests p p' → w.Fits wrap (μ.dest p'.dest) (κ p.dest) (κ p'.dest))
include hsep hfits

/-- A call one level deeper gives a variant made of what comes of its fields, with all of their effects. -/
theorem brings_of_callWithin_succ (hconv : conv ∈ c.module.conversions) (hp : p ∈ c.plans) (hdest : p.dest = conv.dest)
    (hq : w.callWithin (depth + 1) (.function (.conversion id conv)) (.of [x]) = .ok q) :
    ∃ t, w.Brings id μ κ c.plans wrap p conv.source x q t := by
  obtain ⟨byCase, C, L, cand, hS, hC, hcand, hattempt, hcase, r, ps, hps, u, hconstruct, rfl⟩ :=
    h.exists_composes hc hsep hconv hp hdest hq
  have hlen : (ps.map Prod.fst).length = (Attempt.ofTarget conv.dest cand.target).steps.length := by
    simpa [Attempt.ofTarget] using hps.length_eq.symm
  obtain rfl := h.builds conv hconv _ hattempt _ u hlen hconstruct
  rw [← hdest] at hps
  obtain ⟨ts, hts, hvalues, heffects⟩ := h.exists_fields hc hnames ih (fun f hf p' hp' htype => hfits p hp p' hp'
    ⟨_, Table.mem_entries_of_get? hS, _, Table.mem_entries_of_get? hC, cand, hcand, f, hf, htype⟩) hps
  refine ⟨_, .node hp hS hC hcand hcase hts, ?_, ?_, fun hk => ?_⟩
  · rw [Outcome.value_node, hdest]
    exact h.below conv hconv _ hattempt
  · rw [Outcome.value_node, Outcome.effects_node, hvalues, heffects, hdest, attrs_ofTarget]
    rfl
  · rw [Outcome.effects_node, heffects, List.flatten_eq_nil_iff]
    intro es hes
    obtain ⟨e, he, rfl⟩ := List.mem_map.mp hes
    obtain ⟨f, _, y, q, _, _, hsplit⟩ := exists_left_of_forall₂ hps he
    simp only [Sense.Splits, Meaning.within, hk, Option.map_none] at hsplit
    exact hsplit.2

end Depth

/-- Whatever a conversion gives, it gives an outcome. -/
theorem brings_of_callWithin (hsep : c.Separate)
    (hfits : ∀ p ∈ c.plans, ∀ p' ∈ c.plans, μ.Nests p p' → w.Fits wrap (μ.dest p'.dest) (κ p.dest) (κ p'.dest))
    (depth : Nat) : ∀ conv ∈ c.module.conversions, ∀ p ∈ c.plans, p.dest = conv.dest → ∀ x q,
      w.callWithin depth (.function (.conversion id conv)) (.of [x]) = .ok q →
        ∃ t, w.Brings id μ κ c.plans wrap p conv.source x q t := by
  induction depth with
  | zero =>
    intro conv _ p _ _ x q hq
    cases hq
  | succ depth ih =>
    intro conv hconv p hp hdest x q hq
    exact h.brings_of_callWithin_succ hc hnames ih hsep hfits hconv hp hdest hq

end Compiled.Runs

/-- In a module that was loaded, let no dispatcher take the name of a conversion, let the names in the module mean what
they should, and for destinations let the registry hold nothing but the conversions of the module. Let what the
conversion to a destination gives fit in where a conversion to another one puts it: in a container of that, if that has
one, or in none. Whatever a conversion gives is then made of a value of its destination, in which at any depth each field
that is typed with a destination has an instance of that for a value of one of its sources, with all effects of that
conversion among its own. -/
theorem World.gathered_of_load {r : LoadRequest} (h : w.load r = (w', .ok id)) :
    ∃ c, compile r.source r.file r.docstring = .ok c ∧
      ((∀ conv ∈ c.module.conversions, c.module.keeps conv) → c.Separate →
        ∀ v μ κ wrap, v.Alike w' id → c.Runs v id μ κ wrap →
          (∀ p ∈ c.plans, ∀ p' ∈ c.plans, μ.Nests p p' → v.Fits wrap (μ.dest p'.dest) (κ p.dest) (κ p'.dest)) →
            ∀ p ∈ c.plans, c.Always v id μ p fun S x q => ∃ t, v.Brings id μ κ c.plans wrap p S x q t) := by
  obtain ⟨c, hc, hholds⟩ := holds_of_load h
  have ho := Compiled.orderly hc
  refine ⟨c, hc, fun hkeeps hsep v μ κ wrap hv hruns hfits p hp => ?_⟩
  have hnames : ∀ conv ∈ c.module.conversions, v.global id conv.name = .ok (.function (.conversion id conv)) :=
    fun conv hconv => hholds.global_conversion_eq ho hv hconv (hkeeps conv hconv)
  exact Compiled.always_of_callWithin hc hruns.resolved hnames hholds hv hruns.served hp
    fun conv hconv hdest depth => hruns.brings_of_callWithin hc hnames hsep hfits depth conv hconv p hp hdest.symm

/-- A union of pairs, of which one field is a value of another union, with destinations for both, each with the container
that is named for it. -/
def stacked (inner outer : Option String) : Schema where
  imports := []
  unions := [oneVariant "SrcInner" 1 "B" [("n", .ofName "int")] [],
    oneVariant "Src" 2 "Pair" [("inner", .ofName "SrcInner"), ("label", .ofName "str")] [],
    oneVariant "DestInner" 3 "B" [("n", .ofName "int")] [fromOne "SrcInner" inner 3],
    oneVariant "Dest" 5 "Pair" [("label", .ofName "str"), ("inner", .ofName "DestInner")] [fromOne "Src" outer 5]]

def stackedPlans (inner outer : Option String) : List Plan :=
  (stacked inner outer).destinations.map (Plan.described · none)

def stackedModule (inner outer : Option String) : Module :=
  Module.ofPlans (stacked inner outer) (stackedPlans inner outer) none none

/-- A class of containers besides the library's own. -/
def Carrier.logged : Carrier := .written ⟨"Logged", true, [], []⟩

/-- The request to load its text. -/
def stackedRequest (inner outer : Option String) : LoadRequest where
  name := "m"
  source :=
    let option (container : Option String) := container.elim "" fun d => ", effect_container = " ++ d
    "union SrcInner \x7b B \x7b n: int \x7d \x7d\nunion Src \x7b Pair \x7b inner: SrcInner, label: str \x7d \x7d\n" ++
      "@from_union(SrcInner" ++ option inner ++ ")\nunion DestInner \x7b B \x7b n: int \x7d \x7d\n" ++
      "@from_union(Src" ++ option outer ++ ")\nunion Dest \x7b Pair \x7b label: str, inner: DestInner \x7d \x7d\n"
  names := [("Effectful", .cls (.builtin (.carrier .effectful))), ("Logged", .cls (.builtin (.carrier .logged)))]
  registry := none
  register := false
  file := none
  docstring := none

def stackedOutcome (inner outer : Option String) : World × Except Failure Nat :=
  Library.world.executeNew (stackedRequest inner outer) (stackedModule inner outer) ⟨some Module.defaultDocstring, []⟩

def stackedMeaning : Meaning where
  registry := "default"
  container := .builtin .withEffects
  type d :=
    if d = .ofName "int" then .cls (.builtin .int)
    else if d = .ofName "str" then .cls (.builtin .str) else .cls (.declared 4)
  source S := if S = .ofName "SrcInner" then .declared 0 else .declared 2
  dest name := if name = "DestInner" then 4 else 6
  case S _ := if S = .ofName "SrcInner" then .declared 1 else .declared 3
  variant dest _ := if dest = "DestInner" then 5 else 7

def stackedValue : Value := .record 3 [("inner", .record 1 [("n", .int 3)]), ("label", .text "x")]

/-- The world in which only the outer destination has a container, with a converter for its labels. -/
def stackedWorld : World :=
  (stackedOutcome none (some "Effectful")).1.register "default" (.ofClasses (.builtin .str) (.builtin .str))
    (.custom "label" (.constant (.carrier .effectful (.text "x") [.text "label"])))

def stackedContainer (dest : String) : Option ClassRef :=
  if dest = "Dest" then some (.builtin (.carrier .effectful)) else none

theorem Registry.get?_eq_none_of_fallible {r : Registry} {k : ConverterKey}
    (h : ∀ e ∈ r.entries, e.1.fallible ≠ k.fallible) : r.get? k = none := by
  simp only [Registry.get?, Option.map_eq_none_iff, List.find?_eq_none]
  intro e he hsame
  simp only [ConverterKey.same, Bool.and_eq_true, decide_eq_true_eq] at hsame
  exact h e he hsame.2

/-- Where no declared class is below a built-in one, no value of a union is an instance of that. -/
theorem World.not_isInstance_builtin {b : Builtin} {union : Nat} (hb : ∀ c ∈ w.classes, ClassRef.builtin b ∉ c.chain)
    (h : w.isInstance x (.declared union)) : ¬w.isInstance x (.builtin b) := by
  simp only [isInstance, isSubclass] at h ⊢
  cases hx : x.classOf with
  | builtin b' =>
    rw [hx] at h
    simp [chain] at h
  | declared k =>
    rw [chain, class?]
    cases hk : w.classes[k]? with
    | none => simp
    | some cls => simpa using hb cls (List.mem_of_getElem? hk)

set_option synthInstance.maxSize 1000 in
/-- A nested destination without a container has its value in the field, and the other field's effects are those of the
result. -/
theorem World.gathered_of_load_plain :
    ∃ w conv p t, Library.world.load (stackedRequest none (some "Effectful")) = (w, .ok 0) ∧ stackedWorld.Alike w 0 ∧
      conv ∈ (stackedModule none (some "Effectful")).conversions ∧ conv.source = .ofName "Src" ∧ conv.dest = "Dest" ∧
      p.dest = "Dest" ∧
      Gathers stackedWorld 0 stackedMeaning stackedContainer (stackedPlans none (some "Effectful")) p (.ofName "Src")
        stackedValue t ∧
      stackedWorld.callWithin 2 (.function (.conversion 0 conv)) (.of [stackedValue]) =
        .ok (.carrier .effectful t.value t.effects) ∧
      t.effects.filterMap Value.asText? = ["label"] := by
  let m := stackedModule none (some "Effectful")
  let out := stackedOutcome none (some "Effectful")
  let μ := stackedMeaning
  have hcompile : compile (stackedRequest none (some "Effectful")).source none none =
      .ok ⟨stacked none (some "Effectful"), stackedPlans none (some "Effectful"), m⟩ :=
    compile_of_lettered (by repeat first | apply Lettered.append | exact Lettered.literal)
      (by decide +kernel) (by decide +kernel) (by decide +kernel)
  have hfacts : out.2.toOption = some 0 ∧ m.Located out.1 0 μ.source μ.dest ∧ out.1.Supplies 0 "default" ∧
      stackedWorld.Supplies 0 "default" ∧ m.Reserves out.1 μ ∧
      (∀ conv ∈ m.conversions, conv.Finds stackedWorld 0 (μ.within stackedContainer conv.dest) (μ.case conv.source)) ∧
      (∀ conv ∈ m.conversions, ∀ a ∈ conv.attempts, a.Fills stackedWorld (μ.variant conv.dest a.case) ∧
        stackedWorld.isSubclass (.declared (μ.variant conv.dest a.case)) (.declared (μ.dest conv.dest))) ∧
      (∀ e ∈ (stackedWorld.registry "default").entries, e.1.fallible ≠ true) ∧
      (∀ conv ∈ m.conversions, m.keeps conv) ∧
      (∀ p ∈ stackedPlans none (some "Effectful"), ∀ e ∈ p.table.entries, ∀ e' ∈ e.2.entries, ∀ cand ∈ e'.2,
        ∀ f ∈ cand.target.fields, ∀ p' ∈ stackedPlans none (some "Effectful"),
          (μ.type f.type).reference? = some (.inl (.declared (μ.dest p'.dest))) →
            p.dest = "Dest" ∧ p'.dest = "DestInner") ∧
      (∀ c ∈ stackedWorld.classes, ClassRef.builtin (.carrier .effectful) ∉ c.chain) ∧
      ∃ p ∈ stackedPlans none (some "Effectful"), p.dest = "Dest" ∧ .ofName "Src" ∈ p.table.keys ∧
        ∃ conv ∈ m.conversions, conv.source = .ofName "Src" ∧ conv.dest = "Dest" ∧
          ((stackedWorld.callWithin 2 (.function (.conversion 0 conv)) (.of [stackedValue])).toOption.any fun q =>
            q.effectful?.any fun r => r.2.filterMap Value.asText? = ["label"]) := by decide +kernel
  obtain ⟨hout, hlocated, hsupplied, hsupplies, hreserves, hfinds, hattempts, hinfallible, hk, hnests, hbelow, p, hp, hdest, hS,
    conv, hconv, hsource, hconvdest, hcall⟩ := hfacts
  have hload : Library.world.load (stackedRequest none (some "Effectful")) = (out.1, .ok 0) :=
    load_eq hcompile (LoadRequest.preamble_default rfl rfl (by decide +kernel) (by decide +kernel)) rfl rfl hout
  have hresolved : m.Resolved out.1 0 μ.source μ.dest := hlocated.resolved
  have halike : stackedWorld.Alike out.1 0 := Alike.register _ _ _ _ _
  obtain ⟨c, hc, hholds⟩ := holds_of_load hload
  obtain rfl := Except.ok.inj (hcompile.symm.trans hc)
  have ho := Compiled.orderly hcompile
  have hserved : m.Served out.1 0 μ := .of_holds hholds ho hresolved hsupplied.global_registry hreserves
  have hruns : (⟨stacked none (some "Effectful"), stackedPlans none (some "Effectful"), m⟩ : Compiled).Runs stackedWorld 0
      μ stackedContainer (fun _ => .carrier .effectful) := {
    resolved := hresolved.of_alike halike
    known := .of_finds hfinds (fun _ _ => hsupplies) (hresolved.of_alike halike).tests
    builds conv hconv a ha := (hattempts conv hconv a ha).1.builds
    below conv hconv a ha := (hattempts conv hconv a ha).2
    served := hserved.register (by decide +kernel) ho _
    infallible p hp a := Registry.get?_eq_none_of_fallible hinfallible
    contains p hp k hk := by
      obtain rfl : k = .builtin (.carrier .effectful) := by
        simp only [stackedContainer] at hk
        split at hk
        · exact (Option.some.inj hk).symm
        · cases hk
      exact contains_effectful _ }
  have hfits : ∀ p ∈ stackedPlans none (some "Effectful"), ∀ p' ∈ stackedPlans none (some "Effectful"), μ.Nests p p' →
      stackedWorld.Fits (fun _ => .carrier .effectful) (μ.dest p'.dest) (stackedContainer p.dest)
        (stackedContainer p'.dest) := by
    rintro p hp p' hp' ⟨e, he, e', he', cand, hcand, f, hf, htype⟩
    obtain ⟨houter, hinner⟩ := hnests p hp e he e' he' cand hcand f hf p' hp' (by rw [htype]; rfl)
    rw [houter, hinner]
    exact fun x hx => not_isInstance_builtin hbelow hx
  obtain ⟨c, hc, hall⟩ := gathered_of_load hload
  obtain rfl := Except.ok.inj (hcompile.symm.trans hc)
  obtain ⟨hways, _⟩ := hall hk (by decide +kernel) stackedWorld μ stackedContainer _ halike hruns hfits p hp
  obtain ⟨conv', hconv', hsource', hdest', _, hbrings⟩ := hways _ hS
  obtain rfl : conv' = conv :=
    List.inj_on_of_nodup_map ho.pairs hconv' hconv (by rw [hsource', hdest', hsource, hconvdest, hdest])
  obtain ⟨q, hq, hcontained⟩ := exists_of_any_toOption hcall
  obtain ⟨t, ht⟩ := hbrings 2 _ q hq
  have heq : q = .carrier .effectful t.value t.effects := by
    have hhold := ht.eq_hold
    rwa [Sense.hold, Meaning.within, hdest] at hhold
  subst heq
  obtain ⟨_, _, hsame, hnotes⟩ := Value.exists_of_any_effectful? hcontained
  obtain ⟨rfl, rfl⟩ := (Value.carrier.injEq .. ▸ hsame).2
  exact ⟨_, conv', p, t, hload, halike, hconv, hsource, hconvdest, hdest, ht.gathers, hq, of_decide_eq_true hnotes⟩

/-- The world in which the destinations have different containers, with a converter for numbers. -/
def mixedWorld : World :=
  (stackedOutcome (some "Logged") (some "Effectful")).1.register "default" (.ofClasses (.builtin .int) (.builtin .int))
    (.custom "number" (.constant (.carrier .logged (.int 3) [.text "number"])))

/-- A container of another kind than the outer one is taken for the value of the field, and its effects are lost. -/
theorem World.gathered_of_load_mixed :
    ∃ w conv v y, Library.world.load (stackedRequest (some "Logged") (some "Effectful")) = (w, .ok 0) ∧
      mixedWorld.Alike w 0 ∧ mixedWorld.global 0 "DestInner" = .ok (.cls (.declared 4)) ∧
      conv ∈ (stackedModule (some "Logged") (some "Effectful")).conversions ∧ conv.source = .ofName "Src" ∧
      conv.dest = "Dest" ∧
      mixedWorld.callWithin 3 (.function (.conversion 0 conv)) (.of [stackedValue]) = .ok (.carrier .effectful v []) ∧
      mixedWorld.member v "inner" = .ok y ∧ mixedWorld.isInstance y (.builtin (.carrier .logged)) ∧
      ¬mixedWorld.isInstance y (.declared 4) := by
  have hcompile : compile (stackedRequest (some "Logged") (some "Effectful")).source none none =
      .ok ⟨stacked (some "Logged") (some "Effectful"), stackedPlans (some "Logged") (some "Effectful"),
        stackedModule (some "Logged") (some "Effectful")⟩ :=
    compile_of_lettered (by repeat first | apply Lettered.append | exact Lettered.literal)
      (by decide +kernel) (by decide +kernel) (by decide +kernel)
  have hfacts : (stackedOutcome (some "Logged") (some "Effectful")).2.toOption = some 0 ∧
      (mixedWorld.global 0 "DestInner").toOption.bind Value.reference? = some (.inl (.declared 4)) ∧
      ∃ conv ∈ (stackedModule (some "Logged") (some "Effectful")).conversions,
        conv.source = .ofName "Src" ∧ conv.dest = "Dest" ∧
        (mixedWorld.callWithin 3 (.function (.conversion 0 conv)) (.of [stackedValue])).toOption.any fun q =>
          q.effectful?.any fun r => r.2.isEmpty && (mixedWorld.member r.1 "inner").toOption.any fun y =>
            mixedWorld.isInstance y (.builtin (.carrier .logged)) && !mixedWorld.isInstance y (.declared 4) := by
    decide +kernel
  obtain ⟨hout, hinner, conv, hconv, hsource, hdest, hcall⟩ := hfacts
  have hload : Library.world.load (stackedRequest (some "Logged") (some "Effectful")) =
      ((stackedOutcome (some "Logged") (some "Effectful")).1, .ok 0) :=
    load_eq hcompile (LoadRequest.preamble_default rfl rfl (by decide +kernel) (by decide +kernel)) rfl rfl hout
  obtain ⟨q, hq, hcontained⟩ := exists_of_any_toOption hcall
  obtain ⟨v, es, rfl, hlost⟩ := Value.exists_of_any_effectful? hcontained
  rw [Bool.and_eq_true] at hlost
  obtain ⟨hempty, hfield⟩ := hlost
  obtain rfl : es = [] := List.isEmpty_iff.mp hempty
  obtain ⟨y, hy, hkinds⟩ := exists_of_any_toOption hfield
  simp only [Bool.and_eq_true, Bool.not_eq_true'] at hkinds
  exact ⟨_, conv, v, y, hload, Alike.register _ _ _ _ _, Value.eq_ok_of_reference? hinner rfl, hconv, hsource, hdest, hq,
    hy, hkinds.1, by simp [hkinds.2]⟩

end UnionBridge
