import UnionBridge.Proofs.Execution.Converters
import UnionBridge.Proofs.Execution.Effects
import UnionBridge.Proofs.Execution.Explained

/-! How failures travel: from the field whose conversion fails through the functions around it, to the attempt that takes
it as its own or to the outermost caller. -/
namespace UnionBridge

open UnionBridge.Action

variable {w : World} {id depth : Nat} {m : Module} {conv conv' : Conversion} {arm : Arm} {σ : Sense}
  {γ : String → ClassRef} {x y target f : Value} {call : Caller} {r : Registry} {e : Failure} {l : Locals}
  {L : List Candidate} {c : Compiled}

/-! ### Attempts and failures -/

/-- Failures that mean that a value does not fit: rejections, and errors about values. -/
def Failure.isMisfit : Failure → Bool
  | .error kind _ => kind.meansMisfit
  | .rejected .. => true
  | .exhausted .. => false

theorem Failure.not_isMisfit_of_isExhaustion (h : e.isExhaustion) : ¬e.isMisfit := by
  cases e <;> simp_all [isExhaustion, isMisfit]

theorem Failure.not_isRejection_of_isExhaustion (h : e.isExhaustion) : ¬e.isRejection := by
  cases e <;> simp_all [isExhaustion, isRejection]

/-- What an attempt makes of a value, before it reports a failure as its own. -/
def World.attempted (w : World) (call : Caller) (r : Registry) (v target : Value) : Except Failure Value := do
  match ← w.lookup r v.classOf target true with
  | some c => c.run w call v
  | none => w.into call r v target

/-- A failure as an attempt reports it. Where the target cannot be part of a key, the attempt does not even begin. -/
def World.reported (w : World) (v target : Value) (e : Failure) : Failure :=
  if target.unhashable?.isNone then w.asRejection v target e else e

/-- A misfit is reported as a rejection: the target can be part of a key, and the rejection can be written. -/
def Failure.Reportable (e : Failure) (v target : Value) : Prop :=
  target.unhashable? = none ∧ (e.isRejection ∨ ¬v.hasLongInt ∧ ¬target.hasLongInt)

namespace World

theorem tryInto_eq_error (h : w.attempted call r y target = .error e) :
    w.tryInto call r y target = .error (w.reported y target e) := by
  rw [attempted] at h
  rw [tryInto, reported]
  cases hkey : target.unhashable? with
  | some name =>
    simp only [lookup, requireKey, hkey, bind, Except.bind, Failure.typeError] at h ⊢
    rw [h]
    rfl
  | none =>
    simp only [lookup, requireKey, hkey, bind, Except.bind, pure, Except.pure] at h ⊢
    cases hfound : r.lookup (w.chain y.classOf) target true with
    | none =>
      simp only [hfound] at h
      simp only [h]
      rfl
    | some c =>
      simp only [hfound] at h
      simp only [h]
      rfl

theorem reported_eq (h : ¬e.isMisfit) : w.reported y target e = e := by
  rw [reported]
  split
  · cases e <;> simp_all [asRejection, Failure.isMisfit]
  · rfl

theorem isRejection_reported (he : e.isMisfit) (h : e.Reportable y target) : (w.reported y target e).isRejection := by
  obtain ⟨hkey, hshort⟩ := h
  rw [reported, hkey]
  cases e with
  | error kind message =>
    have hkind : kind.meansMisfit := he
    obtain ⟨hy, ht⟩ := hshort.resolve_left (by simp [Failure.isRejection])
    simp [asRejection, hkind, Failure.rejection, hy, ht, Failure.isRejection]
  | rejected => rfl
  | exhausted => cases he

/-- What cannot be reported as a rejection is none. -/
theorem not_isRejection_reported (h : w.attempted call r y target = .error e) (hn : ¬e.Reportable y target) :
    ¬(w.reported y target e).isRejection := by
  rw [reported]
  cases hkey : target.unhashable? with
  | some name =>
    simp only [attempted, lookup, requireKey, hkey, bind, Except.bind, Failure.typeError] at h
    obtain rfl := Except.error.inj h
    simp [Failure.isRejection]
  | none =>
    have hlong : ¬e.isRejection ∧ (y.hasLongInt ∨ target.hasLongInt) := by
      simp only [Failure.Reportable, hkey, true_and] at hn
      tauto
    cases e with
    | error kind message =>
      have hlong := hlong.2
      simp only [Option.isNone_none, if_true, asRejection]
      split <;> simp [Failure.rejection, hlong, Failure.tooLong, Failure.isRejection]
    | rejected => exact absurd rfl hlong.1
    | exhausted => simp [asRejection, Failure.isRejection]

end World

/-! ### Functions on the way -/

/-- An attempt in a function that has several candidates for a case: those that have rejected the value, the one that is
being tried, and those that are left. -/
structure Trial where
  case : String
  earlier : List Candidate
  candidate : Candidate
  rest : List Candidate

/-- All attempts of the case. -/
def Trial.attempts (t : Trial) (dest : String) : List Attempt :=
  (t.earlier ++ t.candidate :: t.rest).map fun c => Attempt.ofTarget dest c.target

/-- A function at work: within how many calls and on what value it was called, and which value it is about to convert to
which type, with its only candidate or in an attempt. -/
structure Stage where
  depth : Nat
  conv : Conversion
  source : Value
  value : Value
  target : Value
  trial? : Option Trial

namespace Stage

/-- What becomes of the value, before an attempt reports a failure as its own. -/
def outcome (g : Stage) (w : World) (call : Caller) (r : Registry) : Except Failure Value :=
  match g.trial? with
  | none => w.into call r g.value g.target
  | some _ => w.attempted call r g.value g.target

/-- What the function gives in the end. -/
def result (g : Stage) (w : World) (id : Nat) : Except Failure Value :=
  w.callWithin (g.depth + 1) (.function (.conversion id g.conv)) (.of [g.source])

/-- Where the body of the function looks names up. -/
def scope (g : Stage) (w : World) (id : Nat) : Scope := w.frame id g.conv.ownNames g.depth

/-- The registry hands the value to a function, and no converter that may fail is in the way. -/
def Hands (g : Stage) (w : World) (r : Registry) (f : Value) : Prop :=
  w.lookup r g.value.classOf g.target false = .ok (some (.callable f)) ∧
    (g.trial?.isSome → w.lookup r g.value.classOf g.target true = .ok none)

theorem Hands.outcome_eq {g : Stage} (h : g.Hands w r f) : g.outcome w call r = call f (.of [g.value]) := by
  obtain ⟨hfound, hnone⟩ := h
  have hinto : w.into call r g.value g.target = call f (.of [g.value]) := by
    rw [World.into, hfound]
    rfl
  rw [outcome]
  cases ht : g.trial? with
  | none => exact hinto
  | some t =>
    simp only [World.attempted, hnone (by simp [ht]), hinto]
    rfl

end Stage

namespace Conversion

/-- The first arm whose case a value is of. -/
def Enters (conv : Conversion) (w : World) (γ : String → ClassRef) (x : Value) (arm : Arm) : Prop :=
  ∃ before after, conv.arms = before ++ arm :: after ∧ (∀ b ∈ before, ¬w.isInstance x (γ b.case)) ∧
    w.isInstance x (γ arm.case)

theorem Enters.mem_arms (h : conv.Enters w γ x arm) : arm ∈ conv.arms := by
  obtain ⟨before, after, harms, _⟩ := h
  simp [harms]

end Conversion

/-- A function gets to a stage: that of a field, once the fields before it are converted and the candidates before it
have rejected the value. -/
inductive Stage.Reached (w : World) (id : Nat) (σ : Sense) (γ : String → ClassRef) (g : Stage) : Prop
  | sole {arm : Arm} {t : Target} {fs gs : List Field} {f : Field} (hg : g.trial? = none)
      (harm : g.conv.Enters w γ g.source arm) (hbody : arm.body = .direct (.ofTarget g.conv.dest t))
      (hfields : t.fields = fs ++ f :: gs) (hok : ∀ f ∈ fs, ∃ p, σ.taken (g.scope w id) g.source (.ofField f) = .ok p)
      (hvalue : w.member g.source f.attr = .ok g.value) (htarget : g.target = σ.type f.type)
  | tried {arm : Arm} {t : Trial} {fs gs : List Field} {f : Field} (hg : g.trial? = some t)
      (harm : g.conv.Enters w γ g.source arm) (hcase : t.case = arm.case)
      (hbody : arm.body = .firstFit (t.attempts g.conv.dest))
      (hearlier : firstFit (Candidate.convert σ (g.scope w id) g.source .tryInto) t.earlier = .ok none)
      (hfields : t.candidate.target.fields = fs ++ f :: gs)
      (hok : ∀ f ∈ fs, ∃ v, σ.reply (g.scope w id) g.source .tryInto f.attr f.type = .ok v)
      (hvalue : w.member g.source f.attr = .ok g.value) (htarget : g.target = σ.type f.type)

/-- Goes on with the attempts that are left. -/
def ArmBody.resume (conv : Conversion) (s : Scope) (case : String) (attempts rest : List Attempt) : Action Value := do
  match ← firstAccepted conv.container s rest with
  | some v => return v
  | none =>
    let error ← s.helper "ExhaustedCandidatesError"
    let v ← s.fetch Conversion.parameter
    s.raiseBy error [v, .text conv.dest, .text s!"{conv.source}.{case}", .tuple (attempts.map fun a => .text a.label)]

theorem ArmBody.run_firstFit (conv : Conversion) (s : Scope) (case : String) (attempts : List Attempt) :
    run conv s case (.firstFit attempts) = resume conv s case attempts attempts := rfl

/-- What the functions of a module mention means what it should, and no variable hides it. -/
structure Module.Known (m : Module) (w : World) (id : Nat) (σ : Conversion → Sense) (γ : Conversion → String → ClassRef) :
    Prop where
  knows : ∀ conv ∈ m.conversions, w.Knows id conv (σ conv) (γ conv)
  shown : ∀ conv ∈ m.conversions, ∀ d ∈ conv.container.toList ++ conv.paths, d.head ∉ conv.ownNames
  container : ∀ conv ∈ m.conversions,
    Option.Rel (fun d k => w.globalPath id d = .ok k) conv.container (σ conv).container

/-- Looking up the paths of a function finds what they should mean, and no variable hides it. This can be decided. -/
structure Conversion.Finds (conv : Conversion) (w : World) (home : Nat) (σ : Sense) (γ : String → ClassRef) : Prop where
  shown : ∀ d ∈ conv.container.toList ++ conv.paths, d.head ∉ conv.ownNames
  cases : ∀ arm ∈ conv.arms,
    (w.globalPath home (conv.source.child arm.case)).toOption.bind Value.reference? = some (.inl (γ arm.case))
  types : ∀ a ∈ conv.attempts, ∀ f ∈ a.steps,
    (w.globalPath home f.type).toOption.bind Value.reference? = (σ.type f.type).reference? ∧
      (σ.type f.type).reference?.isSome
  variants : ∀ a ∈ conv.attempts,
    (w.globalPath home a.constructor).toOption.bind Value.reference? = some (.inl (.declared (σ.variant a.case)))
  container : conv.container.map (fun d => (w.globalPath home d).toOption.bind Value.reference?) =
    σ.container.map Value.reference? ∧ ∀ k ∈ σ.container, k.reference?.isSome

instance {conv : Conversion} {w : World} {home : Nat} {σ : Sense} {γ : String → ClassRef} :
    Decidable (conv.Finds w home σ γ) :=
  decidable_of_iff (_ ∧ _ ∧ _ ∧ _ ∧ _)
    ⟨fun h => ⟨h.1, h.2.1, h.2.2.1, h.2.2.2.1, h.2.2.2.2⟩, fun h => ⟨h.1, h.2, h.3, h.4, h.5⟩⟩

theorem Module.Known.of_finds {σ : Conversion → Sense} {γ : Conversion → String → ClassRef}
    (h : ∀ conv ∈ m.conversions, conv.Finds w id (σ conv) (γ conv))
    (hs : ∀ conv ∈ m.conversions, w.Supplies id (σ conv).registry)
    (ht : w.global id "isinstance" = .ok (.function (.builtin .classTest))) : m.Known w id σ γ where
  knows conv hconv := {
    registry := (hs conv hconv).globalPath_registry
    tests := ht
    cases arm harm := Value.eq_ok_of_reference? ((h conv hconv).cases arm harm) rfl
    types a ha f hf := Value.eq_ok_of_reference? ((h conv hconv).types a ha f hf).1 ((h conv hconv).types a ha f hf).2
    variants a ha := Value.eq_ok_of_reference? ((h conv hconv).variants a ha) rfl
    rejection := (hs conv hconv).globalPath_rejection
    exhaustion := (hs conv hconv).globalPath_exhaustion }
  shown conv hconv := (h conv hconv).shown
  container conv hconv := by
    obtain ⟨heq, hsome⟩ := (h conv hconv).container
    cases hd : conv.container with
    | none =>
      rw [hd] at heq
      rw [Option.map_eq_none_iff.mp heq.symm]
      exact .none
    | some d =>
      rw [hd] at heq
      obtain ⟨k, hk, href⟩ := Option.map_eq_some_iff.mp heq.symm
      rw [hk]
      exact .some (Value.eq_ok_of_reference? href.symm (hsome k hk))

/-- Functions that have called each other for the values of fields, from the outermost to the innermost, of which the last
is at a field whose conversion fails. -/
inductive World.Raises (w : World) (id : Nat) (m : Module) (σ : Conversion → Sense)
    (γ : Conversion → String → ClassRef) : List Stage → Failure → Prop
  | here {g : Stage} {e : Failure} (hconv : g.conv ∈ m.conversions) (hr : g.Reached w id (σ g.conv) (γ g.conv))
      (he : g.outcome w (w.callWithin g.depth) (w.registry (σ g.conv).registry) = .error e) :
      World.Raises w id m σ γ [g] e
  | nested {g g' : Stage} {gs : List Stage} {e : Failure} (hconv : g.conv ∈ m.conversions)
      (hr : g.Reached w id (σ g.conv) (γ g.conv))
      (hg : g.Hands w (w.registry (σ g.conv).registry) (.function (.conversion id g'.conv)))
      (hsource : g'.source = g.value) (hdepth : g.depth = g'.depth + 1) (h : World.Raises w id m σ γ (g' :: gs) e) :
      World.Raises w id m σ γ (g :: g' :: gs) e

/-! ### One function -/

theorem optionRel_imp {α β : Type} {r r' : α → β → Prop} {a : Option α} {b : Option β} (h : Option.Rel r a b)
    (hr : ∀ x ∈ a, ∀ y, r x y → r' x y) : Option.Rel r' a b := by
  cases h with
  | some hxy => exact .some (hr _ rfl _ hxy)
  | none => exact .none

namespace Sense

variable {own : List String} {attr : String} {type : DottedName} {request : Request}

/-- What fails without a container fails with one. -/
theorem reply_eq_error (hy : w.member x attr = .ok y)
    (he : w.answer (w.callWithin depth) σ.registry request y (σ.type type) none = .error e) :
    σ.reply (w.frame id own depth) x request attr type = .error e := by
  change w.member x attr >>= _ = _
  rw [hy]
  change w.answer (w.callWithin depth) σ.registry request y (σ.type type) σ.container = .error e
  cases σ.container with
  | none => exact he
  | some k =>
    cases request with
    | into =>
      have hinto : w.into (w.callWithin depth) (w.registry σ.registry) y (σ.type type) = .error e := he
      simp only [World.answer, World.intoEffects, hinto]
      rfl
    | tryInto =>
      have htry : w.tryInto (w.callWithin depth) (w.registry σ.registry) y (σ.type type) = .error e := he
      simp only [World.answer, World.tryIntoEffects, htry]
      rfl

theorem taken_eq_error {s : Scope} {f : FieldStep} (h : σ.reply s x .into f.attr f.type = .error e) :
    σ.taken s x f = .error e := by
  rw [taken]
  cases σ.container with
  | none =>
    rw [h]
    rfl
  | some k =>
    rw [parts, h]
    rfl

end Sense

namespace Compiled

variable {source : String} {file doc : Option String} (hc : compile source file doc = .ok c)
include hc

theorem dest_of_mem_attempts {a : Attempt} (hconv : conv ∈ c.module.conversions) (ha : a ∈ conv.attempts) :
    a.dest = conv.dest := by
  obtain ⟨p, _, byCase, name, _, heq⟩ := conversion_cases hc hconv
  obtain ⟨arm, harm, ha⟩ := List.mem_flatMap.mp ha
  rw [heq] at harm ⊢
  obtain ⟨L, _, hbody⟩ := Conversion.mem_arms_ofCases.mp harm
  rw [hbody, ArmBody.attempts_ofCandidates] at ha
  obtain ⟨cand, _, rfl⟩ := List.mem_map.mp ha
  rfl

end Compiled

namespace Module.Known

variable {source : String} {file doc : Option String} {σ : Conversion → Sense} {γ : Conversion → String → ClassRef}
  {g : Stage} {t : Trial} (hc : compile source file doc = .ok c) (h : c.module.Known w id σ γ)
  (hconv : conv ∈ c.module.conversions)
include hc h hconv

theorem tries (depth : Nat) : (w.frame id conv.ownNames depth).Tries conv conv.attempts (σ conv) := by
  have hshown := h.shown conv hconv
  refine (h.knows conv hconv).tries (fun d hd => hshown d (List.mem_append_right _ hd))
    (fun name hname => Compiled.common_notMem_ownNames hc hconv (by simp at hname ⊢; tauto))
    (fun a ha => Compiled.dest_of_mem_attempts hc hconv ha) ?_
  refine optionRel_imp (h.container conv hconv) fun d hd k hpath l => ?_
  exact (Scope.path_of_foreign (hshown d (List.mem_append_left _ (Option.mem_toList.mpr hd)))).trans hpath

theorem callWithin_eq (harm : conv.Enters w (γ conv) x arm) :
    w.callWithin (depth + 1) (.function (.conversion id conv)) (.of [x]) =
      (eval (arm.body.run conv (w.frame id conv.ownNames depth) arm.case) ⟨[(Conversion.parameter, x)]⟩).1 := by
  have htest (a : Arm) (ha : a ∈ conv.arms) : eval ((w.frame id conv.ownNames depth).isInstance Conversion.parameter
      (conv.source.child a.case)) ⟨[(Conversion.parameter, x)]⟩ =
        (.ok (w.isInstance x (γ conv a.case)), ⟨[(Conversion.parameter, x)]⟩) :=
    (h.knows conv hconv).eval_isInstance ha rfl (h.shown conv hconv _ (List.mem_append_right _ List.mem_cons_self))
      (Compiled.common_notMem_ownNames hc hconv (by simp))
  obtain ⟨before, after, harms, hbefore, hinstance⟩ := harm
  have hfirst : ∀ b ∈ before, eval ((w.frame id conv.ownNames depth).isInstance Conversion.parameter
      (conv.source.child b.case)) ⟨[(Conversion.parameter, x)]⟩ = (.ok false, ⟨[(Conversion.parameter, x)]⟩) := by
    intro b hb
    rw [htest b (by simp [harms, hb])]
    simp [hbefore b hb]
  have hnext := htest arm (by simp [harms])
  rw [hinstance] at hnext
  rw [World.callWithin_eq rfl]
  change (eval (conv.runArms _ conv.arms) _).1 = _
  rw [harms, Conversion.eval_runArms_first hfirst hnext]

end Module.Known

namespace Module.Known

variable {source : String} {file doc : Option String} {σ : Conversion → Sense} {γ : Conversion → String → ClassRef}
  {g : Stage} {t : Trial} (hc : compile source file doc = .ok c) (h : c.module.Known w id σ γ)
  (hconv : g.conv ∈ c.module.conversions) (hr : g.Reached w id (σ g.conv) (γ g.conv))
include hc h hconv hr

/-- With a single candidate, the failure of a field is the failure of the function. -/
theorem result_sole (hg : g.trial? = none)
    (he : g.outcome w (w.callWithin g.depth) (w.registry (σ g.conv).registry) = .error e) :
    g.result w id = .error e := by
  cases hr with
  | tried ht => cases hg.symm.trans ht
  | @sole arm t fs gs f _ harm hbody hfields hok hvalue htarget =>
    have hmem : Attempt.ofTarget g.conv.dest t ∈ g.conv.attempts :=
      Conversion.mem_attempts harm.mem_arms (by simp [hbody, ArmBody.attempts])
    have hfails : (σ g.conv).taken (g.scope w id) g.source (.ofField f) = .error e := by
      rw [Stage.outcome, hg, htarget] at he
      exact Sense.taken_eq_error (Sense.reply_eq_error hvalue he)
    have hsteps : (Attempt.ofTarget g.conv.dest t).steps.mapM ((σ g.conv).taken (g.scope w id) g.source) =
        .error e := by
      rw [Attempt.ofTarget, hfields, List.map_append, List.map_cons]
      exact mapM_eq_error_of_append (List.forall_mem_map.mpr hok) hfails
    rw [Stage.result, h.callWithin_eq hc hconv harm, hbody]
    exact (h.tries hc hconv g.depth).eval_runDirect_error hmem rfl hsteps

section Trials

variable (hg : g.trial? = some t)
include hg

/-- A function with several candidates is in the middle of its attempts. -/
theorem result_trial :
    g.result w id = (eval (ArmBody.resume g.conv (g.scope w id) t.case (t.attempts g.conv.dest)
      ((t.earlier.map fun c => Attempt.ofTarget g.conv.dest c.target) ++
        Attempt.ofTarget g.conv.dest t.candidate.target ::
          t.rest.map fun c => Attempt.ofTarget g.conv.dest c.target)) ⟨[(Conversion.parameter, g.source)]⟩).1 := by
  cases hr with
  | sole hs => cases hs.symm.trans hg
  | tried ht harm hcase hbody =>
    obtain rfl := Option.some.inj (hg.symm.trans ht)
    rw [Stage.result, h.callWithin_eq hc hconv harm, hbody, ArmBody.run_firstFit, hcase]
    simp only [Trial.attempts, List.map_append, List.map_cons]
    rfl

variable (he : g.outcome w (w.callWithin g.depth) (w.registry (σ g.conv).registry) = .error e)
include he

/-- The candidate that is being tried fails as it reports, after the candidates before it have been of no consequence. -/
theorem exists_eval_candidate (rest : List Attempt) (hx : l.get? Conversion.parameter = some g.source) :
    Attempt.ofTarget g.conv.dest t.candidate.target ∈ g.conv.attempts ∧
      t.candidate.convert (σ g.conv) (g.scope w id) g.source .tryInto = .error (w.reported g.value g.target e) ∧
      ∃ l', l'.get? Conversion.parameter = some g.source ∧
        eval (ArmBody.firstAccepted g.conv.container (g.scope w id)
          ((t.earlier.map fun c => Attempt.ofTarget g.conv.dest c.target) ++ rest)) l =
            eval (ArmBody.firstAccepted g.conv.container (g.scope w id) rest) l' := by
  cases hr with
  | sole hs => cases hs.symm.trans hg
  | @tried arm t' fs gs f ht harm hcase hbody hearlier hfields hok hvalue htarget =>
    obtain rfl := Option.some.inj (hg.symm.trans ht)
    have hmem : ∀ c ∈ t.earlier ++ t.candidate :: t.rest, Attempt.ofTarget g.conv.dest c.target ∈ g.conv.attempts := by
      intro c hc
      refine Conversion.mem_attempts harm.mem_arms ?_
      rw [hbody]
      exact List.mem_map_of_mem (f := fun c => Attempt.ofTarget g.conv.dest c.target) hc
    have hfails : t.candidate.convert (σ g.conv) (g.scope w id) g.source .tryInto =
        .error (w.reported g.value g.target e) := by
      rw [Stage.outcome, hg] at he
      rw [Candidate.convert, hfields]
      exact mapM_eq_error_of_append hok
        (Sense.reply_eq_error hvalue (htarget ▸ World.tryInto_eq_error he))
    obtain ⟨l', hl', hx'⟩ := eval_firstAccepted_append (h.tries hc hconv g.depth) (fun c hc => hmem c (by simp [hc])) hx
      hearlier rest
    exact ⟨hmem t.candidate (by simp), hfails, l', hx', hl'⟩

/-- A failure that is reported as a rejection leads on to what is left. -/
theorem eval_resume_next (hrejected : (w.reported g.value g.target e).isRejection) (attempts rest : List Attempt)
    (hx : l.get? Conversion.parameter = some g.source) :
    ∃ l', l'.get? Conversion.parameter = some g.source ∧
      eval (ArmBody.resume g.conv (g.scope w id) t.case attempts
        ((t.earlier.map fun c => Attempt.ofTarget g.conv.dest c.target) ++
          Attempt.ofTarget g.conv.dest t.candidate.target :: rest)) l =
            eval (ArmBody.resume g.conv (g.scope w id) t.case attempts rest) l' := by
  obtain ⟨hmem, hfails, l₁, hx₁, hl₁⟩ := h.exists_eval_candidate hc hconv hr hg he
    (Attempt.ofTarget g.conv.dest t.candidate.target :: rest) hx
  have htries : (g.scope w id).Tries g.conv g.conv.attempts (σ g.conv) := h.tries hc hconv g.depth
  obtain ⟨l₂, hl₂, hx₂⟩ := eval_runTry_rejected htries hmem hx₁ hfails hrejected
  refine ⟨l₂, hx₂, ?_⟩
  rw [ArmBody.resume, eval_bind, hl₁, ArmBody.firstAccepted, eval_bind_ok hl₂, ← eval_bind]
  rfl

/-- Any other failure is the failure of the function, whatever is left. -/
theorem eval_resume_stop (hkept : ¬(w.reported g.value g.target e).isRejection) (attempts rest : List Attempt)
    (hx : l.get? Conversion.parameter = some g.source) :
    (eval (ArmBody.resume g.conv (g.scope w id) t.case attempts
      ((t.earlier.map fun c => Attempt.ofTarget g.conv.dest c.target) ++
        Attempt.ofTarget g.conv.dest t.candidate.target :: rest)) l).1 = .error (w.reported g.value g.target e) := by
  obtain ⟨hmem, hfails, l₁, hx₁, hl₁⟩ := h.exists_eval_candidate hc hconv hr hg he
    (Attempt.ofTarget g.conv.dest t.candidate.target :: rest) hx
  have htries : (g.scope w id).Tries g.conv g.conv.attempts (σ g.conv) := h.tries hc hconv g.depth
  obtain ⟨l₂, hl₂⟩ := eval_runTry_error htries hmem hx₁ hfails (by simpa using hkept)
  rw [ArmBody.resume, eval_bind, hl₁, ArmBody.firstAccepted, eval_bind_error hl₂]

/-- An exhaustion is the failure of the function, whatever is left. -/
theorem eval_resume_exhausted (hexhausted : e.isExhaustion) (attempts rest : List Attempt)
    (hx : l.get? Conversion.parameter = some g.source) :
    (eval (ArmBody.resume g.conv (g.scope w id) t.case attempts
      ((t.earlier.map fun c => Attempt.ofTarget g.conv.dest c.target) ++
        Attempt.ofTarget g.conv.dest t.candidate.target :: rest)) l).1 = .error e := by
  have hreported : w.reported g.value g.target e = e :=
    World.reported_eq (Failure.not_isMisfit_of_isExhaustion hexhausted)
  have hkept : ¬(w.reported g.value g.target e).isRejection :=
    hreported.symm ▸ Failure.not_isRejection_of_isExhaustion hexhausted
  exact (h.eval_resume_stop hc hconv hr hg he hkept attempts rest hx).trans (congrArg _ hreported)

end Trials

/-- An exhaustion passes through any stage, and any failure passes through one with a single candidate. -/
theorem result_eq (he : g.outcome w (w.callWithin g.depth) (w.registry (σ g.conv).registry) = .error e)
    (hp : e.isExhaustion ∨ g.trial? = none) : g.result w id = .error e := by
  cases hg : g.trial? with
  | none => exact h.result_sole hc hconv hr hg he
  | some t =>
    rw [h.result_trial hc hconv hr hg]
    exact h.eval_resume_exhausted hc hconv hr hg he (hp.resolve_right (by simp [hg])) _ _ rfl

end Module.Known

/-! ### Functions within functions -/

namespace World.Raises

variable {source : String} {file doc : Option String} {σ : Conversion → Sense} {γ : Conversion → String → ClassRef}
  {g : Stage} {gs inner outer : List Stage}

theorem of_append (hr : w.Raises id m σ γ (outer ++ g :: inner) e) : w.Raises id m σ γ (g :: inner) e := by
  induction outer with
  | nil => exact hr
  | cons g₀ outer ih =>
    rw [List.cons_append] at hr
    generalize hgs : outer ++ g :: inner = gs at hr ih
    cases hr with
    | here => simp at hgs
    | nested hconv hr hg hsource hdepth h => exact ih h

section Known

variable (hc : compile source file doc = .ok c) (h : c.module.Known w id σ γ)
include hc h

/-- What the first function gets is the failure of the innermost field, if that passes through all functions between. -/
theorem outcome_eq (hr : w.Raises id c.module σ γ (g :: inner) e)
    (hp : e.isExhaustion ∨ ∀ g' ∈ inner, g'.trial? = none) :
    g.conv ∈ c.module.conversions ∧ g.Reached w id (σ g.conv) (γ g.conv) ∧
      g.outcome w (w.callWithin g.depth) (w.registry (σ g.conv).registry) = .error e := by
  generalize hgs : g :: inner = gs at hr
  induction hr generalizing g inner with
  | here hconv hr he =>
    obtain ⟨rfl, rfl⟩ := List.cons.inj hgs
    exact ⟨hconv, hr, he⟩
  | nested hconv hr hg hsource hdepth _ ih =>
    obtain ⟨rfl, rfl⟩ := List.cons.inj hgs
    obtain ⟨hconv', hr', he'⟩ := ih (hp.imp_right fun hs g hg => hs g (List.mem_cons_of_mem _ hg)) rfl
    refine ⟨hconv, hr, hg.outcome_eq.trans ?_⟩
    have hresult := h.result_eq hc hconv' hr' he' (hp.imp_right fun hs => hs _ List.mem_cons_self)
    rwa [Stage.result, hsource, ← hdepth] at hresult

end Known

end World.Raises

/-- In a module whose names mean what they should, let functions call each other for the values of fields, down to a field
whose conversion fails, and take any of these functions. If the failure is an exhaustion, it is the failure of the
function, whatever candidates it has left. If neither the function nor any within it is in an attempt, any failure is.
If the function is in an attempt, and none within it is, a misfit leads on to the candidates that are left, exactly if it
can be reported as a rejection: otherwise another failure escapes. -/
theorem Compiled.failure_of_raises {source : String} {file doc : Option String} {σ : Conversion → Sense}
    {γ : Conversion → String → ClassRef} {outer inner : List Stage} {g : Stage}
    (hc : compile source file doc = .ok c) (h : c.module.Known w id σ γ)
    (hr : w.Raises id c.module σ γ (outer ++ g :: inner) e) :
    (e.isExhaustion → g.result w id = .error e ∧ ∀ t, g.trial? = some t → ∀ attempts rest (l : Locals),
      l.get? Conversion.parameter = some g.source → (eval (ArmBody.resume g.conv (g.scope w id) t.case attempts
        ((t.earlier.map fun c => Attempt.ofTarget g.conv.dest c.target) ++
          Attempt.ofTarget g.conv.dest t.candidate.target :: rest)) l).1 = .error e) ∧
    ((∀ g' ∈ g :: inner, g'.trial? = none) → g.result w id = .error e) ∧
    ∀ t, g.trial? = some t → (∀ g' ∈ inner, g'.trial? = none) → e.isMisfit →
      (e.Reportable g.value g.target → ∃ l : Locals, l.get? Conversion.parameter = some g.source ∧
        g.result w id = (eval (ArmBody.resume g.conv (g.scope w id) t.case (t.attempts g.conv.dest)
          (t.rest.map fun c => Attempt.ofTarget g.conv.dest c.target)) l).1) ∧
      (¬e.Reportable g.value g.target → ∃ e', ¬e'.isRejection ∧ g.result w id = .error e') := by
  have hr := hr.of_append
  refine ⟨fun hexhausted => ?_, fun hsole => ?_, fun t ht hinner hmisfit => ?_⟩
  · obtain ⟨hconv, hreached, he⟩ := hr.outcome_eq hc h (.inl hexhausted)
    exact ⟨h.result_eq hc hconv hreached he (.inl hexhausted), fun t ht attempts rest l hx =>
      h.eval_resume_exhausted hc hconv hreached ht he hexhausted attempts rest hx⟩
  · obtain ⟨hconv, hreached, he⟩ := hr.outcome_eq hc h (.inr fun g hg => hsole g (List.mem_cons_of_mem _ hg))
    exact h.result_eq hc hconv hreached he (.inr (hsole g List.mem_cons_self))
  · obtain ⟨hconv, hreached, he⟩ := hr.outcome_eq hc h (.inr hinner)
    rw [h.result_trial hc hconv hreached ht]
    constructor
    · intro hreportable
      obtain ⟨l, hx, hl⟩ := h.eval_resume_next hc hconv hreached ht he
        (World.isRejection_reported hmisfit hreportable) (t.attempts g.conv.dest)
        (t.rest.map fun c => Attempt.ofTarget g.conv.dest c.target) (l := ⟨[(Conversion.parameter, g.source)]⟩) rfl
      exact ⟨l, hx, by rw [hl]⟩
    · intro hunreported
      have hattempted : w.attempted (w.callWithin g.depth) (w.registry (σ g.conv).registry) g.value g.target =
          .error e := by
        rwa [Stage.outcome, ht] at he
      have hkept := World.not_isRejection_reported hattempted hunreported
      exact ⟨_, hkept, h.eval_resume_stop hc hconv hreached ht he hkept _ _ rfl⟩

/-- The request to load a text. -/
def textRequest (source : String) : LoadRequest where
  name := "m"
  source
  names := []
  registry := none
  register := false
  file := none
  docstring := none

/-- What comes of executing the module of a schema, in place of a text. -/
def schemaOutcome (source : String) (s : Schema) : World × Except Failure Nat :=
  Library.world.executeNew (textRequest source)
    (Module.ofPlans s (s.destinations.map (Plan.described · none)) none none) ⟨some Module.defaultDocstring, []⟩

/-- A variant for a case, whose text begins in a given line. -/
def forCase (case name : String) (fields : List (String × DottedName)) (line : Nat) : Variant where
  name
  body := .named fields
  directives := [⟨fromCase, [⟨none, .ofName case, ⟨line, 12⟩⟩], ⟨line, 1⟩⟩]
  place := ⟨line, 1⟩

def routedText : String :=
  "union Text \x7b A \x7b n: str \x7d \x7d\n@from_union(Text)\nunion Number \x7b A \x7b n: int \x7d \x7d\n" ++
    "union S \x7b P \x7b i: Text \x7d \x7d\n@from_union(S)\nunion D \x7b\n@from_case(P) M \x7b i: Number \x7d\n" ++
    "@from_case(P) N \x7b i: Text \x7d\n\x7d\n"

/-- Candidates of the outer conversion, of which the first wants the field to be converted by the inner one. -/
def routedSchema : Schema where
  imports := []
  unions := [oneVariant "Text" 1 "A" [("n", .ofName "str")] [],
    oneVariant "Number" 2 "A" [("n", .ofName "int")] [fromOne "Text" none 2],
    oneVariant "S" 4 "P" [("i", .ofName "Text")] [],
    ⟨"D", [forCase "P" "M" [("i", .ofName "Number")] 7, forCase "P" "N" [("i", .ofName "Text")] 8],
      [fromOne "S" none 5], ⟨5, 1⟩⟩]

def routedInner : Conversion :=
  ⟨"number_from_text", .ofName "Text", "Number", none,
    [⟨"A", .direct ⟨"Number", "A", .byKeyword, [⟨"f_n", "n", .ofName "int"⟩]⟩⟩]⟩

def routedOuter : Conversion :=
  ⟨"d_from_s", .ofName "S", "D", none,
    [⟨"P", .firstFit [⟨"D", "M", .byKeyword, [⟨"f_i", "i", .ofName "Number"⟩]⟩,
      ⟨"D", "N", .byKeyword, [⟨"f_i", "i", .ofName "Text"⟩]⟩]⟩]⟩

def routedSense : Sense where
  registry := "default"
  type d := .cls (if d = .ofName "int" then .builtin .int else .declared (if d = .ofName "Number" then 2 else 0))
  container := none
  variant name := if name = "A" then 3 else if name = "M" then 7 else 8

def routedClass (case : String) : ClassRef := .declared (if case = "A" then 1 else 5)

/-- A text that is no number. -/
def routedField : Value := .record 1 [("n", .text "ab")]

def routedTrial : Trial where
  case := "P"
  earlier := []
  candidate := ⟨"P", ⟨"M", .named [("i", .ofName "Number")], 0, Span.ofPlace ⟨7, 1⟩ none⟩⟩
  rest := [⟨"P", ⟨"N", .named [("i", .ofName "Text")], 1, Span.ofPlace ⟨8, 1⟩ none⟩⟩]

/-- The outer conversion tries the inner one. -/
def routedFirst : Stage :=
  ⟨1, routedOuter, .record 5 [("i", routedField)], routedField, .cls (.declared 2), some routedTrial⟩

/-- The only candidate of the inner conversion wants a number. -/
def routedSecond : Stage := ⟨0, routedInner, routedField, .text "ab", .cls (.builtin .int), none⟩

/-- What a converter refers to, if it is a function or a class. -/
def Converter.reference? : Converter → Option (ClassRef ⊕ FunctionRef ⊕ String)
  | .callable f => f.reference?
  | .custom .. => none

theorem Converter.eq_of_reference? {found : Except Failure (Option Converter)}
    (h : found.toOption.bind (·.bind reference?) = f.reference?) (hf : f.reference?.isSome) :
    found = .ok (some (.callable f)) := by
  obtain ⟨r, hr⟩ := Option.isSome_iff_exists.mp hf
  rw [hr] at h
  obtain ⟨o, ho, ho'⟩ := Option.bind_eq_some_iff.mp h
  obtain ⟨c, rfl, hc⟩ := Option.bind_eq_some_iff.mp ho'
  cases found with
  | error e => cases ho
  | ok o' =>
    obtain rfl := Option.some.inj ho
    cases c with
    | custom => cases hc
    | callable f' =>
      have hsame : (Except.ok f' : Except Failure Value) = .ok f :=
        Value.eq_ok_of_reference? (hc.trans hr.symm) hf
      rw [Except.ok.inj hsame]

/-- What holds when the module has been loaded. -/
def routedModule : Module :=
  Module.ofPlans routedSchema (routedSchema.destinations.map (Plan.described · none)) none none

theorem conversions_routed : routedModule.conversions = [routedInner, routedOuter] := by decide +kernel

set_option synthInstance.maxSize 1000 in
theorem Compiled.failure_of_raises_nested :
    ∃ w c e, Library.world.load (textRequest routedText) = (w, .ok 0) ∧
      compile (textRequest routedText).source none none = .ok c ∧
      c.module.Known w 0 (fun _ => routedSense) (fun _ => routedClass) ∧
      w.Raises 0 c.module (fun _ => routedSense) (fun _ => routedClass) [routedFirst, routedSecond] e ∧
      e.isMisfit ∧ routedSecond.result w 0 = .error e ∧
      (∃ l : Locals, routedFirst.result w 0 = (eval (ArmBody.resume routedOuter (routedFirst.scope w 0) "P"
        (routedTrial.attempts "D") [⟨"D", "N", .byKeyword, [⟨"f_i", "i", .ofName "Text"⟩]⟩]) l).1) ∧
      ∃ v, routedFirst.result w 0 = .ok v ∧ v.classOf = .declared 8 := by
  have hcompile : compile (textRequest routedText).source none none =
      .ok ⟨routedSchema, routedSchema.destinations.map (Plan.described · none), routedModule⟩ :=
    compile_of_lettered (.append (.append .literal .literal) .literal) (by decide +kernel) (by decide +kernel) (by decide +kernel)
  let out := schemaOutcome routedText routedSchema
  let σ := routedSense
  have hfacts : out.2.toOption = some 0 ∧
      (∀ conv ∈ routedModule.conversions, conv.Finds out.1 0 σ routedClass) ∧ out.1.Supplies 0 "default" ∧
      (out.1.global 0 "isinstance").toOption.bind Value.reference? = some (.inr (.inl (.builtin .classTest))) ∧
      (out.1.override? (.declared 1) "__getattribute__" = none ∧
        out.1.override? (.declared 5) "__getattribute__" = none ∧
        out.1.isInstance (.record 5 [("i", routedField)]) (.declared 5) ∧
        out.1.isInstance routedField (.declared 1)) ∧
      ((out.1.lookup (out.1.registry "default") routedField.classOf (.cls (.declared 2)) false).toOption.bind
          (·.bind Converter.reference?) = some (.inr (.inl (.conversion 0 routedInner))) ∧
        (out.1.lookup (out.1.registry "default") routedField.classOf (.cls (.declared 2)) true).toOption.any
          Option.isNone) ∧
      Failure.occurs Failure.isMisfit (out.1.into (out.1.callWithin 0) (out.1.registry "default") (.text "ab")
        (.cls (.builtin .int))) ∧
      (routedFirst.result out.1 0).toOption.any (·.classOf = .declared 8) := by
    decide +kernel
  obtain ⟨hout, hfinds, hsupplies, htests, ⟨hreads, hreads', hfirst, hsecond⟩, ⟨hfound, hnone⟩, hfails,
    hresult⟩ := hfacts
  have hload : Library.world.load (textRequest routedText) = (out.1, .ok 0) :=
    World.load_eq hcompile (LoadRequest.preamble_default rfl rfl (by decide +kernel) (by decide +kernel)) rfl rfl hout
  have hknown : routedModule.Known out.1 0 (fun _ => σ) (fun _ => routedClass) :=
    .of_finds hfinds (fun _ _ => hsupplies) (Value.eq_ok_of_reference? htests rfl)
  obtain ⟨e, he, hmisfit⟩ := Failure.exists_of_occurs hfails
  obtain ⟨v, hv, hclass⟩ := exists_of_any_toOption hresult
  obtain ⟨found, hok, hisNone⟩ := exists_of_any_toOption hnone
  obtain rfl := Option.isNone_iff_eq_none.mp hisNone
  have hmem : ∀ g ∈ [routedFirst, routedSecond], g.conv ∈ routedModule.conversions := by
    rw [conversions_routed]
    decide
  have hvalue : out.1.member routedField "n" = .ok (.text "ab") :=
    World.member_record hreads (by decide) (by decide) (by simp)
  have hvalue' : out.1.member (.record 5 [("i", routedField)]) "i" = .ok routedField :=
    World.member_record hreads' (by decide) (by simp) (by simp)
  have hlast : routedSecond.Reached out.1 0 σ routedClass :=
    have hfields : (⟨"A", .named [("n", .ofName "int")], 0, Span.ofPlace ⟨3, 1⟩ none⟩ : Target).fields =
        [] ++ ⟨some "n", .ofName "int", 0⟩ :: [] := rfl
    .sole rfl ⟨[], [], rfl, by simp, hsecond⟩ rfl hfields (by simp) hvalue rfl
  have hstart : routedFirst.Reached out.1 0 σ routedClass :=
    have hfields : routedTrial.candidate.target.fields = [] ++ ⟨some "i", .ofName "Number", 0⟩ :: [] := rfl
    .tried rfl ⟨[], [], rfl, by simp, hfirst⟩ rfl rfl rfl hfields (by simp) hvalue' rfl
  have hraises : out.1.Raises 0 routedModule (fun _ => σ) (fun _ => routedClass) [routedFirst, routedSecond] e :=
    .nested (hmem _ (by simp)) hstart ⟨Converter.eq_of_reference? hfound rfl, fun _ => hok⟩ rfl rfl
      (.here (hmem _ (by simp)) hlast he)
  have hraises' : out.1.Raises 0 routedModule (fun _ => σ) (fun _ => routedClass) ([routedFirst] ++ [routedSecond]) e :=
    hraises
  obtain ⟨-, hthrough, -⟩ := failure_of_raises hcompile hknown hraises'
  have hraises' : out.1.Raises 0 routedModule (fun _ => σ) (fun _ => routedClass) ([] ++ [routedFirst, routedSecond]) e :=
    hraises
  obtain ⟨-, -, hon⟩ := failure_of_raises hcompile hknown hraises'
  have hnext := (hon routedTrial rfl (List.forall_mem_singleton.mpr rfl) hmisfit).1 ⟨rfl, .inr (by decide)⟩
  obtain ⟨l, _, hl⟩ := hnext
  exact ⟨out.1, _, e, hload, hcompile, hknown, hraises, hmisfit, hthrough (List.forall_mem_singleton.mpr rfl), ⟨l, hl⟩, v, hv,
    by simpa using hclass⟩

def listingText : String :=
  "union S \x7b A \x7b x: int \x7d \x7d\n@from_union(S)\nunion D \x7b\n@from_case(A) F \x7b x: __all__ \x7d\n" ++
    "@from_case(A) G \x7b x: int \x7d\n\x7d\n"

/-- A candidate whose field is of a type that names a list, and another one. -/
def listingSchema : Schema where
  imports := []
  unions := [oneVariant "S" 1 "A" [("x", .ofName "int")] [],
    ⟨"D", [forCase "A" "F" [("x", .ofName "__all__")] 4, forCase "A" "G" [("x", .ofName "int")] 5],
      [fromOne "S" none 2], ⟨2, 1⟩⟩]

def listingModule : Module :=
  Module.ofPlans listingSchema (listingSchema.destinations.map (Plan.described · none)) none none

def listingConversion : Conversion :=
  ⟨"d_from_s", .ofName "S", "D", none,
    [⟨"A", .firstFit [⟨"D", "F", .byKeyword, [⟨"f_x", "x", .ofName "__all__"⟩]⟩,
      ⟨"D", "G", .byKeyword, [⟨"f_x", "x", .ofName "int"⟩]⟩]⟩]⟩

set_option synthInstance.maxSize 1000 in
/-- Where the target of a field is a list, the error about the value does not lead on to the next candidate, although
that one would accept. -/
theorem Compiled.failure_of_raises_list :
    ∃ w c, Library.world.load (textRequest listingText) = (w, .ok 0) ∧
      compile (textRequest listingText).source none none = .ok c ∧ listingConversion ∈ c.module.conversions ∧
      ∃ x target, w.construct (.declared 1) (.of [.int 1]) = .ok x ∧
        w.globalPath 0 (.ofName "__all__") = .ok target ∧
        (∃ e, w.attempted w.call (w.registry "default") (.int 1) target = .error e ∧ e.isMisfit) ∧
        (∃ v, w.attempted w.call (w.registry "default") (.int 1) (.cls (.builtin .int)) = .ok v) ∧
        ∃ e, w.call (.function (.conversion 0 listingConversion)) (.of [x]) = .error e ∧ e.isMisfit := by
  have hcompile : compile (textRequest listingText).source none none =
      .ok ⟨listingSchema, listingSchema.destinations.map (Plan.described · none), listingModule⟩ :=
    compile_of_lettered (.append .literal .literal) (by decide +kernel) (by decide +kernel) (by decide +kernel)
  let out := schemaOutcome listingText listingSchema
  have hfacts : out.2.toOption = some 0 ∧ listingConversion ∈ listingModule.conversions ∧
      (out.1.construct (.declared 1) (.of [.int 1])).toOption.any (fun x =>
        Failure.occurs Failure.isMisfit (out.1.call (.function (.conversion 0 listingConversion)) (.of [x]))) ∧
      (out.1.globalPath 0 (.ofName "__all__")).toOption.any (fun target =>
        Failure.occurs Failure.isMisfit (out.1.attempted out.1.call (out.1.registry "default") (.int 1) target)) ∧
      (out.1.attempted out.1.call (out.1.registry "default") (.int 1) (.cls (.builtin .int))).toOption.isSome := by
    decide +kernel
  obtain ⟨hout, hconv, hcall, hfirst, hsecond⟩ := hfacts
  have hload : Library.world.load (textRequest listingText) = (out.1, .ok 0) :=
    World.load_eq hcompile (LoadRequest.preamble_default rfl rfl (by decide +kernel) (by decide +kernel)) rfl rfl hout
  obtain ⟨x, hx, hfails⟩ := exists_of_any_toOption hcall
  obtain ⟨target, htarget, hmisfit⟩ := exists_of_any_toOption hfirst
  obtain ⟨v, hv⟩ := Option.isSome_iff_exists.mp hsecond
  refine ⟨out.1, _, hload, hcompile, hconv, x, target, hx, htarget, Failure.exists_of_occurs hmisfit, ⟨v, ?_⟩,
    Failure.exists_of_occurs hfails⟩
  revert hv
  cases out.1.attempted out.1.call (out.1.registry "default") (.int 1) (.cls (.builtin .int)) <;>
    simp [Except.toOption]

end UnionBridge
