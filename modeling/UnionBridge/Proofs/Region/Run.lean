import UnionBridge.Proofs.Execution.Action
import UnionBridge.Proofs.Execution.Capture
import UnionBridge.Proofs.Region.Answer

/-! The functions of modules, run in two worlds that are the same in a region. -/
namespace UnionBridge

namespace Action

variable {α β : Type} {ρ : Region} {P : α → Prop} {Q : β → Prop} {a a' : Action α} {f f' : α → Action β}

/-- Two parts of a function come out alike, and leave variables that lie within a region. -/
def Concurs (ρ : Region) (P : α → Prop) (a' a : Action α) : Prop :=
  ∀ l : Locals, l.Within ρ → eval a' l = eval a l ∧ (eval a l).2.Within ρ ∧ ∀ v, (eval a l).1 = .ok v → P v

namespace Concurs

protected theorem pure {v : α} (h : P v) : Concurs ρ P (pure v) (pure v) :=
  fun _ hl => ⟨rfl, hl, fun _ hv => Except.ok.inj hv ▸ h⟩

protected theorem throw {e : Failure} : Concurs ρ P (throw e) (throw e) := fun _ hl => ⟨rfl, hl, fun _ hv => by cases hv⟩

theorem lift {x y : Except Failure α} (h : Concur P x y) : Concurs ρ P (liftM x) (liftM y) :=
  fun _ hl => ⟨congrArg (·, _) h.1, hl, h.2⟩

theorem ask {x y : Locals → Except Failure α} (h : ∀ l : Locals, l.Within ρ → Concur P (x l) (y l)) :
    Concurs ρ P (do liftM (x (← get))) (do liftM (y (← get))) :=
  fun l hl => ⟨congrArg (·, l) (h l hl).1, hl, (h l hl).2⟩

theorem assign {name : String} {v : Value} (hv : v.Within ρ) :
    Concurs ρ (fun _ => True) (Scope.assign name v) (Scope.assign name v) :=
  fun _ hl => ⟨rfl, hl.insert _ hv, fun _ _ => trivial⟩

protected theorem bind (ha : Concurs ρ P a' a) (hf : ∀ v, P v → Concurs ρ Q (f' v) (f v)) :
    Concurs ρ Q (a' >>= f') (a >>= f) := by
  intro l hl
  obtain ⟨heq, hl', hP⟩ := ha l hl
  rw [eval_bind, eval_bind, heq]
  cases hr : eval a l with
  | mk r l' =>
    rw [hr] at hl' hP
    cases r with
    | error e => exact ⟨rfl, hl', fun v hv => by cases hv⟩
    | ok v => exact hf v (hP v rfl) l' hl'

theorem seq {b b' : Action β} (ha : Concurs ρ P a' a) (hb : Concurs ρ Q b' b) :
    Concurs ρ Q (a' >>= fun _ => b') (a >>= fun _ => b) := ha.bind fun _ _ => hb

theorem map {g : α → β} (ha : Concurs ρ P a' a) (hg : ∀ v, P v → Q (g v)) : Concurs ρ Q (g <$> a') (g <$> a) := by
  intro l hl
  obtain ⟨heq, hl', hP⟩ := ha l hl
  rw [eval_map, eval_map, heq]
  cases hr : eval a l with
  | mk r l' =>
    rw [hr] at hl' hP
    cases r with
    | error e => exact ⟨rfl, hl', fun v hv => by cases hv⟩
    | ok v => exact ⟨rfl, hl', fun _ hx => Except.ok.inj hx ▸ hg v (hP v rfl)⟩

protected theorem tryCatch {k k' : Failure → Action α} (ha : Concurs ρ P a' a) (hk : ∀ e, Concurs ρ P (k' e) (k e)) :
    Concurs ρ P (tryCatch a' k') (tryCatch a k) := by
  intro l hl
  obtain ⟨heq, hl', hP⟩ := ha l hl
  cases hr : eval a l with
  | mk r l' =>
    rw [hr] at heq hl' hP
    cases r with
    | error e =>
      rw [eval_tryCatch_error heq, eval_tryCatch_error hr]
      exact hk e l' hl'
    | ok v =>
      rw [eval_tryCatch_ok heq, eval_tryCatch_ok hr]
      exact ⟨rfl, hl', hP⟩

theorem forM {γ : Type} {g g' : γ → Action PUnit} {cs : List γ} (h : ∀ c ∈ cs, Concurs ρ (fun _ => True) (g' c) (g c)) :
    Concurs ρ (fun _ => True) (cs.forM g') (cs.forM g) := by
  induction cs with
  | nil => exact .pure trivial
  | cons c cs ih =>
    obtain ⟨hc, hcs⟩ := List.forall_mem_cons.mp h
    exact hc.seq (ih hcs)

theorem mapM {γ : Type} {g g' : γ → Action α} {cs : List γ} (h : ∀ c ∈ cs, Concurs ρ P (g' c) (g c)) :
    Concurs ρ (fun vs => ∀ v ∈ vs, P v) (cs.mapM g') (cs.mapM g) := by
  induction cs with
  | nil => exact .pure (by simp)
  | cons c cs ih =>
    obtain ⟨hc, hcs⟩ := List.forall_mem_cons.mp h
    rw [List.mapM_cons, List.mapM_cons]
    exact hc.bind fun v hv => (ih hcs).bind fun vs hvs => .pure (List.forall_mem_cons.mpr ⟨hv, hvs⟩)

end Concurs

end Action

variable {ρ κ : Region} {asked : String → Prop} {w w' : World} {s s' : Scope} {l : Locals} {v : Value} {name : String}
  {d : DottedName}

/-! ### Names -/

theorem within_constant? (h : constant? name = some v) : v.Within ρ := by
  unfold constant? at h
  split at h
  all_goals cases h
  all_goals simp

theorem within_foreignName? (h : foreignName? name = some v) : v.Within ρ := by
  unfold foreignName? at h
  split at h
  · cases h
    exact Value.within_intrinsic.mpr (Intrinsic.within_of fun c => by simp)
  · split at h
    · cases h
      simp
    · split at h
      · cases h
        exact Value.within_intrinsic.mpr (Intrinsic.within_of fun c => by simp)
      · split at h
        · cases h
          exact Value.within_intrinsic.mpr (Intrinsic.within_of fun c => by simp)
        · cases h

theorem within_builtinName? (h : builtinName? name = some v) : v.Within ρ := by
  unfold builtinName? at h
  split at h
  case h_11 => exact within_foreignName? h
  all_goals cases h
  all_goals simp

theorem World.Same.concur_global {home : Nat} (h : w.Same ρ w') (hhome : ρ.modules home) :
    Concur (·.Within ρ) (w'.global home name) (w.global home name) := by
  simp only [global, h.globals_eq hhome]
  split
  · rename_i x hx
    refine .ok ?_
    rcases (Option.orElse_eq_some _ _ _).mp hx with hconstant | ⟨_, hx⟩
    · exact within_constant? hconstant
    · rcases (Option.orElse_eq_some _ _ _).mp hx with hglobal | ⟨_, hbuiltin⟩
      · exact h.within_globals hhome _ _ hglobal
      · exact within_builtinName? hbuiltin
  · exact .error

/-- The bodies of one function in two worlds: its module has the same names in both, whom it may call lies within a region,
and registries that it may ask answer alike. -/
structure Scope.Parallel (ρ κ : Region) (asked : String → Prop) (s s' : Scope) : Prop where
  nested : s.world.Nested ρ κ s'.world
  callers : Callers ρ κ s.call s'.call
  home_eq : s'.home = s.home
  own_eq : s'.own = s.own
  home : κ.modules s.home
  owned : ∀ name, s.world.global s.home "_registry" = .ok (.registry name) → asked name
  answer : ∀ name, asked name → ∀ request v target container, v.Within ρ → target.Within κ →
    (∀ c, container = some c → c.Within κ) →
    Concur (·.Within ρ) (s'.answer name request v target container) (s.answer name request v target container)

/-- It makes no difference whether some names are variables of a function: none of them is, or whatever a variable can hold
may be called, and every registry asked. -/
def Scope.Reaches (ρ κ : Region) (asked : String → Prop) (s : Scope) (names : List String) : Prop :=
  (ρ.Le κ ∧ ∀ name, asked name) ∨ ∀ name ∈ names, name ∉ s.own

theorem Scope.Reaches.mono {names fewer : List String} (h : s.Reaches ρ κ asked names)
    (hsub : ∀ name ∈ fewer, name ∈ names) : s.Reaches ρ κ asked fewer :=
  h.imp id fun hfree name hname => hfree name (hsub name hname)

namespace Scope.Parallel

open UnionBridge.Action

variable (h : s.Parallel ρ κ asked s')
include h

theorem concur_name (hl : l.Within ρ) : Concur (·.Within ρ) (s'.name l name) (s.name l name) := by
  simp only [Scope.name, h.own_eq, h.home_eq]
  split
  · split
    · rename_i x hx
      exact .ok (hl _ _ hx)
    · exact .error
  · exact h.nested.same.concur_global (h.nested.le.modules _ h.home)

/-- What a module has under its names may be called. -/
theorem concur_reached (hl : l.Within ρ) (hreach : s.Reaches ρ κ asked [name]) :
    Concur (·.Within κ) (s'.name l name) (s.name l name) := by
  rcases hreach with ⟨hle, _⟩ | hfree
  · exact (h.concur_name hl).mono fun x hx => hx.mono hle
  · have hfree : name ∉ s.own := hfree name (List.mem_singleton_self _)
    rw [Scope.name_of_foreign hfree, Scope.name_of_foreign (h.own_eq ▸ hfree), h.home_eq]
    exact ⟨(h.nested.same.concur_global (h.nested.le.modules _ h.home)).1, (h.nested.closed.concur_global h.home).2⟩

theorem concurs_fetch : Concurs ρ (·.Within ρ) (s'.fetch name) (s.fetch name) := .ask fun _ hl => h.concur_name hl

theorem concurs_fetchPath : Concurs ρ (·.Within ρ) (s'.fetchPath d) (s.fetchPath d) :=
  .ask fun _ hl => (h.concur_name hl).bind fun _ hv => h.nested.same.concur_memberPath hv

theorem concurs_reached (hreach : s.Reaches ρ κ asked [name]) : Concurs ρ (·.Within κ) (s'.fetch name) (s.fetch name) :=
  .ask fun _ hl => h.concur_reached hl hreach

theorem concurs_reachedPath (hreach : s.Reaches ρ κ asked [d.head]) :
    Concurs ρ (·.Within κ) (s'.fetchPath d) (s.fetchPath d) :=
  .ask fun _ hl => (h.concur_reached hl hreach).bind fun _ hv => h.nested.concur_memberPath hv

theorem concurs_helper (hreach : s.Reaches ρ κ asked ["_rt"]) : Concurs ρ (·.Within κ) (s'.helper name) (s.helper name) :=
  h.concurs_reachedPath hreach

theorem concurs_isInstance {subject : String} (hreach : s.Reaches ρ κ asked ["isinstance"]) :
    Concurs ρ (fun _ => True) (s'.isInstance subject d) (s.isInstance subject d) := by
  refine (h.concurs_reached hreach).bind fun test htest => h.concurs_fetch.bind fun v hv => ?_
  refine h.concurs_fetchPath.bind fun c hc => ?_
  have hargs : (Supplied.of [v, c]).Within ρ := Supplied.within_of (by simp [hv, hc])
  refine (Concurs.lift (h.callers.apt test _ htest hargs)).bind fun result hresult => .lift (.of_eq ?_)
  exact h.nested.same.truth_eq hresult

theorem concurs_raiseBy {helper : Value} {args : List Value} (hhelper : helper.Within κ) (hargs : ∀ x ∈ args, x.Within ρ) :
    Concurs ρ (·.Within ρ) (s'.raiseBy helper args) (s.raiseBy helper args) := by
  unfold Scope.raiseBy
  split
  · rw [h.nested.same.foreign_eq (hargs _ (by simp))]
    exact .throw
  · rw [h.nested.same.exhaustion_eq (hargs _ (by simp))]
    exact .throw
  · refine (Concurs.lift (h.callers.apt _ _ hhelper (Supplied.within_of hargs))).bind fun _ _ => ?_
    split <;> exact .throw

theorem concurs_raiseForeign {parameter unions : String} (hreach : s.Reaches ρ κ asked ["_rt"]) :
    Concurs ρ (·.Within ρ) (s'.raiseForeign parameter unions) (s.raiseForeign parameter unions) :=
  (h.concurs_helper hreach).bind fun _ herror => h.concurs_fetch.bind fun v hv =>
    h.concurs_raiseBy herror (by simp [hv])

theorem concurs_catches {e : Failure} (hreach : s.Reaches ρ κ asked ["_rt"]) :
    Concurs ρ (fun _ => True) (s'.catches e) (s.catches e) := by
  unfold Scope.catches
  split
  · exact .pure trivial
  · refine (h.concurs_helper hreach).bind fun _ _ => ?_
    split
    · exact .pure trivial
    · exact .pure trivial
    · exact .throw
    · exact .throw
    · exact .throw

/-! ### Fields -/

section Fields

variable {container : Option DottedName} {f : FieldStep}
  (hregistry : s.Reaches ρ κ asked ["_registry"]) (htype : s.Reaches ρ κ asked [f.type.head])
  (hcontainer : ∀ c, container = some c → s.Reaches ρ κ asked [c.head])

/-- A registry that a function finds may be asked. -/
theorem asked_of_name (hregistry : s.Reaches ρ κ asked ["_registry"]) (hr : s.name l "_registry" = .ok (.registry name)) :
    asked name := by
  rcases hregistry with ⟨_, hall⟩ | hfree
  · exact hall name
  · rw [Scope.name_of_foreign (hfree "_registry" (List.mem_singleton_self _))] at hr
    exact h.owned name hr

include hregistry htype hcontainer

theorem concurs_ask {request : Request} : Concurs ρ (·.Within ρ) (f.ask container s' request) (f.ask container s request) := by
  have howner : Concurs ρ (fun owner => owner.Within κ ∧ ∀ name, owner = .registry name → asked name)
      (s'.fetch "_registry") (s.fetch "_registry") := by
    refine .ask fun l hl => ?_
    have hname := h.concur_reached hl hregistry
    refine ⟨hname.1, fun owner ho => ⟨hname.2 owner ho, ?_⟩⟩
    rintro name rfl
    exact h.asked_of_name hregistry ho
  refine howner.bind fun owner howner => ?_
  extract_lets hand' hand
  have hhand (operation : Value) (hop : operation.Within κ) : Concurs ρ (·.Within ρ) (hand' operation) (hand operation) := by
    refine h.concurs_fetch.bind fun src hsrc => (Concurs.lift (h.nested.same.concur_member hsrc)).bind fun v hv => ?_
    refine (h.concurs_reachedPath htype).bind fun target ht => ?_
    have hc : Concurs ρ (fun c : Option Value => ∀ x, c = some x → x.Within κ) (container.mapM s'.fetchPath)
        (container.mapM s.fetchPath) := by
      cases container with
      | none => exact .pure (by simp)
      | some c => exact (h.concurs_reachedPath (hcontainer c rfl)).map fun x hx y hy => Option.some.inj hy ▸ hx
    refine hc.bind fun c hc => ?_
    split
    · exact .lift (h.answer _ (howner.2 _ rfl) _ _ _ _ hv ht hc)
    · refine .lift (h.callers.apt _ _ hop (Supplied.within_of ?_))
      intro x hx
      rcases List.mem_append.mp hx with hx | hx
      · simp only [List.mem_cons, List.not_mem_nil, or_false] at hx
        rcases hx with rfl | rfl
        · exact hv
        · exact ht.mono h.nested.le
      · exact (hc x (Option.mem_toList.mp hx)).mono h.nested.le
  split
  · exact (Concurs.pure Value.within_none).bind hhand
  · exact (Concurs.lift (h.nested.concur_member howner.1)).bind hhand

omit hregistry htype hcontainer in
theorem concurs_unpack {c : Value} (hc : c.Within ρ) :
    Concurs ρ (fun _ => True) (f.unpack container s' c) (f.unpack container s c) := by
  refine (Concurs.lift (h.nested.concur_invoke_nil h.callers hc)).bind fun parts hparts => ?_
  refine (Concurs.lift (h.nested.same.concur_pair hparts)).bind fun p hp => ?_
  exact (Concurs.assign hp.1).seq (.assign hp.2)

theorem concurs_convert : Concurs ρ (fun _ => True) (f.convert container s') (f.convert container s) := by
  refine (h.concurs_ask hregistry htype hcontainer).bind fun result hresult => ?_
  cases container with
  | none => exact .assign hresult
  | some c => exact h.concurs_unpack hresult

theorem concurs_attempt : Concurs ρ (fun _ => True) (f.attempt container s') (f.attempt container s) :=
  (h.concurs_ask hregistry htype hcontainer).bind fun _ hresult => .assign hresult

omit hregistry htype hcontainer in
theorem concurs_settle : Concurs ρ (fun _ => True) (f.settle container s') (f.settle container s) := by
  cases container with
  | none => exact .pure trivial
  | some c => exact h.concurs_fetch.bind fun x hx => h.concurs_unpack hx

end Fields

/-! ### Candidates -/

section Candidates

variable {container : Option DottedName} {a : Attempt}
  (hreach : s.Reaches ρ κ asked (a.reached container ++ Conversion.helpers))
include hreach

omit h in
theorem reaches_type {f : FieldStep} (hf : f ∈ a.steps) : s.Reaches ρ κ asked [f.type.head] := by
  refine hreach.mono fun name hname => ?_
  obtain rfl := List.mem_singleton.mp hname
  simp only [Attempt.reached, List.mem_append, List.mem_map, List.mem_cons]
  exact .inl ⟨f.type, .inr (.inr ⟨f, hf, rfl⟩), rfl⟩

omit h in
theorem reaches_container {c : DottedName} (hc : container = some c) : s.Reaches ρ κ asked [c.head] := by
  refine hreach.mono fun name hname => ?_
  obtain rfl := List.mem_singleton.mp hname
  simp only [Attempt.reached, List.mem_append, List.mem_map, List.mem_cons]
  exact .inl ⟨c, .inr (.inl (Option.mem_toList.mpr hc)), rfl⟩

omit h in
theorem reaches_helper (hname : name ∈ Conversion.helpers) : s.Reaches ρ κ asked [name] :=
  hreach.mono fun _ hn => List.mem_append_right _ (List.mem_singleton.mp hn ▸ hname)

theorem concurs_construct : Concurs ρ (·.Within ρ) (a.construct container s') (a.construct container s) := by
  have hconstructor : s.Reaches ρ κ asked [a.constructor.head] :=
    hreach.mono fun _ hn => List.mem_append_left _ (List.mem_singleton.mp hn ▸ List.mem_cons_self)
  have hsupplied : Concurs ρ (·.Within ρ) (a.supplied container s') (a.supplied container s) := by
    refine (Concurs.mapM fun f _ => h.concurs_fetch).bind fun values hvalues => ?_
    split
    · exact .pure (Supplied.within_of hvalues)
    · refine .pure ⟨fun _ hv => absurd hv List.not_mem_nil, fun e he => ?_⟩
      exact hvalues _ (List.of_mem_zip he).2
  refine (h.concurs_reachedPath hconstructor).bind fun constructor hc => hsupplied.bind fun supplied hs => ?_
  exact .lift (h.callers.apt _ _ hc hs)

theorem concurs_finish : Concurs ρ (·.Within ρ) (a.finish container s') (a.finish container s) := by
  refine (h.concurs_construct hreach).bind fun v hv => ?_
  cases container with
  | none => exact .pure hv
  | some c =>
    have heffects : Concurs ρ (fun es : List Value => ∀ e ∈ es, e.Within ρ) (a.effects s') (a.effects s) := by
      have hparts : Concurs ρ (fun parts : List (List Value) => ∀ es ∈ parts, ∀ e ∈ es, e.Within ρ)
          (a.steps.mapM fun f => do s'.world.spread (← s'.fetch f.effectsSlot))
          (a.steps.mapM fun f => do s.world.spread (← s.fetch f.effectsSlot)) :=
        .mapM fun f _ => h.concurs_fetch.bind fun x hx => .lift (h.nested.same.concur_spread hx)
      refine hparts.bind fun parts hparts => .pure fun e he => ?_
      obtain ⟨es, hes, he⟩ := List.mem_flatten.mp he
      exact hparts es hes e he
    refine (Concurs.assign hv).seq ((h.concurs_reachedPath (reaches_container hreach rfl)).bind fun c hc => ?_)
    refine (Concurs.lift (h.nested.concur_member hc)).bind fun compose hcompose => h.concurs_fetch.bind fun v hv => ?_
    refine heffects.bind fun es hes => .lift (h.callers.apt _ _ hcompose (Supplied.within_of ?_))
    exact List.forall_mem_cons.mpr ⟨hv, List.forall_mem_singleton.mpr (Value.within_list.mpr hes)⟩

theorem concurs_runDirect : Concurs ρ (·.Within ρ) (a.runDirect container s') (a.runDirect container s) := by
  refine (Concurs.forM fun f hf => ?_).seq (h.concurs_finish hreach)
  exact h.concurs_convert (reaches_helper hreach (by simp [Conversion.helpers])) (reaches_type hreach hf)
    fun c hc => reaches_container hreach hc

theorem concurs_runTry :
    Concurs ρ (fun v : Option Value => ∀ x, v = some x → x.Within ρ) (a.runTry container s') (a.runTry container s) := by
  have hattempts : Concurs ρ (fun _ => True) (do a.steps.forM (·.attempt container s'); return true)
      (do a.steps.forM (·.attempt container s); return true) := by
    refine (Concurs.forM fun f hf => ?_).seq (.pure trivial)
    exact h.concurs_attempt (reaches_helper hreach (by simp [Conversion.helpers])) (reaches_type hreach hf)
      fun c hc => reaches_container hreach hc
  refine (Concurs.tryCatch hattempts fun e => ?_).bind fun accepted _ => ?_
  · refine (h.concurs_catches (reaches_helper hreach (by simp [Conversion.helpers]))).bind fun caught _ => ?_
    cases caught with
    | true => exact .pure trivial
    | false => exact .throw
  · cases accepted with
    | true =>
      refine (Concurs.forM fun f _ => h.concurs_settle).seq ((h.concurs_finish hreach).map fun v hv x hx => ?_)
      exact Option.some.inj hx ▸ hv
    | false => exact .pure (by simp)

end Candidates

/-! ### Functions -/

theorem concurs_firstAccepted {container : Option DottedName} {attempts : List Attempt}
    (hreach : ∀ a ∈ attempts, s.Reaches ρ κ asked (a.reached container ++ Conversion.helpers)) :
    Concurs ρ (fun v : Option Value => ∀ x, v = some x → x.Within ρ) (ArmBody.firstAccepted container s' attempts)
      (ArmBody.firstAccepted container s attempts) := by
  induction attempts with
  | nil => exact .pure (by simp)
  | cons a attempts ih =>
    obtain ⟨ha, hattempts⟩ := List.forall_mem_cons.mp hreach
    refine (h.concurs_runTry ha).bind fun v hv => ?_
    cases v with
    | some x => exact .pure hv
    | none => exact ih hattempts

section Functions

variable {c : Conversion} (hreach : s.Reaches ρ κ asked c.reached)
include hreach

omit h in
theorem reaches_attempt {arm : Arm} {a : Attempt} (harm : arm ∈ c.arms) (ha : a ∈ arm.body.attempts) :
    s.Reaches ρ κ asked (a.reached c.container ++ Conversion.helpers) := by
  refine hreach.mono fun name hname => ?_
  rcases List.mem_append.mp hname with hname | hname
  · exact List.mem_append_left _ (Conversion.mem_written harm ha hname)
  · exact List.mem_append_right _ hname

omit h in
theorem reaches_library (hname : name ∈ Conversion.helpers) : s.Reaches ρ κ asked [name] :=
  hreach.mono fun _ hn => List.mem_append_right _ (List.mem_singleton.mp hn ▸ hname)

theorem concurs_arm {arm : Arm} (harm : arm ∈ c.arms) :
    Concurs ρ (·.Within ρ) (arm.body.run c s' arm.case) (arm.body.run c s arm.case) := by
  have hattempts (a : Attempt) (ha : a ∈ arm.body.attempts) := reaches_attempt hreach harm ha
  obtain ⟨case, body⟩ := arm
  cases body with
  | direct a => exact h.concurs_runDirect (hattempts a (List.mem_singleton_self a))
  | firstFit attempts =>
    refine (h.concurs_firstAccepted hattempts).bind fun v hv => ?_
    cases v with
    | some x => exact .pure (hv x rfl)
    | none =>
      refine (h.concurs_helper (reaches_library hreach (by simp [Conversion.helpers]))).bind fun error herror => ?_
      refine h.concurs_fetch.bind fun v hv => h.concurs_raiseBy herror ?_
      simp only [List.forall_mem_cons, Value.within_text, true_and]
      refine ⟨hv, Value.within_tuple.mpr fun x hx => ?_, by simp⟩
      obtain ⟨a, _, rfl⟩ := List.mem_map.mp hx
      exact Value.within_text _

theorem concurs_conversion : Concurs ρ (·.Within ρ) (c.body s') (c.body s) := by
  have harms (arms : List Arm) (hsub : ∀ arm ∈ arms, arm ∈ c.arms) :
      Concurs ρ (·.Within ρ) (c.runArms s' arms) (c.runArms s arms) := by
    induction arms with
    | nil => exact h.concurs_raiseForeign (reaches_library hreach (by simp [Conversion.helpers]))
    | cons arm arms ih =>
      obtain ⟨harm, harms⟩ := List.forall_mem_cons.mp hsub
      refine (h.concurs_isInstance (reaches_library hreach (by simp [Conversion.helpers]))).bind fun is _ => ?_
      cases is with
      | true => exact h.concurs_arm hreach harm
      | false => exact ih harms
  exact harms c.arms fun _ harm => harm

end Functions

theorem concurs_dispatcher {disp : Dispatcher} (hreach : s.Reaches ρ κ asked disp.reached) :
    Concurs ρ (·.Within ρ) (disp.body s') (disp.body s) := by
  have hhelper (name : String) (hname : name ∈ Dispatcher.helpers) : s.Reaches ρ κ asked [name] :=
    hreach.mono fun n hn => List.mem_append_right _ (List.mem_singleton.mp hn ▸ hname)
  have hroutes (routes : List (DottedName × String)) (hsub : ∀ r ∈ routes, r ∈ disp.routes) :
      Concurs ρ (·.Within ρ) (disp.runRoutes s' routes) (disp.runRoutes s routes) := by
    induction routes with
    | nil => exact h.concurs_raiseForeign (hhelper _ (by simp [Dispatcher.helpers]))
    | cons r routes ih =>
      obtain ⟨source, function⟩ := r
      obtain ⟨hr, hroutes⟩ := List.forall_mem_cons.mp hsub
      have hfunction : s.Reaches ρ κ asked [function] := by
        refine hreach.mono fun _ hn => List.mem_append_left _ (List.mem_append_right _ ?_)
        exact List.mem_singleton.mp hn ▸ List.mem_map.mpr ⟨_, hr, rfl⟩
      refine (h.concurs_isInstance (hhelper _ (by simp [Dispatcher.helpers]))).bind fun is _ => ?_
      cases is with
      | true =>
        refine (h.concurs_reached hfunction).bind fun f hf => h.concurs_fetch.bind fun v hv => ?_
        exact .lift (h.callers.apt _ _ hf (Supplied.within_of (List.forall_mem_singleton.mpr hv)))
      | false => exact ih hroutes
  exact hroutes disp.routes fun _ hr => hr

/-- Where a registrar is called on something that is no registry, it hands three values to whatever that has under the name
for registering. -/
theorem concurs_registrar {rs : List Registration} :
    Concurs ρ (·.Within ρ) (Registration.body s' rs) (Registration.body s rs) := by
  induction rs with
  | nil => exact .pure Value.within_none
  | cons r rs ih =>
    refine h.concurs_fetch.bind fun owner howner => ?_
    refine (Concurs.lift (h.nested.same.concur_member howner)).bind fun operation hop => ?_
    have hevaluate : Concurs ρ (fun t : Value × Value × Value => t.1.Within ρ ∧ t.2.1.Within ρ ∧ t.2.2.Within ρ)
        (r.evaluate s') (r.evaluate s) := by
      refine h.concurs_fetchPath.bind fun source hsource => h.concurs_fetch.bind fun target htarget => ?_
      exact h.concurs_fetch.bind fun f hf => .pure ⟨hsource, htarget, hf⟩
    refine hevaluate.bind fun t ht => ?_
    obtain ⟨source, target, f⟩ := t
    refine (Concurs.lift (h.callers.unfit _ [source, target, f] hop ?_ (by simp))).seq ih
    simp [ht.1, ht.2.1, ht.2.2]

end Scope.Parallel

end UnionBridge
