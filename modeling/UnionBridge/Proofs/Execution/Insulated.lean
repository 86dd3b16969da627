import UnionBridge.Proofs.Execution.Unaffected
import UnionBridge.Proofs.Region.Whole

/-! Worlds that differ in what some registries hold, and parts of loading that do the same in such worlds. None of these parts
reads these registries, though it may put converters into them: what it calls is no function of a module. -/
namespace UnionBridge

open Loading

variable {hidden : String → Prop} {w w' x : World} {t : Table String Registry} {home id : Nat} {registry name : String}
  {v f : Value} {s : Supplied} {r : Registration} {m : Module} {k : ConverterKey} {c : Converter}

/-! ### Calls -/

/-- Not a function that a module defines. -/
def Value.Homeless (v : Value) : Prop := ∀ f, v = .function f → f.home? = Option.none

theorem Value.Homeless.of_ne (h : ∀ f, v ≠ .function f) : v.Homeless := fun f hf => absurd hf (h f)

/-- Where no function lies, nothing is one. -/
theorem Value.Homeless.of_within {ρ : Region} (hv : v.Within ρ) (hρ : ∀ f, ¬ρ.functions f) : v.Homeless := by
  rintro g rfl
  cases g with
  | builtin g => rfl
  | _ => exact absurd hv (hρ _)

namespace World

/-- Only functions of modules ask registries. -/
theorem callWithin_withRegistries (hf : f.Homeless) (depth : Nat) :
    (w.withRegistries t).callWithin depth f s = w.callWithin depth f s := by
  refine ((w.same_withRegistries t).concur_callBy f.within_whole s.within_whole fun g home hg hhome => ?_).1
  rw [hf g hg] at hhome
  cases hhome

theorem calling_withRegistries (hf : f.Homeless) : (w.withRegistries t).calling f s = w.calling f s := by
  have hcall : (w.withRegistries t).call f s = w.call f s := callWithin_withRegistries hf _
  rw [calling, calling, hcall]
  rfl

theorem homeless_of_call (h : w.call f s = .ok v)
    (hrun : ∀ depth (g : FunctionRef) home, g.home? = some home → w.runWithin depth g s ≠ .ok v) : f.Homeless := by
  rintro g rfl
  cases g with
  | builtin g => rfl
  | _ => exact absurd h (hrun _ _ _ rfl)

/-- Functions of modules take one value. -/
theorem homeless_of_calling {vs : List Value} (hlength : vs.length ≠ 1) (h : (w.calling f (.of vs)).2 = .ok v) :
    f.Homeless := by
  cases hconverting : converting? f (.of vs) with
  | some e =>
    unfold converting? at hconverting
    split at hconverting
    · cases hconverting
    · exact fun g hg => Value.function.inj hg ▸ rfl
    · cases hconverting
  | none =>
    rw [calling_of_none hconverting] at h
    refine homeless_of_call h fun depth g home hg hrun => ?_
    cases depth with
    | zero => cases hrun
    | succ depth =>
      cases g with
      | builtin g => cases hg
      | _ =>
        obtain ⟨_, hlocals, _⟩ := Except.exists_of_bind_eq_ok hrun
        obtain ⟨e, he⟩ := Parameters.exists_bind_unfit _ _ hlength
        rw [he] at hlocals
        cases hlocals

theorem homeless_of_calling_frozen (h : (w.calling f frozen).2 = .ok v) : f.Homeless :=
  homeless_of_call ((call_of_calling (by simp [frozen])).symm.trans h) fun _ _ _ hg => runWithin_frozen hg

end World

/-! ### Hidden registries -/

namespace World

/-- Two worlds differ at most in what hidden registries hold. -/
structure AlikeBut (hidden : String → Prop) (w w' : World) : Prop where
  rest : w' = w.withRegistries w'.registries
  registry_eq : ∀ name, ¬hidden name → w'.registry name = w.registry name

namespace AlikeBut

protected theorem refl (w : World) : w.AlikeBut hidden w := ⟨rfl, fun _ _ => rfl⟩

/-- The same converter comes into the same registry. -/
theorem register (h : w.AlikeBut hidden w') : (w.register registry k c).AlikeBut hidden (w'.register registry k c) := by
  refine ⟨?_, fun name hn => ?_⟩
  · rw [h.rest]
    rfl
  · rw [registry_register_ite, registry_register_ite, h.registry_eq name hn]

/-- What comes into a hidden registry makes no difference. -/
theorem register_hidden (h : w.AlikeBut hidden w') (hregistry : hidden registry) :
    w.AlikeBut hidden (w'.register registry k c) := by
  refine ⟨?_, fun name hn => ?_⟩
  · rw [h.rest]
    rfl
  · rw [registry_register_ite, if_neg fun heq : registry = name => hn (heq ▸ hregistry), h.registry_eq name hn]

theorem addAll (h : w.AlikeBut hidden w') (as : List Addition) : (w.addAll as).AlikeBut hidden (w'.addAll as) := by
  induction as generalizing w w' with
  | nil => exact h
  | cons a as ih => exact ih h.register

/-- The worlds change alike, but for their registries. -/
theorem map (h : w.AlikeBut hidden w') {g : World → World} (hg : ∀ w t, g (w.withRegistries t) = (g w).withRegistries t) :
    (g w).AlikeBut hidden (g w') := by
  have hkept (w : World) : (g w).registries = w.registries := (congrArg registries (hg w w.registries) :)
  refine ⟨?_, fun name hn => ?_⟩
  · rw [hkept, ← hg, ← h.rest]
  · rw [World.registry, World.registry, hkept, hkept]
    exact h.registry_eq name hn

/-- One of the worlds changes, but for its registries, and the other one has become the same. -/
theorem withRegistries (h : w.AlikeBut hidden w') (hx : x.registries = w.registries) :
    x.AlikeBut hidden (x.withRegistries w'.registries) := by
  refine ⟨rfl, fun name hn => ?_⟩
  have hregistry : x.registry name = w.registry name := by rw [World.registry, World.registry, hx]
  exact (h.registry_eq name hn).trans hregistry.symm

theorem setGlobal (h : w.AlikeBut hidden w') : (w.setGlobal home name v).AlikeBut hidden (w'.setGlobal home name v) :=
  h.map (g := fun w => w.setGlobal home name v) fun _ _ => rfl

theorem setImportable (h : w.AlikeBut hidden w') {found : Option ModuleRef} :
    (w.setImportable name found).AlikeBut hidden (w'.setImportable name found) :=
  h.map (g := fun w => w.setImportable name found) fun _ _ => rfl

theorem entering (h : w.AlikeBut hidden w') {r : LoadRequest} : (w.entering r).AlikeBut hidden (w'.entering r) :=
  h.map (g := fun w => w.entering r) fun _ _ => rfl

/-- The same modules are run. -/
theorem runAll (h : w.AlikeBut hidden w') (paths : List String) : (w.runAll paths).AlikeBut hidden (w'.runAll paths) := by
  induction paths generalizing w w' with
  | nil => exact h
  | cons path paths ih =>
    have hdormant : w'.dormant = w.dormant := by
      rw [h.rest]
      rfl
    have hadded := (h.addAll ((w.dormant.get? path).getD [])).map
      (g := fun x => { x with dormant := w.dormant.erase path }) fun _ _ => rfl
    refine ih (?_ : (w.run path).AlikeBut hidden (w'.run path))
    rwa [run, run, hdormant]

theorem globalPath_eq (h : w.AlikeBut hidden w') (d : DottedName) : w'.globalPath home d = w.globalPath home d := by
  rw [h.rest, globalPath_withRegistries]

theorem lookup_eq (h : w.AlikeBut hidden w') (hn : ¬hidden name) (source : ClassRef) (target : Value) (fallible : Bool) :
    w'.lookup (w'.registry name) source target fallible = w.lookup (w.registry name) source target fallible := by
  rw [h.registry_eq name hn, h.rest]
  rfl

theorem calling_eq (h : w.AlikeBut hidden w') (hf : f.Homeless) : w'.calling f s = w.calling f s := by
  rw [h.rest, calling_withRegistries hf]

end AlikeBut

end World

/-- What a converter does depends on no hidden registry. -/
def Converter.Aloof (hidden : String → Prop) (w : World) (c : Converter) : Prop :=
  ∀ w', w.AlikeBut hidden w' → ∀ depth v, c.run w' (w'.callWithin depth) v = c.run w (w.callWithin depth) v

/-- What a converter calls is no function of a module. -/
def Behaviour.Homeless (w : World) : Behaviour → Prop
  | .make f => f.Homeless
  | .withEffects container target _ =>
    (∀ f, w.member container "new" = .ok f → f.Homeless) ∧ ∀ f, target = some f → f.Homeless
  | _ => True

def Converter.Homeless (w : World) : Converter → Prop
  | .callable f => f.Homeless
  | .custom _ b => b.Homeless w

theorem World.invoke_new {call : Caller} {args : List Value} :
    w.invoke call v "new" args = (w.member v "new" >>= fun f => call f (.of args)) := by
  rw [invoke]
  intro k content effects hv hop
  cases (show CarrierOp.ofName? "new" = some .new from rfl).symm.trans hop

theorem Behaviour.run_withRegistries {b : Behaviour} (hb : b.Homeless w) (depth : Nat) (v : Value) :
    b.run (w.withRegistries t) ((w.withRegistries t).callWithin depth) v = b.run w (w.callWithin depth) v := by
  have hsame := w.same_withRegistries t
  have hcall {f : Value} (hf : f.Homeless) (s : Supplied) :
      (w.withRegistries t).callWithin depth f s = w.callWithin depth f s := World.callWithin_withRegistries hf depth
  cases b with
  | pure f => rfl
  | constant result => rfl
  | raise kind text => rfl
  | add amount => exact (hsame.concur_add v.within_whole amount.within_whole).1
  | make f => exact hcall hb _
  | atMost limit target reason =>
    have hexceeds := hsame.exceeds_eq v.within_whole limit.within_whole
    simp only [run, hexceeds, hsame.rejection_eq v.within_whole target.within_whole]
  | reject target reason => simp only [run, hsame.rejection_eq v.within_whole target.within_whole]
  | withEffects container target effects =>
    obtain ⟨hnew, htarget⟩ := hb
    have htexts : effectTexts (w.withRegistries t) effects v = effectTexts w effects v := by
      simp only [effectTexts, hsame.textOf_eq v.within_whole]
    have hmember : (w.withRegistries t).member container "new" = w.member container "new" :=
      (hsame.concur_member container.within_whole).1
    have hput (args : List Value) :
        (w.withRegistries t).invoke ((w.withRegistries t).callWithin depth) container "new" args =
          w.invoke (w.callWithin depth) container "new" args := by
      rw [World.invoke_new, World.invoke_new, hmember]
      cases hf : w.member container "new" with
      | error e => rfl
      | ok f => exact hcall (hnew f hf) _
    cases target with
    | none => simp only [run, htexts, hput]
    | some f => simp only [run, htexts, hput, hcall (htarget f rfl)]

/-- A converter that calls no function of a module asks no registry. -/
theorem Converter.Homeless.aloof (h : c.Homeless w) : c.Aloof hidden w := by
  intro w' halike depth v
  rw [halike.rest]
  cases c with
  | callable f => exact World.callWithin_withRegistries h depth
  | custom label b => exact Behaviour.run_withRegistries h depth v

/-! ### Loading -/

namespace Loading

variable {α β : Type} {a : Loading α} {k : α → Loading β}

/-- A part of loading that comes out well does so whatever hidden registries hold, and again leaves worlds that differ only
in these. -/
def Insulated (hidden : String → Prop) (a : Loading α) (w : World) : Prop :=
  ∀ w', w.AlikeBut hidden w' → ∀ v x, Gives a w v x → ∃ x', Gives a w' v x' ∧ x.AlikeBut hidden x'

theorem insulated_bind (ha : Insulated hidden a w) (hk : ∀ v w', Gives a w v w' → Insulated hidden (k v) w') :
    Insulated hidden (a >>= k) w := by
  intro w' h v x hx
  obtain ⟨u, y, hy, hx⟩ := gives_bind.mp hx
  obtain ⟨y', hy', halike⟩ := ha w' h u y hy
  obtain ⟨x', hx', halike⟩ := hk u y hy y' halike v x hx
  exact ⟨x', gives_bind.mpr ⟨u, y', hy', hx'⟩, halike⟩

theorem insulated_pure (v : α) : Insulated hidden (pure v) w := by
  intro w' h u x hx
  obtain ⟨rfl, rfl⟩ := gives_pure.mp hx
  exact ⟨w', gives_pure.mpr ⟨rfl, rfl⟩, h⟩

theorem insulated_modify {g : World → World} (hg : ∀ w', w.AlikeBut hidden w' → (g w).AlikeBut hidden (g w')) :
    Insulated hidden (modify g) w := by
  intro w' h u x hx
  obtain rfl := gives_modify.mp hx
  exact ⟨_, gives_modify.mpr rfl, hg w' h⟩

theorem insulated_name (v : Value) : Insulated hidden (bind home name v) w := insulated_modify fun _ h => h.setGlobal

/-- The same as in some other world, where registries hold what they hold. -/
theorem insulated_bind_get {k : World → Loading β}
    (h : ∀ w', w.AlikeBut hidden w' → ∀ v x, Gives (k w) w v x → ∃ x', Gives (k w') w' v x' ∧ x.AlikeBut hidden x') :
    Insulated hidden (get >>= k) w := by
  intro w' halike v x hx
  obtain ⟨x', hx', hleft⟩ := h w' halike v x (gives_bind_get.mp hx)
  exact ⟨x', gives_bind_get.mpr hx', hleft⟩

/-- A question to which registries have no say in the answer. -/
theorem insulated_bind_ask {q : World → Except Failure α} (hq : ∀ t, q (w.withRegistries t) = q w)
    (hk : ∀ v, q w = .ok v → Insulated hidden (k v) w) : Insulated hidden ((do let w ← get; liftM (q w)) >>= k) w := by
  refine insulated_bind (fun w' h v x hx => ?_) fun v w' hv => ?_
  · obtain ⟨hv, rfl⟩ := gives_ask.mp hx
    refine ⟨w', gives_ask.mpr ⟨?_, rfl⟩, h⟩
    rw [h.rest, hq, hv]
  · obtain ⟨hv, rfl⟩ := gives_ask.mp hv
    exact hk v hv

/-- Steps that are insulated where something holds that every step preserves. -/
theorem insulated_forM_of {δ : Type} {P : World → Prop} {g : δ → Loading PUnit} {cs : List δ} (hw : P w)
    (hstep : ∀ c ∈ cs, ∀ w w', P w → Gives (g c) w ⟨⟩ w' → P w') (h : ∀ c ∈ cs, ∀ w, P w → Insulated hidden (g c) w) :
    Insulated hidden (cs.forM g) w := by
  induction cs generalizing w with
  | nil => exact insulated_pure _
  | cons c cs ih =>
    obtain ⟨hc, hcs⟩ := List.forall_mem_cons.mp h
    obtain ⟨hstep, hsteps⟩ := List.forall_mem_cons.mp hstep
    exact insulated_bind (hc w hw) fun _ w₁ hw₁ => ih (hstep w w₁ hw hw₁) hsteps hcs

theorem insulated_forM {δ : Type} {g : δ → Loading PUnit} {cs : List δ} (h : ∀ c ∈ cs, ∀ w, Insulated hidden (g c) w) :
    Insulated hidden (cs.forM g) w :=
  insulated_forM_of (P := fun _ => True) trivial (fun _ _ _ _ _ _ => trivial) fun c hc w _ => h c hc w

theorem insulated_forM_append {δ : Type} {g : δ → Loading PUnit} {cs ds : List δ} (hcs : Insulated hidden (cs.forM g) w)
    (hds : ∀ w', Gives (cs.forM g) w ⟨⟩ w' → Insulated hidden (ds.forM g) w') : Insulated hidden ((cs ++ ds).forM g) w := by
  intro w' h u x hx
  obtain ⟨y, hy, hx⟩ := gives_forM_append.mp hx
  obtain ⟨y', hy', halike⟩ := hcs w' h _ y hy
  obtain ⟨x', hx', halike⟩ := hds y hy y' halike u x hx
  exact ⟨x', gives_forM_append.mpr ⟨y', hy', hx'⟩, halike⟩

variable {k : Value → Loading β}

theorem insulated_bind_global (hk : ∀ v, w.global home name = .ok v → Insulated hidden (k v) w) :
    Insulated hidden (global home name >>= k) w :=
  insulated_bind_ask (fun _ => rfl) hk

theorem insulated_bind_globalPath {d : DottedName} (hk : ∀ v, w.globalPath home d = .ok v → Insulated hidden (k v) w) :
    Insulated hidden (globalPath home d >>= k) w :=
  insulated_bind_ask (fun _ => World.globalPath_withRegistries) hk

/-- What is called is no function of a module, if all goes well. -/
theorem insulated_bind_call (hf : ∀ v, (w.calling f s).2 = .ok v → f.Homeless)
    (hk : ∀ v, (w.calling f s).2 = .ok v → Insulated hidden (k v) (w.addAll (w.calling f s).1)) :
    Insulated hidden (call f s >>= k) w := by
  refine insulated_bind (fun w' h v x hx => ?_) fun v x hx => ?_
  · obtain ⟨hv, rfl⟩ := gives_call.mp hx
    have hcalling := h.calling_eq (hf v hv) (s := s)
    exact ⟨_, gives_call.mpr ⟨hcalling ▸ hv, rfl⟩, hcalling ▸ h.addAll _⟩
  · obtain ⟨hv, rfl⟩ := gives_call.mp hx
    exact hk v hv

end Loading

/-! ### Registrations -/

namespace Registration

/-- What a registration registers is found by names. -/
theorem evaluated?_withRegistries : r.evaluated? (w.withRegistries t) home v = r.evaluated? w home v := by
  have hname (l : Locals) (name : String) : (scope (w.withRegistries t) home).name l name = (scope w home).name l name := rfl
  have hpath (l : Locals) (d : DottedName) : (scope (w.withRegistries t) home).path l d = (scope w home).path l d := by
    simp only [Scope.path, hname]
    simp only [scope, World.memberPath_withRegistries]
  change (Action.eval (r.evaluate (scope (w.withRegistries t) home)) _).1 = (Action.eval (r.evaluate (scope w home)) _).1
  simp only [evaluate, Action.eval_bind, Scope.eval_fetchPath, Scope.eval_fetch, hname, hpath]

theorem insulated_execute (r : Registration) (w : World) : Insulated hidden (r.execute home registry) w := by
  intro w' h u x hx
  obtain ⟨a, ha, rfl⟩ := gives_execute_iff.mp hx
  have haddition : r.addition? w' home registry = r.addition? w home registry := by
    rw [addition?, addition?, h.rest, evaluated?_withRegistries]
  exact ⟨_, gives_execute_iff.mpr ⟨a, haddition.trans ha, rfl⟩, h.addAll [a]⟩

/-- An operation that takes a source, a target and a function is no function of a module. -/
theorem insulated_offer (r : Registration) (w : World) : Insulated hidden (r.offer home v) w := by
  refine insulated_bind_ask (q := fun w => w.member v "register") (fun t => ?_) fun operation _ => ?_
  · exact ((w.same_withRegistries t).concur_member v.within_whole).1
  · refine insulated_bind_ask (q := fun w => r.evaluated? w home v) (fun t => evaluated?_withRegistries) fun e _ => ?_
    obtain ⟨source, target, f⟩ := e
    exact insulated_bind_call (fun _ hv => World.homeless_of_calling (by simp) hv) fun _ _ => insulated_pure _

end Registration

theorem Loading.insulated_register (rs : List Registration) (registry : Value) (w : World) :
    Insulated hidden (Loading.register (.function (.registrar home rs)) registry) w := by
  cases registry with
  | registry name => exact insulated_forM fun r _ w => r.insulated_execute w
  | _ => exact insulated_forM fun r _ w => r.insulated_offer w

end UnionBridge
