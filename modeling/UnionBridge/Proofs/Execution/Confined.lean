import UnionBridge.Proofs.Execution.Insulated
import UnionBridge.Proofs.Region.Newcomer

/-! What a module does while it leads to nothing but itself: what it imports, declares and registers then leads to nothing else,
either. None of its declarations calls a function of a module, so that no registry has a say in them. -/
namespace UnionBridge

open Loading

variable {hidden : String → Prop} {w x x' : World} {functions : FunctionRef → Prop} {name : String} {v f : Value} {s : Supplied}
  {u : Unit} {as : List Addition}

namespace World.Confined

section

variable (h : w.Confined functions x)
include h

theorem within_call (hf : f.Within (.newcomer w functions)) (hs : s.Within (.newcomer w functions)) (hhome : f.Homeless)
    (hv : x.call f s = .ok v) : v.Within (.newcomer w functions) := by
  have hcall : Concur (·.Within (.newcomer w functions)) (x.call f s) (x.call f s) := by
    refine h.closed.concur_callBy hf hs fun g home hg hg' => ?_
    rw [hhome g hg] at hg'
    cases hg'
  exact hcall.2 v hv

/-- Unless a call passes a source, a target and a function, it only adds what comes from outside. -/
theorem add_calling (hs : s.positional.length ≠ 3) : w.Confined functions (x.addAll (x.calling f s).1) :=
  h.addOutside (fromOutside_calling hs)

/-! ### Imports -/

variable (himportable : ∀ name m, x.importable.get? name = some m → m.Within (.newcomer w functions))
include himportable

theorem within_take {a : Value} (hv : v.Within (.newcomer w functions)) (ha : x.take v name = .ok a) :
    a.Within (.newcomer w functions) := by
  simp only [take] at ha
  split at ha
  · rename_i a hfound
    exact Except.ok.inj ha ▸ h.closed.within_member? hv hfound
  · rename_i m _ hfound
    obtain ⟨path, _, hm⟩ := Option.bind_eq_some_iff.mp hfound
    exact Except.ok.inj ha ▸ Value.within_module.mpr (himportable _ _ hm)
  · cases ha

theorem of_import {i : Import} (hi : Gives (i.execute w.modules.length) x u x') : w.Confined functions x' := by
  obtain ⟨_, _, hrun, hi⟩ := gives_bind.mp hi
  obtain rfl := gives_modify.mp hrun
  have h := h.run (i.runs x)
  have hsame : (x.runAll (i.runs x)).importable = x.importable := by
    obtain ⟨as, t, hrun, _⟩ := x.exists_runAll (i.runs x)
    rw [hrun]
    exact importable_addAll
  rw [← hsame] at himportable
  generalize x.runAll (i.runs x) = x at h hi himportable
  have hlocate (d : DottedName) (m : ModuleRef) (hm : x.locate d = .ok m) :
      (Value.module m).Within (.newcomer w functions) := by
    obtain ⟨_, hfound⟩ := exists_of_locateReversed hm
    exact Value.within_module.mpr (himportable _ _ hfound)
  obtain ⟨m, hm, hi⟩ := gives_bind_lift.mp (gives_bind_get.mp hi)
  split at hi
  · refine (preserved_of_forM (P := fun y => w.Confined functions y ∧ y.importable = x.importable) ⟨h, rfl⟩ hi ?_).1
    rintro n _ y y' ⟨hy, hsame⟩ hn
    obtain ⟨v, hv, hn⟩ := gives_bind_lift.mp (gives_bind_get.mp hn)
    obtain rfl := gives_name.mp hn
    exact ⟨hy.bind (hy.within_take (hsame ▸ himportable) (hlocate _ _ hm) hv), hsame⟩
  · obtain ⟨top, htop, hi⟩ := gives_bind_lift.mp hi
    split at hi
    · obtain rfl := gives_name.mp hi
      exact h.bind (hlocate _ _ htop)
    · obtain ⟨v, hv, hi⟩ := gives_bind_lift.mp hi
      obtain rfl := gives_name.mp hi
      have hpath : Concur (·.Within (.newcomer w functions)) (i.module.rest.foldlM x.take (.module top))
          (i.module.rest.foldlM x.take (.module top)) :=
        .foldlM (hlocate _ _ htop) fun v hv name _ => ⟨rfl, fun a ha => h.within_take himportable hv ha⟩
      exact h.bind (hpath.2 v hv)

end

/-! ### Unions -/

variable (h : w.Confined (fun _ => False) x)
include h

/-- As long as no function came in, none is called. -/
theorem homeless_calling (hf : f.Within (.newcomer w fun _ => False)) (hs : s.Within (.newcomer w fun _ => False))
    (hlength : s.positional.length ≠ 3) (hv : (x.calling f s).2 = .ok v) :
    v.Homeless ∧ v.Within (.newcomer w fun _ => False) := by
  have hwithin := h.within_call hf hs (.of_within hf fun _ hf => hf) ((call_of_calling hlength).symm.trans hv)
  exact ⟨.of_within hwithin fun _ hf => hf, hwithin⟩

theorem of_case {c : CaseClass} (hc : Gives (c.execute w.modules.length) x u x') : w.Confined (fun _ => False) x' := by
  obtain ⟨maker, hfound, hc⟩ := gives_bind_global.mp hc
  have hmaker := h.within_global hfound
  extract_lets declare at hc
  have hdeclare (wrap : Option Value) (x : World) (h : w.Confined (fun _ => False) x) (hd : Gives (declare wrap) x u x')
      (hwrap : ∀ f, wrap = some f → f.Within (.newcomer w fun _ => False)) : w.Confined (fun _ => False) x' := by
    obtain ⟨base, hbase, hd⟩ := gives_bind_global.mp hd
    have hbase := h.within_global hbase
    split at hd
    · obtain ⟨moduleName, hmodule, hd⟩ := gives_bind_global.mp hd
      have hattributes := c.within_bodyAttributes (h.within_global hmodule)
      obtain ⟨⟨id, x₁⟩, hdeclared, hd⟩ := gives_bind_lift.mp (gives_bind_get.mp hd)
      obtain ⟨h₁, hid⟩ := h.declareClass (List.forall_mem_singleton.mpr (Value.within_cls.mp hbase)) hattributes hdeclared
      have hd := gives_bind_set.mp hd
      cases wrap with
      | none =>
        obtain ⟨x₂, hmade, hd⟩ := gives_bind_lift.mp hd
        obtain rfl := gives_name.mp (gives_bind_set.mp hd)
        exact (h₁.makeRecord hid hmade).bind (Value.within_cls.mpr hid)
      | some f =>
        obtain ⟨v, hv, hd⟩ := gives_bind_call.mp hd
        obtain rfl := gives_name.mp hd
        have hcls : (Value.cls (.declared id)).Within (.newcomer w fun _ => False) := hid
        have hone : (Supplied.of [.cls (.declared id)]).positional.length ≠ 3 := by simp [Supplied.of]
        have hwithin := (h₁.homeless_calling (hwrap f rfl) (Supplied.within_of (List.forall_mem_singleton.mpr hcls)) hone hv).2
        exact (h₁.add_calling hone).bind hwithin
    · exact absurd (gives_bind_get.mp hd) not_gives_throw
  split at hc
  · obtain ⟨wrap, _, hwrap, hd⟩ := gives_bind.mp hc
    obtain ⟨rfl, rfl⟩ := gives_pure.mp hwrap
    exact hdeclare none _ h hd fun _ hf => by cases hf
  · obtain ⟨wrap, _, hwrap, hd⟩ := gives_bind.mp hc
    obtain ⟨f, hf, hwrap⟩ := gives_bind_call.mp hwrap
    obtain ⟨rfl, rfl⟩ := gives_pure.mp hwrap
    refine hdeclare (some f) _ (h.add_calling (by simp)) hd fun g hg => ?_
    exact Option.some.inj hg ▸ (h.homeless_calling hmaker ⟨by simp, by simp⟩ (by simp) hf).2

theorem of_attach {c : CaseClass} (hc : Gives (c.attach w.modules.length) x u x') : w.Confined (fun _ => False) x' := by
  obtain ⟨f, _, hc⟩ := gives_bind_globalPath.mp hc
  obtain ⟨union, hunion, hc⟩ := gives_bind_global.mp hc
  obtain ⟨variant, hvariant, hc⟩ := gives_bind_global.mp hc
  split at hc
  · rename_i union variant
    have hc := gives_bind_set.mp (gives_bind_get.mp hc)
    obtain ⟨_, rfl⟩ := gives_lift.mp hc
    exact h.attachVariant (Value.within_cls.mp (h.within_global hunion)) (Value.within_cls.mp (h.within_global hvariant))
  · obtain ⟨_, _, hc⟩ := gives_bind_call.mp hc
    obtain ⟨_, rfl⟩ := gives_pure.mp hc
    refine h.addAll fun a ha => ?_
    rcases mem_calling ha with ha | ⟨source, target, fn, rfl, hs, _, rfl⟩
    · exact .inl (.outside (h.outside_eq ▸ ha))
    · obtain ⟨-, -, rfl⟩ : union = source ∧ variant = target ∧ Value.text c.case = fn := by simpa [Supplied.of] using hs
      exact .inr ⟨_, rfl, Value.within_text _⟩

theorem of_declare {n : UnionClass} (hn : Gives (n.declare w.modules.length) x u x') : w.Confined (fun _ => False) x' := by
  obtain ⟨moduleName, hmodule, hn⟩ := gives_bind_global.mp hn
  have hmodule := h.within_global hmodule
  obtain ⟨⟨id, x₁⟩, hdeclared, hn⟩ := gives_bind_lift.mp (gives_bind_get.mp hn)
  have hattributes : Table.Within (.newcomer w fun _ => False)
      ⟨[("__module__", moduleName), ("__doc__", .text n.docText), ("__slots__", .tuple [])]⟩ := by
    refine .of_entries ?_
    simp [hmodule]
  obtain ⟨h₁, hid⟩ := h.declareClass (by simp) hattributes hdeclared
  obtain rfl := gives_name.mp (gives_bind_set.mp hn)
  exact h₁.bind (Value.within_cls.mpr hid)

/-- A union comes in with its variants, step by step. -/
theorem of_step {n : UnionClass} {s : Loading Unit} (hs : s ∈ n.steps w.modules.length) (hg : Gives s x u x') :
    w.Confined (fun _ => False) x' := by
  rw [UnionClass.steps, List.mem_cons, List.mem_append, List.mem_map, List.mem_map] at hs
  rcases hs with rfl | ⟨c, _, rfl⟩ | ⟨c, _, rfl⟩
  · exact h.of_declare hg
  · exact h.of_case hg
  · exact h.of_attach hg

theorem of_union {n : UnionClass} (hn : Gives (n.execute w.modules.length) x u x') : w.Confined (fun _ => False) x' := by
  rw [UnionClass.execute_eq] at hn
  exact preserved_of_forM h hn fun s hs _ _ h hg => h.of_step hs hg

end World.Confined

/-! ### What bridges call -/

namespace World

/-- What bridges call is no function of a module. -/
structure Serves (w : World) (home : Nat) : Prop where
  require : ∀ f, w.globalPath home ⟨"_rt", ["require_effect_container"]⟩ = .ok f → f.Homeless
  detach : ∀ f, w.global home "staticmethod" = .ok f → f.Homeless

/-- What the functions of a module do not reach into while they come in: attributes of classes but for dispatchers, and names
but for those of functions. -/
structure Untouched (w x : World) : Prop where
  attributes : ∀ id c, w.classes.length ≤ id → x.classes[id]? = some c → ∀ name v, name ≠ "from_source" →
    c.attributes.get? name = some v → v.Within (.newcomer w fun _ => False)
  globals : ∀ name v, ¬Naming.SaysFrom name → (x.globals w.modules.length).get? name = some v →
    v.Within (.newcomer w fun _ => False)

theorem Confined.untouched (h : w.Confined (fun _ => False) x) : w.Untouched x where
  attributes id c hid hc name v _ hv := (h.classes id c hid hc).attributes name v hv
  globals name v _ hv := h.globals name v hv

/-- Nothing is worked out to an operation that requires a container. -/
theorem instanceData?_require (v : Value) : x.instanceData? v "require_effect_container" = none := by
  cases v <;> rfl

theorem classAttribute?_require (c : ClassRef) : x.classAttribute? c "require_effect_container" =
    ((x.inherited? c "require_effect_container") <|> x.fromMetaclass? c "require_effect_container") := by
  have hdata : x.classData? c "require_effect_container" = none := rfl
  rw [classAttribute?, if_neg (by decide), hdata]
  rfl

theorem homeless_of_overridden? {operation arg : String} (h : x.overridden? v operation [.text arg] = some (.ok f)) :
    f.Homeless := by
  unfold overridden? at h
  split at h
  · obtain ⟨o, _, ho⟩ := Option.map_eq_some_iff.mp h
    obtain ⟨_, _, fields, _, rfl⟩ := exists_of_instantiate (s := .of [.text arg]) rfl ho
    exact .of_ne nofun
  · obtain ⟨o, _, ho⟩ := Option.map_eq_some_iff.mp h
    obtain ⟨_, _, fields, _, rfl⟩ := exists_of_instantiate (s := .of [.text arg]) rfl ho
    exact .of_ne nofun
  · cases h

namespace Untouched

variable (h : w.Untouched x)
include h

theorem within_global (hn : ¬Naming.SaysFrom name) (hv : x.global w.modules.length name = .ok v) :
    v.Within (.newcomer w fun _ => False) := by
  unfold global at hv
  split at hv
  · rename_i a ha
    cases hv
    rcases (Option.orElse_eq_some _ _ _).mp ha with hconstant | ⟨_, ha⟩
    · exact within_constant? hconstant
    · rcases (Option.orElse_eq_some _ _ _).mp ha with hglobal | ⟨_, hbuiltin⟩
      · exact h.globals _ _ hn hglobal
      · exact within_builtinName? hbuiltin
  · cases hv

variable (hx : w.Confined functions x)
include hx

theorem homeless_ownAttribute? {reader : String} {c : ClassRef} (hc : c.Within (.newcomer w functions))
    (hn : name ≠ "from_source") (hv : x.ownAttribute? reader name c = some v) : v.Homeless := by
  cases c with
  | builtin b =>
    have hwithin := Same.within_ownAttribute?_builtin (hx.closed_outside (.newcomer w fun _ => False)) hv
    exact .of_within hwithin fun _ hf => hf
  | declared id =>
    obtain ⟨decl, hdecl, hget⟩ := Option.bind_eq_some_iff.mp hv
    exact .of_within (h.attributes id decl hc hdecl _ _ hn hget) fun _ hf => hf

theorem homeless_inherited? {c : ClassRef} (hc : c.Within (.newcomer w functions)) (hn : name ≠ "from_source")
    (hv : x.inherited? c name = some v) : v.Homeless := by
  obtain ⟨d, hd, ha⟩ := List.exists_of_findSome?_eq_some hv
  exact h.homeless_ownAttribute? hx (hx.closed.within_chain hc d hd) hn ha

theorem homeless_fromClass? (hv : v.Within (.newcomer w functions)) (hn : name ≠ "from_source")
    (hf : x.fromClass? v name = some f) : f.Homeless := by
  obtain ⟨d, hd, hf⟩ := List.exists_of_findSome?_eq_some hf
  have hd := hx.closed.within_chain (Value.within_classOf hv) d hd
  cases d with
  | builtin b =>
    simp only at hf
    split at hf
    · cases hf
      exact .of_ne nofun
    · exact h.homeless_ownAttribute? hx hd hn hf
  | declared id =>
    obtain ⟨a, ha, rfl⟩ := Option.map_eq_some_iff.mp hf
    split
    · split
      · exact .of_ne nofun
      · exact .of_ne nofun
    · exact h.homeless_ownAttribute? hx hd hn ha

/-- What is there to require a container is no function of the module. -/
theorem homeless_member? (hv : v.Within (.newcomer w fun _ => False))
    (hf : x.member? v "require_effect_container" = some f) : f.Homeless := by
  have hwithin : v.Within (.newcomer w functions) := hv.mono (Region.newcomer_mono nofun)
  have houter := hx.closed_outside
  have hinstance (hf : ((x.instanceData? v "require_effect_container") <|> (x.ownValue? v "require_effect_container") <|>
      x.fromClass? v "require_effect_container") = some f) : f.Homeless := by
    obtain ⟨-, hf⟩ := ((Option.orElse_eq_some _ _ _).mp hf).resolve_left (by rw [instanceData?_require]; nofun)
    rcases (Option.orElse_eq_some _ _ _).mp hf with hown | ⟨_, hclass⟩
    · cases v with
      | module m =>
        cases m with
        | loaded id =>
          obtain rfl : id = w.modules.length := Value.within_module.mp hwithin
          exact .of_within (h.globals _ _ (by decide +kernel) hown) fun _ hf => hf
        | library path =>
          rcases (Option.orElse_eq_some _ _ _).mp hown with hlibrary | ⟨_, houtside⟩
          · exact .of_within (ρ := .newcomer w fun _ => False) (Library.within_attribute? hlibrary) fun _ hf => hf
          · exact .of_within ((houter _).attributes _ _ _ hv houtside) fun _ hf => hf
      | record id fields =>
        obtain ⟨e, he, rfl⟩ := Option.map_eq_some_iff.mp hown
        exact .of_within ((Value.within_record.mp hv).2 e (List.mem_of_find?_eq_some he)) fun _ hf => hf
      | intrinsic i => exact .of_within ((houter _).attributes _ _ _ hv hown) fun _ hf => hf
      | _ => cases hown
    · exact h.homeless_fromClass? hx hwithin (by decide) hclass
  cases v with
  | cls c =>
    rcases (Option.orElse_eq_some _ _ _).mp ((classAttribute?_require c).symm.trans hf) with hinherited | ⟨_, hmeta⟩
    · exact h.homeless_inherited? hx (Value.within_cls.mp hwithin) (by decide) hinherited
    · unfold fromMetaclass? at hmeta
      split at hmeta <;> cases hmeta <;> exact .of_ne nofun
  | _ => exact hinstance hf

/-- What is there to require a container is no function of the module. -/
theorem homeless_member (hv : v.Within (.newcomer w fun _ => False))
    (hf : x.member v "require_effect_container" = .ok f) : f.Homeless := by
  unfold member at hf
  split at hf
  · rename_i hresult
    exact homeless_of_overridden? (hf ▸ hresult)
  · split at hf
    · rename_i hfound
      cases hf
      exact h.homeless_member? hx hv hfound
    · rename_i hresult
      exact homeless_of_overridden? (hf ▸ hresult)
    · cases hf
    · cases hf

theorem serves : x.Serves w.modules.length where
  require f hf := by
    obtain ⟨v, hv, hf⟩ := Except.exists_of_bind_eq_ok hf
    obtain ⟨a, ha, hf⟩ := Except.exists_of_bind_eq_ok hf
    cases hf
    exact h.homeless_member hx (h.within_global (by decide +kernel) hv) ha
  detach f hf := .of_within (h.within_global (by decide +kernel) hf) fun _ hf => hf

end Untouched

end World

/-! ### Bridges -/

section Bridges

variable {b : Bridge} (hb : ∀ c ∈ b.conversions, Naming.SaysFrom c.name)
include hb

namespace Bridge

variable {home : Nat}

theorem notMem_definitions (hn : ¬Naming.SaysFrom name) : name ∉ (b.definitions home).map Prod.fst := by
  intro hmem
  obtain ⟨e, he, rfl⟩ := List.mem_map.mp hmem
  rcases mem_definitions.mp he with ⟨c, hc, rfl⟩ | rfl
  · exact hn (hb c hc)
  · exact hn (Naming.saysFrom_dispatcherName b.dest)

/-- What takes the functions out of the place in their class is what it was before they came in. -/
theorem homeless_detach (h : w.Serves home) {detach : Value}
    (hdetach : ((w.setGlobals home (b.definitions home)).addAll as).global home "staticmethod" = .ok detach) :
    detach.Homeless := by
  rw [World.global_addAll, World.global_setGlobals_of_notMem (notMem_definitions hb (by decide +kernel))] at hdetach
  exact h.detach detach hdetach

theorem insulated_execute (h : w.Serves home) : Insulated hidden (b.execute home) w := by
  have hchecks : Insulated hidden (b.container.forM (checkContainer home)) w := by
    cases b.container with
    | none => exact insulated_pure _
    | some d =>
      refine insulated_bind_globalPath fun require hrequire => insulated_bind_globalPath fun container _ => ?_
      exact insulated_bind_call (fun _ _ => h.require require hrequire) fun _ _ => insulated_pure _
  refine insulated_bind hchecks fun _ w₁ hw₁ => ?_
  obtain ⟨as, _, rfl⟩ := exists_of_checks hw₁
  refine insulated_bind (insulated_forM fun c _ _ => insulated_name _) fun _ w₂ hw₂ => ?_
  obtain rfl := gives_forM_name.mp hw₂
  refine insulated_bind (insulated_name _) fun _ w₃ hw₃ => ?_
  have hw₃ : w₃ = (w.setGlobals home (b.definitions home)).addAll as := by
    rw [gives_name.mp hw₃, World.setGlobal_eq, World.setGlobals_setGlobals, World.setGlobals_addAll]
    rfl
  refine insulated_bind_global fun detach hdetach => insulated_bind_global fun f _ => ?_
  have hhome := homeless_detach hb h (hw₃ ▸ hdetach)
  refine insulated_bind_call (fun _ _ => hhome) fun f _ => insulated_bind_global fun owner _ => ?_
  split
  · exact insulated_modify fun _ h => h.map (g := fun w => w.setAttribute _ _ _) fun _ _ => rfl
  · exact insulated_modify fun _ h => h.map (g := fun w => { w with misplaced := w.misplaced.insert _ _ }) fun _ _ => rfl
  · exact insulated_bind_get fun _ _ _ _ h => absurd h not_gives_throw

end Bridge

namespace World

theorem Confined.of_bridge (h : w.Confined functions x) (hserves : x.Serves w.modules.length)
    (hdefined : ∀ e ∈ b.definitions w.modules.length, e.2.Within (.newcomer w functions))
    (hg : Gives (b.execute w.modules.length) x u x') : w.Confined functions x' := by
  obtain ⟨as, as', _, detach, g, f, target, has, has', rfl, hdetach, hg, hf, -, hleft⟩ := Bridge.gives_execute hg
  have h₁ := (h.setGlobals hdefined).addOutside has
  have hg := Supplied.within_of (List.forall_mem_singleton.mpr (h₁.within_global hg))
  have hf := h₁.within_call (h₁.within_global hdetach) hg (Bridge.homeless_detach hb hserves hdetach) hf
  have hcalled : ((x.setGlobals w.modules.length (b.definitions w.modules.length)).addAll as).FromOutside as' := by
    rwa [FromOutside, outside_addAll]
  have h₂ := h₁.addOutside hcalled
  rcases hleft with ⟨id, -, rfl⟩ | ⟨d, -, rfl⟩
  · exact h₂.setAttribute hf
  · exact h₂.misplace hf

theorem Untouched.of_bridge (h : w.Untouched x) (hg : Gives (b.execute w.modules.length) x u x') : w.Untouched x' := by
  have hglobals (name : String) (hn : ¬Naming.SaysFrom name) :
      ((x.setGlobals w.modules.length (b.definitions w.modules.length)).globals w.modules.length).get? name =
        (x.globals w.modules.length).get? name := by
    by_cases hknown : w.modules.length < x.modules.length
    · rw [globals_setGlobals hknown, Table.get?_insertAll_of_notMem (Bridge.notMem_definitions hb hn)]
    · rw [globals_setGlobals_of_le (Nat.le_of_not_lt hknown)]
  obtain ⟨as, as', y, _, _, f, _, _, _, hy, _, _, _, _, hleft⟩ := Bridge.gives_execute hg
  have h₁ : w.Untouched (y.addAll as') := by
    rw [hy, addAll_addAll]
    refine ⟨fun k c hk hc => h.attributes k c hk ?_, fun name v hn hv => h.globals name v hn ?_⟩
    · rwa [classes_addAll] at hc
    · rwa [globals_addAll, hglobals name hn] at hv
  rcases hleft with ⟨id, -, rfl⟩ | ⟨d, -, rfl⟩
  · refine ⟨fun k c hk hc name v hn hv => ?_, h₁.globals⟩
    rw [setAttribute, setClass, List.getElem?_modify] at hc
    obtain ⟨d, hd, rfl⟩ := Option.map_eq_some_iff.mp hc
    split at hv
    · exact h₁.attributes k d hk hd name v hn ((Table.get?_insert_of_ne _ _ hn.symm).symm.trans hv)
    · exact h₁.attributes k d hk hd name v hn hv
  · exact ⟨h₁.attributes, h₁.globals⟩

end World

end Bridges

/-! ### Registrations -/

namespace World.Confined

variable (h : w.Confined functions x)
include h

/-- What a module registers is something that it has, or what it is called with. -/
theorem within_evaluated {r : Registration} {source target : Value} (hv : v.Within (.newcomer w functions))
    (he : r.evaluated? (x.addAll as) w.modules.length v = .ok (source, target, f)) : f.Within (.newcomer w functions) := by
  obtain ⟨_, _, hf⟩ := Registration.evaluated?_eq_ok_iff.mp he
  obtain ⟨_, rfl⟩ | ⟨_, hf⟩ := Registration.eq_or_global_of_name hf
  · exact hv
  · exact h.within_global (global_addAll ▸ hf)

theorem of_register {rs : List Registration} (hv : v.Within (.newcomer w functions))
    (hrs : Gives (Loading.register (.function (.registrar w.modules.length rs)) v) x u x') : w.Confined functions x' := by
  have hoffers (hrs : Gives (rs.forM (·.offer w.modules.length v)) x u x') : w.Confined functions x' := by
    obtain ⟨as, has, rfl⟩ := Registration.offered_of_forM hrs
    refine h.addAll fun a ha => ?_
    obtain ⟨r, hr, bs, ha⟩ := has.of_mem ha
    obtain ⟨f, s, ha⟩ | ⟨source, target, f, he, _, rfl⟩ := Registration.mem_offering ha
    · rw [outside_addAll, h.outside_eq] at ha
      exact .inl (.outside ha)
    · exact .inr ⟨f, rfl, h.within_evaluated hv he⟩
  cases v with
  | registry name =>
    obtain ⟨as, _, has, rfl⟩ | ⟨_, _, _, _, _, hfails, _⟩ := Registration.made_of_forM hrs
    · refine h.addAll fun a ha => ?_
      obtain ⟨r, hr, bs, ha⟩ := has.of_mem ha
      obtain ⟨source, target, f, he, _, rfl⟩ := Registration.addition?_eq_ok_iff.mp ha
      exact .inr ⟨f, rfl, h.within_evaluated hv he⟩
    · cases hfails
  | _ => exact hoffers hrs

end World.Confined

end UnionBridge
