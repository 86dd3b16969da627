import UnionBridge.Proofs.Compile
import UnionBridge.Proofs.Execution.Bridges
import UnionBridge.Proofs.Execution.Registering
import UnionBridge.Proofs.Execution.Statements
import UnionBridge.Proofs.World.Construct

/-! Loaded modules: which function is registered for a source and a destination, and which one the destination calls. -/
namespace UnionBridge

open Loading

variable {w w' v : World} {home id : Nat} {name : String} {d : DottedName} {x f : Value} {a b : ClassRef} {u : Unit}
  {m : Module}

/-! ### Calling functions -/

/-- The scope of a function of a module, whose calls nest at most so deep. -/
def World.frame (w : World) (home : Nat) (own : List String) (depth : Nat) : Scope :=
  ⟨w, home, w.callWithin depth, w.answer (w.callWithin depth), own⟩

/-- A function that a module defines runs its body on a variable for the value that it is called with. -/
theorem World.callWithin_eq {f : FunctionRef} {own : List String} {parameter : String} {body : Scope → Action Value}
    (h : f.definition? = some (home, own, parameter, body)) (x : Value) (depth : Nat) :
    w.callWithin (depth + 1) (.function f) (.of [x]) =
      (Action.eval (body (w.frame home own depth)) ⟨[(parameter, x)]⟩).1 := by
  have hrun : w.callWithin (depth + 1) (.function f) (.of [x]) = w.runWithin (depth + 1) f (.of [x]) := by
    cases f <;> first | rfl | cases h
  have hbind : Parameters.bind f.name 0 (Parameters.required [parameter]) (.of [x]) = .ok [(parameter, x)] :=
    Parameters.bind_positional (by simp [Parameters.required]) rfl
  rw [hrun, World.runWithin, h]
  simp only [hbind, Bind.bind, Except.bind]
  rfl

namespace Scope

variable {s : Scope} {l : Locals} {subject : String} {q : Value}

/-- With the test of the language, being an instance is what it is for classes. -/
theorem eval_isInstance (ht : s.name l "isinstance" = .ok (.function (.builtin .classTest)))
    (hx : s.name l subject = .ok x) (hc : s.path l d = .ok (.cls a))
    (hcall : ∀ supplied, s.call (.function (.builtin .classTest)) supplied = s.world.builtinCall .classTest supplied) :
    Action.eval (s.isInstance subject d) l = (.ok (s.world.isInstance x a), l) := by
  have htest : Action.eval (s.fetch "isinstance") l = (.ok (.function (.builtin .classTest)), l) := by
    rw [eval_fetch, ht]
  have hvalue : Action.eval (s.fetch subject) l = (.ok x, l) := by rw [eval_fetch, hx]
  have hclass : Action.eval (s.fetchPath d) l = (.ok (.cls a), l) := by rw [eval_fetchPath, hc]
  have hresult : s.call (.function (.builtin .classTest)) (.of [x, .cls a]) = .ok (.bool (s.world.isInstance x a)) := by
    rw [hcall]
    rfl
  rw [isInstance, Action.eval_bind_ok htest, Action.eval_bind_ok hvalue, Action.eval_bind_ok hclass,
    Action.eval_bind_lift_ok hresult]
  simp only [Action.eval_lift, World.truth, World.overridden?, Value.asInt?]
  cases s.world.isInstance x a <;> rfl

theorem eval_raiseBy_ne_ok (helper : Value) (args : List Value) :
    (Action.eval (s.raiseBy helper args) l).1 ≠ .ok q := by
  unfold raiseBy
  split
  · exact fun h => nomatch h
  · exact fun h => nomatch h
  · cases hr : s.call helper (.of args) with
    | error e =>
      rw [Action.eval_bind_lift_error rfl]
      exact fun h => nomatch h
    | ok r =>
      rw [Action.eval_bind_lift_ok rfl]
      split <;> exact fun h => nomatch h

/-- Values of no case are refused. -/
theorem eval_raiseForeign_ne_ok (parameter unions : String) :
    (Action.eval (s.raiseForeign parameter unions) l).1 ≠ .ok q := by
  rw [raiseForeign, helper, Action.eval_bind, eval_fetchPath]
  cases s.path l ⟨"_rt", ["not_a_variant"]⟩ with
  | error e => exact fun h => nomatch h
  | ok helper =>
    simp only
    rw [Action.eval_bind, eval_fetch]
    cases s.name l parameter with
    | error e => exact fun h => nomatch h
    | ok v => exact eval_raiseBy_ne_ok helper _

end Scope

/-- A dispatcher calls the function of the first source that a value is of. A value of none is refused. -/
theorem Dispatcher.callWithin_eq {disp : Dispatcher} {γ : DottedName → ClassRef}
    (ht : w.global home "isinstance" = .ok (.function (.builtin .classTest)))
    (hroutes : ∀ r ∈ disp.routes, parameter ∉ [r.1.head, r.2] ∧ w.globalPath home r.1 = .ok (.cls (γ r.1)))
    (x : Value) (depth : Nat) :
    w.callWithin (depth + 1) (.function (.dispatcher home disp)) (.of [x]) =
      match disp.routes.find? fun r => w.isInstance x (γ r.1) with
      | some r => w.global home r.2 >>= fun f => w.callWithin depth f (.of [x])
      | none => (Action.eval ((w.frame home disp.ownNames depth).raiseForeign parameter disp.sourcesText)
          ⟨[(parameter, x)]⟩).1 := by
  let s := w.frame home disp.ownNames depth
  let l : Locals := ⟨[(parameter, x)]⟩
  have hforeign : ∀ name : String, parameter ≠ name → name ∉ s.own := by
    intro name hname
    simpa [s, World.frame, ownNames] using hname.symm
  have hvalue : s.name l parameter = .ok x := rfl
  have htest : s.name l "isinstance" = .ok (.function (.builtin .classTest)) :=
    (Scope.name_of_foreign (hforeign _ (by decide))).trans ht
  rw [World.callWithin_eq rfl]
  change (Action.eval (disp.runRoutes s disp.routes) l).1 = _
  generalize disp.routes = routes at hroutes ⊢
  induction routes with
  | nil => rfl
  | cons r routes ih =>
    obtain ⟨source, function⟩ := r
    obtain ⟨hshown, hmeans⟩ := hroutes _ List.mem_cons_self
    simp only [List.mem_cons, List.not_mem_nil, or_false, not_or] at hshown
    have hsource : s.path l source = .ok (.cls (γ source)) :=
      (Scope.path_of_foreign (hforeign _ hshown.1)).trans hmeans
    have hfunction : s.name l function = w.global home function := Scope.name_of_foreign (hforeign _ hshown.2)
    rw [runRoutes, Action.eval_bind_ok (Scope.eval_isInstance htest hvalue hsource fun _ => rfl), List.find?_cons]
    change (Action.eval (if w.isInstance x (γ source) then _ else _) l).1 = _
    cases w.isInstance x (γ source) with
    | false => exact ih fun r hr => hroutes r (List.mem_cons_of_mem _ hr)
    | true =>
      simp only [if_true]
      rw [Action.eval_bind, Scope.eval_fetch, hfunction]
      cases w.global home function <;> rfl

/-! ### Loading a module -/

/-- Calling what should register conversions changes nothing but registries. -/
theorem Loading.alike_register (id : Nat) {registry : Value} (h : Gives (Loading.register f registry) w u w') :
    w'.Alike w id ∧ w'.modules = w.modules := by
  obtain ⟨as, rfl⟩ := Loading.exists_addAll h
  exact ⟨.addAll w id as, World.modules_addAll⟩

/-- The function with which a module registers its conversions. -/
def Module.registering (home : Nat) (m : Module) : Value := .function (.registrar home m.registrations)

/-- A module has been executed up to the place where it registers its conversions. -/
structure Module.Ready (m : Module) (w : World) (home : Nat) : Prop where
  bridges : ∃ w₁ w₂, Gives (m.bridges.forM (·.execute home)) w₁ () w₂ ∧ w = w₂.setGlobal home registrar (m.registering home)
  known : home < w.modules.length

namespace Module

theorem global_registering (hh : home < w.modules.length) :
    (w.setGlobal home registrar (m.registering home)).global home registrar = .ok (m.registering home) := by
  apply World.global_of_get? rfl
  rw [World.setGlobal_eq, World.globals_setGlobals hh]
  exact Table.get?_insert_self ..

/-- The last steps of the execution of a module: it declares its unions and its bridges, and registers its conversions with
the registry that it names. -/
theorem exists_steps {p : Preamble} (h : Gives (m.execute home p) w u w') :
    ∃ w₁ w₂ w₃ w₄ registry, Gives (m.unions.forM (·.execute home)) w₁ () w₂ ∧
      Gives (m.bridges.forM (·.execute home)) w₂ () w₃ ∧ home < w₃.modules.length ∧
      (w₃.setGlobal home registrar (m.registering home)).global home "_registry" = .ok registry ∧
      Gives (Loading.register (m.registering home) registry) (w₃.setGlobal home registrar (m.registering home)) () w₄ ∧
      w' = w₄.setGlobal home "__all__" (.list (m.exported.map .text)) := by
  have h := gives_bind_name.mp h
  obtain ⟨_, _, _, h⟩ := gives_bind.mp h
  obtain ⟨_, _, _, h⟩ := gives_bind.mp h
  obtain ⟨_, _, h⟩ := gives_bind_globalPath.mp h
  have h := gives_bind_name.mp h
  obtain ⟨_, w₂, hunions, h⟩ := gives_bind.mp h
  obtain ⟨_, w₃, hbridges, h⟩ := gives_bind.mp h
  have h := gives_bind_name.mp h
  obtain ⟨g, hg, h⟩ := gives_bind_global.mp h
  obtain ⟨registry, hregistry, h⟩ := gives_bind_global.mp h
  obtain ⟨_, w₄, hregister, hall⟩ := gives_bind.mp h
  have hh : home < w₃.modules.length := by
    by_contra hle
    rw [World.setGlobal_eq, World.global_congr (World.globals_setGlobals_of_le (Nat.le_of_not_lt hle)),
      World.global_eq_ok_iff rfl (by decide +kernel)] at hg
    simp [World.globals, World.module?, List.getElem?_eq_none (Nat.le_of_not_lt hle)] at hg
  have hregistering := global_registering (m := m) hh
  obtain rfl : m.registering home = g := Except.ok.inj (hregistering.symm.trans hg)
  exact ⟨_, w₂, w₃, w₄, registry, hunions, hbridges, hh, hregistry, hregister, gives_name.mp hall⟩

/-- A module that has been executed registered its conversions once it was ready, with the registry that it names. -/
theorem exists_ready {p : Preamble} (h : Gives (m.execute home p) w u w') :
    ∃ w₁ w₂ registry, m.Ready w₁ home ∧ w₁.global home "_registry" = .ok registry ∧
      Gives (Loading.register (m.registering home) registry) w₁ () w₂ ∧
      w' = w₂.setGlobal home "__all__" (.list (m.exported.map .text)) := by
  obtain ⟨_, w₂, w₃, w₄, registry, _, hbridges, hh, hregistry, hregister, hall⟩ := exists_steps h
  refine ⟨_, w₄, registry, ⟨⟨w₂, w₃, hbridges, rfl⟩, ?_⟩, hregistry, hregister, hall⟩
  rwa [World.setGlobal_eq, World.length_setGlobals]

end Module

namespace World

/-- A module that was loaded was once ready, and is still what it was then. -/
structure Holds (w : World) (id : Nat) (m : Module) : Prop where
  ready : ∃ w₁, m.Ready w₁ id ∧ w.Alike w₁ id ∧ w.modules.length = w₁.modules.length
  registered : ∃ v v' registry, v.Alike w id ∧ w.global id "_registry" = .ok registry ∧
    Gives (Loading.register (m.registering id) registry) v () v' ∧ w.registries = v'.registries

namespace Holds

variable {m : Module}

theorem setImportable (h : w.Holds id m) (name : String) (found : Option ModuleRef) :
    (w.setImportable name found).Holds id m := by
  have halike := Alike.setImportable w id name found
  obtain ⟨⟨w₁, hready, hw₁, hlength⟩, v, v', registry, hv, hregistry, hregister, hsame⟩ := h
  exact ⟨⟨w₁, hready, halike.trans hw₁, hlength⟩, v, v', registry, hv.trans halike.symm, hregistry, hregister, hsame⟩

theorem lt_length (h : w.Holds id m) : id < w.modules.length := by
  obtain ⟨w₁, hready, _, hlength⟩ := h.ready
  exact hlength ▸ hready.known

theorem global_registrar (h : w.Holds id m) : w.global id Module.registrar = .ok (m.registering id) := by
  obtain ⟨w₁, ⟨⟨w₀, w₂, _, rfl⟩, hh⟩, halike, _⟩ := h.ready
  rw [halike.global_eq (by decide)]
  rw [setGlobal_eq, length_setGlobals] at hh
  exact Module.global_registering hh

theorem of_execute {p : Preamble} (h : Gives (m.execute id p) w u w') : w'.Holds id m := by
  obtain ⟨w₁, w₂, registry, hready, hregistry, hregister, rfl⟩ := Module.exists_ready h
  obtain ⟨halike, hmodules⟩ := Loading.alike_register id hregister
  have hh : id < w₂.modules.length := hmodules ▸ hready.known
  have hall := (Alike.setGlobal hh (show "__all__" ∈ _ by decide) (.list (m.exported.map .text))).trans halike
  refine ⟨⟨w₁, hready, hall, ?_⟩, w₁, w₂, registry, hall.symm, ?_, hregister, rfl⟩
  · rw [setGlobal_eq, length_setGlobals, hmodules]
  · rw [setGlobal_eq, global_setGlobals_of_notMem (by simp), global_of_modules_eq hmodules, hregistry]

/-- A module gets a registry of its own: that is its registry from then on, and it registers its conversions there. -/
theorem adopt_iff (h : w.Holds id m) {registry : String} {result : Except Failure Unit} :
    w.adopt id registry = (w', result) ↔
      (Loading.register (m.registering id) (.registry registry)).run.run
        (w.setGlobal id "_registry" (.registry registry)) = (result, w') := by
  let v := w.setGlobal id "_registry" (.registry registry)
  have hv : v.Alike w id := Alike.setGlobal h.lt_length (by decide) _
  have hget : (v.globals id).get? Module.registrar = some (m.registering id) := by
    rw [hv.names _ (by decide)]
    exact (global_eq_ok_iff rfl (by decide +kernel)).mp h.global_registrar
  have hmember : v.member (.module (.loaded id)) Module.registrar = .ok (m.registering id) := by
    have hdata : v.instanceData? (.module (.loaded id)) Module.registrar = none := rfl
    simp only [member, overridden?, member?, hdata, ownValue?, hget]
    rfl
  rw [World.adopt, hmember]
  exact ⟨fun hadopt => congrArg Prod.swap hadopt, fun hrun => congrArg Prod.swap hrun⟩

theorem adopt (h : w.Holds id m) {registry : String} (hadopt : w.adopt id registry = (w', .ok ())) : w'.Holds id m := by
  have hh := h.lt_length
  let v := w.setGlobal id "_registry" (.registry registry)
  have hv : v.Alike w id := Alike.setGlobal hh (by decide) _
  have hregister : Gives (Loading.register (m.registering id) (.registry registry)) v () w' := h.adopt_iff.mp hadopt
  obtain ⟨halike, hmodules⟩ := Loading.alike_register id hregister
  obtain ⟨w₁, hready, hw₁, hlength⟩ := h.ready
  have hregistry : v.global id "_registry" = .ok (.registry registry) := by
    apply global_of_get? rfl
    simp only [v]
    rw [setGlobal_eq, globals_setGlobals hh]
    exact Table.get?_insert_self ..
  refine ⟨⟨w₁, hready, (halike.trans hv).trans hw₁, ?_⟩, v, w', _, halike.symm, ?_, hregister, rfl⟩
  · rw [hmodules, ← hlength]
    exact List.length_modify ..
  · rw [global_of_modules_eq hmodules, hregistry]

end Holds

theorem holds_of_executeNew {r : LoadRequest} {p : Preamble} (h : w.executeNew r m p = (w', .ok id)) :
    w'.Holds id m := by
  obtain ⟨rfl, after, hrun, rfl⟩ := executeNew_eq_ok_iff.mp h
  have hholds := Holds.of_execute hrun
  split
  · exact hholds
  · exact hholds.setImportable _ _

/-- What was loaded is a compiled module that was executed. -/
theorem holds_of_load {r : LoadRequest} (h : w.load r = (w', .ok id)) :
    ∃ c, compile r.source r.file r.docstring = .ok c ∧ w'.Holds id c.module := by
  simp only [load] at h
  cases hc : compile r.source r.file r.docstring with
  | error e =>
    rw [hc] at h
    cases h
  | ok c =>
    rw [hc] at h
    refine ⟨c, rfl, ?_⟩
    cases hp : r.preamble c.module with
    | error e =>
      simp only [hp] at h
      cases h
    | ok p =>
      simp only [hp] at h
      split at h
      · cases h
      · rename_i w₁ id₁ hexecute
        have hholds := holds_of_executeNew hexecute
        split at h
        · obtain ⟨rfl, hid⟩ := Prod.mk.inj h
          obtain rfl := Except.ok.inj hid
          exact hholds
        · split at h
          · cases h
          · rename_i w₂ hadopt
            obtain ⟨rfl, hid⟩ := Prod.mk.inj h
            obtain rfl := Except.ok.inj hid
            exact hholds.adopt hadopt

end World

end UnionBridge
