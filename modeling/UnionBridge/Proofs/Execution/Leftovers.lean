import UnionBridge.Proofs.Execution.Importable

/-! What a load that failed leaves in the registries. Conversions are registered one after the other, and none of them is
taken back: where registering fails, those before the failing one stay. So does what came in from elsewhere before. -/
namespace UnionBridge

open Loading

variable {w w' w₁ : World} {m : Module} {p : Preamble} {home : Nat} {registry : String} {v : Value} {f : Failure}
  {result : Except Failure Unit} {as bs : List Addition}

namespace Loading

variable {α β : Type} {a : Loading α} {g : α → Loading β} {x : α}

theorem run_bind_ok (h : Gives a w x w₁) : (a >>= g).run.run w = (g x).run.run w₁ := by
  rw [ExceptT.run_bind, StateT.run_bind, show a.run.run w = (.ok x, w₁) from h]
  rfl

theorem run_bind_error (h : a.run.run w = (.error f, w₁)) : (a >>= g).run.run w = (.error f, w₁) := by
  rw [ExceptT.run_bind, StateT.run_bind, h]
  rfl

end Loading

namespace Module

/-- Executes a module up to the place where it registers its conversions. Gives what is called for that, and the registry
that it is called with. -/
def prepare (home : Nat) (p : Preamble) (m : Module) : Loading (Value × Value) := do
  (m.declarations home p).forM id
  let f ← Loading.global home registrar
  let registry ← Loading.global home "_registry"
  return (f, registry)

/-- The converters that come into registries before a module that starts in a world registers its own. -/
inductive Aside (m : Module) (home : Nat) (p : Preamble) (w : World) : Addition → Prop
  /-- An import runs a module that was not imported so far, and that module registers them. -/
  | ran {done rest : List (Loading Unit)} {i : Import} {x : World} {path : String} {l : List Addition} {a : Addition}
      (hi : i ∈ p.demands ++ ownImports ++ m.imports) (hsteps : m.steps home p = done ++ i.execute home :: rest)
      (hdone : Gives (done.forM id) w () x) (hpath : path ∈ i.runs x) (hl : x.dormant.get? path = some l) (ha : a ∈ l) :
      Aside m home p w a
  /-- The library's function for registering stands in the place of the one that attaches variants. -/
  | attached {done rest : List (Loading Unit)} {u : UnionClass} {c : CaseClass} {x : World} {source target : Value}
      (hu : u ∈ m.unions) (hc : c ∈ u.cases) (hsteps : m.steps home p = done ++ c.attach home :: rest)
      (hdone : Gives (done.forM id) w () x)
      (hattach : x.globalPath home ⟨"_rt", ["attach_variant"]⟩ = .ok (.function (.builtin .converter)))
      (hsource : x.global home c.union = .ok source) (htarget : x.global home c.name = .ok target) :
      Aside m home p w (Library.registryName, ⟨source, target, false⟩, .callable (.text c.case))
  /-- Something from outside of the program is called, and registers them. -/
  | called {f : Value} {s : Supplied} {a : Addition} (ha : a ∈ w.outside.registers f s) : Aside m home p w a

/-- One step adds nothing but that. -/
theorem adds_step {done rest : List (Loading Unit)} {s : Loading Unit} {x : World}
    (hsteps : m.steps home p = done ++ s :: rest) (hdone : Gives (done.forM id) w () x) (hx : x.outside = w.outside) :
    Adds (m.Aside home p w) s x := by
  have hcalled : ∀ f s, ∀ a ∈ x.outside.registers f s, m.Aside home p w a := fun f s a ha => .called (f := f) (s := s) (hx ▸ ha)
  have hs : s ∈ m.steps home p := by rw [hsteps]; simp
  simp only [steps, importing, List.mem_append, List.mem_cons, List.mem_map, List.mem_flatMap, List.not_mem_nil,
    or_false] at hs
  rcases hs with (((((rfl | ⟨doc, _, rfl⟩) | ⟨i, hi, rfl⟩) | rfl) | ⟨u, hu, hs⟩) | ⟨b, _, rfl⟩) | rfl
  · exact adds_name _
  · exact adds_name _
  · refine i.adds_execute x fun path hpath l hl a ha => .ran ?_ hsteps hdone hpath hl ha
    simpa only [List.mem_append] using hi
  · exact adds_bind_globalPath fun v _ => adds_name v
  · refine u.adds_of_mem_steps hs hcalled fun c hc heq hattach source target hsource htarget => ?_
    exact .attached hu hc (heq ▸ hsteps) hdone hattach hsource htarget
  · exact b.adds_execute x hcalled
  · exact adds_name _

theorem adds_prepare (home : Nat) (p : Preamble) (m : Module) (w : World) :
    Adds (m.Aside home p w) (m.prepare home p) w := by
  have hsteps : Adds (m.Aside home p w) ((m.steps home p).forM id) w := adds_steps fun _ _ _ _ => adds_step
  refine adds_bind (forM_steps home p m ▸ hsteps) fun _ w _ => ?_
  exact adds_bind_global fun f _ => adds_bind_global fun registry _ => adds_pure _

/-- What is called is the function with which the module registers its conversions. -/
theorem eq_of_gives_prepare {g : Value} (h : Gives (m.prepare home p) w (g, v) w₁) :
    g = m.registering home ∧ home < w₁.modules.length ∧ w₁.global home "_registry" = .ok v := by
  obtain ⟨_, w₂, hdeclared, h⟩ := gives_bind.mp h
  obtain ⟨g', hg, h⟩ := gives_bind_global.mp h
  obtain ⟨v', hv, h⟩ := gives_bind_global.mp h
  obtain ⟨heq, rfl⟩ := gives_pure.mp h
  obtain ⟨rfl, rfl⟩ := Prod.mk.inj heq
  obtain ⟨w₃, _, hlast⟩ := gives_forM_append.mp hdeclared
  obtain ⟨w₄, hlast, hnil⟩ := gives_forM_cons.mp hlast
  obtain rfl := gives_forM_nil.mp hnil
  obtain rfl := gives_name.mp hlast
  have hh : home < w₃.modules.length := by
    by_contra hle
    rw [World.setGlobal_eq, World.global_congr (World.globals_setGlobals_of_le (Nat.le_of_not_lt hle)),
      World.global_eq_ok_iff rfl rfl] at hg
    simp [World.globals, World.module?, List.getElem?_eq_none (Nat.le_of_not_lt hle)] at hg
  refine ⟨Except.ok.inj (hg.symm.trans (global_registering hh)), ?_, hv⟩
  rwa [World.setGlobal_eq, World.length_setGlobals]

theorem forM_statements (home : Nat) (p : Preamble) (m : Module) :
    (m.statements home p).forM id = m.prepare home p >>= fun (f, registry) =>
      Loading.register f registry >>= fun _ => Loading.bind home "__all__" (.list (m.exported.map .text)) := by
  simp only [statements, callRegistrar, prepare, List.forM_eq_forM, List.forM_append, List.forM_cons, List.forM_nil,
    bind_assoc, bind_pure_unit, pure_bind, id]

/-- What comes of registering the conversions of a module, and what comes into registries by that. -/
inductive Registers (m : Module) (home : Nat) (w : World) : Value → Except Failure Unit → List Addition → Prop
  /-- All conversions are registered. -/
  | all {registry : String} {as : List Addition} (has : Registration.Made home registry w m.registrations as) :
      Registers m home w (.registry registry) (.ok ()) as
  /-- One of them cannot be, and those before it are. -/
  | part {registry : String} {f : Failure} {done : List Registration} {r : Registration} {rest : List Registration}
      {as : List Addition} (hm : m.registrations = done ++ r :: rest) (has : Registration.Made home registry w done as)
      (hf : r.addition? (w.addAll as) home registry = .error f) : Registers m home w (.registry registry) (.error f) as
  /-- They are offered to something that is no registry. -/
  | elsewhere {v : Value} {result : Except Failure Unit} {as : List Addition} (hv : ∀ name, v ≠ .registry name)
      (has : Registration.Offered home v w m.registrations as result) : Registers m home w v result as

theorem registers_of_run (h : (Loading.register (m.registering home) v).run.run w = (result, w')) :
    ∃ as, m.Registers home w v result as ∧ w' = w.addAll as := by
  by_cases hv : ∃ name, v = .registry name
  · obtain ⟨registry, rfl⟩ := hv
    rcases Registration.made_of_forM h with ⟨as, rfl, has, rfl⟩ | ⟨f, done, r, rest, as, rfl, hm, has, hf, rfl⟩
    · exact ⟨as, .all has, rfl⟩
    · exact ⟨as, .part hm has hf, rfl⟩
  · have hoffers : Loading.register (m.registering home) v = m.registrations.forM (·.offer home v) := by
      unfold Loading.register
      split
      · exact absurd ⟨_, rfl⟩ hv
      · rename_i hregistering _
        cases hregistering
        rfl
      · rename_i hnone _
        exact absurd rfl (hnone _ _)
    obtain ⟨as, has, rfl⟩ := Registration.offered_of_forM (hoffers ▸ h)
    exact ⟨as, .elsewhere (fun name hname => hv ⟨name, hname⟩) has, rfl⟩

end Module

namespace World

/-- A load comes to the place where the module registers its conversions, after some converters came in. -/
structure Prepared (w : World) (r : LoadRequest) (m : Module) (v : Value) (w₁ : World) (as : List Addition) : Prop where
  compiled : ∃ c, compile r.source r.file r.docstring = .ok c ∧ c.module = m
  executed : ∃ p, r.preamble m = .ok p ∧
    Gives (m.prepare w.modules.length p) (w.entering r) (m.registering w.modules.length, v) w₁ ∧
    ∀ a ∈ as, m.Aside w.modules.length p (w.entering r) a

/-- What a load that failed left in the registries, by the place where it failed. -/
inductive Remains (w : World) (r : LoadRequest) : LoadFailure → Table String Registry → Prop
  /-- The text does not compile. -/
  | uncompiled {e : CompileError} (hc : compile r.source r.file r.docstring = .error e) :
      Remains w r (.notCompiled e) w.registries
  /-- The generated module is not executed. -/
  | refused {c : Compiled} {f : LoadFailure} (hc : compile r.source r.file r.docstring = .ok c)
      (hp : r.preamble c.module = .error f) : Remains w r f w.registries
  /-- Its execution fails before it registers its conversions. -/
  | preparing {c : Compiled} {p : Preamble} {f : Failure} {w₁ : World} {as : List Addition}
      (hc : compile r.source r.file r.docstring = .ok c) (hp : r.preamble c.module = .ok p)
      (hx : (c.module.prepare w.modules.length p).run.run (w.entering r) = (.error f, w₁))
      (has : ∀ a ∈ as, c.module.Aside w.modules.length p (w.entering r) a) :
      Remains w r (.failed f) (added as w.registries)
  /-- It fails while it registers them. -/
  | registering {m : Module} {v : Value} {w₁ : World} {f : Failure} {as bs : List Addition} (hx : w.Prepared r m v w₁ as)
      (hbs : m.Registers w.modules.length w₁ v (.error f) bs) :
      Remains w r (.failed f) (added bs (added as w.registries))
  /-- All of them are registered, but not in the registry that was supplied. -/
  | handing {m : Module} {v : Value} {w₁ w₂ : World} {f : Failure} {supplied : String} {as bs cs : List Addition}
      (hx : w.Prepared r m v w₁ as) (hbs : m.Registers w.modules.length w₁ v (.ok ()) bs)
      (hr : r.registry = some supplied) (hw : w₂.Alike w₁ w.modules.length)
      (hcs : m.Registers w.modules.length w₂ (.registry supplied) (.error f) cs) :
      Remains w r (.failed f) (added cs (added bs (added as w.registries)))

variable {r : LoadRequest} {id : Nat} {e : Except Failure Nat}

/-- A new module fails before it registers its conversions, or comes to what registering them comes to. -/
theorem executeNew_cases (h : w.executeNew r m p = (w', e)) :
    ∃ as, (∀ a ∈ as, m.Aside w.modules.length p (w.entering r) a) ∧
      ((∃ f w₁, (m.prepare w.modules.length p).run.run (w.entering r) = (.error f, w₁) ∧ e = .error f ∧
        w'.registries = added as w.registries) ∨
      ∃ v w₁ result bs, Gives (m.prepare w.modules.length p) (w.entering r) (m.registering w.modules.length, v) w₁ ∧
        m.Registers w.modules.length w₁ v result bs ∧ e = result.map (fun _ => w.modules.length) ∧
        w'.registries = added bs (added as w.registries) ∧ (result = .ok () → w'.Alike w₁ w.modules.length)) := by
  obtain ⟨as, hshared, has⟩ := m.adds_prepare w.modules.length p (w.entering r)
  refine ⟨as, has, ?_⟩
  rcases hx : (m.prepare w.modules.length p).run.run (w.entering r) with ⟨f | ⟨g, v⟩, w₁⟩
  all_goals
    rw [hx] at hshared
    have hcame : w₁.registries = added as w.registries := congrArg Prod.fst hshared
  · rw [executeNew_eq, Module.forM_statements, run_bind_error hx] at h
    cases h
    exact .inl ⟨f, w₁, rfl, rfl, hcame⟩
  · obtain ⟨rfl, hh, -⟩ := Module.eq_of_gives_prepare hx
    rw [executeNew_eq, Module.forM_statements, run_bind_ok hx] at h
    rcases hrun : (Loading.register (m.registering w.modules.length) v).run.run w₁ with ⟨f | u, w₂⟩
    all_goals
      obtain ⟨bs, hbs, rfl⟩ := Module.registers_of_run hrun
      have hboth : (w₁.addAll bs).registries = added bs (added as w.registries) := by rw [World.registries_addAll, hcame]
    · rw [run_bind_error hrun] at h
      cases h
      exact .inr ⟨v, w₁, _, bs, hx, hbs, rfl, hboth, by rintro ⟨⟩⟩
    · rw [run_bind_ok hrun] at h
      obtain ⟨rfl, rfl⟩ := Prod.mk.inj h
      have hall := (Alike.setGlobal (w := w₁.addAll bs) (by rwa [modules_addAll]) (show "__all__" ∈ _ by decide)
        (.list (m.exported.map .text))).trans (.addAll w₁ w.modules.length bs)
      refine .inr ⟨v, w₁, _, bs, hx, hbs, rfl, ?_, fun _ => ?_⟩
      · rw [← hboth]
        split <;> rfl
      · split
        · exact hall
        · exact (Alike.setImportable _ _ _ _).trans hall

section Execution

variable {c : Compiled} (hc : compile r.source r.file r.docstring = .ok c) (hp : r.preamble c.module = .ok p)
include hc hp

theorem remains_of_executeNew (h : w.executeNew r c.module p = (w', .error f)) : w.Remains r (.failed f) w'.registries := by
  obtain ⟨as, has, ⟨f', w₁, hx, hf, hcame⟩ | ⟨v, w₁, result, bs, hx, hbs, hresult, hcame, -⟩⟩ := executeNew_cases h
  · obtain rfl := Except.error.inj hf
    exact hcame ▸ .preparing hc hp hx has
  · cases result with
    | ok _ => cases hresult
    | error f' =>
      obtain rfl := Except.error.inj hresult
      exact hcame ▸ .registering ⟨⟨c, hc, rfl⟩, p, hp, hx, has⟩ hbs

theorem exists_prepared (h : w.executeNew r c.module p = (w', .ok id)) :
    id = w.modules.length ∧ ∃ v w₁ as bs, w.Prepared r c.module v w₁ as ∧ c.module.Registers id w₁ v (.ok ()) bs ∧
      w'.registries = added bs (added as w.registries) ∧ w'.Alike w₁ id := by
  obtain ⟨as, has, ⟨f', w₁, _, hf, _⟩ | ⟨v, w₁, result, bs, hx, hbs, hresult, hcame, halike⟩⟩ := executeNew_cases h
  · cases hf
  · cases result with
    | error _ => cases hresult
    | ok _ =>
      obtain rfl := Except.ok.inj hresult
      exact ⟨rfl, v, w₁, as, bs, ⟨⟨c, hc, rfl⟩, p, hp, hx, has⟩, hbs, hcame, halike rfl⟩

theorem remains_of_adopt {supplied : String} (hr : r.registry = some supplied)
    (h : w.executeNew r c.module p = (w₁, .ok id)) (hadopt : w₁.adopt id supplied = (w', .error f)) :
    w.Remains r (.failed f) w'.registries := by
  obtain ⟨rfl, v, w₂, as, bs, hprepared, hbs, hcame, halike⟩ := exists_prepared hc hp h
  have hholds := holds_of_executeNew h
  obtain ⟨cs, hcs, rfl⟩ := Module.registers_of_run (hholds.adopt_iff.mp hadopt)
  have hregistries : (w₁.setGlobal w.modules.length "_registry" (.registry supplied)).registries =
      added bs (added as w.registries) := hcame
  have halike' : (w₁.setGlobal w.modules.length "_registry" (.registry supplied)).Alike w₂ w.modules.length :=
    (Alike.setGlobal hholds.lt_length (by decide) _).trans halike
  rw [World.registries_addAll, hregistries]
  exact .handing hprepared hbs hr halike' hcs

end Execution

/-- A load fails in a way that does not depend on anything that is left open. -/
def Fails (w : World) (r : LoadRequest) (w' : World) (f : LoadFailure) : Prop :=
  w.load r = (w', .error f) ∧ ∀ e, f = .failed e → e.isUndetermined = false

end World

def unresolvedText : String := lastingText ++ "@from_union(S, Missing)\nunion D \x7b A \x7b x: int \x7d \x7d\n"

/-- The second source is nowhere defined. -/
def unresolvedSchema : Schema :=
  ⟨[], [oneVariant "S" 1 "A" [("x", .ofName "int")] [],
    ⟨"D", [⟨"A", .named [("x", .ofName "int")], [], ⟨3, 11⟩⟩],
      [⟨fromUnion, [⟨none, .ofName "S", ⟨2, 13⟩⟩, ⟨none, .ofName "Missing", ⟨2, 16⟩⟩], ⟨2, 1⟩⟩], ⟨2, 1⟩⟩]⟩

end UnionBridge
