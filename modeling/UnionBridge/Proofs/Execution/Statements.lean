import UnionBridge.Proofs.Execution.Adding

/-! A module is executed statement by statement: its imports, its declarations, and what registers its conversions one by
one. What imports find stays as it is all the time, also where a statement fails. -/
namespace UnionBridge

open Loading

variable {w w' : World} {home : Nat} {Q : Addition → Prop} {p : Preamble} {m : Module}

namespace Module

/-- What a module does before it declares anything: it gets the names that it starts with, and what it imports. -/
def importing (home : Nat) (p : Preamble) (m : Module) : List (Loading Unit) :=
  [Loading.bind home "__builtins__" (.intrinsic (.dictionary "\x7b...\x7d" true))] ++
    p.docstring.toList.map (fun doc => Loading.bind home "__doc__" (.text doc)) ++
    (p.demands ++ ownImports ++ m.imports).map (·.execute home)

/-- What a module does before it registers its conversions. -/
def declarations (home : Nat) (p : Preamble) (m : Module) : List (Loading Unit) :=
  m.importing home p ++
    [do Loading.bind home "_registry" (← Loading.globalPath home ⟨"_rt", ["default_registry"]⟩)] ++
    m.unions.map (·.execute home) ++ m.bridges.map (·.execute home) ++
    [Loading.bind home registrar (.function (.registrar home m.registrations))]

/-- The same, with the steps of every union. -/
def steps (home : Nat) (p : Preamble) (m : Module) : List (Loading Unit) :=
  m.importing home p ++
    [do Loading.bind home "_registry" (← Loading.globalPath home ⟨"_rt", ["default_registry"]⟩)] ++
    m.unions.flatMap (·.steps home) ++ m.bridges.map (·.execute home) ++
    [Loading.bind home registrar (.function (.registrar home m.registrations))]

/-- Registers the conversions, with whatever stands under the names for that by now. -/
def callRegistrar (home : Nat) : Loading Unit := do
  Loading.register (← Loading.global home registrar) (← Loading.global home "_registry")

/-- The statements of a module, from top to bottom. -/
def statements (home : Nat) (p : Preamble) (m : Module) : List (Loading Unit) :=
  m.declarations home p ++ [callRegistrar home, Loading.bind home "__all__" (.list (m.exported.map .text))]

theorem execute_eq (home : Nat) (p : Preamble) (m : Module) : m.execute home p = (m.statements home p).forM id := by
  have hdoc : p.docstring.forM (fun doc => Loading.bind home "__doc__" (.text doc)) =
      forM p.docstring.toList fun doc => Loading.bind home "__doc__" (.text doc) := by
    cases p.docstring <;> simp [Option.forM]
  simp only [execute, hdoc, statements, declarations, importing, callRegistrar, List.forM_eq_forM, List.forM_append,
    List.forM_map, List.forM_cons, List.forM_nil, bind_assoc, bind_pure_unit, id]

/-- Step by step, a module declares what it declares union by union. -/
theorem forM_steps (home : Nat) (p : Preamble) (m : Module) : (m.steps home p).forM id = (m.declarations home p).forM id := by
  have hunions (us : List UnionClass) :
      (forM (us.flatMap (·.steps home)) id : Loading Unit) = forM (us.map (·.execute home)) id := by
    induction us with
    | nil => rfl
    | cons u us ih =>
      rw [List.flatMap_cons, List.map_cons, List.forM_append, List.forM_cons, ih, id, UnionClass.execute_eq, List.forM_eq_forM]
  simp only [steps, declarations, List.forM_eq_forM, List.forM_append, hunions]

end Module

/-! ### Registrations -/

namespace Registration

variable {registry : String} {r : Registration} {rs : List Registration} {as : List Addition} {v : Value}
  {result : Except Failure Unit}

/-- Registrations that were made one after the other, with what they added. -/
inductive Made (home : Nat) (registry : String) : World → List Registration → List Addition → Prop
  | nil {w : World} : Made home registry w [] []
  | cons {w : World} {r : Registration} {a : Addition} {rs : List Registration} {as : List Addition}
      (ha : r.addition? w home registry = .ok a) (has : Made home registry (w.addAll [a]) rs as) :
      Made home registry w (r :: rs) (a :: as)

theorem Made.of_mem {a : Addition} (h : Made home registry w rs as) (ha : a ∈ as) :
    ∃ r ∈ rs, ∃ bs, r.addition? (w.addAll bs) home registry = .ok a := by
  induction h with
  | nil => cases ha
  | cons hr _ ih =>
    rcases List.mem_cons.mp ha with rfl | ha
    · exact ⟨_, List.mem_cons_self, [], by rwa [World.addAll_nil]⟩
    · obtain ⟨r, hr, bs, ha⟩ := ih ha
      exact ⟨r, List.mem_cons_of_mem _ hr, _, World.addAll_addAll ▸ ha⟩

/-- Registrations are made up to the first one that fails. -/
theorem made_of_forM (h : (rs.forM (·.execute home registry)).run.run w = (result, w')) :
    (∃ as, result = .ok () ∧ Made home registry w rs as ∧ w' = w.addAll as) ∨
      ∃ f done r rest as, result = .error f ∧ rs = done ++ r :: rest ∧ Made home registry w done as ∧
        r.addition? (w.addAll as) home registry = .error f ∧ w' = w.addAll as := by
  induction rs generalizing w with
  | nil =>
    cases h
    exact .inl ⟨[], rfl, .nil, rfl⟩
  | cons r rs ih =>
    rw [List.forM, ExceptT.run_bind, StateT.run_bind, run_execute] at h
    cases ha : r.addition? w home registry with
    | error f =>
      rw [ha] at h
      cases h
      exact .inr ⟨f, [], r, rs, [], rfl, rfl, .nil, ha, rfl⟩
    | ok a =>
      rw [ha] at h
      rcases ih h with ⟨as, rfl, has, rfl⟩ | ⟨f, done, r', rest, as, rfl, rfl, has, hf, rfl⟩
      · exact .inl ⟨a :: as, rfl, .cons ha has, rfl⟩
      · exact .inr ⟨f, r :: done, r', rest, a :: as, rfl, rfl, .cons ha has, hf, rfl⟩

/-- What becomes of registrations that are offered to something that is no registry, one after the other: what that puts
into registries, and what comes of it. -/
inductive Offered (home : Nat) (v : Value) : World → List Registration → List Addition → Except Failure Unit → Prop
  | nil {w : World} : Offered home v w [] [] (.ok ())
  | cons {w : World} {r : Registration} {rs : List Registration} {as bs : List Addition} {result : Except Failure Unit}
      (hr : r.offering w home v = (as, .ok ())) (hrs : Offered home v (w.addAll as) rs bs result) :
      Offered home v w (r :: rs) (as ++ bs) result
  /-- One of them fails, and the rest are not offered. -/
  | stop {w : World} {r : Registration} {rs : List Registration} {as : List Addition} {f : Failure}
      (hr : r.offering w home v = (as, .error f)) : Offered home v w (r :: rs) as (.error f)

theorem offered_of_forM (h : (rs.forM (·.offer home v)).run.run w = (result, w')) :
    ∃ as, Offered home v w rs as result ∧ w' = w.addAll as := by
  induction rs generalizing w with
  | nil =>
    cases h
    exact ⟨[], .nil, rfl⟩
  | cons r rs ih =>
    rw [List.forM, ExceptT.run_bind, StateT.run_bind, run_offer] at h
    rcases hr : r.offering w home v with ⟨as, f | _⟩
    · rw [hr] at h
      cases h
      exact ⟨as, .stop hr, rfl⟩
    · rw [hr] at h
      obtain ⟨bs, hrs, rfl⟩ := ih h
      exact ⟨as ++ bs, .cons hr hrs, World.addAll_addAll⟩

theorem Offered.of_mem {a : Addition} (h : Offered home v w rs as result) (ha : a ∈ as) :
    ∃ r ∈ rs, ∃ bs, a ∈ (r.offering (w.addAll bs) home v).1 := by
  induction h with
  | nil => cases ha
  | cons hr _ ih =>
    rcases List.mem_append.mp ha with ha | ha
    · exact ⟨_, List.mem_cons_self, [], by rwa [World.addAll_nil, hr]⟩
    · obtain ⟨r, hr, bs, ha⟩ := ih ha
      exact ⟨r, List.mem_cons_of_mem _ hr, _, World.addAll_addAll ▸ ha⟩
  | stop hr => exact ⟨_, List.mem_cons_self, [], by rwa [World.addAll_nil, hr]⟩

end Registration

/-- What registers conversions puts converters into registries and does nothing else, also where it fails. -/
theorem Loading.exists_addAll {f registry : Value} {result : Except Failure Unit}
    (h : (Loading.register f registry).run.run w = (result, w')) : ∃ as, w' = w.addAll as := by
  unfold Loading.register at h
  split at h
  · rcases Registration.made_of_forM h with ⟨as, _, _, rfl⟩ | ⟨_, _, _, _, as, _, _, _, _, rfl⟩ <;> exact ⟨as, rfl⟩
  · obtain ⟨as, _, rfl⟩ := Registration.offered_of_forM h
    exact ⟨as, rfl⟩
  · rw [run_bind_call] at h
    split at h <;> obtain ⟨_, rfl⟩ := Prod.mk.inj h <;> exact ⟨_, rfl⟩

theorem Loading.adds_register (f registry : Value) (w : World) : Adds (fun _ => True) (Loading.register f registry) w := by
  obtain ⟨as, has⟩ := (exists_addAll rfl : ∃ as, ((Loading.register f registry).run.run w).2 = w.addAll as)
  refine ⟨as, ?_, fun _ _ => trivial⟩
  rw [has]
  exact w.shared_addAll as

namespace Module

theorem adds_statements {ss : List (Loading Unit)} (hss : ∀ s ∈ ss, s ∈ m.statements home p) (w : World) :
    Adds (fun _ => True) (ss.forM id) w := by
  refine adds_forM fun s hs x => ?_
  have hs := hss s hs
  simp only [statements, declarations, importing, List.mem_append, List.mem_cons, List.mem_map, List.not_mem_nil,
    or_false] at hs
  rcases hs with ((((((rfl | ⟨doc, _, rfl⟩) | ⟨i, _, rfl⟩) | rfl) | ⟨u, _, rfl⟩) | ⟨b, _, rfl⟩) | rfl) | rfl | rfl
  · exact adds_name _
  · exact adds_name _
  · exact i.adds_execute x fun _ _ _ _ _ _ => trivial
  · exact adds_bind_globalPath fun v _ => adds_name v
  · rw [id, UnionClass.execute_eq]
    exact adds_forM fun s hs y => u.adds_of_mem_steps hs (fun _ _ _ _ => trivial) fun _ _ _ _ _ _ _ _ => trivial
  · exact b.adds_execute x fun _ _ _ _ => trivial
  · exact adds_name _
  · exact adds_bind_global fun f _ => adds_bind_global fun registry _ => adds_register f registry x
  · exact adds_name _

/-- No statement changes what imports find. -/
theorem importable_forM {ss : List (Loading Unit)} (hss : ∀ s ∈ ss, s ∈ m.statements home p) (w : World) :
    ((ss.forM id).run.run w).2.importable = w.importable :=
  (adds_statements hss w).importable_eq

end Module

/-! ### Executing a module -/

namespace World

variable {r : LoadRequest} {m : Module} {p : Preamble}

/-- The world in which a module is executed: the module is there, and imports find it. -/
def entering (w : World) (r : LoadRequest) : World :=
  (w.addModule r.initialModule).2.setImportable r.name (some (.loaded w.modules.length))

theorem get?_setImportable (w : World) (name name' : String) (m : Option ModuleRef) :
    (w.setImportable name m).importable.get? name' = if name = name' then m else w.importable.get? name' := by
  cases m with
  | none => exact Table.get?_erase w.importable name name'
  | some m => exact Table.get?_insert w.importable name name' m

/-- Before a module is executed, imports find it under its name; afterwards they find it, or what they found before. -/
theorem executeNew_eq : w.executeNew r m p =
    match ((m.statements w.modules.length p).forM id).run.run (w.entering r) with
    | (.error f, after) => (after.setImportable r.name (w.importable.get? r.name), .error f)
    | (.ok (), after) =>
      (if r.register then after else after.setImportable r.name (w.importable.get? r.name), .ok w.modules.length) := by
  rw [← Module.execute_eq]
  rfl

/-- A module that is executed to its end stays, and imports find it or what they found before. -/
theorem executeNew_eq_ok_iff {id : Nat} : w.executeNew r m p = (w', .ok id) ↔ id = w.modules.length ∧
    ∃ after, Gives (m.execute w.modules.length p) (w.entering r) () after ∧
      w' = if r.register then after else after.setImportable r.name (w.importable.get? r.name) := by
  rw [executeNew_eq, ← Module.execute_eq]
  rcases hrun : (m.execute w.modules.length p).run.run (w.entering r) with ⟨f | _, after⟩
  · constructor
    · rintro ⟨⟩
    · rintro ⟨_, _, hgives, _⟩
      cases hrun.symm.trans hgives
  · constructor
    · rintro ⟨⟩
      exact ⟨rfl, after, hrun, rfl⟩
    · rintro ⟨rfl, _, hgives, rfl⟩
      cases hrun.symm.trans hgives
      rfl

theorem outside_executeNew {id : Nat} (h : w.executeNew r m p = (w', .ok id)) : w'.outside = w.outside := by
  obtain ⟨_, after, hrun, rfl⟩ := executeNew_eq_ok_iff.mp h
  rw [Module.execute_eq] at hrun
  have houtside := (Module.adds_statements (fun _ hs => hs) (w.entering r)).outside_eq hrun
  split
  · exact houtside
  · rw [setImportable]
    exact houtside

/-- What comes of a load, by the place where it ends. -/
inductive LoadsTo (w : World) (r : LoadRequest) : World → Except LoadFailure Nat → Prop
  /-- The text does not compile. -/
  | uncompiled {e : CompileError} (hc : compile r.source r.file r.docstring = .error e) :
      LoadsTo w r w (.error (.notCompiled e))
  /-- The generated module is not executed. -/
  | refused {c : Compiled} {f : LoadFailure} (hc : compile r.source r.file r.docstring = .ok c)
      (hp : r.preamble c.module = .error f) : LoadsTo w r w (.error f)
  /-- Its execution fails. -/
  | failed {c : Compiled} {p : Preamble} {f : Failure} {w₁ : World} (hc : compile r.source r.file r.docstring = .ok c)
      (hp : r.preamble c.module = .ok p) (hx : w.executeNew r c.module p = (w₁, .error f)) :
      LoadsTo w r w₁ (.error (.failed f))
  | executed {c : Compiled} {p : Preamble} {id : Nat} {w₁ : World} (hc : compile r.source r.file r.docstring = .ok c)
      (hp : r.preamble c.module = .ok p) (hx : w.executeNew r c.module p = (w₁, .ok id)) (hr : r.registry = none) :
      LoadsTo w r w₁ (.ok id)
  /-- Its conversions are also registered in the registry that is supplied. -/
  | adopted {c : Compiled} {p : Preamble} {id : Nat} {registry : String} {w₁ w₂ : World}
      (hc : compile r.source r.file r.docstring = .ok c) (hp : r.preamble c.module = .ok p)
      (hx : w.executeNew r c.module p = (w₁, .ok id)) (hr : r.registry = some registry)
      (ha : w₁.adopt id registry = (w₂, .ok ())) : LoadsTo w r w₂ (.ok id)
  /-- That fails. -/
  | abandoned {c : Compiled} {p : Preamble} {id : Nat} {registry : String} {f : Failure} {w₁ w₂ : World}
      (hc : compile r.source r.file r.docstring = .ok c) (hp : r.preamble c.module = .ok p)
      (hx : w.executeNew r c.module p = (w₁, .ok id)) (hr : r.registry = some registry)
      (ha : w₁.adopt id registry = (w₂, .error f)) : LoadsTo w r w₂ (.error (.failed f))

theorem LoadsTo.load_eq {result : Except LoadFailure Nat} (h : w.LoadsTo r w' result) : w.load r = (w', result) := by
  cases h with
  | uncompiled hc => rw [load, hc]
  | refused hc hp => simp only [load, hc, hp]
  | failed hc hp hx => simp only [load, hc, hp, hx]
  | executed hc hp hx hr => simp only [load, hc, hp, hx, hr]
  | adopted hc hp hx hr ha => simp only [load, hc, hp, hx, hr, ha]
  | abandoned hc hp hx hr ha => simp only [load, hc, hp, hx, hr, ha]

theorem exists_loadsTo (w : World) (r : LoadRequest) : ∃ w' result, w.LoadsTo r w' result := by
  cases hc : compile r.source r.file r.docstring with
  | error e => exact ⟨_, _, .uncompiled hc⟩
  | ok c =>
    cases hp : r.preamble c.module with
    | error f => exact ⟨_, _, .refused hc hp⟩
    | ok p =>
      rcases hx : w.executeNew r c.module p with ⟨w₁, f | id⟩
      · exact ⟨_, _, .failed hc hp hx⟩
      · cases hr : r.registry with
        | none => exact ⟨_, _, .executed hc hp hx hr⟩
        | some registry =>
          rcases ha : w₁.adopt id registry with ⟨w₂, f | _⟩
          · exact ⟨_, _, .abandoned hc hp hx hr ha⟩
          · exact ⟨_, _, .adopted hc hp hx hr ha⟩

theorem loadsTo_load (w : World) (r : LoadRequest) : w.LoadsTo r (w.load r).1 (w.load r).2 := by
  obtain ⟨w', result, h⟩ := w.exists_loadsTo r
  rwa [h.load_eq]

end World

end UnionBridge
