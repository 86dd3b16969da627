import UnionBridge.Proofs.Execution.Converters
import UnionBridge.Proofs.Execution.Statements

/-! What imports find after several loads. Under every name it is the module of the last load that was to be registered
and came out well, or else what was there in the beginning. -/
namespace UnionBridge

open Loading

variable {w w' : World} {name : String}

namespace LoadRequest

/-- The same request without a registry for the module. -/
def unsupplied (r : LoadRequest) : LoadRequest := { r with registry := none }

end LoadRequest

namespace World

theorem importable_adopt {id : Nat} {registry : String} {result : Except Failure Unit}
    (h : w.adopt id registry = (w', result)) : w'.importable = w.importable := by
  rw [show w' = (w.adopt id registry).1 by rw [h]]
  simp only [adopt]
  split
  · rfl
  · exact (Loading.adds_register _ _ _).importable_eq

theorem get?_executeNew {r : LoadRequest} {m : Module} {p : Preamble} {result : Except Failure Nat}
    (h : w.executeNew r m p = (w', result)) (name : String) :
    w'.importable.get? name =
      match result with
      | .ok id => if r.register ∧ r.name = name then some (.loaded id) else w.importable.get? name
      | .error _ => w.importable.get? name := by
  have hkeeps : (((m.statements w.modules.length p).forM id).run.run (w.entering r)).2.importable =
      (w.entering r).importable := Module.importable_forM (fun _ hs => hs) _
  rw [executeNew_eq] at h
  rcases hrun : ((m.statements w.modules.length p).forM id).run.run (w.entering r) with ⟨f | _, after⟩
  all_goals
    rw [hrun] at hkeeps h
    have hafter (name : String) : after.importable.get? name =
        if r.name = name then some (.loaded w.modules.length) else w.importable.get? name := by
      rw [hkeeps]
      exact get?_setImportable ..
    have hrestored (name : String) :
        (after.setImportable r.name (w.importable.get? r.name)).importable.get? name = w.importable.get? name := by
      rw [get?_setImportable, hafter]
      split
      · rename_i hname
        rw [hname]
      · rfl
    obtain ⟨rfl, rfl⟩ := Prod.mk.inj h
  · exact hrestored name
  · by_cases hr : r.register
    · simp [hr, hafter]
    · simp [hr, hrestored]

/-- A registry that is supplied does not change what imports find. It can make a load fail, but not succeed. -/
theorem LoadsTo.exists_unsupplied {r : LoadRequest} {result : Except LoadFailure Nat} (h : w.LoadsTo r w' result) :
    ∃ w₁ result₁, w.LoadsTo r.unsupplied w₁ result₁ ∧ w'.importable = w₁.importable ∧
      ∀ id, result = .ok id → result₁ = .ok id := by
  cases h with
  | uncompiled hc => exact ⟨_, _, .uncompiled hc, rfl, fun _ h => h⟩
  | refused hc hp => exact ⟨_, _, .refused hc hp, rfl, fun _ h => h⟩
  | failed hc hp hx => exact ⟨_, _, .failed hc hp hx, rfl, fun _ h => h⟩
  | executed hc hp hx hr => exact ⟨_, _, .executed hc hp hx rfl, rfl, fun _ h => h⟩
  | adopted hc hp hx hr ha => exact ⟨_, _, .executed hc hp hx rfl, importable_adopt ha, fun _ h => h⟩
  | abandoned hc hp hx hr ha => exact ⟨_, _, .executed hc hp hx rfl, importable_adopt ha, nofun⟩

/-- Without a supplied registry, a module is found if it is to be registered and the load came out well. -/
theorem LoadsTo.get?_importable {r : LoadRequest} {result : Except LoadFailure Nat} (h : w.LoadsTo r w' result)
    (hr : r.registry = none) (name : String) :
    w'.importable.get? name =
      match result with
      | .ok id => if r.register ∧ r.name = name then some (.loaded id) else w.importable.get? name
      | .error _ => w.importable.get? name := by
  cases h with
  | uncompiled | refused => rfl
  | failed hc hp hx | executed hc hp hx => exact get?_executeNew hx name
  | adopted hc hp hx hr' | abandoned hc hp hx hr' => cases hr.symm.trans hr'

/-- Loads one schema after the other, and tells what came of each. -/
def loads (w : World) : List LoadRequest → World × List (LoadRequest × Except LoadFailure Nat)
  | [] => (w, [])
  | r :: rs => (((w.load r).1.loads rs).1, (r, (w.load r).2) :: ((w.load r).1.loads rs).2)

/-- A module that is executed to its end also registers its conversions in the registry that is supplied for it. -/
def HandsOver (w : World) (r : LoadRequest) : Prop :=
  ∀ id, (w.load r.unsupplied).2 = .ok id → (w.load r).2 = .ok id

/-- That holds of every load. -/
def AllHandOver : World → List LoadRequest → Prop
  | _, [] => True
  | w, r :: rs => w.HandsOver r ∧ (w.load r).1.AllHandOver rs

/-- The module of the last load under a name that was to be registered and came out well. -/
def lastRegistered (name : String) (outcomes : List (LoadRequest × Except LoadFailure Nat)) : Option ModuleRef :=
  outcomes.reverse.findSome? fun (r, result) =>
    if r.register ∧ r.name = name then result.toOption.map .loaded else none

theorem lastRegistered_cons (o : LoadRequest × Except LoadFailure Nat)
    (outcomes : List (LoadRequest × Except LoadFailure Nat)) :
    lastRegistered name (o :: outcomes) = (lastRegistered name outcomes).or (lastRegistered name [o]) := by
  rw [lastRegistered, List.reverse_cons, List.findSome?_append]
  rfl

/-- One load changes an entry only if it is to be registered and comes out well. -/
theorem HandsOver.get?_load {r : LoadRequest} (h : w.HandsOver r) (name : String) :
    (w.load r).1.importable.get? name = (lastRegistered name [(r, (w.load r).2)]).or (w.importable.get? name) := by
  have hlast : lastRegistered name [(r, (w.load r).2)] =
      if r.register ∧ r.name = name then (w.load r).2.toOption.map .loaded else none := by
    simp only [lastRegistered, List.reverse_singleton, List.findSome?_singleton]
  obtain ⟨w₁, result, hunsupplied, himportable, hsucceeds⟩ := (w.loadsTo_load r).exists_unsupplied
  rw [hlast, himportable, hunsupplied.get?_importable rfl]
  cases result with
  | ok id =>
    rw [h id (by rw [hunsupplied.load_eq])]
    by_cases hname : r.register ∧ r.name = name <;> simp [hname, Except.toOption, LoadRequest.unsupplied]
  | error f =>
    cases hl : (w.load r).2 with
    | error f => simp [Except.toOption]
    | ok id => cases hsucceeds id hl

theorem AllHandOver.of_append {before : List LoadRequest} {r : LoadRequest} {after : List LoadRequest}
    (h : w.AllHandOver (before ++ r :: after)) : (w.loads before).1.HandsOver r := by
  induction before generalizing w with
  | nil => exact h.1
  | cons r' before ih => exact ih h.2

theorem AllHandOver.get?_loads {rs : List LoadRequest} (h : w.AllHandOver rs) (name : String) :
    (w.loads rs).1.importable.get? name = (lastRegistered name (w.loads rs).2).or (w.importable.get? name) := by
  induction rs generalizing w with
  | nil => rfl
  | cons r rs ih =>
    rw [loads, ih h.2, h.1.get?_load, ← Option.or_assoc, ← lastRegistered_cons]

/-- What imports find stays consistent over any sequence of loads in which every module that is executed to its end hands
its conversions over. In the end every name has the module of its last successful load that was to be registered, or what
it had in the beginning. Loads that fail, and those that are not to be registered, leave every name as it was. While the
statements of a module are executed, its name has the module, and the other names have what they had. -/
theorem importable_of_loads {rs : List LoadRequest} (h : w.AllHandOver rs) :
    (∀ name, (w.loads rs).1.importable.get? name = (lastRegistered name (w.loads rs).2).or (w.importable.get? name)) ∧
    ∀ before r after, rs = before ++ r :: after → ∀ v, v = (w.loads before).1 →
      ((∃ f, (v.load r).2 = .error f) ∨ r.register = false →
        ∀ name, (v.load r).1.importable.get? name = v.importable.get? name) ∧
      ∀ c p, compile r.source r.file r.docstring = .ok c → r.preamble c.module = .ok p →
        c.module.execute v.modules.length p = (c.module.statements v.modules.length p).forM id ∧
        ∀ done rest, c.module.statements v.modules.length p = done ++ rest → ∀ name,
          ((done.forM id).run.run (v.entering r)).2.importable.get? name =
            if r.name = name then some (.loaded v.modules.length) else v.importable.get? name := by
  refine ⟨h.get?_loads, ?_⟩
  rintro before r after rfl v rfl
  refine ⟨fun hleaves name => ?_, fun c p _ _ => ⟨Module.execute_eq _ _ _, fun done rest hdone name => ?_⟩⟩
  · rw [h.of_append.get?_load]
    rcases hleaves with ⟨f, hf⟩ | hregister
    · simp [hf, lastRegistered, Except.toOption]
    · simp [hregister, lastRegistered]
  · have hkeeps : ((done.forM id).run.run ((w.loads before).1.entering r)).2.importable =
        ((w.loads before).1.entering r).importable :=
      Module.importable_forM (fun s hs => hdone ▸ List.mem_append_left _ hs) _
    rw [hkeeps]
    exact get?_setImportable ..

end World

/-- The request to load a text as a module that later imports find. -/
def lastingRequest (source : String) (registry : Option String) : LoadRequest where
  name := "m"
  source
  names := []
  registry
  register := true
  file := none
  docstring := none

/-- The module of a schema whose destinations are planned as their directives say. -/
def Schema.describedModule (s : Schema) : Module :=
  Module.ofPlans s (s.destinations.map (Plan.described · none)) none none

def lastingText : String := "union S \x7b A \x7b x: int \x7d \x7d\n"

def lastingSchema : Schema := ⟨[], [oneVariant "S" 1 "A" [("x", .ofName "int")] []]⟩

/-- A load that fails, as its text breaks off, leaves the module that was loaded under the name before. -/
theorem World.importable_of_loads_brokenOff :
    ∃ w e, Library.world.loads [lastingRequest lastingText none, lastingRequest "union" none] =
        (w, [(lastingRequest lastingText none, .ok 0), (lastingRequest "union" none, .error (.notCompiled e))]) ∧
      w.importable.get? "m" = some (.loaded 0) := by
  have hcompile : compile lastingText none none =
      .ok ⟨lastingSchema, lastingSchema.destinations.map (Plan.described · none), lastingSchema.describedModule⟩ :=
    compile_of_lettered .literal (by decide +kernel) (by decide +kernel) (by decide +kernel)
  have hload : Library.world.load (lastingRequest lastingText none) =
      ((Library.world.executeNew (lastingRequest lastingText none) lastingSchema.describedModule
        ⟨some Module.defaultDocstring, []⟩).1, .ok 0) :=
    load_eq hcompile (LoadRequest.preamble_default rfl rfl (by decide +kernel) (by decide +kernel)) rfl rfl (by decide +kernel)
  have hunread : Schema.parse "union" = .error (.unexpectedToken ⟨.finish, [], ⟨1, 1, 0⟩⟩ [.name]) := by decide +kernel
  have hbroken : ∃ e, compile "union" none none = .error e := ⟨_, by rw [compile, Schema.read, hunread]; rfl⟩
  obtain ⟨e, he⟩ := hbroken
  have hfails (w : World) : w.load (lastingRequest "union" none) = (w, .error (.notCompiled e)) := LoadsTo.load_eq (.uncompiled he)
  have hhands : Library.world.AllHandOver [lastingRequest lastingText none, lastingRequest "union" none] :=
    ⟨fun _ h => h, fun _ h => h, trivial⟩
  have hfound := (importable_of_loads hhands).1 "m"
  simp only [loads, hload, hfails] at hfound ⊢
  exact ⟨_, e, rfl, hfound⟩

def abandonedText : String :=
  lastingText ++ "union __all__ \x7b A \x7b x: int \x7d \x7d\n@from_union(S, __all__)\nunion D \x7b A \x7b x: int \x7d \x7d\n"

/-- One of the sources has the name under which the module lists, in the end, what it exports. -/
def abandonedSchema : Schema :=
  ⟨[], [oneVariant "S" 1 "A" [("x", .ofName "int")] [], oneVariant "__all__" 2 "A" [("x", .ofName "int")] [],
    ⟨"D", [⟨"A", .named [("x", .ofName "int")], [], ⟨4, 11⟩⟩],
      [⟨fromUnion, [⟨none, .ofName "S", ⟨3, 13⟩⟩, ⟨none, .ofName "__all__", ⟨3, 16⟩⟩], ⟨3, 1⟩⟩], ⟨3, 1⟩⟩]⟩

/-- The module registers both conversions while it is executed, but not in the registry that was supplied. -/
theorem World.load_abandoned :
    ∃ w f, Library.world.load (lastingRequest abandonedText (some "r")) = (w, .error f) ∧
      w.importable.get? "m" = some (.loaded 0) ∧ (w.registry "default").entries.length = 2 := by
  let r := lastingRequest abandonedText (some "r")
  let m := abandonedSchema.describedModule
  let p : Preamble := ⟨some Module.defaultDocstring, []⟩
  have hcompile : compile r.source r.file r.docstring =
      .ok ⟨abandonedSchema, abandonedSchema.destinations.map (Plan.described · none), m⟩ :=
    compile_of_lettered (.append .literal .literal) (by decide +kernel) (by decide +kernel) (by decide +kernel)
  have hpreamble : r.preamble m = .ok p := LoadRequest.preamble_default rfl rfl (by decide +kernel) (by decide +kernel)
  have hran :
      let w := Library.world.executeNew r m p
      w.2.toOption = some 0 ∧ (w.1.adopt 0 "r").2.toOption = none ∧
        (w.1.adopt 0 "r").1.importable.get? "m" = some (.loaded 0) ∧
        ((w.1.adopt 0 "r").1.registry "default").entries.length = 2 := by
    decide +kernel
  rcases hx : Library.world.executeNew r m p with ⟨w₁, f | id⟩
  · rw [hx] at hran
    cases hran.1
  · rw [hx] at hran
    obtain ⟨hid, hadopted, hleft⟩ := hran
    obtain rfl := Option.some.inj hid
    rcases ha : w₁.adopt 0 "r" with ⟨w₂, f | _⟩
    · rw [ha] at hleft
      exact ⟨w₂, _, LoadsTo.load_eq (.abandoned hcompile hpreamble hx rfl ha), hleft⟩
    · rw [ha] at hadopted
      cases hadopted

/-- A load that fails, as a conversion cannot be registered in the registry that was supplied, leaves its module behind
for imports to find. -/
theorem World.importable_of_loads_abandoned :
    ∃ w f, Library.world.load (lastingRequest abandonedText (some "r")) = (w, .error f) ∧
      Library.world.importable.get? "m" = none ∧ w.importable.get? "m" = some (.loaded 0) := by
  obtain ⟨w, f, hload, hfound, -⟩ := load_abandoned
  exact ⟨w, f, hload, by decide +kernel, hfound⟩

end UnionBridge
