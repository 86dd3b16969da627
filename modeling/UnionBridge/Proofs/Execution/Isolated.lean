import UnionBridge.Proofs.Execution.Secluded

/-! Modules with a registry of their own. What their functions come to depends on that registry alone, whatever other
registries hold while they are loaded and afterwards. -/
namespace UnionBridge

open Loading

variable {hidden : String → Prop} {functions : FunctionRef → Prop} {w w' x x' : World} {home : Nat} {registry name : String}
  {v f : Value} {u : Unit} {m : Module} {c : Compiled} {p : Preamble} {r : LoadRequest}

namespace World

/-- What a module leads to cannot tell what hidden registries hold, as far as the converters of its own registry cannot. -/
theorem Confined.parallel (h : w.Confined functions x) (hfree : ∀ g, functions g → g.Free) (halike : x.AlikeBut hidden x')
    (hown : ∀ name, x.global w.modules.length "_registry" = .ok (.registry name) →
      ¬hidden name ∧ ∀ c, w.Converts name c → c.Aloof hidden x) :
    x.Parallel .whole (.newcomer w functions)
      (fun name => x.global w.modules.length "_registry" = .ok (.registry name)) x' := by
  have hsame : x.Same .whole x' := halike.rest ▸ x.same_withRegistries _
  have hnested : x.Nested .whole (.newcomer w functions) x' := ⟨hsame, h.closed, Region.le_whole _⟩
  refine ⟨hnested, fun g home hg hhome name hname => ?_, .inr fun g hg => ?_, ?_⟩
  · obtain rfl : home = w.modules.length := h.closed.home g home hg hhome
    exact hname
  · cases g with
    | builtin g => trivial
    | _ => exact hfree _ hg
  · intro depth name hname hcallers request v target container hv ht hcontainer
    obtain ⟨hshown, haloof⟩ := hown name hname
    refine hnested.concur_answer hcallers hv ht hcontainer (halike.lookup_eq hshown _ _) fun fallible c hc => ?_
    obtain ⟨e, he, rfl⟩ := exists_of_lookup hc
    rcases h.entries name e he with he | ⟨f, hf, hwithin⟩
    · exact ⟨haloof e.2 he x' halike depth v, fun a _ => a.within_whole⟩
    · rw [hf]
      exact hcallers.apt f _ hwithin (Supplied.within_whole _)

end World

/-! ### Loading -/

namespace LoadRequest.Secluded

variable (h : r.Secluded w) (hc : compile r.source r.file r.docstring = .ok c) (hp : r.preamble c.module = .ok p)
include h hc hp

theorem confined_of_execute (hx : Gives (c.module.execute w.modules.length p) (w.entering r) u x) :
    w.Confined (c.module.Defines w.modules.length) x := by
  rw [Module.execute_eq, Module.forM_statements] at hx
  obtain ⟨⟨f, v⟩, x₁, hprepared, hrest⟩ := gives_bind.mp hx
  obtain ⟨rfl, -, hregistry⟩ := Module.eq_of_gives_prepare hprepared
  obtain ⟨_, x₂, hregister, hlisted⟩ := gives_bind.mp hrest
  obtain rfl := gives_name.mp hlisted
  have hconfined := h.confined_of_prepare hc hp hprepared
  refine (hconfined.of_register (hconfined.within_global hregistry) hregister).bind (Value.within_list.mpr fun e he => ?_)
  obtain ⟨s, -, rfl⟩ := List.mem_map.mp he
  exact Value.within_text s

theorem confined_of_executeNew (hx : w.executeNew r c.module p = (x, .ok home)) :
    home = w.modules.length ∧ w.Confined (c.module.Defines home) x := by
  obtain ⟨rfl, y, hy, rfl⟩ := World.executeNew_eq_ok_iff.mp hx
  refine ⟨rfl, ?_⟩
  split
  · exact h.confined_of_execute hc hp hy
  · exact (h.confined_of_execute hc hp hy).setImportable

theorem insulated_execute : Insulated hidden (c.module.execute w.modules.length p) (w.entering r) := by
  rw [Module.execute_eq, Module.forM_statements]
  refine insulated_bind (h.insulated_prepare hc hp) fun e x hx => ?_
  obtain ⟨f, v⟩ := e
  obtain ⟨rfl, -, -⟩ := Module.eq_of_gives_prepare hx
  exact insulated_bind (insulated_register _ _ _) fun _ _ _ => insulated_name _

/-- A module is executed to its end whatever hidden registries hold. -/
theorem exists_executeNew (hx : w.executeNew r c.module p = (x, .ok home)) (halike : w.AlikeBut hidden w') :
    ∃ x', w'.executeNew r c.module p = (x', .ok home) ∧ x.AlikeBut hidden x' := by
  obtain ⟨rfl, y, hy, rfl⟩ := World.executeNew_eq_ok_iff.mp hx
  obtain ⟨y', hy', hleft⟩ := h.insulated_execute hc hp _ halike.entering _ y hy
  have hmodules : w'.modules = w.modules := by
    rw [halike.rest]
    rfl
  have himportable : w'.importable = w.importable := by
    rw [halike.rest]
    rfl
  refine ⟨_, World.executeNew_eq_ok_iff.mpr ⟨by rw [hmodules], y', by rwa [hmodules], rfl⟩, ?_⟩
  rw [himportable]
  split
  · exact hleft
  · exact hleft.setImportable

end LoadRequest.Secluded

namespace World

/-- A module gets its registry whatever hidden registries hold. -/
theorem Holds.exists_adopt (h : w.Holds home m) (hx : w.adopt home registry = (x, .ok ())) (h' : w'.Holds home m)
    (halike : w.AlikeBut hidden w') : ∃ x', w'.adopt home registry = (x', .ok ()) ∧ x.AlikeBut hidden x' := by
  obtain ⟨x', hx', hleft⟩ := insulated_register m.registrations (.registry registry) _ _ halike.setGlobal _ x (h.adopt_iff.mp hx)
  exact ⟨x', h'.adopt_iff.mpr hx', hleft⟩

/-- From then on that is its registry. -/
theorem Holds.global_adopt (h : w.Holds home m) (hx : w.adopt home registry = (x, .ok ())) :
    x.global home "_registry" = .ok (.registry registry) := by
  obtain ⟨-, hmodules⟩ := alike_register home (h.adopt_iff.mp hx)
  rw [global_of_modules_eq hmodules, setGlobal_eq]
  refine global_of_get? rfl ?_
  rw [globals_setGlobals h.lt_length]
  exact Table.get?_insert_self ..

end World

/-! ### Isolation -/

/-- What a module offers: the functions that it defines, and whatever there is under its names. -/
inductive Module.Offers (m : Module) (home : Nat) (x : World) : Value → Prop
  | function {g : FunctionRef} (hg : m.Defines home g) : m.Offers home x (.function g)
  | named {d : DottedName} {v : Value} (hv : x.globalPath home d = .ok v) : m.Offers home x v

namespace World

theorem Confined.within_offered (h : w.Confined (m.Defines w.modules.length) x) (hf : m.Offers w.modules.length x f) :
    f.Within (.newcomer w (m.Defines w.modules.length)) := by
  cases hf with
  | function hg =>
    cases hg with
    | conversion hc => exact Module.Defines.conversion hc
    | dispatcher hb => exact Module.Defines.dispatcher hb
    | registrar => exact Module.Defines.registrar
  | named hv => exact h.within_globalPath hv

/-- No load changes what is outside of the program. -/
theorem outside_of_load (hload : w.load r = (x, .ok home)) : x.outside = w.outside := by
  have hloads := w.loadsTo_load r
  rw [hload] at hloads
  cases hloads with
  | executed _ _ hx _ => exact outside_executeNew hx
  | adopted _ _ hx _ hadopt =>
    have hexecuted := outside_executeNew hx
    have hregister := (holds_of_executeNew hx).adopt_iff.mp hadopt
    exact ((adds_register _ _ _).outside_eq hregister).trans hexecuted

/-- Imports do not find a module that is not to be registered. -/
theorem unregistered_of_load (hload : w.load r = (x, .ok home)) (hr : r.registry = none) (hregister : r.register = false)
    (name : String) : x.importable.get? name = w.importable.get? name := by
  have hloads := w.loadsTo_load r
  rw [hload] at hloads
  rw [hloads.get?_importable hr name]
  simp [hregister]

/-- A module whose conversions go to a registry that is supplied is loaded once they are there. -/
theorem load_adopted_eq {supplied : String} {executed : World × Except Failure Nat} {adopted : World × Except Failure Unit}
    (hc : compile r.source r.file r.docstring = .ok c) (hp : r.preamble c.module = .ok p)
    (hr : r.registry = some supplied) (hx : w.executeNew r c.module p = executed) (hhome : executed.2.toOption = some home)
    (ha : executed.1.adopt home supplied = adopted) (hadopted : adopted.2.toOption = some ()) :
    w.load r = (adopted.1, .ok home) := by
  obtain ⟨y, result⟩ := executed
  obtain ⟨x, handed⟩ := adopted
  cases result with
  | error e => cases hhome
  | ok n =>
    obtain rfl := Option.some.inj hhome
    cases handed with
    | error e => cases hadopted
    | ok _ => exact LoadsTo.load_eq (.adopted hc hp hx hr ha)

end World

/-- A union and a destination that converts it, each with one variant. -/
def pairing (source dest variant : String) (given wanted : List (String × DottedName)) : Schema :=
  ⟨[], [oneVariant source 1 variant given [], oneVariant dest 2 variant wanted [fromOne source none 2]]⟩

def pairingRequest (name source dest variant given wanted : String) (registry : Option String) : LoadRequest where
  name
  source :=
    let body (fields : String) := " \x7b " ++ variant ++ " \x7b " ++ fields ++ " \x7d \x7d\n"
    "union " ++ source ++ body given ++ "@from_union(" ++ source ++ ")\nunion " ++ dest ++ body wanted
  names := []
  registry
  register := false
  file := none
  docstring := none

/-- The default registry comes to turn numbers into one text. -/
def World.defaulting (w : World) : World :=
  w.register "default" (.ofClasses (.builtin .int) (.builtin .str)) (.custom "other" (.constant (.text "other")))

/-- Another registry turns them into another text. -/
def constantWorld : World :=
  Library.world.register "own" (.ofClasses (.builtin .int) (.builtin .str)) (.custom "own" (.constant (.text "own")))

def constantSchema : Schema := pairing "S" "D" "A" [("x", .ofName "int")] [("x", .ofName "str")]

def constantRequest : LoadRequest := pairingRequest "m" "S" "D" "A" "x: int" "x: str" (some "own")

def constantExecuted : World × Except Failure Nat :=
  constantWorld.executeNew constantRequest constantSchema.describedModule ⟨some Module.defaultDocstring, []⟩

def constantAdopted : World × Except Failure Unit := constantExecuted.1.adopt 0 "own"

namespace World

theorem compile_constant : compile constantRequest.source none none =
    .ok ⟨constantSchema, constantSchema.destinations.map (Plan.described · none), constantSchema.describedModule⟩ :=
  compile_of_lettered (by repeat first | apply Lettered.append | exact Lettered.literal)
    (by decide +kernel) (by decide +kernel) (by decide +kernel)

theorem executed_constant : constantExecuted.2.toOption = some 0 ∧ constantAdopted.2.toOption = some () ∧
    ∃ b ∈ constantSchema.describedModule.bridges,
      (constantAdopted.1.globalPath 0 ⟨"D", ["from_source"]⟩).toOption.bind Value.reference? =
        (Value.function (.dispatcher 0 b.dispatcher)).reference? ∧
      (constantAdopted.1.call (.function (.dispatcher 0 b.dispatcher)) (.of [.record 1 [("x", .int 1)]])).toOption.any
        (·.equal (.record 3 [("x", .text "own")])) := by
  decide +kernel

theorem load_constant : constantWorld.load constantRequest = (constantAdopted.1, .ok 0) :=
  load_adopted_eq compile_constant (LoadRequest.preamble_default rfl rfl (by decide +kernel) (by decide +kernel)) rfl rfl
    executed_constant.1 rfl executed_constant.2.1

end World

/-! ### Hidden names -/

def originSchema : Schema := pairing "T" "U" "B" [("x", .ofName "int")] [("x", .ofName "str")]

def originRequest : LoadRequest := pairingRequest "n" "T" "U" "B" "x: int" "x: str" none

def originExecuted : World × Except Failure Nat :=
  Library.world.executeNew originRequest originSchema.describedModule ⟨some Module.defaultDocstring, []⟩

/-- The parameter of the conversion hides what begins the type of its field. -/
def capturedSchema : Schema :=
  pairing "S" "D" "A" [("a", .ofName "object"), ("b", .ofName "object")] [("b", ⟨"src", ["a", "from_source"]⟩)]

def capturedRequest : LoadRequest :=
  pairingRequest "m" "S" "D" "A" "a: object, b: object" "b: src.a.from_source" (some "own")

def capturedExecuted : World × Except Failure Nat :=
  originExecuted.1.executeNew capturedRequest capturedSchema.describedModule ⟨some Module.defaultDocstring, []⟩

def capturedAdopted : World × Except Failure Unit := capturedExecuted.1.adopt 1 "own"

/-- The first field has the dispatcher of another module. -/
def capturedValue : Value := .record 5 [("a", .record 3 [("x", .text "1")]), ("b", .record 1 [("x", .int 1)])]

def capturedResult (text : String) : Value := .record 7 [("b", .record 3 [("x", .text text)])]

namespace World

theorem executed_captured : originExecuted.2.toOption = some 0 ∧ capturedExecuted.2.toOption = some 1 ∧
    capturedAdopted.2.toOption = some () ∧ originExecuted.1.misplaced.entries.isEmpty ∧
    (originExecuted.1.registry "own").entries.isEmpty ∧
    ∃ conv ∈ capturedSchema.describedModule.conversions,
      (capturedAdopted.1.global 1 "d_from_s").toOption.bind Value.reference? =
        (Value.function (.conversion 1 conv)).reference? ∧
      (capturedAdopted.1.call (.function (.conversion 1 conv)) (.of [capturedValue])).toOption.any
        (fun v => v.equal (capturedResult "1") && !v.equal (capturedResult "other")) ∧
      (capturedAdopted.1.defaulting.call (.function (.conversion 1 conv)) (.of [capturedValue])).toOption.any
        (·.equal (capturedResult "other")) := by
  decide +kernel

theorem load_origin : Library.world.load originRequest = (originExecuted.1, .ok 0) := by
  have hcompile : compile originRequest.source none none =
      .ok ⟨originSchema, originSchema.destinations.map (Plan.described · none), originSchema.describedModule⟩ :=
    compile_of_lettered (by repeat first | apply Lettered.append | exact Lettered.literal)
      (by decide +kernel) (by decide +kernel) (by decide +kernel)
  exact load_eq hcompile (LoadRequest.preamble_default rfl rfl (by decide +kernel) (by decide +kernel)) rfl rfl
    executed_captured.1

theorem load_captured : originExecuted.1.load capturedRequest = (capturedAdopted.1, .ok 1) := by
  have hcompile : compile capturedRequest.source none none =
      .ok ⟨capturedSchema, capturedSchema.destinations.map (Plan.described · none), capturedSchema.describedModule⟩ :=
    compile_of_lettered (by repeat first | apply Lettered.append | exact Lettered.literal)
      (by decide +kernel) (by decide +kernel) (by decide +kernel)
  exact load_adopted_eq hcompile (LoadRequest.preamble_default rfl rfl (by decide +kernel) (by decide +kernel)) rfl rfl
    executed_captured.2.1 rfl executed_captured.2.2.1

end World

end UnionBridge
