import UnionBridge.Proofs.Execution.Arrival
import UnionBridge.Proofs.Execution.Importable
import UnionBridge.Proofs.World.Settled

/-! Loads leave what was there as it was. What a load registers is for targets that are new, so that no call of anything
that was there before finds it. -/
namespace UnionBridge

open Loading

variable {w w' w'' x x' : World} {home id : Nat} {names : List String} {registry : String} {v : Value} {u : Unit} {m : Module}

/-! ### Registrations -/

theorem ConverterKey.target_of_require {k : ConverterKey} (h : k.require = .ok ()) : World.requireKey k.target = .ok () := by
  obtain ⟨_, _, htarget⟩ := Except.exists_of_bind_eq_ok h
  exact htarget

namespace World.Building

variable (h : w.Building home names x) (hsound : w.Sound) (hquiet : w.Quiet) {rs : List Registration}
  (hparameter : ∀ r ∈ rs, r.dest ≠ Registration.parameter)
  (hdests : ∀ r ∈ rs, ∀ v, x.global home r.dest = .ok v → requireKey v = .ok () → w.Lacks v)
include h hparameter hdests

/-- What a module registers is under the value that its destination means, and is the function that it names. -/
theorem lacks_of_evaluated {r : Registration} {source target f : Value} {bs : List Addition} (hv : v.Within x.region)
    (hr : r ∈ rs) (he : r.evaluated? (x.addAll bs) home v = .ok (source, target, f))
    (hkey : ConverterKey.require ⟨source, target, false⟩ = .ok ()) :
    target.Within x.region ∧ f.Within x.region ∧ w.Lacks target := by
  obtain ⟨_, htarget, hf⟩ := Registration.evaluated?_eq_ok_iff.mp he
  obtain ⟨hown, _⟩ | ⟨_, htarget⟩ := Registration.eq_or_global_of_name htarget
  · exact absurd hown (hparameter r hr)
  · rw [global_addAll] at htarget
    refine ⟨h.within_global htarget, ?_, hdests r hr target htarget (ConverterKey.target_of_require hkey)⟩
    obtain ⟨_, rfl⟩ | ⟨_, hf⟩ := Registration.eq_or_global_of_name hf
    · exact hv
    · exact h.within_global (global_addAll ▸ hf)

include hsound hquiet

/-- Calling the registrar with whatever a module has as its registry. -/
theorem of_register (hv : v.Within x.region)
    (hrs : Gives (Loading.register (.function (.registrar home rs)) v) x u x') : w.Building home names x' := by
  have hoffers (hrs : Gives (rs.forM (·.offer home v)) x u x') : w.Building home names x' := by
    obtain ⟨as, has, rfl⟩ := Registration.offered_of_forM hrs
    refine h.addAll hsound fun a ha => ?_
    obtain ⟨r, hr, bs, ha⟩ := has.of_mem ha
    obtain ⟨f, s, ha⟩ | ⟨source, target, f, he, hkey, rfl⟩ := Registration.mem_offering ha
    · rw [outside_addAll, (h.grown.quiet hquiet).registers] at ha
      cases ha
    · obtain ⟨htarget, hf, hlacks⟩ := h.lacks_of_evaluated hparameter hdests hv hr he hkey
      exact ⟨htarget, hf, hlacks⟩
  cases v with
  | registry name =>
    obtain ⟨as, _, has, rfl⟩ | ⟨_, _, _, _, _, hfails, _⟩ := Registration.made_of_forM hrs
    · refine h.addAll hsound fun a ha => ?_
      obtain ⟨r, hr, bs, ha⟩ := has.of_mem ha
      obtain ⟨source, target, f, he, hkey, rfl⟩ := Registration.addition?_eq_ok_iff.mp ha
      obtain ⟨htarget, hf, hlacks⟩ := h.lacks_of_evaluated hparameter hdests hv hr he hkey
      exact ⟨htarget, hf, hlacks⟩
    · cases hfails
  | _ => exact hoffers hrs

end World.Building

/-! ### Modules -/

/-- The destinations of a module are unions that it declares, each with its own variants and functions. -/
structure Module.Assembled (m : Module) : Prop where
  cases : ∀ n ∈ m.unions, ∀ c ∈ n.cases, c.union = n.name ∧ constant? c.name = none
  dests : ∀ b ∈ m.bridges, b.dest ∈ m.unions.map (·.name) ∧ constant? b.dest = none
  registers : ∀ r ∈ m.registrations, ∃ b ∈ m.bridges, r.dest = b.dest

theorem Keyword.constant?_of_canBeBound {s : String} (h : canBeBound s) : constant? s = none := by
  unfold constant?
  split
  all_goals first | rfl | exact absurd h (by decide)

namespace Compiled

variable {source : String} {file doc : Option String} {c : Compiled} (hc : compile source file doc = .ok c)
include hc

theorem exists_destination_of_bridge {b : Bridge} (hb : b ∈ c.module.bridges) :
    ∃ u ∈ c.schema.destinations, b.dest = u.name := by
  obtain ⟨p, hp, hcarries⟩ := exists_left_of_forall₂ (forall₂_bridges hc) hb
  obtain ⟨u, hu, hof⟩ := exists_destination hc hp
  exact ⟨u, hu, hcarries.dest_eq.trans hof.dest_eq⟩

theorem assembled (hw : c.module.isWellFormed) : c.module.Assembled := by
  obtain ⟨_, _, _, hmodule⟩ := compile_eq_ok_iff.mp hc
  have hunions : c.module.unions = c.schema.unions.map UnionClass.ofUnion := by rw [hmodule, Module.ofPlans]
  simp only [Module.isWellFormed, Bool.and_eq_true, List.all_eq_true] at hw
  refine ⟨fun n hn v hv => ?_, fun b hb => ?_, fun r hr => ?_⟩
  · have hbound := hw.1.2 _ hn
    simp only [UnionClass.isWellFormed, Bool.and_eq_true, List.all_eq_true] at hbound
    refine ⟨?_, Keyword.constant?_of_canBeBound (hbound.2 v hv).1⟩
    rw [hunions] at hn
    obtain ⟨u, _, rfl⟩ := List.mem_map.mp hn
    obtain ⟨t, _, rfl⟩ := List.mem_map.mp hv
    rfl
  · obtain ⟨u, hu, hname⟩ := exists_destination_of_bridge hc hb
    have hmem : UnionClass.ofUnion u ∈ c.module.unions := by
      rw [hunions]
      exact List.mem_map_of_mem (List.mem_of_mem_filter hu)
    have hbound := hw.1.2 _ hmem
    simp only [UnionClass.isWellFormed, Bool.and_eq_true] at hbound
    rw [hname]
    exact ⟨List.mem_map.mpr ⟨_, hmem, rfl⟩, Keyword.constant?_of_canBeBound hbound.1⟩
  · obtain ⟨conv, hconv, rfl⟩ := List.mem_map.mp hr
    obtain ⟨b, hb, _, hdest⟩ := (orderly hc).exists_bridge hconv
    exact ⟨b, hb, hdest⟩

end Compiled

namespace World.Building

/-- A module comes in, and registers its conversions. -/
theorem of_module (h : w.Building home [] x) (hsound : w.Sound) (hquiet : w.Quiet) {p : Preamble} (hm : m.Assembled)
    (hparameter : ∀ b ∈ m.bridges, b.dest ≠ Registration.parameter) (hg : Gives (m.execute home p) x u x') :
    w.Building home ((m.unions.map (·.name)).filter (· ≠ "__all__")) x' := by
  have hg := gives_bind_name.mp hg
  have h₀ : w.Building home [] (x.setGlobal home "__builtins__" (.intrinsic (.dictionary "\x7b...\x7d" true))) :=
    h.bind_any (Value.within_intrinsic.mpr Intrinsic.within_dictionary) List.not_mem_nil
  obtain ⟨_, x₁, hdocstring, hg⟩ := gives_bind.mp hg
  have h₁ : w.Building home [] x₁ := by
    cases hp : p.docstring with
    | none =>
      rw [hp] at hdocstring
      obtain ⟨_, rfl⟩ := gives_pure.mp hdocstring
      exact h₀
    | some doc =>
      rw [hp] at hdocstring
      obtain rfl := gives_name.mp hdocstring
      exact h₀.bind_any (Value.within_text doc) List.not_mem_nil
  obtain ⟨_, x₂, himports, hg⟩ := gives_bind.mp hg
  have h₂ := preserved_of_forM h₁ himports fun i _ _ _ h hi => h.of_import hquiet hi
  obtain ⟨registry, hregistry, hg⟩ := gives_bind_globalPath.mp hg
  have hg := gives_bind_name.mp hg
  have h₃ : w.Building home [] (x₂.setGlobal home "_registry" registry) :=
    h₂.bind_any (h₂.sound.within_globalPath h₂.known hregistry) List.not_mem_nil
  obtain ⟨_, x₃, hunions, hg⟩ := gives_bind.mp hg
  have h₄ := h₃.of_unions hquiet hsound hm.cases hunions
  rw [List.append_nil] at h₄
  obtain ⟨_, x₄, hbridges, hg⟩ := gives_bind.mp hg
  have h₅ := preserved_of_forM h₄ hbridges fun b hb _ _ h hgives => h.of_bridge hquiet (hm.dests b hb).1 hgives
  have hg := gives_bind_name.mp hg
  have h₆ : w.Building home (m.unions.map (·.name)) (x₄.setGlobal home Module.registrar (m.registering home)) := by
    have hwithin : (m.registering home).Within x₄.region :=
      Value.within_function.mpr (FunctionRef.within_region.mpr fun _ hhome => Option.some.inj hhome ▸ h₅.known)
    exact (h₅.bind_new hwithin (.of_function rfl h₅.new)).mono fun _ hn => List.mem_cons_of_mem _ hn
  obtain ⟨f, hf, hg⟩ := gives_bind_global.mp hg
  obtain rfl : m.registering home = f := Except.ok.inj ((Module.global_registering h₅.known).symm.trans hf)
  obtain ⟨registry, hregistry, hg⟩ := gives_bind_global.mp hg
  obtain ⟨_, x₅, hregister, hall⟩ := gives_bind.mp hg
  have h₇ : w.Building home (m.unions.map (·.name)) x₅ := by
    refine h₆.of_register hsound hquiet (fun r hr => ?_) (fun r hr v hv _ => ?_) (h₆.within_global hregistry) hregister
    · obtain ⟨b, hb, hdest⟩ := hm.registers r hr
      exact hdest ▸ hparameter b hb
    · obtain ⟨b, hb, hdest⟩ := hm.registers r hr
      exact h₆.lacks_of_global (hm.dests b hb).1 (hm.dests b hb).2 (hdest ▸ hv)
  obtain rfl := gives_name.mp hall
  refine h₇.bind (Value.within_list.mpr fun v hv => ?_) fun n hn => .inr ?_
  · obtain ⟨name, _, rfl⟩ := List.mem_map.mp hv
    exact Value.within_text name
  · obtain ⟨hn, hne⟩ := List.mem_filter.mp hn
    exact ⟨of_decide_eq_true hne, hn⟩

/-- Imports may find something else. -/
theorem setImportable {name : String} {found : Option ModuleRef} (h : w.Building home names x)
    (hfound : ∀ m, found = some m → m.Within x.region) : w.Building home names (x.setImportable name found) := by
  refine ⟨h.grown.of_change le_rfl le_rfl (fun _ _ => rfl) (fun _ _ => rfl) (fun _ _ => rfl) rfl,
    h.sound.of_change (Region.below_mono le_rfl le_rfl) (fun _ hc => .inl hc) (fun _ hm => .inl hm) h.sound.misplaced rfl ?_,
    h.new, h.known, h.fresh⟩
  intro name' m hm
  rw [get?_setImportable] at hm
  split at hm
  · exact .inr (hfound m hm)
  · exact .inl hm

end World.Building

/-! ### Loads -/

namespace LoadRequest

/-- What a request gives the module is there, and no destination of it has a name by which its conversions are registered. -/
structure Fits (r : LoadRequest) (w : World) : Prop where
  names : ∀ e ∈ r.names, e.2.Within w.region
  dests : ∀ c, compile r.source r.file r.docstring = .ok c → ∀ u ∈ c.schema.destinations,
    u.name ≠ Registration.parameter ∧ (r.registry.isSome → u.name ≠ "_registry")

end LoadRequest

theorem LoadRequest.isWellFormed_of_preamble {r : LoadRequest} {p : Preamble} (h : r.preamble m = .ok p) : m.isWellFormed := by
  unfold preamble at h
  split at h
  · cases h
  · cases h
  · rename_i hread
    unfold Module.preamble? at hread
    split at hread
    · assumption
    · cases hread

namespace World

/-- A world to which an empty module is added. -/
theorem Sound.building_entering {r : LoadRequest} (h : w.Sound) (hnames : ∀ e ∈ r.names, e.2.Within w.region) :
    w.Building w.modules.length [] (w.entering r) := by
  have hlength : (w.addModule r.initialModule).2.modules.length = w.modules.length + 1 := List.length_append
  have hle : w.region.Le (w.addModule r.initialModule).2.region := Region.below_mono le_rfl (by omega)
  have hadded : w.Building w.modules.length [] (w.addModule r.initialModule).2 := by
    refine ⟨(Grown.refl w).of_change le_rfl (by omega) (fun _ _ => rfl) (fun id hid => ?_) (fun _ _ => rfl) rfl,
      h.of_change hle (fun _ hc => .inl hc) (fun m hm => ?_) (h.misplaced.mono hle) rfl (fun _ _ hm => .inl hm), le_rfl,
      by omega, fun _ hn => absurd hn List.not_mem_nil⟩
    · exact List.getElem?_append_left hid
    · rcases List.mem_append.mp hm with hm | hm
      · exact .inl hm
      · obtain rfl := List.mem_singleton.mp hm
        refine .inr (Table.Within.insertAll (.of_entries ?_) fun e he => (hnames e he).mono hle)
        simp [Module.initialGlobals]
  refine hadded.setImportable fun m hm => ?_
  obtain rfl := Option.some.inj hm
  change w.modules.length < (w.addModule r.initialModule).2.modules.length
  omega

theorem Sound.building_executeNew {r : LoadRequest} {p : Preamble} (h : w.Sound) (hquiet : w.Quiet)
    (hnames : ∀ e ∈ r.names, e.2.Within w.region) (hm : m.Assembled)
    (hparameter : ∀ b ∈ m.bridges, b.dest ≠ Registration.parameter) (hx : w.executeNew r m p = (w', .ok id)) :
    w.Building id ((m.unions.map (·.name)).filter (· ≠ "__all__")) w' ∧
      (w'.globals id).get? "__all__" = some (.list (m.exported.map .text)) := by
  obtain ⟨rfl, after, hrun, rfl⟩ := executeNew_eq_ok_iff.mp hx
  have hafter := (h.building_entering hnames).of_module h hquiet hm hparameter hrun
  have hlisted : (after.globals w.modules.length).get? "__all__" = some (.list (m.exported.map .text)) := by
    obtain ⟨_, w₂, _, _, _, _, rfl⟩ := Module.exists_ready hrun
    have hknown := hafter.known
    rw [setGlobal_eq, length_setGlobals] at hknown
    rw [setGlobal_eq, globals_setGlobals hknown]
    exact Table.get?_insert_self ..
  split
  · exact ⟨hafter, hlisted⟩
  · exact ⟨hafter.setImportable fun found hfound => (h.importable _ _ hfound).mono hafter.grown.le, hlisted⟩

/-- A load that comes out well leaves what was there as it was. -/
theorem Sound.grown_of_load {r : LoadRequest} (h : w.Sound) (hquiet : w.Quiet) (hr : r.Fits w) (hload : w.load r = (w', .ok id)) :
    w.Grown w' ∧ w'.Sound := by
  have hto := w.loadsTo_load r
  rw [hload] at hto
  have hexecuted {c : Compiled} {p : Preamble} {w₁ : World} (hc : compile r.source r.file r.docstring = .ok c)
      (hp : r.preamble c.module = .ok p) (hx : w.executeNew r c.module p = (w₁, .ok id)) :=
    have hm := Compiled.assembled hc (LoadRequest.isWellFormed_of_preamble hp)
    have hdests : ∀ b ∈ c.module.bridges, b.dest ≠ Registration.parameter ∧ (r.registry.isSome → b.dest ≠ "_registry") := by
      intro b hb
      obtain ⟨u, hu, hname⟩ := Compiled.exists_destination_of_bridge hc hb
      exact hname ▸ hr.dests c hc u hu
    And.intro hm (And.intro hdests (h.building_executeNew hquiet hr.names hm (fun b hb => (hdests b hb).1) hx))
  cases hto with
  | executed hc hp hx hregistry =>
    obtain ⟨_, _, hbuilding, _⟩ := hexecuted hc hp hx
    exact ⟨hbuilding.grown, hbuilding.sound⟩
  | adopted hc hp hx hregistry ha =>
    rename_i c p registry w₁
    obtain ⟨hm, hdests, hbuilding, hlisted⟩ := hexecuted hc hp hx
    have hregister : Gives (Loading.register (c.module.registering id) (.registry registry))
        (w₁.setGlobal id "_registry" (.registry registry)) () w' := (holds_of_executeNew hx).adopt_iff.mp ha
    have h₁ : w.Building id (((c.module.unions.map (·.name)).filter (· ≠ "__all__")).filter (· ≠ "_registry"))
        (w₁.setGlobal id "_registry" (.registry registry)) := by
      refine hbuilding.bind (Value.within_registry registry) fun n hn => .inr ?_
      obtain ⟨hn, hne⟩ := List.mem_filter.mp hn
      exact ⟨of_decide_eq_true hne, hn⟩
    have h₂ := h₁.of_register h hquiet (fun r hr => ?_) (fun r' hr' v hv hkey => ?_) (Value.within_registry registry) hregister
    · exact ⟨h₂.grown, h₂.sound⟩
    · obtain ⟨b, hb, hdest⟩ := hm.registers r hr
      exact hdest ▸ (hdests b hb).1
    · obtain ⟨b, hb, hdest⟩ := hm.registers r' hr'
      rw [hdest] at hv
      by_cases hall : b.dest = "__all__"
      · -- by now the name means the list of what the module exports, which cannot be part of a key
        rw [hall, setGlobal_eq, global_setGlobals_of_notMem (by simp), global_of_get? rfl hlisted] at hv
        obtain rfl := Except.ok.inj hv
        cases hkey
      · refine h₁.lacks_of_global ?_ (hm.dests b hb).2 hv
        simp only [List.mem_filter, decide_eq_true_eq]
        exact ⟨⟨(hm.dests b hb).1, hall⟩, (hdests b hb).2 (by simp [hregistry])⟩

/-- One world has become another one by loads that all came out well. -/
inductive LoadsInto : World → World → Prop
  | refl (w : World) : LoadsInto w w
  | step {w w₁ w' : World} {r : LoadRequest} {id : Nat} (hr : r.Fits w) (hload : w.load r = (w₁, .ok id))
      (hrest : LoadsInto w₁ w') : LoadsInto w w'

theorem LoadsInto.grown (h : w.LoadsInto w') (hw : w.Sound) (hquiet : w.Quiet) : w.Grown w' ∧ w'.Sound := by
  induction h with
  | refl w => exact ⟨.refl w, hw⟩
  | step hr hload _ ih =>
    obtain ⟨hgrown, hsound⟩ := hw.grown_of_load hquiet hr hload
    obtain ⟨hrest, hsound'⟩ := ih hsound (hgrown.quiet hquiet)
    exact ⟨hgrown.trans hrest, hsound'⟩

end World

/-- A field of a destination has the registry of the module as its type. -/
def awaitingSchema : Schema :=
  ⟨[], [oneVariant "Item" 1 "A" [("x", .ofName "int")] [], oneVariant "S" 2 "Box" [("item", .ofName "Item")] [],
    oneVariant "D" 3 "Box" [("item", .ofName "_registry")] [fromOne "S" none 3]]⟩

def awaitingRequest : LoadRequest :=
  lastingRequest ("union Item \x7b A \x7b x: int \x7d \x7d\nunion S \x7b Box \x7b item: Item \x7d \x7d\n" ++
    "@from_union(S)\nunion D \x7b Box \x7b item: _registry \x7d \x7d\n") none

/-- Another module with a destination for what that field holds. -/
def newcomerSchema (dest : String) : Schema :=
  ⟨[⟨.ofName "m", .names ("Item", none) [], ⟨1, 1⟩⟩],
    [oneVariant dest 2 "A" [("x", .ofName "int")] [fromOne "Item" none 2]]⟩

def newcomerRequest (dest : String) : LoadRequest :=
  { lastingRequest ("from m import Item\n@from_union(Item)\nunion " ++ dest ++ " \x7b A \x7b x: int \x7d \x7d\n") none with
    name := "n" }

def awaitingOutcome : World × Except Failure Nat :=
  Library.world.executeNew awaitingRequest awaitingSchema.describedModule ⟨some Module.defaultDocstring, []⟩

def awaitingWorld : World := awaitingOutcome.1

def newcomerOutcome (dest : String) : World × Except Failure Nat :=
  awaitingWorld.executeNew (newcomerRequest dest) (newcomerSchema dest).describedModule ⟨some Module.defaultDocstring, []⟩

def newcomerWorld (dest : String) : World := (newcomerOutcome dest).1

def awaitingConversion : Conversion :=
  ⟨"d_from_s", .ofName "S", "D", none,
    [⟨"Box", .direct ⟨"D", "Box", .byKeyword, [⟨"f_item", "item", .ofName "_registry"⟩]⟩⟩]⟩

def awaitingValue : Value := .record 3 [("item", .record 1 [("x", .int 1)])]

theorem compile_awaiting : compile awaitingRequest.source none none =
    .ok ⟨awaitingSchema, awaitingSchema.destinations.map (Plan.described · none), awaitingSchema.describedModule⟩ :=
  compile_of_lettered (.append .literal .literal) (by decide +kernel) (by decide +kernel) (by decide +kernel)

theorem compile_newcomer {dest : String} (h : dest = "E" ∨ dest = "registry") :
    compile (newcomerRequest dest).source none none = .ok ⟨newcomerSchema dest,
      (newcomerSchema dest).destinations.map (Plan.described · none), (newcomerSchema dest).describedModule⟩ := by
  rcases h with rfl | rfl
  · exact compile_of_lettered (.append (.append .literal .literal) .literal) (by decide +kernel) (by decide +kernel) (by decide +kernel)
  · exact compile_of_lettered (.append (.append .literal .literal) .literal) (by decide +kernel) (by decide +kernel) (by decide +kernel)

namespace World

theorem executed_awaiting :
    awaitingOutcome.2.toOption = some 0 ∧ awaitingWorld.classes.length = 6 ∧ awaitingWorld.modules.length = 1 ∧
      (awaitingWorld.global 0 "d_from_s").toOption.bind Value.reference? =
        (Value.function (.conversion 0 awaitingConversion)).reference? ∧
      Failure.occurs (!·.isUndetermined)
        (awaitingWorld.call (.function (.conversion 0 awaitingConversion)) (.of [awaitingValue])) := by
  decide +kernel

theorem executed_newcomer :
    (newcomerOutcome "E").2.toOption = some 1 ∧ (newcomerOutcome "registry").2.toOption = some 1 ∧
      ((newcomerWorld "E").registry "default").entries.length = (awaitingWorld.registry "default").entries.length + 1 ∧
      ((newcomerWorld "registry").call (.function (.conversion 0 awaitingConversion))
        (.of [awaitingValue])).toOption.any (fun _ => true) := by
  decide +kernel

theorem load_awaiting : Library.world.load awaitingRequest = (awaitingWorld, .ok 0) :=
  load_eq compile_awaiting (LoadRequest.preamble_default rfl rfl (by decide +kernel) (by decide +kernel)) rfl rfl
    executed_awaiting.1

theorem load_newcomer {dest : String} (h : dest = "E" ∨ dest = "registry") :
    awaitingWorld.load (newcomerRequest dest) = (newcomerWorld dest, .ok 1) := by
  have hcompile := compile_newcomer h
  rcases h with rfl | rfl
  · exact load_eq hcompile (LoadRequest.preamble_default rfl rfl (by decide +kernel) (by decide +kernel)) rfl rfl
      executed_newcomer.1
  · exact load_eq hcompile (LoadRequest.preamble_default rfl rfl (by decide +kernel) (by decide +kernel)) rfl rfl
      executed_newcomer.2.1

theorem grown_awaiting : Library.world.Grown awaitingWorld ∧ awaitingWorld.Sound := by
  refine Sound.library.grown_of_load (r := awaitingRequest) .library
    ⟨by simp [awaitingRequest, lastingRequest], fun c hc u hu => ?_⟩ load_awaiting
  obtain rfl := Except.ok.inj (compile_awaiting.symm.trans hc)
  revert u
  decide +kernel

theorem global_awaiting : awaitingWorld.global 0 "d_from_s" = .ok (.function (.conversion 0 awaitingConversion)) :=
  Value.eq_ok_of_reference? executed_awaiting.2.2.2.1 rfl

theorem call_awaiting : ∃ e,
    awaitingWorld.ComesTo (.function (.conversion 0 awaitingConversion)) (.of [awaitingValue]) (.error e) := by
  obtain ⟨e, he, hsettled⟩ := Failure.exists_of_occurs executed_awaiting.2.2.2.2
  refine ⟨e, by decide, he, ?_⟩
  rintro _ ⟨⟩
  simpa using hsettled

end World

end UnionBridge
