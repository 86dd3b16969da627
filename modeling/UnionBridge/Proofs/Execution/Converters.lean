import UnionBridge.Proofs.Execution.Loaded

/-! The converters of a loaded module: the function that was made for a source and a destination is the one that is
registered for them and the one that the destination calls, as long as no dispatcher takes its name. -/
namespace UnionBridge

open Loading

variable {w w' v : World} {id : Nat} {x f : Value} {m : Module} {conv : Conversion} {s : Schema} {used : List String}
  {plans : List Plan} {σ : DottedName → ClassRef} {δ : String → Nat}

/-- The bridge of a plan leads to its destination, with one conversion for each of its sources. -/
structure Bridge.Carries (b : Bridge) (p : Plan) : Prop where
  dest_eq : b.dest = p.dest
  sources_eq : b.conversions.map (·.source) = p.table.keys
  dests_eq : ∀ c ∈ b.conversions, c.dest = b.dest

theorem Bridge.forall₂_ofPlans (s : Schema) (used : List String) (plans : List Plan) :
    List.Forall₂ (fun p (b : Bridge) => b.Carries p) plans (ofPlans s used plans) := by
  induction plans generalizing used with
  | nil => exact List.Forall₂.nil
  | cons p plans ih =>
    refine List.Forall₂.cons ⟨rfl, ?_, fun c hc => ?_⟩ (ih _)
    · have hpairs := Conversion.map_source_ofSources s p.mapping used p.table.entries
      have hsources := congrArg (List.map Prod.fst) hpairs
      simpa [List.map_map, Function.comp_def, Table.keys] using hsources
    · obtain ⟨e, _, name, rfl⟩ := exists_left_of_forall₂ (Conversion.forall₂_ofSources s p.mapping used _) hc
      rfl

/-- Functions of a module all have names of their own that say what they are from, and convert different pairs; those
of a bridge lead to its destination, and no two bridges have the same. -/
structure Module.Orderly (m : Module) : Prop where
  names : (m.conversions.map (·.name)).Nodup
  froms : ∀ c ∈ m.conversions, Naming.SaysFrom c.name
  pairs : (m.conversions.map fun c => (c.source, c.dest)).Nodup
  bridges : (m.bridges.map (·.dest)).Nodup
  dests : ∀ b ∈ m.bridges, ∀ c ∈ b.conversions, c.dest = b.dest

theorem Module.Orderly.exists_bridge (h : m.Orderly) (hc : conv ∈ m.conversions) :
    ∃ b ∈ m.bridges, conv ∈ b.conversions ∧ conv.dest = b.dest := by
  obtain ⟨b, hb, hmem⟩ := List.mem_flatMap.mp hc
  exact ⟨b, hb, hmem, h.dests b hb conv hmem⟩

namespace Compiled

variable {source : String} {file doc : Option String} {c : Compiled} (hc : compile source file doc = .ok c)
include hc

theorem forall₂_bridges : List.Forall₂ (fun p (b : Bridge) => b.Carries p) c.plans c.module.bridges := by
  obtain ⟨_, _, _, hm⟩ := compile_eq_ok_iff.mp hc
  rw [hm]
  exact Bridge.forall₂_ofPlans _ _ _

/-- The module of a schema is orderly. -/
theorem orderly : c.module.Orderly := by
  obtain ⟨_, _, _, hm⟩ := compile_eq_ok_iff.mp hc
  obtain ⟨hn, hs⟩ := Bridge.names_ofPlans c.schema [] c.plans
  refine ⟨by rwa [hm], fun conv hconv => (hs conv (by rwa [hm] at hconv)).2, nodup_conversions hc, ?_, fun b hb => ?_⟩
  · have hdests : c.module.bridges.map (·.dest) = c.plans.map (·.dest) := by
      have h := forall₂_bridges hc
      generalize c.plans = plans at h ⊢
      generalize c.module.bridges = bs at h ⊢
      induction h with
      | nil => rfl
      | cons hb _ ih => rw [List.map_cons, List.map_cons, hb.dest_eq, ih]
    rw [hdests]
    exact nodup_dests hc
  · obtain ⟨p, _, hcarries⟩ := exists_left_of_forall₂ (forall₂_bridges hc) hb
    exact hcarries.dests_eq

/-- The sources of a destination have their conversions in its bridge, in their order. -/
theorem exists_bridge_of_destination {u : Union} (hu : u ∈ c.schema.destinations) :
    ∃ b ∈ c.module.bridges, b.dest = u.name ∧ b.conversions.map (·.source) = u.sources ∧
      ∀ conv ∈ b.conversions, conv.dest = u.name := by
  obtain ⟨p, hp, hof⟩ := exists_right_of_forall₂ (compile_eq_ok_iff.mp hc).2.2.1 hu
  obtain ⟨b, hb, hcarries⟩ := exists_right_of_forall₂ (forall₂_bridges hc) hp
  refine ⟨b, hb, hcarries.dest_eq.trans hof.dest_eq, hcarries.sources_eq.trans hof.keys_table, fun conv hconv => ?_⟩
  rw [hcarries.dests_eq conv hconv, hcarries.dest_eq, hof.dest_eq]

end Compiled

/-! ### Names of loaded modules -/

/-- The names that a loaded module refers to mean what they should: destinations and sources mean classes, those of
different destinations differ, as do those of different sources of one destination, and no parameter hides them. -/
structure Module.Resolved (m : Module) (w : World) (home : Nat) (σ : DottedName → ClassRef) (δ : String → Nat) :
    Prop where
  dests : ∀ b ∈ m.bridges, w.Means home (.ofName b.dest) (.cls (.declared (δ b.dest))) ∧
    (w.class? (.declared (δ b.dest))).isSome
  dests_injective : ∀ b ∈ m.bridges, ∀ b' ∈ m.bridges, δ b.dest = δ b'.dest → b.dest = b'.dest
  sources : ∀ c ∈ m.conversions, w.Means home c.source (.cls (σ c.source))
  sources_injective : ∀ c ∈ m.conversions, ∀ c' ∈ m.conversions, c.dest = c'.dest → σ c.source = σ c'.source →
    c.source = c'.source
  shown : ∀ c ∈ m.conversions, Registration.parameter ∉ [c.source.head, c.dest] ∧ c.source.head ≠ Dispatcher.parameter
  detaches : w.global home "staticmethod" = .ok (.function (.builtin .detach))
  tests : w.global home "isinstance" = .ok (.function (.builtin .classTest))

theorem Module.Resolved.of_alike (hr : m.Resolved w id σ δ) (hv : v.Alike w id) : m.Resolved v id σ δ where
  dests b hb := by
    obtain ⟨hmeans, hclass⟩ := hr.dests b hb
    refine ⟨hmeans.of_alike hv, ?_⟩
    rwa [World.class?, hv.classes]
  dests_injective := hr.dests_injective
  sources c hc := (hr.sources c hc).of_alike hv
  sources_injective := hr.sources_injective
  shown := hr.shown
  detaches := (hv.global_eq (by decide)).trans hr.detaches
  tests := (hv.global_eq (by decide)).trans hr.tests

/-- What a value refers to: a class, a function or a registry. -/
def Value.reference? : Value → Option (ClassRef ⊕ FunctionRef ⊕ String)
  | .cls c => some (.inl c)
  | .function f => some (.inr (.inl f))
  | .registry r => some (.inr (.inr r))
  | _ => Option.none

/-- Values that refer to something are the same if they refer to the same. -/
theorem Value.eq_ok_of_reference? {r : Except Failure Value} (h : r.toOption.bind reference? = x.reference?)
    (hx : x.reference?.isSome) : r = .ok x := by
  cases r with
  | error e =>
    rw [← h] at hx
    cases hx
  | ok y =>
    change y.reference? = x.reference? at h
    cases x <;> cases hx <;> cases y <;> cases h <;> rfl

/-- Where sources are named without a dot, it is enough to look the names of a module up, which can be decided. -/
structure Module.Located (m : Module) (w : World) (home : Nat) (σ : DottedName → ClassRef) (δ : String → Nat) :
    Prop where
  dests : ∀ b ∈ m.bridges, b.dest ∉ ["_registry", "__all__"] ∧
    (w.global home b.dest).toOption.bind Value.reference? = some (.inl (.declared (δ b.dest))) ∧
    (w.class? (.declared (δ b.dest))).isSome ∧ ∀ b' ∈ m.bridges, δ b.dest = δ b'.dest → b.dest = b'.dest
  sources : ∀ c ∈ m.conversions, c.source = .ofName c.source.head ∧
    c.source.head ∉ ["_registry", "__all__", Registration.parameter, Dispatcher.parameter] ∧
    c.dest ≠ Registration.parameter ∧
    (w.global home c.source.head).toOption.bind Value.reference? = some (.inl (σ c.source)) ∧
    ∀ c' ∈ m.conversions, c.dest = c'.dest → σ c.source = σ c'.source → c.source = c'.source
  detaches : (w.global home "staticmethod").toOption.bind Value.reference? = some (.inr (.inl (.builtin .detach)))
  tests : (w.global home "isinstance").toOption.bind Value.reference? = some (.inr (.inl (.builtin .classTest)))

instance : Decidable (m.Located w id σ δ) :=
  decidable_of_iff (_ ∧ _ ∧ _ ∧ _) ⟨fun h => ⟨h.1, h.2.1, h.2.2.1, h.2.2.2⟩, fun h => ⟨h.1, h.2, h.3, h.4⟩⟩

theorem Module.Located.resolved (h : m.Located w id σ δ) : m.Resolved w id σ δ where
  dests b hb := by
    obtain ⟨hn, hdest, hclass, _⟩ := h.dests b hb
    exact ⟨World.Means.of_name hn (Value.eq_ok_of_reference? hdest rfl), hclass⟩
  dests_injective b hb := (h.dests b hb).2.2.2
  sources c hc := by
    obtain ⟨hname, hn, _, hsource, _⟩ := h.sources c hc
    simp only [List.mem_cons, List.not_mem_nil, or_false, not_or] at hn
    rw [hname]
    rw [hname] at hsource
    exact World.Means.of_name (by simp [hn]) (Value.eq_ok_of_reference? hsource rfl)
  sources_injective c hc := (h.sources c hc).2.2.2.2
  shown c hc := by
    obtain ⟨_, hn, hdest, _, _⟩ := h.sources c hc
    simp only [List.mem_cons, List.not_mem_nil, or_false, not_or] at hn ⊢
    exact ⟨⟨Ne.symm hn.2.2.1, Ne.symm hdest⟩, hn.2.2.2⟩
  detaches := Value.eq_ok_of_reference? h.detaches rfl
  tests := Value.eq_ok_of_reference? h.tests rfl

/-- The registry of a module, and the errors that its functions catch and raise, are found where they should be. -/
structure World.Supplies (w : World) (home : Nat) (registry : String) : Prop where
  registry : (w.global home "_registry").toOption.bind Value.reference? = some (.inr (.inr registry))
  rejection : (w.globalPath home ⟨"_rt", ["ConversionFailed"]⟩).toOption.bind Value.reference? =
    some (.inl (.builtin .conversionFailed))
  exhaustion : (w.globalPath home ⟨"_rt", ["ExhaustedCandidatesError"]⟩).toOption.bind Value.reference? =
    some (.inl (.builtin .exhausted))

namespace World.Supplies

variable {home : Nat} {registry : String}

instance : Decidable (w.Supplies home registry) :=
  decidable_of_iff (_ ∧ _ ∧ _) ⟨fun h => ⟨h.1, h.2.1, h.2.2⟩, fun h => ⟨h.1, h.2, h.3⟩⟩

variable (h : w.Supplies home registry)
include h

theorem global_registry : w.global home "_registry" = .ok (.registry registry) :=
  Value.eq_ok_of_reference? h.registry rfl

theorem globalPath_registry : w.globalPath home (.ofName "_registry") = .ok (.registry registry) := by
  rw [World.globalPath, DottedName.ofName, h.global_registry]
  rfl

theorem globalPath_rejection :
    w.globalPath home ⟨"_rt", ["ConversionFailed"]⟩ = .ok (.cls (.builtin .conversionFailed)) :=
  Value.eq_ok_of_reference? h.rejection rfl

theorem globalPath_exhaustion :
    w.globalPath home ⟨"_rt", ["ExhaustedCandidatesError"]⟩ = .ok (.cls (.builtin .exhausted)) :=
  Value.eq_ok_of_reference? h.exhaustion rfl

end World.Supplies

/-- Whatever the name of a function means at the end is what is registered. -/
theorem Module.Resolved.refers (hr : m.Resolved w id σ δ) (ho : m.Orderly) (hc : conv ∈ m.conversions)
    (hf : w.global id conv.name = .ok f) :
    Registration.Refers ⟨conv.source, conv.dest, conv.name⟩ w id (σ conv.source) (.declared (δ conv.dest)) f := by
  obtain ⟨b, hb, hconv⟩ := List.mem_flatMap.mp hc
  have hsays := ho.froms conv hc
  have hshown := (hr.shown conv hc).1
  simp only [List.mem_cons, List.not_mem_nil, or_false, not_or] at hshown
  have hspecial : conv.name ∉ ["_registry", "__all__", Registration.parameter] :=
    Naming.notMem_of_saysFrom hsays (by decide +kernel)
  simp only [List.mem_cons, List.not_mem_nil, or_false, not_or] at hspecial
  refine ⟨hr.sources conv hc, ?_, World.Means.of_name (by simp [hspecial]) hf, ?_⟩
  · rw [ho.dests b hb conv hconv]
    exact (hr.dests b hb).1
  · simp only [List.mem_cons, List.not_mem_nil, or_false, not_or]
    exact ⟨hshown.1, hshown.2, Ne.symm hspecial.2.2⟩

/-- The sources and the functions that a dispatcher mentions mean what they should. -/
theorem Module.Resolved.routes (hr : m.Resolved w id σ δ) (ho : m.Orderly) {b : Bridge} (hb : b ∈ m.bridges) :
    ∀ r ∈ b.dispatcher.routes,
      Dispatcher.parameter ∉ [r.1.head, r.2] ∧ w.globalPath id r.1 = .ok (.cls (σ r.1)) := by
  intro r hmem
  obtain ⟨conv, hconvb, rfl⟩ := List.mem_map.mp hmem
  have hconv : conv ∈ m.conversions := List.mem_flatMap.mpr ⟨b, hb, hconvb⟩
  have hname := Naming.notMem_of_saysFrom (ho.froms conv hconv) (show ∀ n ∈ [Dispatcher.parameter], _ by decide +kernel)
  refine ⟨?_, hr.sources conv hconv w (.refl w id)⟩
  simp only [List.mem_cons, List.not_mem_nil, or_false, not_or] at hname ⊢
  exact ⟨Ne.symm (hr.shown conv hconv).2, Ne.symm hname⟩

namespace World.Holds

variable (h : w.Holds id m)
include h

/-- Names that say what they are from are last bound by bridges. -/
theorem exists_global_eq : ∃ w₁ : World, id < w₁.modules.length ∧ ∀ name, Naming.SaysFrom name →
    w.global id name = (w₁.setGlobals id (m.definitions id)).global id name := by
  obtain ⟨_, ⟨⟨w₁, w₂, hbridges, rfl⟩, hh⟩, halike, _⟩ := h.ready
  have hlength := Bridge.length_modules_forM hbridges
  rw [setGlobal_eq, length_setGlobals, hlength] at hh
  refine ⟨w₁, hh, fun name hs => ?_⟩
  have hother : name ∉ ["_registry", "__all__"] := Naming.notMem_of_saysFrom hs (by decide +kernel)
  have hregistrar : name ∉ [(Module.registrar, m.registering id)].map Prod.fst :=
    Naming.notMem_of_saysFrom hs (by simp only [List.map_cons, List.map_nil]; decide +kernel)
  rw [halike.global_eq hother, setGlobal_eq, global_setGlobals_of_notMem hregistrar,
    global_of_modules_eq (Bridge.modules_forM hbridges)]
  rfl

section Orderly

variable (ho : m.Orderly)
include ho

theorem global_conversion_iff (hc : conv ∈ m.conversions) :
    w.global id conv.name = .ok (.function (.conversion id conv)) ↔ m.keeps conv := by
  obtain ⟨w₁, hh, heq⟩ := h.exists_global_eq
  rw [heq conv.name (ho.froms conv hc), Module.global_conversion_iff ho.names (ho.froms conv hc) hc hh]

/-- The name of a conversion means something, if perhaps not the conversion. -/
theorem exists_global (hc : conv ∈ m.conversions) : ∃ f, w.global id conv.name = .ok f := by
  obtain ⟨w₁, hh, heq⟩ := h.exists_global_eq
  obtain ⟨b, hb, hconv⟩ := List.mem_flatMap.mp hc
  have hsays := ho.froms conv hc
  have hmem : conv.name ∈ (m.definitions id).map Prod.fst := by
    refine List.mem_map.mpr ⟨(conv.name, .function (.conversion id conv)), ?_, rfl⟩
    exact List.mem_flatMap.mpr ⟨b, hb, Bridge.mem_definitions.mpr (Or.inl ⟨conv, hconv, rfl⟩)⟩
  obtain ⟨f, _, hget⟩ := Table.exists_get?_insertAll (t := w₁.globals id) hmem
  refine ⟨f, ?_⟩
  rw [heq conv.name hsays,
    global_eq_ok_iff (Naming.constant?_of_saysFrom hsays) (Naming.builtinName?_of_saysFrom hsays),
    globals_setGlobals hh, hget]

variable (hr : m.Resolved w id σ δ)
include hr

/-- Calling the registering function, whenever that happens, puts what the name of a conversion means under its pair. -/
theorem exists_register (hc : conv ∈ m.conversions) (hf : w.global id conv.name = .ok f) (hv : v.Alike w id)
    (registry : String) :
    ∃ v', Gives (Loading.register (m.registering id) (.registry registry)) v () v' ∧
      (v'.registry registry).get? (.ofClasses (σ conv.source) (.declared (δ conv.dest))) = some (.callable f) := by
  have hall : ∀ r ∈ m.registrations, r.Refers v id (σ r.source) (.declared (δ r.dest))
      ((w.global id r.function).toOption.getD .none) := by
    intro r hmem
    obtain ⟨conv', hconv', rfl⟩ := List.mem_map.mp hmem
    obtain ⟨g, hg⟩ := h.exists_global ho hconv'
    rw [hg]
    exact (hr.refers ho hconv' hg).of_alike hv
  obtain ⟨v', hgives, _, hfound, _⟩ := Registration.exists_forM hall registry
  refine ⟨v', hgives, ?_⟩
  have hmem : (⟨conv.source, conv.dest, conv.name⟩ : Registration) ∈ m.registrations :=
    List.mem_map.mpr ⟨conv, hc, rfl⟩
  have hget := hfound _ hmem fun r' hr' hs hd => ?_
  · rw [hf] at hget
    exact hget
  · obtain ⟨conv', hconv', rfl⟩ := List.mem_map.mp hr'
    obtain ⟨b, hb, hcb⟩ := List.mem_flatMap.mp hc
    obtain ⟨b', hb', hcb'⟩ := List.mem_flatMap.mp hconv'
    have hdest : conv'.dest = conv.dest := by
      have hd' : δ conv'.dest = δ conv.dest := by simpa using hd
      rw [ho.dests b hb conv hcb, ho.dests b' hb' conv' hcb'] at hd' ⊢
      exact hr.dests_injective b' hb' b hb hd'
    have hsource : conv'.source = conv.source := hr.sources_injective conv' hconv' conv hc hdest hs
    have hsame : conv' = conv := List.inj_on_of_nodup_map ho.pairs hconv' hc (by rw [hsource, hdest])
    rw [hsame]

/-- The registry that the module names holds what the name of a conversion means under its pair. -/
theorem get?_registry (hc : conv ∈ m.conversions) (hf : w.global id conv.name = .ok f) {registry : String}
    (hregistry : w.global id "_registry" = .ok (.registry registry)) :
    (w.registry registry).get? (.ofClasses (σ conv.source) (.declared (δ conv.dest))) = some (.callable f) := by
  obtain ⟨v, v', value, hv, hvalue, hgives, hsame⟩ := h.registered
  obtain rfl : value = .registry registry := Except.ok.inj (hvalue.symm.trans hregistry)
  obtain ⟨v'', hgives', hget⟩ := h.exists_register ho hr hc hf hv registry
  obtain rfl : v' = v'' := congrArg Prod.snd (hgives.symm.trans hgives')
  rwa [World.registry, hsame]

/-- A destination has the dispatcher of its own bridge. -/
theorem exists_dispatcher {b : Bridge} (hb : b ∈ m.bridges) : ∃ cls, w.class? (.declared (δ b.dest)) = some cls ∧
    cls.attributes.get? "from_source" = some (.function (.dispatcher id b.dispatcher)) := by
  obtain ⟨cls, hcls⟩ := Option.isSome_iff_exists.mp (hr.dests b hb).2
  refine ⟨cls, hcls, ?_⟩
  obtain ⟨_, ⟨⟨w₁, w₂, hbridges, rfl⟩, hh⟩, halike, _⟩ := h.ready
  rw [setGlobal_eq, length_setGlobals, Bridge.length_modules_forM hbridges] at hh
  have hdest : ∀ b' ∈ m.bridges, w₂.global id b'.dest = .ok (.cls (.declared (δ b'.dest))) := by
    intro b' hb'
    have hmeans := ((hr.dests b' hb').1.of_alike halike.symm).global_eq
    rw [setGlobal_eq] at hmeans
    exact global_of_setGlobals hmeans (by simp [Module.registering])
  have hdetach : w₂.global id "staticmethod" = .ok (.function (.builtin .detach)) := by
    have hdetaches := hr.detaches
    rwa [halike.global_eq (by decide), setGlobal_eq,
      global_setGlobals_of_notMem (by simp [Module.registrar])] at hdetaches
  have hcls' : w₂.class? (.declared (δ b.dest)) = some cls := by
    rw [World.class?, halike.classes] at hcls
    exact hcls
  obtain ⟨pre, post, hsplit⟩ := List.append_of_mem hb
  rw [hsplit] at hbridges
  refine Bridge.dispatcher_forM hbridges hh (hdest b hb) hdetach (fun b' hb' => ?_) hcls'
  have hmem : b' ∈ m.bridges := by
    rw [hsplit]
    exact List.mem_append_right _ (List.mem_cons_of_mem _ hb')
  intro hstart
  have hbefore := Bridge.global_of_forM hbridges (hdest b' hmem)
    fun b' _ e he => (Bridge.ne_of_mem_definitions (f := .detach) he).1
  have heq : δ b'.dest = δ b.dest := by simpa using hbefore.symm.trans hstart
  have hn := ho.bridges
  rw [hsplit, List.map_append, List.map_cons] at hn
  refine (List.nodup_cons.mp (List.nodup_append.mp hn).2.1).1 ?_
  rw [← hr.dests_injective b' hmem b hb heq]
  exact List.mem_map_of_mem hb'

/-- A dispatcher hands a value to the conversion of the first source that it is of. -/
theorem dispatch_eq {b : Bridge} {before after : List Conversion} (hb : b ∈ m.bridges)
    (hsplit : b.conversions = before ++ conv :: after) (hk : m.keeps conv) (hv : v.Alike w id)
    (hx : v.isInstance x (σ conv.source)) (hbefore : ∀ c ∈ before, ¬v.isInstance x (σ c.source)) (depth : Nat) :
    v.callWithin (depth + 1) (.function (.dispatcher id b.dispatcher)) (.of [x]) =
      v.callWithin depth (.function (.conversion id conv)) (.of [x]) := by
  have hc : conv ∈ m.conversions := List.mem_flatMap.mpr ⟨b, hb, by simp [hsplit]⟩
  have hother : conv.name ∉ ["_registry", "__all__"] := Naming.notMem_of_saysFrom (ho.froms conv hc) (by decide +kernel)
  have hglobal := (h.global_conversion_iff ho hc).mpr hk
  rw [← hv.global_eq hother] at hglobal
  have hfind : (b.dispatcher.routes.find? fun r => v.isInstance x (σ r.1)) = some (conv.source, conv.name) := by
    have hnone : ((before.map fun c => (c.source, c.name)).find? fun r => v.isInstance x (σ r.1)) = none := by
      simpa using hbefore
    simp [Bridge.dispatcher, hsplit, hnone, hx]
  have hv' := hr.of_alike hv
  rw [Dispatcher.callWithin_eq hv'.tests (hv'.routes ho hb), hfind]
  simp only [hglobal]
  rfl

end Orderly

end World.Holds

/-- In a module that was loaded, the name of a conversion means that conversion exactly if no dispatcher takes it. If
none does, and the names in the module mean what they should, the conversion of a source to a destination is what
`register_conversions` registers for the two, whenever it is called, what the registry of the module holds for them, and
what `from_source` of the destination calls on values of the source that are of no earlier source. -/
theorem World.conversion_of_load {r : LoadRequest} (h : w.load r = (w', .ok id)) :
    ∃ c, compile r.source r.file r.docstring = .ok c ∧
      w'.global id Module.registrar = .ok (c.module.registering id) ∧
      ∀ u ∈ c.schema.destinations, ∀ before S after, u.sources = before ++ S :: after →
        ∃ conv ∈ c.module.conversions, conv.source = S ∧ conv.dest = u.name ∧
          (∀ conv' ∈ c.module.conversions, conv'.source = S → conv'.dest = u.name → conv' = conv) ∧
          (w'.global id conv.name = .ok (.function (.conversion id conv)) ↔ c.module.keeps conv) ∧
          (c.module.keeps conv → ∀ σ δ, c.module.Resolved w' id σ δ →
            (∀ (v : World) registry, v.Alike w' id → ∃ v',
              Gives (Loading.register (c.module.registering id) (.registry registry)) v () v' ∧
                (v'.registry registry).get? (.ofClasses (σ S) (.declared (δ u.name))) =
                  some (.callable (.function (.conversion id conv)))) ∧
            (∀ registry, w'.global id "_registry" = .ok (.registry registry) →
              (w'.registry registry).get? (.ofClasses (σ S) (.declared (δ u.name))) =
                some (.callable (.function (.conversion id conv)))) ∧
            ∃ cls disp, w'.class? (.declared (δ u.name)) = some cls ∧
              cls.attributes.get? "from_source" = some (.function (.dispatcher id disp)) ∧
              ∀ (v : World) x depth, v.Alike w' id → v.isInstance x (σ S) → (∀ T ∈ before, ¬v.isInstance x (σ T)) →
                v.callWithin (depth + 1) (.function (.dispatcher id disp)) (.of [x]) =
                  v.callWithin depth (.function (.conversion id conv)) (.of [x])) := by
  obtain ⟨c, hc, hholds⟩ := holds_of_load h
  have ho := Compiled.orderly hc
  refine ⟨c, hc, hholds.global_registrar, fun u hu before S after hsources => ?_⟩
  obtain ⟨b, hb, hdest, hmap, hdests⟩ := Compiled.exists_bridge_of_destination hc hu
  rw [hsources, List.map_eq_append_iff] at hmap
  obtain ⟨bs, rest, hsplit, hbs, hrest⟩ := hmap
  obtain ⟨conv, as, rfl, rfl, has⟩ := List.map_eq_cons_iff.mp hrest
  have hconvb : conv ∈ b.conversions := by simp [hsplit]
  have hconv : conv ∈ c.module.conversions := List.mem_flatMap.mpr ⟨b, hb, hconvb⟩
  have hconvdest := hdests conv hconvb
  refine ⟨conv, hconv, rfl, hconvdest, fun conv' hconv' hs hd => ?_, hholds.global_conversion_iff ho hconv,
    fun hk σ δ hr => ⟨fun v registry hv => ?_, fun registry hregistry => ?_, ?_⟩⟩
  · exact List.inj_on_of_nodup_map ho.pairs hconv' hconv (by rw [hs, hd, hconvdest])
  · rw [← hconvdest]
    exact hholds.exists_register ho hr hconv ((hholds.global_conversion_iff ho hconv).mpr hk) hv registry
  · rw [← hconvdest]
    exact hholds.get?_registry ho hr hconv ((hholds.global_conversion_iff ho hconv).mpr hk) hregistry
  · obtain ⟨cls, hcls, hget⟩ := hholds.exists_dispatcher ho hr hb
    refine ⟨cls, b.dispatcher, hdest ▸ hcls, hget, fun v x depth hv hx hbefore => ?_⟩
    refine hholds.dispatch_eq ho hr hb hsplit hk hv hx (fun c' hc' => hbefore c'.source ?_) depth
    rw [← hbs]
    exact List.mem_map_of_mem hc'

/-- A union with one variant, whose text begins in a given line, with its directives before it. -/
def oneVariant (name : String) (line : Nat) (variant : String) (fields : List (String × DottedName))
    (directives : List Directive) : Union where
  name
  variants := [⟨variant, .named fields, [], ⟨line + directives.length, name.length + 10⟩⟩]
  directives
  place := ⟨line, 1⟩

/-- The directive that names a source, and a container if there is one. -/
def fromOne (source : String) (container : Option String) (line : Nat) : Directive where
  name := fromUnion
  args := ⟨none, .ofName source, ⟨line, 13⟩⟩ :: container.toList.map fun d =>
    ⟨some (.ofName "effect_container"), .ofName d, ⟨line, source.length + 15⟩⟩
  place := ⟨line, 1⟩

/-- A source and two destinations that convert it. -/
def twoDests (first second : String) (container : Option String) : Schema where
  imports := []
  unions := [oneVariant "Source" 1 "A" [("x", .ofName "int")] [],
    oneVariant first 2 "A" [("x", .ofName "int")] [fromOne "Source" container 2],
    oneVariant second 4 "A" [("x", .ofName "int")] [fromOne "Source" container 4]]

def twoDestsPlans (first second : String) (container : Option String) : List Plan :=
  (twoDests first second container).destinations.map (Plan.described · none)

def twoDestsModule (first second : String) (container : Option String) : Module :=
  Module.ofPlans (twoDests first second container) (twoDestsPlans first second container) none none

/-- The request to load its text. -/
def twoDestsRequest (first second : String) (container : Option String) : LoadRequest where
  name := "m"
  source :=
    let variant := " \x7b A \x7b x: int \x7d \x7d\n"
    let directive := "@from_union(Source" ++ (container.elim "" fun d => ", effect_container = " ++ d) ++ ")\nunion "
    "union Source" ++ variant ++ directive ++ first ++ variant ++ directive ++ second ++ variant
  names := container.toList.map fun d => (d, .cls (.builtin (.carrier .effectful)))
  registry := none
  register := false
  file := none
  docstring := none

/-- What comes of executing its module. -/
def twoDestsOutcome (first second : String) (container : Option String) : World × Except Failure Nat :=
  Library.world.executeNew (twoDestsRequest first second container) (twoDestsModule first second container)
    ⟨some Module.defaultDocstring, []⟩

/-- A module that keeps the default registry is loaded once it has been executed. -/
theorem World.load_eq {r : LoadRequest} {c : Compiled} {p : Preamble} {result : World × Except Failure Nat}
    (hc : compile r.source r.file r.docstring = .ok c) (hp : r.preamble c.module = .ok p) (hr : r.registry = none)
    (he : w.executeNew r c.module p = result) (hid : result.2.toOption = some id) : w.load r = (result.1, .ok id) := by
  obtain ⟨after, executed⟩ := result
  cases executed with
  | error e => cases hid
  | ok n =>
    obtain rfl := Option.some.inj hid
    simp only [load, hc, hp, he, hr]

theorem exists_of_any_toOption {α ε : Type} {r : Except ε α} {test : α → Bool} (h : r.toOption.any test) :
    ∃ a, r = .ok a ∧ test a := by
  cases r with
  | error e => cases h
  | ok a => exact ⟨a, rfl, h⟩

/-- Whether something fails in a certain way. -/
def Failure.occurs {α : Type} (test : Failure → Bool) : Except Failure α → Bool
  | .error e => test e
  | .ok _ => false

theorem Failure.exists_of_occurs {α : Type} {r : Except Failure α} {test : Failure → Bool} (h : occurs test r) :
    ∃ e, r = .error e ∧ test e := by
  cases r with
  | error e => exact ⟨e, rfl, h⟩
  | ok a => cases h

/-- The numbers of its destinations as classes. -/
def twoDestsClass (first : String) (name : String) : Nat := if name = first then 2 else 4

/-- What the names in its module should mean. -/
def twoDestsNames (first second : String) : List (String × Value) :=
  [("Source", .cls (.declared 0)), (first, .cls (.declared 2)), (second, .cls (.declared 4)),
    ("_registry", .registry "default"), ("staticmethod", .function (.builtin .detach)),
    ("isinstance", .function (.builtin .classTest))]

theorem global_twoDests {first second : String}
    (hw : ∀ e ∈ twoDestsNames first second, (w.global 0 e.1).toOption.bind Value.reference? = e.2.reference?) :
    ∀ e ∈ twoDestsNames first second, w.global 0 e.1 = .ok e.2 := by
  intro e he
  refine Value.eq_ok_of_reference? (hw e he) ?_
  simp only [twoDestsNames, List.mem_cons, List.not_mem_nil, or_false] at he
  rcases he with rfl | rfl | rfl | rfl | rfl | rfl <;> rfl

theorem resolved_twoDests {first second : String} (container : Option String)
    (hw : ∀ e ∈ twoDestsNames first second, w.global 0 e.1 = .ok e.2)
    (hclass : (w.class? (.declared 2)).isSome ∧ (w.class? (.declared 4)).isSome)
    (hne : second ≠ first ∧ ∀ name ∈ [first, second], name ∉ ["_registry", "__all__", Registration.parameter])
    (hbridges : ∀ b ∈ (twoDestsModule first second container).bridges, b.dest = first ∨ b.dest = second)
    (hconversions : ∀ c ∈ (twoDestsModule first second container).conversions,
      c.source = .ofName "Source" ∧ (c.dest = first ∨ c.dest = second)) :
    (twoDestsModule first second container).Resolved w 0 (fun _ => .declared 0) (twoDestsClass first) := by
  simp only [twoDestsNames, List.mem_cons, List.not_mem_nil, or_false, forall_eq_or_imp, forall_eq] at hw
  obtain ⟨hsource, hfirst, hsecond, _, hdetaches, htests⟩ := hw
  obtain ⟨hne, hnames⟩ := hne
  have hclasses : twoDestsClass first first = 2 ∧ twoDestsClass first second = 4 := by simp [twoDestsClass, hne]
  have hshown : ∀ name ∈ [first, second], name ∉ ["_registry", "__all__"] ∧ name ≠ Registration.parameter := by
    intro name hname
    have := hnames name hname
    simp_all
  refine ⟨fun b hb => ?_, fun b hb b' hb' hδ => ?_, fun c hc => ?_, fun c hc c' hc' _ _ => ?_, fun c hc => ?_,
    hdetaches, htests⟩
  · rcases hbridges b hb with hdest | hdest <;> rw [hdest]
    · rw [hclasses.1]
      exact ⟨World.Means.of_name (hshown first (by simp)).1 hfirst, hclass.1⟩
    · rw [hclasses.2]
      exact ⟨World.Means.of_name (hshown second (by simp)).1 hsecond, hclass.2⟩
  · rcases hbridges b hb with hdest | hdest <;> rcases hbridges b' hb' with hdest' | hdest' <;>
      simp_all
  · rw [(hconversions c hc).1]
    exact World.Means.of_name (by decide) hsource
  · rw [(hconversions c hc).1, (hconversions c' hc').1]
  · rw [(hconversions c hc).1]
    refine ⟨?_, by decide⟩
    have hdest : c.dest ≠ Registration.parameter := by
      rcases (hconversions c hc).2 with hdest | hdest <;> rw [hdest]
      · exact (hshown first (by simp)).2
      · exact (hshown second (by simp)).2
    simp [DottedName.ofName, Registration.parameter] at hdest ⊢
    exact Ne.symm hdest

theorem World.conversion_of_load_apart :
    ∃ w, Library.world.load (twoDestsRequest "D" "E" none) = (w, .ok 0) ∧ ∃ conv disp cls,
      (w.registry "default").get? (.ofClasses (.declared 0) (.declared 2)) =
        some (.callable (.function (.conversion 0 conv))) ∧
      w.class? (.declared 2) = some cls ∧ cls.attributes.get? "from_source" = some (.function (.dispatcher 0 disp)) ∧
      w.callWithin 2 (.function (.dispatcher 0 disp)) (.of [.record 1 [("x", .int 1)]]) =
        w.callWithin 1 (.function (.conversion 0 conv)) (.of [.record 1 [("x", .int 1)]]) := by
  have hcompile : compile (twoDestsRequest "D" "E" none).source none none =
      .ok ⟨twoDests "D" "E" none, twoDestsPlans "D" "E" none, twoDestsModule "D" "E" none⟩ :=
    compile_of_lettered (by repeat first | apply Lettered.append | exact Lettered.literal)
      (by decide +kernel) (by decide +kernel) (by decide +kernel)
  -- one evaluation of the module for all that is asked about it
  have hfacts : (twoDestsOutcome "D" "E" none).2.toOption = some 0 ∧
      (∀ e ∈ twoDestsNames "D" "E",
        ((twoDestsOutcome "D" "E" none).1.global 0 e.1).toOption.bind Value.reference? = e.2.reference?) ∧
      (((twoDestsOutcome "D" "E" none).1.class? (.declared 2)).isSome ∧
        ((twoDestsOutcome "D" "E" none).1.class? (.declared 4)).isSome) ∧
      (twoDestsOutcome "D" "E" none).1.isInstance (.record 1 [("x", .int 1)]) (.declared 0) := by decide +kernel
  obtain ⟨hout, hnames, hclasses, hinstance⟩ := hfacts
  have hload : Library.world.load (twoDestsRequest "D" "E" none) = ((twoDestsOutcome "D" "E" none).1, .ok 0) :=
    load_eq hcompile (LoadRequest.preamble_default rfl rfl (by decide +kernel) (by decide +kernel)) rfl rfl hout
  have hglobal := global_twoDests hnames
  have hresolved := resolved_twoDests none hglobal hclasses (by decide +kernel) (by decide +kernel) (by decide +kernel)
  obtain ⟨c, hc, _, hall⟩ := conversion_of_load hload
  obtain rfl := Except.ok.inj (hcompile.symm.trans hc)
  obtain ⟨u, hu, hname, hsources⟩ : ∃ u ∈ (twoDests "D" "E" none).destinations, u.name = "D" ∧
      u.sources = [.ofName "Source"] := by decide +kernel
  obtain ⟨conv, hconv, _, _, _, _, hkeeps⟩ := hall u hu [] (.ofName "Source") [] hsources
  have hk : ∀ conv ∈ (twoDestsModule "D" "E" none).conversions, (twoDestsModule "D" "E" none).keeps conv := by
    decide +kernel
  obtain ⟨_, hregistry, cls, disp, hcls, hget, hdispatch⟩ := hkeeps (hk conv hconv) _ _ hresolved
  have hfound := hregistry "default" (hglobal ("_registry", .registry "default") (by simp [twoDestsNames]))
  rw [hname] at hfound hcls
  exact ⟨_, hload, conv, disp, cls, hfound, hcls, hget, hdispatch _ _ 1 (.refl _ _) hinstance (by simp)⟩

/-- The dispatcher of a destination can take the name of another destination's conversion. It is then what is registered
in the place of that, and what `from_source` of the other destination calls: a value becomes one of the wrong union. -/
theorem World.conversion_of_load_overtaken :
    ∃ w, Library.world.load (twoDestsRequest "_X" "X" none) = (w, .ok 0) ∧
      ∃ conv ∈ (twoDestsModule "_X" "X" none).conversions, conv.source = .ofName "Source" ∧ conv.dest = "_X" ∧
        w.global 0 "Source" = .ok (.cls (.declared 0)) ∧ w.global 0 "_X" = .ok (.cls (.declared 2)) ∧
        w.global 0 "X" = .ok (.cls (.declared 4)) ∧
        ∃ disp, disp.dest = "X" ∧ w.global 0 conv.name = .ok (.function (.dispatcher 0 disp)) ∧
          (w.registry "default").get? (.ofClasses (.declared 0) (.declared 2)) =
            some (.callable (.function (.dispatcher 0 disp))) ∧
          ∃ cls own v, w.class? (.declared 2) = some cls ∧
            cls.attributes.get? "from_source" = some (.function (.dispatcher 0 own)) ∧
            w.callWithin 3 (.function (.dispatcher 0 own)) (.of [.record 1 [("x", .int 1)]]) = .ok v ∧
            w.isInstance v (.declared 4) ∧ ¬w.isInstance v (.declared 2) := by
  have hcompile : compile (twoDestsRequest "_X" "X" none).source none none =
      .ok ⟨twoDests "_X" "X" none, twoDestsPlans "_X" "X" none, twoDestsModule "_X" "X" none⟩ :=
    compile_of_lettered (by repeat first | apply Lettered.append | exact Lettered.literal)
      (by decide +kernel) (by decide +kernel) (by decide +kernel)
  have hfacts : (twoDestsOutcome "_X" "X" none).2.toOption = some 0 ∧
      (∀ e ∈ twoDestsNames "_X" "X",
        ((twoDestsOutcome "_X" "X" none).1.global 0 e.1).toOption.bind Value.reference? = e.2.reference?) ∧
      (((twoDestsOutcome "_X" "X" none).1.class? (.declared 2)).isSome ∧
        ((twoDestsOutcome "_X" "X" none).1.class? (.declared 4)).isSome) ∧
      (∃ conv ∈ (twoDestsModule "_X" "X" none).conversions, conv.source = .ofName "Source" ∧ conv.dest = "_X" ∧
        ∃ b ∈ (twoDestsModule "_X" "X" none).bridges, b.dest = "X" ∧
          ((twoDestsOutcome "_X" "X" none).1.global 0 conv.name).toOption.bind Value.reference? =
            (Value.function (.dispatcher 0 b.dispatcher)).reference?) ∧
      ∃ b ∈ (twoDestsModule "_X" "X" none).bridges, b.dest = "_X" ∧
        ((twoDestsOutcome "_X" "X" none).1.callWithin 3 (.function (.dispatcher 0 b.dispatcher))
          (.of [.record 1 [("x", .int 1)]])).toOption.any fun v =>
            (twoDestsOutcome "_X" "X" none).1.isInstance v (.declared 4) &&
              !(twoDestsOutcome "_X" "X" none).1.isInstance v (.declared 2) := by decide +kernel
  obtain ⟨hout, hnames, hclasses, ⟨conv, hconv, hsource, hdest, b, _, hb, htaken⟩, own, hown, howndest, hcall⟩ := hfacts
  have hload : Library.world.load (twoDestsRequest "_X" "X" none) = ((twoDestsOutcome "_X" "X" none).1, .ok 0) :=
    load_eq hcompile (LoadRequest.preamble_default rfl rfl (by decide +kernel) (by decide +kernel)) rfl rfl hout
  have hglobal := global_twoDests hnames
  have hresolved := resolved_twoDests none hglobal hclasses (by decide +kernel) (by decide +kernel) (by decide +kernel)
  obtain ⟨c, hc, hholds⟩ := holds_of_load hload
  obtain rfl := Except.ok.inj (hcompile.symm.trans hc)
  have ho := Compiled.orderly hc
  have htaken' := Value.eq_ok_of_reference? htaken rfl
  have hregistry := hholds.get?_registry ho hresolved hconv htaken'
    (hglobal ("_registry", .registry "default") (by simp [twoDestsNames]))
  obtain ⟨cls, hcls, hget⟩ := hholds.exists_dispatcher ho hresolved hown
  rw [hdest] at hregistry
  rw [howndest] at hcls
  obtain ⟨v, hv, hinstance⟩ := exists_of_any_toOption hcall
  simp only [Bool.and_eq_true, Bool.not_eq_true'] at hinstance
  exact ⟨_, hload, conv, hconv, hsource, hdest, hglobal ("Source", .cls (.declared 0)) (by simp [twoDestsNames]),
    hglobal ("_X", .cls (.declared 2)) (by simp [twoDestsNames]),
    hglobal ("X", .cls (.declared 4)) (by simp [twoDestsNames]), b.dispatcher, hb, htaken', hregistry, cls,
    own.dispatcher, v, hcls, hget, hv, hinstance.1, by simp [hinstance.2]⟩

end UnionBridge
