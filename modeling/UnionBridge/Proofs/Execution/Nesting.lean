import UnionBridge.Proofs.Execution.Converters
import UnionBridge.Proofs.Execution.Effects
import UnionBridge.Proofs.Execution.Outcome

/-! Destinations that share a container, with a single candidate for each case: what a conversion gives for a value of
any depth. -/
namespace UnionBridge

open UnionBridge.Action

variable {w w' v : World} {s : Scope} {home id depth : Nat} {x y q : Value} {d : DottedName} {k : ClassRef} {l : Locals}
  {wrap : Value → List Value → Value} {μ : Meaning} {m : Module} {conv : Conversion} {arm : Arm} {c : Compiled}
  {cand : Candidate} {p : Plan} {S : DottedName}

/-! ### Calling a conversion -/

/-- What a conversion gives is what the arm gives for the case of which its value is. -/
theorem Conversion.exists_arm_of_eval {γ : String → ClassRef} {arms : List Arm}
    (ht : s.name l "isinstance" = .ok (.function (.builtin .classTest))) (hx : s.name l parameter = .ok x)
    (hcall : ∀ supplied, s.call (.function (.builtin .classTest)) supplied = s.world.builtinCall .classTest supplied)
    (hcases : ∀ arm ∈ arms, s.path l (conv.source.child arm.case) = .ok (.cls (γ arm.case)))
    (h : (eval (conv.runArms s arms) l).1 = .ok q) :
    ∃ arm ∈ arms, s.world.isInstance x (γ arm.case) ∧ (eval (arm.body.run conv s arm.case) l).1 = .ok q := by
  induction arms with
  | nil => exact absurd h (Scope.eval_raiseForeign_ne_ok _ _)
  | cons arm arms ih =>
    have htest := Scope.eval_isInstance ht hx (hcases arm List.mem_cons_self) hcall
    rw [runArms, eval_bind_ok htest] at h
    by_cases hi : s.world.isInstance x (γ arm.case)
    · rw [if_pos hi] at h
      exact ⟨arm, List.mem_cons_self, hi, h⟩
    · rw [if_neg hi] at h
      obtain ⟨arm', harm', hrest⟩ := ih (fun arm harm => hcases arm (List.mem_cons_of_mem _ harm)) h
      exact ⟨arm', List.mem_cons_of_mem _ harm', hrest⟩

/-! ### Schemas with one candidate for each case -/

/-- All destinations of a schema have a container, and no case of a source has several candidates. -/
structure Compiled.Direct (c : Compiled) : Prop where
  contained : ∀ p ∈ c.plans, p.mapping.container.isSome
  single : ∀ p ∈ c.plans, ∀ e ∈ p.table.entries, ∀ e' ∈ e.2.entries, e'.2.length = 1

namespace Compiled

variable {source : String} {file doc : Option String} (hc : compile source file doc = .ok c)
include hc

/-- An arm of a conversion converts to the candidates of its case. -/
theorem exists_candidates (hconv : conv ∈ c.module.conversions) (harm : arm ∈ conv.arms) :
    ∃ p ∈ c.plans, ∃ byCase L, p.dest = conv.dest ∧ p.table.get? conv.source = some byCase ∧
      byCase.get? arm.case = some L ∧ conv.container = p.mapping.container ∧ arm.body = .ofCandidates conv.dest L ∧
      ∀ cand ∈ L, cand.target.body.fieldNames.Nodup := by
  obtain ⟨p, hp, byCase, name, hS, heq⟩ := conversion_cases hc hconv
  have hdest : conv.dest = p.dest := by
    rw [heq]
    rfl
  have hcontainer : conv.container = p.mapping.container := by
    rw [heq]
    rfl
  rw [heq] at harm
  obtain ⟨L, hL, hb⟩ := Conversion.mem_arms_ofCases.mp harm
  obtain ⟨u, hu, hof⟩ := exists_destination hc hp
  refine ⟨p, hp, byCase, L, hdest.symm, hS, hL, hcontainer, hdest ▸ hb, fun cand hcand => ?_⟩
  obtain ⟨variant, hvariant, _, hbody⟩ := hof.variant_of_candidate hS hL hcand
  rw [hbody]
  exact (distinct hc).fields u (List.mem_of_mem_filter hu) variant hvariant

/-- An arm of a conversion converts to the only candidate of its case. -/
theorem Direct.exists_candidate (hd : c.Direct) (hconv : conv ∈ c.module.conversions) (harm : arm ∈ conv.arms) :
    ∃ p ∈ c.plans, ∃ byCase cand, p.dest = conv.dest ∧ p.table.get? conv.source = some byCase ∧
      byCase.get? arm.case = some [cand] ∧ conv.container.isSome ∧
      arm.body = .direct (Attempt.ofTarget conv.dest cand.target) ∧ cand.target.body.fieldNames.Nodup := by
  obtain ⟨p, hp, byCase, L, hdest, hS, hL, hcontainer, hb, hn⟩ := exists_candidates hc hconv harm
  have hlen := hd.single p hp _ (Table.mem_entries_of_get? hS) _ (Table.mem_entries_of_get? hL)
  obtain ⟨cand, rfl⟩ := List.length_eq_one_iff.mp hlen
  exact ⟨p, hp, byCase, cand, hdest, hS, hL, hcontainer ▸ hd.contained p hp, hb, hn cand List.mem_cons_self⟩

end Compiled

/-! ### Names and registries -/

/-- What the class of a variant makes of the values of the fields, if anything, has these values in its attributes. -/
def Attempt.Builds (a : Attempt) (w : World) (variant : Nat) : Prop :=
  ∀ vs v, vs.length = a.steps.length → w.construct (.declared variant) (a.supply vs) = .ok v →
    v = .record variant ((a.steps.map (·.attr)).zip vs)

theorem Attempt.builds_of_makes {a : Attempt} {variant : Nat} (h : w.Makes variant (a.steps.map (·.attr)))
    (hn : (a.steps.map (·.attr)).Nodup) : a.Builds w variant := by
  intro vs u hl hu
  have hconstruct := construct_supply h hn (by simpa using hl)
  exact Except.ok.inj (hu.symm.trans hconstruct)

/-- The fields of a class are those that an attempt passes, and nothing keeps them from being set. -/
structure Attempt.Fills (a : Attempt) (w : World) (variant : Nat) : Prop where
  fields : ((w.class? (.declared variant)).bind (·.fields)).map (·.map (·.name)) = some (a.steps.map (·.attr))
  creates : (w.override? (.declared variant) "__new__").isNone
  settable : ∀ attr ∈ a.steps.map (·.attr), attr ≠ "__class__" ∧ attr ≠ "__weakref__"
  nodup : (a.steps.map (·.attr)).Nodup

instance {a : Attempt} {variant : Nat} : Decidable (a.Fills w variant) :=
  decidable_of_iff (_ ∧ _ ∧ _ ∧ _) ⟨fun h => ⟨h.1, h.2.1, h.2.2.1, h.2.2.2⟩, fun h => ⟨h.1, h.2, h.3, h.4⟩⟩

theorem Attempt.Fills.builds {a : Attempt} {variant : Nat} (h : a.Fills w variant) : a.Builds w variant :=
  builds_of_makes (.of_fields h.fields (Option.isNone_iff_eq_none.mp h.creates) h.settable) h.nodup

/-- The paths in an attempt, with what they should mean. -/
def Attempt.mentions (a : Attempt) (μ : Meaning) : List (DottedName × Value) :=
  (a.constructor, .cls (.declared (μ.variant a.dest a.case))) :: a.steps.map fun f => (f.type, μ.type f.type)

/-- The paths in a conversion, with what they should mean. -/
def Conversion.mentions (conv : Conversion) (μ : Meaning) : List (DottedName × Value) :=
  (conv.container.toList.map fun d => (d, .cls μ.container)) ++ conv.arms.flatMap fun arm =>
    (conv.source.child arm.case, .cls (μ.case conv.source arm.case)) :: arm.body.attempts.flatMap (·.mentions μ)

/-- The paths in a conversion mean what they should, and none is hidden by a variable. -/
structure Conversion.Understood (conv : Conversion) (w : World) (home : Nat) (μ : Meaning) : Prop where
  means : ∀ e ∈ conv.mentions μ, w.globalPath home e.1 = .ok e.2 ∧ e.1.head ∉ conv.ownNames
  builds : ∀ arm ∈ conv.arms, ∀ a ∈ arm.body.attempts, a.Builds w (μ.variant a.dest a.case)

/-- The names in a module mean what they should. -/
structure Module.Understood (m : Module) (w : World) (home : Nat) (μ : Meaning) : Prop where
  resolved : m.Resolved w home μ.source μ.dest
  conversions : ∀ conv ∈ m.conversions, conv.Understood w home μ
  registry : w.global home "_registry" = .ok (.registry μ.registry)

/-- For destinations, a registry holds what `register_conversions` registers, and nothing else. -/
structure Module.Served (m : Module) (w : World) (home : Nat) (μ : Meaning) : Prop where
  registered : ∀ conv ∈ m.conversions, ∀ f, w.global home conv.name = .ok f →
    (w.registry μ.registry).get? (.ofClasses (μ.source conv.source) (.declared (μ.dest conv.dest))) = some (.callable f)
  others : ∀ b ∈ m.bridges, ∀ a, (∀ conv ∈ b.conversions, μ.source conv.source ≠ a) →
    (w.registry μ.registry).get? (.ofClasses a (.declared (μ.dest b.dest))) = none

/-- What a registry holds for destinations is for their sources. -/
def Module.Reserves (m : Module) (w : World) (μ : Meaning) : Prop :=
  ∀ e ∈ (w.registry μ.registry).entries, ∀ b ∈ m.bridges, e.1.classes?.all fun k =>
    k.2 ≠ .declared (μ.dest b.dest) || b.conversions.any fun conv => μ.source conv.source = k.1

instance {μ : Meaning} : Decidable (m.Reserves w μ) :=
  inferInstanceAs (Decidable (∀ e ∈ (w.registry μ.registry).entries, ∀ b ∈ m.bridges, _))

/-- A module that was loaded serves its destinations if nothing else does. -/
theorem Module.Served.of_holds {μ : Meaning} {home : Nat} (hholds : w.Holds home m) (ho : m.Orderly)
    (hr : m.Resolved w home μ.source μ.dest) (hg : w.global home "_registry" = .ok (.registry μ.registry))
    (h : m.Reserves w μ) : m.Served w home μ where
  registered conv hconv f hf := hholds.get?_registry ho hr hconv hf hg
  others b hb a ha := by
    refine Registry.get?_eq_none fun e he heq => ?_
    have hpair := h e he b hb
    rw [heq] at hpair
    simp only [Option.all_some, ne_eq, not_true_eq_false, decide_false, Bool.false_or, List.any_eq_true,
      decide_eq_true_eq] at hpair
    obtain ⟨conv, hconv, hconva⟩ := hpair
    exact ha conv hconv hconva

/-- A class is a container in a world. What it makes is an instance of it. -/
structure World.Contains (w : World) (k : ClassRef) (wrap : Value → List Value → Value) : Prop where
  laws : ∀ home own depth, (w.frame home own depth).Contains k wrap
  isInstance : ∀ v es, w.isInstance (wrap v es) k

theorem World.contains_effectful (w : World) : w.Contains (.builtin (.carrier .effectful)) (.carrier .effectful) where
  laws _ _ _ := Scope.contains_effectful rfl
  isInstance _ _ := rfl

/-- A schema is at work in a world: everything that its conversions need is there. -/
structure Compiled.Works (c : Compiled) (w : World) (home : Nat) (μ : Meaning) (wrap : Value → List Value → Value) :
    Prop where
  direct : c.Direct
  names : ∀ conv ∈ c.module.conversions, w.global home conv.name = .ok (.function (.conversion home conv))
  understood : c.module.Understood w home μ
  served : c.module.Served w home μ
  contains : w.Contains μ.container wrap

namespace Conversion.Understood

variable (h : conv.Understood w home μ)
include h

theorem stands {x : Value} (he : (d, x) ∈ conv.mentions μ) : (w.frame home conv.ownNames depth).Stands d x :=
  fun _ => (Scope.path_of_foreign (h.means _ he).2).trans (h.means _ he).1

theorem stands_container (hd : conv.container = some d) :
    (w.frame home conv.ownNames depth).Stands d (.cls μ.container) :=
  h.stands (by simp [mentions, hd])

variable (harm : arm ∈ conv.arms)
include harm

theorem stands_case : (w.frame home conv.ownNames depth).Stands (conv.source.child arm.case)
    (.cls (μ.case conv.source arm.case)) :=
  h.stands (List.mem_append_right _ (List.mem_flatMap.mpr ⟨arm, harm, List.mem_cons_self⟩))

theorem stands_attempt {a : Attempt} (ha : a ∈ arm.body.attempts) {x : Value} (he : (d, x) ∈ a.mentions μ) :
    (w.frame home conv.ownNames depth).Stands d x := by
  refine h.stands (List.mem_append_right _ (List.mem_flatMap.mpr ⟨arm, harm, ?_⟩))
  exact List.mem_cons_of_mem _ (List.mem_flatMap.mpr ⟨a, ha, he⟩)

end Conversion.Understood

section Registries

variable {source : String} {file doc : Option String} (hc : compile source file doc = .ok c)
  (hserved : c.module.Served v id μ)
  (hnames : ∀ conv ∈ c.module.conversions, v.global id conv.name = .ok (.function (.conversion id conv)))
include hc hserved hnames

/-- Conversions are registered for the sources of a destination, so the nearest source of a value decides. -/
theorem Module.Served.lookup_eq (hp : p ∈ c.plans) (hS : μ.nearest? v p y = some S) :
    ∃ conv ∈ c.module.conversions, conv.source = S ∧ conv.dest = p.dest ∧
      (v.registry μ.registry).lookup (v.chain y.classOf) (.cls (.declared (μ.dest p.dest))) false =
        some (.callable (.function (.conversion id conv))) := by
  obtain ⟨b, hb, hcarries⟩ := exists_right_of_forall₂ (Compiled.forall₂_bridges hc) hp
  have hkey : S ∈ p.table.keys := by
    obtain ⟨a, _, ha⟩ := List.exists_of_findSome?_eq_some hS
    exact List.mem_of_find?_eq_some ha
  obtain ⟨conv, hconvb, hsource⟩ := List.mem_map.mp (hcarries.sources_eq ▸ hkey)
  have hconv : conv ∈ c.module.conversions := List.mem_flatMap.mpr ⟨b, hb, hconvb⟩
  have hdest : conv.dest = p.dest := (hcarries.dests_eq conv hconvb).trans hcarries.dest_eq
  refine ⟨conv, hconv, hsource, hdest, ?_⟩
  rw [Meaning.nearest?] at hS
  rw [Registry.lookup]
  generalize v.chain y.classOf = chain at hS ⊢
  -- classes nearer than the source have no converter
  induction chain with
  | nil => cases hS
  | cons a chain ih =>
    rw [List.findSome?_cons] at hS ⊢
    cases hfind : p.table.keys.find? fun S => μ.source S = a with
    | none =>
      rw [hfind] at hS
      have hnone := hserved.others b hb a fun conv' hconv' heq => by
        have hmem : conv'.source ∈ p.table.keys := hcarries.sources_eq ▸ List.mem_map_of_mem hconv'
        exact List.find?_eq_none.mp hfind _ hmem (by simpa using heq)
      rw [hcarries.dest_eq] at hnone
      change (v.registry μ.registry).get? ⟨.cls a, .cls (.declared (μ.dest p.dest)), false⟩ = none at hnone
      rw [hnone]
      exact ih hS
    | some T =>
      rw [hfind] at hS
      obtain rfl : T = S := Option.some.inj hS
      have ha : μ.source T = a := by simpa using List.find?_some hfind
      have hsome := hserved.registered conv hconv _ (hnames conv hconv)
      rw [hsource, ha, hdest] at hsome
      change (v.registry μ.registry).get? ⟨.cls a, .cls (.declared (μ.dest p.dest)), false⟩ = _ at hsome
      rw [hsome]

/-- A value of a source is handed to the conversion from it. -/
theorem Module.Served.into_eq (hp : p ∈ c.plans) (hS : μ.nearest? v p y = some S) (call : Caller) :
    ∃ conv ∈ c.module.conversions, conv.source = S ∧ conv.dest = p.dest ∧
      v.into call (v.registry μ.registry) y (.cls (.declared (μ.dest p.dest))) =
        call (.function (.conversion id conv)) (.of [y]) := by
  obtain ⟨conv, hconv, hsource, hdest, hfound⟩ := hserved.lookup_eq hc hnames hp hS
  refine ⟨conv, hconv, hsource, hdest, ?_⟩
  simp only [World.into, World.lookup, World.requireKey, Value.unhashable?, hfound, bind, Except.bind, pure, Except.pure]
  rfl

end Registries

namespace Compiled.Works

variable {source : String} {file doc : Option String} (hc : compile source file doc = .ok c) (h : c.Works v id μ wrap)
include hc h

/-- The names in an arm stand for what they mean in the module. -/
theorem reads (hconv : conv ∈ c.module.conversions) (harm : arm ∈ conv.arms) :
    (v.frame id conv.ownNames depth).Reads conv arm.body.attempts (μ.sense conv.dest) := by
  have hu := h.understood.conversions conv hconv
  obtain ⟨_, _, _, _, _, _, _, hsome, hb, _⟩ := h.direct.exists_candidate hc hconv harm
  obtain ⟨d, hd⟩ := Option.isSome_iff_exists.mp hsome
  have hforeign := notMem_ownNames hc hconv (show "_registry" ∉ _ by decide) (by decide)
  have hregistry : v.globalPath id (.ofName "_registry") = .ok (.registry μ.registry) := by
    simp only [World.globalPath, DottedName.ofName, h.understood.registry]
    rfl
  have hdest : ∀ a ∈ arm.body.attempts, a.dest = conv.dest := by
    simp only [hb, ArmBody.attempts, List.mem_cons, List.not_mem_nil, or_false, forall_eq]
    rfl
  refine ⟨rfl, fun _ _ => rfl, fun _ => (Scope.path_of_foreign hforeign).trans hregistry, fun a ha f hf => ?_, ?_,
    fun a ha => ?_⟩
  · exact hu.stands_attempt harm ha (List.mem_cons_of_mem _ (List.mem_map_of_mem hf))
  · rw [hd]
    exact .some (hu.stands_container hd)
  · have hstands : (v.frame id conv.ownNames depth).Stands a.constructor
        (.cls (.declared (μ.variant a.dest a.case))) := hu.stands_attempt harm ha List.mem_cons_self
    rwa [hdest a ha] at hstands

/-- What a field is converted to is a value with effects: those of the union that it is converted to, if that is a
destination, or of a leaf. -/
theorem exists_field
    (ih : ∀ conv ∈ c.module.conversions, ∀ p ∈ c.plans, p.dest = conv.dest → ∀ x q,
      v.callWithin depth (.function (.conversion id conv)) (.of [x]) = .ok q →
        ∃ t, Converts v id μ c.plans p conv.source x t ∧ q = wrap t.value t.effects)
    {own : List String} {dest : String} {f : Field} {r : Value × Value} {es : List Value}
    (hr : (μ.sense dest).parts (v.frame id own depth) x (.ofField f) = .ok r) (hes : v.spread r.2 = .ok es) :
    ∃ y t, v.member x f.attr = .ok y ∧ ConvertsTo v id μ c.plans (μ.type f.type) y t ∧ t.value = r.1 ∧
      t.effects = es := by
  have hw := h.contains.laws id own depth
  have hl : (v.frame id own depth).Lifts μ.registry μ.container := Scope.lifts_of_answer rfl _ _
  rw [Sense.parts, reply_lifted hw hl rfl] at hr
  change (((v.member x f.attr >>= fun y => v.into (v.callWithin depth) (v.registry μ.registry) y (μ.type f.type)).map
    ((v.frame id own depth).lifted μ.container wrap)) >>= (v.frame id own depth).unpacks) = .ok r at hr
  cases hy : v.member x f.attr with
  | error e =>
    rw [hy] at hr
    cases hr
  | ok y =>
    cases hq : v.into (v.callWithin depth) (v.registry μ.registry) y (μ.type f.type) with
    | error e =>
      simp only [hy, hq, bind, Except.bind, Except.map] at hr
      cases hr
    | ok q =>
      simp only [hy, hq, bind, Except.bind, Except.map] at hr
      by_cases hnested : ∃ p ∈ c.plans, μ.type f.type = .cls (.declared (μ.dest p.dest)) ∧
          ∃ S, μ.nearest? v p y = some S
      · obtain ⟨p, hp, htype, S, hS⟩ := hnested
        obtain ⟨conv, hconv, hsource, hdest, hinto⟩ := h.served.into_eq hc h.names hp hS (v.callWithin depth)
        rw [htype, hinto] at hq
        obtain ⟨t, ht, rfl⟩ := ih conv hconv p hp hdest.symm y q hq
        have hlifted : (v.frame id own depth).lifted μ.container wrap (wrap t.value t.effects) =
            wrap t.value t.effects := if_pos (h.contains.isInstance _ _)
        obtain ⟨it, hunpack, hit⟩ := hw.split t.value t.effects
        rw [hlifted, hunpack] at hr
        obtain rfl := Except.ok.inj hr
        refine ⟨y, t, rfl, ?_, rfl, Except.ok.inj (hit.symm.trans hes)⟩
        rw [htype]
        exact .nested hp hS (hsource ▸ ht)
      · refine ⟨y, .leaf r.1 es, rfl, .leaf (fun p hp htype => ?_) ⟨depth, q, hq, ?_⟩, rfl, Outcome.effects_leaf _ _⟩
        · by_contra hne
          obtain ⟨S, hS⟩ := Option.ne_none_iff_exists'.mp hne
          exact hnested ⟨p, hp, htype, S, hS⟩
        · exact hw.yields_of_unpacks_lifted hr hes

/-- A call one level deeper comes to a variant made of what comes of its fields. -/
theorem converts_of_callWithin_succ
    (ih : ∀ conv ∈ c.module.conversions, ∀ p ∈ c.plans, p.dest = conv.dest → ∀ x q,
      v.callWithin depth (.function (.conversion id conv)) (.of [x]) = .ok q →
        ∃ t, Converts v id μ c.plans p conv.source x t ∧ q = wrap t.value t.effects)
    (hconv : conv ∈ c.module.conversions) (hp : p ∈ c.plans) (hdest : p.dest = conv.dest)
    (hq : v.callWithin (depth + 1) (.function (.conversion id conv)) (.of [x]) = .ok q) :
    ∃ t, Converts v id μ c.plans p conv.source x t ∧ q = wrap t.value t.effects := by
  have hu := h.understood.conversions conv hconv
  have htests := (Scope.name_of_foreign (l := ⟨[(Conversion.parameter, x)]⟩) (s := v.frame id conv.ownNames depth)
    (notMem_ownNames hc hconv (show "isinstance" ∉ _ by decide) (by decide))).trans h.understood.resolved.tests
  rw [World.callWithin_eq rfl] at hq
  obtain ⟨arm, harm, hcase, hrun⟩ := Conversion.exists_arm_of_eval (γ := μ.case conv.source) htests rfl
    (fun _ => rfl) (fun arm harm => hu.stands_case harm _) hq
  obtain ⟨p', hp', byCase, cand, hdest', hS, hC, hsome, hb, hn⟩ := h.direct.exists_candidate hc hconv harm
  obtain rfl : p' = p := eq_plan hc hp hp' (hdest'.trans hdest.symm)
  obtain ⟨d, hd⟩ := Option.isSome_iff_exists.mp hsome
  have hattempt : Attempt.ofTarget conv.dest cand.target ∈ arm.body.attempts := by simp [hb, ArmBody.attempts]
  have hvalues (f : FieldStep) (hf : f ∈ (Attempt.ofTarget conv.dest cand.target).steps) :
      f.valueSlot (some d) ∈ conv.ownNames := hd ▸ Conversion.valueSlot_mem_ownNames harm hattempt hf
  have heffects (f : FieldStep) (hf : f ∈ (Attempt.ofTarget conv.dest cand.target).steps) :
      f.effectsSlot ∈ conv.ownNames := Conversion.effectsSlot_mem_ownNames harm hattempt hf hsome
  have hx : (⟨[(Conversion.parameter, x)]⟩ : Locals).get? Conversion.parameter = some x := rfl
  have hdirect := eval_runDirect_contained (h.reads hc hconv harm) hd rfl (h.contains.laws id conv.ownNames depth)
    hattempt hn hvalues heffects (Conversion.resultSlot_mem_ownNames harm hattempt hsome) hx
  rw [hb, ArmBody.run, hd, hdirect] at hrun
  cases hrs : (Attempt.ofTarget conv.dest cand.target).steps.mapM
      ((μ.sense conv.dest).parts (v.frame id conv.ownNames depth) x) with
  | error e =>
    rw [hrs] at hrun
    cases hrun
  | ok rs =>
    rw [hrs] at hrun
    obtain ⟨u, ess, hconstruct, hspread, rfl⟩ := Sense.compose_eq_ok_iff.mp hrun
    have hparts := mapM_eq_ok_iff.mp hrs
    have hlen : (rs.map Prod.fst).length = (Attempt.ofTarget conv.dest cand.target).steps.length := by
      simpa using hparts.length_eq.symm
    obtain rfl := hu.builds arm harm _ hattempt _ u hlen hconstruct
    rw [Attempt.ofTarget, List.forall₂_map_left_iff] at hparts
    obtain ⟨ts, hts, hvs, hes⟩ := exists_convertsFields
      (fun f r es (hr : (μ.sense conv.dest).parts (v.frame id conv.ownNames depth) x (.ofField f) = .ok r) hes =>
        h.exists_field hc ih hr hes) hparts hspread
    refine ⟨_, .node hp hS hC hcase hts, ?_⟩
    rw [Outcome.value_node, Outcome.effects_node, hvs, hes, hdest, attrs_ofTarget]
    rfl

/-- A conversion that succeeds gives one container, with the value and the effects of some outcome. -/
theorem converts_of_callWithin (depth : Nat) : ∀ conv ∈ c.module.conversions, ∀ p ∈ c.plans, p.dest = conv.dest →
    ∀ x q, v.callWithin depth (.function (.conversion id conv)) (.of [x]) = .ok q →
      ∃ t, Converts v id μ c.plans p conv.source x t ∧ q = wrap t.value t.effects := by
  induction depth with
  | zero =>
    intro conv _ p _ _ x q hq
    cases hq
  | succ depth ih =>
    intro conv hconv p hp hdest x q hq
    exact h.converts_of_callWithin_succ hc ih hconv hp hdest hq

end Compiled.Works

/-! ### All ways to convert -/

/-- Whatever is given for a value of a source of a destination is of some kind, whether the conversion is called by its
name, by the registry or by `from_source`. -/
def Compiled.Always (c : Compiled) (v : World) (id : Nat) (μ : Meaning) (p : Plan)
    (P : DottedName → Value → Value → Prop) : Prop :=
  (∀ S ∈ p.table.keys, ∃ conv ∈ c.module.conversions, conv.source = S ∧ conv.dest = p.dest ∧
    v.global id conv.name = .ok (.function (.conversion id conv)) ∧ ∀ depth x q,
      v.callWithin depth (.function (.conversion id conv)) (.of [x]) = .ok q → P S x q) ∧
  (∀ S depth x q, μ.nearest? v p x = some S →
    v.into (v.callWithin depth) (v.registry μ.registry) x (.cls (.declared (μ.dest p.dest))) = .ok q → P S x q) ∧
  ∃ cls disp, v.class? (.declared (μ.dest p.dest)) = some cls ∧
    cls.attributes.get? "from_source" = some (.function (.dispatcher id disp)) ∧ ∀ depth x q,
      v.callWithin depth (.function (.dispatcher id disp)) (.of [x]) = .ok q →
        ∃ S, p.table.keys.find? (fun S => v.isInstance x (μ.source S)) = some S ∧ P S x q

section Ways

variable {source : String} {file doc : Option String} (hc : compile source file doc = .ok c)
  (hresolved : c.module.Resolved v id μ.source μ.dest)
  (hnames : ∀ conv ∈ c.module.conversions, v.global id conv.name = .ok (.function (.conversion id conv)))
include hc hresolved hnames

/-- A dispatcher converts a value as one of the first source that it is of. -/
theorem Bridge.Carries.call_of_dispatcher {b : Bridge} (hcarries : b.Carries p) (hb : b ∈ c.module.bridges)
    (hq : v.callWithin depth (.function (.dispatcher id b.dispatcher)) (.of [x]) = .ok q) :
    ∃ conv ∈ c.module.conversions, conv.dest = p.dest ∧
      p.table.keys.find? (fun S => v.isInstance x (μ.source S)) = some conv.source ∧
        ∃ depth, v.callWithin depth (.function (.conversion id conv)) (.of [x]) = .ok q := by
  cases depth with
  | zero => cases hq
  | succ depth =>
    rw [Dispatcher.callWithin_eq hresolved.tests (hresolved.routes (Compiled.orderly hc) hb)] at hq
    cases hfind : b.dispatcher.routes.find? fun r => v.isInstance x (μ.source r.1) with
    | none =>
      rw [hfind] at hq
      exact absurd hq (Scope.eval_raiseForeign_ne_ok _ _)
    | some r =>
      rw [hfind] at hq
      have hkeys : p.table.keys = b.dispatcher.routes.map Prod.fst := by
        rw [← hcarries.sources_eq, Bridge.dispatcher, List.map_map]
        rfl
      obtain ⟨conv, hconvb, rfl⟩ := List.mem_map.mp (List.mem_of_find?_eq_some hfind)
      have hconv : conv ∈ c.module.conversions := List.mem_flatMap.mpr ⟨b, hb, hconvb⟩
      simp only [hnames conv hconv] at hq
      refine ⟨conv, hconv, (hcarries.dests_eq conv hconvb).trans hcarries.dest_eq, ?_, depth, hq⟩
      rw [hkeys, List.find?_map]
      change Option.map Prod.fst (b.dispatcher.routes.find? fun r => v.isInstance x (μ.source r.1)) = _
      rw [hfind]
      rfl

/-- What all conversions to a destination give is of some kind in all ways to call them. -/
theorem Compiled.always_of_callWithin (hholds : w'.Holds id c.module) (hv : v.Alike w' id)
    (hserved : c.module.Served v id μ) (hp : p ∈ c.plans) {P : DottedName → Value → Value → Prop}
    (h : ∀ conv ∈ c.module.conversions, conv.dest = p.dest → ∀ depth x q,
      v.callWithin depth (.function (.conversion id conv)) (.of [x]) = .ok q → P conv.source x q) :
    c.Always v id μ p P := by
  obtain ⟨b, hb, hcarries⟩ := exists_right_of_forall₂ (forall₂_bridges hc) hp
  refine ⟨fun S hS => ?_, fun S depth x q hS hq => ?_, ?_⟩
  · obtain ⟨conv, hconvb, rfl⟩ := List.mem_map.mp (hcarries.sources_eq ▸ hS)
    have hconv : conv ∈ c.module.conversions := List.mem_flatMap.mpr ⟨b, hb, hconvb⟩
    have hdest : conv.dest = p.dest := (hcarries.dests_eq conv hconvb).trans hcarries.dest_eq
    exact ⟨conv, hconv, rfl, hdest, hnames conv hconv, h conv hconv hdest⟩
  · obtain ⟨conv, hconv, rfl, hdest, hinto⟩ := hserved.into_eq hc hnames hp hS (v.callWithin depth)
    exact h conv hconv hdest depth x q (hinto.symm.trans hq)
  · obtain ⟨cls, hcls, hget⟩ := hholds.exists_dispatcher (orderly hc) (hresolved.of_alike hv.symm) hb
    rw [hcarries.dest_eq, World.class?, ← hv.classes] at hcls
    refine ⟨cls, b.dispatcher, hcls, hget, fun depth x q hq => ?_⟩
    obtain ⟨conv, hconv, hdest, hfind, depth', hcall⟩ := hcarries.call_of_dispatcher hc hresolved hnames hb hq
    exact ⟨conv.source, hfind, h conv hconv hdest depth' x q hcall⟩

end Ways

/-- A loaded module still has its conversions under their names, if no dispatcher takes these. -/
theorem World.Holds.global_conversion_eq (h : w'.Holds id m) (ho : m.Orderly) (hv : v.Alike w' id)
    (hconv : conv ∈ m.conversions) (hk : m.keeps conv) :
    v.global id conv.name = .ok (.function (.conversion id conv)) := by
  rw [hv.global_eq (Naming.notMem_of_saysFrom (ho.froms conv hconv) (by decide +kernel))]
  exact (h.global_conversion_iff ho hconv).mpr hk

/-- In a module that was loaded, whose destinations all have a container and whose cases all have a single candidate, let
no dispatcher take the name of a conversion, let the names in the module mean what they should, and let the registry of
the module hold its conversions and, for types that are no destinations, anything else. Whatever a conversion gives for a
value, whether it is called by its name, by the registry or by `from_source`, is then one container: the destination value
in which every field at every depth is what its own conversion gives, with the effects of the leaves in depth-first order,
where the fields of each variant come in the order of their declaration. -/
theorem World.outcome_of_load {r : LoadRequest} (h : w.load r = (w', .ok id)) :
    ∃ c, compile r.source r.file r.docstring = .ok c ∧
      (c.Direct → (∀ conv ∈ c.module.conversions, c.module.keeps conv) →
        ∀ (v : World) (μ : Meaning) (wrap : Value → List Value → Value), v.Alike w' id →
          c.module.Understood v id μ → c.module.Served v id μ → v.Contains μ.container wrap → ∀ p ∈ c.plans,
            (∀ S ∈ p.table.keys, ∃ conv ∈ c.module.conversions, conv.source = S ∧ conv.dest = p.dest ∧
              v.global id conv.name = .ok (.function (.conversion id conv)) ∧ ∀ depth x q,
                v.callWithin depth (.function (.conversion id conv)) (.of [x]) = .ok q →
                  ∃ t, Converts v id μ c.plans p S x t ∧ q = wrap t.value t.effects) ∧
            (∀ S depth x q, μ.nearest? v p x = some S →
              v.into (v.callWithin depth) (v.registry μ.registry) x (.cls (.declared (μ.dest p.dest))) = .ok q →
                ∃ t, Converts v id μ c.plans p S x t ∧ q = wrap t.value t.effects) ∧
            ∃ cls disp, v.class? (.declared (μ.dest p.dest)) = some cls ∧
              cls.attributes.get? "from_source" = some (.function (.dispatcher id disp)) ∧ ∀ depth x q,
                v.callWithin depth (.function (.dispatcher id disp)) (.of [x]) = .ok q →
                  ∃ S, p.table.keys.find? (fun S => v.isInstance x (μ.source S)) = some S ∧
                    ∃ t, Converts v id μ c.plans p S x t ∧ q = wrap t.value t.effects) := by
  obtain ⟨c, hc, hholds⟩ := holds_of_load h
  have ho := Compiled.orderly hc
  refine ⟨c, hc, fun hdirect hkeeps v μ wrap hv hunderstood hserved hcontains p hp => ?_⟩
  have hnames : ∀ conv ∈ c.module.conversions, v.global id conv.name = .ok (.function (.conversion id conv)) :=
    fun conv hconv => hholds.global_conversion_eq ho hv hconv (hkeeps conv hconv)
  have hworks : c.Works v id μ wrap := ⟨hdirect, hnames, hunderstood, hserved, hcontains⟩
  exact Compiled.always_of_callWithin hc hunderstood.resolved hnames hholds hv hserved hp
    fun conv hconv hdest depth => hworks.converts_of_callWithin hc depth conv hconv p hp hdest.symm

/-- Registering something for a type that is no destination is of no concern to conversions. -/
theorem Module.Served.register {a b : ClassRef} (hs : m.Served w home μ)
    (hb : ∀ n ∈ m.bridges, ClassRef.declared (μ.dest n.dest) ≠ b) (ho : m.Orderly) (converter : Converter) :
    m.Served (w.register μ.registry (.ofClasses a b) converter) home μ where
  registered conv hconv f hf := by
    obtain ⟨n, hn, hconvn⟩ := List.mem_flatMap.mp hconv
    have hne : b ≠ .declared (μ.dest conv.dest) := ho.dests n hn conv hconvn ▸ (hb n hn).symm
    rw [World.registry_register, Registry.get?_register_ofClasses, if_neg fun heq => hne heq.2]
    exact hs.registered conv hconv f hf
  others n hn a' ha := by
    rw [World.registry_register, Registry.get?_register_ofClasses, if_neg fun heq => hb n hn heq.2.symm]
    exact hs.others n hn a' ha

/-- A union of pairs, of which one field is a value of another union, with destinations for both. -/
def nested : Schema where
  imports := []
  unions := [oneVariant "SrcInner" 1 "B" [("n", .ofName "int")] [],
    oneVariant "Src" 2 "Pair" [("inner", .ofName "SrcInner"), ("label", .ofName "str")] [],
    oneVariant "DestInner" 3 "B" [("n", .ofName "int")] [fromOne "SrcInner" (some "Effectful") 3],
    oneVariant "Dest" 5 "Pair" [("label", .ofName "str"), ("inner", .ofName "DestInner")]
      [fromOne "Src" (some "Effectful") 5]]

def nestedPlans : List Plan := nested.destinations.map (Plan.described · none)

def nestedModule : Module := Module.ofPlans nested nestedPlans none none

/-- The request to load its text. -/
def nestedRequest : LoadRequest where
  name := "m"
  source := "union SrcInner \x7b B \x7b n: int \x7d \x7d\nunion Src \x7b Pair \x7b inner: SrcInner, label: str \x7d \x7d\n" ++
    "@from_union(SrcInner, effect_container = Effectful)\nunion DestInner \x7b B \x7b n: int \x7d \x7d\n" ++
    "@from_union(Src, effect_container = Effectful)\nunion Dest \x7b Pair \x7b label: str, inner: DestInner \x7d \x7d\n"
  names := [("Effectful", .cls (.builtin (.carrier .effectful)))]
  registry := none
  register := false
  file := none
  docstring := none

def nestedOutcome : World × Except Failure Nat :=
  Library.world.executeNew nestedRequest nestedModule ⟨some Module.defaultDocstring, []⟩

/-- The world in which it is loaded, with a converter for each of its leaf types. -/
def nestedWorld : World :=
  (nestedOutcome.1.register "default" (.ofClasses (.builtin .int) (.builtin .int))
    (.custom "number" (.constant (.carrier .effectful (.int 3) [.text "number"])))).register "default"
    (.ofClasses (.builtin .str) (.builtin .str))
    (.custom "label" (.constant (.carrier .effectful (.text "x") [.text "label"])))

def nestedMeaning : Meaning where
  registry := "default"
  container := .builtin (.carrier .effectful)
  type d :=
    if d = .ofName "int" then .cls (.builtin .int)
    else if d = .ofName "str" then .cls (.builtin .str) else .cls (.declared 4)
  source S := if S = .ofName "SrcInner" then .declared 0 else .declared 2
  dest name := if name = "DestInner" then 4 else 6
  case S _ := if S = .ofName "SrcInner" then .declared 1 else .declared 3
  variant dest _ := if dest = "DestInner" then 5 else 7

def nestedValue : Value := .record 3 [("inner", .record 1 [("n", .int 3)]), ("label", .text "x")]

/-- The value and the effects of a container of the library. -/
def Value.effectful? : Value → Option (Value × List Value)
  | .carrier .effectful v es => some (v, es)
  | _ => Option.none

theorem Value.exists_of_any_effectful? {x : Value} {test : Value × List Value → Bool} (h : x.effectful?.any test) :
    ∃ v es, x = .carrier .effectful v es ∧ test (v, es) := by
  cases hx : x.effectful? with
  | none =>
    rw [hx] at h
    cases h
  | some r =>
    obtain ⟨v, es⟩ := r
    rw [hx] at h
    unfold effectful? at hx
    split at hx
    · cases hx
      exact ⟨_, _, rfl, h⟩
    · cases hx

set_option synthInstance.maxSize 1000 in
/-- The effects come in the order of the destination's fields, not of the source's. -/
theorem World.outcome_of_load_nested :
    ∃ w conv p t, Library.world.load nestedRequest = (w, .ok 0) ∧ nestedWorld.Alike w 0 ∧
      conv ∈ nestedModule.conversions ∧ conv.source = .ofName "Src" ∧ conv.dest = "Dest" ∧ p.dest = "Dest" ∧
      Converts nestedWorld 0 nestedMeaning nestedPlans p (.ofName "Src") nestedValue t ∧
      nestedWorld.callWithin 2 (.function (.conversion 0 conv)) (.of [nestedValue]) =
        .ok (.carrier .effectful t.value t.effects) ∧
      t.effects.filterMap Value.asText? = ["label", "number"] := by
  have hcompile : compile nestedRequest.source none none = .ok ⟨nested, nestedPlans, nestedModule⟩ :=
    compile_of_lettered (.append (.append .literal .literal) .literal) (by decide +kernel) (by decide +kernel) (by decide +kernel)
  have hfacts : nestedOutcome.2.toOption = some 0 ∧
      nestedModule.Located nestedOutcome.1 0 nestedMeaning.source nestedMeaning.dest ∧
      nestedOutcome.1.Supplies 0 "default" ∧ nestedModule.Reserves nestedOutcome.1 nestedMeaning ∧
      (∀ conv ∈ nestedModule.conversions, ∀ e ∈ conv.mentions nestedMeaning,
        (nestedWorld.globalPath 0 e.1).toOption.bind Value.reference? = e.2.reference? ∧ e.2.reference?.isSome ∧
          e.1.head ∉ conv.ownNames) ∧
      (∀ conv ∈ nestedModule.conversions, ∀ arm ∈ conv.arms, ∀ a ∈ arm.body.attempts,
        a.Fills nestedWorld (nestedMeaning.variant a.dest a.case)) ∧
      ∃ p ∈ nestedPlans, p.dest = "Dest" ∧ .ofName "Src" ∈ p.table.keys ∧
        ∃ conv ∈ nestedModule.conversions, conv.source = .ofName "Src" ∧ conv.dest = "Dest" ∧
          ((nestedWorld.callWithin 2 (.function (.conversion 0 conv)) (.of [nestedValue])).toOption.any fun q =>
            q.effectful?.any fun r => r.2.filterMap Value.asText? = ["label", "number"]) := by decide +kernel
  obtain ⟨hout, hlocated, hsupplies, hreserves, hmeans, hfills, p, hp, hdest, hS, conv, hconv, hsource, hconvdest,
    hcall⟩ := hfacts
  have hload : Library.world.load nestedRequest = (nestedOutcome.1, .ok 0) :=
    load_eq hcompile (LoadRequest.preamble_default rfl rfl (by decide +kernel) (by decide +kernel)) rfl rfl hout
  have halike : nestedWorld.Alike nestedOutcome.1 0 := (Alike.register _ _ _ _ _).trans (.register _ _ _ _ _)
  have hk : ∀ conv ∈ nestedModule.conversions, nestedModule.keeps conv := by decide +kernel
  obtain ⟨c, hc, hholds⟩ := holds_of_load hload
  obtain rfl := Except.ok.inj (hcompile.symm.trans hc)
  have ho := Compiled.orderly hcompile
  have hserved : nestedModule.Served nestedWorld 0 nestedMeaning :=
    ((Module.Served.of_holds hholds ho hlocated.resolved hsupplies.global_registry hreserves).register
      (by decide +kernel) ho _).register (by decide +kernel) ho _
  have hunderstood : nestedModule.Understood nestedWorld 0 nestedMeaning := by
    refine ⟨hlocated.resolved.of_alike halike, fun conv hconv => ⟨fun e he => ?_, fun arm harm a ha => ?_⟩, ?_⟩
    · obtain ⟨href, hsome, hshown⟩ := hmeans conv hconv e he
      exact ⟨Value.eq_ok_of_reference? href hsome, hshown⟩
    · exact (hfills conv hconv arm harm a ha).builds
    · rw [nestedWorld, global_register, global_register, hsupplies.global_registry]
      rfl
  obtain ⟨c, hc, hall⟩ := outcome_of_load hload
  obtain rfl := Except.ok.inj (hcompile.symm.trans hc)
  have hdirect : (⟨nested, nestedPlans, nestedModule⟩ : Compiled).Direct := ⟨by decide +kernel, by decide +kernel⟩
  obtain ⟨hconversions, _⟩ := hall hdirect hk nestedWorld nestedMeaning (.carrier .effectful) halike hunderstood hserved
    (contains_effectful _) p hp
  obtain ⟨conv', hconv', hsource', hdest', _, hconverts⟩ := hconversions _ hS
  obtain rfl : conv' = conv :=
    List.inj_on_of_nodup_map ho.pairs hconv' hconv (by rw [hsource', hdest', hsource, hconvdest, hdest])
  obtain ⟨q, hq, hcontained⟩ := exists_of_any_toOption hcall
  obtain ⟨t, ht, rfl⟩ := hconverts 2 _ q hq
  obtain ⟨_, _, heq, hnotes⟩ := Value.exists_of_any_effectful? hcontained
  obtain ⟨rfl, rfl⟩ := (Value.carrier.injEq .. ▸ heq).2
  exact ⟨_, conv', p, t, hload, halike, hconv, hsource, hconvdest, hdest, ht, hq, of_decide_eq_true hnotes⟩

set_option synthInstance.maxSize 1000 in
/-- Where the dispatcher of a destination takes the name of another destination's conversion, what `from_source` of that
destination gives is a container all the same, but with a value of the wrong union. -/
theorem World.outcome_of_load_overtaken :
    ∃ w c, compile (twoDestsRequest "_X" "X" (some "Effectful")).source none none = .ok c ∧ c.Direct ∧
      Library.world.load (twoDestsRequest "_X" "X" (some "Effectful")) = (w, .ok 0) ∧
      w.global 0 "_X" = .ok (.cls (.declared 2)) ∧ w.global 0 "X" = .ok (.cls (.declared 4)) ∧
      ∃ cls own v es, w.class? (.declared 2) = some cls ∧
        cls.attributes.get? "from_source" = some (.function (.dispatcher 0 own)) ∧
        w.callWithin 3 (.function (.dispatcher 0 own)) (.of [.record 1 [("x", .int 1)]]) =
          .ok (.carrier .effectful v es) ∧
        w.isInstance v (.declared 4) ∧ ¬w.isInstance v (.declared 2) := by
  have hcompile : compile (twoDestsRequest "_X" "X" (some "Effectful")).source none none =
      .ok ⟨twoDests "_X" "X" (some "Effectful"), twoDestsPlans "_X" "X" (some "Effectful"),
        twoDestsModule "_X" "X" (some "Effectful")⟩ :=
    compile_of_lettered (by repeat first | apply Lettered.append | exact Lettered.literal)
      (by decide +kernel) (by decide +kernel) (by decide +kernel)
  have hfacts : (twoDestsOutcome "_X" "X" (some "Effectful")).2.toOption = some 0 ∧
      (∀ e ∈ twoDestsNames "_X" "X", ((twoDestsOutcome "_X" "X" (some "Effectful")).1.global 0 e.1).toOption.bind
        Value.reference? = e.2.reference?) ∧
      (((twoDestsOutcome "_X" "X" (some "Effectful")).1.class? (.declared 2)).isSome ∧
        ((twoDestsOutcome "_X" "X" (some "Effectful")).1.class? (.declared 4)).isSome) ∧
      ∃ b ∈ (twoDestsModule "_X" "X" (some "Effectful")).bridges, b.dest = "_X" ∧
        ((twoDestsOutcome "_X" "X" (some "Effectful")).1.callWithin 3 (.function (.dispatcher 0 b.dispatcher))
          (.of [.record 1 [("x", .int 1)]])).toOption.any fun q => q.effectful?.any fun r =>
            (twoDestsOutcome "_X" "X" (some "Effectful")).1.isInstance r.1 (.declared 4) &&
              !(twoDestsOutcome "_X" "X" (some "Effectful")).1.isInstance r.1 (.declared 2) := by decide +kernel
  obtain ⟨hout, hnames, hclasses, own, hown, howndest, hcall⟩ := hfacts
  have hload : Library.world.load (twoDestsRequest "_X" "X" (some "Effectful")) =
      ((twoDestsOutcome "_X" "X" (some "Effectful")).1, .ok 0) :=
    load_eq hcompile (LoadRequest.preamble_default rfl rfl (by decide +kernel) (by decide +kernel)) rfl rfl hout
  have hglobal := global_twoDests hnames
  have hresolved := resolved_twoDests (some "Effectful") hglobal hclasses (by decide +kernel) (by decide +kernel)
    (by decide +kernel)
  obtain ⟨c, hc, hholds⟩ := holds_of_load hload
  obtain rfl := Except.ok.inj (hcompile.symm.trans hc)
  obtain ⟨cls, hcls, hget⟩ := hholds.exists_dispatcher (Compiled.orderly hc) hresolved hown
  rw [howndest] at hcls
  obtain ⟨q, hq, hcontained⟩ := exists_of_any_toOption hcall
  obtain ⟨v, es, rfl, hinstance⟩ := Value.exists_of_any_effectful? hcontained
  simp only [Bool.and_eq_true, Bool.not_eq_true'] at hinstance
  exact ⟨_, _, hcompile, ⟨by decide +kernel, by decide +kernel⟩, hload,
    hglobal ("_X", .cls (.declared 2)) (by simp [twoDestsNames]),
    hglobal ("X", .cls (.declared 4)) (by simp [twoDestsNames]), cls, own.dispatcher, v, es, hcls, hget, hq,
    hinstance.1, by simp [hinstance.2]⟩

end UnionBridge
