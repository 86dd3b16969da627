import UnionBridge.Proofs.Execution.Converters
import UnionBridge.Proofs.Execution.Explained
import UnionBridge.Proofs.Mapping.Mirrored

/-! Unions that mirror each other, at work: what a value of one of them becomes in the other, and back. -/
namespace UnionBridge

open UnionBridge.Action

variable {w w' : World} {home id depth k union : Nat} {pairs : List (Union × Union)} {a b : Union} {v v' : Variant}
  {cls : CaseClass} {attr : String} {t t' : DottedName} {x x' y : Value} {ys ys' : List Value} {conv : Conversion}

/-! ### Classes of variants -/

/-- No attribute that a class writes down is private to it, or one that every value has anyway. -/
def CaseClass.Open (c : CaseClass) : Prop :=
  ∀ attr ∈ c.written, ¬Private c.name attr ∧ attr ∉ ["__class__", "__dict__", "__weakref__"]

instance : Decidable cls.Open := inferInstanceAs (Decidable (∀ attr ∈ cls.written, _))

theorem CaseClass.Open.kept_eq (h : cls.Open) : cls.kept = cls.written :=
  kept_eq_written_iff.mpr fun attr ha => (h attr ha).1

/-- A class is the one that a module declares for a variant, and nothing has taken the place of making its values or of
reading their attributes. -/
structure World.Declares (w : World) (id union : Nat) (c : CaseClass) : Prop where
  record : ∃ cls ps, w.class? (.declared id) = some cls ∧ cls.name = c.case ∧
    cls.chain = [.declared id, .declared union, .builtin .object] ∧ cls.fields = some ps ∧ ps.map (·.name) = c.kept
  creates : w.override? (.declared id) "__new__" = none
  reads : w.override? (.declared id) "__getattribute__" = none

theorem World.Declares.of_class
    (hclass : (w.class? (.declared k)).map (fun c => (c.name, c.chain, c.fields.map (·.map (·.name)))) =
      some (cls.case, [.declared k, .declared union, .builtin .object], some cls.kept))
    (hn : w.override? (.declared k) "__new__" = none) (hg : w.override? (.declared k) "__getattribute__" = none) :
    w.Declares k union cls := by
  obtain ⟨c, hc, heq⟩ := Option.map_eq_some_iff.mp hclass
  simp only [Prod.mk.injEq] at heq
  obtain ⟨hname, hchain, hfields⟩ := heq
  obtain ⟨ps, hps, hnames⟩ := Option.map_eq_some_iff.mp hfields
  exact ⟨⟨c, ps, hc, hname, hchain, hps, hnames⟩, hn, hg⟩

namespace World.Declares

variable (h : w.Declares k union cls)
include h

theorem chain_eq : w.chain (.declared k) = [.declared k, .declared union, .builtin .object] := by
  obtain ⟨_, _, hcls, _, hchain, _⟩ := h.record
  rw [chain, hcls]
  exact hchain

theorem className_eq : w.className (.declared k) = cls.case := by
  obtain ⟨_, _, hcls, hname, _⟩ := h.record
  rw [className, hcls]
  exact hname

theorem makes (ho : cls.Open) : w.Makes k cls.written := by
  obtain ⟨c, ps, hcls, _, _, hfields, hnames⟩ := h.record
  refine ⟨⟨c, ps, hcls, hfields, hnames.trans ho.kept_eq⟩, h.creates, fun attr ha => ?_⟩
  have hspecial := (ho attr ha).2
  simp only [List.mem_cons, List.not_mem_nil, or_false, not_or] at hspecial
  exact ⟨hspecial.1, hspecial.2.2⟩

theorem member_eq (ho : cls.Open) {es : List (String × Value)} (ha : attr ∈ cls.written)
    (hn : (es.map Prod.fst).Nodup) (he : (attr, y) ∈ es) : w.member (.record k es) attr = .ok y :=
  member_record h.reads (ho attr ha).2 hn he

end World.Declares

/-! ### Values of mirrored unions -/

/-- What the names in a module with mirrored unions stand for. -/
structure Reflection where
  registry : String
  type : DottedName → ClassRef
  /-- The class of each union, by its name. -/
  union : String → Nat
  /-- The class of each variant of a union. -/
  variant : String → String → Nat

namespace Reflection

variable (μ : Reflection)

/-- What the names in the functions of a destination stand for. -/
def sense (dest : String) : Sense where
  registry := μ.registry
  type t := .cls (μ.type t)
  container := none
  variant := μ.variant dest

/-- The value that the class of a variant makes of values for its fields. -/
def make (u : Union) (v : Variant) (ys : List Value) : Value :=
  .record (μ.variant u.name v.name) ((CaseClass.ofVariant u v).kept.zip ys)

end Reflection

/-- A value is what the type of a field says: a variant of a mirrored union whose fields are what their types say, or an
instance of any other type. -/
inductive World.Typed (w : World) (μ : Reflection) (pairs : List (Union × Union)) : DottedName → Value → Prop
  | variant {a b : Union} {v : Variant} {ys : List Value} (hp : Partners pairs a b) (hv : v ∈ a.variants)
      (hl : ys.length = v.body.fields.length) (hys : ∀ e ∈ v.body.fields.zip ys, World.Typed w μ pairs e.1.type e.2) :
      World.Typed w μ pairs (.ofName a.name) (μ.make a v ys)
  | leaf {t : DottedName} {y : Value} (ht : ∀ a b, Partners pairs a b → t ≠ .ofName a.name)
      (hy : w.isInstance y (μ.type t)) : World.Typed w μ pairs t y

/-- The names in a module mean what they should, and its registry holds its conversions only: the classes of mirrored
unions and of their variants are those that the module declares, and other types of fields mean classes that are no
destinations. -/
structure Module.Reflects (m : Module) (w : World) (home : Nat) (μ : Reflection) (pairs : List (Union × Union)) :
    Prop where
  resolved : m.Resolved w home μ.type μ.union
  registry : w.global home "_registry" = .ok (.registry μ.registry)
  rejection : w.globalPath home ⟨"_rt", ["ConversionFailed"]⟩ = .ok (.cls (.builtin .conversionFailed))
  exhaustion : w.globalPath home ⟨"_rt", ["ExhaustedCandidatesError"]⟩ = .ok (.cls (.builtin .exhausted))
  unions : ∀ a b, Partners pairs a b →
    w.chain (.declared (μ.union a.name)) = [.declared (μ.union a.name), .builtin .object]
  variants : ∀ a b, Partners pairs a b → ∀ v ∈ a.variants,
    w.globalPath home ⟨a.name, [v.name]⟩ = .ok (.cls (.declared (μ.variant a.name v.name))) ∧
      w.Declares (μ.variant a.name v.name) (μ.union a.name) (.ofVariant a v)
  leaves : ∀ a b, Partners pairs a b → ∀ v ∈ a.variants, ∀ f ∈ v.body.fields,
    (∀ a b, Partners pairs a b → f.type ≠ .ofName a.name) →
      w.globalPath home f.type = .ok (.cls (μ.type f.type)) ∧
        ∀ n ∈ m.bridges, μ.type f.type ≠ .declared (μ.union n.dest)
  shown : ∀ conv ∈ m.conversions, ∀ d ∈ conv.paths, d.head ∉ conv.ownNames
  others : ∀ e ∈ (w.registry μ.registry).entries, ∃ conv ∈ m.conversions,
    e.1.classes? = some (μ.type conv.source, .declared (μ.union conv.dest))

/-- Looking up the names of a union finds its class and those of its variants as the module declares them. This can be
decided. -/
structure Union.Found (a : Union) (w : World) (home : Nat) (μ : Reflection) : Prop where
  chain : w.chain (.declared (μ.union a.name)) = [.declared (μ.union a.name), .builtin .object]
  paths : ∀ v ∈ a.variants, (w.globalPath home ⟨a.name, [v.name]⟩).toOption.bind Value.reference? =
    some (.inl (.declared (μ.variant a.name v.name)))
  classes : ∀ v ∈ a.variants,
    (w.class? (.declared (μ.variant a.name v.name))).map (fun c => (c.name, c.chain, c.fields.map (·.map (·.name)))) =
      some ((CaseClass.ofVariant a v).case,
        [.declared (μ.variant a.name v.name), .declared (μ.union a.name), .builtin .object],
        some (CaseClass.ofVariant a v).kept)
  plain : ∀ v ∈ a.variants, ∀ operation ∈ ["__new__", "__getattribute__"],
    w.override? (.declared (μ.variant a.name v.name)) operation = none
  unhidden : ∀ v ∈ a.variants, (CaseClass.ofVariant a v).Open

namespace Union.Found

variable {a : Union} {v : Variant}

instance {home : Nat} {μ : Reflection} : Decidable (a.Found w home μ) :=
  decidable_of_iff (_ ∧ _ ∧ _ ∧ _ ∧ _)
    ⟨fun h => ⟨h.1, h.2.1, h.2.2.1, h.2.2.2.1, h.2.2.2.2⟩, fun h => ⟨h.1, h.2, h.3, h.4, h.5⟩⟩

theorem declares {home : Nat} {μ : Reflection} (h : a.Found w home μ) (hv : v ∈ a.variants) :
    w.globalPath home ⟨a.name, [v.name]⟩ = .ok (.cls (.declared (μ.variant a.name v.name))) ∧
      w.Declares (μ.variant a.name v.name) (μ.union a.name) (.ofVariant a v) :=
  ⟨Value.eq_ok_of_reference? (h.paths v hv) rfl,
    .of_class (h.classes v hv) (h.plain v hv _ List.mem_cons_self) (h.plain v hv _ (by simp))⟩

end Union.Found

/-- Mirrored unions are at work in a world: the names in their module mean what they should, no class hides an attribute
of a variant, and the conversions are registered. -/
structure Compiled.Mirrors (c : Compiled) (w : World) (id : Nat) (μ : Reflection) (pairs : List (Union × Union)) :
    Prop where
  mirrored : c.schema.Mirrored pairs
  reflects : c.module.Reflects w id μ pairs
  unhidden : ∀ a b, Partners pairs a b → ∀ v ∈ a.variants, (CaseClass.ofVariant a v).Open
  registered : ∀ conv ∈ c.module.conversions,
    (w.registry μ.registry).get? (.ofClasses (μ.type conv.source) (.declared (μ.union conv.dest))) =
      some (.callable (.function (.conversion id conv)))

theorem Value.size_le_sizeFields {fields : List (String × Value)} (h : (attr, y) ∈ fields) :
    y.size ≤ sizeFields fields := by
  induction fields with
  | nil => cases h
  | cons e fields ih =>
    obtain ⟨attr', y'⟩ := e
    rw [sizeFields]
    rcases List.mem_cons.mp h with heq | h
    · obtain ⟨_, rfl⟩ := Prod.mk.inj heq
      omega
    · have := ih h
      omega

/-- A value becomes another one under a type, whenever calls may nest as deep as the value. -/
def World.Becomes (w : World) (μ : Reflection) (t : DottedName) (x x' : Value) : Prop :=
  ∀ depth, x.size ≤ depth → w.into (w.callWithin depth) (w.registry μ.registry) x (.cls (μ.type t)) = .ok x'

/-- A value of a union becomes one of its partner through the registry, by the conversion and by `from_source`. -/
structure World.Turns (w : World) (id : Nat) (m : Module) (μ : Reflection) (a b : Union) (x x' : Value) : Prop where
  registry : w.into w.call (w.registry μ.registry) x (.cls (.declared (μ.union b.name))) = .ok x'
  conversion : ∃ conv ∈ m.conversions, conv.source = .ofName a.name ∧ conv.dest = b.name ∧
    w.global id conv.name = .ok (.function (.conversion id conv)) ∧
      w.call (.function (.conversion id conv)) (.of [x]) = .ok x'
  dispatcher : ∃ cls f, w.class? (.declared (μ.union b.name)) = some cls ∧
    cls.attributes.get? "from_source" = some f ∧ w.call f (.of [x]) = .ok x'

theorem Body.mem_zip_attrs {body : Body} {f : Field} (he : (f, y) ∈ body.fields.zip ys) :
    (f.attr, y) ∈ body.attrs.zip ys := by
  rw [attrs, List.zip_map_left]
  exact List.mem_map.mpr ⟨(f, y), he, rfl⟩

namespace Conversion.Mirrors

variable {att : Attempt}

theorem mem_attempts (h : conv.Mirrors a b) (ha : att ∈ conv.attempts) : ∃ v ∈ b.variants, ∃ target : Target,
    target.name = v.name ∧ target.body = v.body ∧ att = .ofTarget b.name target := by
  obtain ⟨arm, harm, ha⟩ := List.mem_flatMap.mp ha
  obtain ⟨v, hv, target, hname, hbody, rfl⟩ := h.arms arm harm
  exact ⟨v, hv, target, hname, hbody, List.mem_singleton.mp ha⟩

theorem exists_variant {arm : Arm} (h : conv.Mirrors a b) (harm : arm ∈ conv.arms) :
    ∃ v ∈ a.variants, v.name = arm.case :=
  List.mem_map.mp (h.cases ▸ List.mem_map_of_mem harm)

theorem exists_arm (h : conv.Mirrors a b) (hv : v ∈ a.variants) : ∃ arm ∈ conv.arms, arm.case = v.name :=
  List.mem_map.mp (h.cases ▸ List.mem_map_of_mem hv)

end Conversion.Mirrors

namespace Compiled.Mirrors

variable {μ : Reflection} {c : Compiled} {source : String} {file doc : Option String} {call : Caller}
  (hc : compile source file doc = .ok c) (h : c.Mirrors w id μ pairs)
include h

theorem make_eq (hp : Partners pairs a b) (hv : v ∈ a.variants) (ys : List Value) :
    μ.make a v ys = .record (μ.variant a.name v.name) (v.body.attrs.zip ys) := by
  rw [Reflection.make, (h.unhidden a b hp v hv).kept_eq, CaseClass.written_ofVariant]

/-- Of the variants of its union, a value is an instance of its own only. -/
theorem isInstance_make (hp : Partners pairs a b) (hv : v ∈ a.variants) (hv' : v' ∈ a.variants) (ys : List Value) :
    w.isInstance (μ.make a v ys) (.declared (μ.variant a.name v'.name)) = (v'.name = v.name : Bool) := by
  have hdeclares := (h.reflects.variants a b hp v hv).2
  have hdeclares' := (h.reflects.variants a b hp v' hv').2
  have hunion : μ.variant a.name v'.name ≠ μ.union a.name := by
    intro heq
    have hchain := hdeclares'.chain_eq
    rw [heq, h.reflects.unions a b hp] at hchain
    simp at hchain
  have hiff : μ.variant a.name v'.name = μ.variant a.name v.name ↔ v'.name = v.name := by
    constructor
    · intro heq
      have hclass := hdeclares'.className_eq
      rw [heq, hdeclares.className_eq] at hclass
      exact hclass.symm
    · intro heq
      rw [heq]
  have hchain := hdeclares.chain_eq
  simp [World.isInstance, World.isSubclass, Reflection.make, Value.classOf, hchain, hunion, hiff]

/-- The attributes of a value are what it was made of. -/
theorem member_make {ys : List Value} {f : Field} (hp : Partners pairs a b) (hv : v ∈ a.variants)
    (hn : v.body.fieldNames.Nodup) (hl : ys.length = v.body.fields.length) (he : (f, y) ∈ v.body.fields.zip ys) :
    w.member (μ.make a v ys) f.attr = .ok y := by
  have hattr : f.attr ∈ (CaseClass.ofVariant a v).written := by
    rw [CaseClass.written_ofVariant]
    exact List.mem_map_of_mem (List.of_mem_zip he).1
  have hkeys : ((v.body.attrs.zip ys).map Prod.fst).Nodup := by
    rw [List.map_fst_zip (by simp [Body.attrs, hl])]
    exact Body.nodup_attrs hn
  rw [h.make_eq hp hv]
  exact (h.reflects.variants a b hp v hv).2.member_eq (h.unhidden a b hp v hv) hattr hkeys (Body.mem_zip_attrs he)

include hc

/-- The class of a union is what its name means as a type. -/
theorem type_eq (hp : Partners pairs a b) : μ.type (.ofName a.name) = .declared (μ.union a.name) := by
  obtain ⟨conv, hconv, hm⟩ := exists_mirror hc h.mirrored hp
  obtain ⟨n, hn, hdest, _⟩ := exists_bridge_of_destination hc (h.mirrored.mem_destinations hp)
  have hmeans := (h.reflects.resolved.dests n hn).1 w (.refl w id)
  have hmeans' := h.reflects.resolved.sources conv hconv w (.refl w id)
  rw [hm.source] at hmeans'
  rw [hdest, hmeans'] at hmeans
  simpa using hmeans

/-- Types of fields mean what they should. -/
theorem globalPath_type (hp : Partners pairs a b) (hv : v ∈ a.variants) {f : Field} (hf : f ∈ v.body.fields) :
    w.globalPath id f.type = .ok (.cls (μ.type f.type)) := by
  by_cases hunion : ∃ a b, Partners pairs a b ∧ f.type = .ofName a.name
  · obtain ⟨a', b', hp', htype⟩ := hunion
    obtain ⟨conv, hconv, hm⟩ := exists_mirror hc h.mirrored hp'
    have hmeans := h.reflects.resolved.sources conv hconv w (.refl w id)
    rwa [hm.source, ← htype] at hmeans
  · refine (h.reflects.leaves a b hp v hv f hf fun a' b' hp' htype => ?_).1
    exact hunion ⟨a', b', hp', htype⟩

/-- Only the partner is a source of a mirrored union. -/
theorem source_eq (hp : Partners pairs a b) (hconv : conv ∈ c.module.conversions) (hdest : conv.dest = b.name) :
    conv.source = .ofName a.name := by
  obtain ⟨p, hplan, byCase, name, hS, heq⟩ := conversion_cases hc hconv
  obtain ⟨u, hu, hof⟩ := exists_destination hc hplan
  have hname : u.name = b.name := by
    rw [← hdest, heq, ← hof.dest_eq]
    rfl
  obtain ⟨hb, hm⟩ := h.mirrored b a hp.symm
  obtain rfl : u = b := List.inj_on_of_nodup_map (distinct hc).unions (List.mem_of_mem_filter hu) hb hname
  have hkey : conv.source ∈ p.table.keys := Table.isSome_get?_iff.mp (by simp [hS])
  rw [hof.keys_table, hm.sources] at hkey
  exact List.mem_singleton.mp hkey

/-! ### Registries -/

/-- A conversion to the class of a mirrored union is one from its partner. -/
theorem source_of_union_eq (hp : Partners pairs a b) (hconv : conv ∈ c.module.conversions)
    (heq : μ.union conv.dest = μ.union b.name) : conv.source = .ofName a.name := by
  obtain ⟨n, hn, _, hdest⟩ := (orderly hc).exists_bridge hconv
  obtain ⟨n', hn', hdest', _⟩ := exists_bridge_of_destination hc (h.mirrored.mem_destinations hp.symm)
  refine h.source_eq hc hp hconv ?_
  rw [hdest, ← hdest']
  refine h.reflects.resolved.dests_injective n hn n' hn' ?_
  rw [← hdest, hdest', heq]

omit hc in
theorem get?_eq_none {k t : ClassRef} (hk : ∀ conv ∈ c.module.conversions,
    μ.type conv.source = k → ClassRef.declared (μ.union conv.dest) ≠ t) :
    (w.registry μ.registry).get? (.ofClasses k t) = none := by
  refine Registry.get?_eq_none fun e he heq => ?_
  obtain ⟨conv, hconv, hclasses⟩ := h.reflects.others e he
  obtain ⟨hsource, hdest⟩ := Prod.mk.inj (Option.some.inj (hclasses.symm.trans heq))
  exact hk conv hconv hsource hdest

/-- A value of a type that is no destination stays what it is. -/
theorem into_leaf {t : ClassRef} (ht : ∀ n ∈ c.module.bridges, t ≠ .declared (μ.union n.dest))
    (hy : w.isInstance y t) (call : Caller) : w.into call (w.registry μ.registry) y (.cls t) = .ok y := by
  have hnone : (w.registry μ.registry).lookup (w.chain y.classOf) (.cls t) false = none := by
    rw [Registry.lookup, List.findSome?_eq_none_iff]
    intro k _
    refine h.get?_eq_none fun conv hconv _ => ?_
    obtain ⟨n, hn, _, hdest⟩ := (orderly hc).exists_bridge hconv
    rw [hdest]
    exact (ht n hn).symm
  simp only [World.into, World.lookup, World.requireKey, Value.unhashable?, hnone, World.fit, hy, if_true, bind,
    Except.bind, pure, Except.pure]

/-- A value of a mirrored union is handed to the conversion to the partner. -/
theorem into_make (hp : Partners pairs a b) (hv : v ∈ a.variants) (hconv : conv ∈ c.module.conversions)
    (hm : conv.Mirrors a b) (ys : List Value) :
    w.into call (w.registry μ.registry) (μ.make a v ys) (.cls (.declared (μ.union b.name))) =
      call (.function (.conversion id conv)) (.of [μ.make a v ys]) := by
  have hchain := (h.reflects.variants a b hp v hv).2.chain_eq
  have hfirst : (w.registry μ.registry).get?
      ⟨.cls (.declared (μ.variant a.name v.name)), .cls (.declared (μ.union b.name)), false⟩ = none := by
    refine h.get?_eq_none fun conv' hconv' hsource hdest => ?_
    -- the class of the variant would be that of the union
    rw [h.source_of_union_eq hc hp hconv' (by simpa using hdest), h.type_eq hc hp] at hsource
    rw [← hsource, h.reflects.unions a b hp] at hchain
    simp at hchain
  have hsecond : (w.registry μ.registry).get?
      ⟨.cls (.declared (μ.union a.name)), .cls (.declared (μ.union b.name)), false⟩ =
        some (.callable (.function (.conversion id conv))) := by
    have hget := h.registered conv hconv
    rwa [hm.source, hm.dest, h.type_eq hc hp] at hget
  have hfound : (w.registry μ.registry).lookup (w.chain (μ.make a v ys).classOf) (.cls (.declared (μ.union b.name)))
      false = some (.callable (.function (.conversion id conv))) := by
    change (w.registry μ.registry).lookup (w.chain (.declared (μ.variant a.name v.name))) _ false = _
    rw [hchain, Registry.lookup, List.findSome?_cons, hfirst]
    simp only [List.findSome?_cons, hsecond]
  simp only [World.into, World.lookup, World.requireKey, Value.unhashable?, hfound, bind, Except.bind, pure,
    Except.pure]
  rfl

/-! ### Calling a conversion -/

theorem explains (hp : Partners pairs a b) (hm : conv.Mirrors a b) :
    w.Explains id conv (μ.sense b.name) fun C => .declared (μ.variant a.name C) where
  registry := by
    simp only [World.globalPath, DottedName.ofName, h.reflects.registry]
    rfl
  tests := h.reflects.resolved.tests
  cases arm harm := by
    obtain ⟨v, hv, hname⟩ := hm.exists_variant harm
    rw [hm.source, ← hname]
    exact (h.reflects.variants a b hp v hv).1
  types att hatt f hf := by
    obtain ⟨v, hv, target, _, hbody, rfl⟩ := hm.mem_attempts hatt
    obtain ⟨g, hg, rfl⟩ := mem_steps_ofTarget.mp hf
    rw [Target.fields, hbody] at hg
    exact h.globalPath_type hc hp.symm hv hg
  variants att hatt := by
    obtain ⟨v, hv, target, hname, _, rfl⟩ := hm.mem_attempts hatt
    have hmeans := (h.reflects.variants b a hp.symm v hv).1
    rw [← hname] at hmeans
    exact hmeans
  rejection := h.reflects.rejection
  exhaustion := h.reflects.exhaustion
  makes att hatt := by
    obtain ⟨v, hv, target, hname, hbody, rfl⟩ := hm.mem_attempts hatt
    have hmakes := (h.reflects.variants b a hp.symm v hv).2.makes (h.unhidden b a hp.symm v hv)
    rw [attrs_ofTarget, hbody]
    rw [CaseClass.written_ofVariant, ← hname] at hmakes
    exact hmakes

/-- A conversion makes the variant of the same name, whose fields are what the fields of the same attributes become. -/
theorem callWithin_make {ys ys' : List Value} (hp : Partners pairs a b) (hconv : conv ∈ c.module.conversions)
    (hm : conv.Mirrors a b) (hv : v ∈ a.variants) (hv' : v' ∈ b.variants) (hname : v'.name = v.name)
    (hl : ys.length = v.body.fields.length) (hl' : ys'.length = v'.body.fields.length)
    (hys : ∀ e' ∈ v'.body.fields.zip ys', ∃ e ∈ v.body.fields.zip ys, e.1.attr = e'.1.attr ∧
      w.into (w.callWithin depth) (w.registry μ.registry) e.2 (.cls (μ.type e'.1.type)) = .ok e'.2) :
    w.callWithin (depth + 1) (.function (.conversion id conv)) (.of [μ.make a v ys]) = .ok (μ.make b v' ys') := by
  have hdistinct := distinct hc
  obtain ⟨ha, _⟩ := h.mirrored a b hp
  obtain ⟨hb, _⟩ := h.mirrored b a hp.symm
  obtain ⟨arm, harm, hcase⟩ := hm.exists_arm hv
  obtain ⟨v₁, hv₁, target, htname, htbody, rfl⟩ := hm.arms arm harm
  obtain rfl : v₁ = v' := List.inj_on_of_nodup_map (hdistinct.variants b hb) hv₁ hv' (hcase.trans hname.symm)
  have hexplains := h.explains hc hp hm
  have hmember : Attempt.ofTarget b.name target ∈ conv.attempts :=
    Conversion.mem_attempts harm (List.mem_singleton_self _)
  have hdest : ∀ att ∈ conv.attempts, att.dest = conv.dest := by
    intro att hatt
    obtain ⟨_, _, _, _, _, rfl⟩ := hm.mem_attempts hatt
    exact hm.dest.symm
  have hcommon : ∀ name ∈ ["_registry", "_rt", "isinstance"], name ∉ conv.ownNames :=
    fun name hname => common_notMem_ownNames hc hconv hname
  have hfollows : (w.frame id conv.ownNames depth).Follows conv conv.attempts (μ.sense b.name) :=
    hexplains.follows (h.reflects.shown conv hconv) (fun name hname => hcommon name (by simp at hname ⊢; tauto)) hdest
      hm.container rfl
  have htests : ∀ arm' ∈ conv.arms, eval ((w.frame id conv.ownNames depth).isInstance Conversion.parameter
      (conv.source.child arm'.case)) ⟨[(Conversion.parameter, μ.make a v ys)]⟩ =
        (.ok (arm'.case = v₁.name : Bool), ⟨[(Conversion.parameter, μ.make a v ys)]⟩) := by
    intro arm' harm'
    obtain ⟨u, hu, hcase'⟩ := hm.exists_variant harm'
    rw [hexplains.eval_isInstance harm' rfl (h.reflects.shown conv hconv _ List.mem_cons_self) (hcommon _ (by simp)),
      ← hcase', h.isInstance_make hp hv hu, hname]
  rw [World.callWithin_eq rfl]
  change (eval (conv.runArms (w.frame id conv.ownNames depth) conv.arms) _).1 = _
  rw [Conversion.eval_runArms harm (hm.cases ▸ hdistinct.variants a ha) htests]
  change (eval ((Attempt.ofTarget b.name target).runDirect conv.container _) _).1 = _
  have hn : target.body.fieldNames.Nodup := htbody ▸ hdistinct.fields b hb v₁ hv'
  have hslots : ∀ f ∈ (Attempt.ofTarget b.name target).steps, f.slot ∈ (w.frame id conv.ownNames depth).own := by
    intro f hf
    have hmem := Conversion.valueSlot_mem_ownNames harm (List.mem_singleton_self _) hf
    rwa [hm.container] at hmem
  have hconvert : (⟨v₁.name, target⟩ : Candidate).convert (μ.sense b.name) (w.frame id conv.ownNames depth)
      (μ.make a v ys) .into = .ok ys' := by
    refine mapM_eq_ok_iff.mpr (List.forall₂_iff_zip.mpr ⟨by rw [Target.fields, htbody, hl'], fun {f' y'} he' => ?_⟩)
    obtain ⟨⟨f, y⟩, he, hattr, hinto⟩ := hys (f', y') (htbody ▸ he')
    have hmember := h.member_make hp hv (hdistinct.fields a ha v hv) hl he
    rw [hattr] at hmember
    change w.member (μ.make a v ys) f'.attr >>= _ = .ok y'
    rw [hmember]
    exact hinto
  rw [hm.container, eval_runDirect_plain (c := ⟨v₁.name, target⟩) hm.container hmember hn hslots hfollows rfl,
    hconvert, h.make_eq hp.symm hv', ← htbody, ← htname]
  rfl

/-! ### There and back -/

/-- A value of a mirrored union becomes the variant of the same name of the partner, if its fields become what the
fields of that are. -/
theorem becomes_make {ys ys' : List Value} (hp : Partners pairs a b) (hv : v ∈ a.variants) (hv' : v' ∈ b.variants)
    (hname : v'.name = v.name) (hl : ys.length = v.body.fields.length) (hl' : ys'.length = v'.body.fields.length)
    (hys : ∀ e' ∈ v'.body.fields.zip ys', ∃ e ∈ v.body.fields.zip ys, e.1.attr = e'.1.attr ∧
      w.Becomes μ e'.1.type e.2 e'.2) :
    w.Becomes μ (.ofName b.name) (μ.make a v ys) (μ.make b v' ys') := by
  intro depth hdepth
  obtain ⟨conv, hconv, hm⟩ := exists_mirror hc h.mirrored hp
  have hsize : (μ.make a v ys).size = Value.sizeFields (v.body.attrs.zip ys) + 1 := by
    rw [h.make_eq hp hv, Value.size]
  obtain ⟨depth, rfl⟩ : ∃ d, depth = d + 1 := ⟨depth - 1, by omega⟩
  rw [h.type_eq hc hp.symm, h.into_make hc hp hv hconv hm]
  refine h.callWithin_make hc hp hconv hm hv hv' hname hl hl' fun e' he' => ?_
  obtain ⟨⟨f, y⟩, he, hattr, hbecomes⟩ := hys e' he'
  refine ⟨(f, y), he, hattr, hbecomes depth ?_⟩
  have hle := Value.size_le_sizeFields (Body.mem_zip_attrs he)
  simp only
  omega

/-- The values of a variant can be put together from mirrored values, one for each field. -/
theorem exists_fields {ys : List Value} {r : Field → Value → Field → Value → Prop} (hp : Partners pairs a b)
    (hv : v ∈ a.variants) (hl : ys.length = v.body.fields.length)
    (hys : ∀ e ∈ v.body.fields.zip ys, ∀ f', TypeMirrors pairs e.1.type f'.type → ∃ y', r e.1 e.2 f' y') :
    ∃ v' ∈ b.variants, v'.name = v.name ∧ ∃ ys', ys'.length = v'.body.fields.length ∧
      (∀ e' ∈ v'.body.fields.zip ys', ∃ e ∈ v.body.fields.zip ys, e.1.attr = e'.1.attr ∧ r e.1 e.2 e'.1 e'.2) ∧
      ∀ e ∈ v.body.fields.zip ys, ∃ e' ∈ v'.body.fields.zip ys', e'.1.attr = e.1.attr ∧ r e.1 e.2 e'.1 e'.2 := by
  have hdistinct := distinct hc
  obtain ⟨ha, hma⟩ := h.mirrored a b hp
  obtain ⟨hb, hmb⟩ := h.mirrored b a hp.symm
  obtain ⟨v', hv', hname, hfields⟩ := hma.variants v hv
  obtain ⟨v₀, hv₀, hname₀, hfields'⟩ := hmb.variants v' hv'
  obtain rfl : v₀ = v := List.inj_on_of_nodup_map (hdistinct.variants a ha) hv₀ hv (hname₀.trans hname)
  have hzip : (v₀.body.fields.zip ys).map Prod.fst = v₀.body.fields := List.map_fst_zip (Nat.le_of_eq hl.symm)
  have hexists : ∀ f' ∈ v'.body.fields, ∃ y', ∃ e ∈ v₀.body.fields.zip ys, e.1.attr = f'.attr ∧ r e.1 e.2 f' y' := by
    intro f' hf'
    obtain ⟨f, hf, hattr, htype⟩ := hfields' f' hf'
    obtain ⟨e, he, rfl⟩ := List.mem_map.mp (hzip ▸ hf)
    obtain ⟨y', hy'⟩ := hys e he f' htype.symm
    exact ⟨y', e, he, hattr, hy'⟩
  choose! g hg using hexists
  have hmirrors : List.Forall₂ (fun f' y' => ∃ e ∈ v₀.body.fields.zip ys, e.1.attr = f'.attr ∧ r e.1 e.2 f' y')
      v'.body.fields (v'.body.fields.map g) := List.forall₂_map_right_iff.mpr (List.forall₂_same.mpr hg)
  obtain ⟨hl', hthere⟩ := List.forall₂_iff_zip.mp hmirrors
  refine ⟨v', hv', hname, v'.body.fields.map g, hl'.symm, fun e' he' => hthere he', fun e he => ?_⟩
  obtain ⟨f', hf', hattr, _⟩ := hfields e.1 (List.of_mem_zip he).1
  obtain ⟨e', he', rfl⟩ := List.mem_map.mp (List.map_fst_zip (Nat.le_of_eq hl') ▸ hf')
  obtain ⟨e₁, he₁, hattr₁, hr⟩ := hthere he'
  have hkeys : ((v₀.body.fields.zip ys).map fun e => e.1.attr).Nodup := by
    have hn := Body.nodup_attrs (hdistinct.fields a ha v₀ hv)
    rw [Body.attrs, ← hzip, List.map_map] at hn
    exact hn
  obtain rfl : e₁ = e := List.inj_on_of_nodup_map hkeys he₁ he (hattr₁.trans hattr)
  exact ⟨e', he', hattr, hr⟩

/-- Whatever is of the type of a field becomes something of the mirrored type, and that becomes it again. -/
theorem exists_becomes (ht : w.Typed μ pairs t x) (hm : TypeMirrors pairs t t')
    (hfar : (∀ a b, Partners pairs a b → t ≠ .ofName a.name) →
      ∀ n ∈ c.module.bridges, μ.type t ≠ .declared (μ.union n.dest)) :
    ∃ x', w.Typed μ pairs t' x' ∧ w.Becomes μ t' x x' ∧ w.Becomes μ t x' x := by
  induction ht generalizing t' with
  | @leaf t y hother hy =>
    cases hm with
    | union hp => exact absurd rfl (hother _ _ hp)
    | other => exact ⟨y, .leaf hother hy, fun _ _ => h.into_leaf hc (hfar hother) hy _,
        fun _ _ => h.into_leaf hc (hfar hother) hy _⟩
  | @variant a b₀ v ys hp₀ hv hl hys ih =>
    obtain ⟨b, hp, rfl⟩ := h.mirrored.exists_partner (distinct hc).unions hp₀ hm
    obtain ⟨v', hv', hname, ys', hl', hthere, hback⟩ := h.exists_fields hc hp hv hl
      (r := fun f y f' y' => w.Typed μ pairs f'.type y' ∧ w.Becomes μ f'.type y y' ∧ w.Becomes μ f.type y' y)
      fun e he f' htype => ih e he htype fun hother =>
        (h.reflects.leaves a b hp v hv e.1 (List.of_mem_zip he).1 hother).2
    refine ⟨μ.make b v' ys', .variant hp.symm hv' hl' fun e' he' => ?_,
      h.becomes_make hc hp hv hv' hname hl hl' fun e' he' => ?_,
      h.becomes_make hc hp.symm hv' hv hname.symm hl' hl fun e he => ?_⟩
    · obtain ⟨e, he, _, htyped, _⟩ := hthere e' he'
      exact htyped
    · obtain ⟨e, he, hattr, _, hbecomes, _⟩ := hthere e' he'
      exact ⟨e, he, hattr, hbecomes⟩
    · obtain ⟨e', he', hattr, _, _, hbecomes⟩ := hback e he
      exact ⟨e', he', hattr, hbecomes⟩

omit h hc in
theorem exists_make (h : c.schema.Mirrored pairs) (hn : (c.schema.unions.map (·.name)).Nodup) (hp : Partners pairs a b)
    (ht : w.Typed μ pairs (.ofName a.name) x) : ∃ v ∈ a.variants, ∃ ys, x = μ.make a v ys := by
  generalize heq : DottedName.ofName a.name = t at ht
  cases ht with
  | @variant a' b' v ys hp' hv =>
    have hname : a'.name = a.name := by simpa [DottedName.ofName] using heq.symm
    obtain rfl : a' = a := List.inj_on_of_nodup_map hn (h a' b' hp').1 (h a b hp).1 hname
    exact ⟨v, hv, ys, rfl⟩
  | leaf hother => exact absurd heq.symm (hother a b hp)

/-- What a value becomes, it becomes in any of the ways in which conversions are called. -/
theorem turns (hh : w.Holds id c.module) (hk : ∀ conv ∈ c.module.conversions, c.module.keeps conv)
    (hp : Partners pairs a b) (ht : w.Typed μ pairs (.ofName a.name) x) (hx : w.Becomes μ (.ofName b.name) x x') :
    w.Turns id c.module μ a b x x' := by
  have ho := orderly hc
  obtain ⟨v, hv, ys, rfl⟩ := exists_make h.mirrored (distinct hc).unions hp ht
  obtain ⟨conv, hconv, hm⟩ := exists_mirror hc h.mirrored hp
  have hdepth : World.depthFor [μ.make a v ys] = 4 * ((μ.make a v ys).size + 0 + 8) := rfl
  have hcall : ∀ depth, (μ.make a v ys).size ≤ depth →
      w.callWithin depth (.function (.conversion id conv)) (.of [μ.make a v ys]) = .ok x' := by
    intro depth hle
    have hinto := hx depth hle
    rwa [h.type_eq hc hp.symm, h.into_make hc hp hv hconv hm] at hinto
  refine ⟨?_, ⟨conv, hconv, hm.source, hm.dest, (hh.global_conversion_iff ho hconv).mpr (hk conv hconv), ?_⟩, ?_⟩
  · rw [h.into_make hc hp hv hconv hm]
    exact hcall (World.depthFor [μ.make a v ys]) (by omega)
  · exact hcall (World.depthFor [μ.make a v ys]) (by omega)
  · obtain ⟨n, hn, hdest, hsources, hdests⟩ := exists_bridge_of_destination hc (h.mirrored.mem_destinations hp.symm)
    rw [(h.mirrored b a hp.symm).2.sources] at hsources
    obtain ⟨conv', hsingle, hsource⟩ := List.map_eq_singleton_iff.mp hsources
    have hmem : conv' ∈ n.conversions := by simp [hsingle]
    obtain rfl : conv' = conv := by
      refine List.inj_on_of_nodup_map ho.pairs (List.mem_flatMap.mpr ⟨n, hn, hmem⟩) hconv ?_
      rw [hsource, hdests conv' hmem, hm.source, hm.dest]
    obtain ⟨cls, hcls, hget⟩ := hh.exists_dispatcher ho h.reflects.resolved hn
    refine ⟨cls, _, hdest ▸ hcls, hget, ?_⟩
    have hchain := (h.reflects.variants a b hp v hv).2.chain_eq
    have hinstance : w.isInstance (μ.make a v ys) (μ.type conv'.source) := by
      rw [hsource, h.type_eq hc hp]
      simp [World.isInstance, World.isSubclass, Reflection.make, Value.classOf, hchain]
    have hsplit : n.conversions = [] ++ conv' :: [] := hsingle
    have hdispatch := hh.dispatch_eq ho h.reflects.resolved hn hsplit (hk conv' hconv) (.refl w id) hinstance (by simp) (World.depthFor [μ.make a v ys] - 1)
    rw [hcall _ (by omega)] at hdispatch
    obtain ⟨depth, hsucc⟩ : ∃ d, World.depthFor [μ.make a v ys] = d + 1 :=
      ⟨World.depthFor [μ.make a v ys] - 1, by omega⟩
    rw [hsucc, Nat.add_sub_cancel] at hdispatch
    change w.callWithin (World.depthFor [μ.make a v ys]) _ _ = _
    rw [hsucc]
    exact hdispatch

end Compiled.Mirrors

/-- In a module that was loaded with a registry of its own, let no dispatcher take the name of a conversion, let the
names in the module mean what they should, and let no class hide an attribute. A value of a mirrored union whose leaves,
at any depth, are of the types of their fields then becomes such a value of the partner, and that becomes it again,
whichever way the conversions are called. -/
theorem World.mirrored_of_load {r : LoadRequest} (h : w.load r = (w', .ok id)) :
    ∃ c, compile r.source r.file r.docstring = .ok c ∧ ∀ pairs, c.schema.Mirrored pairs →
      (∀ conv ∈ c.module.conversions, c.module.keeps conv) →
      (∀ a b, Partners pairs a b → ∀ v ∈ a.variants, (CaseClass.ofVariant a v).Open) →
      ∀ μ, c.module.Reflects w' id μ pairs → ∀ a b, Partners pairs a b → ∀ x, w'.Typed μ pairs (.ofName a.name) x →
        ∃ x', w'.Typed μ pairs (.ofName b.name) x' ∧ w'.Turns id c.module μ a b x x' ∧
          w'.Turns id c.module μ b a x' x := by
  obtain ⟨c, hc, hholds⟩ := holds_of_load h
  have ho := Compiled.orderly hc
  refine ⟨c, hc, fun pairs hmirrored hk hunhidden μ hreflects a b hp x hx => ?_⟩
  have hmirrors : c.Mirrors w' id μ pairs := ⟨hmirrored, hreflects, hunhidden, fun conv hconv =>
    hholds.get?_registry ho hreflects.resolved hconv ((hholds.global_conversion_iff ho hconv).mpr (hk conv hconv))
      hreflects.registry⟩
  obtain ⟨x', hx', hthere, hback⟩ := hmirrors.exists_becomes hc hx (.union hp) fun hother =>
    absurd rfl (hother a b hp)
  exact ⟨x', hx', hmirrors.turns hc hholds hk hp hx hthere, hmirrors.turns hc hholds hk hp.symm hx' hback⟩

/-- A union that is converted from its partner and whose text begins in a given line. Each variant comes with its
column. -/
def mirrorUnion (name partner : String) (line : Nat) (variants : List (String × Body × Nat)) : Union where
  name
  variants := variants.map fun (variant, body, column) => ⟨variant, body, [], ⟨line + 1, column⟩⟩
  directives := [fromOne partner none line]
  place := ⟨line, 1⟩

/-- Two unions with the same variants, as they are for each name. -/
def mirrorSchema (variants : String → List (String × Body × Nat)) : Schema where
  imports := []
  unions := [mirrorUnion "A" "B" 1 (variants "A"), mirrorUnion "B" "A" 3 (variants "B")]

def mirrorPlans (variants : String → List (String × Body × Nat)) : List Plan :=
  (mirrorSchema variants).destinations.map (Plan.described · none)

def mirrorModule (variants : String → List (String × Body × Nat)) : Module :=
  Module.ofPlans (mirrorSchema variants) (mirrorPlans variants) none none

/-- The request to load their text. -/
def mirrorRequest (text : String → String) : LoadRequest where
  name := "m"
  source := "@from_union(B)\nunion A \x7b " ++ text "A" ++ " \x7d\n@from_union(A)\nunion B \x7b " ++ text "B" ++
    " \x7d\n"
  names := []
  registry := none
  register := false
  file := none
  docstring := none

def mirrorOutcome (text : String → String) (variants : String → List (String × Body × Nat)) :
    World × Except Failure Nat :=
  Library.world.executeNew (mirrorRequest text) (mirrorModule variants) ⟨some Module.defaultDocstring, []⟩

/-- Chains of numbers, with at least one number. -/
def chainVariants (name : String) : List (String × Body × Nat) :=
  [("End", .named [("head", .ofName "int")], 11),
    ("Link", .named [("head", .ofName "int"), ("tail", .ofName name)], 29)]

def chainText (name : String) : String := "End \x7b head: int \x7d Link \x7b head: int, tail: " ++ name ++ " \x7d"

def chainPairs : List (Union × Union) :=
  [(mirrorUnion "A" "B" 1 (chainVariants "A"), mirrorUnion "B" "A" 3 (chainVariants "B"))]

def chainReflection : Reflection where
  registry := "default"
  type t := if t = .ofName "A" then .declared 0 else if t = .ofName "B" then .declared 3 else .builtin .int
  union name := if name = "A" then 0 else 3
  variant name variant := (if name = "A" then 0 else 3) + if variant = "End" then 1 else 2

def chainValue : Value := .record 2 [("head", .int 1), ("tail", .record 1 [("head", .int 2)])]

theorem typed_chainValue {w : World} : w.Typed chainReflection chainPairs (.ofName "A") chainValue := by
  let a := mirrorUnion "A" "B" 1 (chainVariants "A")
  have hp : Partners chainPairs a (mirrorUnion "B" "A" 3 (chainVariants "B")) := .inl List.mem_cons_self
  have hint : ∀ n, w.Typed chainReflection chainPairs (.ofName "int") (.int n) := by
    intro n
    refine .leaf (fun a b hab => ?_) rfl
    rcases partners_singleton.mp hab with ⟨rfl, _⟩ | ⟨rfl, _⟩ <;> decide
  have hend : w.Typed chainReflection chainPairs (.ofName "A") (.record 1 [("head", .int 2)]) := by
    let v : Variant := ⟨"End", .named [("head", .ofName "int")], [], ⟨2, 11⟩⟩
    have hkept : (CaseClass.ofVariant a v).kept = ["head"] := by decide +kernel
    have hmake : Value.record 1 [("head", .int 2)] = chainReflection.make a v [.int 2] := by
      rw [Reflection.make, hkept]
      rfl
    rw [hmake]
    refine .variant (a := a) hp (by decide) rfl fun e he => ?_
    obtain rfl : e = (⟨some "head", .ofName "int", 0⟩, .int 2) := List.mem_singleton.mp he
    exact hint 2
  let v : Variant := ⟨"Link", .named [("head", .ofName "int"), ("tail", .ofName "A")], [], ⟨2, 29⟩⟩
  have hkept : (CaseClass.ofVariant a v).kept = ["head", "tail"] := by decide +kernel
  have hmake : chainValue = chainReflection.make a v [.int 1, .record 1 [("head", .int 2)]] := by
    rw [Reflection.make, hkept]
    rfl
  rw [hmake]
  refine .variant (a := a) hp (by decide) rfl fun e he => ?_
  obtain rfl | rfl : e = (⟨some "head", .ofName "int", 0⟩, .int 1) ∨
      e = (⟨some "tail", .ofName "A", 1⟩, .record 1 [("head", .int 2)]) := List.mem_pair.mp he
  · exact hint 1
  · exact hend

set_option synthInstance.maxSize 1000 in
theorem World.mirrored_of_load_chain :
    ∃ w, Library.world.load (mirrorRequest chainText) = (w, .ok 0) ∧ ∀ a b, Partners chainPairs a b → a.name = "A" →
      ∃ x', w.Turns 0 (mirrorModule chainVariants) chainReflection a b chainValue x' ∧
        w.Turns 0 (mirrorModule chainVariants) chainReflection b a x' chainValue := by
  have hcompile : compile (mirrorRequest chainText).source none none =
      .ok ⟨mirrorSchema chainVariants, mirrorPlans chainVariants, mirrorModule chainVariants⟩ :=
    compile_of_lettered (by repeat first | apply Lettered.append | exact Lettered.literal)
      (by decide +kernel) (by decide +kernel) (by decide +kernel)
  let out := mirrorOutcome chainText chainVariants
  let m := mirrorModule chainVariants
  let μ := chainReflection
  have hfacts : out.2.toOption = some 0 ∧ m.Located out.1 0 μ.type μ.union ∧ out.1.Supplies 0 "default" ∧
      (∀ a ∈ (mirrorSchema chainVariants).unions, a.Found out.1 0 μ ∧ ∀ v ∈ a.variants, ∀ f ∈ v.body.fields,
        f.type ∉ [.ofName "A", .ofName "B"] →
          (out.1.globalPath 0 f.type).toOption.bind Value.reference? = some (.inl (μ.type f.type)) ∧
          ∀ n ∈ m.bridges, μ.type f.type ≠ .declared (μ.union n.dest)) ∧
      (∀ conv ∈ m.conversions, ∀ d ∈ conv.paths, d.head ∉ conv.ownNames) ∧
      (∀ e ∈ (out.1.registry "default").entries, ∃ conv ∈ m.conversions,
        e.1.classes? = some (μ.type conv.source, .declared (μ.union conv.dest))) ∧
      ∀ conv ∈ m.conversions, m.keeps conv := by decide +kernel
  obtain ⟨hout, hlocated, hsupplies, hunions, hshown, hothers, hk⟩ := hfacts
  have hload : Library.world.load (mirrorRequest chainText) = (out.1, .ok 0) :=
    load_eq hcompile (LoadRequest.preamble_default rfl rfl (by decide +kernel) (by decide +kernel)) rfl rfl hout
  have hmem : ∀ a b, Partners chainPairs a b → a ∈ (mirrorSchema chainVariants).unions := by
    intro a b hp
    rcases partners_singleton.mp hp with ⟨rfl, _⟩ | ⟨rfl, _⟩
    · exact List.mem_cons_self
    · exact List.mem_cons_of_mem _ List.mem_cons_self
  have hpair : Partners chainPairs (mirrorUnion "A" "B" 1 (chainVariants "A"))
      (mirrorUnion "B" "A" 3 (chainVariants "B")) := .inl List.mem_cons_self
  have hreflects : m.Reflects out.1 0 μ chainPairs := {
    resolved := hlocated.resolved
    registry := hsupplies.global_registry
    rejection := hsupplies.globalPath_rejection
    exhaustion := hsupplies.globalPath_exhaustion
    unions a b hp := (hunions a (hmem a b hp)).1.chain
    variants a b hp v hv := (hunions a (hmem a b hp)).1.declares hv
    leaves a b hp v hv f hf hother := by
      have hnames : f.type ∉ [.ofName "A", .ofName "B"] := by
        simp only [List.mem_cons, List.not_mem_nil, or_false, not_or]
        exact ⟨hother _ _ hpair, hother _ _ hpair.symm⟩
      obtain ⟨hpath, hfar⟩ := (hunions a (hmem a b hp)).2 v hv f hf hnames
      exact ⟨Value.eq_ok_of_reference? hpath rfl, hfar⟩
    shown := hshown
    others := hothers }
  obtain ⟨c, hc, hall⟩ := mirrored_of_load hload
  obtain rfl := Except.ok.inj (hcompile.symm.trans hc)
  have hopen : ∀ a b, Partners chainPairs a b → ∀ v ∈ a.variants, (CaseClass.ofVariant a v).Open :=
    fun a b hp => (hunions a (hmem a b hp)).1.unhidden
  refine ⟨out.1, hload, fun a b hp hname => ?_⟩
  obtain ⟨x', _, hthere, hback⟩ := hall chainPairs (by decide +kernel) hk hopen μ hreflects a b hp chainValue
    (hname ▸ typed_chainValue)
  exact ⟨x', hthere, hback⟩

/-- Variants with one field, whose name is private to their classes. -/
def hiddenVariants (_ : String) : List (String × Body × Nat) := [("V", .named [("__x", .ofName "int")], 11)]

def hiddenPairs : List (Union × Union) :=
  [(mirrorUnion "A" "B" 1 (hiddenVariants "A"), mirrorUnion "B" "A" 3 (hiddenVariants "B"))]

/-- Whether a conversion failed for want of an attribute. -/
def Failure.lacksAttribute : Failure → Bool
  | .error .attributeError _ => true
  | _ => false

set_option synthInstance.maxSize 1000 in
/-- Where a field has a name that classes hide, a value that the class of the variant has made is not converted. -/
theorem World.mirrored_of_load_hidden :
    ∃ w c, compile (mirrorRequest fun _ => "V \x7b __x: int \x7d").source none none = .ok c ∧
      c.schema.Mirrored hiddenPairs ∧
      Library.world.load (mirrorRequest fun _ => "V \x7b __x: int \x7d") = (w, .ok 0) ∧
      ∃ conv ∈ c.module.conversions, conv.source = .ofName "A" ∧ conv.dest = "B" ∧
        ∃ x, w.construct (.declared 1) (.of [.int 1]) = .ok x ∧ w.isInstance x (.declared 0) ∧
          ∃ e, w.call (.function (.conversion 0 conv)) (.of [x]) = .error e ∧ e.lacksAttribute := by
  have hcompile : compile (mirrorRequest fun _ => "V \x7b __x: int \x7d").source none none =
      .ok ⟨mirrorSchema hiddenVariants, mirrorPlans hiddenVariants, mirrorModule hiddenVariants⟩ :=
    compile_of_lettered (by repeat first | apply Lettered.append | exact Lettered.literal)
      (by decide +kernel) (by decide +kernel) (by decide +kernel)
  let out := mirrorOutcome (fun _ => "V \x7b __x: int \x7d") hiddenVariants
  have hfacts : out.2.toOption = some 0 ∧
      ∃ conv ∈ (mirrorModule hiddenVariants).conversions, conv.source = .ofName "A" ∧ conv.dest = "B" ∧
        (out.1.construct (.declared 1) (.of [.int 1])).toOption.any fun x =>
          out.1.isInstance x (.declared 0) &&
            Failure.occurs Failure.lacksAttribute (out.1.call (.function (.conversion 0 conv)) (.of [x])) := by
    decide +kernel
  obtain ⟨hout, conv, hconv, hsource, hdest, hcall⟩ := hfacts
  have hload : Library.world.load (mirrorRequest fun _ => "V \x7b __x: int \x7d") = (out.1, .ok 0) :=
    load_eq hcompile (LoadRequest.preamble_default rfl rfl (by decide +kernel) (by decide +kernel)) rfl rfl hout
  obtain ⟨x, hx, hboth⟩ := exists_of_any_toOption hcall
  rw [Bool.and_eq_true] at hboth
  exact ⟨_, _, hcompile, by decide +kernel, hload, conv, hconv, hsource, hdest, x, hx, hboth.1,
    Failure.exists_of_occurs hboth.2⟩

end UnionBridge
