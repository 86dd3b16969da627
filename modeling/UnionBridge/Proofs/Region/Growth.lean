import UnionBridge.Proofs.Execution.Registering
import UnionBridge.Proofs.Region.Depth

/-! Worlds that grow. What a world has stays as it is while classes, modules and converters for new targets come in, so
that no call of it can tell. -/
namespace UnionBridge

variable {w w' w'' : World} {v target : Value} {f : FunctionRef} {k : ConverterKey} {c : Converter} {name : String}

/-- The first classes and modules, with the functions of these modules. -/
def Region.below (classes modules : Nat) : Region where
  classes id := id < classes
  functions f := ∀ home, f.home? = some home → home < modules
  modules id := id < modules

theorem Region.below_mono {c c' m m' : Nat} (hc : c ≤ c') (hm : m ≤ m') : (below c m).Le (below c' m') where
  classes _ h := Nat.lt_of_lt_of_le h hc
  functions _ h home hhome := Nat.lt_of_lt_of_le (h home hhome) hm
  modules _ h := Nat.lt_of_lt_of_le h hm

/-- Everything that a world has. -/
def World.region (w : World) : Region := .below w.classes.length w.modules.length

theorem FunctionRef.within_region : f.Within w.region ↔ ∀ home, f.home? = some home → home < w.modules.length := by
  cases f with
  | builtin f => simp [home?]
  | _ => exact Iff.rfl

namespace World

/-- A call that wants its result frozen. -/
def frozen : Supplied := ⟨[], [("frozen", .bool true)]⟩

/-- Nothing in a world leads to a class or a module that is not there. -/
structure Sound (w : World) : Prop where
  classes : ∀ c ∈ w.classes, c.Within w.region
  modules : ∀ m ∈ w.modules, m.globals.Within w.region
  misplaced : w.misplaced.Within w.region
  registered : ∀ name, ∀ e ∈ (w.registry name).entries, e.1.target.Within w.region ∧ e.2.Within w.region
  importable : ∀ name m, w.importable.get? name = some m → m.Within w.region
  outside : ∀ ρ, w.region.Le ρ → w.outside.Within ρ

/-- Nothing registers converters but the modules that are generated: neither does a module that is imported later, nor
something outside that is called; and nothing outside takes the place of the declaration of fields. -/
structure Quiet (w : World) : Prop where
  dormant : ∀ path l, w.dormant.get? path = some l → l = []
  registers : ∀ f s, w.outside.registers f s = []
  frozen : ∀ f v, w.outside.answer? f frozen ≠ some (.ok v)

/-- Nothing that a world has equals a value. -/
def Lacks (w : World) (target : Value) : Prop := ∀ v : Value, v.Within w.region → ¬v.equal target ∧ ¬target.equal v

/-- A world has become another one: what it had is as it was, and every converter that came in has a new target. -/
structure Grown (w w' : World) : Prop where
  classes_le : w.classes.length ≤ w'.classes.length
  modules_le : w.modules.length ≤ w'.modules.length
  class_eq : ∀ id < w.classes.length, w'.classes[id]? = w.classes[id]?
  module_eq : ∀ id < w.modules.length, w'.modules[id]? = w.modules[id]?
  misplaced_eq : ∀ f : FunctionRef, f.Within w.region → w'.misplaced.get? f = w.misplaced.get? f
  registry_eq : ∀ name, ∃ added, (w'.registry name).entries = (w.registry name).entries ++ added ∧
    ∀ e ∈ added, w.Lacks e.1.target
  outside_eq : w'.outside = w.outside
  dormant_le : ∀ path l, w'.dormant.get? path = some l → w.dormant.get? path = some l

end World

/-- Before anything is loaded, imports find modules of the library. -/
theorem Library.exists_of_importable {m : ModuleRef} (h : Library.world.importable.get? name = some m) :
    ∃ path, m = .library path := by
  obtain ⟨e, _, heq⟩ := List.mem_map.mp (Table.mem_entries_of_get? h)
  obtain ⟨_, rfl⟩ := Prod.mk.inj heq
  exact ⟨_, rfl⟩

namespace World.Sound

/-- Before anything is loaded, modules of the library are all there is. -/
theorem library : Library.world.Sound where
  classes _ hc := by cases hc
  modules _ hm := by cases hm
  misplaced := Table.within_empty
  registered _ _ he := by cases he
  importable name m hm := by
    obtain ⟨path, rfl⟩ := Library.exists_of_importable hm
    exact ModuleRef.within_library path
  outside _ _ := Outside.closed_unknown _

variable (h : w.Sound)
include h

theorem closed : w.Same w.region w where
  home _ home hf hhome := FunctionRef.within_region.mp hf home hhome
  class_eq _ _ := rfl
  class_within _ _ _ hc := h.classes _ (List.mem_of_getElem? hc)
  module_eq _ _ := rfl
  module_within _ _ _ hm := h.modules _ (List.mem_of_getElem? hm)
  misplaced_eq _ _ := rfl
  misplaced_within _ _ _ hv := h.misplaced _ _ hv
  outside_eq := rfl
  outside_within := h.outside _ (Region.below_mono le_rfl le_rfl)

theorem within_global {home : Nat} (hhome : home < w.modules.length) (hv : w.global home name = .ok v) : v.Within w.region :=
  (h.closed.concur_global hhome).2 v hv

theorem within_globalPath {home : Nat} {d : DottedName} (hhome : home < w.modules.length)
    (hv : w.globalPath home d = .ok v) : v.Within w.region :=
  ((h.closed.concur_global hhome).bind fun _ hx => h.closed.concur_memberPath hx).2 v hv

end World.Sound

namespace World.Quiet

theorem library : Library.world.Quiet where
  dormant _ _ h := by cases h
  registers _ _ := rfl
  frozen _ _ h := by cases h

variable (h : w.Quiet) {f : Value} {s : Supplied}
include h

/-- Unless it passes a source, a target and a function, a call puts no converter into a registry. -/
theorem calling_eq (hs : s.positional.length ≠ 3) : (w.calling f s).1 = [] := by
  rw [calling_of_none (converting?_of_length hs), h.registers]
  exact ite_self _

theorem call_frozen_ne_ok {v : Value} : w.outside.call f World.frozen ≠ .ok v := by
  intro hcall
  rw [Outside.call] at hcall
  cases ha : w.outside.answer? f World.frozen with
  | none =>
    rw [ha] at hcall
    cases hcall
  | some r =>
    rw [ha] at hcall
    exact h.frozen f v (ha.trans (congrArg some hcall))

theorem eq_nil_of_fromOutside {as : List Addition} (has : w.FromOutside as) : as = [] := by
  refine List.eq_nil_iff_forall_not_mem.mpr fun a ha => ?_
  obtain ⟨f, s, ha⟩ := has a ha
  rw [h.registers] at ha
  cases ha

end World.Quiet

/-! ### New values -/

theorem Value.equal_function_iff {g : FunctionRef} : v.equal (.function g) ↔ v = .function g := equal_iff_itself rfl

theorem Value.cls_equal_iff {c : ClassRef} : (Value.cls c).equal v ↔ v = .cls c := equal_itself_iff rfl

theorem Value.function_equal_iff {g : FunctionRef} : (Value.function g).equal v ↔ v = .function g :=
  equal_itself_iff rfl

/-- Fields of equal instances are equal, one by one. -/
theorem Value.exists_of_equalFields {fs gs : List (String × Value)} {e : String × Value} (h : Value.equalFields fs gs) :
    (e ∈ gs → ∃ d ∈ fs, d.2.equal e.2) ∧ (e ∈ fs → ∃ d ∈ gs, e.2.equal d.2) := by
  induction fs generalizing gs with
  | nil =>
    cases gs with
    | nil => simp
    | cons g gs => cases h
  | cons f fs ih =>
    cases gs with
    | nil => cases h
    | cons g gs =>
      simp only [Value.equalFields, Bool.and_eq_true] at h
      obtain ⟨hright, hleft⟩ := ih h.2
      constructor
      · intro he
        rcases List.mem_cons.mp he with rfl | he
        · exact ⟨f, List.mem_cons_self, h.1⟩
        · obtain ⟨d, hd, heq⟩ := hright he
          exact ⟨d, List.mem_cons_of_mem _ hd, heq⟩
      · intro he
        rcases List.mem_cons.mp he with rfl | he
        · exact ⟨g, List.mem_cons_self, h.1⟩
        · obtain ⟨d, hd, heq⟩ := hleft he
          exact ⟨d, List.mem_cons_of_mem _ hd, heq⟩

namespace World.Lacks

/-- A class that comes in equals nothing that was there. -/
theorem of_class {id : Nat} (h : w.classes.length ≤ id) : w.Lacks (.cls (.declared id)) := by
  have hnew (v : Value) (hv : v.Within w.region) : v ≠ .cls (.declared id) := by
    rintro rfl
    exact Nat.not_lt.mpr h (Value.within_cls.mp hv)
  exact fun v hv => ⟨fun heq => hnew v hv (Value.equal_cls_iff.mp heq), fun heq => hnew v hv (Value.cls_equal_iff.mp heq)⟩

/-- Nor does a function of a module that comes in. -/
theorem of_function {home : Nat} (hf : f.home? = some home) (h : w.modules.length ≤ home) : w.Lacks (.function f) := by
  have hnew (v : Value) (hv : v.Within w.region) : v ≠ .function f := by
    rintro rfl
    exact Nat.not_lt.mpr h (FunctionRef.within_region.mp (Value.within_function.mp hv) home hf)
  exact fun v hv =>
    ⟨fun heq => hnew v hv (Value.equal_function_iff.mp heq), fun heq => hnew v hv (Value.function_equal_iff.mp heq)⟩

/-- An instance that has one of these in a field is new, too. -/
theorem of_field {id : Nat} {fields : List (String × Value)} {e : String × Value} (he : e ∈ fields) (h : w.Lacks e.2) :
    w.Lacks (.record id fields) := by
  intro v hv
  cases v with
  | record id' fields' =>
    have hfields := (Value.within_record.mp hv).2
    simp only [Value.equal, Bool.and_eq_true]
    constructor
    · rintro ⟨_, heq⟩
      obtain ⟨d, hd, heq⟩ := (Value.exists_of_equalFields heq).1 he
      exact (h d.2 (hfields d hd)).1 heq
    · rintro ⟨_, heq⟩
      obtain ⟨d, hd, heq⟩ := (Value.exists_of_equalFields heq).2 he
      exact (h d.2 (hfields d hd)).2 heq
  | _ => simp [Value.equal, Value.asNumber?, Value.asInt?, Value.asText?]

theorem le_class {id : Nat} (h : w.Lacks (.cls (.declared id))) : w.classes.length ≤ id := by
  by_contra hlt
  exact (h _ (Value.within_cls.mpr (ClassRef.within_declared.mpr (Nat.lt_of_not_le hlt)))).1 (Value.equal_cls_iff.mpr rfl)

theorem not_within_function (h : w.Lacks (.function f)) : ¬f.Within w.region :=
  fun hf => (h _ (Value.within_function.mpr hf)).1 (Value.equal_function_iff.mpr rfl)

end World.Lacks

namespace World.Grown

protected theorem refl (w : World) : w.Grown w :=
  ⟨le_rfl, le_rfl, fun _ _ => rfl, fun _ _ => rfl, fun _ _ => rfl, fun _ => ⟨[], by simp, by simp⟩, rfl, fun _ _ h => h⟩

theorem le (h : w.Grown w') : w.region.Le w'.region := Region.below_mono h.classes_le h.modules_le

protected theorem trans (h : w.Grown w') (h' : w'.Grown w'') : w.Grown w'' where
  classes_le := h.classes_le.trans h'.classes_le
  modules_le := h.modules_le.trans h'.modules_le
  class_eq id hid := (h'.class_eq id (hid.trans_le h.classes_le)).trans (h.class_eq id hid)
  module_eq id hid := (h'.module_eq id (hid.trans_le h.modules_le)).trans (h.module_eq id hid)
  misplaced_eq f hf := (h'.misplaced_eq f (hf.mono h.le)).trans (h.misplaced_eq f hf)
  registry_eq name := by
    obtain ⟨added, heq, hadded⟩ := h.registry_eq name
    obtain ⟨added', heq', hadded'⟩ := h'.registry_eq name
    refine ⟨added ++ added', by rw [heq', heq, List.append_assoc], fun e he => ?_⟩
    rcases List.mem_append.mp he with he | he
    · exact hadded e he
    · exact fun v hv => hadded' e he v (hv.mono h.le)
  outside_eq := h'.outside_eq.trans h.outside_eq
  dormant_le path l hl := h.dormant_le path l (h'.dormant_le path l hl)

/-- What has come in since registers nothing on its own, either. -/
theorem quiet (h : w.Grown w') (hw : w.Quiet) : w'.Quiet where
  dormant path l hl := hw.dormant path l (h.dormant_le path l hl)
  registers f s := by rw [h.outside_eq, hw.registers]
  frozen f v := by
    rw [h.outside_eq]
    exact hw.frozen f v

theorem same (h : w.Grown w') (hw : w.Sound) : w.Same w.region w' where
  home := hw.closed.home
  class_eq := h.class_eq
  class_within := hw.closed.class_within
  module_eq := h.module_eq
  module_within := hw.closed.module_within
  misplaced_eq := h.misplaced_eq
  misplaced_within := hw.closed.misplaced_within
  outside_eq := h.outside_eq
  outside_within := hw.closed.outside_within

/-- A look-up for a target that was there finds what it found. -/
theorem get?_eq (h : w.Grown w') (hk : k.target.Within w.region) : (w'.registry name).get? k = (w.registry name).get? k := by
  obtain ⟨added, heq, hadded⟩ := h.registry_eq name
  have hnone : added.find? (fun e => e.1.same k) = none := by
    refine List.find?_eq_none.mpr fun e he hsame => (hadded e he _ hk).2 ?_
    simp only [ConverterKey.same, Bool.and_eq_true] at hsame
    exact hsame.1.2
  rw [Registry.get?, Registry.get?, heq, List.find?_append, hnone, Option.or_none]

theorem lookup_eq (h : w.Grown w') (hw : w.Sound) (hv : v.Within w.region) (ht : target.Within w.region) (fallible : Bool) :
    w'.lookup (w'.registry name) v.classOf target fallible = w.lookup (w.registry name) v.classOf target fallible := by
  have hfind : (w'.registry name).lookup (w'.chain v.classOf) target fallible =
      (w.registry name).lookup (w.chain v.classOf) target fallible := by
    rw [Registry.lookup, Registry.lookup, (h.same hw).chain_eq (Value.within_classOf hv)]
    exact findSome?_congr fun c _ => h.get?_eq ht
  rw [lookup, lookup, hfind]

end World.Grown

/-- What a registry finds is one of its converters. -/
theorem World.exists_of_lookup {r : Registry} {source : ClassRef} {fallible : Bool}
    (h : w.lookup r source target fallible = .ok (some c)) : ∃ e ∈ r.entries, e.2 = c := by
  rw [lookup] at h
  cases hkey : requireKey target with
  | error e =>
    rw [hkey] at h
    cases h
  | ok _ =>
    rw [hkey] at h
    obtain ⟨d, _, hget⟩ := List.exists_of_findSome?_eq_some (Except.ok.inj h)
    obtain ⟨e, he, rfl⟩ := Option.map_eq_some_iff.mp hget
    exact ⟨e, List.mem_of_find?_eq_some he, rfl⟩

/-! ### Registering -/

namespace Registry

variable {es old : List (ConverterKey × Converter)} {e : ConverterKey × Converter}

/-- An entry is as it was, or has the new converter, under a key that was there or under the new one. -/
theorem mem_setEntry (h : e ∈ setEntry k c es) : e ∈ es ∨ e.2 = c ∧ (e.1 = k ∨ ∃ d ∈ es, d.1 = e.1) := by
  induction es with
  | nil =>
    obtain rfl := List.mem_singleton.mp h
    exact .inr ⟨rfl, .inl rfl⟩
  | cons d es ih =>
    rw [setEntry] at h
    split at h
    · rcases List.mem_cons.mp h with rfl | h
      · exact .inr ⟨rfl, .inr ⟨d, List.mem_cons_self, rfl⟩⟩
      · exact .inl (List.mem_cons_of_mem _ h)
    · rcases List.mem_cons.mp h with rfl | h
      · exact .inl List.mem_cons_self
      · rcases ih h with h | ⟨hc, hk | ⟨d', hd', hk⟩⟩
        · exact .inl (List.mem_cons_of_mem _ h)
        · exact .inr ⟨hc, .inl hk⟩
        · exact .inr ⟨hc, .inr ⟨d', List.mem_cons_of_mem _ hd', hk⟩⟩

/-- A key that is like none of the first ones goes behind them. -/
theorem setEntry_append (h : ∀ e ∈ old, ¬e.1.same k) : setEntry k c (old ++ es) = old ++ setEntry k c es := by
  induction old with
  | nil => rfl
  | cons d old ih =>
    obtain ⟨hd, hold⟩ := List.forall_mem_cons.mp h
    rw [List.cons_append, setEntry, if_neg hd, ih hold, List.cons_append]

end Registry

/-- A converter for something that is there can be registered. -/
theorem World.Sound.register (h : w.Sound) {registry : String} (ht : k.target.Within w.region) (hc : c.Within w.region) :
    (w.register registry k c).Sound where
  classes := h.classes
  modules := h.modules
  misplaced := h.misplaced
  importable := h.importable
  outside := h.outside
  registered name e he := by
    rw [registry_register_ite] at he
    split at he
    · rcases Registry.mem_setEntry he with he | ⟨rfl, rfl | ⟨d, hd, hk⟩⟩
      · exact h.registered name e he
      · exact ⟨ht, hc⟩
      · exact ⟨hk ▸ (h.registered name d hd).1, hc⟩
    · exact h.registered name e he

/-! ### Calls -/

/-- Nothing that a world has can tell it from what it has become. -/
theorem World.Grown.parallel (h : w.Grown w') (hw : w.Sound) : w.Parallel w.region w.region (fun _ => True) w' := by
  have hle : w.region.Le w.region := Region.below_mono le_rfl le_rfl
  have hnested : w.Nested w.region w.region w' := ⟨h.same hw, hw.closed, hle⟩
  refine ⟨hnested, fun _ _ _ _ _ _ => trivial, .inl ⟨hle, fun _ => trivial⟩, ?_⟩
  intro depth name _ hcallers request v target container hv ht hcontainer
  refine hnested.concur_answer hcallers hv ht hcontainer (fun fallible => h.lookup_eq hw hv ht fallible) ?_
  intro fallible c hc
  obtain ⟨e, he, rfl⟩ := exists_of_lookup hc
  exact Converter.concur_run hnested.same hcallers (hw.registered name e he).2 hv

/-- What comes out of a call is there already. -/
theorem World.Sound.within_call {s : Supplied} (h : w.Sound) (hf : target.Within w.region) (hs : s.Within w.region)
    (hv : w.call target s = .ok v) : v.Within w.region :=
  (((Grown.refl w).parallel h).concur_call hf hs).2 v hv

end UnionBridge
