import UnionBridge.Proofs.Region.Building
import UnionBridge.Proofs.World.Classes

/-! Classes that come into a world: what declaring one, giving it fields and attaching it to a union leave as it was. -/
namespace UnionBridge

/-- What lists are merged into comes from them. -/
theorem Linearize.exists_of_mem_merge {α : Type} [DecidableEq α] {steps : Nat} {lists : List (List α)} {merged : List α}
    (h : merge steps lists = .ok merged) : ∀ a ∈ merged, ∃ l ∈ lists, a ∈ l := by
  induction steps generalizing lists merged with
  | zero =>
    cases h
    simp
  | succ steps ih =>
    unfold merge at h
    extract_lets rest at h
    have hrest : ∀ l ∈ rest, l ∈ lists := fun l hl => List.mem_of_mem_filter hl
    split at h
    · cases h
      simp
    · split at h
      · rename_i a ha
        cases hmore : merge steps (rest.map (dropHead a)) with
        | error e =>
          rw [hmore] at h
          cases h
        | ok more =>
          rw [hmore] at h
          cases h
          intro b hb
          rcases List.mem_cons.mp hb with rfl | hb
          · obtain ⟨l, hl, hhead⟩ := List.mem_filterMap.mp (List.mem_of_find?_eq_some ha)
            exact ⟨l, hrest l hl, List.mem_of_mem_head? hhead⟩
          · obtain ⟨l', hl', hb⟩ := ih hmore b hb
            obtain ⟨l, hl, rfl⟩ := List.mem_map.mp hl'
            refine ⟨l, hrest l hl, ?_⟩
            rw [dropHead] at hb
            split at hb
            · exact List.mem_of_mem_tail hb
            · exact hb
      · cases h

namespace World

variable {w x x' : World} {home id : Nat} {names : List String} {name : String} {v : Value} {bases above : List ClassRef}
  {attributes : Table String Value} {ρ : Region}

/-! ### Declaring -/

theorem Same.within_chainAbove (h : x.Same ρ x) (hbases : ∀ d ∈ bases, d.Within ρ) (habove : x.chainAbove bases = .ok above) :
    ∀ d ∈ above, d.Within ρ := by
  have hcompleted : ∀ d ∈ if bases.isEmpty then [.builtin .object] else bases, d.Within ρ := by
    split
    · exact List.forall_mem_singleton.mpr (ClassRef.within_builtin _)
    · exact hbases
  unfold chainAbove at habove
  extract_lets bases' at habove
  split at habove
  · cases habove
  · split at habove
    · rename_i chain hchain
      cases habove
      intro d hd
      obtain ⟨l, hl, hd⟩ := Linearize.exists_of_mem_merge hchain d hd
      rcases List.mem_append.mp hl with hl | hl
      · obtain ⟨b, hb, rfl⟩ := List.mem_map.mp hl
        exact h.within_chain (hcompleted b hb) d hd
      · obtain rfl := List.mem_singleton.mp hl
        exact hcompleted d hd
    · cases habove

theorem within_completed (h : attributes.Within ρ) : (x.completed name above attributes).Within ρ := by
  unfold completed
  extract_lets hasPlaces places withPlaces
  have hplaces : withPlaces.Within ρ := by
    refine h.insertAll fun e he => ?_
    obtain ⟨p, _, rfl⟩ := List.mem_map.mp he
    exact Value.within_intrinsic.mpr (Intrinsic.within_of fun c => by simp)
  split
  · exact hplaces
  · exact hplaces.insert _ Value.within_none

/-- What is declared of what lies within a region, with itself first in its chain. -/
theorem Same.within_declared {κ : Region} (h : x.Same κ x) (hle : κ.Le ρ) (hid : ρ.classes id)
    (hbases : ∀ d ∈ bases, d.Within κ) (hattributes : attributes.Within κ) (habove : x.chainAbove bases = .ok above) :
    DeclaredClass.Within ρ ⟨name, name, name, if bases.isEmpty then [.builtin .object] else bases, .declared id :: above,
      x.completed name above attributes, none⟩ where
  bases d hd := by
    dsimp only at hd
    split at hd
    · exact List.mem_singleton.mp hd ▸ ClassRef.within_builtin _
    · exact (hbases d hd).mono hle
  chain := List.forall_mem_cons.mpr ⟨hid, fun d hd => (h.within_chainAbove hbases habove d hd).mono hle⟩
  attributes := (within_completed hattributes).mono hle
  fields _ hps := by cases hps

/-- A class is declared: it is new, and nothing else changes. -/
theorem Building.declareClass (h : w.Building home names x) (hbases : ∀ d ∈ bases, d.Within x.region)
    (hattributes : attributes.Within x.region) (hd : x.declareClass name bases attributes none = .ok (id, x')) :
    w.Building home names x' ∧ w.classes.length ≤ id ∧ id < x'.classes.length ∧ x.region.Le x'.region := by
  obtain ⟨rfl, above, habove, rfl⟩ := declareClass_eq_ok hd
  let c : ClassRef → DeclaredClass := fun self =>
    ⟨name, name, name, if bases.isEmpty then [.builtin .object] else bases, self :: above,
      x.completed name above attributes, none⟩
  have hlength : (x.addClass c).2.classes.length = x.classes.length + 1 := List.length_append
  have hle : x.region.Le (x.addClass c).2.region := Region.below_mono (by omega) le_rfl
  have hknown : x.classes.length < (x.addClass c).2.classes.length := by omega
  exact ⟨h.addClass (c := c) (h.sound.closed.within_declared hle hknown hbases hattributes habove), h.grown.classes_le,
    hknown, hle⟩

/-! ### Fields -/

theorem Same.within_parameterOf (h : x.Same ρ x) {c : ClassRef} (hc : c.Within ρ) {type : DottedName} {p : Parameter}
    (hp : x.parameterOf c name type = .ok p) : p.Within ρ := by
  unfold parameterOf at hp
  extract_lets default finish at hp
  have hdefault (v : Value) (hv : default = some v) : v.Within ρ :=
    h.within_classAttribute? hc (Option.filter_eq_some_iff.mp hv).1
  have hfinish (u : PUnit) (hp : finish u = .ok p) : p.Within ρ := by
    simp only [finish] at hp
    split at hp
    · cases hp
    · cases hp
      exact hdefault
  split at hp
  · obtain ⟨u, _, hp⟩ := Except.exists_of_bind_eq_ok hp
    exact hfinish u hp
  · exact hfinish () hp

theorem within_recordAttributes {cls : String} {fields : List (Parameter × DottedName)} :
    ∀ e ∈ recordAttributes cls fields, e.2.Within ρ := by
  have hfunction (name : String) (parameters : List String) : (recordFunction cls name parameters).Within ρ := by
    refine Value.within_intrinsic.mpr (Intrinsic.within_of fun c => ?_)
    dsimp only
    split
    · split <;> simp
    · simp
  simp only [recordAttributes, List.forall_mem_cons, hfunction, true_and]
  refine ⟨Value.within_intrinsic.mpr Intrinsic.within_dictionary, Value.within_tuple.mpr fun v hv => ?_, by simp⟩
  obtain ⟨n, _, rfl⟩ := List.mem_map.mp hv
  exact Value.within_text n

/-- What makes a record of a class changes the class, by nothing but parameters. These are worked out while the class says
already that it is a record. -/
theorem exists_of_makeRecord {fields : List (String × DottedName)} (hm : x.makeRecord id fields = .ok x') :
    ∃ (parameters : List Parameter) (g : DeclaredClass → DeclaredClass), (∀ p ∈ parameters, ∃ e : String × DottedName,
        (x.setAttribute id "__dataclass_params__" (.intrinsic recordSettings)).parameterOf (.declared id) e.1 e.2 = .ok p) ∧
      x' = (x.setAttribute id "__dataclass_params__" (.intrinsic recordSettings)).setClass id g ∧
      ∀ (ρ : Region) (d : DeclaredClass), (∀ p ∈ parameters, p.Within ρ) → d.Within ρ → (g d).Within ρ := by
  unfold World.makeRecord at hm
  extract_lets c name' x₁ fields' at hm
  obtain ⟨parameters, hparameters, hm⟩ := Except.exists_of_bind_eq_ok hm
  obtain ⟨_, _, hm⟩ := Except.exists_of_bind_eq_ok hm
  have hworked : ∀ p ∈ parameters, ∃ e : String × DottedName, x₁.parameterOf c e.1 e.2 = .ok p :=
    (Concur.mapM (f := fun e : String × DottedName => x₁.parameterOf c e.1 e.2)
      (g := fun e : String × DottedName => x₁.parameterOf c e.1 e.2) fun e _ => ⟨rfl, fun p hp => ⟨e, hp⟩⟩).2 _ hparameters
  extract_lets typed docText x₂ at hm
  have hwithin (ρ : Region) (d : DeclaredClass) (hps : ∀ p ∈ parameters, p.Within ρ) (hd : d.Within ρ) :
      DeclaredClass.Within ρ { d with
        fields := some parameters
        attributes := d.attributes.insertAll (recordAttributes name' typed) } :=
    { hd with
      attributes := hd.attributes.insertAll within_recordAttributes
      fields := fun _ heq => Option.some.inj heq ▸ hps }
  split at hm
  · obtain rfl := Except.ok.inj hm
    refine ⟨parameters, _, hworked, setClass_setClass, fun ρ d hps hd => ?_⟩
    exact { hwithin ρ d hps hd with attributes := (hwithin ρ d hps hd).attributes.insert _ (Value.within_text _) }
  · obtain rfl : x₂ = x' := Except.ok.inj hm
    exact ⟨parameters, _, hworked, rfl, hwithin⟩

theorem Same.within_parameters (h : x.Same ρ x) (hid : ρ.classes id) {parameters : List Parameter}
    (hps : ∀ p ∈ parameters, ∃ e : String × DottedName, x.parameterOf (.declared id) e.1 e.2 = .ok p) :
    ∀ p ∈ parameters, p.Within ρ := by
  intro p hp
  obtain ⟨e, he⟩ := hps p hp
  exact h.within_parameterOf (ClassRef.within_declared.mpr hid) he

theorem within_recordSettings : (Value.intrinsic recordSettings).Within ρ :=
  Value.within_intrinsic.mpr (Intrinsic.within_of fun c => by simp [recordSettings])

/-- A class that came in gets fields. -/
theorem Building.makeRecord (h : w.Building home names x) {fields : List (String × DottedName)} (hid : w.classes.length ≤ id)
    (hknown : id < x.classes.length) (hm : x.makeRecord id fields = .ok x') :
    w.Building home names x' ∧ x'.classes.length = x.classes.length := by
  obtain ⟨parameters, g, hps, rfl, hg⟩ := exists_of_makeRecord hm
  have h₁ : w.Building home names (x.setAttribute id "__dataclass_params__" (.intrinsic recordSettings)) :=
    h.setAttribute hid within_recordSettings
  have hlength : (x.setAttribute id "__dataclass_params__" (.intrinsic recordSettings)).classes.length = x.classes.length :=
    List.length_modify ..
  have hwithin := h₁.sound.closed.within_parameters (hknown.trans_eq hlength.symm) hps
  exact ⟨h₁.setClass hid fun d hd => hg _ d hwithin hd, (List.length_modify ..).trans hlength⟩

/-! ### Variants -/

/-- The variants that a union names so far. -/
theorem Same.within_variantList (h : x.Same ρ x) {union : Nat} (hunion : ρ.classes union) :
    ((x.member? (.cls (.declared union)) variantList).getD (.tuple [])).Within ρ := by
  cases hm : x.member? (.cls (.declared union)) variantList with
  | none => exact Value.within_tuple.mpr (by simp)
  | some l => exact h.within_member? (Value.within_cls.mpr (ClassRef.within_declared.mpr hunion)) hm

/-- A class that came in becomes a variant of another one that did. -/
theorem Building.attachVariant (h : w.Building home names x) {union variant : Nat} (hunion : w.classes.length ≤ union)
    (hvariant : w.classes.length ≤ variant) (hu : union < x.classes.length) (hv : variant < x.classes.length) :
    w.Building home names (x.attachVariant union variant name).1 := by
  unfold World.attachVariant
  split
  · exact h
  · extract_lets x₁
    have h₁ : w.Building home names x₁ := h.rename hvariant
    have hlength : x₁.classes.length = x.classes.length := List.length_modify ..
    split
    · exact h₁
    · rename_i x₂ _ _
      have hlength₂ : x₂.classes.length = x.classes.length := (List.length_modify ..).trans hlength
      have h₂ : w.Building home names x₂ := h₁.setAttribute hunion (show variant < x₁.classes.length by omega)
      have hunion₂ : union < x₂.classes.length := by omega
      split
      · rename_i listed hlisted
        refine h₂.setAttribute hunion (Value.within_tuple.mpr ?_)
        have hitems := (h₂.sound.closed.concur_spread (h₂.sound.closed.within_variantList hunion₂)).2 _ hlisted
        exact List.forall_mem_append.mpr ⟨hitems, List.forall_mem_singleton.mpr (Value.within_text _)⟩
      · exact h₂

end World

end UnionBridge
