import UnionBridge.Proofs.Region.Declaring

/-! What comes into a world with its next module: the module, its classes, and some of its functions. A module that uses
nothing that other modules declared leads to nothing else, whatever it declares itself. -/
namespace UnionBridge

/-- What comes into a world with its next module. -/
def Region.newcomer (w : World) (functions : FunctionRef → Prop) : Region where
  classes id := w.classes.length ≤ id
  functions := functions
  modules id := id = w.modules.length

variable {w x x' : World} {functions more : FunctionRef → Prop} {id : Nat} {name : String} {v : Value}
  {bases : List ClassRef} {attributes : Table String Value}

theorem Region.newcomer_mono (h : ∀ f, functions f → more f) : (newcomer w functions).Le (newcomer w more) :=
  ⟨fun _ hid => hid, h, fun _ hid => hid⟩

namespace World

/-- The converters that a registry may have without any doing of a module that comes into a world. -/
inductive Converts (w : World) (name : String) : Converter → Prop
  /-- The registry has it already. -/
  | registered {e : ConverterKey × Converter} (he : e ∈ (w.registry name).entries) : Converts w name e.2
  /-- Another module registers it, once an import runs that for the first time. -/
  | dormant {path : String} {l : List Addition} {k : ConverterKey} {c : Converter} (hl : w.dormant.get? path = some l)
      (ha : (name, k, c) ∈ l) : Converts w name c
  /-- Something outside of the program registers it, once it is called. -/
  | outside {f : Value} {s : Supplied} {k : ConverterKey} {c : Converter} (ha : (name, k, c) ∈ w.outside.registers f s) :
      Converts w name c

/-- What registries hold since a module comes into a world: such converters, or what came in. -/
structure Stocked (w : World) (functions : FunctionRef → Prop) (x : World) : Prop where
  outside_eq : x.outside = w.outside
  dormant_le : ∀ path l, x.dormant.get? path = some l → w.dormant.get? path = some l
  entries : ∀ name, ∀ e ∈ (x.registry name).entries,
    w.Converts name e.2 ∨ ∃ f, e.2 = .callable f ∧ f.Within (.newcomer w functions)

/-- A world since a module comes into it. What came in leads only to what came in. -/
structure Confined (w : World) (functions : FunctionRef → Prop) (x : World) : Prop extends w.Stocked functions x where
  outside : w.outside.Closed
  homes : ∀ f, functions f → f.home? = some w.modules.length
  classes_le : w.classes.length ≤ x.classes.length
  classes : ∀ id c, w.classes.length ≤ id → x.classes[id]? = some c → c.Within (.newcomer w functions)
  globals : (x.globals w.modules.length).Within (.newcomer w functions)
  misplaced : ∀ f v, x.misplaced.get? f = some v →
    (∃ home < w.modules.length, f.home? = some home) ∨ v.Within (.newcomer w functions)

namespace Stocked

variable (h : w.Stocked functions x)
include h

theorem register {registry : String} {k : ConverterKey} {c : Converter}
    (hc : w.Converts registry c ∨ ∃ f, c = .callable f ∧ f.Within (.newcomer w functions)) :
    w.Stocked functions (x.register registry k c) := by
  refine { h with entries := fun name e he => ?_ }
  rw [registry_register_ite] at he
  split at he
  · rename_i hname
    rcases Registry.mem_setEntry he with he | ⟨hconverter, _⟩
    · exact h.entries name e he
    · exact hconverter ▸ hname ▸ hc
  · exact h.entries name e he

theorem addAll {as : List Addition}
    (has : ∀ a ∈ as, w.Converts a.1 a.2.2 ∨ ∃ f, a.2.2 = .callable f ∧ f.Within (.newcomer w functions)) :
    w.Stocked functions (x.addAll as) := by
  induction as generalizing x with
  | nil => exact h
  | cons a as ih =>
    obtain ⟨ha, has⟩ := List.forall_mem_cons.mp has
    exact ih (h.register ha) has

/-- Modules are run that were not imported so far. -/
theorem run (paths : List String) : w.Stocked functions (x.runAll paths) := by
  obtain ⟨as, t, hrun, has, ht⟩ := x.exists_runAll paths
  have hadded : w.Stocked functions (x.addAll as) := h.addAll fun a ha => by
    obtain ⟨path, _, l, hl, ha⟩ := has a ha
    exact .inl (.dormant (h.dormant_le path l hl) ha)
  rw [hrun]
  exact { hadded with dormant_le := fun path l hl => h.dormant_le path l (ht path l hl) }

end Stocked

namespace Confined

variable (h : w.Confined functions x)
include h

/-- Nothing leads out. -/
theorem closed : x.Same (.newcomer w functions) x := by
  have hhome (f : FunctionRef) (home : Nat) (hf : f.Within (.newcomer w functions)) (hhome : f.home? = some home) :
      home = w.modules.length := by
    cases f with
    | builtin f => cases hhome
    | _ => exact Option.some.inj (hhome.symm.trans (h.homes _ hf))
  refine ⟨hhome, fun _ _ => rfl, h.classes, fun _ _ => rfl, fun id m hid hm name v hv => ?_, fun _ _ => rfl,
    fun f v hf hv => ?_, rfl, h.outside_eq ▸ h.outside _⟩
  · obtain rfl : id = w.modules.length := hid
    refine h.globals name v ?_
    rw [World.globals, module?, hm]
    exact hv
  · refine (h.misplaced f v hv).resolve_left ?_
    rintro ⟨home, hlt, hf'⟩
    exact hlt.ne (hhome f home hf hf')

theorem closed_outside : x.outside.Closed := h.outside_eq ▸ h.outside

/-- More functions come in. -/
theorem mono (hle : ∀ f, functions f → more f) (hmore : ∀ f, more f → f.home? = some w.modules.length) :
    w.Confined more x :=
  have hregion := Region.newcomer_mono (w := w) hle
  { h with
    entries := fun name e he => (h.entries name e he).imp_right fun ⟨f, hc, hf⟩ => ⟨f, hc, hf.mono hregion⟩
    homes := hmore
    classes := fun id c hid hc => (h.classes id c hid hc).mono hregion
    globals := h.globals.mono hregion
    misplaced := fun f v hv => (h.misplaced f v hv).imp id fun hv => hv.mono hregion }

theorem within_global (hv : x.global w.modules.length name = .ok v) : v.Within (.newcomer w functions) :=
  have hhome : (Region.newcomer w functions).modules w.modules.length := rfl
  (h.closed.concur_global hhome).2 v hv

theorem within_globalPath {d : DottedName} (hv : x.globalPath w.modules.length d = .ok v) :
    v.Within (.newcomer w functions) :=
  have hhome : (Region.newcomer w functions).modules w.modules.length := rfl
  ((h.closed.concur_global hhome).bind fun _ hx => h.closed.concur_memberPath hx).2 v hv

/-! ### Registries -/

theorem addAll {as : List Addition}
    (has : ∀ a ∈ as, w.Converts a.1 a.2.2 ∨ ∃ f, a.2.2 = .callable f ∧ f.Within (.newcomer w functions)) :
    w.Confined functions (x.addAll as) := by
  have hstocked := h.toStocked.addAll has
  rw [addAll_eq] at hstocked ⊢
  exact { h with toStocked := hstocked }

/-- Something outside is called. -/
theorem addOutside {as : List Addition} (has : x.FromOutside as) : w.Confined functions (x.addAll as) := by
  refine h.addAll fun a ha => .inl ?_
  obtain ⟨f, s, ha⟩ := has a ha
  exact .outside (h.outside_eq ▸ ha)

theorem run (paths : List String) : w.Confined functions (x.runAll paths) := by
  have hstocked := h.toStocked.run paths
  obtain ⟨as, t, hrun, _⟩ := x.exists_runAll paths
  rw [hrun, addAll_eq] at hstocked ⊢
  exact { h with toStocked := hstocked }

/-! ### Names -/

theorem setImportable {found : Option ModuleRef} : w.Confined functions (x.setImportable name found) := { h with }

theorem setGlobals {es : List (String × Value)} (hes : ∀ e ∈ es, e.2.Within (.newcomer w functions)) :
    w.Confined functions (x.setGlobals w.modules.length es) := by
  refine { h with globals := ?_ }
  by_cases hknown : w.modules.length < x.modules.length
  · rw [globals_setGlobals hknown]
    exact h.globals.insertAll hes
  · rw [globals_setGlobals_of_le (Nat.le_of_not_lt hknown)]
    exact h.globals

theorem bind (hv : v.Within (.newcomer w functions)) : w.Confined functions (x.setGlobal w.modules.length name v) := by
  rw [setGlobal_eq]
  exact h.setGlobals (List.forall_mem_singleton.mpr hv)

/-- A function gets a dispatcher. -/
theorem misplace {f : FunctionRef} (hv : v.Within (.newcomer w functions)) :
    w.Confined functions { x with misplaced := x.misplaced.insert f v } := by
  refine { h with misplaced := fun g u hu => ?_ }
  rw [Table.get?_insert] at hu
  split at hu
  · exact .inr (Option.some.inj hu ▸ hv)
  · exact h.misplaced g u hu

/-! ### Classes -/

theorem setClass {g : DeclaredClass → DeclaredClass}
    (hg : ∀ c : DeclaredClass, c.Within (.newcomer w functions) → (g c).Within (.newcomer w functions)) :
    w.Confined functions (x.setClass id g) := by
  refine { h with classes_le := h.classes_le.trans_eq (List.length_modify ..).symm, classes := fun k c hk hc => ?_ }
  rw [World.setClass, List.getElem?_modify] at hc
  obtain ⟨d, hd, rfl⟩ := Option.map_eq_some_iff.mp hc
  have hd := h.classes k d hk hd
  split
  · exact hg d hd
  · exact hd

theorem setAttribute (hv : v.Within (.newcomer w functions)) : w.Confined functions (x.setAttribute id name v) :=
  h.setClass fun _ hc => { hc with attributes := hc.attributes.insert name hv }

theorem declareClass (hbases : ∀ d ∈ bases, d.Within (.newcomer w functions))
    (hattributes : attributes.Within (.newcomer w functions))
    (hd : x.declareClass name bases attributes none = .ok (id, x')) : w.Confined functions x' ∧ w.classes.length ≤ id := by
  obtain ⟨rfl, above, habove, rfl⟩ := declareClass_eq_ok hd
  have hle : (Region.newcomer w functions).Le (.newcomer w functions) := Region.newcomer_mono fun _ hf => hf
  have hself : (Region.newcomer w functions).classes x.classes.length := h.classes_le
  refine ⟨{ h with
    classes_le := h.classes_le.trans (by simp)
    classes := fun k c hk hc => ?_ }, h.classes_le⟩
  rw [List.getElem?_append] at hc
  split at hc
  · exact h.classes k c hk hc
  · obtain rfl := List.mem_singleton.mp (List.mem_of_getElem? hc)
    exact h.closed.within_declared hle hself hbases hattributes habove

theorem makeRecord {fields : List (String × DottedName)} (hid : w.classes.length ≤ id)
    (hm : x.makeRecord id fields = .ok x') : w.Confined functions x' := by
  obtain ⟨parameters, g, hps, rfl, hg⟩ := exists_of_makeRecord hm
  have h₁ : w.Confined functions (x.setAttribute id "__dataclass_params__" (.intrinsic recordSettings)) :=
    h.setAttribute within_recordSettings
  have hwithin := h₁.closed.within_parameters hid hps
  exact h₁.setClass fun d hd => hg _ d hwithin hd

theorem attachVariant {union variant : Nat} (hunion : w.classes.length ≤ union) (hvariant : w.classes.length ≤ variant) :
    w.Confined functions (x.attachVariant union variant name).1 := by
  unfold World.attachVariant
  split
  · exact h
  · extract_lets x₁
    have h₁ : w.Confined functions x₁ := h.setClass fun _ hc => { hc with }
    split
    · exact h₁
    · rename_i x₂ _ _
      have h₂ : w.Confined functions x₂ := h₁.setAttribute (Value.within_cls.mpr hvariant)
      split
      · rename_i listed hlisted
        refine h₂.setAttribute (Value.within_tuple.mpr ?_)
        have hitems := (h₂.closed.concur_spread (h₂.closed.within_variantList hunion)).2 _ hlisted
        exact List.forall_mem_append.mpr ⟨hitems, List.forall_mem_singleton.mpr (Value.within_text _)⟩
      · exact h₂

end Confined

end World

end UnionBridge
