import UnionBridge.Module.OfPlans
import UnionBridge.Proofs.Execution.Action
import UnionBridge.Proofs.Schema.Fields
import UnionBridge.Proofs.Table

/-! Names inside conversion functions: the variables of fields, which never get in the way of each other where all of
them are needed, and names that mean the same throughout. -/
namespace UnionBridge

open UnionBridge.Action

variable {s : Scope} {l : Locals} {d : DottedName} {name : String} {v : Value}

/-! ### Looking names up -/

namespace Scope

/-- A path means a value throughout a function: no variable hides it. -/
def Stands (s : Scope) (d : DottedName) (v : Value) : Prop := ∀ l, s.path l d = .ok v

theorem eval_fetch (s : Scope) (name : String) (l : Locals) : eval (s.fetch name) l = (s.name l name, l) := by
  rw [fetch, eval_bind_ok (eval_get l), eval_lift]

theorem eval_fetchPath (s : Scope) (d : DottedName) (l : Locals) : eval (s.fetchPath d) l = (s.path l d, l) := by
  rw [fetchPath, eval_bind_ok (eval_get l), eval_lift]

theorem Stands.eval_fetchPath (h : s.Stands d v) (l : Locals) : eval (s.fetchPath d) l = (.ok v, l) := by
  rw [Scope.eval_fetchPath, h l]

theorem Stands.eval_fetch (h : s.Stands (.ofName name) v) (l : Locals) : eval (s.fetch name) l = (.ok v, l) := by
  rw [Scope.eval_fetch]
  have hl := h l
  simp only [path, DottedName.ofName, World.memberPath] at hl
  cases hn : s.name l name with
  | error e =>
    rw [hn] at hl
    cases hl
  | ok v' =>
    rw [hn] at hl
    rw [Except.ok.inj hl]

/-- A variable that is set is what its name means. -/
theorem eval_fetch_own (hc : constant? name = none) (ho : name ∈ s.own) (hv : l.get? name = some v) :
    eval (s.fetch name) l = (.ok v, l) := by
  rw [eval_fetch, Scope.name, if_pos (by simp [hc, ho]), hv]

end Scope

/-! ### The variables of fields -/

namespace Naming

variable {key : String}

theorem slot_injective : Function.Injective slot := by
  intro k k' h
  exact (String.append_right_inj "f_").mp h

theorem toList_slot (key : String) : (slot key).toList = 'f' :: '_' :: key.toList := by
  change ("f_" ++ key).toList = _
  simp [String.toList_append]

/-- The variable of a field is no word of the language. -/
theorem constant?_slot (key : String) : constant? (slot key) = none := by
  have h := toList_slot key
  generalize slot key = name at h
  unfold constant?
  split <;> first | rfl | simp at h

theorem slot_ne (h : name.toList.head? ≠ some 'f') : slot key ≠ name := by
  rintro rfl
  rw [toList_slot] at h
  exact h rfl

theorem slot_ne_parameter : slot key ≠ Conversion.parameter := slot_ne (by decide)

theorem slot_ne_resultSlot : slot key ≠ Attempt.resultSlot := slot_ne (by decide)

end Naming

namespace FieldStep

variable (f : Field)

theorem slot_ofField : (ofField f).slot = Naming.slot f.key := rfl

theorem valueSlot_ofField_some (d : DottedName) : (ofField f).valueSlot (some d) = Naming.slot (f.key ++ "_value") := by
  change "f_" ++ f.key ++ "_value" = "f_" ++ (f.key ++ "_value")
  exact String.append_assoc

theorem effectsSlot_ofField : (ofField f).effectsSlot = Naming.slot (f.key ++ "_effects") := by
  change "f_" ++ f.key ++ "_effects" = "f_" ++ (f.key ++ "_effects")
  exact String.append_assoc

end FieldStep

namespace Conversion

variable {conv : Conversion} {arm : Arm} {a : Attempt} {f : FieldStep}

theorem parameter_mem_ownNames : parameter ∈ conv.ownNames := by simp [ownNames]

theorem resultSlot_mem_ownNames (harm : arm ∈ conv.arms) (ha : a ∈ arm.body.attempts) (hc : conv.container.isSome) :
    Attempt.resultSlot ∈ conv.ownNames := by
  have hholds : conv.holdsResult = true := by
    simp only [holdsResult, hc, Bool.true_and, List.any_eq_true]
    exact ⟨arm, harm, by simpa using List.ne_nil_of_mem ha⟩
  simp [ownNames, hholds]

theorem assigned_mem_ownNames (harm : arm ∈ conv.arms) {name : String}
    (h : name ∈ arm.body.assigned conv.container) : name ∈ conv.ownNames := by
  simp only [ownNames, List.mem_cons, List.mem_append, List.mem_flatMap]
  exact Or.inr (Or.inr ⟨arm, harm, h⟩)

/-- The variables that hold the value and the effects of a field are variables of the function. -/
theorem valueSlot_mem_ownNames (harm : arm ∈ conv.arms) (ha : a ∈ arm.body.attempts) (hf : f ∈ a.steps) :
    f.valueSlot conv.container ∈ conv.ownNames := by
  apply assigned_mem_ownNames harm
  cases hb : arm.body with
  | direct b =>
    rw [hb] at ha
    obtain rfl : a = b := by simpa [ArmBody.attempts] using ha
    refine List.mem_flatMap.mpr ⟨f, hf, ?_⟩
    cases conv.container <;> simp [FieldStep.directVariables, FieldStep.valueSlot]
  | firstFit attempts =>
    rw [hb] at ha
    refine List.mem_flatMap.mpr ⟨a, ha, List.mem_flatMap.mpr ⟨f, hf, ?_⟩⟩
    cases conv.container <;> simp [FieldStep.triedVariables, FieldStep.valueSlot]

theorem effectsSlot_mem_ownNames (harm : arm ∈ conv.arms) (ha : a ∈ arm.body.attempts) (hf : f ∈ a.steps)
    (hc : conv.container.isSome) : f.effectsSlot ∈ conv.ownNames := by
  obtain ⟨d, hd⟩ := Option.isSome_iff_exists.mp hc
  apply assigned_mem_ownNames harm
  cases hb : arm.body with
  | direct b =>
    rw [hb] at ha
    obtain rfl : a = b := by simpa [ArmBody.attempts] using ha
    exact List.mem_flatMap.mpr ⟨f, hf, by simp [hd, FieldStep.directVariables]⟩
  | firstFit attempts =>
    rw [hb] at ha
    refine List.mem_flatMap.mpr ⟨a, ha, List.mem_flatMap.mpr ⟨f, hf, ?_⟩⟩
    simp [hd, FieldStep.triedVariables]

/-- Where fields are tried, the variable that holds what an attempt left is one too. -/
theorem slot_mem_ownNames {attempts : List Attempt} (harm : arm ∈ conv.arms) (hb : arm.body = .firstFit attempts)
    (ha : a ∈ attempts) (hf : f ∈ a.steps) : f.slot ∈ conv.ownNames := by
  apply assigned_mem_ownNames harm
  rw [hb]
  refine List.mem_flatMap.mpr ⟨a, ha, List.mem_flatMap.mpr ⟨f, hf, ?_⟩⟩
  cases conv.container <;> simp [FieldStep.triedVariables]

/-- The variables of a function are its parameter, the one that holds its result, and those of its fields. -/
theorem ownNames_cases (hsteps : ∀ arm ∈ conv.arms, ∀ a ∈ arm.body.attempts, ∀ f ∈ a.steps, ∃ g, f = .ofField g)
    (h : name ∈ conv.ownNames) : name = parameter ∨ name = Attempt.resultSlot ∨ ∃ key, name = Naming.slot key := by
  have hvariables : ∀ g : Field, name = (FieldStep.ofField g).slot ∨
      name = (FieldStep.ofField g).valueSlot conv.container ∨ name = (FieldStep.ofField g).effectsSlot →
        ∃ key, name = Naming.slot key := by
    rintro g (h | h | h)
    · exact ⟨_, h⟩
    · cases hc : conv.container with
      | none => exact ⟨_, by rw [h, hc]; rfl⟩
      | some d => exact ⟨_, by rw [h, hc, FieldStep.valueSlot_ofField_some]⟩
    · exact ⟨_, by rw [h, FieldStep.effectsSlot_ofField]⟩
  rw [ownNames, List.mem_cons, List.mem_append, List.mem_flatMap] at h
  rcases h with h | h | ⟨arm, harm, h⟩
  · exact Or.inl h
  · split at h
    · exact Or.inr (Or.inl (by simpa using h))
    · cases h
  · refine Or.inr (Or.inr ?_)
    cases hb : arm.body with
    | direct a =>
      rw [hb] at h
      obtain ⟨f, hf, hname⟩ := List.mem_flatMap.mp h
      obtain ⟨g, rfl⟩ := hsteps arm harm a (by simp [hb, ArmBody.attempts]) f hf
      refine hvariables g ?_
      cases hc : conv.container <;> simp [hc, FieldStep.directVariables] at hname <;> tauto
    | firstFit attempts =>
      rw [hb] at h
      obtain ⟨a, ha, h⟩ := List.mem_flatMap.mp h
      obtain ⟨f, hf, hname⟩ := List.mem_flatMap.mp h
      obtain ⟨g, rfl⟩ := hsteps arm harm a (by simpa [hb, ArmBody.attempts] using ha) f hf
      refine hvariables g ?_
      cases hc : conv.container <;> simp [hc, FieldStep.triedVariables] at hname <;> tauto

end Conversion

end UnionBridge
