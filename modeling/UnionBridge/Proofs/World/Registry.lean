import UnionBridge.Proofs.Table
import UnionBridge.Proofs.Value.Equality
import UnionBridge.World.Basic

/-! Registries as functions from keys, where keys that are the same are one key. -/
namespace UnionBridge

variable {k l q : ConverterKey}

namespace ConverterKey

theorem same_iff :
    k.same l ↔ k.source.equal l.source ∧ k.target.equal l.target ∧ k.fallible = l.fallible := by
  simp [same, and_assoc]

theorem same_symm (h : k.same l) : l.same k := by
  obtain ⟨hsource, htarget, hfallible⟩ := same_iff.mp h
  exact same_iff.mpr ⟨Value.equal_symm hsource, Value.equal_symm htarget, hfallible.symm⟩

theorem same_trans (h : k.same l) (h' : l.same q) : k.same q := by
  obtain ⟨hsource, htarget, hfallible⟩ := same_iff.mp h
  obtain ⟨hsource', htarget', hfallible'⟩ := same_iff.mp h'
  exact same_iff.mpr
    ⟨Value.equal_trans hsource hsource', Value.equal_trans htarget htarget', hfallible.trans hfallible'⟩

theorem same_left (h : k.same l) : k.same q = l.same q :=
  Bool.eq_iff_iff.mpr ⟨same_trans (same_symm h), same_trans h⟩

end ConverterKey

namespace Registry

theorem get?_cons (e : ConverterKey × Converter) (es : List (ConverterKey × Converter)) (k : ConverterKey) :
    (⟨e :: es⟩ : Registry).get? k = if e.1.same k then some e.2 else (⟨es⟩ : Registry).get? k := by
  simp only [get?, List.find?_cons]
  cases e.1.same k <;> rfl

/-- A registration is what is found under its own key, and nothing else changes. -/
theorem get?_register (r : Registry) (k q : ConverterKey) (c : Converter) :
    (r.register k c).get? q = if k.same q then some c else r.get? q := by
  obtain ⟨es⟩ := r
  simp only [register]
  induction es with
  | nil => rw [setEntry, get?_cons]
  | cons e es ih =>
    rw [setEntry]
    by_cases hk : e.1.same k
    · rw [if_pos hk, get?_cons, get?_cons, ConverterKey.same_left hk]
      split <;> rfl
    · rw [if_neg hk, get?_cons, get?_cons, ih]
      by_cases hq : k.same q
      · -- A key that is the same as `q` would be the same as `k` too.
        have he : ¬e.1.same q := fun he => hk (ConverterKey.same_trans he (ConverterKey.same_symm hq))
        rw [if_neg he, if_pos hq, if_pos hq]
      · rw [if_neg hq, if_neg hq]

end Registry

theorem World.registry_register_ite {w : World} {r name : String} {c : Converter} :
    (w.register r k c).registry name = if r = name then (w.registry name).register k c else w.registry name := by
  simp only [World.registry, World.register, Table.get?_alter]
  split
  · rename_i h
    rw [h]
    rfl
  · rfl

end UnionBridge
