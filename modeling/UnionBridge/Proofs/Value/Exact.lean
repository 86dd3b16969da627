import Mathlib
import UnionBridge.Value.Number

/-! Numbers by their exact values: two of them compare as equal exactly if they have one exact value, whatever their
kinds. -/
namespace UnionBridge

/-- The exact value of a number; a finite one is a multiple of the least positive float, `2 ^ (-1074)`. -/
inductive Exact
  | infinite (negative : Bool)
  | finite (units : Int)

namespace Binary64

open Float.Model Float.Model.UnpackedFloat

variable {x : Float} {negative : Bool} {m n : Nat} {e f k : Int}

/-! ### The parts of a float -/

theorem toNat_unpackMantissa (b : BitVec Format.binary64.numBits) : (unpackMantissa b).toNat = b.toNat % 2 ^ 52 := by
  simp [unpackMantissa]

theorem toNat_unpackExponent (b : BitVec Format.binary64.numBits) :
    (unpackExponent b).toNat = b.toNat / 2 ^ 52 % 2 ^ 11 := by
  simp [unpackExponent, Nat.shiftRight_eq_div_pow]

theorem toNat_unpackSign (b : BitVec Format.binary64.numBits) : (unpackSign b).toNat = b.toNat / 2 ^ 63 := by
  have hb : b.toNat < 2 ^ 64 := b.isLt
  simp only [unpackSign, BitVec.toNat_cast, BitVec.extractLsb_toNat, Nat.shiftRight_eq_div_pow]
  omega

theorem toNat_append_one {w : Nat} (b : BitVec w) : (1#1 ++ b).toNat = 2 ^ w + b.toNat := by
  rw [BitVec.toNat_append, ← Nat.shiftLeft_add_eq_or_of_lt b.isLt, Nat.shiftLeft_eq]
  simp

def isNegative : Sign → Bool
  | .negative => true
  | .positive => false

theorem isNegative_unpackSign (b : BitVec Format.binary64.numBits) :
    isNegative (Sign.ofBitVec (unpackSign b)) = decide (b.toNat / 2 ^ 63 = 1) := by
  have hb : b.toNat < 2 ^ 64 := b.isLt
  have hsign := toNat_unpackSign b
  rw [Sign.ofBitVec]
  by_cases h : unpackSign b = 0#1
  · have hzero : b.toNat / 2 ^ 63 = 0 := hsign.symm.trans (congrArg BitVec.toNat h)
    rw [if_pos h, hzero]
    rfl
  · have hnonzero : b.toNat / 2 ^ 63 ≠ 0 := fun hzero => h (BitVec.toNat_inj.mp (hsign.trans hzero))
    have hone : b.toNat / 2 ^ 63 = 1 := by omega
    rw [if_neg h, hone]
    rfl

def ofUnpacked : UnpackedFloat → Binary64
  | .notANumber => .nan
  | .infinity s => .infinite (isNegative s)
  | .zero s => .finite (isNegative s) 0 (-1074)
  | .finite s m e _ => .finite (isNegative s) m e

/-- Taking a float apart by its bits is what the logic's own floats do. -/
theorem ofFloat_eq (x : Float) : ofFloat x = ofUnpacked x.toModel.unpack := by
  let b : BitVec Format.binary64.numBits := x.toModel.toBits.toBitVec
  have hmantissa := toNat_unpackMantissa b
  have hexponent := toNat_unpackExponent b
  have hnegative := isNegative_unpackSign b
  have hspecial : unpackExponent b = -1#_ ↔ b.toNat / Nat.pow 2 52 % Nat.pow 2 11 = 2047 := by
    rw [← BitVec.toNat_inj, hexponent]
    rfl
  have hleast : unpackExponent b = 0#_ ↔ b.toNat / Nat.pow 2 52 % Nat.pow 2 11 = 0 := by
    rw [← BitVec.toNat_inj, hexponent]
    rfl
  have hzero : unpackMantissa b = 0#_ ↔ b.toNat % Nat.pow 2 52 = 0 := by
    rw [← BitVec.toNat_inj, hmantissa]
    rfl
  have hbits : x.toBits.toNat = b.toNat := rfl
  rw [ofFloat, hbits]
  change _ = ofUnpacked (UnpackedFloat.unpack Format.binary64 b)
  rw [UnpackedFloat.unpack]
  by_cases special : b.toNat / Nat.pow 2 52 % Nat.pow 2 11 = 2047
  · rw [if_pos special, if_pos (hspecial.mpr special)]
    by_cases zero : b.toNat % Nat.pow 2 52 = 0
    · rw [if_pos zero, if_pos (hzero.mpr zero), ofUnpacked, hnegative]
      rfl
    · rw [if_neg zero, if_neg (mt hzero.mp zero), ofUnpacked]
  rw [if_neg special, if_neg (mt hspecial.mp special)]
  by_cases least : b.toNat / Nat.pow 2 52 % Nat.pow 2 11 = 0
  · rw [if_pos least, if_pos (hleast.mpr least)]
    by_cases zero : b.toNat % Nat.pow 2 52 = 0
    · rw [dif_pos (hzero.mpr zero), ofUnpacked, hnegative, zero]
      rfl
    · rw [dif_neg (mt hzero.mp zero), ofUnpacked, hnegative, hmantissa, hleast.mpr least]
      rfl
  · rw [if_neg least, if_neg (mt hleast.mp least), ofUnpacked, hnegative, toNat_append_one, hmantissa, hexponent,
      Nat.add_comm]
    rfl

/-! ### Mantissas and exponents -/

/-- A mantissa that uses its leading place unless the exponent is the least one. -/
def Canonical (m : Nat) (e : Int) : Prop := m < 2 ^ 53 ∧ -1074 ≤ e ∧ (2 ^ 52 ≤ m ∨ e = -1074)

theorem canonical_of_ofFloat (h : ofFloat x = .finite negative m e) : Canonical m e := by
  have hfraction : x.toBits.toNat % 2 ^ 52 < 2 ^ 52 := Nat.mod_lt _ (by decide)
  rw [ofFloat] at h
  simp only [Nat.pow_eq] at h
  split_ifs at h <;> cases h
  · exact ⟨by omega, by omega, .inr rfl⟩
  · exact ⟨by omega, by omega, .inl (by omega)⟩

def magnitude (m : Nat) (e : Int) : Nat := m * 2 ^ (e + 1074).toNat

/-- With a smaller exponent the mantissa of the same number would be too large. -/
theorem Canonical.exponent_le (hm : Canonical m e) (hn : Canonical n f) (h : magnitude m e = magnitude n f) :
    f ≤ e := by
  by_contra hlt
  have hleast : -1074 ≤ e := hm.2.1
  obtain ⟨d, hd⟩ : ∃ d : Nat, (f + 1074).toNat = d + 1 + (e + 1074).toNat := ⟨(f - e - 1).toNat, by omega⟩
  have hscaled : m = n * 2 ^ (d + 1) := by
    rw [magnitude, magnitude, hd, Nat.pow_add, ← Nat.mul_assoc] at h
    exact Nat.eq_of_mul_eq_mul_right (Nat.two_pow_pos _) h
  have hlarge : 2 ^ 52 ≤ n := hn.2.2.resolve_right (by omega)
  have hdouble : n * 2 ≤ m := hscaled ▸ Nat.mul_le_mul_left n (Nat.le_self_pow (by omega) 2)
  have hsmall : m < 2 ^ 53 := hm.1
  omega

theorem Canonical.unique (hm : Canonical m e) (hn : Canonical n f) (h : magnitude m e = magnitude n f) :
    m = n ∧ e = f := by
  obtain rfl : e = f := Int.le_antisymm (hn.exponent_le hm h.symm) (hm.exponent_le hn h)
  exact ⟨Nat.eq_of_mul_eq_mul_right (Nat.two_pow_pos _) h, rfl⟩

/-- The number that a finite float is, as a multiple of the least positive float. -/
def units (negative : Bool) (m : Nat) (e : Int) : Int :=
  (if negative then -(m : Int) else m) * (2 ^ (e + 1074).toNat : Nat)

theorem units_false : units false m e = magnitude m e := by
  rw [units, magnitude, if_neg Bool.false_ne_true, Int.natCast_mul]

theorem units_true : units true m e = -magnitude m e := by
  rw [units, magnitude, if_pos rfl, Int.natCast_mul, Int.neg_mul]

theorem units_zero : units negative 0 e = 0 := by
  cases negative <;> simp [units]

theorem magnitude_pos (hm : 0 < m) (e : Int) : 0 < magnitude m e := Nat.mul_pos hm (Nat.two_pow_pos _)

theorem units_ne_zero (hm : 0 < m) : units negative m e ≠ 0 := by
  have hpos := magnitude_pos hm e
  cases negative
  · rw [units_false]
    omega
  · rw [units_true]
    omega

/-- Floats that are not zero are of one number only if their signs, mantissas and exponents are the same. -/
theorem units_eq_iff (s t : Bool) (hm : Canonical m e) (hn : Canonical n f) (hpos : 0 < m) :
    units s m e = units t n f ↔ s = t ∧ m = n ∧ e = f := by
  have hm0 := magnitude_pos hpos e
  constructor
  · intro h
    cases s <;> cases t <;> simp only [units_false, units_true] at h
    · exact ⟨rfl, hm.unique hn (by omega)⟩
    · omega
    · omega
    · exact ⟨rfl, hm.unique hn (by omega)⟩
  · rintro ⟨rfl, rfl, rfl⟩
    rfl

theorem mul_units_inj {z y : Int} (a : Nat) : z * (2 ^ a : Nat) = y * (2 ^ a : Nat) ↔ z = y :=
  Int.mul_eq_mul_right_iff (Int.natCast_ne_zero.mpr (Nat.ne_of_gt (Nat.two_pow_pos a)))

/-- An integer, as a multiple of the least positive float. -/
def unitsOfInt (k : Int) : Int := k * (2 ^ (0 + 1074 : Int).toNat : Nat)

theorem unitsOfInt_inj {z y : Int} : unitsOfInt z = unitsOfInt y ↔ z = y := mul_units_inj _

theorem compareInt_eq_eq_iff (he : -1074 ≤ e) :
    compareInt negative m e k = .eq ↔ units negative m e = unitsOfInt k := by
  rw [compareInt, units, unitsOfInt]
  generalize (if negative then -(m : Int) else (m : Int)) = z
  split
  · have hsum : (e + 1074).toNat = e.toNat + (0 + 1074 : Int).toNat := by omega
    rw [Int.compare_eq_eq, hsum, Nat.pow_add, Int.natCast_mul, ← Int.mul_assoc, mul_units_inj]
    rfl
  · have hsum : (0 + 1074 : Int).toNat = (-e).toNat + (e + 1074).toNat := by omega
    rw [Int.compare_eq_eq, hsum, Nat.pow_add, Int.natCast_mul, ← Int.mul_assoc, mul_units_inj]
    rfl

/-! ### Floats as numbers -/

def value? : Binary64 → Option Exact
  | .nan => none
  | .infinite negative => some (.infinite negative)
  | .finite negative m e => some (.finite (units negative m e))

def CanonicalUnpacked : UnpackedFloat → Prop
  | .finite _ m e _ => Canonical m e
  | _ => True

theorem canonicalUnpacked (x : Float) : CanonicalUnpacked x.toModel.unpack := by
  have h := ofFloat_eq x
  cases hu : x.toModel.unpack with
  | finite s m e hpos => exact canonical_of_ofFloat (h.trans (congrArg ofUnpacked hu))
  | _ => trivial

theorem compare_eq_eq_iff {u v : UnpackedFloat} (hu : CanonicalUnpacked u) (hv : CanonicalUnpacked v) :
    u.compare v = some .eq ↔ ∃ a, (ofUnpacked u).value? = some a ∧ (ofUnpacked v).value? = some a := by
  cases u with
  | notANumber => cases v <;> simp [UnpackedFloat.compare, ofUnpacked, value?]
  | infinity s =>
    cases v with
    | infinity t => cases s <;> cases t <;> simp [UnpackedFloat.compare, ofUnpacked, value?, isNegative] <;> decide
    | _ => cases s <;> simp [UnpackedFloat.compare, ofUnpacked, value?]
  | zero s =>
    cases v with
    | notANumber => simp [UnpackedFloat.compare, ofUnpacked, value?]
    | infinity t => cases t <;> simp [UnpackedFloat.compare, ofUnpacked, value?]
    | zero t => simp [UnpackedFloat.compare, ofUnpacked, value?, units_zero]
    | finite t n f hn => cases t <;> simp [UnpackedFloat.compare, ofUnpacked, value?, units_zero, units_ne_zero hn]
  | finite s m e hm =>
    cases v with
    | notANumber => simp [UnpackedFloat.compare, ofUnpacked, value?]
    | infinity t => cases s <;> cases t <;> simp [UnpackedFloat.compare, ofUnpacked, value?]
    | zero t =>
      cases s <;> simp [UnpackedFloat.compare, ofUnpacked, value?, units_zero, (units_ne_zero hm).symm]
    | finite t n f hn =>
      have hsame (s t : Bool) : units t n f = units s m e ↔ s = t ∧ e = f ∧ m = n := by
        rw [eq_comm, units_eq_iff s t hu hv hm, and_comm (a := m = n)]
      cases s <;> cases t <;> simp [UnpackedFloat.compare, ofUnpacked, value?, hsame, isNegative]

theorem beq_iff (x y : Float) :
    (x == y) = true ↔ ∃ a, (ofFloat x).value? = some a ∧ (ofFloat y).value? = some a := by
  rw [ofFloat_eq, ofFloat_eq, ← compare_eq_eq_iff (canonicalUnpacked x) (canonicalUnpacked y)]
  change (x.toModel.unpack.compare y.toModel.unpack == some .eq) = true ↔ _
  rw [beq_iff_eq]

end Binary64

namespace Number

/-- The exact value of a number, unless it is not one. -/
def value? : Number → Option Exact
  | .int n => some (.finite (Binary64.unitsOfInt n))
  | .float x => (Binary64.ofFloat x).value?

variable {a b c : Number}

theorem compare?_eq_eq_iff : a.compare? b = some .eq ↔ ∃ v, a.value? = some v ∧ b.value? = some v := by
  cases a with
  | int m =>
    cases b with
    | int n =>
      simp [compare?, value?, Binary64.unitsOfInt_inj, eq_comm (a := n)]
    | float y =>
      rw [compare?, value?, value?]
      cases hy : Binary64.ofFloat y with
      | nan => simp [Binary64.value?]
      | infinite negative => cases negative <;> simp [Binary64.value?]
      | finite negative n e =>
        have hle : -1074 ≤ e := (Binary64.canonical_of_ofFloat hy).2.1
        simp [Binary64.value?, Ordering.swap_eq_eq, Binary64.compareInt_eq_eq_iff hle]
  | float x =>
    cases b with
    | int n =>
      rw [compare?, value?, value?]
      cases hx : Binary64.ofFloat x with
      | nan => simp [Binary64.value?]
      | infinite negative => cases negative <;> simp [Binary64.value?]
      | finite negative m e =>
        have hle : -1074 ≤ e := (Binary64.canonical_of_ofFloat hx).2.1
        simp [Binary64.value?, Binary64.compareInt_eq_eq_iff hle, eq_comm (b := Binary64.units negative m e)]
    | float y =>
      rw [compare?, value?, value?, ← Binary64.beq_iff]
      split_ifs <;> simp_all

theorem compare?_eq_symm (h : a.compare? b = some .eq) : b.compare? a = some .eq := by
  obtain ⟨v, ha, hb⟩ := compare?_eq_eq_iff.mp h
  exact compare?_eq_eq_iff.mpr ⟨v, hb, ha⟩

theorem compare?_eq_trans (hab : a.compare? b = some .eq) (hbc : b.compare? c = some .eq) :
    a.compare? c = some .eq := by
  obtain ⟨v, ha, hb⟩ := compare?_eq_eq_iff.mp hab
  obtain ⟨w, hb', hc⟩ := compare?_eq_eq_iff.mp hbc
  obtain rfl : v = w := Option.some.inj (hb.symm.trans hb')
  exact compare?_eq_eq_iff.mpr ⟨v, ha, hc⟩

end Number

end UnionBridge
