/-! Binary floating point numbers of 64 bits as exact multiples of powers of two. -/
namespace UnionBridge

/-- What a float stands for. -/
inductive Binary64
  | nan
  | infinite (negative : Bool)
  /-- A finite number, `mantissa * 2 ^ exponent`. -/
  | finite (negative : Bool) (mantissa : Nat) (exponent : Int)
  deriving DecidableEq, Repr

namespace Binary64

def ofFloat (x : Float) : Binary64 :=
  let bits := x.toBits.toNat
  let negative := bits / Nat.pow 2 63 = 1
  let biased : Nat := bits / Nat.pow 2 52 % Nat.pow 2 11
  let fraction := bits % Nat.pow 2 52
  if biased = 2047 then if fraction = 0 then .infinite negative else .nan
  else if biased = 0 then .finite negative fraction (-1074)
  else .finite negative (fraction + Nat.pow 2 52) ((biased : Int) - 1075)

/-- The quotient of two naturals, rounded to the nearest integer, ties to even. -/
def divRound (num den : Nat) : Nat :=
  let q := num / den
  let twice := 2 * (num % den)
  if twice < den then q else if twice > den then q + 1 else q + q % 2

/-- `num / den / 2 ^ e` as a quotient of naturals. -/
def scaled (num den : Nat) (e : Int) : Nat × Nat :=
  if 0 ≤ e then (num, den * Nat.pow 2 e.toNat) else (num * Nat.pow 2 (-e).toNat, den)

/-- The exponent of the last place of `num / den`, for a mantissa of 53 bits. -/
def lastPlace (num den : Nat) : Int :=
  let e : Int := (num.log2 : Int) - (den.log2 : Int) - 52
  let (n, d) := scaled num den e
  let e := if n / d < Nat.pow 2 52 then e - 1 else e
  if e < -1074 then -1074 else e

/-- The float nearest to `num / den`, ties to even; beyond the largest float it is infinite. -/
def ofRatio (negative : Bool) (num den : Nat) : Float :=
  let sign := if negative then Nat.pow 2 63 else 0
  if num = 0 then Float.ofBits (UInt64.ofNat sign)
  else
    let e := lastPlace num den
    let (n, d) := scaled num den e
    let m := divRound n d
    let bits := if m < Nat.pow 2 52 then m else (e + 1074).toNat * Nat.pow 2 52 + m
    Float.ofBits (UInt64.ofNat (sign + min bits (2047 * Nat.pow 2 52)))

/-- The float nearest to an integer, unless that is infinite. -/
def ofInt? (n : Int) : Option Float :=
  let x := ofRatio (n < 0) n.natAbs 1
  if x.isInf then none else some x

/-- The integer part of a finite number, toward zero. -/
def truncate (negative : Bool) (mantissa : Nat) (exponent : Int) : Int :=
  let n : Nat := if 0 ≤ exponent then mantissa * Nat.pow 2 exponent.toNat else mantissa / Nat.pow 2 (-exponent).toNat
  if negative then -(n : Int) else n

/-- The order of a finite number and an integer, without rounding either. -/
def compareInt (negative : Bool) (mantissa : Nat) (exponent : Int) (n : Int) : Ordering :=
  let m : Int := if negative then -(mantissa : Int) else mantissa
  if 0 ≤ exponent then compare (m * Nat.pow 2 exponent.toNat) n
  else compare m (n * Nat.pow 2 (-exponent).toNat)

end Binary64

end UnionBridge
