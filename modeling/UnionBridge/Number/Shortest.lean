import UnionBridge.Number.Binary64

/-! The shortest decimal that reads back as a given float, and its text. -/
namespace UnionBridge.Shortest

/-- Whether `a * 10 ^ s ≤ b * 2 ^ t`, over naturals. -/
def le (a : Nat) (s : Int) (b : Nat) (t : Int) : Bool :=
  a * Nat.pow 10 s.toNat * Nat.pow 2 (-t).toNat ≤ b * Nat.pow 2 t.toNat * Nat.pow 10 (-s).toNat

/-- Whether `a * 10 ^ s < b * 2 ^ t`. -/
def lt (a : Nat) (s : Int) (b : Nat) (t : Int) : Bool :=
  a * Nat.pow 10 s.toNat * Nat.pow 2 (-t).toNat < b * Nat.pow 2 t.toNat * Nat.pow 10 (-s).toNat

/-- Whether `a * 10 ^ s` lies among the reals that round to `m * 2 ^ e`. Below a power of two the gap is half as wide,
and the ends belong to even mantissas. -/
def readsBack (m : Nat) (e : Int) (a : Nat) (s : Int) : Bool :=
  let below := if m = Nat.pow 2 52 && e ≠ -1074 then 4 * m - 1 else 4 * m - 2
  let above := 4 * m + 2
  if m % 2 = 0 then !lt a s below (e - 2) && le a s above (e - 2)
  else !le a s below (e - 2) && lt a s above (e - 2)

/-- `m * 2 ^ e` divided by `10 ^ s`, rounded down, with the quotient's fraction as a pair. -/
def quotient (m : Nat) (e s : Int) : Nat × Nat × Nat :=
  let num := m * Nat.pow 2 e.toNat * Nat.pow 10 (-s).toNat
  let den := Nat.pow 2 (-e).toNat * Nat.pow 10 s.toNat
  (num / den, num % den, den)

/-- The number of digits before the point of `m * 2 ^ e`; zero or less for numbers below one tenth. -/
def pointOf (m : Nat) (e : Int) : Int :=
  let guess : Int := ((m.log2 : Int) + e) * 1233 / 4096 - 1
  let search := (List.range 4).map fun i => guess + (i : Nat)
  (search.find? fun k => !le 1 k m e).getD (guess + 4)

/-- The digits and the power of ten on the grid of `n` digits that read back, the nearer of the two neighbours first. -/
def onGrid? (m : Nat) (e point : Int) (n : Nat) : Option (Nat × Int) :=
  let s := point - n
  let (q, rest, den) := quotient m e s
  let upFirst := 2 * rest > den || (2 * rest = den && q % 2 = 1)
  let candidates := if upFirst then [q + 1, q] else [q, q + 1]
  (candidates.find? fun a => a ≠ 0 && readsBack m e a s).map fun a => (a, s)

/-- The shortest digits of a positive number. -/
def digits (m : Nat) (e : Int) : Nat × Int :=
  let point := pointOf m e
  (((List.range 17).map (· + 1)).findSome? (onGrid? m e point)).getD ((quotient m e (point - 17)).1, point - 17)

/-- Digits without trailing zeros, and the number of digits before the point. -/
def normalized (a : Nat) (s : Int) : List Char × Int :=
  let cs := Nat.toDigits 10 a
  ((cs.reverse.dropWhile (· = '0')).reverse, s + cs.length)

/-- The exponent with its sign and at least two digits. -/
def exponentText (n : Int) : String :=
  let digits := toString n.natAbs
  (if n < 0 then "e-" else "e+") ++ (if digits.length < 2 then "0" ++ digits else digits)

/-- Positional from `0.0001` up to sixteen digits before the point, in powers of ten elsewhere. -/
def decimalText (cs : List Char) (point : Int) : String :=
  let text := String.ofList cs
  if -4 < point && point ≤ 16 then
    if point ≤ 0 then "0." ++ "".pushn '0' (-point).toNat ++ text
    else
      let before := cs.take point.toNat
      let after := cs.drop point.toNat
      let whole := (String.ofList before).pushn '0' (point.toNat - before.length)
      whole ++ "." ++ (if after.isEmpty then "0" else String.ofList after)
  else
    let mantissa := String.ofList (cs.take 1) ++ (if cs.length ≤ 1 then "" else "." ++ String.ofList (cs.drop 1))
    mantissa ++ exponentText (point - 1)

/-- The text of a float. -/
def text (x : Float) : String :=
  match Binary64.ofFloat x with
  | .nan => "nan"
  | .infinite negative => if negative then "-inf" else "inf"
  | .finite negative m e =>
    let sign := if negative then "-" else ""
    if m = 0 then sign ++ "0.0"
    else
      let (a, s) := digits m e
      let (cs, point) := normalized a s
      sign ++ decimalText cs point

end UnionBridge.Shortest
