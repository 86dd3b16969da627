import UnionBridge.Number.Binary64
import UnionBridge.Text.Blank
import UnionBridge.Text.Digit

/-! Reading numbers from text. Blanks around a number, digits of any script and single low lines between digits are
allowed. -/
namespace UnionBridge.Literal

/-- Splits a sign off; the flag says that it is a minus. -/
def sign : List Char → Bool × List Char
  | '-' :: rest => (true, rest)
  | '+' :: rest => (false, rest)
  | cs => (false, cs)

/-- The most digits that an integer can be read from or written with. -/
def digitLimit : Nat := 4300

/-- Why a text is not read as an integer. -/
inductive IntFault
  | malformed
  | tooLong (digits : Nat)
  deriving DecidableEq, Repr

/-- The digits up to the first character that is none, in a text where low lines stand only between two digits, and the
rest. -/
def leadingDigits? (afterDigit : Bool) : List Char → Option (List Nat × List Char)
  | [] => some ([], [])
  | '_' :: rest =>
    match rest with
    | c :: _ => if afterDigit && Text.isDigit c then leadingDigits? false rest else none
    | [] => none
  | c :: rest =>
    match Text.digitValue? c with
    | some d => (leadingDigits? true rest).map fun (ds, more) => (d :: ds, more)
    | none => some ([], c :: rest)

/-- An integer in decimal notation. A run of digits that is too long is refused before what follows it is looked at. -/
def int (s : String) : Except IntFault Int :=
  let (negative, cs) := sign (Text.stripBy Text.isNumberBlank s.toList)
  match leadingDigits? false cs with
  | none => .error .malformed
  | some (ds, rest) =>
    if ds.length > digitLimit then .error (.tooLong ds.length)
    else if ds.isEmpty || !rest.isEmpty then .error .malformed
    else
      let n : Int := Text.decimalValue ds
      .ok (if negative then -n else n)

/-- Drops low lines, each of which has to stand between two digits. -/
def withoutLowLines? (afterDigit : Bool) : List Char → Option (List Char)
  | [] => some []
  | '_' :: c :: rest =>
    if afterDigit && Text.isDigit c then (withoutLowLines? true rest).map (c :: ·) else none
  | '_' :: [] => none
  | c :: rest => (withoutLowLines? (Text.isDigit c) rest).map (c :: ·)

/-- The exponent part of a float, with the letter before it; nothing at all stands for zero. -/
def exponent? : List Char → Option Int
  | [] => some 0
  | c :: rest =>
    if c = 'e' || c = 'E' then
      let (negative, cs) := sign rest
      match cs.mapM Text.digitValue? with
      | some (d :: ds) =>
        let n : Int := Text.decimalValue (d :: ds)
        some (if negative then -n else n)
      | _ => none
    else none

/-- The float nearest to `n * 10 ^ e`; far out of range it is zero or infinite. -/
def ofDecimal (negative : Bool) (n : Nat) (e : Int) : Float :=
  let size : Int := e + (Nat.toDigits 10 n).length
  if n = 0 || size < -400 then Binary64.ofRatio negative 0 1
  else if size > 400 then Binary64.ofRatio negative (Nat.pow 10 400) 1
  else Binary64.ofRatio negative (n * Nat.pow 10 e.toNat) (Nat.pow 10 (-e).toNat)

/-- Digits with an optional point, and an optional exponent after them. -/
def unsignedFloat? (negative : Bool) (cs : List Char) : Option Float :=
  let whole := cs.takeWhile Text.isDigit
  let afterWhole := cs.dropWhile Text.isDigit
  let (fraction, rest) :=
    match afterWhole with
    | '.' :: more => (more.takeWhile Text.isDigit, more.dropWhile Text.isDigit)
    | _ => ([], afterWhole)
  if whole.isEmpty && fraction.isEmpty then none
  else
    match exponent? rest with
    | none => none
    | some e =>
      let n := Text.decimalValue ((whole ++ fraction).filterMap Text.digitValue?)
      some (ofDecimal negative n (e - fraction.length))

/-- A float in decimal notation, or one of the words for what is not a number. -/
def float? (s : String) : Option Float :=
  let (negative, cs) := sign (Text.stripBy Text.isNumberBlank s.toList)
  let word := String.ofList (cs.map Char.toLower)
  if word = "inf" || word = "infinity" then some (Binary64.ofRatio negative (Nat.pow 10 400) 1)
  else if word = "nan" then some (0.0 / 0.0)
  else (withoutLowLines? false cs).bind (unsignedFloat? negative)

end UnionBridge.Literal
