/-! Reading bytes as UTF-8, with line ends of all three kinds turned into one. -/
namespace UnionBridge.Text

/-- Why some bytes are no UTF-8 text: the first bad byte, how many bytes are concerned, and what is wrong. -/
structure Utf8Error where
  position : Nat
  bytes : List UInt8
  reason : String
  deriving DecidableEq, Repr

/-- How a sequence goes on after its first byte: the range of the second byte, and how many bytes follow in all. -/
structure Lead where
  low : Nat
  high : Nat
  following : Nat
  bits : Nat

/-- What a first byte outside ASCII announces. Overlong forms, surrogates and values above the last code point have no
lead. -/
def lead? (b : Nat) : Option Lead :=
  if b < 0xc2 then none
  else if b < 0xe0 then some ⟨0x80, 0xbf, 1, b - 0xc0⟩
  else if b = 0xe0 then some ⟨0xa0, 0xbf, 2, 0⟩
  else if b = 0xed then some ⟨0x80, 0x9f, 2, 13⟩
  else if b < 0xf0 then some ⟨0x80, 0xbf, 2, b - 0xe0⟩
  else if b = 0xf0 then some ⟨0x90, 0xbf, 3, 0⟩
  else if b < 0xf4 then some ⟨0x80, 0xbf, 3, b - 0xf0⟩
  else if b = 0xf4 then some ⟨0x80, 0x8f, 3, 4⟩
  else none

/-- A sequence that has begun: its start, its bytes so far (last first), how many are to come, the range of the next
one, and the value so far. -/
structure Pending where
  start : Nat
  seen : List UInt8
  left : Nat
  low : Nat
  high : Nat
  value : Nat

/-- Decodes the rest from an offset on, inside a sequence or between two; `out` is reversed. -/
def decodeFrom (offset : Nat) (pending : Option Pending) (out : List Char) :
    List UInt8 → Except Utf8Error (List Char)
  | [] =>
    match pending with
    | none => .ok out.reverse
    | some p => .error ⟨p.start, p.seen.reverse, "unexpected end of data"⟩
  | b :: rest =>
    match pending with
    | none =>
      if b.toNat < 0x80 then decodeFrom (offset + 1) none (Char.ofNat b.toNat :: out) rest
      else
        match lead? b.toNat with
        | none => .error ⟨offset, [b], "invalid start byte"⟩
        | some l => decodeFrom (offset + 1) (some ⟨offset, [b], l.following, l.low, l.high, l.bits⟩) out rest
    | some p =>
      if p.low ≤ b.toNat && b.toNat ≤ p.high then
        let value := p.value * 0x40 + (b.toNat - 0x80)
        if p.left = 1 then decodeFrom (offset + 1) none (Char.ofNat value :: out) rest
        else decodeFrom (offset + 1) (some ⟨p.start, b :: p.seen, p.left - 1, 0x80, 0xbf, value⟩) out rest
      else .error ⟨p.start, p.seen.reverse, "invalid continuation byte"⟩

def decodeUtf8 (bytes : List UInt8) : Except Utf8Error (List Char) := decodeFrom 0 none [] bytes

/-- Turns a carriage return, with the line feed after it if there is one, into a line feed. -/
def unifyLineEnds : List Char → List Char
  | '\r' :: '\n' :: rest => '\n' :: unifyLineEnds rest
  | '\r' :: rest => '\n' :: unifyLineEnds rest
  | c :: rest => c :: unifyLineEnds rest
  | [] => []

end UnionBridge.Text
