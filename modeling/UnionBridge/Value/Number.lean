import UnionBridge.Number.Binary64
import UnionBridge.Value.Failure

/-! Values as numbers, and when two values are equal. -/
namespace UnionBridge

/-- A number of either kind. -/
inductive Number
  | int (n : Int)
  | float (x : Float)

namespace Number

/-- Integers and floats compare by their exact values; what is not a number compares with nothing. -/
def compare? : Number → Number → Option Ordering
  | .int a, .int b => some (compare a b)
  | .float x, .float y => if x == y then some .eq else if x < y then some .lt else if x > y then some .gt else none
  | .float x, .int b =>
    match Binary64.ofFloat x with
    | .nan => none
    | .infinite negative => some (if negative then .lt else .gt)
    | .finite negative m e => some (Binary64.compareInt negative m e b)
  | .int a, .float y =>
    match Binary64.ofFloat y with
    | .nan => none
    | .infinite negative => some (if negative then .gt else .lt)
    | .finite negative m e => some (Binary64.compareInt negative m e a).swap

end Number

namespace Value

/-- The integer that a value is, if its class is one of integers. -/
def asInt? : Value → Option Int
  | .bool b => some (if b then 1 else 0)
  | .int n => some n
  | .writtenInt _ n => some n
  | _ => Option.none

def asNumber? : Value → Option Number
  | .float x => some (.float x)
  | v => v.asInt?.map .int

/-- The text that a value is, if its class is one of texts. -/
def asText? : Value → Option String
  | .text s => some s
  | .writtenText _ s => some s
  | _ => Option.none

mutual

/-- Equality as the program sees it: numbers and texts by value, across their classes; sequences, boxes and instances
with fields by content; some containers, and instances without fields to compare, never. -/
def equal : Value → Value → Bool
  | .none, .none => true
  | .box c a, .box d b => c = d && equal a b
  | .carrier .effectful a es, .carrier .effectful b fs => equal a b && equalList es fs
  | .record c fs, .record d gs => c = d && equalFields fs gs
  | .tuple as, .tuple bs => equalList as bs
  | .list as, .list bs => equalList as bs
  | .cls c, .cls d => c = d
  | .function f, .function g => f = g
  | .module m, .module n => m = n
  | .registry r, .registry s => r = s
  | .feature f, .feature g => f = g
  | .intrinsic i, .intrinsic j => i = j
  | a, b =>
    match a.asNumber?, b.asNumber? with
    | some m, some n => m.compare? n = some .eq
    | _, _ =>
      match a.asText?, b.asText? with
      | some s, some t => s = t
      | _, _ => false

def equalList : List Value → List Value → Bool
  | [], [] => true
  | a :: as, b :: bs => equal a b && equalList as bs
  | _, _ => false

def equalFields : List (String × Value) → List (String × Value) → Bool
  | [], [] => true
  | (_, a) :: as, (_, b) :: bs => equal a b && equalFields as bs
  | _, _ => false

end

end Value

end UnionBridge
