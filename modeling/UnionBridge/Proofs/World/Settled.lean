import UnionBridge.Execution.Function

/-! Calls of which it is settled what comes of them. Left open is what comes of calling something outside of the program,
where that does not depend only on the values that are passed, and how a dictionary is displayed that the language itself
keeps, such as the names of a module or the converters of a registry. -/
namespace UnionBridge

/-- A dictionary that the language keeps: what is in it changes while the program runs. -/
def Intrinsic.isKept (i : Intrinsic) : Bool := i.cls = "dict" && i.text = "\x7b...\x7d"

namespace Value

mutual

/-- Whether a value holds none of these. -/
def isSettled : Value → Bool
  | .intrinsic i => !i.isKept
  | .box _ v => v.isSettled
  | .carrier _ v es => v.isSettled && isSettledList es
  | .record _ fields => isSettledFields fields
  | .tuple items | .list items | .iterator _ items => isSettledList items
  | _ => true

def isSettledList : List Value → Bool
  | [] => true
  | v :: vs => v.isSettled && isSettledList vs

def isSettledFields : List (String × Value) → Bool
  | [] => true
  | (_, v) :: fields => v.isSettled && isSettledFields fields

end

end Value

/-- Whether the values that a call passes hold none of these. -/
def Supplied.isSettled (s : Supplied) : Bool := Value.isSettledList s.positional && Value.isSettledFields s.keyword

namespace World

/-- What comes of a call whose calls nest at most so deep, where that is settled. -/
def ComesWithin (w : World) (depth : Nat) (f : Value) (s : Supplied) (r : Except Failure Value) : Prop :=
  s.isSettled ∧ w.callWithin depth f s = r ∧ ∀ e, r = .error e → e.isUndetermined = false

/-- What comes of a call, where that is settled. -/
def ComesTo (w : World) (f : Value) (s : Supplied) (r : Except Failure Value) : Prop :=
  s.isSettled ∧ w.call f s = r ∧ ∀ e, r = .error e → e.isUndetermined = false

theorem comesTo_of_ok {w : World} {f v : Value} {s : Supplied} (hs : s.isSettled) (h : w.call f s = .ok v) :
    w.ComesTo f s (.ok v) :=
  ⟨hs, h, fun _ he => nomatch he⟩

theorem comesWithin_congr {w w' : World} {depth : Nat} {f : Value} {s : Supplied}
    (h : w'.callWithin depth f s = w.callWithin depth f s) (r : Except Failure Value) :
    w'.ComesWithin depth f s r ↔ w.ComesWithin depth f s r := by
  rw [ComesWithin, ComesWithin, h]

theorem comesTo_congr {w w' : World} {f : Value} {s : Supplied} (h : w'.call f s = w.call f s) (r : Except Failure Value) :
    w'.ComesTo f s r ↔ w.ComesTo f s r := by
  rw [ComesTo, ComesTo, h]

end World

end UnionBridge
