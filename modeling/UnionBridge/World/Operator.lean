import UnionBridge.World.Instance

/-! Operators on values. A declared class that its instances have in the place of an operator takes over: the result is
then an instance of that class. -/
namespace UnionBridge.World

variable (w : World)

/-- What a conversion to a built-in class makes of a result that is not of that class. -/
def wrongResult {α : Type} (before : String) (v : Value) (after : String) : Except Failure α :=
  Failure.typeError (before ++ w.typeName v ++ after)

/-- Whether a value counts as true. -/
def truth (v : Value) : Except Failure Bool :=
  match w.overridden? v "__bool__" [], w.overridden? v "__len__" [] with
  | some result, _ => do w.wrongResult "__bool__ should return bool, returned " (← result) ""
  | none, some result => do w.wrongResult "'" (← result) "' object cannot be interpreted as an integer"
  | none, none =>
    .ok <| match v with
      | .none => false
      | .float x => !(x == 0.0)
      | .tuple items | .list items => !items.isEmpty
      | .intrinsic i => i.filled
      | v =>
        match v.asInt?, v.asText? with
        | some n, _ => n ≠ 0
        | _, some s => s ≠ ""
        | _, _ => true

/-- A value turned into text; a text is itself. -/
def textOf (v : Value) : Except Failure String :=
  match v.asText?, w.overridden? v "__str__" [] with
  | some s, _ => .ok s
  | none, some result => do w.wrongResult "__str__ returned non-string (type " (← result) ")"
  | none, none => w.displayed v

def noOperator (op : String) (a b : Value) : Except Failure Value :=
  Failure.typeError s!"unsupported operand type(s) for {op}: '{w.typeName a}' and '{w.typeName b}'"

/-- An integer as a float. -/
def floatOfInt (n : Int) : Except Failure Float :=
  match Binary64.ofInt? n with
  | some x => .ok x
  | none => .error (.error .overflow "int too large to convert to float")

def floatOf : Number → Except Failure Float
  | .int n => floatOfInt n
  | .float x => .ok x

def add (a b : Value) : Except Failure Value :=
  match w.overridden? a "__add__" [b], w.overridden? b "__radd__" [a] with
  | some result, _ => result
  | none, some result => result
  | none, none =>
    match a.asNumber?, b.asNumber? with
    | some (.int m), some (.int n) => .ok (.int (m + n))
    | some m, some n => do return .float ((← floatOf m) + (← floatOf n))
    | _, _ =>
      match a.asText?, b.asText? with
      | some s, some t => .ok (.text (s ++ t))
      | some _, none => Failure.typeError ("can only concatenate str (not \"" ++ w.typeName b ++ "\") to str")
      | none, _ => w.noOperator "+" a b

def exceeds (a b : Value) : Except Failure Bool :=
  match w.overridden? a "__gt__" [b], w.overridden? b "__lt__" [a] with
  | some result, _ | none, some result => do w.truth (← result)
  | none, none =>
    match a.asNumber?, b.asNumber? with
    | some m, some n => .ok (m.compare? n = some .gt)
    | _, _ =>
      match a.asText?, b.asText? with
      | some s, some t => .ok (decide (t < s))
      | _, _ =>
        Failure.typeError
          s!"'>' not supported between instances of '{w.typeName a}' and '{w.typeName b}'"

/-- Everything that going through a value yields; nothing if it cannot be gone through. -/
def items? (v : Value) : Except Failure (Option (List Value)) :=
  match w.overridden? v "__iter__" [] with
  | some result => do w.wrongResult "iter() returned non-iterator of type '" (← result) "'"
  | none =>
    .ok <| match v with
      | .tuple items | .list items | .iterator _ items => some items
      | _ => v.asText?.map fun s => s.toList.map fun c => .text c.toString

def items (v : Value) : Except Failure (List Value) := do
  match ← w.items? v with
  | some items => return items
  | none => Failure.typeError s!"'{w.typeName v}' object is not iterable"

/-- Everything that a value adds to a sequence that is being written down. -/
def spread (v : Value) : Except Failure (List Value) := do
  match ← w.items? v with
  | some items => return items
  | none => Failure.typeError s!"Value after * must be an iterable, not {w.typeName v}"

/-- The two items of a value that has two. -/
def pair (v : Value) : Except Failure (Value × Value) := do
  match ← w.items? v with
  | some [a, b] => return (a, b)
  | some (_ :: _ :: _ :: _) => .error (.error .valueError "too many values to unpack (expected 2)")
  | some items => .error (.error .valueError s!"not enough values to unpack (expected 2, got {items.length})")
  | none => Failure.typeError s!"cannot unpack non-iterable {w.typeName v} object"

end UnionBridge.World
