import UnionBridge.Datum.Basic
import UnionBridge.Value.Failure

/-! Merging untyped data. What the left side is decides the rule, and a merge that fails keeps what it had done. -/
namespace UnionBridge.Datum

inductive MergeError
  /-- The named type has no merge rule. -/
  | unmergeable (type : String)
  /-- A dictionary met something without entries. -/
  | noEntries (type : String)
  /-- A list met something that cannot be listed. -/
  | notIterable (type : String)
  | nothingToMerge
  deriving DecidableEq, Repr

def MergeError.kind : MergeError → ErrorKind
  | .unmergeable _ | .notIterable _ => .typeError
  | .noEntries _ => .attributeError
  | .nothingToMerge => .valueError

def MergeError.message : MergeError → String
  | .unmergeable t => s!"cannot merge values of type {t}"
  | .noEntries t => s!"'{t}' object has no attribute 'items'"
  | .notIterable t => s!"'{t}' object is not iterable"
  | .nothingToMerge => "merged() needs at least one container"

/-- The empty container of the same shape; leaves have none. -/
def emptyLike : Datum → Except MergeError Datum
  | .leaf l => .error (.unmergeable l.typeName)
  | .list _ => .ok (.list [])
  | .dict _ => .ok (.dict [])

/-- What a list gains from another value: items, keys or characters. -/
def listed : Datum → Except MergeError (List Datum)
  | .list items => .ok items
  | .dict entries => .ok (entries.map fun e => .leaf (.text e.1))
  | .leaf (.text s) => .ok (s.toList.map fun c => .leaf (.text c.toString))
  | .leaf l => .error (.notIterable l.typeName)

def setEntry (k : String) (v : Datum) : List (String × Datum) → List (String × Datum)
  | [] => [(k, v)]
  | (k', v') :: rest => if k' = k then (k, v) :: rest else (k', v') :: setEntry k v rest

mutual

/-- The left side after the merge, and what stopped it, if anything did. -/
def mergeIn : Datum → Datum → Datum × Option MergeError
  | .leaf l, _ => (.leaf l, some (.unmergeable l.typeName))
  | .list items, d =>
    match listed d with
    | .ok more => (.list (items ++ more), none)
    | .error e => (.list items, some e)
  | .dict entries, .dict incoming =>
    let (entries, e) := mergeEntries entries incoming
    (.dict entries, e)
  | .dict entries, d => (.dict entries, some (.noEntries d.typeName))
  termination_by structural _ d => d

/-- Merges entries one by one and stops at the first failure, with that entry's own progress kept. -/
def mergeEntries (entries : List (String × Datum)) :
    List (String × Datum) → List (String × Datum) × Option MergeError
  | [] => (entries, none)
  | (k, v) :: rest =>
    match entries.find? fun e => e.1 = k with
    | some (_, present) =>
      match mergeIn present v with
      | (merged, some e) => (setEntry k merged entries, some e)
      | (merged, none) => mergeEntries (setEntry k merged entries) rest
    | none =>
      match emptyLike v with
      | .error e => (entries, some e)
      | .ok fresh =>
        match mergeIn fresh v with
        | (_, some e) => (entries, some e)
        | (copy, none) => mergeEntries (setEntry k copy entries) rest
  termination_by structural es => es

end

/-- Merges all parts, left to right, into a fresh container of the first one's shape. -/
def merged : List Datum → Except MergeError Datum
  | [] => .error .nothingToMerge
  | first :: rest => do
    let fresh ← first.emptyLike
    (first :: rest).foldlM (fun acc part =>
      match acc.mergeIn part with
      | (_, some e) => .error e
      | (next, none) => .ok next) fresh

end UnionBridge.Datum
