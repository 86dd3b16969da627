import UnionBridge.Table

/-! Merging nested containers. Lists are joined end to end, tables key by key and all the way down, and no entry is
ever overwritten. -/
namespace UnionBridge

/-- Containers of one shape, with the empty one and the merge of two. -/
class Mergeable (α : Type) where
  empty : α
  merge : α → α → α

namespace Mergeable

instance {α : Type} : Mergeable (List α) := ⟨[], (· ++ ·)⟩

variable {κ α : Type} [DecidableEq κ] [Mergeable α]

/-- Adds one entry: merged into the present value of its key, or into a fresh empty container. -/
def addEntry (t : Table κ α) (e : κ × α) : Table κ α :=
  t.alter e.1 fun present => merge (present.getD empty) e.2

instance : Mergeable (Table κ α) := ⟨∅, fun t u => u.entries.foldl addEntry t⟩

/-- Merges from left to right, beginning with the empty container. -/
def mergeAll {α : Type} [Mergeable α] (parts : List α) : α := parts.foldl merge empty

/-- The table of one key. -/
def single (k : κ) (a : α) : Table κ α := ⟨[(k, a)]⟩

end Mergeable

end UnionBridge
