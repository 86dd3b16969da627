/-! Ordered tables. A key keeps the place of its first entry; looking up, changing and merging never reorder. -/
namespace UnionBridge

/-- A finite map from `κ` to `α` that remembers the order in which its keys arrived. -/
structure Table (κ α : Type) where
  entries : List (κ × α)
  deriving DecidableEq, Repr

namespace Table

variable {κ α β : Type}

instance : EmptyCollection (Table κ α) := ⟨⟨[]⟩⟩

instance : Inhabited (Table κ α) := ⟨∅⟩

def keys (t : Table κ α) : List κ := t.entries.map Prod.fst

def values (t : Table κ α) : List α := t.entries.map Prod.snd

def isEmpty (t : Table κ α) : Bool := t.entries.isEmpty

/-- Changes every value and no key. -/
def mapValues (f : α → β) (t : Table κ α) : Table κ β := ⟨t.entries.map fun (k, a) => (k, f a)⟩

@[simp]
theorem keys_empty : (∅ : Table κ α).keys = [] := rfl

variable [DecidableEq κ]

def get? (t : Table κ α) (k : κ) : Option α :=
  (t.entries.find? fun e => e.1 = k).map Prod.snd

def contains (t : Table κ α) (k : κ) : Bool := (t.get? k).isSome

/-- Gives `k` the value that `f` makes of its present one; a new key goes to the end. -/
def alterEntries (k : κ) (f : Option α → α) : List (κ × α) → List (κ × α)
  | [] => [(k, f none)]
  | (k', a) :: rest => if k' = k then (k', f (some a)) :: rest else (k', a) :: alterEntries k f rest

def alter (t : Table κ α) (k : κ) (f : Option α → α) : Table κ α := ⟨alterEntries k f t.entries⟩

def insert (t : Table κ α) (k : κ) (a : α) : Table κ α := t.alter k fun _ => a

def insertAll (t : Table κ α) (entries : List (κ × α)) : Table κ α :=
  entries.foldl (fun t (k, a) => t.insert k a) t

def erase (t : Table κ α) (k : κ) : Table κ α := ⟨t.entries.filter fun e => e.1 ≠ k⟩

theorem keys_alterEntries (k : κ) (f : Option α → α) (es : List (κ × α)) :
    (alterEntries k f es).map Prod.fst =
      if k ∈ es.map Prod.fst then es.map Prod.fst else es.map Prod.fst ++ [k] := by
  induction es with
  | nil => simp [alterEntries]
  | cons e rest ih =>
    obtain ⟨k', a⟩ := e
    by_cases h : k' = k
    · simp [alterEntries, h]
    · have hk : k ≠ k' := fun e => h e.symm
      simp only [alterEntries, h, if_false, List.map_cons, ih, List.mem_cons, hk, false_or]
      split <;> rfl

theorem keys_alter (t : Table κ α) (k : κ) (f : Option α → α) :
    (t.alter k f).keys = if k ∈ t.keys then t.keys else t.keys ++ [k] :=
  keys_alterEntries k f t.entries

end Table

end UnionBridge
