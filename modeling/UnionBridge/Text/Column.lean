/-! The width that a line prefix takes when it is printed. -/
namespace UnionBridge.Text

/-- Column and width after one more character: a tab goes on to the next multiple of eight, and a line end goes back to
column zero. -/
def columnStep (p : Nat × Nat) (c : Char) : Nat × Nat :=
  let (column, width) := p
  if c = '\t' then (column + (8 - column % 8), width + (8 - column % 8))
  else if c = '\n' || c = '\r' then (0, width + 1)
  else (column + 1, width + 1)

/-- How many characters a text has once its tabs are expanded. -/
def expandedWidth (cs : List Char) : Nat := (cs.foldl columnStep (0, 0)).2

end UnionBridge.Text
