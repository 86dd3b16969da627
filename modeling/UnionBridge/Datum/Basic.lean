/-! Untyped nested data: leaves, lists, and dictionaries whose entries are ordered. -/
namespace UnionBridge

inductive Leaf
  | null
  | bool (b : Bool)
  | int (n : Int)
  | decimal (mantissa : Int) (exponent : Nat)
  | text (s : String)
  deriving DecidableEq, Repr

inductive Datum
  | leaf (l : Leaf)
  | list (items : List Datum)
  | dict (entries : List (String × Datum))
  deriving Inhabited

/-- The type name that messages about a leaf use. -/
def Leaf.typeName : Leaf → String
  | .null => "NoneType"
  | .bool _ => "bool"
  | .int _ => "int"
  | .decimal _ _ => "float"
  | .text _ => "str"

def Datum.typeName : Datum → String
  | .leaf l => l.typeName
  | .list _ => "list"
  | .dict _ => "dict"

end UnionBridge
