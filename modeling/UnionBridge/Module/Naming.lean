import UnionBridge.Text.Lower

/-! Names in generated modules. -/
namespace UnionBridge.Naming

/-- A name in lower case, after what is before it up to a dot, the last first: a low line goes between a small letter or
digit and a capital, and stands for a dot. -/
def snakeFrom : (before : List Char) → List Char → List Char
  | _, [] => []
  | before, c :: rest =>
    if c = '.' then '_' :: snakeFrom [] rest
    else
      let starts := c.isUpper && (before.head?.map fun b => b.isLower || b.isDigit).getD false
      (if starts then ['_'] else []) ++ Text.lowerAt before c (rest.takeWhile (· ≠ '.')) ++ snakeFrom (c :: before) rest

def snakeCase (name : String) : String := String.ofList (snakeFrom [] name.toList)

/-- The plain name of the function that converts one union into another. -/
def functionName (dest source : String) : String := snakeCase dest ++ "_from_" ++ snakeCase source

/-- The dispatcher of a destination. -/
def dispatcherName (dest : String) : String := "_" ++ snakeCase dest ++ "_from_source"

/-- The names to try for a function: the plain one, then with the suffixes `_2`, `_3` and on. -/
def numbered (base : String) (n : Nat) : String := s!"{base}_{n}"

/-- The first of these names that is not used. Among one more name than there are used ones, one is free. -/
def fresh (base : String) (used : List String) : String :=
  if used.contains base then
    (((List.range (used.length + 1)).map fun i => numbered base (i + 2)).find? fun name =>
      !used.contains name).getD base
  else base

/-- The class of a variant. -/
def className (union variant : String) : String := s!"_{union}_{variant}"

/-- The local variable of a field. -/
def slot (key : String) : String := s!"f_{key}"

end UnionBridge.Naming
