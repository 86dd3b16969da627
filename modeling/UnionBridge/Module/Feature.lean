/-! The features of the language that a module can ask for in its first lines. -/
namespace UnionBridge.Feature

/-- Every feature, with the release that offers it, the release that requires it, and its mark. -/
def all : List (String × String × String × Nat) :=
  [("nested_scopes", "(2, 1, 0, 'beta', 1)", "(2, 2, 0, 'alpha', 0)", 16),
    ("generators", "(2, 2, 0, 'alpha', 1)", "(2, 3, 0, 'final', 0)", 0),
    ("division", "(2, 2, 0, 'alpha', 2)", "(3, 0, 0, 'alpha', 0)", 131072),
    ("absolute_import", "(2, 5, 0, 'alpha', 1)", "(3, 0, 0, 'alpha', 0)", 262144),
    ("with_statement", "(2, 5, 0, 'alpha', 1)", "(2, 6, 0, 'alpha', 0)", 524288),
    ("print_function", "(2, 6, 0, 'alpha', 2)", "(3, 0, 0, 'alpha', 0)", 1048576),
    ("unicode_literals", "(2, 6, 0, 'alpha', 2)", "(3, 0, 0, 'alpha', 0)", 2097152),
    ("barry_as_FLUFL", "(3, 1, 0, 'alpha', 2)", "(4, 0, 0, 'alpha', 0)", 4194304),
    ("generator_stop", "(3, 5, 0, 'beta', 1)", "(3, 7, 0, 'alpha', 0)", 8388608),
    ("annotations", "(3, 7, 0, 'beta', 1)", "None", 16777216)]

def names : List String := all.map (·.1)

/-- A feature as it is displayed. -/
def text (name : String) : String :=
  match all.find? (·.1 = name) with
  | some (_, offered, required, mark) => s!"_Feature({offered}, {required}, {mark})"
  | none => name

/-- The number that stands for a feature. -/
def mark? (name : String) : Option Nat := (all.find? (·.1 = name)).map (·.2.2.2)

end UnionBridge.Feature
