import UnionBridge.Module.Basic

/-! Which generated modules are well formed as programs: the words of the language are no names. -/
namespace UnionBridge

namespace Keyword

/-- Words that are values of their own. They can start an expression, and be nothing else. -/
def constants : List String := ["False", "None", "True"]

def words : List String :=
  constants ++
    ["and", "as", "assert", "async", "await", "break", "class", "continue", "def", "del", "elif", "else", "except",
      "finally", "for", "from", "global", "if", "import", "in", "is", "lambda", "nonlocal", "not", "or", "pass",
      "raise", "return", "try", "while", "with", "yield"]

/-- Names that can be read and not given to anything. -/
def fixed : List String := ["__debug__"]

/-- Whether a word can follow a point. -/
def canBeMember (s : String) : Bool := !words.contains s

/-- Whether a word can be given to something. -/
def canBeBound (s : String) : Bool := canBeMember s && !fixed.contains s

/-- Whether a path can be evaluated. -/
def canBeRead (d : DottedName) : Bool :=
  (canBeMember d.head || constants.contains d.head) && d.rest.all canBeMember

end Keyword

namespace Import

/-- Imports of language features have to come before everything else. -/
def isWellFormed (i : Import) : Bool :=
  i.module.parts.all Keyword.canBeMember &&
    match i.imported with
    | .whole (some newName) => Keyword.canBeBound newName
    | .whole none => Keyword.canBeBound i.module.head
    | .names first more =>
      i.module.text ≠ "__future__" &&
        (first :: more).all fun (name, newName) =>
          Keyword.canBeMember name && Keyword.canBeBound (newName.getD name)

end Import

namespace UnionClass

def isWellFormed (u : UnionClass) : Bool :=
  Keyword.canBeBound u.name &&
    u.cases.all fun c =>
      Keyword.canBeBound c.name &&
        c.fields.all fun (attr, type) => Keyword.canBeBound attr && Keyword.canBeRead type

end UnionClass

namespace Attempt

def isWellFormed (a : Attempt) : Bool :=
  Keyword.canBeRead a.constructor && a.steps.all fun f => Keyword.canBeMember f.attr && Keyword.canBeRead f.type

end Attempt

namespace Conversion

def isWellFormed (c : Conversion) : Bool :=
  Keyword.canBeRead c.source &&
    c.arms.all fun arm => Keyword.canBeMember arm.case && arm.body.attempts.all Attempt.isWellFormed

end Conversion

namespace Bridge

def isWellFormed (b : Bridge) : Bool := b.container.all Keyword.canBeRead && b.conversions.all Conversion.isWellFormed

end Bridge

/-- Whether every name of a module stands where names of its kind can stand. -/
def Module.isWellFormed (m : Module) : Bool :=
  m.imports.all Import.isWellFormed && m.unions.all UnionClass.isWellFormed && m.bridges.all Bridge.isWellFormed

end UnionBridge
