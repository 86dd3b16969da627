import UnionBridge.Schema.Basic
import UnionBridge.Schema.Tree

/-! The schema that a parse tree stands for. -/
namespace UnionBridge

namespace Tree

/-- The place of a node is that of its first token. -/
def place? (t : Tree) : Option Place := t.first?.map fun token => ⟨token.start.line, token.start.column⟩

def dottedName? (t : Tree) : Option DottedName :=
  match t.names with
  | [] => none
  | head :: rest => some ⟨head, rest⟩

/-- The dotted name below a node. -/
def path? (t : Tree) : Option DottedName := (t.node? .dottedName).bind dottedName?

def argument? (t : Tree) : Option Argument := do
  let place ← t.place?
  match ← (t.nodes .dottedName).mapM dottedName? with
  | [value] => some ⟨none, value, place⟩
  | [key, value] => some ⟨some key, value, place⟩
  | _ => none

def directive? (t : Tree) : Option Directive := do
  some ⟨← t.names.head?, ← (t.nodes .argument).mapM argument?, ← t.place?⟩

def typeRef? (t : Tree) : Option DottedName := t.path?

def namedField? (t : Tree) : Option (String × DottedName) := do
  some (← t.names.head?, ← (t.node? .typeRef).bind typeRef?)

def body? (t : Tree) : Option Body :=
  match t.node? .positionalFields, t.node? .namedFields with
  | some fields, _ => ((fields.nodes .typeRef).mapM typeRef?).map .positional
  | none, some fields => ((fields.nodes .namedField).mapM namedField?).map .named
  | none, none => some .unit

def variant? (t : Tree) : Option Variant := do
  some ⟨← t.names.head?, ← t.body?, ← (t.nodes .directive).mapM directive?, ← t.place?⟩

def union? (t : Tree) : Option Union := do
  some ⟨← t.names.head?, ← (t.nodes .variant).mapM variant?, ← (t.nodes .directive).mapM directive?,
    ← t.place?⟩

def importName? (t : Tree) : Option (String × Option String) :=
  match t.names with
  | [] => none
  | name :: rest => some (name, rest.head?)

def wholeImport? (t : Tree) : Option Import := do
  some ⟨← t.path?, .whole t.names.head?, ← t.place?⟩

def namesImport? (t : Tree) : Option Import := do
  match ← (t.nodes .importName).mapM importName? with
  | [] => none
  | first :: more => some ⟨← t.path?, .names first more, ← t.place?⟩

/-- An import statement of either form; other items have no import in them. -/
def import? (t : Tree) : Option Import :=
  if t.is .wholeImport then t.wholeImport? else t.namesImport?

def isImport (t : Tree) : Bool := t.is .wholeImport || t.is .namesImport

end Tree

namespace Schema

def ofTree? (t : Tree) : Option Schema := do
  let imports ← (t.children.filter Tree.isImport).mapM Tree.import?
  let unions ← (t.nodes .union).mapM Tree.union?
  some ⟨imports, unions⟩

end Schema

end UnionBridge
