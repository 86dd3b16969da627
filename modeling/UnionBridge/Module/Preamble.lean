import UnionBridge.Module.Feature
import UnionBridge.Module.Keyword
import UnionBridge.Module.Preamble.Token
import UnionBridge.Module.Text

/-! The preamble of a module: what its first lines come to as a program. They hold text that was supplied from outside;
more than a docstring and demands for features of the language cannot stand there. -/
namespace UnionBridge

structure Preamble where
  /-- The docstring, if one comes first. -/
  docstring : Option String
  /-- The demands for features. -/
  demands : List Import
  deriving DecidableEq, Repr

namespace Preamble

/-- The module that offers the features. -/
def featureModule : String := "__future__"

/-- A demand for features under some names. -/
def demand (first : String × Option String) (more : List (String × Option String)) : Import :=
  ⟨.ofName featureModule, .names first more, ⟨0, 0⟩⟩

/-- Takes parentheses away that enclose all there is. -/
def unwrap (ts : List Token) : List Token :=
  let opening := ts.takeWhile (· = .sign '(')
  let inside := (ts.dropWhile (· = .sign '(')).takeWhile (· ≠ .sign ')')
  if ts = opening ++ inside ++ opening.map fun _ => .sign ')' then inside else ts

/-- A docstring: strings that stand side by side, perhaps in parentheses. -/
def docstring? (ts : List Token) : Option String :=
  let texts := (unwrap ts).mapM fun
    | .text value => some value
    | _ => none
  texts.bind fun texts => if texts.isEmpty then none else some (String.ofList texts.flatten)

/-- One feature, perhaps under another name. -/
def feature? : List Token → Option (String × Option String)
  | [.word name] => if Feature.names.contains name then some (name, none) else none
  | [.word name, .word "as", .word newName] =>
    if Feature.names.contains name && Keyword.canBeBound newName && !newName.front.isDigit then
      some (name, some newName)
    else none
  | _ => none

/-- The features of a demand. A comma can stand behind the last one only inside parentheses. -/
def features? (ts : List Token) : Option Import := do
  let items ← match ts with
    | .sign '(' :: rest =>
      if rest.getLast? = some (.sign ')') then
        let inside := rest.dropLast
        some (if inside.getLast? = some (.sign ',') then inside.dropLast else inside)
      else none
    | ts => some ts
  match ← (items.splitOn (.sign ',')).mapM feature? with
  | [] => none
  | first :: more => some (demand first more)

def demand? : List Token → Option Import
  | .word "from" :: .word name :: .word "import" :: rest => if name = featureModule then features? rest else none
  | _ => none

/-- The statements of a line. A semicolon can stand behind the last one. -/
def lineStatements (line : List Token) : List (List Token) :=
  (if line.getLast? = some (.sign ';') then line.dropLast else line).splitOn (.sign ';')

def statements (ts : List Token) : List (List Token) :=
  ((ts.splitOn .lineEnd).filter (!·.isEmpty)).flatMap lineStatements

def ofStatements? (ss : List (List Token)) : Option Preamble :=
  match ss with
  | [] => some ⟨none, []⟩
  | s :: rest =>
    match docstring? s with
    | some text => (rest.mapM demand?).map (⟨some text, ·⟩)
    | none => (ss.mapM demand?).map (⟨none, ·⟩)

def ofText? (named : CharacterNames) (text : String) : Option Preamble :=
  let cs := unifyLines text.toList
  (tokens? named (3 * cs.length + 3) 0 true cs).bind fun ts => ofStatements? (statements ts)

end Preamble

namespace Module

/-- The lines before the module's own imports. -/
def preambleText (m : Module) : String := s!"{m.headerText}\n" ++ (Line.docstring m.docstring).text

/-- The preamble of a module that is well formed as a program. -/
def preamble? (named : CharacterNames) (m : Module) : Option Preamble :=
  if m.isWellFormed then Preamble.ofText? named m.preambleText else none

end Module

end UnionBridge
