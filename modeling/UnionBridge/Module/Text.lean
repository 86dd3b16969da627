import UnionBridge.Module.Basic

/-! The text of a generated module, line by line. -/
namespace UnionBridge

/-- One line, with the number of blocks it stands in. -/
structure Line where
  depth : Nat
  text : String
  deriving DecidableEq, Repr

namespace Line

def blank : Line := ⟨0, ""⟩

def at0 (text : String) : Line := ⟨0, text⟩

/-- Four blanks for each block; a line without text has none. -/
def render (l : Line) : String :=
  if l.text = "" then "" else "".pushn ' ' (4 * l.depth) ++ l.text

/-- The same line one block further in. -/
def nest (l : Line) : Line := if l.text = "" then l else { l with depth := l.depth + 1 }

/-- A line that opens a block, and the block. -/
def block (opening : String) (body : List Line) : List Line := at0 opening :: body.map nest

/-- Text between three quotation marks on either side. -/
def docstring (text : String) : Line := at0 ("\"\"\"" ++ text ++ "\"\"\"")

end Line

/-- Text between two quotation marks. -/
def inQuotes (text : String) : String := "\"" ++ text ++ "\""

def commaList (items : List String) : String := ", ".intercalate items

/-- Two blank lines, as before every definition. -/
def gap : List Line := [.blank, .blank]

namespace Import

def nameText (n : String × Option String) : String :=
  match n with
  | (name, some newName) => s!"{name} as {newName}"
  | (name, none) => name

def text (i : Import) : String :=
  match i.imported with
  | .whole (some newName) => s!"import {i.module} as {newName}"
  | .whole none => s!"import {i.module}"
  | .names first more => s!"from {i.module} import " ++ commaList ((first :: more).map nameText)

end Import

namespace CaseClass

def lines (c : CaseClass) : List Line :=
  gap ++ [.at0 "@dataclass(frozen=True)"] ++
    Line.block s!"class {c.name}({c.union}):"
      (if c.fields.isEmpty then [.at0 "pass"] else c.fields.map fun (attr, type) => .at0 s!"{attr}: {type}")

/-- Makes the class a member of its union. -/
def attachLine (c : CaseClass) : Line :=
  .at0 (s!"_rt.attach_variant({c.union}, {c.name}, " ++ inQuotes c.case ++ ")")

end CaseClass

namespace UnionClass

def caseList (u : UnionClass) : String :=
  if u.cases.isEmpty then "no variants" else commaList (u.cases.map (·.case))

def docText (u : UnionClass) : String := s!"Union {u.name}: {u.caseList}."

def lines (u : UnionClass) : List Line :=
  gap ++
    Line.block s!"class {u.name}:"
      [.docstring u.docText, .blank, .at0 "__slots__ = ()"] ++
    u.cases.flatMap CaseClass.lines ++
    (if u.cases.isEmpty then [] else gap) ++
    u.cases.map CaseClass.attachLine

end UnionClass

namespace Attempt

variable (container : Option DottedName)

/-- The conversion of a field where it has to succeed. -/
def convertLine (s : FieldStep) : Line :=
  .at0 <|
    match container with
    | some c =>
      s!"{s.valueSlot container}, {s.effectsSlot} = " ++
        s!"_registry.into_effects(src.{s.attr}, {s.type}, {c}).into_value_and_effects()"
    | none => s!"{s.slot} = _registry.into(src.{s.attr}, {s.type})"

/-- The conversion of a field where it may fail. -/
def tryLine (s : FieldStep) : Line :=
  .at0 <|
    match container with
    | some c => s!"{s.slot} = _registry.try_into_effects(src.{s.attr}, {s.type}, {c})"
    | none => s!"{s.slot} = _registry.try_into(src.{s.attr}, {s.type})"

/-- Taking a container apart once every attempt of a candidate has succeeded. -/
def splitLine (s : FieldStep) : Line :=
  .at0 s!"{s.valueSlot container}, {s.effectsSlot} = {s.slot}.into_value_and_effects()"

def argument (a : Attempt) (s : FieldStep) : String :=
  match a.passing with
  | .byKeyword => s!"{s.attr}={s.valueSlot container}"
  | .byPosition => s.valueSlot container

def construction (a : Attempt) : String :=
  s!"{a.constructor}(" ++ commaList (a.steps.map (a.argument container)) ++ ")"

def returnLines (a : Attempt) : List Line :=
  match container with
  | none => [.at0 ("return " ++ a.construction container)]
  | some c =>
    let effects := commaList (a.steps.map fun s => s!"*{s.effectsSlot}")
    [.at0 ("value = " ++ a.construction container), .at0 (s!"return {c}.compose_from(value, [" ++ effects ++ "])")]

/-- The lines of a candidate that is taken. -/
def directLines (a : Attempt) : List Line := a.steps.map (convertLine container) ++ a.returnLines container

/-- The lines of a candidate that is tried. -/
def tryLines (a : Attempt) : List Line :=
  Line.block "try:" (a.steps.map (tryLine container)) ++
    Line.block "except _rt.ConversionFailed:" [.at0 "pass"] ++
    Line.block "else:"
      ((if container.isSome then a.steps.map (splitLine container) else []) ++ a.returnLines container)

end Attempt

namespace Conversion

def exhaustedLine (c : Conversion) (case : String) (attempts : List Attempt) : Line :=
  let tried := commaList (attempts.map fun a => inQuotes a.label)
  .at0 ("raise _rt.ExhaustedCandidatesError(src, " ++ inQuotes c.dest ++ ", " ++ inQuotes s!"{c.source}.{case}" ++
    ", (" ++ tried ++ ",))")

def armLines (c : Conversion) (arm : Arm) : List Line :=
  Line.block s!"if isinstance(src, {c.source}.{arm.case}):" <|
    match arm.body with
    | .direct a => a.directLines c.container
    | .firstFit attempts => attempts.flatMap (·.tryLines c.container) ++ [c.exhaustedLine arm.case attempts]

/-- The type of the results as the docstring calls it. -/
def resultText (c : Conversion) : String :=
  match c.container with
  | some container => s!"{container}[{c.dest}]"
  | none => c.dest

def docText (c : Conversion) : String := s!"Convert a {c.source} value into {c.resultText}."

def lines (c : Conversion) : List Line :=
  gap ++
    Line.block s!"def {c.name}(src):"
      ([.docstring c.docText] ++
        c.arms.flatMap c.armLines ++
        [.at0 ("raise _rt.not_a_variant(src, " ++ inQuotes c.source.text ++ ")")])

end Conversion

namespace Dispatcher

def docText (d : Dispatcher) : String := s!"Convert a value of any source union of {d.dest}."

def lines (d : Dispatcher) : List Line :=
  gap ++
    Line.block s!"def {d.name}(value):"
      ([.docstring d.docText] ++
        d.routes.flatMap (fun (source, function) =>
          Line.block s!"if isinstance(value, {source}):" [.at0 s!"return {function}(value)"]) ++
        [.at0 ("raise _rt.not_a_variant(value, " ++ inQuotes d.sourcesText ++ ")")]) ++
    gap ++ [.at0 s!"{d.dest}.from_source = staticmethod({d.name})"]

end Dispatcher

namespace Bridge

def lines (b : Bridge) : List Line :=
  (match b.container with
    | some c => gap ++ [.at0 s!"_rt.require_effect_container({c})"]
    | none => []) ++
    b.conversions.flatMap Conversion.lines ++ b.dispatcher.lines

end Bridge

namespace Module

def registrarDoc : String := "Register the conversions of this module as field converters on `registry`."

def registrationLines (m : Module) : List Line :=
  gap ++
    Line.block s!"def {registrar}(registry):"
      ([.docstring registrarDoc] ++
        (if m.registrations.isEmpty then [.at0 "pass"]
          else m.registrations.map fun r => .at0 s!"registry.register({r.source}, {r.dest}, {r.function})")) ++
    gap ++ [.at0 s!"{registrar}(_registry)"]

def importLines (m : Module) : List Line :=
  if m.imports.isEmpty then [] else .blank :: m.imports.map fun i => .at0 i.text

def exportLines (m : Module) : List Line :=
  gap ++ Line.block "__all__ = [" (m.exported.map fun name => .at0 (inQuotes name ++ ",")) ++ [.at0 "]"]

def lines (m : Module) : List Line :=
  [.at0 m.headerText, .docstring m.docstring, .blank,
    .at0 "from __future__ import annotations", .blank,
    .at0 "from dataclasses import dataclass", .blank,
    .at0 "import casemap.runtime as _rt"] ++
    m.importLines ++ [.blank, .at0 "_registry = _rt.default_registry"] ++
    m.unions.flatMap UnionClass.lines ++ m.bridges.flatMap Bridge.lines ++ m.registrationLines ++ m.exportLines

def text (m : Module) : String := "\n".intercalate (m.lines.map Line.render) ++ "\n"

/-- The text of the module up to its docstring. -/
def textBefore (m : Module) : String := m.headerText ++ "\n\"\"\""

/-- The text of the module from the end of its docstring on. -/
def textAfter (m : Module) : String := "\"\"\"\n" ++ "\n".intercalate ((m.lines.drop 2).map Line.render) ++ "\n"

end Module

end UnionBridge
