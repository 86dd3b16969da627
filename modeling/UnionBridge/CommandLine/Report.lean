import UnionBridge.CommandLine.Arguments
import UnionBridge.Compile.Log
import UnionBridge.Options
import UnionBridge.Text.Json
import UnionBridge.Text.Quoted
import UnionBridge.Text.Utf8

/-! What a command line does, as a list of effects: texts for the two outputs and files to write, in order. -/
namespace UnionBridge

/-- Why the system refuses a file. -/
inductive FileFault
  | missing
  | notDirectory
  | isDirectory
  | nameTooLong
  deriving DecidableEq, Repr

namespace FileFault

def number : FileFault → Nat
  | .missing => 2
  | .notDirectory => 20
  | .isDirectory => 21
  | .nameTooLong => 36

def text : FileFault → String
  | .missing => "No such file or directory"
  | .notDirectory => "Not a directory"
  | .isDirectory => "Is a directory"
  | .nameTooLong => "File name too long"

def message (f : FileFault) (p : Path) : String := s!"[Errno {f.number}] {f.text}: " ++ Text.quoted p.text

end FileFault

/-- Why a schema file cannot be had. -/
inductive ReadFault
  | file (f : FileFault)
  | encoding (e : Text.Utf8Error)
  /-- The name holds a character that no file name can hold. -/
  | badName
  deriving DecidableEq, Repr

/-- Why a file cannot be written. -/
inductive WriteFault
  | file (f : FileFault)
  | badName
  /-- The file is there, but what it should hold has no encoding. -/
  | encoding (e : Raw.EncodingError)
  deriving DecidableEq, Repr

namespace Text.Utf8Error

def message (e : Utf8Error) : String :=
  match e.bytes with
  | [b] => s!"'utf-8' codec can't decode byte 0x{hex 2 b.toNat} in position {e.position}: {e.reason}"
  | bytes =>
    let last := e.position + bytes.length - 1
    s!"'utf-8' codec can't decode bytes in position {e.position}-{last}: {e.reason}"

end Text.Utf8Error

inductive Effect
  | out (text : Raw)
  | err (text : Raw)
  | write (p : Path) (text : Raw)
  deriving DecidableEq, Repr

/-- How a command line ends. -/
inductive Ending
  | exit (code : Nat)
  | undecodable (e : Text.Utf8Error)
  | badName
  /-- It is left open what happens. -/
  | unsettled
  deriving DecidableEq, Repr

structure Report where
  effects : List Effect
  ending : Ending
  deriving DecidableEq, Repr

namespace Effect

def outText (s : String) : Effect := .out (Raw.ofString s)

def errText (s : String) : Effect := .err (Raw.ofString s)

end Effect

/-- The code of a schema that was compiled. A docstring that is no text stands in it as it is. -/
def Compiled.codeWith (c : Compiled) (docstring : Option Raw) : Raw :=
  match docstring.filter (·.text?.isNone) with
  | none => Raw.ofString c.code
  | some d => Raw.ofString c.module.textBefore ++ d ++ Raw.ofString c.module.textAfter

namespace Diagnostic

def json (d : Diagnostic) (default : Option String) : Json :=
  .object [("phase", .ofText? d.phase), ("code", .ofText? d.code), ("message", .text d.message),
    ("severity", .text d.severity), ("file", .ofText? (d.file default)), ("line", .ofInt? d.span.line),
    ("column", .ofInt? d.span.column), ("notes", .array (d.notes.map .text))]

/-- The lines for a reader: the diagnostic, and its notes below it. -/
def lines (d : Diagnostic) (default : Option String) : List String :=
  d.format default :: d.notes.map fun n => s!"  note: {n}"

end Diagnostic

namespace Report

/-- The object that describes a run. -/
def summary (exitCode : Int) (diagnostics : List Json) : Effect :=
  .outText ((Json.object [("exit_code", .int exitCode), ("diagnostics", .array diagnostics)]).render ++ "\n")

def log (a : Arguments) (records : List LogRecord) : List Effect :=
  if a.verbose then records.map fun r => .errText (r.text ++ "\n") else []

/-- The report on a schema that cannot be read. -/
def unreadable (a : Arguments) (f : FileFault) : Report :=
  let message := s!"cannot read schema: {f.text}"
  let d : Diagnostic := { message, phase := some "driver", span := { file := some a.source.text } }
  ⟨[if a.json then summary 1 [d.json none] else .errText s!"{a.source}:?:?: error: {message}\n"], .exit 1⟩

/-- The report on a schema with mistakes. -/
def failed (a : Arguments) (e : CompileError) : List Effect :=
  let file := some a.source.text
  if a.json then [summary 1 (e.diagnostics.map (·.json file))]
  else (e.diagnostics.flatMap (·.lines file)).map fun l => .errText (l ++ "\n")

def dumpEffects (a : Arguments) (o : Options) (c : Compiled) : List Effect :=
  match o.dump with
  | none => []
  | some p => .write p (c.codeWith o.docstring) :: log a [⟨.debug, "casemap.pipeline", s!"wrote generated code to {p}"⟩]

def tableEffects (a : Arguments) (c : Compiled) : List Effect :=
  match a.table with
  | none => []
  | some p => [.write p (Raw.ofString (Plan.textOfAll c.plans))]

/-- The generated module goes to a file, or else to the output unless that is to hold JSON. -/
def codeEffects (a : Arguments) (o : Options) (c : Compiled) : List Effect :=
  match a.output with
  | some p => .write p (c.codeWith o.docstring) :: log a [⟨.info, "casemap.casemapc", s!"wrote {p}"⟩]
  | none => if a.json then [] else [.out (c.codeWith o.docstring)]

def succeeded (a : Arguments) (o : Options) (c : Compiled) : List Effect :=
  log a [c.compiledRecord a.source.text] ++ dumpEffects a o c ++ tableEffects a c ++ codeEffects a o c ++
    if a.json then [summary 0 []] else []

/-- The report on a schema text. -/
def onText (a : Arguments) (o : Options) (source : String) : Report :=
  let file := some a.source.text
  let planning := log a (planningRecords source file)
  match compile source file (o.docstring.bind Raw.text?) with
  | .error e => ⟨planning ++ failed a e, .exit 1⟩
  | .ok c => ⟨planning ++ succeeded a o c, .exit 0⟩

/-- The report on a command line that makes sense. -/
def ofArguments (a : Arguments) (o : Options) : Except ReadFault String → Report
  | .ok source => onText a o source
  | .error (.file f) => unreadable a f
  | .error (.encoding e) => ⟨[], .undecodable e⟩
  | .error .badName => ⟨[], .badName⟩

end Report

namespace Arguments

/-- The options of some arguments in an environment. -/
def options (a : Arguments) (directory : Path) (dumpVariable : Option String) : Options :=
  let dump := if a.dump then some (some (directory.child Options.dumpFile)) else none
  Options.ofEnvironment directory dumpVariable dump a.docstring

end Arguments

namespace Report

def programName : String := "casemapc"

/-- The report on a whole command line, with a way to read files. -/
def ofCommandLine (texts : List Raw) (directory : Path) (dumpVariable : Option String)
    (read : Path → Except ReadFault String) : Report :=
  match Arguments.parse texts with
  | .error f => ⟨[.err (Raw.ofString s!"{programName}: error: " ++ f.message ++ Raw.ofString "\n")], .exit 2⟩
  | .ok .help => ⟨[], .exit 0⟩
  | .ok .unnamed => ⟨[], .unsettled⟩
  | .ok (.compile a) => ofArguments a (a.options directory dumpVariable) (read a.source)

end Report

end UnionBridge
