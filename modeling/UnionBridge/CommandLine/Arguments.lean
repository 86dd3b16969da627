import UnionBridge.CommandLine.Path
import UnionBridge.Text.Digit
import UnionBridge.Text.Raw

/-! Command-line arguments. Options may be abbreviated to unique prefixes, and options of one letter may be run together
and be followed at once by their value. -/
namespace UnionBridge

structure Arguments where
  source : Path
  output : Option Path := none
  table : Option Path := none
  dump : Bool := false
  docstring : Option Raw := none
  json : Bool := false
  verbose : Bool := false
  deriving DecidableEq, Repr

inductive Switch
  | help
  | output
  | table
  | dump
  | docstring
  | json
  | verbose
  deriving DecidableEq, Repr

namespace Switch

def all : List Switch := [.help, .output, .table, .dump, .docstring, .json, .verbose]

/-- The spellings of an option, short ones first. -/
def spellings : Switch → List String
  | .help => ["-h", "--help"]
  | .output => ["-o", "--output"]
  | .table => ["--emit-table"]
  | .dump => ["--dump"]
  | .docstring => ["--docstring"]
  | .json => ["--json"]
  | .verbose => ["-v", "--verbose"]

def takesValue : Switch → Bool
  | .output | .table | .docstring => true
  | _ => false

def label (s : Switch) : String := "/".intercalate s.spellings

/-- Every spelling with its option. -/
def spelled : List (String × Switch) := all.flatMap fun s => s.spellings.map fun w => (w, s)

def ofSpelling? (w : Raw) : Option Switch := (spelled.find? fun e => Raw.ofString e.1 = w).map Prod.snd

end Switch

namespace Arguments

/-- What an argument is, before it is known whether it fits. -/
inductive Word
  | plain (text : Raw)
  /-- The first pair of dashes, after which all arguments are plain. -/
  | dashes
  /-- An option, with the value that is written together with it, if there is one. -/
  | switch (s : Switch) (spelling : Raw) (attached : Option Raw)
  | unknown (text : Raw)
  deriving DecidableEq, Repr

/-- Why arguments are refused. -/
inductive Fault
  | ambiguous (text : Raw) (matching : List String)
  | needsValue (s : Switch)
  | valueIgnored (s : Switch) (value : Raw)
  | sourceMissing
  | unrecognized (texts : List Raw)
  deriving DecidableEq, Repr

def Fault.message : Fault → Raw
  | .ambiguous text matching =>
    Raw.ofString "ambiguous option: " ++ text ++ Raw.ofString (" could match " ++ ", ".intercalate matching)
  | .needsValue s => Raw.ofString s!"argument {s.label}: expected one argument"
  | .valueIgnored s value => Raw.ofString s!"argument {s.label}: ignored explicit argument " ++ value.quoted
  | .sourceMissing => Raw.ofString "the following arguments are required: source"
  | .unrecognized texts => Raw.ofString "unrecognized arguments: " ++ [Glyph.char ' '].intercalate texts

/-- The sign that options begin with. -/
def dash : Glyph := .char '-'

def doubleDash : Raw := [dash, dash]

/-- Drops a line end that stands last. -/
def dropLineEnd (cs : Raw) : Raw := if cs.getLast? = some (.char '\n') then cs.dropLast else cs

def isDigit (g : Glyph) : Bool := g.char?.any Text.isDigit

/-- Whether a text, up to a line end, reads as a negative number, whole or with a point. -/
def isNegativeNumber (cs : Raw) : Bool :=
  match dropLineEnd cs with
  | .char '-' :: rest =>
    let whole := rest.takeWhile isDigit
    match rest.dropWhile isDigit with
    | [] => !whole.isEmpty
    | .char '.' :: fraction => !fraction.isEmpty && fraction.all isDigit
    | _ => false
  | _ => false

/-- Splits at the first equals sign. -/
def splitEquals (cs : Raw) : Raw × Option Raw :=
  match cs.dropWhile (· ≠ .char '=') with
  | [] => (cs, none)
  | _ :: value => (cs.takeWhile (· ≠ .char '='), some value)

/-- The options that a text beginning with a dash may abbreviate. -/
def readings (text : Raw) : List (Switch × String × Option Raw) :=
  if doubleDash.isPrefixOf text then
    let (stem, attached) := splitEquals text
    Switch.spelled.filterMap fun (w, s) => if stem.isPrefixOf (Raw.ofString w) then some (s, w, attached) else none
  else
    let short := text.take 2
    Switch.spelled.filterMap fun (w, s) =>
      if Raw.ofString w = short then some (s, w, some (text.drop 2))
      else if text.isPrefixOf (Raw.ofString w) then some (s, w, none)
      else none

/-- What an argument before any pair of dashes is. -/
def classify (text : Raw) : Except Fault Word :=
  if text.head? ≠ some dash then .ok (.plain text)
  else
    match Switch.ofSpelling? text with
    | some s => .ok (.switch s text none)
    | none =>
      if text = [dash] then .ok (.plain text)
      else
        let (stem, attached) := splitEquals text
        match attached.bind fun _ => Switch.ofSpelling? stem with
        | some s => .ok (.switch s stem attached)
        | none =>
          match readings text with
          | [(s, w, attached)] => .ok (.switch s (Raw.ofString w) attached)
          | [] =>
            if isNegativeNumber text || text.contains (.char ' ') then .ok (.plain text)
            else .ok (.unknown text)
          | many => .error (.ambiguous text (many.map fun r => r.2.1))

def classifyAll : List Raw → Except Fault (List Word)
  | [] => .ok []
  | text :: rest =>
    if text = doubleDash then .ok (.dashes :: rest.map .plain)
    else do return (← classify text) :: (← classifyAll rest)

/-- The settings of the options, as they stand on the command line. -/
structure Settings where
  output : Option Raw := none
  table : Option Raw := none
  dump : Bool := false
  docstring : Option Raw := none
  json : Bool := false
  verbose : Bool := false
  deriving DecidableEq, Repr

/-- What has been read so far. -/
structure Progress where
  source : Option Raw := none
  settings : Settings := {}
  extras : List Raw := []
  helpAsked : Bool := false

namespace Progress

def addExtra (p : Progress) (text : Raw) : Progress := { p with extras := p.extras ++ [text] }

/-- Takes an option with its value, if it has one; the last of several holds, and a pair of dashes stands for no value.
Nothing counts after help was asked for. -/
def take (p : Progress) (s : Switch) (value : Raw) : Progress :=
  let given := if value = doubleDash then none else some value
  if p.helpAsked then p
  else
    match s with
    | .help => { p with helpAsked := true }
    | .output => { p with settings.output := given }
    | .table => { p with settings.table := given }
    | .dump => { p with settings.dump := true }
    | .docstring => { p with settings.docstring := given }
    | .json => { p with settings.json := true }
    | .verbose => { p with settings.verbose := true }

end Progress

/-- Takes an option with something attached to it. What follows a one-letter option that takes no value are more such
options; the last of them may be left over, to be taken with the next argument. -/
def takeAttached (p : Progress) (s : Switch) (spelling : Raw) : Raw → Except Fault (Progress × Option Switch)
  | [] => if s.takesValue then .ok (p.take s [], none) else .error (.valueIgnored s [])
  | g :: rest =>
    let value := g :: rest
    let next := [dash, g]
    if s.takesValue then .ok (p.take s value, none)
    else
      match if doubleDash.isPrefixOf spelling then none else Switch.ofSpelling? next with
      | none => .error (.valueIgnored s value)
      | some t => if rest.isEmpty then .ok (p.take s [], some t) else takeAttached (p.take s []) t next rest

/-- Reads words from left to right. The first plain word is the source, and dashes before it or next to it are
dropped. -/
def readWords (p : Progress) (nextToSource : Bool) : List Word → Except Fault Progress
  | [] => .ok p
  | word :: rest =>
    if p.helpAsked then .ok p
    else
      match word with
      | .unknown text => readWords (p.addExtra text) false rest
      | .plain text =>
        if p.source.isSome then readWords (p.addExtra text) false rest
        else readWords { p with source := some text } true rest
      | .dashes =>
        if p.source.isSome && !nextToSource then readWords (p.addExtra doubleDash) false rest
        else readWords p false rest
      | .switch s spelling attached => do
        let (p, left) ← match attached with
          | some value => takeAttached p s spelling value
          | none => pure (p, some s)
        match left with
        | none => readWords p false rest
        | some s =>
          if s.takesValue then
            match rest with
            | .plain value :: more => readWords (p.take s value) false more
            | _ => .error (.needsValue s)
          else readWords (p.take s []) false rest
  termination_by structural words => words

/-- What a command line asks for. -/
inductive Request
  | help
  | compile (a : Arguments)
  /-- A file whose name is no text. What becomes of it is left open here. -/
  | unnamed
  deriving DecidableEq, Repr

def path? (name : Raw) : Option Path := name.text?.map Path.ofString

/-- Arguments whose files have texts for names. -/
def ofSettings? (source : Raw) (s : Settings) : Option Arguments := do
  let named (name : Option Raw) : Option (Option Path) := name.mapM path?
  return ⟨← path? source, ← named s.output, ← named s.table, s.dump, s.docstring, s.json, s.verbose⟩

def parse (texts : List Raw) : Except Fault Request := do
  let p ← readWords {} false (← classifyAll texts)
  if p.helpAsked then return .help
  match p.source with
  | none => .error .sourceMissing
  | some source =>
    if p.extras.isEmpty then return (ofSettings? source p.settings).elim .unnamed .compile
    else .error (.unrecognized p.extras)

end Arguments

end UnionBridge
