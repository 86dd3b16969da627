import UnionBridge.CommandLine.Report

/-! A working directory in memory, and how a report changes it. -/
namespace UnionBridge

/-- A directory with everything below it; names are lists of path parts. -/
structure Disk where
  files : List (List String × List UInt8)
  directories : List (List String)
  deriving DecidableEq, Repr

namespace Disk

/-- What a path leads to. The directories above the working directory are known to exist, but not what they hold. -/
inductive Entry
  | file (name : List String) (bytes : List UInt8)
  | directory (name : List String)
  /-- Nothing yet, in a directory that exists. -/
  | vacant (name : List String)
  /-- A directory of the system. -/
  | outside
  /-- A device that reads as empty and forgets what is written. -/
  | sink
  | fault (f : FileFault)

def isDirectory (d : Disk) (name : List String) : Bool :=
  name.isEmpty || d.directories.any name.isPrefixOf ||
    d.files.any fun f => name.isPrefixOf f.1 && f.1.length > name.length

def file? (d : Disk) (name : List String) : Option (List UInt8) :=
  (d.files.find? fun f => f.1 = name).map Prod.snd

/-- The longest name, in bytes, that a file can have. -/
def nameLimit : Nat := 255

/-- The longest path, in bytes, that the system follows. -/
def pathLimit : Nat := 4095

/-- Directories that every system has, from the root. -/
def systemDirectories : List (List String) :=
  [[], ["bin"], ["dev"], ["etc"], ["home"], ["lib"], ["proc"], ["root"], ["sys"], ["tmp"], ["usr"], ["var"]]

/-- Follows the parts of a path from a directory on. -/
def walk (d : Disk) (here : List String) : List String → Entry
  | [] => .directory here
  | ".." :: rest =>
    if here.isEmpty then (if rest.all (· = "..") then .outside else .fault .missing) else walk d here.dropLast rest
  | part :: rest =>
    let name := here ++ [part]
    if part.utf8ByteSize > nameLimit then .fault .nameTooLong
    else
      match d.file? name with
      | some bytes => if rest.isEmpty then .file name bytes else .fault .notDirectory
      | none =>
        if d.isDirectory name then walk d name rest
        else if rest.isEmpty then .vacant name
        else .fault .missing

/-- What a path leads to from the working directory, which is itself known by a path. -/
def entry (d : Disk) (directory p : Path) : Entry :=
  let p := p.relativeTo directory
  if p.text.utf8ByteSize > pathLimit then .fault .nameTooLong
  else if p.isAbsolute then
    if systemDirectories.contains p.parts then .outside
    else if p.parts = ["dev", "null"] then .sink
    else .fault .missing
  else d.walk [] p.parts

def hasNull (p : Path) : Bool := p.text.toList.contains '\x00'

/-- Reads a file as text. -/
def read (d : Disk) (directory p : Path) : Except ReadFault String :=
  if hasNull p then .error .badName
  else
    match d.entry directory p with
    | .file _ bytes =>
      match Text.decodeUtf8 bytes with
      | .ok cs => .ok (String.ofList (Text.unifyLineEnds cs))
      | .error e => .error (.encoding e)
    | .directory _ | .outside => .error (.file .isDirectory)
    | .vacant _ => .error (.file .missing)
    | .sink => .ok ""
    | .fault f => .error (.file f)

def store (d : Disk) (name : List String) (bytes : List UInt8) : Disk :=
  if (d.file? name).isSome then
    { d with files := d.files.map fun f => if f.1 = name then (name, bytes) else f }
  else { d with files := d.files ++ [(name, bytes)] }

/-- Writes a file. It is made empty before the text is encoded. -/
def write (d : Disk) (directory p : Path) (text : Raw) : Disk × Option WriteFault :=
  if hasNull p then (d, some .badName)
  else
    match d.entry directory p, text.encode with
    | .file name _, .ok bytes | .vacant name, .ok bytes => (d.store name bytes, none)
    | .file name _, .error e | .vacant name, .error e => (d.store name [], some (.encoding e))
    | .directory _, _ | .outside, _ => (d, some (.file .isDirectory))
    | .sink, .ok _ => (d, none)
    | .sink, .error e => (d, some (.encoding e))
    | .fault f, _ => (d, some (.file f))

/-- The files that another disk does not have, or has with other content, by path. -/
def changedSince (d before : Disk) : List (String × List UInt8) :=
  ((d.files.filter fun f => before.file? f.1 ≠ some f.2).map fun f => ("/".intercalate f.1, f.2)).mergeSort
    fun a b => a.1 ≤ b.1

end Disk

/-- A report that was carried out as far as the system let it. -/
structure Carried where
  out : Raw := []
  err : Raw := []
  disk : Disk
  /-- The write that was refused. -/
  refused : Option (Path × WriteFault) := none

namespace Carried

/-- Carries out one effect, unless an earlier one was refused. -/
def step (directory : Path) (c : Carried) (e : Effect) : Carried :=
  if c.refused.isSome then c
  else
    match e with
    | .out text => { c with out := c.out ++ text }
    | .err text => { c with err := c.err ++ text }
    | .write p text =>
      let (disk, fault) := c.disk.write directory p text
      { c with disk, refused := fault.map fun f => (p, f) }

def ofEffects (disk : Disk) (directory : Path) (effects : List Effect) : Carried :=
  effects.foldl (step directory) { disk }

end Carried

end UnionBridge
