import UnionBridge.Execution.Function

/-! Imports of a module that is being executed. -/
namespace UnionBridge

/-- Part of loading. What was done before a failure stays done. -/
abbrev Loading := ExceptT Failure (StateM World)

namespace Loading

def bind (home : Nat) (name : String) (v : Value) : Loading Unit := modify fun w => w.setGlobal home name v

def global (home : Nat) (name : String) : Loading Value := do (← get).global home name

def globalPath (home : Nat) (d : DottedName) : Loading Value := do (← get).globalPath home d

end Loading

/-- What a call is given that registers a converter by default: a key, and a function. -/
def converting? (f : Value) (s : Supplied) : Option (ConverterKey × Value) :=
  match f, s with
  | .function (.builtin .converter), ⟨[_, _, .none], []⟩ => none
  | .function (.builtin .converter), ⟨[source, target, fn], []⟩ => some (⟨source, target, false⟩, fn)
  | _, _ => none

/-- What a module registers by a call while it is executed, and what comes of the call. -/
def World.calling (w : World) (f : Value) (s : Supplied) : List Addition × Except Failure Value :=
  match converting? f s with
  | some (k, fn) =>
    match k.require with
    | .error e => ([], .error e)
    | .ok _ => ([(Library.registryName, k, .callable fn)], .ok fn)
  | none => (if f.isOutside then w.outside.registers f s else [], w.call f s)

namespace Loading

def call (f : Value) (s : Supplied) : Loading Value := do
  let w ← get
  set (w.addAll (w.calling f s).1)
  liftM (w.calling f s).2

/-- Puts a function into a registry. -/
def add (registry : String) (k : ConverterKey) (f : Value) : Loading Unit := do
  k.require
  modify fun w => w.register registry k (.callable f)

end Loading

namespace World

variable (w : World)

def dotted (names : List String) : String := ".".intercalate names

def notFound {α : Type} (message : String) : Except Failure α := .error (.error .moduleNotFound message)

def isPackage : ModuleRef → Bool
  | .library path => Library.packages.contains path
  | .loaded _ => false

/-- The module under a path, which is given from its end. A module is looked for inside another only if it is not known
under its whole path. -/
def locateReversed : List String → Except Failure ModuleRef
  | [] => notFound "Empty module name"
  | last :: before =>
    let path := dotted (last :: before).reverse
    match w.importable.get? path with
    | some m => .ok m
    | none =>
      match before with
      | [] => notFound s!"No module named '{path}'"
      | _ => do
        let parent ← locateReversed before
        if isPackage parent then notFound s!"No module named '{path}'"
        else notFound s!"No module named '{path}'; '{dotted before.reverse}' is not a package"

def locate (d : DottedName) : Except Failure ModuleRef := w.locateReversed d.parts.reverse

/-- A name out of a value: an attribute, or else a module that is known under the longer path. -/
def take (v : Value) (name : String) : Except Failure Value :=
  let path := (w.member? v "__name__").bind Value.asText?
  let inner := path.bind fun p => w.importable.get? s!"{p}.{name}"
  match w.member? v name, inner with
  | some a, _ => .ok a
  | none, some inner => .ok (.module inner)
  | none, none =>
    let from_ := Text.quoted (path.getD "<unknown module name>")
    let file := match v with
      | .module m => w.moduleFile? m
      | _ => none
    let origin := file.getD "unknown location"
    .error (.error .importError s!"cannot import name '{name}' from {from_} ({origin})")

/-- Runs a module that was not imported so far. -/
def run (path : String) : World :=
  { w.addAll ((w.dormant.get? path).getD []) with dormant := w.dormant.erase path }

def runAll (paths : List String) : World := paths.foldl run w

/-- The modules that looking for a path runs, given from its end: that one and those around it, outermost first. -/
def runsFor : List String → List String
  | [] => []
  | last :: before =>
    let path := dotted (last :: before).reverse
    if w.dormant.contains path then runsFor before ++ [path]
    else if w.importable.contains path then []
    else runsFor before

end World

namespace Import

/-- The modules that an import runs: those that it looks for, and those among its names. -/
def runs (i : Import) (w : World) : List String :=
  w.runsFor i.module.parts.reverse ++
    match i.imported with
    | .whole _ => w.runsFor [i.module.head]
    | .names first more =>
      let path := World.dotted i.module.parts
      let isMissing (name : String) : Bool :=
        ((w.importable.get? path).bind fun m => w.member? (.module m) name).isNone
      ((first :: more).map Prod.fst).filterMap fun name =>
        let inner := s!"{path}.{name}"
        if w.dormant.contains inner && isMissing name then some inner else none

/-- Binds what an import names. Without another name, importing a path binds its first part. -/
def bindNames (home : Nat) (i : Import) : Loading Unit := do
  let w ← get
  let m ← w.locate i.module
  match i.imported with
  | .names first more =>
    (first :: more).forM fun (name, newName) => do
      Loading.bind home (newName.getD name) (← (← get).take (.module m) name)
  | .whole newName =>
    let top ← w.locate (.ofName i.module.head)
    match newName with
    | none => Loading.bind home i.module.head (.module top)
    | some newName => do
      let v : Value ← liftM (i.module.rest.foldlM w.take (.module top))
      Loading.bind home newName v

/-- Runs the modules that an import finds and that were not imported so far, and binds what it names. -/
def execute (home : Nat) (i : Import) : Loading Unit := do
  modify fun w => w.runAll (i.runs w)
  i.bindNames home

end Import

end UnionBridge
