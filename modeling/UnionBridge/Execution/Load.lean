import UnionBridge.Compile
import UnionBridge.Execution.Statement

/-! Loading: compiling a schema and executing the module that comes out. -/
namespace UnionBridge

structure LoadRequest where
  name : String
  source : String
  /-- Names that the module has before it is executed. -/
  names : List (String × Value)
  /-- The registry of the module, in place of the default one. -/
  registry : Option String
  /-- Whether later imports find the module. -/
  register : Bool
  file : Option String
  docstring : Option String
  /-- The characters that can be written by their names. -/
  characterNamed : CharacterNames := fun _ => none

inductive LoadFailure
  | notCompiled (e : CompileError)
  /-- The generated module is not well formed as a program. -/
  | malformed
  | failed (f : Failure)

namespace LoadRequest

/-- The file that the module says it comes from. -/
def origin (r : LoadRequest) : String := (r.file.filter (· ≠ "")).getD s!"<casemap:{r.name}>"

def initialModule (r : LoadRequest) : LoadedModule :=
  ⟨r.name, (Module.initialGlobals r.name r.origin).insertAll r.names⟩

/-- Null characters are refused first: those in the name of the file, then those in the text of the module. -/
def refusal? (r : LoadRequest) (m : Module) : Option Failure :=
  if r.origin.contains '\x00' then some (.error .valueError "embedded null character")
  else if m.preambleText.contains '\x00' then
    some (.error .valueError "source code string cannot contain null bytes")
  else none

/-- The preamble that the execution of a module starts with. -/
def preamble (r : LoadRequest) (m : Module) : Except LoadFailure Preamble :=
  match r.refusal? m, m.preamble? r.characterNamed with
  | some f, _ => .error (.failed f)
  | none, none => .error .malformed
  | none, some p => .ok p

end LoadRequest

namespace World

variable (w : World)

/-- Makes imports find something else under a name, or nothing. -/
def setImportable (name : String) (m : Option ModuleRef) : World :=
  { w with importable := m.elim (w.importable.erase name) fun m => w.importable.insert name m }

/-- Executes a new module. While it runs, imports find it under its name; afterwards only if that was asked for and
nothing failed. -/
def executeNew (r : LoadRequest) (m : Module) (p : Preamble) : World × Except Failure Nat :=
  let previous := w.importable.get? r.name
  let (id, started) := w.addModule r.initialModule
  let visible := started.setImportable r.name (some (.loaded id))
  match (m.execute id p).run.run visible with
  | (.error f, after) => (after.setImportable r.name previous, .error f)
  | (.ok (), after) => (if r.register then after else after.setImportable r.name previous, .ok id)

/-- Gives a module a registry of its own and registers its conversions there. -/
def adopt (id : Nat) (registry : String) : World × Except Failure Unit :=
  let w := w.setGlobal id "_registry" (.registry registry)
  match w.member (.module (.loaded id)) Module.registrar with
  | .error f => (w, .error f)
  | .ok f =>
    let (result, w) := (Loading.register f (.registry registry)).run.run w
    (w, result)

/-- Compiles and executes a schema. -/
def load (r : LoadRequest) : World × Except LoadFailure Nat :=
  match compile r.source r.file r.docstring with
  | .error e => (w, .error (.notCompiled e))
  | .ok compiled =>
    match r.preamble compiled.module with
    | .error e => (w, .error e)
    | .ok p =>
      match w.executeNew r compiled.module p with
      | (w, .error f) => (w, .error (.failed f))
      | (w, .ok id) =>
        match r.registry with
        | none => (w, .ok id)
        | some registry =>
          match w.adopt id registry with
          | (w, .error f) => (w, .error (.failed f))
          | (w, .ok ()) => (w, .ok id)

end World

end UnionBridge
