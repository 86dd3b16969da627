import UnionBridge.Execution.Import
import UnionBridge.Module.Preamble
import UnionBridge.World.Record

/-! Executing a module from top to bottom. -/
namespace UnionBridge

namespace CaseClass

/-- An attribute as its class names it. Names that begin with two low lines are private to the class. -/
def privateName (cls attr : String) : String :=
  let inner := String.ofList (cls.toList.dropWhile (· = '_'))
  if attr.startsWith "__" && !attr.endsWith "__" && inner ≠ "" then s!"_{inner}{attr}" else attr

/-- The fields under the names that values keep them and the constructor takes them by. -/
def recordFields (c : CaseClass) : List (String × DottedName) :=
  c.fields.map fun (attr, type) => (privateName c.name attr, type)

/-- What the body of the class gives it. -/
def bodyAttributes (c : CaseClass) (moduleName : Value) : Table String Value :=
  let annotations := if c.fields.isEmpty then [] else
    [("__annotations__", Value.intrinsic (.dictionary "\x7b...\x7d" true))]
  ⟨("__module__", moduleName) :: annotations⟩

/-- Declares the class of a variant, by way of whatever the module takes for the declaration of fields. -/
def execute (home : Nat) (c : CaseClass) : Loading Unit := do
  let maker ← Loading.global home "dataclass"
  let wrap ← match maker with
    | .function (.builtin .recordClass) => pure none
    | f => some <$> Loading.call f ⟨[], [("frozen", .bool true)]⟩
  match ← Loading.global home c.union with
  | .cls base =>
    let moduleName ← Loading.global home "__name__"
    let (id, w) ← (← get).declareClass c.name [base] (c.bodyAttributes moduleName) none
    set w
    match wrap with
    | none =>
      set (← w.makeRecord id c.recordFields)
      Loading.bind home c.name (.cls (.declared id))
    | some f => Loading.bind home c.name (← Loading.call f (.of [.cls (.declared id)]))
  | v =>
    let name := (← get).typeName v
    throw (.error .typeError s!"{name} cannot be a base class")

/-- Makes the class a member of its union. -/
def attach (home : Nat) (c : CaseClass) : Loading Unit := do
  let attach ← Loading.globalPath home ⟨"_rt", ["attach_variant"]⟩
  let union ← Loading.global home c.union
  let variant ← Loading.global home c.name
  match attach, union, variant with
  | .function (.builtin .attachVariant), .cls (.declared union), .cls (.declared variant) =>
    let (w, result) := (← get).attachVariant union variant c.case
    set w
    result
  | f, _, _ =>
    let _ ← Loading.call f (.of [union, variant, .text c.case])

end CaseClass

namespace UnionClass

def execute (home : Nat) (u : UnionClass) : Loading Unit := do
  let moduleName ← Loading.global home "__name__"
  let attributes : Table String Value :=
    ⟨[("__module__", moduleName), ("__doc__", .text u.docText), ("__slots__", .tuple [])]⟩
  let (id, w) ← (← get).declareClass u.name [] attributes none
  set w
  Loading.bind home u.name (.cls (.declared id))
  u.cases.forM (·.execute home)
  u.cases.forM (·.attach home)

end UnionClass

namespace Bridge

/-- Checks that what a destination names as its container is one. -/
def checkContainer (home : Nat) (container : DottedName) : Loading Unit := do
  let require ← Loading.globalPath home ⟨"_rt", ["require_effect_container"]⟩
  let c ← Loading.globalPath home container
  let _ ← Loading.call require (.of [c])

/-- Gives the destination its dispatcher. -/
def install (home : Nat) (b : Bridge) : Loading Unit := do
  let detach ← Loading.global home "staticmethod"
  let f ← Loading.global home b.dispatcher.name
  let f ← Loading.call detach (.of [f])
  match ← Loading.global home b.dest with
  | .cls (.declared id) => modify fun w => w.setAttribute id "from_source" f
  | .function d => modify fun w => { w with misplaced := w.misplaced.insert d f }
  | v =>
    let owner := (← get).ownerText v
    throw (.error .attributeError s!"{owner} has no attribute 'from_source'")

def execute (home : Nat) (b : Bridge) : Loading Unit := do
  b.container.forM (checkContainer home)
  b.conversions.forM fun c => Loading.bind home c.name (.function (.conversion home c))
  Loading.bind home b.dispatcher.name (.function (.dispatcher home b.dispatcher))
  b.install home

end Bridge

namespace Registration

/-- What a registration registers, as the function has it whose parameter is a registry. -/
def evaluated (home : Nat) (registry : Value) (r : Registration) : Loading (Value × Value × Value) := do
  let w ← get
  let s : Scope := ⟨w, home, w.call, w.answer w.call, [parameter]⟩
  liftM ((r.evaluate s).run.run ⟨[(parameter, registry)]⟩).1

/-- Puts a converter into a registry. -/
def execute (home : Nat) (registry : String) (r : Registration) : Loading Unit := do
  let (source, target, f) ← r.evaluated home (.registry registry)
  Loading.add registry ⟨source, target, false⟩ f

/-- Hands a converter to something that is no registry: whatever that has under the name of the operation is called. -/
def offer (home : Nat) (v : Value) (r : Registration) : Loading Unit := do
  let operation ← (← get).member v "register"
  let (source, target, f) ← r.evaluated home v
  let _ ← Loading.call operation (.of [source, target, f])

end Registration

/-- Calls what should register the conversions of a module. -/
def Loading.register (f registry : Value) : Loading Unit :=
  match f, registry with
  | .function (.registrar home rs), .registry name => rs.forM (·.execute home name)
  | .function (.registrar home rs), v => rs.forM (·.offer home v)
  | _, _ => do
    let _ ← Loading.call f (.of [registry])

namespace Module

/-- The names that every module starts with. -/
def initialGlobals (name file : String) : Table String Value :=
  ⟨[("__name__", .text name), ("__doc__", .none), ("__package__", .none), ("__loader__", .none), ("__spec__", .none),
    ("__file__", .text file)]⟩

/-- The imports that every module makes. -/
def ownImports : List Import :=
  [Preamble.demand ("annotations", none) [],
    ⟨.ofName "dataclasses", .names ("dataclass", none) [], ⟨0, 0⟩⟩,
    ⟨⟨"casemap", ["runtime"]⟩, .whole (some "_rt"), ⟨0, 0⟩⟩]

/-- Executes a module with its preamble. -/
def execute (home : Nat) (p : Preamble) (m : Module) : Loading Unit := do
  Loading.bind home "__builtins__" (.intrinsic (.dictionary "\x7b...\x7d" true))
  p.docstring.forM fun doc => Loading.bind home "__doc__" (.text doc)
  (p.demands ++ ownImports ++ m.imports).forM (·.execute home)
  Loading.bind home "_registry" (← Loading.globalPath home ⟨"_rt", ["default_registry"]⟩)
  m.unions.forM (·.execute home)
  m.bridges.forM (·.execute home)
  Loading.bind home registrar (.function (.registrar home m.registrations))
  Loading.register (← Loading.global home registrar) (← Loading.global home "_registry")
  Loading.bind home "__all__" (.list (m.exported.map .text))

end Module

end UnionBridge
