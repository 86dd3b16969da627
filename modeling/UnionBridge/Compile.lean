import UnionBridge.Mapping.Coverage
import UnionBridge.Module.OfPlans
import UnionBridge.Module.Text
import UnionBridge.Schema.Distinct
import UnionBridge.Schema.Failure

/-! Compiling schema text. Every destination is planned on its own, the mistakes of all of them are reported together,
and any mistake stops the module from being written. -/
namespace UnionBridge

/-- How far the planning of one destination came. -/
inductive Planning
  | unmapped (faults : List Diagnostic)
  | unresolved (m : Mapping) (faults : List Diagnostic)
  | unchecked (p : Plan) (faults : List Diagnostic)
  | planned (p : Plan)

namespace Planning

def ofUnion (s : Schema) (u : Union) (file : Option String) : Planning :=
  match Mapping.ofUnion u file with
  | .error faults => .unmapped faults
  | .ok m =>
    match m.resolve with
    | .error faults => .unresolved m faults
    | .ok table =>
      let p : Plan := ⟨m, table⟩
      match p.faults s with
      | [] => .planned p
      | faults => .unchecked p faults

def faults : Planning → List Diagnostic
  | .unmapped faults | .unresolved _ faults | .unchecked _ faults => faults
  | .planned _ => []

def plan? : Planning → Option Plan
  | .planned p => some p
  | _ => none

end Planning

namespace Schema

def plannings (s : Schema) (file : Option String) : List Planning :=
  s.destinations.map fun u => Planning.ofUnion s u file

/-- The plans of all destinations, or the faults of all of them. -/
def plans (s : Schema) (file : Option String) : Except CompileError (List Plan) :=
  let all := s.plannings file
  match all.flatMap Planning.faults with
  | [] => .ok (all.filterMap Planning.plan?)
  | faults => .error ⟨faults⟩

/-- The schema of a text in which no name is declared twice. -/
def read (source : String) (file : Option String) : Except CompileError Schema :=
  match parse source with
  | .error f => .error ⟨[f.diagnostic source file]⟩
  | .ok s =>
    match s.repeatedNames file with
    | [] => .ok s
    | faults => .error ⟨faults⟩

end Schema

/-- A schema that was compiled. -/
structure Compiled where
  schema : Schema
  plans : List Plan
  module : Module

def Compiled.code (c : Compiled) : String := c.module.text

/-- Compiles schema text. -/
def compile (source : String) (file docstring : Option String) : Except CompileError Compiled := do
  let s ← Schema.read source file
  let plans ← s.plans file
  .ok ⟨s, plans, Module.ofPlans s plans file docstring⟩

end UnionBridge
