import UnionBridge.Compile

/-! What the passes report about their progress. -/
namespace UnionBridge

inductive LogLevel
  | debug
  | info
  deriving DecidableEq, Repr

def LogLevel.name : LogLevel → String
  | .debug => "DEBUG"
  | .info => "INFO"

/-- A message and the part of the program that it comes from. -/
structure LogRecord where
  level : LogLevel
  logger : String
  message : String
  deriving DecidableEq, Repr

def LogRecord.text (r : LogRecord) : String := s!"{r.level.name} [{r.logger}] {r.message}"

namespace Mapping

def mappedRecord (m : Mapping) : LogRecord :=
  ⟨.debug, "casemap.mapping", s!"mapped {m.dest}: {m.targets.length} variant(s) from " ++
    ", ".intercalate (m.sources.map DottedName.text)⟩

def resolvedRecord (m : Mapping) (t : CandidateTable) : LogRecord :=
  ⟨.debug, "casemap.resolver", s!"resolved {m.dest}: " ++
    ", ".intercalate (t.entries.map fun (source, byCase) => s!"{source}({byCase.entries.length} case(s))")⟩

end Mapping

namespace Planning

/-- The records of the passes that went well. -/
def records : Planning → List LogRecord
  | .unmapped _ => []
  | .unresolved m _ => [m.mappedRecord]
  | .unchecked p _ | .planned p => [p.mapping.mappedRecord, p.mapping.resolvedRecord p.table]

end Planning

/-- The records of planning all destinations of a text. -/
def planningRecords (source : String) (file : Option String) : List LogRecord :=
  match Schema.read source file with
  | .error _ => []
  | .ok s => (s.plannings file).flatMap Planning.records

namespace Compiled

def compiledRecord (c : Compiled) (file : String) : LogRecord :=
  ⟨.debug, "casemap.pipeline",
    s!"compiled {file}: {c.schema.unions.length} union(s), {c.plans.length} destination(s)"⟩

end Compiled

end UnionBridge
