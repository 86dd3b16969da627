import UnionBridge.Mapping.Candidates

/-! The plan of one destination union, and its text. -/
namespace UnionBridge

/-- Everything needed to write the conversions into one destination union. -/
structure Plan where
  mapping : Mapping
  table : CandidateTable

namespace Plan

def dest (p : Plan) : String := p.mapping.dest

/-- A variant as a schema declares it. -/
def variantText (name : String) : Body → String
  | .unit => name
  | .named fields =>
    name ++ " \x7b " ++ ", ".intercalate (fields.map fun (n, t) => s!"{n}: {t}") ++ " \x7d"
  | .positional types => name ++ "(" ++ ", ".intercalate (types.map DottedName.text) ++ ")"

/-- The candidates of one case, and whether they are tried or taken. -/
def candidatesText (candidates : List Candidate) : String :=
  let mode := if isFallible candidates then "try" else "into"
  let targets := candidates.map fun c => s!"#{c.target.index} " ++ variantText c.target.name c.target.body
  mode ++ " " ++ " | ".intercalate targets

def sourceLines (source : DottedName) (byCase : Table String (List Candidate)) : List String :=
  s!"  {source}:" :: byCase.entries.map fun (case, candidates) => s!"    {case} => " ++ candidatesText candidates

def lines (p : Plan) : List String :=
  let sources := ", ".intercalate (p.mapping.sources.map DottedName.text)
  let container := (p.mapping.container.map fun c => s!" with {c}").getD ""
  [s!"dest {p.dest} <- " ++ sources ++ container ++ " \x7b"] ++
    p.table.entries.flatMap (fun (source, byCase) => sourceLines source byCase) ++ ["\x7d"]

def text (p : Plan) : String := "\n".intercalate p.lines

/-- Several plans with a blank line between them. -/
def textOfAll (plans : List Plan) : String := "\n\n".intercalate (plans.map text) ++ "\n"

end Plan

end UnionBridge
