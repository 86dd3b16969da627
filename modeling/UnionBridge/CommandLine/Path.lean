/-! File paths in their normal form: no empty parts, no parts that stay in place, and `.` for no parts at all. -/
namespace UnionBridge

structure Path where
  /-- The slashes that an absolute path begins with: none, one, or exactly two. -/
  root : String := ""
  parts : List String
  deriving DecidableEq, Repr

namespace Path

/-- Splits at every slash. -/
def splitSlashes : List Char → List (List Char)
  | [] => [[]]
  | c :: rest =>
    match splitSlashes rest with
    | [] => [[c]]
    | part :: more => if c = '/' then [] :: part :: more else (c :: part) :: more

def rootOf : List Char → String
  | '/' :: '/' :: '/' :: _ => "/"
  | '/' :: '/' :: _ => "//"
  | '/' :: _ => "/"
  | _ => ""

def ofString (s : String) : Path where
  root := rootOf s.toList
  parts := ((splitSlashes s.toList).map String.ofList).filter fun part => part ≠ "" && part ≠ "."

def text (p : Path) : String :=
  if p.root = "" && p.parts.isEmpty then "." else p.root ++ "/".intercalate p.parts

instance : ToString Path := ⟨text⟩

def isAbsolute (p : Path) : Bool := p.root ≠ ""

def child (p : Path) (name : String) : Path := { p with parts := p.parts ++ [name] }

/-- The path as seen from a directory, if it leads into that. -/
def relativeTo (p base : Path) : Path :=
  if p.root = base.root && base.parts.isPrefixOf p.parts then ⟨"", p.parts.drop base.parts.length⟩ else p

end Path

end UnionBridge
