import UnionBridge.Text.Quoted

/-! JSON written on one line in ASCII, with a blank after each comma and colon. -/
namespace UnionBridge

/-- The JSON values that reports are made of; the members of an object keep their order. -/
inductive Json
  | null
  | int (n : Int)
  | text (s : String)
  | array (items : List Json)
  | object (members : List (String × Json))

namespace Json

/-- One UTF-16 unit as an escape. -/
def unitEscape (n : Nat) : String := "\\u" ++ Text.hex 4 n

/-- One character inside a JSON string; anything outside printable ASCII becomes escapes of its UTF-16 units. -/
def escapedChar (c : Char) : String :=
  if c = '"' then "\\\""
  else if c = '\\' then "\\\\"
  else if c = '\n' then "\\n"
  else if c = '\r' then "\\r"
  else if c = '\t' then "\\t"
  else if c.toNat = 0x08 then "\\b"
  else if c.toNat = 0x0c then "\\f"
  else if 0x20 ≤ c.toNat && c.toNat < 0x7f then c.toString
  else if c.toNat < 0x10000 then unitEscape c.toNat
  else
    let n := c.toNat - 0x10000
    unitEscape (0xd800 + n / 0x400) ++ unitEscape (0xdc00 + n % 0x400)

def string (s : String) : String := "\"" ++ String.join (s.toList.map escapedChar) ++ "\""

mutual

def render : Json → String
  | .null => "null"
  | .int n => toString n
  | .text s => string s
  | .array items => "[" ++ ", ".intercalate (renderItems items) ++ "]"
  | .object members => "\x7b" ++ ", ".intercalate (renderMembers members) ++ "\x7d"
  termination_by structural j => j

def renderItems : List Json → List String
  | [] => []
  | j :: rest => render j :: renderItems rest
  termination_by structural items => items

def renderMembers : List (String × Json) → List String
  | [] => []
  | (k, j) :: rest => (string k ++ ": " ++ render j) :: renderMembers rest
  termination_by structural members => members

end

/-- Text that may be missing. -/
def ofText? : Option String → Json
  | none => .null
  | some s => .text s

/-- A number that may be missing. -/
def ofInt? : Option Int → Json
  | none => .null
  | some n => .int n

end Json

end UnionBridge
