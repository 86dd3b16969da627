/-! The tokens of schema text, each with the place where it begins. -/
namespace UnionBridge

inductive Terminal
  | name
  | importWord
  | fromWord
  | asWord
  | unionWord
  | leftBrace
  | rightBrace
  | leftParen
  | rightParen
  | comma
  | colon
  | dot
  | equal
  | at
  /-- The end of the text. -/
  | finish
  deriving DecidableEq, Repr, Inhabited

namespace Terminal

/-- The name of a terminal in messages. -/
def label : Terminal → String
  | .name => "NAME"
  | .importWord => "IMPORT"
  | .fromWord => "FROM"
  | .asWord => "AS"
  | .unionWord => "UNION"
  | .leftBrace => "LBRACE"
  | .rightBrace => "RBRACE"
  | .leftParen => "LPAR"
  | .rightParen => "RPAR"
  | .comma => "COMMA"
  | .colon => "COLON"
  | .dot => "DOT"
  | .equal => "EQUAL"
  | .at => "AT"
  | .finish => "$END"

/-- The words that are keywords where the grammar has room for them. -/
def keywords : List (Terminal × List Char) :=
  [(.importWord, "import".toList), (.fromWord, "from".toList), (.asWord, "as".toList), (.unionWord, "union".toList)]

def isKeyword (t : Terminal) : Bool := (keywords.map Prod.fst).contains t

/-- The terminal of a single character. -/
def ofChar? (c : Char) : Option Terminal :=
  if c = '\x7b' then some .leftBrace
  else if c = '\x7d' then some .rightBrace
  else if c = '(' then some .leftParen
  else if c = ')' then some .rightParen
  else if c = ',' then some .comma
  else if c = ':' then some .colon
  else if c = '.' then some .dot
  else if c = '=' then some .equal
  else if c = '@' then some .at
  else none

end Terminal

/-- How far into the text something is: its line and column, from 1, and its offset, from 0. -/
structure Position where
  line : Nat := 1
  column : Nat := 1
  offset : Nat := 0
  deriving DecidableEq, Repr, Inhabited

namespace Position

/-- The position after one more character. Only a line feed ends a line. -/
def next (p : Position) (c : Char) : Position :=
  if c = '\n' then ⟨p.line + 1, 1, p.offset + 1⟩ else ⟨p.line, p.column + 1, p.offset + 1⟩

/-- The position after some characters. -/
def after (p : Position) (cs : List Char) : Position := cs.foldl next p

end Position

structure Token where
  terminal : Terminal
  text : List Char
  start : Position
  deriving DecidableEq, Repr

end UnionBridge
