import UnionBridge.Schema.Token

/-! Reading one token at a time. Which tokens can be read depends on the terminals that the parser has room for. -/
namespace UnionBridge

/-- The text that is still to be read, and where it begins. -/
structure Cursor where
  rest : List Char
  position : Position := {}
  deriving DecidableEq, Repr

namespace Lexer

/-- The characters between tokens. -/
def isSpace (c : Char) : Bool := c = ' ' || c = '\t' || c = '\x0c' || c = '\r' || c = '\n'

def isNameStart (c : Char) : Bool := c.isAlpha || c = '_'

def isNamePart (c : Char) : Bool := c.isAlphanum || c = '_'

/-- Passes over spaces and comments. A comment goes from a number sign to the end of its line. -/
def skip (inComment : Bool) : List Char → Position → Cursor
  | [], p => ⟨[], p⟩
  | c :: rest, p =>
    if inComment then skip (c ≠ '\n') rest (p.next c)
    else if isSpace c then skip false rest (p.next c)
    else if c = '#' then skip true rest (p.next c)
    else ⟨c :: rest, p⟩

/-- The terminal of a whole word: a keyword among those allowed, or else a name. -/
def wordTerminal (allowed : List Terminal) (word : List Char) : Terminal :=
  match Terminal.keywords.find? fun k => k.2 = word && allowed.contains k.1 with
  | some (t, _) => t
  | none => .name

/-- What can be read at the start of a text: the terminal and its characters. Where names are allowed
the longest word is read; where they are not, a keyword is read even from the front of a longer word. -/
def match? (allowed : List Terminal) : List Char → Option (Terminal × List Char)
  | [] => none
  | c :: rest =>
    if allowed.contains .name && isNameStart c then
      let word := (c :: rest).takeWhile isNamePart
      some (wordTerminal allowed word, word)
    else
      match Terminal.keywords.find? fun k => allowed.contains k.1 && k.2.isPrefixOf (c :: rest) with
      | some k => some k
      | none =>
        match Terminal.ofChar? c with
        | some t => if allowed.contains t then some (t, [c]) else none
        | none => none

/-- All terminals that text can hold. -/
def anywhere : List Terminal :=
  [.name, .importWord, .fromWord, .asWord, .unionWord, .leftBrace, .rightBrace, .leftParen, .rightParen, .comma, .colon,
    .dot, .equal, .at]

/-- What stands next in a text. -/
inductive Lexeme
  | token (t : Token) (after : Cursor)
  | finish
  /-- A token for which there is no room here. -/
  | misplaced (t : Token)
  /-- A character with which no token begins. -/
  | foreign (start : Position)

/-- Reads the next token. Where nothing allowed can be read, every terminal is tried. -/
def next (allowed : List Terminal) (cursor : Cursor) : Lexeme :=
  let here := skip false cursor.rest cursor.position
  match here.rest with
  | [] => .finish
  | cs =>
    match match? allowed cs with
    | some (terminal, text) =>
      .token ⟨terminal, text, here.position⟩ ⟨cs.drop text.length, here.position.after text⟩
    | none =>
      match match? anywhere cs with
      | some (terminal, text) => .misplaced ⟨terminal, text, here.position⟩
      | none => .foreign here.position

end Lexer

end UnionBridge
