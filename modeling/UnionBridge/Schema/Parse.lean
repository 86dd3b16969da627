import UnionBridge.Schema.Automaton
import UnionBridge.Schema.Lexer
import UnionBridge.Schema.OfTree

/-! Parsing schema text with the table. The state after the last shift decides what the lexer may read next. -/
namespace UnionBridge

/-- Why a text is no schema. -/
inductive ParseFailure
  | unexpectedToken (t : Token) (expected : List Terminal)
  | unexpectedCharacter (start : Position) (expected : List Terminal)
  /-- The table and the stack do not fit together. -/
  | stuck
  deriving DecidableEq, Repr

/-- A state and the tree that led to it from the state below. -/
structure Frame where
  state : Nat
  tree : Tree

/-- The stack, top first; the start state lies under it. -/
abbrev Stack := List Frame

namespace Stack

def state : Stack → Nat
  | [] => 0
  | frame :: _ => frame.state

/-- Replaces the frames of a rule's right side by one of its left side. -/
def reduce? (stack : Stack) (rule : Nat) : Option Stack := do
  let r ← rules[rule]?
  let n := r.right.length
  guard (n ≤ stack.length)
  let below : Stack := stack.drop n
  let target ← (stateRow below.state).goto? r.left
  some (⟨target, Tree.build r.left ((stack.take n).reverse.map Frame.tree)⟩ :: below)

/-- How a stack meets a token. -/
inductive Advance
  | shifted (stack : Stack)
  | accepted (tree : Tree)
  | refused (expected : List Terminal)
  | stuck

/-- Reduces until the token can be shifted, is the end of a complete schema, or has no action. -/
def advance (t : Token) : Nat → Stack → Advance
  | 0, _ => .stuck
  | fuel + 1, stack =>
    let row := stateRow stack.state
    match row.action? t.terminal with
    | none => .refused row.terminals
    | some (.shift state) => .shifted (⟨state, .leaf t⟩ :: stack)
    | some (.reduce rule) =>
      match stack.reduce? rule with
      | none => .stuck
      | some next =>
        match next with
        | [] => .stuck
        | frame :: _ => if frame.state = finalState then .accepted frame.tree else advance t fuel next

/-- Enough steps for a stack: a chain of reductions that do not shorten it is shorter than this factor. -/
def steps (stack : Stack) : Nat := 8 * (stack.length + 1)

end Stack

namespace Parse

/-- The terminals that the lexer may read in a state. -/
def allowed (state : Nat) : List Terminal := (stateRow state).terminals.filter (· ≠ .finish)

/-- What a message about unreadable text says was expected: a keyword is not told apart from a name. -/
def expectedText (state : Nat) : List Terminal :=
  let ts := allowed state
  if ts.contains .name then ts.filter fun t => !t.isKeyword else ts

/-- The end of the text as a token; it borrows the place of the last token before it. -/
def finishToken (last : Position) : Token := ⟨.finish, [], last⟩

/-- Parses the rest of a text. Every token takes at least one character off it, so `fuel` is its length and one more. -/
def loop : Nat → Stack → Cursor → Position → Except ParseFailure Tree
  | 0, _, _, _ => .error .stuck
  | fuel + 1, stack, cursor, last =>
    match Lexer.next (allowed stack.state) cursor with
    | .foreign start => .error (.unexpectedCharacter start (expectedText stack.state))
    | .misplaced t => .error (.unexpectedToken t (expectedText stack.state))
    | .finish =>
      match stack.advance (finishToken last) stack.steps with
      | .accepted tree => .ok tree
      | .refused expected => .error (.unexpectedToken (finishToken last) expected)
      | _ => .error .stuck
    | .token t after =>
      match stack.advance t stack.steps with
      | .shifted next => loop fuel next after t.start
      | .refused expected => .error (.unexpectedToken t expected)
      | _ => .error .stuck

def tree (source : List Char) : Except ParseFailure Tree :=
  loop (source.length + 1) [] ⟨source, {}⟩ {}

end Parse

namespace Schema

/-- The schema written in a text. -/
def parse (source : String) : Except ParseFailure Schema := do
  let tree ← Parse.tree source.toList
  match ofTree? tree with
  | some s => .ok s
  | none => .error .stuck

end Schema

end UnionBridge
