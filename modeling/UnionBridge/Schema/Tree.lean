import UnionBridge.Schema.Grammar

/-! Parse trees. A node has the children of its rule, with those of spliced nonterminals in their place. -/
namespace UnionBridge

inductive Tree
  | leaf (token : Token)
  | node (symbol : Nonterminal) (children : List Tree)

namespace Tree

/-- A tree as a child: itself, or the children of a spliced node. -/
def spliced : Tree → List Tree
  | .node n children => if n.isSpliced then children else [.node n children]
  | .leaf t => [.leaf t]

/-- The node that a rule makes of the trees of its right side. -/
def build (n : Nonterminal) (children : List Tree) : Tree := .node n (children.flatMap spliced)

def is (n : Nonterminal) : Tree → Bool
  | .node n' _ => n' = n
  | .leaf _ => false

def children : Tree → List Tree
  | .node _ children => children
  | .leaf _ => []

mutual

/-- The first token under a tree. -/
def first? : Tree → Option Token
  | .leaf t => some t
  | .node _ children => firstOf? children

def firstOf? : List Tree → Option Token
  | [] => none
  | t :: rest => (first? t).or (firstOf? rest)

end

/-- The children that are nodes of a kind. -/
def nodes (n : Nonterminal) (t : Tree) : List Tree := t.children.filter (is n)

def node? (n : Nonterminal) (t : Tree) : Option Tree := t.children.find? (is n)

/-- The texts of the names among the children. -/
def names (t : Tree) : List String :=
  t.children.filterMap fun
    | .leaf token => if token.terminal = .name then some (String.ofList token.text) else none
    | .node _ _ => none

end Tree

end UnionBridge
