import UnionBridge.Schema.Grammar

/-! The parsing table of the grammar: what to do in each state on each terminal. -/
namespace UnionBridge

/-- What a state does on a terminal. -/
inductive ParseAction
  | shift (state : Nat)
  | reduce (rule : Nat)
  deriving DecidableEq, Repr

/-- One state: the terminals it shifts, the one rule it may reduce and on which terminals, and where it goes once a
nonterminal is complete. -/
structure StateRow where
  shifts : List (Terminal × Nat)
  reduction : Option (Nat × List Terminal)
  gotos : List (Nonterminal × Nat)
  deriving DecidableEq, Repr, Inhabited

namespace StateRow

def action? (row : StateRow) (t : Terminal) : Option ParseAction :=
  match row.shifts.find? fun s => s.1 = t with
  | some (_, state) => some (.shift state)
  | none =>
    match row.reduction with
    | some (rule, on) => if on.contains t then some (.reduce rule) else none
    | none => none

def goto? (row : StateRow) (n : Nonterminal) : Option Nat :=
  (row.gotos.find? fun g => g.1 = n).map Prod.snd

/-- The terminals for which the state has an action. -/
def terminals (row : StateRow) : List Terminal :=
  row.shifts.map Prod.fst ++ ((row.reduction.map Prod.snd).getD [])

end StateRow

/-- The state of a complete schema. -/
def finalState : Nat := 11

def stateRows : Array StateRow :=
  #[⟨[(.at, 1), (.fromWord, 2), (.importWord, 3), (.unionWord, 4)], some (0, [.finish]), [(.items, 5),
      (.directives, 6), (.item, 7), (.directive, 8), (.namesImport, 9), (.wholeImport, 10), (.schema, 11),
      (.union, 12)]⟩,
    ⟨[(.name, 13)], none, []⟩,
    ⟨[(.name, 14)], none, [(.dottedName, 15)]⟩,
    ⟨[(.name, 14)], none, [(.dottedName, 16)]⟩,
    ⟨[(.name, 17)], none, []⟩,
    ⟨[(.at, 1), (.fromWord, 2), (.importWord, 3), (.unionWord, 4)], some (1, [.finish]), [(.directives, 6),
      (.item, 18), (.directive, 8), (.namesImport, 9), (.wholeImport, 10), (.union, 12)]⟩,
    ⟨[(.at, 1), (.unionWord, 19)], none, [(.directive, 20)]⟩,
    ⟨[], some (2, [.finish, .at, .fromWord, .importWord, .unionWord]), []⟩,
    ⟨[], some (3, [.at, .name, .unionWord]), []⟩,
    ⟨[], some (4, [.finish, .at, .fromWord, .importWord, .unionWord]), []⟩,
    ⟨[], some (5, [.finish, .at, .fromWord, .importWord, .unionWord]), []⟩,
    ⟨[], none, []⟩,
    ⟨[], some (6, [.finish, .at, .fromWord, .importWord, .unionWord]), []⟩,
    ⟨[(.leftParen, 21)], some (7, [.at, .name, .unionWord]), []⟩,
    ⟨[(.dot, 22)], some (8, [.finish, .asWord, .at, .comma, .equal, .fromWord, .importWord, .rightBrace,
      .rightParen, .unionWord]), [(.dottedRest, 23)]⟩,
    ⟨[(.importWord, 24)], none, []⟩,
    ⟨[(.asWord, 25)], some (9, [.finish, .at, .fromWord, .importWord, .unionWord]), []⟩,
    ⟨[(.leftBrace, 26)], none, []⟩,
    ⟨[], some (10, [.finish, .at, .fromWord, .importWord, .unionWord]), []⟩,
    ⟨[(.name, 27)], none, []⟩,
    ⟨[], some (11, [.at, .name, .unionWord]), []⟩,
    ⟨[(.name, 14), (.rightParen, 28)], none, [(.argument, 29), (.dottedName, 30)]⟩,
    ⟨[(.name, 31)], none, []⟩,
    ⟨[(.dot, 32)], some (12, [.finish, .asWord, .at, .comma, .equal, .fromWord, .importWord, .rightBrace,
      .rightParen, .unionWord]), []⟩,
    ⟨[(.name, 33)], none, [(.importName, 34)]⟩,
    ⟨[(.name, 35)], none, []⟩,
    ⟨[(.at, 1), (.name, 36), (.rightBrace, 37)], none, [(.directives, 38), (.variants, 39), (.directive, 8),
      (.variant, 40)]⟩,
    ⟨[(.leftBrace, 41)], none, []⟩,
    ⟨[], some (13, [.at, .name, .unionWord]), []⟩,
    ⟨[(.comma, 42), (.rightParen, 43)], none, [(.arguments, 44)]⟩,
    ⟨[(.equal, 45)], some (14, [.comma, .rightParen]), []⟩,
    ⟨[], some (15, [.finish, .asWord, .at, .comma, .dot, .equal, .fromWord, .importWord, .rightBrace, .rightParen,
      .unionWord]), []⟩,
    ⟨[(.name, 46)], none, []⟩,
    ⟨[(.asWord, 47)], some (16, [.finish, .at, .comma, .fromWord, .importWord, .unionWord]), []⟩,
    ⟨[(.comma, 48)], some (17, [.finish, .at, .fromWord, .importWord, .unionWord]), [(.importNames, 49)]⟩,
    ⟨[], some (18, [.finish, .at, .fromWord, .importWord, .unionWord]), []⟩,
    ⟨[(.comma, 50), (.leftBrace, 51), (.leftParen, 52)], some (19, [.at, .name, .rightBrace]),
      [(.variantFields, 53), (.namedFields, 54), (.positionalFields, 55)]⟩,
    ⟨[], some (20, [.finish, .at, .fromWord, .importWord, .unionWord]), []⟩,
    ⟨[(.at, 1), (.name, 56)], none, [(.directive, 20)]⟩,
    ⟨[(.at, 1), (.name, 36), (.rightBrace, 57)], none, [(.directives, 38), (.directive, 8), (.variant, 58)]⟩,
    ⟨[], some (21, [.at, .name, .rightBrace]), []⟩,
    ⟨[(.at, 1), (.name, 36), (.rightBrace, 59)], none, [(.directives, 38), (.variants, 60), (.directive, 8),
      (.variant, 40)]⟩,
    ⟨[(.name, 14), (.rightParen, 61)], none, [(.argument, 62), (.dottedName, 30)]⟩,
    ⟨[], some (22, [.at, .name, .unionWord]), []⟩,
    ⟨[(.comma, 63), (.rightParen, 64)], none, []⟩,
    ⟨[(.name, 14)], none, [(.dottedName, 65)]⟩,
    ⟨[], some (23, [.finish, .asWord, .at, .comma, .dot, .equal, .fromWord, .importWord, .rightBrace, .rightParen,
      .unionWord]), []⟩,
    ⟨[(.name, 66)], none, []⟩,
    ⟨[(.name, 33)], some (24, [.finish, .at, .fromWord, .importWord, .unionWord]), [(.importName, 67)]⟩,
    ⟨[(.comma, 68)], some (25, [.finish, .at, .fromWord, .importWord, .unionWord]), []⟩,
    ⟨[], some (26, [.at, .name, .rightBrace]), []⟩,
    ⟨[(.name, 69), (.rightBrace, 70)], none, [(.namedField, 71)]⟩,
    ⟨[(.name, 14), (.rightParen, 72)], none, [(.dottedName, 73), (.typeRef, 74)]⟩,
    ⟨[(.comma, 75)], some (27, [.at, .name, .rightBrace]), []⟩,
    ⟨[], some (28, [.at, .comma, .name, .rightBrace]), []⟩,
    ⟨[], some (29, [.at, .comma, .name, .rightBrace]), []⟩,
    ⟨[(.comma, 76), (.leftBrace, 51), (.leftParen, 52)], some (30, [.at, .name, .rightBrace]),
      [(.variantFields, 77), (.namedFields, 54), (.positionalFields, 55)]⟩,
    ⟨[], some (31, [.finish, .at, .fromWord, .importWord, .unionWord]), []⟩,
    ⟨[], some (32, [.at, .name, .rightBrace]), []⟩,
    ⟨[], some (33, [.finish, .at, .fromWord, .importWord, .unionWord]), []⟩,
    ⟨[(.at, 1), (.name, 36), (.rightBrace, 78)], none, [(.directives, 38), (.directive, 8), (.variant, 58)]⟩,
    ⟨[], some (34, [.at, .name, .unionWord]), []⟩,
    ⟨[], some (35, [.comma, .rightParen]), []⟩,
    ⟨[(.name, 14), (.rightParen, 79)], none, [(.argument, 80), (.dottedName, 30)]⟩,
    ⟨[], some (36, [.at, .name, .unionWord]), []⟩,
    ⟨[], some (37, [.comma, .rightParen]), []⟩,
    ⟨[], some (38, [.finish, .at, .comma, .fromWord, .importWord, .unionWord]), []⟩,
    ⟨[], some (39, [.finish, .at, .comma, .fromWord, .importWord, .unionWord]), []⟩,
    ⟨[(.name, 33)], some (40, [.finish, .at, .fromWord, .importWord, .unionWord]), [(.importName, 81)]⟩,
    ⟨[(.colon, 82)], none, []⟩,
    ⟨[], some (41, [.at, .comma, .name, .rightBrace]), []⟩,
    ⟨[(.comma, 83), (.rightBrace, 84)], none, [(.namedFieldsRest, 85)]⟩,
    ⟨[], some (42, [.at, .comma, .name, .rightBrace]), []⟩,
    ⟨[], some (43, [.comma, .rightBrace, .rightParen]), []⟩,
    ⟨[(.comma, 86), (.rightParen, 87)], none, [(.positionalRest, 88)]⟩,
    ⟨[], some (44, [.at, .name, .rightBrace]), []⟩,
    ⟨[], some (45, [.at, .name, .rightBrace]), []⟩,
    ⟨[(.comma, 89)], some (46, [.at, .name, .rightBrace]), []⟩,
    ⟨[], some (47, [.finish, .at, .fromWord, .importWord, .unionWord]), []⟩,
    ⟨[], some (48, [.at, .name, .unionWord]), []⟩,
    ⟨[], some (49, [.comma, .rightParen]), []⟩,
    ⟨[], some (50, [.finish, .at, .comma, .fromWord, .importWord, .unionWord]), []⟩,
    ⟨[(.name, 14)], none, [(.dottedName, 73), (.typeRef, 90)]⟩,
    ⟨[(.name, 69), (.rightBrace, 91)], none, [(.namedField, 92)]⟩,
    ⟨[], some (51, [.at, .comma, .name, .rightBrace]), []⟩,
    ⟨[(.comma, 93), (.rightBrace, 94)], none, []⟩,
    ⟨[(.name, 14), (.rightParen, 95)], none, [(.dottedName, 73), (.typeRef, 96)]⟩,
    ⟨[], some (52, [.at, .comma, .name, .rightBrace]), []⟩,
    ⟨[(.comma, 97), (.rightParen, 98)], none, []⟩,
    ⟨[], some (53, [.at, .name, .rightBrace]), []⟩,
    ⟨[], some (54, [.comma, .rightBrace]), []⟩,
    ⟨[], some (55, [.at, .comma, .name, .rightBrace]), []⟩,
    ⟨[], some (56, [.comma, .rightBrace]), []⟩,
    ⟨[(.name, 69), (.rightBrace, 99)], none, [(.namedField, 100)]⟩,
    ⟨[], some (57, [.at, .comma, .name, .rightBrace]), []⟩,
    ⟨[], some (58, [.at, .comma, .name, .rightBrace]), []⟩,
    ⟨[], some (59, [.comma, .rightParen]), []⟩,
    ⟨[(.name, 14), (.rightParen, 101)], none, [(.dottedName, 73), (.typeRef, 102)]⟩,
    ⟨[], some (60, [.at, .comma, .name, .rightBrace]), []⟩,
    ⟨[], some (61, [.at, .comma, .name, .rightBrace]), []⟩,
    ⟨[], some (62, [.comma, .rightBrace]), []⟩,
    ⟨[], some (63, [.at, .comma, .name, .rightBrace]), []⟩,
    ⟨[], some (64, [.comma, .rightParen]), []⟩]

/-- The row of a state; states that do not exist have an empty one. -/
def stateRow (state : Nat) : StateRow := (stateRows[state]?).getD ⟨[], none, []⟩

end UnionBridge
