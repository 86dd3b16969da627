import UnionBridge.Schema.Token

/-! The grammar of schemas, with optional parts written out and every repetition a nonterminal of its own. -/
namespace UnionBridge

inductive Nonterminal
  | schema
  | items
  | directives
  | item
  | directive
  | dottedName
  | wholeImport
  | argument
  | dottedRest
  | importName
  | namesImport
  | variant
  | union
  | variants
  | variantFields
  | arguments
  | importNames
  | namedFields
  | positionalFields
  | typeRef
  | namedField
  | namedFieldsRest
  | positionalRest
  deriving DecidableEq, Repr

namespace Nonterminal

/-- The nonterminals without a node of their own: their children join those of the node above. -/
def isSpliced : Nonterminal → Bool
  | .items | .item | .directives | .dottedRest | .variants | .importNames | .variantFields | .arguments
  | .namedFieldsRest | .positionalRest => true
  | _ => false

end Nonterminal

inductive GrammarSymbol
  | t (terminal : Terminal)
  | n (nonterminal : Nonterminal)
  deriving DecidableEq, Repr

/-- A nonterminal may be replaced by a sequence of symbols. -/
structure Rule where
  left : Nonterminal
  right : List GrammarSymbol
  deriving DecidableEq, Repr

/-- The rules, in the numbering that the parsing table uses. -/
def rules : Array Rule :=
  #[⟨.schema, []⟩,
    ⟨.schema, [.n .items]⟩,
    ⟨.items, [.n .item]⟩,
    ⟨.directives, [.n .directive]⟩,
    ⟨.item, [.n .namesImport]⟩,
    ⟨.item, [.n .wholeImport]⟩,
    ⟨.item, [.n .union]⟩,
    ⟨.directive, [.t .at, .t .name]⟩,
    ⟨.dottedName, [.t .name]⟩,
    ⟨.wholeImport, [.t .importWord, .n .dottedName]⟩,
    ⟨.items, [.n .items, .n .item]⟩,
    ⟨.directives, [.n .directives, .n .directive]⟩,
    ⟨.dottedName, [.t .name, .n .dottedRest]⟩,
    ⟨.directive, [.t .at, .t .name, .t .leftParen, .t .rightParen]⟩,
    ⟨.argument, [.n .dottedName]⟩,
    ⟨.dottedRest, [.t .dot, .t .name]⟩,
    ⟨.importName, [.t .name]⟩,
    ⟨.namesImport, [.t .fromWord, .n .dottedName, .t .importWord, .n .importName]⟩,
    ⟨.wholeImport, [.t .importWord, .n .dottedName, .t .asWord, .t .name]⟩,
    ⟨.variant, [.t .name]⟩,
    ⟨.union, [.t .unionWord, .t .name, .t .leftBrace, .t .rightBrace]⟩,
    ⟨.variants, [.n .variant]⟩,
    ⟨.directive, [.t .at, .t .name, .t .leftParen, .n .argument, .t .rightParen]⟩,
    ⟨.dottedRest, [.n .dottedRest, .t .dot, .t .name]⟩,
    ⟨.namesImport, [.t .fromWord, .n .dottedName, .t .importWord, .n .importName, .t .comma]⟩,
    ⟨.namesImport, [.t .fromWord, .n .dottedName, .t .importWord, .n .importName, .n .importNames]⟩,
    ⟨.variant, [.t .name, .t .comma]⟩,
    ⟨.variant, [.t .name, .n .variantFields]⟩,
    ⟨.variantFields, [.n .namedFields]⟩,
    ⟨.variantFields, [.n .positionalFields]⟩,
    ⟨.variant, [.n .directives, .t .name]⟩,
    ⟨.union, [.t .unionWord, .t .name, .t .leftBrace, .n .variants, .t .rightBrace]⟩,
    ⟨.variants, [.n .variants, .n .variant]⟩,
    ⟨.union, [.n .directives, .t .unionWord, .t .name, .t .leftBrace, .t .rightBrace]⟩,
    ⟨.directive, [.t .at, .t .name, .t .leftParen, .n .argument, .t .comma, .t .rightParen]⟩,
    ⟨.arguments, [.t .comma, .n .argument]⟩,
    ⟨.directive, [.t .at, .t .name, .t .leftParen, .n .argument, .n .arguments, .t .rightParen]⟩,
    ⟨.argument, [.n .dottedName, .t .equal, .n .dottedName]⟩,
    ⟨.importName, [.t .name, .t .asWord, .t .name]⟩,
    ⟨.importNames, [.t .comma, .n .importName]⟩,
    ⟨.namesImport, [.t .fromWord, .n .dottedName, .t .importWord, .n .importName, .n .importNames, .t .comma]⟩,
    ⟨.namedFields, [.t .leftBrace, .t .rightBrace]⟩,
    ⟨.positionalFields, [.t .leftParen, .t .rightParen]⟩,
    ⟨.typeRef, [.n .dottedName]⟩,
    ⟨.variant, [.t .name, .n .variantFields, .t .comma]⟩,
    ⟨.variant, [.n .directives, .t .name, .t .comma]⟩,
    ⟨.variant, [.n .directives, .t .name, .n .variantFields]⟩,
    ⟨.union, [.n .directives, .t .unionWord, .t .name, .t .leftBrace, .n .variants, .t .rightBrace]⟩,
    ⟨.directive, [.t .at, .t .name, .t .leftParen, .n .argument, .n .arguments, .t .comma, .t .rightParen]⟩,
    ⟨.arguments, [.n .arguments, .t .comma, .n .argument]⟩,
    ⟨.importNames, [.n .importNames, .t .comma, .n .importName]⟩,
    ⟨.namedFields, [.t .leftBrace, .n .namedField, .t .rightBrace]⟩,
    ⟨.positionalFields, [.t .leftParen, .n .typeRef, .t .rightParen]⟩,
    ⟨.variant, [.n .directives, .t .name, .n .variantFields, .t .comma]⟩,
    ⟨.namedField, [.t .name, .t .colon, .n .typeRef]⟩,
    ⟨.namedFields, [.t .leftBrace, .n .namedField, .t .comma, .t .rightBrace]⟩,
    ⟨.namedFieldsRest, [.t .comma, .n .namedField]⟩,
    ⟨.namedFields, [.t .leftBrace, .n .namedField, .n .namedFieldsRest, .t .rightBrace]⟩,
    ⟨.positionalFields, [.t .leftParen, .n .typeRef, .t .comma, .t .rightParen]⟩,
    ⟨.positionalRest, [.t .comma, .n .typeRef]⟩,
    ⟨.positionalFields, [.t .leftParen, .n .typeRef, .n .positionalRest, .t .rightParen]⟩,
    ⟨.namedFields, [.t .leftBrace, .n .namedField, .n .namedFieldsRest, .t .comma, .t .rightBrace]⟩,
    ⟨.namedFieldsRest, [.n .namedFieldsRest, .t .comma, .n .namedField]⟩,
    ⟨.positionalFields, [.t .leftParen, .n .typeRef, .n .positionalRest, .t .comma, .t .rightParen]⟩,
    ⟨.positionalRest, [.n .positionalRest, .t .comma, .n .typeRef]⟩]

end UnionBridge
