import UnionBridge.Proofs.Schema.Alternatives
import UnionBridge.Schema.Basic

/-! The phrases of schema text: for every rule, the type of the ways to follow it, with the tokens in their places. The
children of a phrase are those of its node in a parse tree; its meaning is the part of a schema that it denotes. -/
namespace UnionBridge

namespace Token

def place (t : Token) : Place := ⟨t.start.line, t.start.column⟩

def word (t : Token) : String := String.ofList t.text

end Token

/-- The tokens of one terminal. -/
abbrev TokenOf (k : Terminal) := {t : Token // t.terminal = k}

namespace TokenOf

variable {k : Terminal}

def tree (t : TokenOf k) : Tree := .leaf t.1

def word (t : TokenOf k) : String := t.1.word

def place (t : TokenOf k) : Place := t.1.place

end TokenOf

namespace Phrase

/-- The children of an optional part. -/
def childrenOf? {α : Type} (f : α → List Tree) (o : Option α) : List Tree := (o.map f).getD []

/-- `NAME ("." NAME)*` -/
structure DottedName where
  head : TokenOf .name
  rest : List (TokenOf .dot × TokenOf .name)

namespace DottedName

def children (d : DottedName) : List Tree := d.head.tree :: d.rest.flatMap fun p => [p.1.tree, p.2.tree]

def tree (d : DottedName) : Tree := .node .dottedName d.children

def meaning (d : DottedName) : UnionBridge.DottedName := ⟨d.head.word, d.rest.map fun p => p.2.word⟩

end DottedName

/-- `α ("," α)* ","?` -/
structure Listed (α : Type) where
  first : α
  more : List (TokenOf .comma × α)
  comma : Option (TokenOf .comma)

namespace Listed

variable {α : Type}

def children (f : α → Tree) (l : Listed α) : List Tree :=
  f l.first :: (l.more.flatMap fun p => [p.1.tree, f p.2]) ++ childrenOf? (fun t => [t.tree]) l.comma

def all (l : Listed α) : List α := l.first :: l.more.map Prod.snd

end Listed

/-- `[α ("," α)* ","?]` between two brackets -/
structure Enclosed (left right : Terminal) (α : Type) where
  opening : TokenOf left
  inner : Option (Listed α)
  closing : TokenOf right

namespace Enclosed

variable {left right : Terminal} {α : Type}

def children (f : α → Tree) (e : Enclosed left right α) : List Tree :=
  e.opening.tree :: childrenOf? (Listed.children f) e.inner ++ [e.closing.tree]

def all (e : Enclosed left right α) : List α := (e.inner.map Listed.all).getD []

end Enclosed

/-- `dotted_name ("=" dotted_name)?` -/
structure Argument where
  first : DottedName
  second : Option (TokenOf .equal × DottedName)

namespace Argument

def children (a : Argument) : List Tree :=
  a.first.tree :: childrenOf? (fun p => [p.1.tree, p.2.tree]) a.second

def tree (a : Argument) : Tree := .node .argument a.children

def meaning (a : Argument) : UnionBridge.Argument :=
  match a.second with
  | none => ⟨none, a.first.meaning, a.first.head.place⟩
  | some (_, value) => ⟨some a.first.meaning, value.meaning, a.first.head.place⟩

end Argument

/-- `"@" NAME ("(" [directive_arg ("," directive_arg)* ","?] ")")?` -/
structure Directive where
  sign : TokenOf .at
  name : TokenOf .name
  args : Option (Enclosed .leftParen .rightParen Argument)

namespace Directive

def children (d : Directive) : List Tree :=
  d.sign.tree :: d.name.tree :: childrenOf? (Enclosed.children Argument.tree) d.args

def tree (d : Directive) : Tree := .node .directive d.children

def meaning (d : Directive) : UnionBridge.Directive :=
  ⟨d.name.word, ((d.args.map Enclosed.all).getD []).map Argument.meaning, d.sign.place⟩

end Directive

/-- `dotted_name` -/
structure TypeRef where
  path : DottedName

namespace TypeRef

def tree (t : TypeRef) : Tree := .node .typeRef [t.path.tree]

def meaning (t : TypeRef) : UnionBridge.DottedName := t.path.meaning

end TypeRef

/-- `NAME ":" type_ref` -/
structure NamedField where
  name : TokenOf .name
  colon : TokenOf .colon
  type : TypeRef

namespace NamedField

def children (f : NamedField) : List Tree := [f.name.tree, f.colon.tree, f.type.tree]

def tree (f : NamedField) : Tree := .node .namedField f.children

def meaning (f : NamedField) : String × UnionBridge.DottedName := (f.name.word, f.type.meaning)

end NamedField

/-- `"(" [type_ref ("," type_ref)* ","?] ")"` or `"{" [named_field ("," named_field)* ","?] "}"` -/
inductive Fields
  | positional (types : Enclosed .leftParen .rightParen TypeRef)
  | named (fields : Enclosed .leftBrace .rightBrace NamedField)

namespace Fields

def tree : Fields → Tree
  | .positional types => .node .positionalFields (types.children TypeRef.tree)
  | .named fields => .node .namedFields (fields.children NamedField.tree)

def meaning : Fields → Body
  | .positional types => .positional (types.all.map TypeRef.meaning)
  | .named fields => .named (fields.all.map NamedField.meaning)

end Fields

/-- `directive* NAME _variant_fields? ","?` -/
structure Variant where
  directives : List Directive
  name : TokenOf .name
  fields : Option Fields
  comma : Option (TokenOf .comma)

namespace Variant

def children (v : Variant) : List Tree :=
  v.directives.map Directive.tree ++
    (v.name.tree :: childrenOf? (fun f => [f.tree]) v.fields ++ childrenOf? (fun t => [t.tree]) v.comma)

def tree (v : Variant) : Tree := .node .variant v.children

def place (v : Variant) : Place := (v.directives.head?.map fun d => d.sign.place).getD v.name.place

def meaning (v : Variant) : UnionBridge.Variant :=
  ⟨v.name.word, (v.fields.map Fields.meaning).getD .unit, v.directives.map Directive.meaning, v.place⟩

end Variant

/-- `directive* "union" NAME "{" variant* "}"` -/
structure Union where
  directives : List Directive
  word : TokenOf .unionWord
  name : TokenOf .name
  opening : TokenOf .leftBrace
  variants : List Variant
  closing : TokenOf .rightBrace

namespace Union

def children (u : Union) : List Tree :=
  u.directives.map Directive.tree ++
    (u.word.tree :: u.name.tree :: u.opening.tree :: u.variants.map Variant.tree ++ [u.closing.tree])

def tree (u : Union) : Tree := .node .union u.children

def place (u : Union) : Place := (u.directives.head?.map fun d => d.sign.place).getD u.word.place

def meaning (u : Union) : UnionBridge.Union :=
  ⟨u.name.word, u.variants.map Variant.meaning, u.directives.map Directive.meaning, u.place⟩

end Union

/-- `"as" NAME` -/
abbrev NewName := TokenOf .asWord × TokenOf .name

namespace NewName

def children (n : NewName) : List Tree := [n.1.tree, n.2.tree]

end NewName

/-- `NAME ("as" NAME)?` -/
structure ImportName where
  name : TokenOf .name
  newName : Option NewName

namespace ImportName

def children (n : ImportName) : List Tree := n.name.tree :: childrenOf? NewName.children n.newName

def tree (n : ImportName) : Tree := .node .importName n.children

def meaning (n : ImportName) : String × Option String := (n.name.word, n.newName.map fun p => p.2.word)

end ImportName

/-- `"import" dotted_name ("as" NAME)?` -/
structure WholeImport where
  word : TokenOf .importWord
  module : DottedName
  newName : Option NewName

namespace WholeImport

def children (i : WholeImport) : List Tree :=
  i.word.tree :: i.module.tree :: childrenOf? NewName.children i.newName

def tree (i : WholeImport) : Tree := .node .wholeImport i.children

def meaning (i : WholeImport) : Import :=
  ⟨i.module.meaning, .whole (i.newName.map fun p => p.2.word), i.word.place⟩

end WholeImport

/-- `"from" dotted_name "import" import_name ("," import_name)* ","?` -/
structure NamesImport where
  word : TokenOf .fromWord
  module : DottedName
  importWord : TokenOf .importWord
  names : Listed ImportName

namespace NamesImport

def children (i : NamesImport) : List Tree :=
  i.word.tree :: i.module.tree :: i.importWord.tree :: i.names.children ImportName.tree

def tree (i : NamesImport) : Tree := .node .namesImport i.children

def meaning (i : NamesImport) : Import :=
  ⟨i.module.meaning, .names i.names.first.meaning (i.names.more.map fun p => p.2.meaning), i.word.place⟩

end NamesImport

/-- `import_stmt`, `from_import_stmt` or `union_def` -/
inductive Item
  | wholeImport (i : WholeImport)
  | namesImport (i : NamesImport)
  | union (u : Union)

namespace Item

def tree : Item → Tree
  | .wholeImport i => i.tree
  | .namesImport i => i.tree
  | .union u => u.tree

def import? : Item → Option Import
  | .wholeImport i => some i.meaning
  | .namesImport i => some i.meaning
  | .union _ => none

def union? : Item → Option UnionBridge.Union
  | .union u => some u.meaning
  | _ => none

end Item

/-- `_item*` -/
structure Schema where
  items : List Item

namespace Schema

def tree (s : Schema) : Tree := .node .schema (s.items.map Item.tree)

/-- The tokens of the whole text, in order. -/
def tokens (s : Schema) : List Token := s.tree.leaves

def meaning (s : Schema) : UnionBridge.Schema := ⟨s.items.filterMap Item.import?, s.items.filterMap Item.union?⟩

end Schema

end Phrase

end UnionBridge
