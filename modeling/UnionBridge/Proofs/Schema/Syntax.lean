import UnionBridge.Proofs.Schema.Phrase

/-! The derivations of every nonterminal are the phrases of its rule. -/
namespace UnionBridge

open Alternatives

namespace Alternatives

/-- `n ("," n)* ","?`, where `m` stands for the repetition. -/
def listed (n m : Nonterminal) : Alternatives := (node n).andThen ((node m).orNothing.andThen (token .comma).orNothing)

/-- `[n ("," n)* ","?]` between two brackets. -/
def enclosed (left right : Terminal) (n m : Nonterminal) : Alternatives :=
  (token left).andThen ((listed n m).orNothing.andThen (token right))

/-- `m: "," n | m "," n` -/
def RepeatsAfterComma (m n : Nonterminal) : Prop :=
  m.isSpliced ∧ Same (ofRules m) [[.t .comma, .n n], [.n m, .t .comma, .n n]]

instance (m n : Nonterminal) : Decidable (RepeatsAfterComma m n) := inferInstanceAs (Decidable (_ ∧ _))

variable {n m : Nonterminal} {k left right : Terminal} {α : Type} {f : α → Tree}

theorem spells_token : (token k).Spells fun t : TokenOf k => [t.tree] := Spells.token

theorem spells_listed (hn : (node n).Spells fun a => [f a]) (hm : RepeatsAfterComma m n) :
    (listed n m).Spells (Phrase.Listed.children f) := by
  have hmore : Spells [[.t .comma, .n n]] fun p : TokenOf .comma × α => [p.1.tree, f p.2] := spells_token.andThen hn
  refine (hn.andThen ((Spells.list hm.1 hm.2 hmore).andThen spells_token.orNothing)).ofType
    (fun l => (l.first, l.more, l.comma)) (fun ⟨a, more, comma⟩ => ⟨⟨a, more, comma⟩, rfl⟩) fun l => ?_
  simp [Phrase.Listed.children, Phrase.childrenOf?]

theorem spells_enclosed (hn : (node n).Spells fun a => [f a]) (hm : RepeatsAfterComma m n) :
    (enclosed left right n m).Spells (Phrase.Enclosed.children f : Phrase.Enclosed left right α → List Tree) := by
  refine (spells_token.andThen ((spells_listed hn hm).orNothing.andThen spells_token)).ofType
    (fun e => (e.opening, e.inner, e.closing)) (fun ⟨a, b, c⟩ => ⟨⟨a, b, c⟩, rfl⟩) fun e => ?_
  simp [Phrase.Enclosed.children, Phrase.childrenOf?]

end Alternatives

namespace Phrase

theorem DottedName.spells : (node .dottedName).Spells fun d => [DottedName.tree d] := by
  have hmore : Spells [[.t .dot, .t .name]] fun p : TokenOf .dot × TokenOf .name => [p.1.tree, p.2.tree] :=
    spells_token.andThen spells_token
  have hrest : (node .dottedRest).orNothing.Spells fun l : List (TokenOf .dot × TokenOf .name) =>
      l.flatMap fun p => [p.1.tree, p.2.tree] := Spells.list rfl (by decide) hmore
  have hrule : (ofRules .dottedName).Spells DottedName.children :=
    ((spells_token.andThen hrest).congr (by decide)).ofType (fun d => (d.head, d.rest))
      (fun ⟨a, b⟩ => ⟨⟨a, b⟩, rfl⟩) fun d => rfl
  exact hrule.node rfl

theorem Argument.spells : (node .argument).Spells fun a => [Argument.tree a] := by
  have hrule : (ofRules .argument).Spells Argument.children :=
    ((DottedName.spells.andThen (spells_token.andThen DottedName.spells).orNothing).congr (by decide)).ofType
      (fun a => (a.first, a.second)) (fun ⟨a, b⟩ => ⟨⟨a, b⟩, rfl⟩) fun a => rfl
  exact hrule.node rfl

theorem Directive.spells : (node .directive).Spells fun d => [Directive.tree d] := by
  have hargs : (enclosed .leftParen .rightParen .argument .arguments).Spells (Enclosed.children Argument.tree) :=
    spells_enclosed Argument.spells (by decide)
  have hrule : (ofRules .directive).Spells Directive.children :=
    ((spells_token.andThen (spells_token.andThen hargs.orNothing)).congr (by decide)).ofType
      (fun d => (d.sign, d.name, d.args)) (fun ⟨a, b, c⟩ => ⟨⟨a, b, c⟩, rfl⟩) fun d => rfl
  exact hrule.node rfl

theorem TypeRef.spells : (node .typeRef).Spells fun t => [TypeRef.tree t] := by
  have hrule : (ofRules .typeRef).Spells fun t : TypeRef => [t.path.tree] :=
    (DottedName.spells.congr (by decide)).ofType TypeRef.path (fun d => ⟨⟨d⟩, rfl⟩) fun t => rfl
  exact hrule.node rfl

theorem NamedField.spells : (node .namedField).Spells fun f => [NamedField.tree f] := by
  have hrule : (ofRules .namedField).Spells NamedField.children :=
    ((spells_token.andThen (spells_token.andThen TypeRef.spells)).congr (by decide)).ofType
      (fun f => (f.name, f.colon, f.type)) (fun ⟨a, b, c⟩ => ⟨⟨a, b, c⟩, rfl⟩) fun f => rfl
  exact hrule.node rfl

/-- Fields, by the alternative of the rule that they are of. -/
def Fields.alternative : Fields → Enclosed .leftParen .rightParen TypeRef ⊕ Enclosed .leftBrace .rightBrace NamedField
  | .positional types => .inl types
  | .named fields => .inr fields

theorem Fields.spells : (node .variantFields).Spells fun f => [Fields.tree f] := by
  have htypes : (ofRules .positionalFields).Spells (Enclosed.children TypeRef.tree) :=
    (spells_enclosed TypeRef.spells (by decide)).congr
      (show Same _ (enclosed .leftParen .rightParen .typeRef .positionalRest) by decide)
  have hfields : (ofRules .namedFields).Spells (Enclosed.children NamedField.tree) :=
    (spells_enclosed NamedField.spells (by decide)).congr
      (show Same _ (enclosed .leftBrace .rightBrace .namedField .namedFieldsRest) by decide)
  have hrule : (ofRules .variantFields).Spells fun f => [Fields.tree f] := by
    refine (((htypes.node rfl).either (hfields.node rfl)).congr (by decide)).ofType Fields.alternative ?_ ?_
    · rintro (types | fields)
      · exact ⟨.positional types, rfl⟩
      · exact ⟨.named fields, rfl⟩
    · rintro (types | fields) <;> rfl
  exact hrule.spliced rfl

theorem directives_spell : (node .directives).orNothing.Spells (List.map Directive.tree) := by
  have h : (node .directives).orNothing.Spells fun l : List Directive => l.flatMap fun d => [Directive.tree d] :=
    Spells.list rfl (by decide) Directive.spells
  exact h.ofType id (fun l => ⟨l, rfl⟩) fun l => List.map_eq_flatMap

theorem Variant.spells : (node .variant).Spells fun v => [Variant.tree v] := by
  have hrule : (ofRules .variant).Spells Variant.children :=
    ((directives_spell.andThen
      (spells_token.andThen (Fields.spells.orNothing.andThen spells_token.orNothing))).congr (by decide)).ofType
      (fun v => (v.directives, v.name, v.fields, v.comma)) (fun ⟨a, b, c, d⟩ => ⟨⟨a, b, c, d⟩, rfl⟩) fun v => rfl
  exact hrule.node rfl

theorem Union.spells : (node .union).Spells fun u => [Union.tree u] := by
  have hvariants : (node .variants).orNothing.Spells (List.map Variant.tree) :=
    (Spells.list (n := .variants) rfl (by decide) Variant.spells).ofType id (fun l => ⟨l, rfl⟩)
      fun l => List.map_eq_flatMap
  have hrule : (ofRules .union).Spells Union.children :=
    ((directives_spell.andThen (spells_token.andThen (spells_token.andThen (spells_token.andThen
      (hvariants.andThen spells_token))))).congr (by decide)).ofType
      (fun u => (u.directives, u.word, u.name, u.opening, u.variants, u.closing))
      (fun ⟨a, b, c, d, e, f⟩ => ⟨⟨a, b, c, d, e, f⟩, rfl⟩) fun u => rfl
  exact hrule.node rfl

theorem NewName.spells : ((token .asWord).andThen (token .name)).Spells NewName.children :=
  spells_token.andThen spells_token

theorem ImportName.spells : (node .importName).Spells fun n => [ImportName.tree n] := by
  have hrule : (ofRules .importName).Spells ImportName.children :=
    ((spells_token.andThen NewName.spells.orNothing).congr (by decide)).ofType (fun n => (n.name, n.newName))
      (fun ⟨a, b⟩ => ⟨⟨a, b⟩, rfl⟩) fun n => rfl
  exact hrule.node rfl

theorem WholeImport.spells_rule : (ofRules .wholeImport).Spells WholeImport.children :=
  ((spells_token.andThen (DottedName.spells.andThen NewName.spells.orNothing)).congr (by decide)).ofType
    (fun i => (i.word, i.module, i.newName)) (fun ⟨a, b, c⟩ => ⟨⟨a, b, c⟩, rfl⟩) fun i => rfl

theorem WholeImport.spells : (node .wholeImport).Spells fun i => [WholeImport.tree i] := spells_rule.node rfl

theorem NamesImport.spells : (node .namesImport).Spells fun i => [NamesImport.tree i] := by
  have hnames : (listed .importName .importNames).Spells (Listed.children ImportName.tree) :=
    spells_listed ImportName.spells (by decide)
  have hrule : (ofRules .namesImport).Spells NamesImport.children :=
    ((spells_token.andThen (DottedName.spells.andThen (spells_token.andThen hnames))).congr (by decide)).ofType
      (fun i => (i.word, i.module, i.importWord, i.names)) (fun ⟨a, b, c, d⟩ => ⟨⟨a, b, c, d⟩, rfl⟩) fun i => rfl
  exact hrule.node rfl

/-- An item, by the alternative of the rule that it is of. -/
def Item.alternative : Item → WholeImport ⊕ NamesImport ⊕ Union
  | .wholeImport i => .inl i
  | .namesImport i => .inr (.inl i)
  | .union u => .inr (.inr u)

theorem Item.spells : (node .item).Spells fun i => [Item.tree i] := by
  have hrule : (ofRules .item).Spells fun i => [Item.tree i] := by
    refine ((WholeImport.spells.either (NamesImport.spells.either Union.spells)).congr (by decide)).ofType
      Item.alternative ?_ ?_
    · rintro (i | i | u)
      · exact ⟨.wholeImport i, rfl⟩
      · exact ⟨.namesImport i, rfl⟩
      · exact ⟨.union u, rfl⟩
    · rintro (i | i | u) <;> rfl
  exact hrule.spliced rfl

theorem Schema.spells : (node .schema).Spells fun s => [Schema.tree s] := by
  have hitems : (node .items).orNothing.Spells (List.map Item.tree) :=
    (Spells.list (n := .items) rfl (by decide) Item.spells).ofType id (fun l => ⟨l, rfl⟩)
      fun l => List.map_eq_flatMap
  have hrule : (ofRules .schema).Spells fun s : Schema => s.items.map Item.tree :=
    (hitems.congr (by decide)).ofType Schema.items (fun l => ⟨⟨l⟩, rfl⟩) fun s => rfl
  exact hrule.node rfl

/-- The derivations from the start symbol are the schemas. -/
theorem derives_schema_iff {tree : Tree} : Derives [.n .schema] [tree] ↔ ∃ s : Schema, s.tree = tree := by
  rw [← makes_singleton_iff rfl, Schema.spells]
  simp only [List.cons.injEq, and_true]

end Phrase

end UnionBridge
