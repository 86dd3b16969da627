import UnionBridge.Proofs.Schema.Clarity
import UnionBridge.Proofs.Schema.Parsing
import UnionBridge.Proofs.Schema.Written

/-! Parsing undoes writing. The tokens read off the text of a schema make a phrase that denotes the schema, but for the
places in it; where the schema is clear, that phrase is what the parser finds. -/
namespace UnionBridge

open UnionBridge.Tree (leavesOf)
open Word (ofString)

/-! ### Schemas without places -/

def Argument.unplaced (a : Argument) : Argument := { a with place := default }

def Directive.unplaced (d : Directive) : Directive := ⟨d.name, d.args.map Argument.unplaced, default⟩

def Variant.unplaced (v : Variant) : Variant := ⟨v.name, v.body, v.directives.map Directive.unplaced, default⟩

def Union.unplaced (u : Union) : Union :=
  ⟨u.name, u.variants.map Variant.unplaced, u.directives.map Directive.unplaced, default⟩

def Import.unplaced (i : Import) : Import := { i with place := default }

def Schema.unplaced (s : Schema) : Schema := ⟨s.imports.map Import.unplaced, s.unions.map Union.unplaced⟩

/-- Whether a schema is clear does not depend on places. -/
theorem Schema.clear_unplaced {s : Schema} : s.unplaced.Clear ↔ s.Clear := by
  have hvariant (v : Variant) : v.unplaced.Clear ↔ v.Clear := by simp [Variant.Clear, Variant.unplaced]
  constructor
  · rintro ⟨himports, hvariants⟩
    refine ⟨fun i hi => himports i.unplaced (List.mem_map_of_mem hi), fun u hu v hv => (hvariant v).mp ?_⟩
    exact hvariants u.unplaced (List.mem_map_of_mem hu) v.unplaced (List.mem_map_of_mem hv)
  · rintro ⟨himports, hvariants⟩
    constructor
    · intro j hj
      obtain ⟨i, hi, rfl⟩ := List.mem_map.mp hj
      exact himports i hi
    · intro u' hu' v' hv'
      obtain ⟨u, hu, rfl⟩ := List.mem_map.mp hu'
      obtain ⟨v, hv, rfl⟩ := List.mem_map.mp hv'
      exact (hvariant v).mpr (hvariants u hu v hv)

/-! ### Phrases of words -/

/-- However some words are placed in a text, they are the tokens of something with a property. -/
def Writes {π : Type} (leaves : π → List Token) (ws : List Word) (P : π → Prop) : Prop :=
  ∀ ts : List Token, ts.map Token.key = ws → ∃ p, leaves p = ts ∧ P p

namespace Writes

variable {π ρ α μ : Type} {f : π → List Token} {g : ρ → List Token} {P : π → Prop} {Q : ρ → Prop} {ws vs : List Word}

theorem token {k : Terminal} {cs : List Char} : Writes (fun t : TokenOf k => [t.1]) [(k, cs)] fun _ => True := by
  intro ts hts
  obtain ⟨t, rfl, ht⟩ := List.map_eq_singleton_iff.mp hts
  exact ⟨⟨t, congrArg Prod.fst ht⟩, rfl, trivial⟩

theorem name {n : String} : Writes (fun t : TokenOf .name => [t.1]) [ofString n] fun t => t.word = n := by
  intro ts hts
  obtain ⟨t, rfl, ht⟩ := List.map_eq_singleton_iff.mp hts
  refine ⟨⟨t, congrArg Prod.fst ht⟩, rfl, ?_⟩
  have htext : t.text = n.toList := congrArg Prod.snd ht
  show String.ofList t.text = n
  rw [htext, String.ofList_toList]

theorem append (h : Writes f ws P) (h' : Writes g vs Q) :
    Writes (fun p : π × ρ => f p.1 ++ g p.2) (ws ++ vs) fun p => P p.1 ∧ Q p.2 := by
  intro ts hts
  obtain ⟨us, us', rfl, hus, hus'⟩ := List.map_eq_append_iff.mp hts
  obtain ⟨p, rfl, hp⟩ := h us hus
  obtain ⟨q, rfl, hq⟩ := h' us' hus'
  exact ⟨(p, q), rfl, hp, hq⟩

/-- The same tokens in another form. -/
theorem ofType (h : Writes f ws P) (toOther : π → ρ) (hg : ∀ p, g (toOther p) = f p) (hQ : ∀ p, P p → Q (toOther p)) :
    Writes g ws Q := by
  intro ts hts
  obtain ⟨p, rfl, hp⟩ := h ts hts
  exact ⟨toOther p, hg p, hQ p hp⟩

theorem list {words : α → List Word} {m : π → μ} {m' : α → μ} {l : List α}
    (h : ∀ a ∈ l, Writes f (words a) fun p => m p = m' a) :
    Writes (fun ps : List π => ps.flatMap f) (l.flatMap words) fun ps => ps.map m = l.map m' := by
  induction l with
  | nil =>
    intro ts hts
    exact ⟨[], (List.map_eq_nil_iff.mp hts).symm, rfl⟩
  | cons a l ih =>
    refine ((h a List.mem_cons_self).append (ih fun b hb => h b (List.mem_cons_of_mem _ hb))).ofType
      (fun p => p.1 :: p.2) (fun p => List.flatMap_cons) fun p hp => ?_
    rw [List.map_cons, List.map_cons, hp.1, hp.2]

end Writes

theorem Tree.leavesOf_flatMap {α : Type} (f : α → List Tree) (l : List α) :
    leavesOf (l.flatMap f) = l.flatMap fun a => leavesOf (f a) := by
  induction l with
  | nil => rfl
  | cons a l ih => rw [List.flatMap_cons, leavesOf_append, ih, List.flatMap_cons]

theorem Tree.leavesOf_map {α : Type} (f : α → Tree) (l : List α) :
    leavesOf (l.map f) = l.flatMap fun a => (f a).leaves := by
  rw [List.map_eq_flatMap, leavesOf_flatMap]
  simp

namespace Phrase

section Lists

variable {π α μ : Type} {tree : π → Tree} {words : α → List Word} {m : π → μ} {m' : α → μ} {left right : Terminal}

theorem Listed.writes {a : α} {l : List α} (h : ∀ b ∈ a :: l, Writes (fun p => (tree p).leaves) (words b) fun p => m p = m' b) :
    Writes (fun p : Listed π => leavesOf (p.children tree)) (Word.commaList ((a :: l).map words))
      fun p => p.all.map m = (a :: l).map m' := by
  have hmore : Writes (fun ps : List (TokenOf .comma × π) => ps.flatMap fun p => [p.1.1] ++ (tree p.2).leaves)
      (l.flatMap fun b => [Word.comma] ++ words b) fun ps => ps.map (fun p => m p.2) = l.map m' :=
    .list fun b hb => (Writes.token.append (h b (List.mem_cons_of_mem _ hb))).ofType id (fun _ => rfl) fun _ hp => hp.2
  rw [Word.commaList, List.map_cons, Prints.intercalate_cons, List.flatMap_map]
  refine ((h a List.mem_cons_self).append hmore).ofType (fun p => ⟨p.1, p.2, none⟩) (fun p => ?_) fun p hp => ?_
  · simp [children, childrenOf?, leavesOf, Tree.leavesOf_flatMap, TokenOf.tree, Tree.leaves]
  · simp [all, hp.1, Function.comp_def, hp.2]

/-- A bracketed list without a comma at its end. -/
theorem Enclosed.writes {left right : Terminal} {cl cr : List Char} {l : List α}
    (h : ∀ a ∈ l, Writes (fun p => (tree p).leaves) (words a) fun p => m p = m' a) :
    Writes (fun p : Enclosed left right π => leavesOf (p.children tree))
      ((left, cl) :: (Word.commaList (l.map words) ++ [(right, cr)])) fun p => p.all.map m = l.map m' := by
  have hinner : Writes (fun o : Option (Listed π) => leavesOf (childrenOf? (Listed.children tree) o))
      (Word.commaList (l.map words)) fun o => ((o.map Listed.all).getD []).map m = l.map m' := by
    cases l with
    | nil =>
      intro ts hts
      exact ⟨none, (List.map_eq_nil_iff.mp hts).symm, rfl⟩
    | cons a l => exact (Listed.writes h).ofType some (fun _ => rfl) fun _ hp => hp
  refine ((Writes.token (k := left)).append (hinner.append (Writes.token (k := right)))).ofType
    (fun p => ⟨p.1, p.2.1, p.2.2⟩) (fun p => ?_) fun p hp => hp.2.1
  simp [children, leavesOf, TokenOf.tree, Tree.leaves]

end Lists

theorem DottedName.writes (d : UnionBridge.DottedName) :
    Writes (fun p : DottedName => p.tree.leaves) d.words fun p => p.meaning = d := by
  have hrest : Writes (fun ps : List (TokenOf .dot × TokenOf .name) => ps.flatMap fun p => [p.1.1] ++ [p.2.1])
      (d.rest.flatMap fun n => [(.dot, ['.'])] ++ [ofString n]) fun ps => ps.map (fun p => p.2.word) = d.rest.map id :=
    .list fun n _ => (Writes.token.append Writes.name).ofType id (fun _ => rfl) fun _ hp => hp.2
  refine (Writes.name.append hrest).ofType (fun p => ⟨p.1, p.2⟩) (fun p => ?_) fun p hp => ?_
  · simp [tree, children, Tree.leaves, leavesOf, Tree.leavesOf_flatMap, TokenOf.tree]
  · rw [meaning, hp.1, hp.2, List.map_id]

theorem Argument.writes (a : UnionBridge.Argument) :
    Writes (fun p : Argument => p.tree.leaves) a.words fun p => p.meaning.unplaced = a.unplaced := by
  rcases a with ⟨_ | key, value, place⟩
  · refine (DottedName.writes value).ofType (fun p => ⟨p, none⟩) (fun p => ?_) fun p hp => ?_
    · simp [tree, children, childrenOf?, Tree.leaves]
    · rw [meaning, hp]
      rfl
  · refine ((DottedName.writes key).append (Writes.token.append (DottedName.writes value))).ofType
      (fun p => ⟨p.1, some p.2⟩) (fun p => ?_) fun p hp => ?_
    · simp [tree, children, childrenOf?, Tree.leaves, leavesOf, TokenOf.tree]
    · simp only [meaning, hp.1, hp.2.2]
      rfl

theorem Directive.writes (d : UnionBridge.Directive) :
    Writes (fun p : Directive => p.tree.leaves) d.words fun p => p.meaning.unplaced = d.unplaced := by
  have hargs : Writes (fun p : Enclosed .leftParen .rightParen Argument => leavesOf (p.children Argument.tree))
      ((.leftParen, ['(']) :: (Word.commaList (d.args.map UnionBridge.Argument.words) ++ [(.rightParen, [')'])]))
      fun p => p.all.map (fun a => a.meaning.unplaced) = d.args.map UnionBridge.Argument.unplaced :=
    Enclosed.writes fun a _ => Argument.writes a
  refine (Writes.token.append (Writes.name.append hargs)).ofType (fun p => ⟨p.1, p.2.1, some p.2.2⟩) (fun p => ?_)
    fun p hp => ?_
  · simp [tree, children, childrenOf?, Tree.leaves, leavesOf, TokenOf.tree]
  · have hmeaning : (p.2.2.all.map Argument.meaning).map UnionBridge.Argument.unplaced =
        d.args.map UnionBridge.Argument.unplaced := by
      rw [List.map_map]
      exact hp.2.2
    simp [meaning, UnionBridge.Directive.unplaced, hp.2.1, hmeaning]

theorem NamedField.writes (f : String × UnionBridge.DottedName) :
    Writes (fun p : NamedField => p.tree.leaves) (ofString f.1 :: (.colon, [':']) :: f.2.words)
      fun p => p.meaning = f := by
  refine (Writes.name.append (Writes.token.append (DottedName.writes f.2))).ofType
    (fun p => ⟨p.1, p.2.1, ⟨p.2.2⟩⟩) (fun p => ?_) fun p hp => ?_
  · simp [tree, TypeRef.tree, children, Tree.leaves, leavesOf, TokenOf.tree]
  · simp [meaning, TypeRef.meaning, hp.1, hp.2.2]

theorem Fields.writes (b : Body) :
    Writes (fun p : Option Fields => leavesOf (childrenOf? (fun f => [f.tree]) p)) b.words
      fun p => (p.map Fields.meaning).getD .unit = b := by
  cases b with
  | unit =>
    intro ts hts
    exact ⟨none, (List.map_eq_nil_iff.mp hts).symm, rfl⟩
  | positional types =>
    have htypes : Writes (fun p : Enclosed .leftParen .rightParen TypeRef => leavesOf (p.children TypeRef.tree))
        (Body.positional types).words fun p => p.all.map TypeRef.meaning = types.map id :=
      Enclosed.writes fun t _ => (DottedName.writes t).ofType TypeRef.mk
        (fun p => by simp [TypeRef.tree, Tree.leaves]) fun _ hp => hp
    refine htypes.ofType (fun p => some (.positional p)) (fun p => ?_) fun p hp => ?_
    · simp [childrenOf?, tree, Tree.leaves]
    · simp [meaning, hp]
  | named fields =>
    have hfields : Writes (fun p : Enclosed .leftBrace .rightBrace NamedField => leavesOf (p.children NamedField.tree))
        (Body.named fields).words fun p => p.all.map NamedField.meaning = fields.map id :=
      Enclosed.writes fun f _ => NamedField.writes f
    refine hfields.ofType (fun p => some (.named p)) (fun p => ?_) fun p hp => ?_
    · simp [childrenOf?, tree, Tree.leaves]
    · simp [meaning, hp]

theorem directives_write (ds : List UnionBridge.Directive) :
    Writes (fun ps : List Directive => leavesOf (ps.map Directive.tree)) (ds.map UnionBridge.Directive.words).flatten
      fun ps => (ps.map Directive.meaning).map UnionBridge.Directive.unplaced = ds.map UnionBridge.Directive.unplaced := by
  rw [← List.flatMap_def]
  refine (Writes.list fun d _ => Directive.writes d).ofType id (fun ps => Tree.leavesOf_map _ ps) fun ps hps => ?_
  rw [List.map_map]
  exact hps

theorem Variant.writes (v : UnionBridge.Variant) :
    Writes (fun p : Variant => p.tree.leaves) v.chunks.flatten fun p => p.meaning.unplaced = v.unplaced := by
  have hwords : v.chunks.flatten = (v.directives.map UnionBridge.Directive.words).flatten ++ ([ofString v.name] ++ v.body.words) := by
    simp [UnionBridge.Variant.chunks]
  rw [hwords]
  refine ((directives_write v.directives).append (Writes.name.append (Fields.writes v.body))).ofType
    (fun p => ⟨p.1, p.2.1, p.2.2, none⟩) (fun p => ?_) fun p hp => ?_
  · simp [tree, children, childrenOf?, Tree.leaves, leavesOf, TokenOf.tree]
  · simp only [meaning, UnionBridge.Variant.unplaced, hp.1, hp.2.1, hp.2.2]

theorem Union.writes (u : UnionBridge.Union) :
    Writes (fun p : Union => p.tree.leaves) u.chunks.flatten fun p => p.meaning.unplaced = u.unplaced := by
  have hvariants : Writes (fun ps : List Variant => leavesOf (ps.map Variant.tree))
      (u.variants.flatMap fun v => v.chunks.flatten)
      fun ps => (ps.map Variant.meaning).map UnionBridge.Variant.unplaced = u.variants.map UnionBridge.Variant.unplaced := by
    refine (Writes.list fun v _ => Variant.writes v).ofType id (fun ps => Tree.leavesOf_map _ ps) fun ps hps => ?_
    rw [List.map_map]
    exact hps
  have hwords : u.chunks.flatten = (u.directives.map UnionBridge.Directive.words).flatten ++
      ([(.unionWord, "union".toList)] ++ ([ofString u.name] ++ ([(.leftBrace, ['\x7b'])] ++
        ((u.variants.flatMap fun v => v.chunks.flatten) ++ [(.rightBrace, ['\x7d'])])))) := by
    simp [UnionBridge.Union.chunks, List.flatMap_def, List.flatten_flatten, Function.comp_def]
  rw [hwords]
  refine ((directives_write u.directives).append (Writes.token.append (Writes.name.append (Writes.token.append
    (hvariants.append Writes.token))))).ofType (fun p => ⟨p.1, p.2.1, p.2.2.1, p.2.2.2.1, p.2.2.2.2.1, p.2.2.2.2.2⟩)
    (fun p => ?_) fun p hp => ?_
  · simp [tree, children, Tree.leaves, leavesOf, TokenOf.tree]
  · simp only [meaning, UnionBridge.Union.unplaced, hp.1, hp.2.2.1, hp.2.2.2.2.1]

theorem NewName.writes (n? : Option String) :
    Writes (fun p : Option NewName => leavesOf (childrenOf? NewName.children p)) (newNameWords n?)
      fun p => (p.map fun n => n.2.word) = n? := by
  cases n? with
  | none =>
    intro ts hts
    exact ⟨none, (List.map_eq_nil_iff.mp hts).symm, rfl⟩
  | some n =>
    refine (Writes.token.append Writes.name).ofType some (fun p => ?_) fun p hp => congrArg some hp.2
    simp [childrenOf?, children, leavesOf, TokenOf.tree, Tree.leaves]

theorem ImportName.writes (n : String × Option String) :
    Writes (fun p : ImportName => p.tree.leaves) (importNameWords n) fun p => p.meaning = n := by
  refine (Writes.name.append (NewName.writes n.2)).ofType (fun p => ⟨p.1, p.2⟩) (fun p => ?_) fun p hp => ?_
  · simp [tree, children, Tree.leaves, leavesOf, TokenOf.tree]
  · rw [meaning, hp.1, hp.2]

theorem WholeImport.writes (module : UnionBridge.DottedName) (newName? : Option String) (place : Place) :
    Writes (fun p : WholeImport => p.tree.leaves) (Import.words ⟨module, .whole newName?, place⟩)
      fun p => p.meaning.unplaced = Import.unplaced ⟨module, .whole newName?, place⟩ := by
  refine (Writes.token.append ((DottedName.writes module).append (NewName.writes newName?))).ofType
    (fun p => ⟨p.1, p.2.1, p.2.2⟩) (fun p => ?_) fun p hp => ?_
  · simp [tree, children, Tree.leaves, leavesOf, TokenOf.tree]
  · simp only [meaning, hp.2.1, hp.2.2]
    rfl

theorem NamesImport.writes (module : UnionBridge.DottedName) (first : String × Option String)
    (more : List (String × Option String)) (place : Place) :
    Writes (fun p : NamesImport => p.tree.leaves) (Import.words ⟨module, .names first more, place⟩)
      fun p => p.meaning.unplaced = Import.unplaced ⟨module, .names first more, place⟩ := by
  have hnames : Writes (fun p : Listed ImportName => leavesOf (p.children ImportName.tree))
      (Word.commaList ((first :: more).map importNameWords))
      fun p => p.all.map ImportName.meaning = (first :: more).map id :=
    Listed.writes fun n _ => ImportName.writes n
  refine (Writes.token.append ((DottedName.writes module).append (Writes.token.append hnames))).ofType
    (fun p => ⟨p.1, p.2.1, p.2.2.1, p.2.2.2⟩) (fun p => ?_) fun p hp => ?_
  · simp [tree, children, Tree.leaves, leavesOf, TokenOf.tree]
  · obtain ⟨hfirst, hmore⟩ : p.2.2.2.first.meaning = first ∧ p.2.2.2.more.map (fun q => q.2.meaning) = more := by
      simpa [Listed.all, Function.comp_def] using hp.2.2.2
    simp only [meaning, hp.2.1, hfirst, hmore]
    rfl

/-- What an item puts into a schema, without places. -/
def Item.parts (i : Item) : Option Import × Option UnionBridge.Union :=
  (i.import?.map Import.unplaced, i.union?.map UnionBridge.Union.unplaced)

theorem Item.writes (i : SchemaItem) :
    Writes (fun p : Item => p.tree.leaves) i.chunks.flatten
      fun p => p.parts = (i.getLeft?.map Import.unplaced, i.getRight?.map UnionBridge.Union.unplaced) := by
  rcases i with ⟨module, newName? | ⟨first, more⟩, place⟩ | u
  · rw [SchemaItem.chunks, List.flatten_cons, List.flatten_nil, List.append_nil]
    refine (WholeImport.writes module newName? place).ofType .wholeImport (fun _ => rfl) fun p hp => ?_
    simp [parts, import?, union?, hp]
  · rw [SchemaItem.chunks, List.flatten_cons, List.flatten_nil, List.append_nil]
    refine (NamesImport.writes module first more place).ofType .namesImport (fun _ => rfl) fun p hp => ?_
    simp [parts, import?, union?, hp]
  · refine (Union.writes u).ofType .union (fun _ => rfl) fun p hp => ?_
    simp [parts, import?, union?, hp]

theorem Schema.writes (items : List SchemaItem) :
    Writes Schema.tokens (items.flatMap SchemaItem.chunks).flatten
      fun p => p.meaning.unplaced =
        UnionBridge.Schema.unplaced ⟨items.filterMap Sum.getLeft?, items.filterMap Sum.getRight?⟩ := by
  have hwords : (items.flatMap SchemaItem.chunks).flatten = items.flatMap fun i => i.chunks.flatten := by
    simp [List.flatMap_def, List.flatten_flatten, Function.comp_def]
  rw [hwords]
  refine (Writes.list fun i _ => Item.writes i).ofType Schema.mk (fun ps => ?_) fun ps hps => ?_
  · simp [tokens, tree, Tree.leaves, Tree.leavesOf_map]
  · have himports := congrArg (List.filterMap Prod.fst) hps
    have hunions := congrArg (List.filterMap Prod.snd) hps
    simp only [List.filterMap_map, Function.comp_def, Item.parts] at himports hunions
    simp only [meaning, UnionBridge.Schema.unplaced, List.map_filterMap]
    rw [himports, hunions]

end Phrase

/-! ### Reading a schema back -/

namespace Schema

variable {s : Schema} {items : List SchemaItem} {text : String}

/-- A schema whose names match `NAME`, with none where a keyword is read for it, comes back from its text: its imports
and unions may be written in any order among each other, with any spaces between the pieces. -/
theorem parse_of_spaced (himports : items.filterMap Sum.getLeft? = s.imports)
    (hunions : items.filterMap Sum.getRight? = s.unions) (hspelled : s.Spelled) (hclear : s.Clear)
    (htext : Spaced (items.flatMap SchemaItem.pieces) text.toList) :
    ∃ s', parse text = .ok s' ∧ s'.unplaced = s.unplaced := by
  have hitem (i : SchemaItem) (hi : i ∈ items) : i.Spelled := by
    cases i with
    | inl i => exact hspelled.imports i (himports ▸ List.mem_filterMap.mpr ⟨_, hi, rfl⟩)
    | inr u => exact hspelled.unions u (hunions ▸ List.mem_filterMap.mpr ⟨_, hi, rfl⟩)
  have hlaid : Laid (items.flatMap SchemaItem.chunks).flatten text.toList :=
    PrintAll.laid (.flatMap fun i hi => (hitem i hi).prints) htext
  obtain ⟨tokens, hkeys, hreads⟩ := hlaid.exists_tokens {}
  obtain ⟨d, rfl, hd⟩ := Phrase.Schema.writes items tokens hkeys
  rw [himports, hunions] at hd
  have hmeaning : d.meaning.Clear := clear_unplaced.mp (hd ▸ clear_unplaced.mpr hclear)
  obtain ⟨top, hruns⟩ := d.exists_runs hmeaning
  exact ⟨d.meaning, parse_eq_ok_iff.mpr ⟨d.tokens, hreads [] top hruns, ofTokens_eq_ok_iff.mpr ⟨d, rfl, rfl⟩⟩, hd⟩

/-- A schema with names that spell keywords: all but two may be any. -/
def sample : Schema :=
  { imports := [⟨⟨"as", ["from"]⟩, .names ("union", some "import") [("x", none)], default⟩]
    unions :=
      [{ name := "from"
         variants :=
           [⟨"union", .unit, [], default⟩,
            ⟨"A", .named [("as", ⟨"import", ["x"]⟩)], [⟨"from_case", [⟨some ⟨"k", []⟩, ⟨"v", []⟩, default⟩], default⟩], default⟩,
            ⟨"import", .positional [⟨"int", []⟩, ⟨"str", []⟩], [], default⟩]
         directives := [⟨"union", [], default⟩]
         place := default }] }

theorem parse_of_spaced_sample :
    ∃ s', parse (" ".intercalate (([.inr sample.unions[0], .inl sample.imports[0]] : List SchemaItem).flatMap
      SchemaItem.pieces)) = .ok s' ∧ s'.unplaced = sample.unplaced :=
  parse_of_spaced rfl rfl (by decide) (by decide) (spaced_intercalate _)

end Schema

end UnionBridge
