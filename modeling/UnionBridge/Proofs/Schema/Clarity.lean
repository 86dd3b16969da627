import UnionBridge.Proofs.Schema.Passage

/-! Clear schemas, in which no name is mistaken for a keyword. Few names can be: those of variants with directives, which
stand where a union may begin, and those after the first in an import, which stand where another item may begin. -/
namespace UnionBridge

open Alternatives
open UnionBridge.Tree (leavesOf)

namespace Imported

/-- No name after the first spells a keyword with which an item begins. -/
def Clear : Imported → Prop
  | .whole _ => True
  | .names _ more => ∀ n ∈ more, n.1 ≠ "from" ∧ n.1 ≠ "import" ∧ n.1 ≠ "union"

instance : (i : Imported) → Decidable i.Clear
  | .whole _ => isTrue trivial
  | .names _ more => inferInstanceAs (Decidable (∀ n ∈ more, n.1 ≠ "from" ∧ n.1 ≠ "import" ∧ n.1 ≠ "union"))

end Imported

/-- No directives before something that looks like the beginning of a union. -/
def Variant.Clear (v : Variant) : Prop := v.directives ≠ [] → v.name ≠ "union"

instance (v : Variant) : Decidable v.Clear := inferInstanceAs (Decidable (_ → _))

/-- No name stands where it is mistaken for a keyword. -/
structure Schema.Clear (s : Schema) : Prop where
  imports : ∀ i ∈ s.imports, i.imported.Clear
  variants : ∀ u ∈ s.unions, ∀ v ∈ u.variants, v.Clear

instance (s : Schema) : Decidable s.Clear :=
  decidable_of_iff ((∀ i ∈ s.imports, i.imported.Clear) ∧ ∀ u ∈ s.unions, ∀ v ∈ u.variants, v.Clear)
    ⟨fun h => ⟨h.1, h.2⟩, fun h => ⟨h.imports, h.variants⟩⟩

namespace Alternatives

/-- `("as" NAME)?` -/
def newName? : Alternatives := ((token .asWord).andThen (token .name)).orNothing

/-- `_variant_fields? ","?` -/
def fieldsAndComma : Alternatives := (node .variantFields).orNothing.andThen (token .comma).orNothing

/-- `directive* "union" NAME "{"` -/
def unionHead : Alternatives :=
  (node .directives).orNothing.andThen ((token .unionWord).andThen ((token .name).andThen (token .leftBrace)))

/-- `"from" dotted_name "import" import_name` -/
def namesHead : Alternatives :=
  (token .fromWord).andThen ((node .dottedName).andThen ((token .importWord).andThen (node .importName)))

section Checks

variable {n : Nonterminal} {q p : Nat}

/-- Something that holds of all states with room for a nonterminal. -/
def Everywhere (n : Nonterminal) (check : Nat → Bool) : Prop :=
  ∀ q < stateCount, ((stateRow q).next? (.n n)).isSome → check q

instance (n : Nonterminal) (check : Nat → Bool) : Decidable (Everywhere n check) :=
  inferInstanceAs (Decidable (∀ q < stateCount, _ → _))

theorem Everywhere.apply {check : Nat → Bool} (h : Everywhere n check) (hq : HasRoom n q) : check q := by
  obtain ⟨p, hp⟩ := Option.isSome_iff_exists.mp hq
  have hmem := StateRow.mem_gotos hp
  exact h q (lt_stateCount fun h => by rw [h] at hmem; cases hmem) hq

/-- What can be seen of the states with room for a nonterminal by going through them. -/
structure RoomsFit : Prop where
  importName : Everywhere .importName fun q =>
    (doubtful q).all fun k => k = .fromWord || k = .importWord || k = .unionWord
  newName : Everywhere .importName fun q => ((stateRow q).next? (.t .name)).all fun p => newName?.all (alongQuiet p)
  variant : Everywhere .variant fun q => ((token .name).andThen fieldsAndComma).all (alongQuiet q)
  directives : Everywhere .variant fun q => quiet q (.n .directives)
  afterDirectives : Everywhere .variant fun q =>
    ((stateRow q).next? (.n .directives)).all fun p => (doubtful p).all (· = .unionWord)
  fieldsAndComma : Everywhere .variant fun q => ((stateRow q).next? (.n .directives)).all fun p =>
    ((stateRow p).next? (.t .name)).all fun p' => fieldsAndComma.all (alongQuiet p')
  unionHead : Everywhere .union fun q => unionHead.all (alongQuiet q)
  namesHead : Everywhere .namesImport fun q => namesHead.all (alongQuiet q)
  wholeImport : Everywhere .wholeImport fun q => (ofRules .wholeImport).all (alongQuiet q)

instance roomsFit : Fact RoomsFit where
  out :=
    { importName := by decide +kernel
      newName := by decide +kernel
      variant := by decide +kernel
      directives := by decide +kernel
      afterDirectives := by decide +kernel
      fieldsAndComma := by decide +kernel
      unionHead := by decide +kernel
      namesHead := by decide +kernel
      wholeImport := by decide +kernel }

/-- Only a keyword with which an item begins can stand where the name of an import may stand. -/
theorem doubtful_importName (hq : HasRoom .importName q) {k : Terminal} (hk : k ∈ doubtful q) :
    k = .fromWord ∨ k = .importWord ∨ k = .unionWord := by
  simpa [or_assoc] using List.all_eq_true.mp (roomsFit.out.importName.apply hq) k hk

theorem quiet_newName (hq : HasRoom .importName q) (hp : (stateRow q).next? (.t .name) = some p) :
    ∀ Xs ∈ newName?, alongQuiet p Xs := by
  have h := roomsFit.out.newName.apply hq
  rw [hp] at h
  exact List.all_eq_true.mp h

theorem quiet_variant (hq : HasRoom .variant q) : ∀ Xs ∈ (token .name).andThen fieldsAndComma, alongQuiet q Xs := by
  exact List.all_eq_true.mp (roomsFit.out.variant.apply hq)

theorem quiet_directives (hq : HasRoom .variant q) : quiet q (.n .directives) :=
  roomsFit.out.directives.apply hq

/-- Only the beginning of a union can stand where the name of a variant may stand after directives. -/
theorem doubtful_variant (hq : HasRoom .variant q) (hp : (stateRow q).next? (.n .directives) = some p) {k : Terminal}
    (hk : k ∈ doubtful p) : k = .unionWord := by
  have h := roomsFit.out.afterDirectives.apply hq
  rw [hp] at h
  simpa using List.all_eq_true.mp h k hk

theorem quiet_fieldsAndComma {p' : Nat} (hq : HasRoom .variant q) (hp : (stateRow q).next? (.n .directives) = some p)
    (hp' : (stateRow p).next? (.t .name) = some p') : ∀ Xs ∈ fieldsAndComma, alongQuiet p' Xs := by
  have h := roomsFit.out.fieldsAndComma.apply hq
  rw [hp, Option.all_some, hp', Option.all_some] at h
  exact List.all_eq_true.mp h

theorem quiet_unionHead (hq : HasRoom .union q) : ∀ Xs ∈ unionHead, alongQuiet q Xs :=
  List.all_eq_true.mp (roomsFit.out.unionHead.apply hq)

theorem quiet_namesHead (hq : HasRoom .namesImport q) : ∀ Xs ∈ namesHead, alongQuiet q Xs :=
  List.all_eq_true.mp (roomsFit.out.namesHead.apply hq)

theorem quiet_wholeImport (hq : HasRoom .wholeImport q) : ∀ Xs ∈ ofRules .wholeImport, alongQuiet q Xs :=
  List.all_eq_true.mp (roomsFit.out.wholeImport.apply hq)

end Checks

end Alternatives

namespace Phrase

variable {q : Nat}

theorem TokenOf.text_ne {k : Terminal} {t : TokenOf k} {w : String} (h : t.word ≠ w) : t.1.text ≠ w.toList := by
  rintro heq
  exact h (by rw [TokenOf.word, Token.word, heq, String.ofList_toList])

theorem keyword_text {k : Terminal × List Char} (h : k ∈ Terminal.keywords) :
    (k.1 = .fromWord → k.2 = "from".toList) ∧ (k.1 = .importWord → k.2 = "import".toList) ∧
      (k.1 = .unionWord → k.2 = "union".toList) := by
  have hall : ∀ k ∈ Terminal.keywords, (k.1 = .fromWord → k.2 = "from".toList) ∧
      (k.1 = .importWord → k.2 = "import".toList) ∧ (k.1 = .unionWord → k.2 = "union".toList) := by
    decide
  exact hall k h

theorem ImportName.passes (n : ImportName) (h : n.name.word ≠ "from" ∧ n.name.word ≠ "import" ∧ n.name.word ≠ "union") :
    (node .importName).PassesAnywhere [n.tree] := by
  have hname : (token .name).PassesFrom (HasRoom .importName) [n.name.tree] := by
    refine passesFrom_name _ fun q hq k hk hdoubt => ?_
    rcases doubtful_importName hq hdoubt with hk' | hk' | hk'
    · exact (keyword_text hk).1 hk' ▸ TokenOf.text_ne h.1
    · exact (keyword_text hk).2.1 hk' ▸ TokenOf.text_ne h.2.1
    · exact (keyword_text hk).2.2 hk' ▸ TokenOf.text_ne h.2.2
  have hrest : newName?.PassesFrom (fun p => ∃ q, HasRoom .importName q ∧ (stateRow q).next? (.t .name) = some p)
      (childrenOf? NewName.children n.newName) :=
    .of_quiet ((NewName.spells.orNothing _).mpr ⟨n.newName, rfl⟩) fun p ⟨q, hq, hp⟩ => quiet_newName hq hp
  have hboth : ((token .name).andThen newName?).PassesFrom (HasRoom .importName) n.children := by
    refine hname.andThen hrest fun q hq Xs hXs p hp => ⟨q, hq, ?_⟩
    obtain rfl := List.mem_singleton.mp hXs
    simpa [path?] using hp
  have hrule : (ofRules .importName).PassesFrom (HasRoom .importName) n.children := hboth.congr (by decide)
  exact hrule.node

/-- The commas and names after the first one. -/
theorem ImportName.passes_more (more : List (TokenOf .comma × ImportName))
    (h : ∀ p ∈ more, p.2.name.word ≠ "from" ∧ p.2.name.word ≠ "import" ∧ p.2.name.word ≠ "union") :
    (node .importNames).orNothing.PassesAnywhere (more.flatMap fun p => [p.1.tree, p.2.tree]) := by
  refine passesAnywhere_list [.t .comma, .n .importName] rfl (by decide) more fun p hp => ?_
  exact (passesAnywhere_token p.1 (by decide)).andThen (ImportName.passes p.2 (h p hp)) fun _ _ _ _ _ _ => trivial

theorem NamesImport.passes (i : NamesImport) (h : i.meaning.imported.Clear) :
    (node .namesImport).PassesAnywhere [i.tree] := by
  have hmore : (node .importNames).orNothing.PassesAnywhere (i.names.more.flatMap fun p => [p.1.tree, p.2.tree]) :=
    ImportName.passes_more _ fun p hp => h p.2.meaning (List.mem_map.mpr ⟨p, hp, rfl⟩)
  have hhead : namesHead.PassesFrom (HasRoom .namesImport)
      [i.word.tree, i.module.tree, i.importWord.tree, i.names.first.tree] :=
    .of_quiet ((spells_token.andThen (DottedName.spells.andThen (spells_token.andThen ImportName.spells)) _).mpr
      ⟨(i.word, i.module, i.importWord, i.names.first), rfl⟩) fun q hq => quiet_namesHead hq
  have hall := hhead.andThen (hmore.andThen (passesAnywhere_comma i.names.comma) fun _ _ _ _ _ _ => trivial)
    fun _ _ _ _ _ _ => trivial
  have hrule : (ofRules .namesImport).PassesFrom (HasRoom .namesImport) i.children := hall.congr (by decide)
  exact hrule.node

theorem WholeImport.passes (i : WholeImport) : (node .wholeImport).PassesAnywhere [i.tree] := by
  have hmakes : (ofRules .wholeImport).Makes i.children := (WholeImport.spells_rule _).mpr ⟨i, rfl⟩
  have hrule : (ofRules .wholeImport).PassesFrom (HasRoom .wholeImport) i.children :=
    .of_quiet hmakes fun q hq => quiet_wholeImport hq
  exact hrule.node

section Variants

/-- After the directives of a variant. -/
def AfterDirectives (p : Nat) : Prop := ∃ q, HasRoom .variant q ∧ (stateRow q).next? (.n .directives) = some p

/-- After the directives of a variant and its name. -/
def AfterName (p' : Nat) : Prop := ∃ p, AfterDirectives p ∧ (stateRow p).next? (.t .name) = some p'

variable (v : Variant)

theorem Variant.makes_fieldsAndComma :
    fieldsAndComma.Makes (childrenOf? (fun f => [f.tree]) v.fields ++ childrenOf? (fun t => [t.tree]) v.comma) :=
  (Fields.spells.orNothing.andThen spells_token.orNothing _).mpr ⟨(v.fields, v.comma), rfl⟩

theorem Variant.passes_of_nil (hds : v.directives = []) : (ofRules .variant).PassesFrom (HasRoom .variant) v.children := by
  have hmakes : ((token .name).andThen fieldsAndComma).Makes v.children :=
    makes_andThen_iff.mpr ⟨[v.name.tree], _, by simp [children, hds], (spells_token _).mpr ⟨v.name, rfl⟩,
      v.makes_fieldsAndComma⟩
  have hquiet : ((token .name).andThen fieldsAndComma).PassesFrom (HasRoom .variant) v.children :=
    .of_quiet hmakes fun q hq => quiet_variant hq
  exact hquiet.congr (by decide)

theorem Variant.passes_of_ne_nil (hds : v.directives ≠ []) (hname : v.name.word ≠ "union") :
    (ofRules .variant).PassesFrom (HasRoom .variant) v.children := by
  have hdirectives : (node .directives).PassesFrom (HasRoom .variant) (v.directives.map Directive.tree) := by
    refine .of_quiet ?_ fun q hq Xs hXs => ?_
    · rcases makes_orNothing_iff.mp ((directives_spell _).mpr ⟨v.directives, rfl⟩) with hnil | hmakes
      · exact absurd (List.map_eq_nil_iff.mp hnil) hds
      · exact hmakes
    · obtain rfl := List.mem_singleton.mp hXs
      simp [alongQuiet, quiet_directives hq]
  have hnamed : (token .name).PassesFrom AfterDirectives [v.name.tree] := by
    refine passesFrom_name _ fun p ⟨q, hq, hp⟩ k hk hdoubt => ?_
    exact (keyword_text hk).2.2 (doubtful_variant hq hp hdoubt) ▸ TokenOf.text_ne hname
  have hrest : fieldsAndComma.PassesFrom AfterName _ :=
    .of_quiet v.makes_fieldsAndComma fun p' ⟨p, ⟨q, hq, hp⟩, hp'⟩ => quiet_fieldsAndComma hq hp hp'
  have hall := hdirectives.andThen (hnamed.andThen hrest fun p hp Xs hXs p' hp' => ⟨p, hp, by
      obtain rfl := List.mem_singleton.mp hXs
      simpa [path?] using hp'⟩) fun q hq Xs hXs p hp => ⟨q, hq, by
      obtain rfl := List.mem_singleton.mp hXs
      simpa [path?] using hp⟩
  exact hall.congr (by decide)

theorem Variant.passes (h : v.meaning.Clear) : (node .variant).PassesAnywhere [v.tree] := by
  have hrule : (ofRules .variant).PassesFrom (HasRoom .variant) v.children := by
    by_cases hds : v.directives = []
    · exact v.passes_of_nil hds
    · exact v.passes_of_ne_nil hds (h (by simpa [meaning] using hds))
  exact hrule.node

end Variants

theorem Union.passes (u : Union) (h : ∀ v ∈ u.variants, v.meaning.Clear) : (node .union).PassesAnywhere [u.tree] := by
  have hhead : unionHead.PassesFrom (HasRoom .union)
      (u.directives.map Directive.tree ++ [u.word.tree, u.name.tree, u.opening.tree]) :=
    .of_quiet ((directives_spell.andThen (spells_token.andThen (spells_token.andThen spells_token)) _).mpr
      ⟨(u.directives, u.word, u.name, u.opening), rfl⟩) fun q hq => quiet_unionHead hq
  have hvariants : (node .variants).orNothing.PassesAnywhere (u.variants.map Variant.tree) := by
    rw [List.map_eq_flatMap]
    exact passesAnywhere_list [.n .variant] rfl (by decide) u.variants fun v hv => v.passes (h v hv)
  have hall := hhead.andThen (hvariants.andThen (passesAnywhere_token u.closing (by decide)) fun _ _ _ _ _ _ => trivial)
    fun _ _ _ _ _ _ => trivial
  have hrule : (ofRules .union).PassesFrom (HasRoom .union) u.children := by
    have hchildren : u.children =
        (u.directives.map Directive.tree ++ [u.word.tree, u.name.tree, u.opening.tree]) ++
          (u.variants.map Variant.tree ++ [u.closing.tree]) := by
      simp [children]
    rw [hchildren]
    exact hall.congr (by decide)
  exact hrule.node

theorem Item.passes (i : Item) (himport : ∀ m, i.import? = some m → m.imported.Clear)
    (hunion : ∀ u, i.union? = some u → ∀ v ∈ u.variants, v.Clear) : (node .item).PassesAnywhere [i.tree] := by
  have hrule : (ofRules .item).PassesFrom (HasRoom .item) [i.tree] := by
    cases i with
    | wholeImport i => exact (i.passes.congr (B := ofRules .item) (by decide)).mono fun _ _ => trivial
    | namesImport i =>
      exact ((i.passes (himport _ rfl)).congr (B := ofRules .item) (by decide)).mono fun _ _ => trivial
    | union u =>
      refine ((u.passes fun v hv => hunion _ rfl _ ?_).congr (B := ofRules .item) (by decide)).mono fun _ _ => trivial
      exact List.mem_map.mpr ⟨v, hv, rfl⟩
  exact hrule.node

/-- A clear schema can be followed from the start with every token readable. -/
theorem Schema.exists_runs (s : Schema) (h : s.meaning.Clear) : ∃ top : Stack, Stack.Runs Readable [] s.tokens top := by
  have hitems : (node .items).orNothing.PassesAnywhere (s.items.map Item.tree) := by
    rw [List.map_eq_flatMap]
    refine passesAnywhere_list [.n .item] rfl (by decide) s.items fun i hi => i.passes (fun m hm => ?_) fun u hu => ?_
    · exact h.imports m (List.mem_filterMap.mpr ⟨i, hi, hm⟩)
    · exact h.variants u (List.mem_filterMap.mpr ⟨i, hi, hu⟩)
  obtain ⟨Xs, hXs, ts, hts, hpass⟩ := hitems.congr (B := ofRules .schema) (by decide)
  obtain ⟨i, r, hr, hleft, rfl⟩ := exists_rule_of_mem hXs
  obtain ⟨q, hq, _⟩ := exists_path_schema hr hleft
  have hstart : MayRead 0 0 := fun k hk => hk
  obtain ⟨e, hwalk, _⟩ := hpass 0 trivial q 0 hq hstart
  have hstate : Stack.state [] = 0 := rfl
  obtain ⟨top, _, hruns, _⟩ := Stack.exists_runs hwalk hstate hstate fun _ _ => rfl
  have hleaves : leavesOf ts = s.tokens := by
    rw [tokens, tree, ← hts, ← Tree.build, Tree.leaves_build]
  exact ⟨top, hleaves ▸ hruns⟩

end Phrase

end UnionBridge
