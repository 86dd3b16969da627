import UnionBridge.Proofs.Schema.Parsing
import UnionBridge.Proofs.Schema.Spacing

/-! The places of tokens and of what a schema is made of: lines and columns are those of the text, and every node has the
place of its first token. -/
namespace UnionBridge

variable {before cs ds gap line rest text : List Char} {c : Char} {t t' : Token} {ts : List Token} {p q r : Place}

/-! ### Lines and columns -/

namespace Place

/-- Where a text goes on after some of it: one line down for each line feed, and one column to the right for each
character behind the last of them. -/
def after (before : List Char) : Place :=
  ⟨before.count '\n' + 1, (before.reverse.takeWhile (· ≠ '\n')).length + 1⟩

/-- The order in which text is read. -/
def Before (p q : Place) : Prop := p.line < q.line ∨ p.line = q.line ∧ p.column < q.column

theorem Before.trans (hpq : p.Before q) (hqr : q.Before r) : p.Before r := by
  unfold Before at *
  omega

theorem after_concat (cs : List Char) (c : Char) :
    after (cs ++ [c]) = if c = '\n' then ⟨(after cs).line + 1, 1⟩ else ⟨(after cs).line, (after cs).column + 1⟩ := by
  by_cases hc : c = '\n'
  · subst hc
    simp [after]
  · simp [after, hc]

theorem before_after_concat (cs : List Char) (c : Char) : (after cs).Before (after (cs ++ [c])) := by
  rw [after_concat, Before]
  split
  · exact .inl (Nat.lt_succ_self _)
  · exact .inr ⟨rfl, Nat.lt_succ_self _⟩

/-- More text leads further. -/
theorem before_after_append (cs : List Char) (hds : ds ≠ []) : (after cs).Before (after (cs ++ ds)) := by
  induction ds using List.reverseRecOn with
  | nil => exact absurd rfl hds
  | append_singleton ds c ih =>
    rw [← List.append_assoc]
    by_cases hnil : ds = []
    · rw [hnil, List.append_nil]
      exact before_after_concat cs c
    · exact (ih hnil).trans (before_after_concat _ c)

end Place

/-- The position that the lexer counts up to is that after the text that it has read. -/
theorem Position.after_eq (cs : List Char) :
    Position.after {} cs = ⟨(Place.after cs).line, (Place.after cs).column, cs.length⟩ := by
  induction cs using List.reverseRecOn with
  | nil => rfl
  | append_singleton cs c ih =>
    have hnext : Position.after {} (cs ++ [c]) = (Position.after {} cs).next c := Position.after_append _ _ _
    rw [hnext, ih, Position.next, Place.after_concat]
    split <;> simp

/-! ### The text between tokens -/

/-- What may stand behind the last token: something that may stand between tokens, and perhaps a comment. -/
inductive Trailer : List Char → Prop
  | filler {gap : List Char} (h : Filler gap) : Trailer gap
  | comment {gap line : List Char} (h : Filler gap) (hline : '\n' ∉ line) : Trailer (gap ++ '#' :: line)

theorem Trailer.space (hc : Lexer.isSpace c) (h : Trailer gap) : Trailer (c :: gap) := by
  cases h with
  | filler h => exact .filler (.space hc h)
  | comment h hline => exact .comment (.space hc h) hline

theorem Trailer.below (hline : '\n' ∉ line) (h : Trailer gap) : Trailer ('#' :: (line ++ '\n' :: gap)) := by
  cases h with
  | filler h => exact .filler (.comment hline h)
  | @comment gap line' h hline' =>
    have hall := Trailer.comment (.comment hline h) hline'
    rwa [List.cons_append, List.append_assoc, List.cons_append] at hall

namespace Lexer

/-- What the lexer passes over in a comment: the rest of its line, and what follows. -/
def Passes (rest : List Char) (P : List Char → Prop) : Bool → Prop
  | false => P rest
  | true => '\n' ∉ rest ∨ ∃ line gap, rest = line ++ '\n' :: gap ∧ '\n' ∉ line ∧ P gap

theorem Passes.cons {P : List Char → Prop} (h : Passes rest P (c ≠ '\n')) : Passes (c :: rest) P true := by
  by_cases hc : c = '\n'
  · subst hc
    exact .inr ⟨[], rest, rfl, List.not_mem_nil, h⟩
  · rw [decide_eq_true hc] at h
    rcases h with h | ⟨line, gap, rfl, hline, hgap⟩
    · exact .inl (by simp [Ne.symm hc, h])
    · exact .inr ⟨c :: line, gap, rfl, by simp [Ne.symm hc, hline], hgap⟩

/-- Where the lexer comes to the end of a text, all of it may stand behind the last token. -/
theorem passes_trailer {inComment : Bool} {p : Position} (h : (skip inComment cs p).rest = []) :
    Passes cs Trailer inComment := by
  induction cs generalizing inComment p with
  | nil =>
    cases inComment
    · exact .filler .nil
    · exact .inl List.not_mem_nil
  | cons c cs ih =>
    rw [skip] at h
    split at h
    · rename_i hcomment
      subst hcomment
      exact (ih h).cons
    · rename_i hcomment
      obtain rfl : inComment = false := by simpa using hcomment
      split at h
      · rename_i hspace
        exact Trailer.space hspace (ih h)
      · split at h
        · rename_i hsign
          subst hsign
          rcases ih h with hline | ⟨line, gap, rfl, hline, hgap⟩
          · exact .comment .nil hline
          · exact hgap.below hline
        · cases h

theorem skip_line (hline : '\n' ∉ line) (p : Position) : (skip true line p).rest = [] := by
  induction line generalizing p with
  | nil => rfl
  | cons c line ih =>
    rw [List.mem_cons, not_or] at hline
    rw [skip, if_pos rfl, decide_eq_true (Ne.symm hline.1)]
    exact ih hline.2 _

/-- What the lexer passes over before any text may stand between tokens. -/
theorem Skips.filler (h : Skips false gap) : Filler gap := by
  have hend : (skip false gap {}).rest = [] := by
    rw [← List.append_nil gap, h]
    rfl
  cases passes_trailer hend with
  | filler h => exact h
  | @comment gap line hgap hline =>
    -- the comment would go on into what follows
    have hafter : (skip false (gap ++ '#' :: line ++ ['x']) {}).rest = ['x'] := by
      rw [h]
      rfl
    rw [List.append_assoc, skips_of_filler hgap] at hafter
    have hcomment : (skip false ('#' :: line ++ ['x']) (Position.after {} gap)).rest = [] := skip_line (by simp [hline]) _
    cases hafter.symm.trans hcomment

end Lexer

/-! ### Tokens in a text -/

/-- A text, behind what was before it, is made of tokens, each spelled as its terminal demands and with the place where
it stands, and of what may stand between them. -/
inductive Woven : (before : List Char) → List Token → List Char → Prop
  | nil {before gap : List Char} (hgap : Trailer gap) : Woven before [] gap
  | cons {before gap rest : List Char} {t : Token} {ts : List Token} (hgap : Filler gap) (hword : t.key.Valid)
      (hplace : t.place = Place.after (before ++ gap)) (hrest : Woven (before ++ gap ++ t.text) ts rest) :
      Woven before (t :: ts) (gap ++ (t.text ++ rest))

/-- A place in a text behind which some other text stands. -/
def Place.Shows (p : Place) (source text : List Char) : Prop :=
  ∃ before rest, source = before ++ (text ++ rest) ∧ p = Place.after before

theorem Parse.Reads.woven {stack : Stack} (h : Parse.Reads stack ⟨text, Position.after {} before⟩ ts) :
    Woven before ts text := by
  induction ts generalizing stack before text with
  | nil => exact .nil (Lexer.passes_trailer (Lexer.next_eq_finish_iff.mp h))
  | cons t ts ih =>
    obtain ⟨after, next, hnext, _, hreads⟩ := h
    obtain ⟨gap, rest, rfl, hgap, hstart, rfl, hmatched⟩ := Lexer.exists_of_next hnext
    rw [← Position.after_append] at hstart
    rw [hstart, ← Position.after_append] at hreads
    refine .cons hgap.filler hmatched.valid ?_ (ih hreads)
    rw [Token.place, hstart, Position.after_eq]

namespace Woven

theorem exists_before (h : Woven before ts text) (ht : t ∈ ts) :
    ∃ gap rest, before ++ text = before ++ gap ++ (t.text ++ rest) ∧ t.place = Place.after (before ++ gap) := by
  induction h with
  | nil _ => cases ht
  | @cons before gap rest t' ts _ _ hplace _ ih =>
    rcases List.mem_cons.mp ht with rfl | ht
    · exact ⟨gap, rest, (List.append_assoc _ _ _).symm, hplace⟩
    · obtain ⟨gap', rest', heq, hplace'⟩ := ih ht
      refine ⟨gap ++ t'.text ++ gap', rest', ?_, ?_⟩
      · simp only [List.append_assoc] at heq ⊢
        exact heq
      · simp only [List.append_assoc] at hplace' ⊢
        exact hplace'

theorem valid (h : Woven before ts text) (ht : t ∈ ts) : t.key.Valid := by
  induction h with
  | nil _ => cases ht
  | cons _ hword _ _ ih =>
    rcases List.mem_cons.mp ht with rfl | ht
    · exact hword
    · exact ih ht

theorem shows (h : Woven [] ts text) (ht : t ∈ ts) : t.place.Shows text t.text := by
  obtain ⟨gap, rest, heq, hplace⟩ := h.exists_before ht
  exact ⟨gap, rest, heq, hplace⟩

/-- Later tokens have later places. -/
theorem increasing (h : Woven before ts text) : (ts.map Token.place).Pairwise Place.Before := by
  induction h with
  | nil _ => exact List.Pairwise.nil
  | @cons before gap rest t ts _ hword hplace hrest ih =>
    refine List.pairwise_cons.mpr ⟨fun p hp => ?_, ih⟩
    obtain ⟨t', ht', rfl⟩ := List.mem_map.mp hp
    obtain ⟨gap', _, _, hplace'⟩ := hrest.exists_before ht'
    obtain ⟨c, cs, htext, _⟩ := hword.head
    have htext : t.text ≠ [] := fun hnil => List.cons_ne_nil c cs (htext.symm.trans hnil)
    rw [hplace, hplace', List.append_assoc (before ++ gap)]
    exact Place.before_after_append _ (by simp [htext])

end Woven

/-- All tokens of a terminal that is a keyword or a mark are spelled alike. -/
theorem Word.Valid.text_eq {k : Terminal} (h : Word.Valid (k, text)) (h' : Word.Valid (k, ds)) (hk : k ≠ .name) :
    text = ds := by
  have hkeywords : ∀ w ∈ Terminal.keywords, ∀ w' ∈ Terminal.keywords, w.1 = w'.1 → w.2 = w'.2 := by decide
  have hmarks : ∀ m ∈ marks, ∀ m' ∈ marks, m.2 = m'.2 → m.1 = m'.1 := by decide
  have happart : ∀ w ∈ Terminal.keywords, ∀ m ∈ marks, w.1 ≠ m.2 := by decide
  cases h with
  | name _ => exact absurd rfl hk
  | keyword hw =>
    cases h' with
    | name _ => exact absurd rfl hk
    | keyword hw' => exact hkeywords _ hw _ hw' rfl
    | mark hc => exact absurd rfl (happart _ hw _ (mem_marks hc))
  | mark hc =>
    cases h' with
    | name _ => exact absurd rfl hk
    | keyword hw' => exact absurd rfl (happart _ hw' _ (mem_marks hc))
    | mark hc' => exact congrArg (fun c => [c]) (hmarks _ (mem_marks hc) _ (mem_marks hc') rfl)

/-! ### The first tokens of phrases -/

/-- The first tokens of phrases that stand one after the other are among all of their tokens, in the same order. -/
theorem sublist_leavesOf {α : Type} {tree : α → Tree} {first : α → Token} (h : ∀ a, (tree a).leaves.head? = some (first a))
    (l : List α) : (l.map first).Sublist (Tree.leavesOf (l.map tree)) := by
  induction l with
  | nil => exact List.Sublist.slnil
  | cons a l ih =>
    rw [List.map_cons, List.map_cons, Tree.leavesOf]
    obtain ⟨rest, hrest⟩ := List.head?_eq_some_iff.mp (h a)
    rw [hrest, List.cons_append]
    exact (ih.trans (List.sublist_append_right rest _)).cons_cons _

theorem within_leavesOf {node : Tree} {nodes : List Tree} (h : node ∈ nodes) : node.leaves <:+: Tree.leavesOf nodes := by
  obtain ⟨left, right, rfl⟩ := List.append_of_mem h
  rw [Tree.leavesOf_append, Tree.leavesOf]
  exact ⟨Tree.leavesOf left, Tree.leavesOf right, List.append_assoc _ _ _⟩

namespace Phrase

def Argument.leading (a : Argument) : Token := a.first.head.1

def Directive.leading (d : Directive) : Token := d.sign.1

def Variant.leading (v : Variant) : Token := (v.directives.head?.map Directive.leading).getD v.name.1

def Union.leading (u : Union) : Token := (u.directives.head?.map Directive.leading).getD u.word.1

def Item.leading : Item → Token
  | .wholeImport i => i.word.1
  | .namesImport i => i.word.1
  | .union u => u.leading

theorem Argument.head?_leaves (a : Argument) : a.tree.leaves.head? = some a.leading := rfl

theorem Directive.head?_leaves (d : Directive) : d.tree.leaves.head? = some d.leading := rfl

theorem Variant.head?_leaves (v : Variant) : v.tree.leaves.head? = some v.leading := by
  rcases v with ⟨_ | ⟨d, ds⟩, name, fields, comma⟩ <;> rfl

theorem Union.head?_leaves (u : Union) : u.tree.leaves.head? = some u.leading := by
  rcases u with ⟨_ | ⟨d, ds⟩, word, name, opening, variants, closing⟩ <;> rfl

theorem Item.head?_leaves (i : Item) : i.tree.leaves.head? = some i.leading := by
  rcases i with i | i | u
  · rfl
  · rfl
  · exact u.head?_leaves

theorem Argument.place_meaning (a : Argument) : a.meaning.place = a.leading.place := by
  rcases a with ⟨first, _ | ⟨equal, value⟩⟩ <;> rfl

theorem Directive.place_meaning (d : Directive) : d.meaning.place = d.leading.place := rfl

theorem Variant.place_meaning (v : Variant) : v.meaning.place = v.leading.place := by
  rcases v with ⟨_ | ⟨d, ds⟩, name, fields, comma⟩ <;> rfl

theorem Union.place_meaning (u : Union) : u.meaning.place = u.leading.place := by
  rcases u with ⟨_ | ⟨d, ds⟩, word, name, opening, variants, closing⟩ <;> rfl

end Phrase

/-! ### Places in a schema -/

/-- How the text of an import begins. -/
def Import.opening (i : Import) : String :=
  match i.imported with
  | .whole _ => "import"
  | .names _ _ => "from"

def Argument.opening (a : Argument) : String := (a.key.getD a.value).head

def Variant.opening (v : Variant) : String := if v.directives.isEmpty then v.name else "@"

def Union.opening (u : Union) : String := if u.directives.isEmpty then "union" else "@"

/-- All directives of a union and of its variants. -/
def Union.allDirectives (u : Union) : List Directive := u.directives ++ u.variants.flatMap (·.directives)

/-- A node of a parse tree is made of tokens one after the other. The first of them is at some place in the text and
spells what stands there. -/
structure Tree.Opens (source : List Char) (ts : List Token) (node : Tree) (p : Place) (text : String) : Prop where
  within : node.leaves <:+: ts
  leads : ∃ t, node.leaves.head? = some t ∧ t.place = p ∧ t.word = text
  shows : p.Shows source text.toList

/-- Every part of a schema comes from a node with the same place, and parts of one list stand one after the other. -/
structure Schema.Located (source : List Char) (ts : List Token) (s : Schema) : Prop where
  imports : ∀ i ∈ s.imports, ∃ node : Tree, node.import? = some i ∧ node.Opens source ts i.place i.opening
  unions : ∀ u ∈ s.unions, ∃ node : Tree, node.union? = some u ∧ node.Opens source ts u.place u.opening
  variants : ∀ u ∈ s.unions, ∀ v ∈ u.variants,
    ∃ node : Tree, node.variant? = some v ∧ node.Opens source ts v.place v.opening
  directives : ∀ u ∈ s.unions, ∀ d ∈ u.allDirectives,
    ∃ node : Tree, node.directive? = some d ∧ node.Opens source ts d.place "@"
  arguments : ∀ u ∈ s.unions, ∀ d ∈ u.allDirectives, ∀ a ∈ d.args,
    ∃ node : Tree, node.argument? = some a ∧ node.Opens source ts a.place a.opening
  importsInOrder : (s.imports.map (·.place)).Pairwise Place.Before
  unionsInOrder : (s.unions.map (·.place)).Pairwise Place.Before
  variantsInOrder : ∀ u ∈ s.unions, (u.variants.map (·.place)).Pairwise Place.Before
  directivesInOrder : ∀ u ∈ s.unions, (u.directives.map (·.place)).Pairwise Place.Before ∧
    ∀ v ∈ u.variants, (v.directives.map (·.place)).Pairwise Place.Before

namespace Woven

variable {source : List Char} {node : Tree} {word : String} (h : Woven [] ts source)
include h

theorem opens (hwithin : node.leaves <:+: ts) (hhead : node.leaves.head? = some t) (hplace : p = t.place)
    (htext : t.text = word.toList) : node.Opens source ts p word := by
  have ht : t ∈ ts := hwithin.subset (List.mem_of_head? hhead)
  refine ⟨hwithin, ⟨t, hhead, hplace.symm, ?_⟩, hplace ▸ htext ▸ h.shows ht⟩
  rw [Token.word, htext, String.ofList_toList]

/-- Where a node begins with a keyword or a mark, that is what stands there. -/
theorem opens_word {k : Terminal} (first : TokenOf k) (hwithin : node.leaves <:+: ts)
    (hhead : node.leaves.head? = some first.1) (hplace : p = first.place) (hword : Word.Valid (k, word.toList))
    (hk : k ≠ .name) : node.Opens source ts p word := by
  have hvalid : Word.Valid (k, first.1.text) := by
    have hvalid := h.valid (hwithin.subset (List.mem_of_head? hhead))
    rwa [Token.key, first.2] at hvalid
  exact h.opens hwithin hhead hplace (hvalid.text_eq hword hk)

/-- Where it begins with a name, that is what stands there. -/
theorem opens_name {first : TokenOf .name} (hwithin : node.leaves <:+: ts) (hhead : node.leaves.head? = some first.1)
    (hplace : p = first.place) : node.Opens source ts p first.word :=
  h.opens hwithin hhead hplace (by rw [TokenOf.word, Token.word, String.toList_ofList])

theorem opens_argument {a : Phrase.Argument} (hwithin : a.tree.leaves <:+: ts) :
    a.tree.Opens source ts a.meaning.place a.meaning.opening := by
  have hopens := h.opens_name hwithin a.head?_leaves a.place_meaning
  rcases a with ⟨first, _ | ⟨equal, value⟩⟩ <;> exact hopens

theorem opens_directive {d : Phrase.Directive} (hwithin : d.tree.leaves <:+: ts) :
    d.tree.Opens source ts d.meaning.place "@" :=
  h.opens_word d.sign hwithin d.head?_leaves rfl (.mark rfl) (by decide)

theorem opens_variant {v : Phrase.Variant} (hwithin : v.tree.leaves <:+: ts) :
    v.tree.Opens source ts v.meaning.place v.meaning.opening := by
  rcases v with ⟨_ | ⟨d, ds⟩, name, fields, comma⟩
  · exact h.opens_name hwithin (Phrase.Variant.head?_leaves _) rfl
  · have hsign : Word.Valid (.at, "@".toList) := .mark rfl
    exact h.opens_word d.sign hwithin (Phrase.Variant.head?_leaves _) rfl hsign (by decide)

theorem opens_union {u : Phrase.Union} (hwithin : u.tree.leaves <:+: ts) :
    u.tree.Opens source ts u.meaning.place u.meaning.opening := by
  rcases u with ⟨_ | ⟨d, ds⟩, word, name, opening, variants, closing⟩
  · have hword : Word.Valid (.unionWord, "union".toList) := .keyword (by decide)
    exact h.opens_word word hwithin (Phrase.Union.head?_leaves _) rfl hword (by decide)
  · have hsign : Word.Valid (.at, "@".toList) := .mark rfl
    exact h.opens_word d.sign hwithin (Phrase.Union.head?_leaves _) rfl hsign (by decide)

theorem opens_import {i : Phrase.Item} {imp : Import} (himp : i.import? = some imp) (hwithin : i.tree.leaves <:+: ts) :
    i.tree.import? = some imp ∧ i.tree.Opens source ts imp.place imp.opening := by
  rcases i with i | i | u
  · obtain rfl := Option.some.inj himp
    have hword : Word.Valid (.importWord, "import".toList) := .keyword (by decide)
    exact ⟨i.wholeImport?_tree, h.opens_word i.word hwithin rfl rfl hword (by decide)⟩
  · obtain rfl := Option.some.inj himp
    have hword : Word.Valid (.fromWord, "from".toList) := .keyword (by decide)
    exact ⟨i.namesImport?_tree, h.opens_word i.word hwithin rfl rfl hword (by decide)⟩
  · cases himp

/-- Phrases that stand one after the other have their places in that order. -/
theorem pairwise_places {α : Type} {tree : α → Tree} {leading : α → Token}
    (hhead : ∀ a, (tree a).leaves.head? = some (leading a)) {l : List α}
    (hwithin : (Tree.leavesOf (l.map tree)).Sublist ts) : (l.map fun a => (leading a).place).Pairwise Place.Before := by
  have hsub := ((sublist_leavesOf hhead l).trans hwithin).map Token.place
  rw [List.map_map] at hsub
  exact h.increasing.sublist hsub

end Woven

theorem sublist_filterMap {α β γ : Type} {f : α → Option β} {g : β → γ} {g' : α → γ} (h : ∀ a b, f a = some b → g b = g' a)
    (l : List α) : ((l.filterMap f).map g).Sublist (l.map g') := by
  induction l with
  | nil => exact List.Sublist.slnil
  | cons a l ih =>
    rw [List.map_cons]
    cases hf : f a with
    | none =>
      rw [List.filterMap_cons_none hf]
      exact ih.cons _
    | some b =>
      rw [List.filterMap_cons_some hf, List.map_cons, h a b hf]
      exact ih.cons_cons _

namespace Phrase

/-! Parts of a phrase have their tokens among those of the phrase. -/

theorem Directive.within_argument {d : Directive} {a : UnionBridge.Argument} (ha : a ∈ d.meaning.args) :
    ∃ a' : Argument, a'.meaning = a ∧ a'.tree.leaves <:+: d.tree.leaves := by
  obtain ⟨a', ha', rfl⟩ := List.mem_map.mp ha
  refine ⟨a', rfl, within_leavesOf ?_⟩
  rcases d with ⟨sign, name, _ | e⟩
  · cases ha'
  · have hmem : a'.tree ∈ (e.children Argument.tree).filter (Tree.is .argument) := by
      rw [e.filter_children fun _ => rfl]
      exact List.mem_map.mpr ⟨a', ha', rfl⟩
    exact List.mem_cons_of_mem _ (List.mem_cons_of_mem _ (List.mem_filter.mp hmem).1)

theorem Variant.within_directives (v : Variant) : Tree.leavesOf (v.directives.map Directive.tree) <:+: v.tree.leaves := by
  have hleaves : v.tree.leaves = Tree.leavesOf (v.directives.map Directive.tree) ++ Tree.leavesOf _ :=
    Tree.leavesOf_append _ _
  exact ⟨[], _, by rw [hleaves, List.nil_append]⟩

theorem Union.leaves_tree (u : Union) : ∃ mid last, u.tree.leaves =
    Tree.leavesOf (u.directives.map Directive.tree) ++ (mid ++ (Tree.leavesOf (u.variants.map Variant.tree) ++ last)) := by
  refine ⟨[u.word.1, u.name.1, u.opening.1], [u.closing.1], ?_⟩
  simp only [tree, children, Tree.leaves, Tree.leavesOf_append, Tree.leavesOf, TokenOf.tree, List.cons_append,
    List.nil_append, List.append_nil]

theorem Union.within_directives (u : Union) : Tree.leavesOf (u.directives.map Directive.tree) <:+: u.tree.leaves := by
  obtain ⟨mid, last, hleaves⟩ := u.leaves_tree
  exact ⟨[], _, by rw [hleaves, List.nil_append]⟩

theorem Union.within_variants (u : Union) : Tree.leavesOf (u.variants.map Variant.tree) <:+: u.tree.leaves := by
  obtain ⟨mid, last, hleaves⟩ := u.leaves_tree
  exact ⟨Tree.leavesOf (u.directives.map Directive.tree) ++ mid, last, by simp only [hleaves, List.append_assoc]⟩

theorem Union.within_variant {u : Union} {v : Variant} (hv : v ∈ u.variants) : v.tree.leaves <:+: u.tree.leaves :=
  (within_leavesOf (List.mem_map.mpr ⟨v, hv, rfl⟩)).trans u.within_variants

theorem Union.within_directive {u : Union} {d : UnionBridge.Directive} (hd : d ∈ u.meaning.allDirectives) :
    ∃ d' : Directive, d'.meaning = d ∧ d'.tree.leaves <:+: u.tree.leaves := by
  rcases List.mem_append.mp hd with hd | hd
  · obtain ⟨d', hd', rfl⟩ := List.mem_map.mp hd
    exact ⟨d', rfl, (within_leavesOf (List.mem_map.mpr ⟨d', hd', rfl⟩)).trans u.within_directives⟩
  · obtain ⟨_, hmeaning, hd⟩ := List.mem_flatMap.mp hd
    obtain ⟨v, hv, rfl⟩ := List.mem_map.mp hmeaning
    obtain ⟨d', hd', rfl⟩ := List.mem_map.mp hd
    exact ⟨d', rfl, (within_leavesOf (List.mem_map.mpr ⟨d', hd', rfl⟩)).trans
      (v.within_directives.trans (Union.within_variant hv))⟩

theorem Schema.within_item {d : Schema} {i : Item} (hi : i ∈ d.items) : i.tree.leaves <:+: d.tokens :=
  within_leavesOf (List.mem_map.mpr ⟨i, hi, rfl⟩)

theorem Schema.exists_union {d : Schema} {u : UnionBridge.Union} (hu : u ∈ d.meaning.unions) :
    ∃ u' : Union, u'.meaning = u ∧ u'.tree.leaves <:+: d.tokens := by
  obtain ⟨i, hi, hu⟩ := List.mem_filterMap.mp hu
  rcases i with i | i | u'
  · cases hu
  · cases hu
  · exact ⟨u', Option.some.inj hu, Schema.within_item hi⟩

theorem Item.place_import {i : Item} {imp : Import} (h : i.import? = some imp) : imp.place = i.leading.place := by
  rcases i with i | i | u
  · obtain rfl := Option.some.inj h
    rfl
  · obtain rfl := Option.some.inj h
    rfl
  · cases h

theorem Item.place_union {i : Item} {u : UnionBridge.Union} (h : i.union? = some u) : u.place = i.leading.place := by
  rcases i with i | i | u'
  · cases h
  · cases h
  · obtain rfl := Option.some.inj h
    exact u'.place_meaning

end Phrase

/-- Everything in the schema that is written in a text is where the text has it. -/
theorem Woven.located {source : List Char} {d : Phrase.Schema} (h : Woven [] d.tokens source) :
    d.meaning.Located source d.tokens := by
  have hitems : (d.items.map fun i => i.leading.place).Pairwise Place.Before :=
    h.pairwise_places Phrase.Item.head?_leaves (List.Sublist.refl _)
  refine ⟨fun i hi => ?_, fun u hu => ?_, fun u hu v hv => ?_, fun u hu e he => ?_, fun u hu e he a ha => ?_,
    hitems.sublist (sublist_filterMap (fun _ _ => Phrase.Item.place_import) _),
    hitems.sublist (sublist_filterMap (fun _ _ => Phrase.Item.place_union) _), fun u hu => ?_, fun u hu => ?_⟩
  · obtain ⟨i', hi', himp⟩ := List.mem_filterMap.mp hi
    exact ⟨i'.tree, h.opens_import himp (Phrase.Schema.within_item hi')⟩
  · obtain ⟨u', rfl, hwithin⟩ := Phrase.Schema.exists_union hu
    exact ⟨u'.tree, u'.union?_tree, h.opens_union hwithin⟩
  · obtain ⟨u', rfl, hwithin⟩ := Phrase.Schema.exists_union hu
    obtain ⟨v', hv', rfl⟩ := List.mem_map.mp hv
    exact ⟨v'.tree, v'.variant?_tree, h.opens_variant ((Phrase.Union.within_variant hv').trans hwithin)⟩
  · obtain ⟨u', rfl, hwithin⟩ := Phrase.Schema.exists_union hu
    obtain ⟨e', rfl, hwithin'⟩ := Phrase.Union.within_directive he
    exact ⟨e'.tree, e'.directive?_tree, h.opens_directive (hwithin'.trans hwithin)⟩
  · obtain ⟨u', rfl, hwithin⟩ := Phrase.Schema.exists_union hu
    obtain ⟨e', rfl, hwithin'⟩ := Phrase.Union.within_directive he
    obtain ⟨a', rfl, hwithin''⟩ := Phrase.Directive.within_argument ha
    exact ⟨a'.tree, a'.argument?_tree, h.opens_argument (hwithin''.trans (hwithin'.trans hwithin))⟩
  · obtain ⟨u', rfl, hwithin⟩ := Phrase.Schema.exists_union hu
    have hplaces := h.pairwise_places Phrase.Variant.head?_leaves (u'.within_variants.trans hwithin).sublist
    simpa only [Phrase.Union.meaning, List.map_map, Function.comp_def, Phrase.Variant.place_meaning] using hplaces
  · obtain ⟨u', rfl, hwithin⟩ := Phrase.Schema.exists_union hu
    refine ⟨?_, fun v hv => ?_⟩
    · have hplaces := h.pairwise_places Phrase.Directive.head?_leaves (u'.within_directives.trans hwithin).sublist
      simpa only [Phrase.Union.meaning, List.map_map, Function.comp_def, Phrase.Directive.place_meaning] using hplaces
    · obtain ⟨v', hv', rfl⟩ := List.mem_map.mp hv
      have hwithin' := v'.within_directives.trans ((Phrase.Union.within_variant hv').trans hwithin)
      have hplaces := h.pairwise_places Phrase.Directive.head?_leaves hwithin'.sublist
      simpa only [Phrase.Variant.meaning, List.map_map, Function.comp_def, Phrase.Directive.place_meaning] using hplaces

/-- Wherever a text parses, its tokens together with what stands between them are the whole text, each token with its line
and column in it; and every part of the schema has the place of the first of its own tokens. -/
theorem Schema.located_of_parse {source : String} {s : Schema} (h : parse source = .ok s) :
    ∃ ts, Parse.Reads [] ⟨source.toList, {}⟩ ts ∧ Woven [] ts source.toList ∧ s.Located source.toList ts := by
  obtain ⟨ts, hreads, hts⟩ := parse_eq_ok_iff.mp h
  obtain ⟨d, rfl, rfl⟩ := ofTokens_eq_ok_iff.mp hts
  have hstart : Parse.Reads [] ⟨source.toList, Position.after {} []⟩ d.tokens := hreads
  have hwoven : Woven [] d.tokens source.toList := hstart.woven
  exact ⟨d.tokens, hreads, hwoven, hwoven.located⟩

/-- A schema with a comment, a tab and a keyword that runs on into a name. -/
def notedSchema : Schema where
  imports := [⟨.ofName "a", .names ("A", none) [], ⟨2, 1⟩⟩]
  unions := [⟨"D", [⟨"V", .unit, [⟨"from_case", [⟨some (.ofName "A"), .ofName "C", ⟨4, 13⟩⟩], ⟨4, 2⟩⟩], ⟨4, 2⟩⟩],
    [⟨"from_union", [⟨none, .ofName "A", ⟨3, 13⟩⟩], ⟨3, 1⟩⟩], ⟨3, 1⟩⟩]

def notedText : String :=
  "# one\nfrom a importA\n@from_union(A) union D \x7b\n\t@from_case(A = C) V # two\n\x7d"

theorem Schema.located_of_parse_commented :
    parse notedText = .ok notedSchema ∧ ∃ ts, Parse.Reads [] ⟨notedText.toList, {}⟩ ts ∧
      Woven [] ts notedText.toList ∧ notedSchema.Located notedText.toList ts := by
  have h : parse notedText = .ok notedSchema := by decide +kernel
  exact ⟨h, located_of_parse h⟩

end UnionBridge
