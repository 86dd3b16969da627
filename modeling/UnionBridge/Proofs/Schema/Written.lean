import UnionBridge.Mapping.Plan
import UnionBridge.Module.Text
import UnionBridge.Proofs.Schema.Layout

/-! Schemas written out: each import, directive and variant as it is printed elsewhere, with spaces between them. The
text is a layout of the words of the schema. -/
namespace UnionBridge

/-! ### The text of a schema -/

def Argument.text (a : Argument) : String :=
  match a.key with
  | none => a.value.text
  | some key => key.text ++ " = " ++ a.value.text

def Directive.text (d : Directive) : String := "@" ++ d.name ++ "(" ++ commaList (d.args.map Argument.text) ++ ")"

/-- What stands between spaces, in order. -/
def Variant.pieces (v : Variant) : List String := v.directives.map Directive.text ++ [Plan.variantText v.name v.body]

def Union.pieces (u : Union) : List String :=
  u.directives.map Directive.text ++ ["union", u.name, "\x7b"] ++ u.variants.flatMap Variant.pieces ++ ["\x7d"]

/-- An import or a union. -/
abbrev SchemaItem := Import ⊕ Union

def SchemaItem.pieces : SchemaItem → List String
  | .inl i => [i.text]
  | .inr u => u.pieces

/-- Some spaces between every two pieces, and perhaps some before and after them all. -/
inductive Spaced : List String → List Char → Prop
  | nil {gap : List Char} (h : Blank gap) : Spaced [] gap
  | cons {gap rest : List Char} {piece : String} {pieces : List String} (hgap : Blank gap)
      (hrest : pieces ≠ [] → ∃ c ∈ rest.head?, Lexer.isSpace c) (h : Spaced pieces rest) :
      Spaced (piece :: pieces) (gap ++ (piece.toList ++ rest))

theorem blank_nil : Blank [] := fun c hc => by cases hc

theorem blank_space : Blank [' '] := by simp [Blank, Lexer.isSpace]

theorem Blank.append {gap gap' : List Char} (h : Blank gap) (h' : Blank gap') : Blank (gap ++ gap') :=
  fun c hc => (List.mem_append.mp hc).elim (h c) (h' c)

theorem Spaced.after_gap {pieces : List String} {gap text : List Char} (hgap : Blank gap) (h : Spaced pieces text) :
    Spaced pieces (gap ++ text) := by
  cases h with
  | nil h' => exact .nil (hgap.append h')
  | cons hgap' hrest h =>
    rw [← List.append_assoc]
    exact .cons (hgap.append hgap') hrest h

/-- One space between every two pieces is enough. -/
theorem spaced_intercalate (pieces : List String) : Spaced pieces (" ".intercalate pieces).toList := by
  rw [String.toList_intercalate]
  induction pieces with
  | nil => exact .nil blank_nil
  | cons piece pieces ih =>
    cases pieces with
    | nil => simpa [List.intercalate] using Spaced.cons blank_nil (fun h => absurd rfl h) (.nil blank_nil)
    | cons next pieces =>
      rw [List.map_cons, List.map_cons, List.intercalate_cons_cons, List.append_assoc]
      exact .cons blank_nil (fun _ => ⟨' ', rfl, rfl⟩) (ih.after_gap blank_space)

/-! ### Names that can be written -/

def DottedName.Spelled (d : DottedName) : Prop := ∀ n ∈ d.parts, isName n.toList

instance (d : DottedName) : Decidable d.Spelled := inferInstanceAs (Decidable (∀ n ∈ d.parts, _))

structure Argument.Spelled (a : Argument) : Prop where
  key : ∀ key ∈ a.key, key.Spelled
  value : a.value.Spelled

instance (a : Argument) : Decidable a.Spelled :=
  decidable_of_iff ((∀ key ∈ a.key, key.Spelled) ∧ a.value.Spelled) ⟨fun h => ⟨h.1, h.2⟩, fun h => ⟨h.key, h.value⟩⟩

structure Directive.Spelled (d : Directive) : Prop where
  name : isName d.name.toList
  args : ∀ a ∈ d.args, a.Spelled

instance (d : Directive) : Decidable d.Spelled :=
  decidable_of_iff (isName d.name.toList ∧ ∀ a ∈ d.args, a.Spelled) ⟨fun h => ⟨h.1, h.2⟩, fun h => ⟨h.name, h.args⟩⟩

def Body.Spelled : Body → Prop
  | .unit => True
  | .positional types => ∀ t ∈ types, t.Spelled
  | .named fields => ∀ f ∈ fields, isName f.1.toList ∧ f.2.Spelled

instance : (b : Body) → Decidable b.Spelled
  | .unit => isTrue trivial
  | .positional types => inferInstanceAs (Decidable (∀ t ∈ types, t.Spelled))
  | .named fields => inferInstanceAs (Decidable (∀ f ∈ fields, isName f.1.toList ∧ f.2.Spelled))

structure Variant.Spelled (v : Variant) : Prop where
  name : isName v.name.toList
  body : v.body.Spelled
  directives : ∀ d ∈ v.directives, d.Spelled

instance (v : Variant) : Decidable v.Spelled :=
  decidable_of_iff (isName v.name.toList ∧ v.body.Spelled ∧ ∀ d ∈ v.directives, d.Spelled)
    ⟨fun h => ⟨h.1, h.2.1, h.2.2⟩, fun h => ⟨h.name, h.body, h.directives⟩⟩

structure Union.Spelled (u : Union) : Prop where
  name : isName u.name.toList
  variants : ∀ v ∈ u.variants, v.Spelled
  directives : ∀ d ∈ u.directives, d.Spelled

instance (u : Union) : Decidable u.Spelled :=
  decidable_of_iff (isName u.name.toList ∧ (∀ v ∈ u.variants, v.Spelled) ∧ ∀ d ∈ u.directives, d.Spelled)
    ⟨fun h => ⟨h.1, h.2.1, h.2.2⟩, fun h => ⟨h.name, h.variants, h.directives⟩⟩

def Imported.Spelled : Imported → Prop
  | .whole newName? => ∀ n ∈ newName?, isName n.toList
  | .names first more => ∀ n ∈ first :: more, isName n.1.toList ∧ ∀ newName ∈ n.2, isName newName.toList

instance : (i : Imported) → Decidable i.Spelled
  | .whole newName? => inferInstanceAs (Decidable (∀ n ∈ newName?, _))
  | .names first more => inferInstanceAs (Decidable (∀ n ∈ first :: more, _ ∧ ∀ newName ∈ n.2, _))

structure Import.Spelled (i : Import) : Prop where
  module : i.module.Spelled
  imported : i.imported.Spelled

instance (i : Import) : Decidable i.Spelled :=
  decidable_of_iff (i.module.Spelled ∧ i.imported.Spelled) ⟨fun h => ⟨h.1, h.2⟩, fun h => ⟨h.module, h.imported⟩⟩

def SchemaItem.Spelled : SchemaItem → Prop
  | .inl i => i.Spelled
  | .inr u => u.Spelled

/-- All names of a schema match `NAME`. -/
structure Schema.Spelled (s : Schema) : Prop where
  imports : ∀ i ∈ s.imports, i.Spelled
  unions : ∀ u ∈ s.unions, u.Spelled

instance (s : Schema) : Decidable s.Spelled :=
  decidable_of_iff ((∀ i ∈ s.imports, i.Spelled) ∧ ∀ u ∈ s.unions, u.Spelled)
    ⟨fun h => ⟨h.1, h.2⟩, fun h => ⟨h.imports, h.unions⟩⟩

/-! ### The words of a schema -/

namespace Word

def ofString (s : String) : Word := (.name, s.toList)

def comma : Word := (.comma, [','])

def commaList (l : List (List Word)) : List Word := [comma].intercalate l

end Word

open Word (ofString)

def DottedName.words (d : DottedName) : List Word := ofString d.head :: d.rest.flatMap fun n => [(.dot, ['.']), ofString n]

def Argument.words (a : Argument) : List Word :=
  match a.key with
  | none => a.value.words
  | some key => key.words ++ ((.equal, ['=']) :: a.value.words)

def Directive.words (d : Directive) : List Word :=
  (.at, ['@']) :: ofString d.name :: (.leftParen, ['(']) ::
    (Word.commaList (d.args.map Argument.words) ++ [(.rightParen, [')'])])

def Body.words : Body → List Word
  | .unit => []
  | .positional types => (.leftParen, ['(']) :: (Word.commaList (types.map DottedName.words) ++ [(.rightParen, [')'])])
  | .named fields =>
    (.leftBrace, ['\x7b']) ::
      (Word.commaList (fields.map fun f => ofString f.1 :: (.colon, [':']) :: f.2.words) ++ [(.rightBrace, ['\x7d'])])

def Variant.chunks (v : Variant) : List (List Word) := v.directives.map Directive.words ++ [ofString v.name :: v.body.words]

def Union.chunks (u : Union) : List (List Word) :=
  u.directives.map Directive.words ++ [[(.unionWord, "union".toList)], [ofString u.name], [(.leftBrace, ['\x7b'])]] ++
    u.variants.flatMap Variant.chunks ++ [[(.rightBrace, ['\x7d'])]]

/-- The words of `as NAME`. -/
def newNameWords (n? : Option String) : List Word :=
  match n? with
  | none => []
  | some n => [(.asWord, "as".toList), ofString n]

def importNameWords (n : String × Option String) : List Word := ofString n.1 :: newNameWords n.2

def Import.words (i : Import) : List Word :=
  match i.imported with
  | .whole newName? => (.importWord, "import".toList) :: (i.module.words ++ newNameWords newName?)
  | .names first more =>
    (.fromWord, "from".toList) ::
      (i.module.words ++ ((.importWord, "import".toList) :: Word.commaList ((first :: more).map importNameWords)))

def SchemaItem.chunks : SchemaItem → List (List Word)
  | .inl i => [i.words]
  | .inr u => u.chunks

/-! ### Texts print words -/

/-- A text that some words can be read back from, whatever stands apart after it. -/
def Prints (ws : List Word) (text : List Char) : Prop :=
  ∀ vs rest, Laid vs rest → Apart rest → Laid (ws ++ vs) (text ++ rest)

variable {ws vs : List Word} {x y : List Char} {w : Word}

theorem Laid.after_gap {gap : List Char} (hgap : Blank gap) (h : Laid ws x) : Laid ws (gap ++ x) := by
  cases h with
  | nil h' => exact .nil (hgap.append h')
  | cons hgap' hw hrest h =>
    rw [← List.append_assoc]
    exact .cons (hgap.append hgap') hw hrest h

theorem Apart.append (hx : Apart x) (hy : Apart y) : Apart (x ++ y) := by
  cases x with
  | nil => exact hy
  | cons c x => exact hx

theorem apart_cons {c : Char} (h : Lexer.isNamePart c = false) : Apart (c :: x) := by
  rintro d hd
  cases hd
  simp [h]

theorem apart_of_space {c : Char} (hc : c ∈ x.head?) (h : Lexer.isSpace c) : Apart x := by
  rintro d hd
  rw [Option.mem_def.mp hc] at hd
  cases hd
  simp [(isNamePart_of_isSpace (.inl h)).1]

theorem apart_blank (h : Blank x) : Apart x := by
  cases x with
  | nil => exact fun c hc => by cases hc
  | cons c x => exact apart_of_space rfl (h c List.mem_cons_self)

namespace Prints

theorem nil : Prints [] [] := fun _ _ h _ => h

theorem word (hw : w.Valid) : Prints [w] w.2 := fun _ _ h hrest => .cons blank_nil hw (fun _ => hrest) h

theorem append (h : Prints ws x) (h' : Prints vs y) (hy : Apart y) : Prints (ws ++ vs) (x ++ y) := by
  intro us rest hus hrest
  rw [List.append_assoc, List.append_assoc]
  exact h _ _ (h' _ _ hus hrest) (hy.append hrest)

/-- A mark need not be kept apart from what follows it. -/
theorem mark {k : Terminal} {c : Char} (hk : Terminal.ofChar? c = some k) (h : Prints ws x) :
    Prints ((k, [c]) :: ws) (c :: x) := by
  intro vs rest hvs hrest
  have hnot : ¬Word.RunsOn (k, [c]) := by
    have hall : ∀ m ∈ marks, ¬Word.RunsOn (m.2, [m.1]) := by decide
    exact hall _ (mem_marks hk)
  exact .cons blank_nil (.mark hk) (fun hruns => absurd hruns hnot) (h vs rest hvs hrest)

theorem space (h : Prints ws x) : Prints ws (' ' :: x) := by
  intro vs rest hvs hrest
  have hlaid := (h vs rest hvs hrest).after_gap blank_space
  exact hlaid

theorem name {n : String} (h : isName n.toList) : Prints [ofString n] n.toList := word (.name h)

theorem flatMap {α : Type} {f : α → List Word} {g : α → List Char} {l : List α}
    (h : ∀ a ∈ l, Prints (f a) (g a) ∧ Apart (g a)) : Prints (l.flatMap f) (l.flatMap g) ∧ Apart (l.flatMap g) := by
  induction l with
  | nil => exact ⟨nil, fun c hc => by cases hc⟩
  | cons a l ih =>
    obtain ⟨hprints, hapart⟩ := ih fun b hb => h b (List.mem_cons_of_mem _ hb)
    obtain ⟨hp, ha⟩ := h a List.mem_cons_self
    exact ⟨hp.append hprints hapart, ha.append hapart⟩

theorem intercalate_cons {α : Type} (sep a : List α) (l : List (List α)) :
    sep.intercalate (a :: l) = a ++ l.flatMap fun b => sep ++ b := by
  induction l generalizing a with
  | nil => simp [List.intercalate]
  | cons b l ih => rw [List.intercalate_cons_cons, ih, List.flatMap_cons, List.append_assoc, List.append_assoc]

theorem commaList {α : Type} {f : α → List Word} {g : α → String} {l : List α} (h : ∀ a ∈ l, Prints (f a) (g a).toList) :
    Prints (Word.commaList (l.map f)) (UnionBridge.commaList (l.map g)).toList := by
  rw [UnionBridge.commaList, String.toList_intercalate, List.map_map]
  cases l with
  | nil => exact nil
  | cons a l =>
    have hmore : Prints (l.flatMap fun b => [Word.comma] ++ f b) (l.flatMap fun b => ", ".toList ++ (g b).toList) ∧
        Apart (l.flatMap fun b => ", ".toList ++ (g b).toList) :=
      flatMap fun b hb => ⟨mark rfl (space (h b (List.mem_cons_of_mem _ hb))), apart_cons (by decide)⟩
    rw [Word.commaList, List.map_cons, List.map_cons, intercalate_cons, intercalate_cons, List.flatMap_map,
      List.flatMap_map]
    exact (h a List.mem_cons_self).append hmore.1 hmore.2

end Prints

/-! ### Every part of a schema prints its words -/

theorem DottedName.Spelled.prints {d : DottedName} (h : d.Spelled) : Prints d.words d.text.toList := by
  have hmore : Prints (d.rest.flatMap fun n => [(.dot, ['.']), ofString n]) (d.rest.flatMap fun n => '.' :: n.toList) ∧
      Apart (d.rest.flatMap fun n => '.' :: n.toList) :=
    Prints.flatMap fun n hn =>
      ⟨.mark rfl (.name (h n (List.mem_cons_of_mem _ hn))), apart_cons (by decide)⟩
  have htext : d.text.toList = d.head.toList ++ d.rest.flatMap fun n => '.' :: n.toList := by
    rw [DottedName.text, String.toList_intercalate, DottedName.parts, List.map_cons, Prints.intercalate_cons, List.flatMap_map]
    rfl
  rw [htext]
  exact (Prints.name (h d.head List.mem_cons_self)).append hmore.1 hmore.2

theorem Argument.Spelled.prints {a : Argument} (h : a.Spelled) : Prints a.words a.text.toList := by
  rw [Argument.words, Argument.text]
  cases hkey : a.key with
  | none => exact h.value.prints
  | some key =>
    have hvalue : Prints ((.equal, ['=']) :: a.value.words) (' ' :: '=' :: ' ' :: a.value.text.toList) :=
      .space (.mark rfl (.space (h.value.prints)))
    have htext : (key.text ++ " = " ++ a.value.text).toList = key.text.toList ++ ' ' :: '=' :: ' ' :: a.value.text.toList := by
      simp [String.toList_append]
    simp only [htext]
    exact (h.key key hkey).prints.append hvalue (apart_cons (by decide))

theorem Directive.Spelled.prints {d : Directive} (h : d.Spelled) : Prints d.words d.text.toList := by
  have hargs : Prints (Word.commaList (d.args.map Argument.words) ++ [(.rightParen, [')'])])
      ((commaList (d.args.map Argument.text)).toList ++ [')']) :=
    (Prints.commaList fun a ha => (h.args a ha).prints).append (.mark rfl .nil) (apart_cons (by decide))
  have hopen : Prints ((.leftParen, ['(']) :: _) ('(' :: _) := .mark rfl hargs
  have hname := (Prints.name h.name).append hopen (apart_cons (by decide))
  have htext : d.text.toList =
      '@' :: (d.name.toList ++ '(' :: ((commaList (d.args.map Argument.text)).toList ++ [')'])) := by
    simp [Directive.text, String.toList_append]
  rw [htext]
  exact .mark rfl hname

theorem variantText_prints {name : String} {b : Body} (hname : isName name.toList) (hb : b.Spelled) :
    Prints (ofString name :: b.words) (Plan.variantText name b).toList := by
  cases b with
  | unit => exact .name hname
  | positional types =>
    have htypes : Prints (Body.positional types).words
        ('(' :: ((commaList (types.map DottedName.text)).toList ++ [')'])) :=
      .mark rfl ((Prints.commaList fun t ht => DottedName.Spelled.prints (hb t ht)).append (.mark rfl .nil) (apart_cons (by decide)))
    have htext : (Plan.variantText name (.positional types)).toList =
        name.toList ++ '(' :: ((commaList (types.map DottedName.text)).toList ++ [')']) := by
      simp [Plan.variantText, String.toList_append, commaList]
    rw [htext]
    exact (Prints.name hname).append htypes (apart_cons (by decide))
  | named fields =>
    have hfield (f : String × DottedName) (hf : f ∈ fields) :
        Prints (ofString f.1 :: (.colon, [':']) :: f.2.words) (f.1 ++ ": " ++ f.2.text).toList := by
      have htype : Prints ((.colon, [':']) :: f.2.words) (':' :: ' ' :: f.2.text.toList) :=
        .mark rfl (.space (DottedName.Spelled.prints (hb f hf).2))
      have htext : (f.1 ++ ": " ++ f.2.text).toList = f.1.toList ++ ':' :: ' ' :: f.2.text.toList := by
        simp [String.toList_append]
      rw [htext]
      exact (Prints.name (hb f hf).1).append htype (apart_cons (by decide))
    have hfields : Prints (Body.named fields).words
        ('\x7b' :: ' ' :: ((commaList (fields.map fun f => f.1 ++ ": " ++ f.2.text)).toList ++ [' ', '\x7d'])) :=
      .mark rfl (.space ((Prints.commaList hfield).append (.space (.mark rfl .nil)) (apart_cons (by decide))))
    have htext : (Plan.variantText name (.named fields)).toList = name.toList ++ ' ' :: '\x7b' :: ' ' ::
        ((commaList (fields.map fun f => f.1 ++ ": " ++ f.2.text)).toList ++ [' ', '\x7d']) := by
      simp [Plan.variantText, String.toList_append, commaList, toString]
    rw [htext]
    exact (Prints.name hname).append hfields.space (apart_cons (by decide))

theorem keyword_prints {k : Terminal} {cs : List Char} (hk : (k, cs) ∈ Terminal.keywords) : Prints [(k, cs)] cs :=
  .word (.keyword hk)

theorem newName_prints {n : String} (h : isName n.toList) :
    Prints (newNameWords (some n)) (' ' :: 'a' :: 's' :: ' ' :: n.toList) :=
  ((keyword_prints (by decide)).append (Prints.name h).space (apart_cons (by decide))).space

theorem importName_prints {n : String × Option String} (h : isName n.1.toList) (h' : ∀ newName ∈ n.2, isName newName.toList) :
    Prints (importNameWords n) (Import.nameText n).toList := by
  rcases n with ⟨name, _ | newName⟩
  · exact .name h
  · have htext : (Import.nameText (name, some newName)).toList = name.toList ++ ' ' :: 'a' :: 's' :: ' ' :: newName.toList := by
      simp [Import.nameText, String.toList_append, toString]
    rw [htext]
    exact (Prints.name h).append (newName_prints (h' newName rfl)) (apart_cons (by decide))

theorem Import.Spelled.prints {i : Import} (h : i.Spelled) : Prints i.words i.text.toList := by
  rcases i with ⟨module, imported, place⟩
  have hmodule : Prints module.words module.text.toList := DottedName.Spelled.prints h.module
  have hspelled : imported.Spelled := h.imported
  have himport : Prints [(.importWord, "import".toList)] "import".toList := keyword_prints (by decide)
  cases imported with
  | whole newName? =>
    have hhead : Prints ((.importWord, "import".toList) :: module.words) ("import".toList ++ ' ' :: module.text.toList) :=
      himport.append hmodule.space (apart_cons (by decide))
    cases newName? with
    | none =>
      have htext : (Import.text ⟨module, .whole none, place⟩).toList = "import".toList ++ ' ' :: module.text.toList := by
        simp [Import.text, String.toList_append, toString]
      have hwords : Import.words ⟨module, .whole none, place⟩ = (.importWord, "import".toList) :: module.words := by
        simp [Import.words, newNameWords]
      rw [htext, hwords]
      exact hhead
    | some newName =>
      have htext : (Import.text ⟨module, .whole (some newName), place⟩).toList =
          ("import".toList ++ ' ' :: module.text.toList) ++ ' ' :: 'a' :: 's' :: ' ' :: newName.toList := by
        simp [Import.text, String.toList_append, toString]
      rw [htext]
      exact hhead.append (newName_prints (hspelled newName rfl)) (apart_cons (by decide))
  | names first more =>
    have hnames : Prints (Word.commaList ((first :: more).map importNameWords))
        (commaList ((first :: more).map Import.nameText)).toList :=
      .commaList fun n hn => importName_prints (hspelled n hn).1 (hspelled n hn).2
    have htail := himport.append hnames.space (apart_cons (by decide))
    have hfrom : Prints [(.fromWord, "from".toList)] "from".toList := keyword_prints (by decide)
    have htext : (Import.text ⟨module, .names first more, place⟩).toList = "from".toList ++
        ' ' :: (module.text.toList ++
          ' ' :: ("import".toList ++ ' ' :: (commaList ((first :: more).map Import.nameText)).toList)) := by
      simp [Import.text, String.toList_append, toString]
    rw [htext]
    exact hfrom.append (hmodule.append htail.space (apart_cons (by decide))).space (apart_cons (by decide))

/-- The pieces of a schema print its words, piece by piece. -/
def PrintAll (chunks : List (List Word)) (pieces : List String) : Prop :=
  List.Forall₂ (fun ws piece => Prints ws piece.toList) chunks pieces

theorem PrintAll.append {as bs : List (List Word)} {ps qs : List String} (h : PrintAll as ps) (h' : PrintAll bs qs) :
    PrintAll (as ++ bs) (ps ++ qs) := List.rel_append h h'

theorem PrintAll.map {α : Type} {f : α → List Word} {g : α → String} {l : List α}
    (h : ∀ a ∈ l, Prints (f a) (g a).toList) : PrintAll (l.map f) (l.map g) := by
  rw [PrintAll, List.forall₂_map_left_iff, List.forall₂_map_right_iff, List.forall₂_same]
  exact h

theorem PrintAll.flatMap {α : Type} {f : α → List (List Word)} {g : α → List String} {l : List α}
    (h : ∀ a ∈ l, PrintAll (f a) (g a)) : PrintAll (l.flatMap f) (l.flatMap g) := by
  induction l with
  | nil => exact .nil
  | cons a l ih => exact (h a List.mem_cons_self).append (ih fun b hb => h b (List.mem_cons_of_mem _ hb))

theorem PrintAll.single {ws : List Word} {piece : String} (h : Prints ws piece.toList) : PrintAll [ws] [piece] :=
  .cons h .nil

theorem Variant.Spelled.prints {v : Variant} (h : v.Spelled) : PrintAll v.chunks v.pieces :=
  (PrintAll.map fun d hd => (h.directives d hd).prints).append (.single (variantText_prints h.name h.body))

theorem Union.Spelled.prints {u : Union} (h : u.Spelled) : PrintAll u.chunks u.pieces := by
  have hhead : PrintAll [[(.unionWord, "union".toList)], [ofString u.name], [(.leftBrace, ['\x7b'])]]
      ["union", u.name, "\x7b"] :=
    .cons (keyword_prints (by decide)) (.cons (.name h.name) (PrintAll.single (.mark rfl .nil)))
  have hend : PrintAll [[(.rightBrace, ['\x7d'])]] ["\x7d"] := .single (.mark rfl .nil)
  have hdirectives : PrintAll (u.directives.map Directive.words) (u.directives.map Directive.text) :=
    .map fun d hd => (h.directives d hd).prints
  have hvariants : PrintAll (u.variants.flatMap Variant.chunks) (u.variants.flatMap Variant.pieces) :=
    .flatMap fun v hv => (h.variants v hv).prints
  exact ((hdirectives.append hhead).append hvariants).append hend

theorem SchemaItem.Spelled.prints {i : SchemaItem} (h : i.Spelled) : PrintAll i.chunks i.pieces := by
  cases i with
  | inl i => exact .single (Import.Spelled.prints h)
  | inr u => exact Union.Spelled.prints h

/-- Pieces with spaces between them are a layout of their words. -/
theorem PrintAll.laid {chunks : List (List Word)} {pieces : List String} {text : List Char} (h : PrintAll chunks pieces)
    (htext : Spaced pieces text) : Laid chunks.flatten text := by
  induction htext generalizing chunks with
  | nil hgap =>
    cases h
    exact .nil hgap
  | @cons gap rest piece pieces hgap hrest hspaced ih =>
    cases h with
    | @cons ws _ chunks _ hws h =>
      have hapart : Apart rest := by
        cases hspaced with
        | nil hgap' => exact apart_blank hgap'
        | cons _ _ _ =>
          obtain ⟨c, hc, hspace⟩ := hrest (List.cons_ne_nil _ _)
          exact apart_of_space hc hspace
      exact (hws _ _ (ih h) hapart).after_gap hgap

end UnionBridge
