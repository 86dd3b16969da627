import UnionBridge.Proofs.Module.Lexical
import UnionBridge.Proofs.Padding

/-! Text that is supplied from outside: which file names and docstrings leave the program of a module alone. -/
namespace UnionBridge

variable {m : Module} {s : Schema} {source : String} {file doc : Option String} {c : Compiled}
  {plans plans' : List Plan} {value : List Char} {ls : List Lexeme} {named : CharacterNames}

/-! ### The body of a module -/

namespace Module

theorem bodyText_unplaced (m : Module) : m.unplaced.bodyText = m.bodyText := by
  have himports : m.unplaced.importLines = m.importLines := by
    simp only [importLines, unplaced, List.isEmpty_map, List.map_map]
    rfl
  simp only [bodyText, bodyLines, codeLines, himports]
  rfl

/-- Neither a file name nor a docstring shows in the body, nor do places. -/
theorem bodyText_ofPlans (h : plans'.map Plan.unplaced = plans.map Plan.unplaced) (file' doc' : Option String) :
    (ofPlans s plans' file' doc').bodyText = (ofPlans s plans file doc).bodyText := by
  rw [← bodyText_unplaced, ← ofPlans_unplaced, h, ← bodyText_unplaced (ofPlans s plans file doc), ← ofPlans_unplaced]
  rfl

/-! ### Reading a module -/

/-- The docstring with its marks, and all that is below it. -/
def documentedText (m : Module) : String := (Line.docstring m.docstring).text ++ "\n" ++ m.bodyText

theorem text_eq_documentedText (m : Module) : m.text = m.headerText ++ "\n" ++ m.documentedText := by
  rw [text_eq, preambleText, documentedText]
  simp only [String.append_assoc, toString]

theorem toList_documentedText (m : Module) :
    m.documentedText.toList =
      '"' :: '"' :: '"' :: (m.docstring.toList ++ '"' :: '"' :: '"' :: '\n' :: m.bodyText.toList) := by
  have hmarks : "\"\"\"".toList = ['"', '"', '"'] := rfl
  have hline : "\n".toList = ['\n'] := rfl
  simp [documentedText, Line.docstring, Line.at0, hmarks, hline]

theorem unifyLines_documentedText (m : Module) :
    Preamble.unifyLines m.documentedText.toList = '"' :: '"' :: '"' ::
      (Preamble.unifyLines m.docstring.toList ++
        '"' :: '"' :: '"' :: Preamble.unifyLines ('\n' :: m.bodyText.toList)) := by
  have hmarks (rest : List Char) :
      Preamble.unifyLines ('"' :: '"' :: '"' :: rest) = '"' :: '"' :: '"' :: Preamble.unifyLines rest := by
    simp only [Preamble.unifyLines_cons (by decide : '"' ≠ '\r')]
  rw [toList_documentedText, hmarks, Preamble.unifyLines_append _ (by simp), hmarks]

/-- The docstring is read back as it was given, and ends where the module closes it, just if it is text that stands for
itself. -/
theorem read?_documentedText (named : CharacterNames) :
    Quotation.read? named false (Preamble.unifyLines m.documentedText.toList) =
        some (m.docstring.toList, Preamble.unifyLines ('\n' :: m.bodyText.toList)) ↔
      Quotation.Verbatim m.docstring.toList := by
  rw [unifyLines_documentedText]
  constructor
  · intro h
    obtain ⟨heq, hverbatim⟩ := Quotation.verbatim_of_read? (Preamble.return_notMem_unifyLines _)
      (Preamble.length_unifyLines_le _) h
    rwa [← heq] at hverbatim
  · intro h
    rw [Preamble.unifyLines_eq_self h.noReturn]
    exact h.read? named _

/-- The first line behind its mark. -/
def comment (m : Module) : List Char :=
  " Generated by casemap 0.3.0".toList ++ (m.origin.map fun file => " from ".toList ++ file.toList).getD [] ++
    ". Do not edit.".toList

theorem toList_headerText (m : Module) : m.headerText.toList = '#' :: m.comment := by
  have hversion : (s!"# Generated by casemap {version}").toList = '#' :: " Generated by casemap 0.3.0".toList := by
    decide
  have horigin : ((m.origin.map fun file => s!" from {file}").getD "").toList =
      (m.origin.map fun file => " from ".toList ++ file.toList).getD [] := by
    cases m.origin with
    | none => rfl
    | some file => exact String.toList_append
  unfold headerText comment
  rw [String.toList_append, String.toList_append, hversion, horigin, List.cons_append, List.cons_append]

theorem notMem_comment {x : Char} (hx : x ∉ " Generated by casemap 0.3.0 from . Do not edit.".toList)
    (hfile : ∀ f ∈ m.origin, x ∉ f.toList) : x ∉ m.comment := by
  have hparts : " Generated by casemap 0.3.0 from . Do not edit.".toList =
      " Generated by casemap 0.3.0".toList ++ " from ".toList ++ ". Do not edit.".toList := by simp
  have horigin : x ∉ " from ".toList → x ∉ (m.origin.map fun file => " from ".toList ++ file.toList).getD [] := by
    cases h : m.origin with
    | none => exact fun _ => List.not_mem_nil
    | some file => exact fun hfrom => List.not_mem_append hfrom (hfile file h)
  rw [hparts] at hx
  rw [List.mem_append, List.mem_append, not_or, not_or] at hx
  unfold comment
  exact List.not_mem_append (List.not_mem_append hx.1.1 (horigin hx.1.2)) hx.2

theorem reads_text (hline : '\n' ∉ m.comment) (hreturn : '\r' ∉ m.comment)
    (hnull : '\x00' ∉ m.preambleText.toList)
    (h : Quotation.read? named false (Preamble.unifyLines m.documentedText.toList) =
      some (value, Preamble.unifyLines ('\n' :: m.bodyText.toList))) :
    Lexeme.Reads named m.text ls ↔ ∃ rest, ls = Lexeme.leading value rest ∧ Lexeme.Reads named m.bodyText rest := by
  have hnulls : '\x00' ∉ m.text.toList ↔ '\x00' ∉ m.bodyText.toList := by
    rw [text_eq]
    simp [hnull]
  have hbelow : Preamble.unifyLines ('\n' :: m.bodyText.toList) = '\n' :: Preamble.unifyLines m.bodyText.toList :=
    Preamble.unifyLines_cons (by decide) _
  have htext : Preamble.unifyLines m.text.toList =
      '#' :: m.comment ++ '\n' :: Preamble.unifyLines m.documentedText.toList := by
    have hlines : m.text.toList = ('#' :: m.comment ++ ['\n']) ++ m.documentedText.toList := by
      rw [text_eq_documentedText, String.toList_append, String.toList_append, toList_headerText]
      rfl
    rw [hlines, Preamble.unifyLines_of_notMem (by simpa using hreturn)]
    simp
  have hread (n : Nat) : Lexeme.read? named (n + 5) 0 true (Preamble.unifyLines m.text.toList) =
      (Lexeme.read? named n 0 true (Preamble.unifyLines m.bodyText.toList)).map (Lexeme.leading value) := by
    rw [htext, Lexeme.read?_comment hline]
    rw [unifyLines_documentedText, hbelow] at *
    exact Lexeme.read?_quotation h n
  constructor
  · rintro ⟨hno, n, hn⟩
    have hmore := Lexeme.read?_add hn 5
    rw [hread] at hmore
    obtain ⟨rest, hrest, rfl⟩ := Option.map_eq_some_iff.mp hmore
    exact ⟨rest, rfl, hnulls.mp hno, n, hrest⟩
  · rintro ⟨rest, rfl, hno, n, hn⟩
    exact ⟨hnulls.mpr hno, n + 5, by rw [hread, hn, Option.map_some]⟩

/-- A module whose docstring stands for itself reads as its body does below that docstring. -/
theorem reads_text_of_verbatim (hfile : ∀ f ∈ m.origin, '\n' ∉ f.toList ∧ '\r' ∉ f.toList ∧ '\x00' ∉ f.toList)
    (hdoc : Quotation.Verbatim m.docstring.toList) (hnull : '\x00' ∉ m.docstring.toList) :
    Lexeme.Reads named m.text ls ↔
      ∃ rest, ls = Lexeme.leading m.docstring.toList rest ∧ Lexeme.Reads named m.bodyText rest := by
  have hline : '\n' ∉ m.comment := notMem_comment (by decide) fun f hf => (hfile f hf).1
  have hreturn : '\r' ∉ m.comment := notMem_comment (by decide) fun f hf => (hfile f hf).2.1
  have hzero : '\x00' ∉ m.comment := notMem_comment (by decide) fun f hf => (hfile f hf).2.2
  have hmarks : '\x00' ∉ "\"\"\"".toList := by decide
  have hbelow : '\x00' ∉ (Line.docstring m.docstring).text.toList := by
    unfold Line.docstring Line.at0
    rw [String.toList_append, String.toList_append]
    exact List.not_mem_append (List.not_mem_append hmarks hnull) hmarks
  have hpreamble : '\x00' ∉ m.preambleText.toList := by
    have hlineEnd : '\x00' ∉ "\n".toList := by decide
    have hheader : '\x00' ∉ m.headerText.toList := by
      rw [toList_headerText]
      exact List.not_mem_cons_of_ne_of_not_mem (by decide) hzero
    unfold preambleText
    rw [String.toList_append, toString, String.toList_append]
    exact List.not_mem_append (List.not_mem_append hheader hlineEnd) hbelow
  exact reads_text hline hreturn hpreamble ((read?_documentedText named).mpr hdoc)

theorem verbatim_defaultDocstring :
    Quotation.Verbatim defaultDocstring.toList ∧ '\x00' ∉ defaultDocstring.toList := by decide

end Module

/-- Text that is supplied from outside stays where it belongs. A file name on one line and a docstring that stands for
itself between its marks leave a module to read, token by token, as it does without them, except for the value of its
docstring; and that is read back as it was given just if it stands for itself. A module without them always consists of
tokens. This is about the text of a module: what a file name like `coding=...` does to a file that begins with it, where
the program is read from bytes, is not. -/
theorem reads_supplied (named : CharacterNames) (hc : compile source file doc = .ok c)
    (hfile : ∀ f ∈ file, '\n' ∉ f.toList ∧ '\r' ∉ f.toList ∧ '\x00' ∉ f.toList) :
    ∃ c₀, compile source none none = .ok c₀ ∧ (∃ ls, Lexeme.Reads named c₀.code ls) ∧
      c.module.docstring = (doc.filter (· ≠ "")).getD Module.defaultDocstring ∧
      (Quotation.read? named false (Preamble.unifyLines c.module.documentedText.toList) =
          some (c.module.docstring.toList, Preamble.unifyLines ('\n' :: c.module.bodyText.toList)) ↔
        Quotation.Verbatim c.module.docstring.toList) ∧
      (Quotation.Verbatim c.module.docstring.toList → '\x00' ∉ c.module.docstring.toList → ∀ ls,
        Lexeme.Reads named c.code ls ↔ ∃ rest, ls = Lexeme.leading c.module.docstring.toList rest ∧
          Lexeme.Reads named c₀.code (Lexeme.leading Module.defaultDocstring.toList rest)) := by
  obtain ⟨hs, _, _, hmodule⟩ := compile_eq_ok_iff.mp hc
  obtain ⟨plans, hc₀, hsame⟩ := exists_plans_of_unplaced hc hs rfl none none
  have hgiven : c.module.docstring = (doc.filter (· ≠ "")).getD Module.defaultDocstring := by
    rw [hmodule, Module.ofPlans]
  have hback := Module.read?_documentedText named (m := c.module)
  obtain ⟨hdefault, hnullDefault⟩ := Module.verbatim_defaultDocstring
  have hbare (ls : List Lexeme) : Lexeme.Reads named (Module.ofPlans c.schema plans none none).text ls ↔
      ∃ rest, ls = Lexeme.leading Module.defaultDocstring.toList rest ∧
        Lexeme.Reads named (Module.ofPlans c.schema plans none none).bodyText rest :=
    Module.reads_text_of_verbatim (by rintro f ⟨⟩) hdefault hnullDefault
  obtain ⟨hs₀, _, hplans₀, _⟩ := compile_eq_ok_iff.mp hc₀
  have hspelled : (Module.ofPlans c.schema plans none none).Spelled :=
    Module.spelled_ofPlans (Schema.spelled_of_parse hs₀) (Schema.plans_eq_ok_iff.mpr hplans₀) none none
  obtain ⟨body, hreads⟩ := hspelled.exists_reads_bodyText named
  refine ⟨_, hc₀, ⟨_, (hbare _).mpr ⟨body, rfl, hreads⟩⟩, hgiven, hback, ?_⟩
  intro hdoc hnull ls
  have hfile' : ∀ f ∈ c.module.origin, '\n' ∉ f.toList ∧ '\r' ∉ f.toList ∧ '\x00' ∉ f.toList := by
    rw [hmodule]
    exact fun f hf => hfile f (Option.mem_filter_iff.mp hf).1
  have hbody : (Module.ofPlans c.schema plans none none).bodyText = c.module.bodyText := by
    rw [hmodule]
    exact Module.bodyText_ofPlans hsame none none
  rw [hbody] at hbare
  rw [Compiled.code, Module.reads_text_of_verbatim hfile' hdoc hnull]
  have hdefaults (rest : List Lexeme) : Lexeme.Reads named c.module.bodyText rest ↔
      Lexeme.Reads named (Module.ofPlans c.schema plans none none).text
        (Lexeme.leading Module.defaultDocstring.toList rest) := by
    rw [hbare]
    constructor
    · exact fun h => ⟨rest, rfl, h⟩
    · rintro ⟨_, ⟨⟩, h⟩
      exact h
  simp only [hdefaults, Compiled.code]

/-! ### Modules without a conversion -/

def lonelyText : String := "union A \x7b X \x7d\n"

def lonelySchema : Schema := ⟨[], [⟨"A", [⟨"X", .unit, [], ⟨1, 11⟩⟩], [], ⟨1, 1⟩⟩]⟩

def lonelyModule (file doc : Option String) : Module := .ofPlans lonelySchema [] file doc

theorem compile_lonely (file doc : Option String) :
    compile lonelyText file doc = .ok ⟨lonelySchema, [], lonelyModule file doc⟩ :=
  compile_of_described (Lettered.parse_eq .literal (by decide +kernel)) rfl (by intro u hu; cases hu)

theorem exists_reads_lonely (named : CharacterNames) (file doc : Option String) :
    ∃ ls, Lexeme.Reads named (lonelyModule file doc).bodyText ls := by
  obtain ⟨hs, _, hplans, _⟩ := compile_eq_ok_iff.mp (compile_lonely file doc)
  have hspelled : (lonelyModule file doc).Spelled :=
    Module.spelled_ofPlans (Schema.spelled_of_parse hs) (Schema.plans_eq_ok_iff.mpr hplans) file doc
  exact hspelled.exists_reads_bodyText named

/-- A file name with three marks. -/
def quotedFile : String := "\"\"\" of shapes.union"

/-- A docstring with marks of both kinds, a backslash and several lines. -/
def quotedDoc : String := "\"Shapes\", by 'A':\n\t\\square # and \"\" more"

theorem reads_supplied_quoted :
    compile lonelyText (some quotedFile) (some quotedDoc) =
        .ok ⟨lonelySchema, [], lonelyModule (some quotedFile) (some quotedDoc)⟩ ∧
      ∀ named : CharacterNames, ∃ c₀ ls, compile lonelyText none none = .ok c₀ ∧
        Lexeme.Reads named (lonelyModule (some quotedFile) (some quotedDoc)).text (Lexeme.leading quotedDoc.toList ls) ∧
        Lexeme.Reads named c₀.code (Lexeme.leading Module.defaultDocstring.toList ls) := by
  have hc := compile_lonely (some quotedFile) (some quotedDoc)
  have hdoc : Quotation.Verbatim quotedDoc.toList ∧ '\x00' ∉ quotedDoc.toList := by decide
  have hfile : ∀ f ∈ some quotedFile, '\n' ∉ f.toList ∧ '\r' ∉ f.toList ∧ '\x00' ∉ f.toList := by
    rintro f ⟨⟩
    decide
  have hgiven : (lonelyModule (some quotedFile) (some quotedDoc)).docstring = quotedDoc := rfl
  have horigin : (lonelyModule (some quotedFile) (some quotedDoc)).origin = some quotedFile := rfl
  refine ⟨hc, fun named => ?_⟩
  obtain ⟨c₀, hc₀, _, _, _, hreads⟩ := reads_supplied named hc hfile
  obtain ⟨ls, hls⟩ := exists_reads_lonely named (some quotedFile) (some quotedDoc)
  simp only [hgiven] at hreads
  have hread : Lexeme.Reads named (lonelyModule (some quotedFile) (some quotedDoc)).text
      (Lexeme.leading quotedDoc.toList ls) := by
    rw [Module.reads_text_of_verbatim (by rwa [horigin]) (by rw [hgiven]; exact hdoc.1) (by rw [hgiven]; exact hdoc.2),
      hgiven]
    exact ⟨ls, rfl, hls⟩
  obtain ⟨_, ⟨⟩, hdefault⟩ := (hreads hdoc.1 hdoc.2 _).mp hread
  exact ⟨c₀, ls, hc₀, hread, hdefault⟩

/-- A docstring with an escape in it: the module documents itself with a line end instead. -/
theorem docstring_unescaped :
    ∃ c c₀, compile lonelyText none (some "a\\nb") = .ok c ∧ compile lonelyText none none = .ok c₀ ∧
      ∀ named : CharacterNames,
        (∃ ls, Lexeme.Reads named c.code (Lexeme.leading "a\nb".toList ls) ∧
          Lexeme.Reads named c₀.code (Lexeme.leading Module.defaultDocstring.toList ls)) ∧
        ¬∃ ls, Lexeme.Reads named c.code (Lexeme.leading "a\\nb".toList ls) := by
  refine ⟨_, _, compile_lonely none (some "a\\nb"), compile_lonely none none, fun named => ?_⟩
  have hinside := (Quotation.inside_of_untilThree
    (by decide : Quotation.untilThree '"' "a\\nb\"\"\"".toList = some ("a\\nb".toList, []))).1
  have hgiven : (lonelyModule none (some "a\\nb")).docstring = "a\\nb" := rfl
  have hread : Quotation.read? named false
      (Preamble.unifyLines (lonelyModule none (some "a\\nb")).documentedText.toList) =
        some ("a\nb".toList, Preamble.unifyLines ('\n' :: (lonelyModule none (some "a\\nb")).bodyText.toList)) := by
    rw [Module.unifyLines_documentedText, hgiven, Preamble.unifyLines_eq_self (by decide)]
    exact Quotation.read?_eq_some_iff.mpr ⟨_, hinside, rfl, rfl⟩
  have hreads (ls : List Lexeme) : Lexeme.Reads named (lonelyModule none (some "a\\nb")).text ls ↔
      ∃ rest, ls = Lexeme.leading "a\nb".toList rest ∧
        Lexeme.Reads named (lonelyModule none (some "a\\nb")).bodyText rest :=
    Module.reads_text (Module.notMem_comment (by decide) (by rintro f ⟨⟩))
      (Module.notMem_comment (by decide) (by rintro f ⟨⟩)) (by decide) hread
  have hdefault (ls : List Lexeme) : Lexeme.Reads named (lonelyModule none none).text ls ↔
      ∃ rest, ls = Lexeme.leading Module.defaultDocstring.toList rest ∧
        Lexeme.Reads named (lonelyModule none none).bodyText rest :=
    Module.reads_text_of_verbatim (by rintro f ⟨⟩) Module.verbatim_defaultDocstring.1 Module.verbatim_defaultDocstring.2
  constructor
  · obtain ⟨ls, hls⟩ := exists_reads_lonely named none none
    have hbody : (lonelyModule none (some "a\\nb")).bodyText = (lonelyModule none none).bodyText :=
      Module.bodyText_ofPlans rfl none (some "a\\nb")
    exact ⟨ls, (hreads _).mpr ⟨ls, rfl, hbody ▸ hls⟩, (hdefault _).mpr ⟨ls, rfl, hls⟩⟩
  · rintro ⟨ls, hls⟩
    obtain ⟨rest, heq, _⟩ := (hreads _).mp hls
    have htexts : "a\\nb".toList = "a\nb".toList := by
      simpa [Lexeme.leading] using (List.cons.inj (List.cons.inj heq).2).1
    exact absurd htexts (by decide)

end UnionBridge
