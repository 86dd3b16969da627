import UnionBridge.Proofs.Module.Blocks
import UnionBridge.Proofs.Module.Form

/-! The body of a generated module consists of tokens, line by line: names are whole words, brackets pair up on a line
or around the exported names, and quotations end where they should. -/
namespace UnionBridge

variable {n n' : Nat} {w : Bool}

/-! ### Lines with all their brackets -/

/-- A line that leaves no bracket open. -/
def Line.Whole (l : Line) : Prop := Lexical 0 l.text 0

namespace Line

variable {l : Line} {body : List Line} {opening text : String}

theorem whole_docstring (h : Quotable text) : (docstring text).Whole := .docstring h

theorem whole_blank : blank.Whole := .of_pieces [] rfl rfl

theorem whole_literal {text : String} {cs : List Char} (htext : text = String.ofList cs)
    (h : Piece.leads 0 0 [.text text htext] = true) : (at0 text).Whole :=
  .of_pieces [.text text htext] rfl h

theorem whole_block (ho : Lexical 0 opening 0) (hbody : ∀ l ∈ body, l.Whole) : ∀ l ∈ block opening body, l.Whole := by
  refine List.forall_mem_cons.mpr ⟨ho, List.forall_mem_map.mpr fun l hl => ?_⟩
  rw [Whole, text_nest]
  exact hbody l hl

theorem whole_gap : ∀ l ∈ gap, l.Whole := by simp [gap, whole_blank]

end Line

/-! ### Classes -/

namespace CaseClass.Spelled

variable {c : CaseClass} (h : c.Spelled)
include h

theorem whole_lines : ∀ l ∈ c.lines, l.Whole := by
  have hopening : Lexical 0 s!"class {c.name}({c.union}):" 0 :=
    .of_pieces [.text "class " rfl, .path h.isPath_name, .text "(" rfl, .path h.union, .text "):" rfl] rfl rfl
  have hfield (f : String × DottedName) (hf : f ∈ c.fields) : (Line.at0 s!"{f.1}: {f.2}").Whole :=
    .of_pieces [.path (h.fields f hf).1, .text ": " rfl, .path (h.fields f hf).2] rfl rfl
  simp only [CaseClass.lines, List.forall_mem_append, List.forall_mem_singleton]
  refine ⟨⟨Line.whole_gap, Line.whole_literal rfl rfl⟩, Line.whole_block hopening ?_⟩
  split
  · exact List.forall_mem_singleton.mpr (Line.whole_literal rfl rfl)
  · exact List.forall_mem_map.mpr hfield

theorem whole_attachLine : c.attachLine.Whole :=
  .of_pieces [.text "_rt.attach_variant(" rfl, .path h.union, .text ", " rfl, .path h.isPath_name, .text ", " rfl,
    .quotation h.case.quotable, .text ")" rfl] rfl rfl

end CaseClass.Spelled

namespace UnionClass.Spelled

variable {u : UnionClass} (h : u.Spelled)
include h

theorem whole_lines : ∀ l ∈ u.lines, l.Whole := by
  have hopening : Lexical 0 s!"class {u.name}:" 0 :=
    .of_pieces [.text "class " rfl, .path h.name, .text ":" rfl] rfl rfl
  have hcases : Quotable u.caseList := by
    rw [UnionClass.caseList]
    split
    · exact .literal rfl rfl
    · exact quotable_intercalate (.literal rfl rfl) (List.forall_mem_map.mpr fun c hc => (h.cases c hc).case.quotable)
  have hfixed : Quotable "Union " ∧ Quotable ": " ∧ Quotable "." :=
    ⟨.literal rfl rfl, .literal rfl rfl, .literal rfl rfl⟩
  have hdoc : Quotable u.docText := by simp [UnionClass.docText, toString, h.name.quotable, hcases, hfixed]
  have hbody : ∀ l ∈ [.docstring u.docText, .blank, .at0 "__slots__ = ()"], Line.Whole l := by
    simp only [List.forall_mem_cons]
    exact ⟨Line.whole_docstring hdoc, Line.whole_blank, Line.whole_literal rfl rfl, List.forall_mem_nil _⟩
  have hgap : ∀ l ∈ (if u.cases.isEmpty then [] else gap), Line.Whole l := by
    split
    · exact List.forall_mem_nil _
    · exact Line.whole_gap
  simp only [UnionClass.lines, List.forall_mem_append, List.forall_mem_flatMap, List.forall_mem_map]
  exact ⟨⟨⟨⟨Line.whole_gap, Line.whole_block hopening hbody⟩, fun c hc => (h.cases c hc).whole_lines⟩, hgap⟩,
    fun c hc => (h.cases c hc).whole_attachLine⟩

end UnionClass.Spelled

/-! ### Functions -/

namespace FieldStep.Spelled

variable {f : FieldStep} {container : Option DottedName} (h : f.Spelled) (hc : ∀ c ∈ container, IsPath c.text)
include h

theorem whole_splitLine : (Attempt.splitLine container f).Whole :=
  .of_pieces [.path h.isPath_valueSlot, .text ", " rfl, .path h.isPath_effectsSlot, .text " = " rfl, .path h.slot,
    .text ".into_value_and_effects()" rfl] rfl rfl

include hc

theorem whole_convertLine : (Attempt.convertLine container f).Whole := by
  cases container with
  | none =>
    exact .of_pieces [.path h.slot, .text " = _registry.into(src." rfl, .path h.attr, .text ", " rfl, .path h.type,
      .text ")" rfl] rfl rfl
  | some c =>
    have hvalue : IsPath (f.valueSlot (some c)) := h.isPath_valueSlot
    exact .of_pieces [.path hvalue, .text ", " rfl, .path h.isPath_effectsSlot, .text " = " rfl,
        .text "_registry.into_effects(src." rfl, .path h.attr, .text ", " rfl, .path h.type, .text ", " rfl,
        .path (hc c rfl), .text ").into_value_and_effects()" rfl]
      (by simp [-String.reduceAppend, Attempt.convertLine, Line.at0, Piece.line, Piece.written, toString,
        String.append_assoc]) rfl

theorem whole_tryLine : (Attempt.tryLine container f).Whole := by
  cases container with
  | none =>
    exact .of_pieces [.path h.slot, .text " = _registry.try_into(src." rfl, .path h.attr, .text ", " rfl, .path h.type,
      .text ")" rfl] rfl rfl
  | some c =>
    exact .of_pieces [.path h.slot, .text " = _registry.try_into_effects(src." rfl, .path h.attr, .text ", " rfl,
      .path h.type, .text ", " rfl, .path (hc c rfl), .text ")" rfl] rfl rfl

end FieldStep.Spelled

namespace Attempt.Spelled

variable {att : Attempt} {container : Option DottedName} (h : att.Spelled) (hc : ∀ c ∈ container, IsPath c.text)
include h

theorem isPath_label : IsPath att.label := (h.dest.append isPath_dot).append h.case

theorem phrase_arguments : Phrase (commaList (att.steps.map (att.argument container))) := by
  refine phrase_commaList (List.forall_mem_map.mpr fun f hf => ?_)
  have hvalue : IsPath (f.valueSlot container) := (h.steps f hf).isPath_valueSlot
  rw [Attempt.argument]
  split
  · exact .of_pieces [.path (h.steps f hf).attr, .text "=" rfl, .path hvalue] rfl fun _ => rfl
  · exact .of_pieces [.path hvalue] rfl fun _ => rfl

include hc

theorem whole_returnLines : ∀ l ∈ att.returnLines container, l.Whole := by
  have hconstructor : IsPath att.constructor.text := h.isPath_constructor
  have harguments : Phrase (commaList (att.steps.map (att.argument container))) := h.phrase_arguments
  cases container with
  | none =>
    refine List.forall_mem_singleton.mpr ?_
    exact .of_pieces [.text "return " rfl, .path hconstructor, .text "(" rfl, .phrase harguments, .text ")" rfl]
      (by simp [Attempt.construction, Line.at0, Piece.line, Piece.written, toString, String.append_assoc]) rfl
  | some c =>
    have heffects : Phrase (commaList (att.steps.map fun f => s!"*{f.effectsSlot}")) := by
      refine phrase_commaList (List.forall_mem_map.mpr fun f hf => ?_)
      exact .of_pieces [.text "*" rfl, .path (h.steps f hf).isPath_effectsSlot] rfl fun _ => rfl
    refine List.forall_mem_cons.mpr ⟨?_, List.forall_mem_singleton.mpr ?_⟩
    · exact .of_pieces [.text "value = " rfl, .path hconstructor, .text "(" rfl, .phrase harguments, .text ")" rfl]
        (by simp [Attempt.construction, Line.at0, Piece.line, Piece.written, toString, String.append_assoc]) rfl
    · exact .of_pieces [.text "return " rfl, .path (hc c rfl), .text ".compose_from(value, [" rfl, .phrase heffects,
        .text "])" rfl] rfl rfl

theorem whole_directLines : ∀ l ∈ att.directLines container, l.Whole := by
  simp only [Attempt.directLines, List.forall_mem_append, List.forall_mem_map]
  exact ⟨fun f hf => (h.steps f hf).whole_convertLine hc, h.whole_returnLines hc⟩

theorem whole_tryLines : ∀ l ∈ att.tryLines container, l.Whole := by
  have htry : Lexical 0 "try:" 0 := Line.whole_literal rfl rfl
  have hexcept : Lexical 0 "except _rt.ConversionFailed:" 0 := Line.whole_literal rfl rfl
  have helse : Lexical 0 "else:" 0 := Line.whole_literal rfl rfl
  have hpass : ∀ l ∈ [Line.at0 "pass"], l.Whole := List.forall_mem_singleton.mpr (Line.whole_literal rfl rfl)
  have hsplit : ∀ l ∈ (if container.isSome then att.steps.map (splitLine container) else []), Line.Whole l := by
    split
    · exact List.forall_mem_map.mpr fun f hf => (h.steps f hf).whole_splitLine
    · exact List.forall_mem_nil _
  simp only [Attempt.tryLines, List.forall_mem_append]
  refine ⟨⟨Line.whole_block htry ?_, Line.whole_block hexcept hpass⟩,
    Line.whole_block helse (List.forall_mem_append.mpr ⟨hsplit, h.whole_returnLines hc⟩)⟩
  exact List.forall_mem_map.mpr fun f hf => (h.steps f hf).whole_tryLine hc

end Attempt.Spelled

namespace Conversion.Spelled

variable {conv : Conversion} (h : conv.Spelled)
include h

theorem whole_exhaustedLine {C : String} (hC : IsPath C) {attempts : List Attempt} (ha : ∀ a ∈ attempts, a.Spelled) :
    (conv.exhaustedLine C attempts).Whole := by
  have htried : Phrase (commaList (attempts.map fun a => inQuotes a.label)) := by
    refine phrase_commaList (List.forall_mem_map.mpr fun a hmem => ?_)
    exact .of_pieces [.quotation (ha a hmem).isPath_label.quotable] rfl fun _ => rfl
  have hsource : IsPath s!"{conv.source}.{C}" := (h.source.append isPath_dot).append hC
  exact .of_pieces [.text "raise _rt.ExhaustedCandidatesError(src, " rfl, .quotation h.dest.quotable, .text ", " rfl,
    .quotation hsource.quotable, .text ", (" rfl, .phrase htried, .text ",))" rfl] rfl rfl

theorem whole_armLines {arm : Arm} (harm : arm.Spelled) : ∀ l ∈ conv.armLines arm, l.Whole := by
  have hopening : Lexical 0 s!"if isinstance(src, {conv.source}.{arm.case}):" 0 :=
    .of_pieces [.text "if isinstance(src, " rfl, .path h.source, .text "." rfl, .path harm.case, .text "):" rfl] rfl rfl
  rw [Conversion.armLines]
  refine Line.whole_block hopening ?_
  cases hbody : arm.body with
  | direct a => exact (harm.attempts a (by simp [hbody, ArmBody.attempts])).whole_directLines h.container
  | firstFit attempts =>
    have hspelled (a : Attempt) (ha : a ∈ attempts) : a.Spelled :=
      harm.attempts a (by simp [hbody, ArmBody.attempts, ha])
    simp only [List.forall_mem_append, List.forall_mem_flatMap, List.forall_mem_singleton]
    exact ⟨fun a ha => (hspelled a ha).whole_tryLines h.container, h.whole_exhaustedLine harm.case hspelled⟩

theorem whole_lines : ∀ l ∈ conv.lines, l.Whole := by
  have hopening : Lexical 0 s!"def {conv.name}(src):" 0 :=
    .of_pieces [.text "def " rfl, .path h.name, .text "(src):" rfl] rfl rfl
  have hfixed : Quotable "Convert a " ∧ Quotable " value into " ∧ Quotable "." ∧ Quotable "[" ∧ Quotable "]" :=
    ⟨.literal rfl rfl, .literal rfl rfl, .literal rfl rfl, .literal rfl rfl, .literal rfl rfl⟩
  have hresult : Quotable conv.resultText := by
    rw [Conversion.resultText]
    split
    · rename_i c hc
      simp [toString, (h.container c hc).quotable, h.dest.quotable, hfixed]
    · exact h.dest.quotable
  have hdoc : Quotable conv.docText := by simp [Conversion.docText, toString, h.source.quotable, hresult, hfixed]
  have hraise : (Line.at0 ("raise _rt.not_a_variant(src, " ++ inQuotes conv.source.text ++ ")")).Whole :=
    .of_pieces [.text "raise _rt.not_a_variant(src, " rfl, .quotation h.source.quotable, .text ")" rfl] rfl rfl
  simp only [Conversion.lines, List.forall_mem_append]
  refine ⟨Line.whole_gap, Line.whole_block hopening ?_⟩
  simp only [List.forall_mem_append, List.forall_mem_flatMap, List.forall_mem_singleton]
  exact ⟨⟨Line.whole_docstring hdoc, fun arm harm => h.whole_armLines (h.arms arm harm)⟩, hraise⟩

end Conversion.Spelled

namespace Dispatcher.Spelled

variable {d : Dispatcher} (h : d.Spelled)
include h

theorem whole_lines : ∀ l ∈ d.lines, l.Whole := by
  have hopening : Lexical 0 s!"def {d.name}(value):" 0 :=
    .of_pieces [.text "def " rfl, .path h.name, .text "(value):" rfl] rfl rfl
  have hfixed : Quotable "Convert a value of any source union of " ∧ Quotable "." :=
    ⟨.literal rfl rfl, .literal rfl rfl⟩
  have hdoc : Quotable d.docText := by
    unfold Dispatcher.docText
    simp [toString, h.dest.quotable, hfixed]
  have hroute (r : DottedName × String) (hr : r ∈ d.routes) :
      ∀ l ∈ Line.block s!"if isinstance(value, {r.1}):" [.at0 s!"return {r.2}(value)"], l.Whole := by
    obtain ⟨hsource, hfunction⟩ := h.routes r hr
    have htest : Lexical 0 s!"if isinstance(value, {r.1}):" 0 :=
      .of_pieces [.text "if isinstance(value, " rfl, .path hsource, .text "):" rfl] rfl rfl
    have hreturn : (Line.at0 s!"return {r.2}(value)").Whole :=
      .of_pieces [.text "return " rfl, .path hfunction, .text "(value)" rfl] rfl rfl
    exact Line.whole_block htest (List.forall_mem_singleton.mpr hreturn)
  have hsources : Quotable d.sourcesText := by
    rw [Dispatcher.sourcesText]
    split
    · exact h.dest.quotable
    · exact quotable_intercalate (.literal rfl rfl) (List.forall_mem_map.mpr fun r hr => (h.routes r hr).1.quotable)
  have hraise : (Line.at0 ("raise _rt.not_a_variant(value, " ++ inQuotes d.sourcesText ++ ")")).Whole :=
    .of_pieces [.text "raise _rt.not_a_variant(value, " rfl, .quotation hsources, .text ")" rfl] rfl rfl
  have hattach : (Line.at0 s!"{d.dest}.from_source = staticmethod({d.name})").Whole :=
    .of_pieces [.path h.dest, .text ".from_source = staticmethod(" rfl, .path h.name, .text ")" rfl] rfl rfl
  simp only [Dispatcher.lines, List.forall_mem_append, List.forall_mem_singleton]
  refine ⟨⟨⟨Line.whole_gap, Line.whole_block hopening ?_⟩, Line.whole_gap⟩, hattach⟩
  simp only [List.forall_mem_append, List.forall_mem_flatMap, List.forall_mem_singleton]
  exact ⟨⟨Line.whole_docstring hdoc, hroute⟩, hraise⟩

end Dispatcher.Spelled

theorem Bridge.Spelled.whole_lines {b : Bridge} (h : b.Spelled) : ∀ l ∈ b.lines, l.Whole := by
  simp only [Bridge.lines, List.forall_mem_append, List.forall_mem_flatMap]
  refine ⟨⟨?_, fun conv hconv => (h.conversions conv hconv).whole_lines⟩, h.dispatcher.whole_lines⟩
  split
  · rename_i c hc
    refine List.forall_mem_append.mpr ⟨Line.whole_gap, List.forall_mem_singleton.mpr ?_⟩
    exact .of_pieces [.text "_rt.require_effect_container(" rfl, .path (h.container c hc), .text ")" rfl] rfl rfl
  · exact List.forall_mem_nil _

/-! ### Modules -/

theorem Import.Spelled.whole_text {i : Import} (h : i.Spelled) : Lexical 0 i.text 0 := by
  have hmodule := h.module.isPath
  have himported := h.imported
  rw [Import.text]
  split
  · rename_i newName heq
    rw [heq] at himported
    have hnew := isPath_of_isName (himported newName rfl)
    exact .of_pieces [.text "import " rfl, .path hmodule, .text " as " rfl, .path hnew] rfl rfl
  · exact .of_pieces [.text "import " rfl, .path hmodule] rfl rfl
  · rename_i first more heq
    rw [heq] at himported
    have hname (n : String × Option String) (hn : n ∈ first :: more) : Phrase (nameText n) := by
      obtain ⟨hname, hnew⟩ := himported n hn
      obtain ⟨name, _ | newName⟩ := n
      · exact .of_pieces [.path (isPath_of_isName hname)] rfl fun _ => rfl
      · exact .of_pieces [.path (isPath_of_isName hname), .text " as " rfl, .path (isPath_of_isName (hnew newName rfl))]
          rfl fun _ => rfl
    have hnames : Phrase (commaList ((first :: more).map nameText)) :=
      phrase_commaList (List.forall_mem_map.mpr hname)
    generalize commaList ((first :: more).map nameText) = names at hnames
    exact .of_pieces [.text "from " rfl, .path hmodule, .text " import " rfl, .phrase hnames] rfl rfl

namespace Module.Spelled

variable {m : Module} (h : m.Spelled)
include h

theorem whole_registrationLines : ∀ l ∈ m.registrationLines, l.Whole := by
  have hregistrar : IsPath Module.registrar := isPath_of_isName (by decide)
  have hopening : Lexical 0 s!"def {Module.registrar}(registry):" 0 :=
    .of_pieces [.text "def " rfl, .path hregistrar, .text "(registry):" rfl] rfl rfl
  have hcall : (Line.at0 s!"{Module.registrar}(_registry)").Whole :=
    .of_pieces [.path hregistrar, .text "(_registry)" rfl] rfl rfl
  have hdoc : Quotable Module.registrarDoc := .literal rfl rfl
  have hregistration (r : Registration) (hr : r ∈ m.registrations) :
      (Line.at0 s!"registry.register({r.source}, {r.dest}, {r.function})").Whole := by
    obtain ⟨hsource, hdest, hfunction⟩ := h.spelled_registration hr
    exact .of_pieces [.text "registry.register(" rfl, .path hsource, .text ", " rfl, .path hdest, .text ", " rfl,
      .path hfunction, .text ")" rfl] rfl rfl
  simp only [Module.registrationLines, List.forall_mem_append, List.forall_mem_singleton]
  refine ⟨⟨⟨Line.whole_gap, Line.whole_block hopening ?_⟩, Line.whole_gap⟩, hcall⟩
  refine List.forall_mem_append.mpr ⟨List.forall_mem_singleton.mpr (Line.whole_docstring hdoc), ?_⟩
  split
  · exact List.forall_mem_singleton.mpr (Line.whole_literal rfl rfl)
  · exact List.forall_mem_map.mpr hregistration

theorem whole_codeLines : ∀ l ∈ m.codeLines, l.Whole := by
  have himports : ∀ l ∈ m.importLines, l.Whole := by
    rw [Module.importLines]
    split
    · exact List.forall_mem_nil _
    · exact List.forall_mem_cons.mpr ⟨Line.whole_blank, List.forall_mem_map.mpr fun i hi => (h.imports i hi).whole_text⟩
  simp only [Module.codeLines, List.forall_mem_append, List.forall_mem_cons, List.forall_mem_flatMap]
  refine ⟨⟨⟨⟨⟨?_, himports⟩, Line.whole_blank, Line.whole_literal rfl rfl, List.forall_mem_nil _⟩,
    fun u hu => (h.unions u hu).whole_lines⟩, fun b hb => (h.bridges b hb).whole_lines⟩, h.whole_registrationLines⟩
  exact ⟨Line.whole_blank, Line.whole_literal rfl rfl, Line.whole_blank, Line.whole_literal rfl rfl, Line.whole_blank,
    Line.whole_literal rfl rfl, List.forall_mem_nil _⟩

theorem chain_bodyLines : Line.Chain 0 m.bodyLines 0 := by
  have hopening : Lexical 0 "__all__ = [" 1 :=
    .of_pieces [.text "__all__ = [" rfl] rfl rfl
  have hclosing : Lexical 1 "]" 0 := .of_pieces [.text "]" rfl] rfl rfl
  have hentries : Line.Chain 1 m.entryLines 1 := by
    refine .of_forall (List.forall_mem_map.mpr fun name hname => ?_)
    exact .of_pieces [.quotation (h.isPath_exported hname).quotable, .text "," rfl] rfl rfl
  have hexports : Line.Chain 0 (.at0 "__all__ = [" :: (m.entryLines ++ [.at0 "]"])) 0 :=
    .cons hopening (hentries.append (.cons hclosing .nil))
  rw [Module.bodyLines_eq]
  exact ((Line.Chain.of_forall h.whole_codeLines).append (.of_forall Line.whole_gap)).append hexports

/-- The body of a generated module consists of tokens. -/
theorem exists_reads_bodyText (named : CharacterNames) : ∃ ls, Lexeme.Reads named m.bodyText ls :=
  h.chain_bodyLines.exists_reads m.toList_bodyText named

end Module.Spelled

end UnionBridge
