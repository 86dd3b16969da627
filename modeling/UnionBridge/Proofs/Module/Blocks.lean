import UnionBridge.Proofs.Module.Body
import UnionBridge.Proofs.Module.Paths
import UnionBridge.Proofs.Module.Suite

/-! The blocks of a generated module. Behind the first comment and the docstring, every line that opens a block is
followed by its block, and no block is empty. -/
namespace UnionBridge

variable {text a b : String}

/-! ### Texts in a line -/

namespace IsPath

theorem unbroken (h : IsPath text) : Unbroken text := h.notMem (by decide)

theorem begins (h : IsPath text) : Begins text :=
  ⟨h.ne_empty, fun hhead => h.notMem (c := ' ') (by decide) (List.mem_of_head? hhead)⟩

theorem ends (h : IsPath text) : Ends text :=
  ⟨h.ne_empty, fun hlast => h.notMem (c := ':') (by decide) (List.mem_of_getLast? hlast)⟩

end IsPath

@[simp] theorem unbroken_append : Unbroken (a ++ b) ↔ Unbroken a ∧ Unbroken b := by simp [Unbroken, not_or]

theorem begins_append (h : Begins a) : Begins (a ++ b) := by
  refine ⟨fun hempty => h.1 (String.append_eq_empty_iff.mp hempty).1, ?_⟩
  rw [String.toList_append, List.head?_append]
  cases hhead : a.toList.head? with
  | none => exact absurd (String.toList_eq_nil_iff.mp (List.head?_eq_none_iff.mp hhead)) h.1
  | some c =>
    rw [Option.some_or, ← hhead]
    exact h.2

theorem getLast?_append (hb : b ≠ "") : (a ++ b).toList.getLast? = b.toList.getLast? := by
  rw [String.toList_append, List.getLast?_append]
  cases hlast : b.toList.getLast? with
  | none => exact absurd (String.toList_eq_nil_iff.mp (List.getLast?_eq_none_iff.mp hlast)) hb
  | some c => rfl

theorem ends_append (h : Ends b) : Ends (a ++ b) :=
  ⟨fun hempty => h.1 (String.append_eq_empty_iff.mp hempty).2, getLast?_append h.1 ▸ h.2⟩

theorem unbroken_commaList {items : List String} (h : ∀ item ∈ items, Unbroken item) : Unbroken (commaList items) :=
  notMem_intercalate (by decide) h

theorem ends_commaList {items : List String} (hne : items ≠ []) (h : ∀ item ∈ items, Ends item) :
    Ends (commaList items) := by
  rw [commaList]
  induction items with
  | nil => exact absurd rfl hne
  | cons first items ih =>
    cases items with
    | nil => simpa using h first List.mem_cons_self
    | cons next items =>
      rw [String.intercalate_cons_cons]
      exact ends_append (ih (List.cons_ne_nil _ _) fun item hitem => h item (List.mem_cons_of_mem _ hitem))

/-- A text of several pieces stands on its own if it is unbroken and the outer pieces are as they should be. -/
theorem plain_append (ha : Begins a) (hb : Ends b) (h : Unbroken (a ++ b)) : Plain (a ++ b) :=
  ⟨h, begins_append ha, ends_append hb⟩

theorem opening_append {w : String} (hw : w ∈ ["class ", "def ", "if "]) (ha : w.toList <+: a.toList)
    (hb : b.toList.getLast? = some ':') (h : Unbroken (a ++ b)) : Opening (a ++ b) where
  unbroken := h
  word := ⟨w, hw, by
    rw [String.toList_append]
    exact ha.trans (List.prefix_append _ _)⟩
  colon := by
    rw [getLast?_append, hb]
    rintro rfl
    cases hb

theorem unbroken_inQuotes (h : Unbroken text) : Unbroken (inQuotes text) := by
  simp +decide [inQuotes, h]

theorem plain_pass : Plain "pass" := ⟨by decide, by decide, by decide⟩

theorem written_ne_nil {ls : List Line} {l : Line} (hl : l ∈ ls) (htext : l.text ≠ "") : Line.written ls ≠ [] :=
  List.ne_nil_of_mem (List.mem_filter.mpr ⟨hl, decide_eq_true htext⟩)

theorem suite_docstring (h : Unbroken text) : Suite [.docstring text] :=
  .single (plain_append (begins_append (by decide)) (by decide) (by simp +decide [h]))

/-- A block that begins with its docstring is not empty. -/
theorem written_docstring (text : String) (ls : List Line) : Line.written ([.docstring text] ++ ls) ≠ [] := by
  refine written_ne_nil (l := .docstring text) (by simp) fun hempty => ?_
  have hquotes := (String.append_eq_empty_iff.mp hempty).2
  cases congrArg String.toList hquotes

/-- Lines of which there are none are replaced by one. -/
theorem suite_orPass {α : Type} (items : List α) (line : α → Line)
    (h : ∀ a ∈ items, (line a).depth = 0 ∧ Plain (line a).text) :
    Suite (if items.isEmpty then [.at0 "pass"] else items.map line) ∧
      Line.written (if items.isEmpty then [.at0 "pass"] else items.map line) ≠ [] := by
  cases items with
  | nil => exact ⟨.single plain_pass, List.cons_ne_nil (Line.at0 "pass") []⟩
  | cons a items =>
    refine ⟨.of_plain fun l hl => ?_, written_ne_nil List.mem_cons_self (h a List.mem_cons_self).2.begins.1⟩
    obtain ⟨a', ha', rfl⟩ := List.mem_map.mp hl
    exact h a' ha'

/-! ### Classes -/

namespace CaseClass.Spelled

variable {c : CaseClass} (h : c.Spelled)
include h

theorem isPath_name : IsPath c.name :=
  ((isPath_underscore.append h.union).append isPath_underscore).append h.case

theorem suite_lines : Suite c.lines := by
  have hname := h.isPath_name.unbroken
  have hunion := h.union.unbroken
  have hopening : Opening s!"class {c.name}({c.union}):" :=
    opening_append (w := "class ") (by simp) (by simp [toString]) (by decide)
      (by simp +decide [toString, hname, hunion])
  have hfield (f : String × DottedName) (hf : f ∈ c.fields) : Plain s!"{f.1}: {f.2}" := by
    obtain ⟨hattr, htype⟩ := h.fields f hf
    exact plain_append (begins_append hattr.begins) htype.ends
      (by simp +decide [toString, hattr.unbroken, htype.unbroken])
  have hmark : Plain "@dataclass(frozen=True)" := ⟨by decide, by decide, by decide⟩
  have hbody := suite_orPass c.fields (fun f => .at0 s!"{f.1}: {f.2}") fun f hf => ⟨rfl, hfield f hf⟩
  have hsuite := Suite.gap.append ((Suite.single hmark).append (.block hopening hbody.1 hbody.2 .nil))
  simpa only [CaseClass.lines, List.append_assoc, List.append_nil] using hsuite

theorem plain_attachLine : Plain c.attachLine.text :=
  plain_append (begins_append (begins_append (begins_append (begins_append (begins_append (by decide))))))
    (by decide)
    (by simp +decide [toString, h.union.unbroken, h.isPath_name.unbroken, unbroken_inQuotes h.case.unbroken])

end CaseClass.Spelled

namespace UnionClass.Spelled

variable {u : UnionClass} (h : u.Spelled)
include h

theorem unbroken_docText : Unbroken u.docText := by
  have hcases : Unbroken u.caseList := by
    rw [UnionClass.caseList]
    split
    · decide
    · refine unbroken_commaList fun item hitem => ?_
      obtain ⟨c, hc, rfl⟩ := List.mem_map.mp hitem
      exact (h.cases c hc).case.unbroken
  simp +decide [UnionClass.docText, toString, h.name.unbroken, hcases]

theorem suite_lines : Suite u.lines := by
  have hopening : Opening s!"class {u.name}:" :=
    opening_append (w := "class ") (by simp) (by simp [toString]) (by decide)
      (by simp +decide [toString, h.name.unbroken])
  have hslots : Plain "__slots__ = ()" := ⟨by decide, by decide, by decide⟩
  have hbody : Suite [.docstring u.docText, .blank, .at0 "__slots__ = ()"] :=
    (suite_docstring h.unbroken_docText).append (.blank (.single hslots))
  have hclass := Suite.block hopening hbody (written_docstring _ _) .nil
  have hcases : Suite (u.cases.flatMap CaseClass.lines) := .flatMap fun c hc => (h.cases c hc).suite_lines
  have hattach : Suite (u.cases.map CaseClass.attachLine) := .of_plain fun l hl => by
    obtain ⟨c, hc, rfl⟩ := List.mem_map.mp hl
    exact ⟨rfl, (h.cases c hc).plain_attachLine⟩
  have hgap : Suite (if u.cases.isEmpty then [] else gap) := by
    split
    · exact .nil
    · exact .gap
  have hsuite := Suite.gap.append (hclass.append (hcases.append (hgap.append hattach)))
  simpa only [UnionClass.lines, List.append_assoc, List.append_nil] using hsuite

end UnionClass.Spelled

/-! ### Functions -/

namespace FieldStep.Spelled

variable {f : FieldStep} {container : Option DottedName} (h : f.Spelled) (hc : ∀ c ∈ container, IsPath c.text)
include h

theorem isPath_valueSlot : IsPath (f.valueSlot container) := by
  cases container with
  | none => exact h.slot
  | some c => exact h.slot.append (isPath_of_isName (by decide))

theorem isPath_effectsSlot : IsPath f.effectsSlot := h.slot.append (isPath_of_isName (by decide))

theorem plain_splitLine : Plain (Attempt.splitLine container f).text :=
  plain_append (begins_append (begins_append (begins_append (begins_append h.isPath_valueSlot.begins)))) (by decide)
    (by simp +decide [toString, h.isPath_valueSlot.unbroken, h.isPath_effectsSlot.unbroken, h.slot.unbroken])

include hc

theorem plain_convertLine : Plain (Attempt.convertLine container f).text := by
  cases container with
  | none =>
    exact plain_append (begins_append (begins_append (begins_append (begins_append h.slot.begins)))) (by decide)
      (by simp +decide [toString, h.slot.unbroken, h.attr.unbroken, h.type.unbroken])
  | some c =>
    have hcontainer := (hc c rfl).unbroken
    have hvalue : IsPath (f.valueSlot (some c)) := h.isPath_valueSlot
    refine plain_append (begins_append (begins_append (begins_append hvalue.begins))) (ends_append (by decide)) ?_
    simp +decide [toString, hvalue.unbroken, h.isPath_effectsSlot.unbroken, h.attr.unbroken, h.type.unbroken,
      hcontainer]

theorem plain_tryLine : Plain (Attempt.tryLine container f).text := by
  cases container with
  | none =>
    exact plain_append (begins_append (begins_append (begins_append (begins_append h.slot.begins)))) (by decide)
      (by simp +decide [toString, h.slot.unbroken, h.attr.unbroken, h.type.unbroken])
  | some c =>
    exact plain_append
      (begins_append (begins_append (begins_append (begins_append (begins_append (begins_append h.slot.begins))))))
      (by decide) (by simp +decide [toString, h.slot.unbroken, h.attr.unbroken, h.type.unbroken, (hc c rfl).unbroken])

end FieldStep.Spelled

namespace Attempt.Spelled

variable {att : Attempt} {container : Option DottedName} (h : att.Spelled) (hc : ∀ c ∈ container, IsPath c.text)
include h

theorem isPath_constructor : IsPath att.constructor.text := (h.dest.append isPath_dot).append h.case

theorem unbroken_label : Unbroken att.label := by
  simp +decide [Attempt.label, toString, h.dest.unbroken, h.case.unbroken]

theorem unbroken_construction : Unbroken (att.construction container) := by
  have harguments : Unbroken (commaList (att.steps.map (att.argument container))) := by
    refine unbroken_commaList fun item hitem => ?_
    obtain ⟨f, hf, rfl⟩ := List.mem_map.mp hitem
    have hvalue : IsPath (f.valueSlot container) := (h.steps f hf).isPath_valueSlot
    rw [Attempt.argument]
    split
    · simp +decide [toString, hvalue.unbroken, (h.steps f hf).attr.unbroken]
    · exact hvalue.unbroken
  simp +decide [Attempt.construction, toString, h.isPath_constructor.unbroken, harguments]

theorem suite_map {line : FieldStep → Line}
    (hline : ∀ f : FieldStep, f.Spelled → (line f).depth = 0 ∧ Plain (line f).text) : Suite (att.steps.map line) :=
  .of_plain fun l hl => by
    obtain ⟨f, hf, rfl⟩ := List.mem_map.mp hl
    exact hline f (h.steps f hf)

include hc

theorem suite_returnLines :
    Suite (att.returnLines container) ∧ Line.written (att.returnLines container) ≠ [] := by
  have hconstruction : Unbroken (att.construction container) := h.unbroken_construction
  have hlast : Ends (att.construction container) := ends_append (by decide)
  cases container with
  | none =>
    have hreturn : Plain ("return " ++ att.construction none) :=
      plain_append (by decide) hlast (by simp +decide [hconstruction])
    exact ⟨.single hreturn, written_ne_nil List.mem_cons_self hreturn.begins.1⟩
  | some c =>
    have hvalue : Plain ("value = " ++ att.construction (some c)) :=
      plain_append (by decide) hlast (by simp +decide [hconstruction])
    have heffects : Unbroken (commaList (att.steps.map fun f => s!"*{f.effectsSlot}")) := by
      refine unbroken_commaList fun item hitem => ?_
      obtain ⟨f, hf, rfl⟩ := List.mem_map.mp hitem
      simp +decide [toString, (h.steps f hf).isPath_effectsSlot.unbroken]
    have hopening : Unbroken s!"return {c}.compose_from(value, [" := by simp +decide [toString, (hc c rfl).unbroken]
    refine ⟨.plain hvalue (.single (plain_append ?_ (by decide) ?_)), written_ne_nil List.mem_cons_self hvalue.begins.1⟩
    · exact begins_append (begins_append (begins_append (by decide)))
    · exact unbroken_append.mpr ⟨unbroken_append.mpr ⟨hopening, heffects⟩, by decide⟩

theorem suite_directLines :
    Suite (att.directLines container) ∧ Line.written (att.directLines container) ≠ [] := by
  obtain ⟨hreturn, hne⟩ := h.suite_returnLines hc
  refine ⟨(h.suite_map fun f hf => ⟨rfl, hf.plain_convertLine hc⟩).append hreturn, ?_⟩
  rw [Attempt.directLines, Line.written_append]
  exact List.append_ne_nil_of_right_ne_nil _ hne

theorem suite_tryLines (hsteps : att.steps ≠ []) : Suite (att.tryLines container) := by
  obtain ⟨hreturn, hne⟩ := h.suite_returnLines hc
  obtain ⟨f, hf⟩ := List.exists_mem_of_ne_nil _ hsteps
  have htry := h.suite_map fun f hf => ⟨rfl, hf.plain_tryLine hc⟩
  have htryNe : Line.written (att.steps.map (tryLine container)) ≠ [] :=
    written_ne_nil (List.mem_map_of_mem hf) ((h.steps f hf).plain_tryLine hc).begins.1
  have hsplit : Suite (if container.isSome then att.steps.map (splitLine container) else []) := by
    split
    · exact h.suite_map fun f hf => ⟨rfl, hf.plain_splitLine⟩
    · exact .nil
  have hsuccessNe : Line.written
      ((if container.isSome then att.steps.map (splitLine container) else []) ++ att.returnLines container) ≠ [] := by
    rw [Line.written_append]
    exact List.append_ne_nil_of_right_ne_nil _ hne
  have hsuite := Suite.attempt htry htryNe (.single plain_pass) (by decide) (hsplit.append hreturn) hsuccessNe .nil
  simpa only [Attempt.tryLines, Line.tryText, Line.exceptText, Line.elseText, List.append_assoc, List.append_nil]
    using hsuite

end Attempt.Spelled

namespace Conversion.Spelled

variable {conv : Conversion} (h : conv.Spelled)
include h

theorem plain_exhaustedLine {C : String} (hC : IsPath C) {attempts : List Attempt} (ha : ∀ a ∈ attempts, a.Spelled) :
    Plain (conv.exhaustedLine C attempts).text := by
  have htried : Unbroken (commaList (attempts.map fun a => inQuotes a.label)) := by
    refine unbroken_commaList fun item hitem => ?_
    obtain ⟨a, hmem, rfl⟩ := List.mem_map.mp hitem
    exact unbroken_inQuotes (ha a hmem).unbroken_label
  have hcase : Unbroken s!"{conv.source}.{C}" := by simp +decide [toString, h.source.unbroken, hC.unbroken]
  refine plain_append ?_ (by decide) ?_
  · exact begins_append (begins_append (begins_append (begins_append (begins_append (by decide)))))
  · simp +decide [unbroken_inQuotes h.dest.unbroken, unbroken_inQuotes hcase, htried]

theorem suite_armLines {arm : Arm} (harm : arm.Spelled) : Suite (conv.armLines arm) := by
  have hopening : Opening s!"if isinstance(src, {conv.source}.{arm.case}):" :=
    opening_append (w := "if ") (by simp) (by simp [toString]) (by decide)
      (by simp +decide [toString, h.source.unbroken, harm.case.unbroken])
  rw [Conversion.armLines, ← List.append_nil (Line.block _ _)]
  cases hbody : arm.body with
  | direct a =>
    have hspelled := harm.attempts a (by simp [hbody, ArmBody.attempts])
    exact .block hopening (hspelled.suite_directLines h.container).1 (hspelled.suite_directLines h.container).2 .nil
  | firstFit attempts =>
    have hspelled (a : Attempt) (ha : a ∈ attempts) : a.Spelled :=
      harm.attempts a (by simp [hbody, ArmBody.attempts, ha])
    have htries : Suite (attempts.flatMap (·.tryLines conv.container)) :=
      .flatMap fun a ha => (hspelled a ha).suite_tryLines h.container (harm.tried attempts hbody a ha)
    have hraise := h.plain_exhaustedLine harm.case hspelled
    refine .block hopening (htries.append (.single hraise)) ?_ .nil
    exact written_ne_nil (List.mem_append_right _ List.mem_cons_self) hraise.begins.1

theorem suite_lines : Suite conv.lines := by
  have hopening : Opening s!"def {conv.name}(src):" :=
    opening_append (w := "def ") (by simp) (by simp [toString]) (by decide)
      (by simp +decide [toString, h.name.unbroken])
  have hresult : Unbroken conv.resultText := by
    rw [Conversion.resultText]
    split
    · rename_i c hc
      simp +decide [toString, (h.container c hc).unbroken, h.dest.unbroken]
    · exact h.dest.unbroken
  have hdoc : Unbroken conv.docText := by simp +decide [Conversion.docText, toString, h.source.unbroken, hresult]
  have hraise : Plain ("raise _rt.not_a_variant(src, " ++ inQuotes conv.source.text ++ ")") :=
    plain_append (begins_append (by decide)) (by decide) (by simp +decide [unbroken_inQuotes h.source.unbroken])
  have harms : Suite (conv.arms.flatMap conv.armLines) := .flatMap fun arm harm => h.suite_armLines (h.arms arm harm)
  have hbody := (suite_docstring hdoc).append (harms.append (.single hraise))
  have hsuite := Suite.gap.append (.block hopening hbody (written_docstring _ _) .nil)
  simpa only [Conversion.lines, List.append_assoc, List.append_nil] using hsuite

end Conversion.Spelled

/-- The names in a dispatcher are names. -/
structure Dispatcher.Spelled (d : Dispatcher) : Prop where
  name : IsPath d.name
  dest : IsPath d.dest
  routes : ∀ r ∈ d.routes, IsPath r.1.text ∧ IsPath r.2

namespace Dispatcher.Spelled

variable {d : Dispatcher} (h : d.Spelled)
include h

theorem unbroken_sourcesText : Unbroken d.sourcesText := by
  rw [Dispatcher.sourcesText]
  split
  · exact h.dest.unbroken
  · refine notMem_intercalate (by decide) fun item hitem => ?_
    obtain ⟨r, hr, rfl⟩ := List.mem_map.mp hitem
    exact (h.routes r hr).1.unbroken

theorem suite_lines : Suite d.lines := by
  have hopening : Opening s!"def {d.name}(value):" :=
    opening_append (w := "def ") (by simp) (by simp [toString]) (by decide)
      (by simp +decide [toString, h.name.unbroken])
  have hdoc : Unbroken d.docText := by
    unfold Dispatcher.docText
    simp +decide [toString, h.dest.unbroken]
  have hroutes : Suite (d.routes.flatMap fun r =>
      Line.block s!"if isinstance(value, {r.1}):" [.at0 s!"return {r.2}(value)"]) := by
    refine .flatMap fun r hr => ?_
    obtain ⟨hsource, hfunction⟩ := h.routes r hr
    have hif : Opening s!"if isinstance(value, {r.1}):" :=
      opening_append (w := "if ") (by simp) (by simp [toString]) (by decide)
        (by simp +decide [toString, hsource.unbroken])
    have hreturn : Plain s!"return {r.2}(value)" :=
      plain_append (begins_append (by decide)) (by decide) (by simp +decide [toString, hfunction.unbroken])
    have hsuite := Suite.block hif (.single hreturn) (written_ne_nil List.mem_cons_self hreturn.begins.1) .nil
    rwa [List.append_nil] at hsuite
  have hraise : Plain ("raise _rt.not_a_variant(value, " ++ inQuotes d.sourcesText ++ ")") :=
    plain_append (begins_append (by decide)) (by decide) (by simp +decide [unbroken_inQuotes h.unbroken_sourcesText])
  have hattach : Plain s!"{d.dest}.from_source = staticmethod({d.name})" :=
    plain_append (begins_append (begins_append h.dest.begins)) (by decide)
      (by simp +decide [toString, h.name.unbroken, h.dest.unbroken])
  have hbody := (suite_docstring hdoc).append (hroutes.append (.single hraise))
  have hsuite := Suite.gap.append ((Suite.block hopening hbody (written_docstring _ _) .nil).append
    (Suite.gap.append (.single hattach)))
  simpa only [Dispatcher.lines, List.append_assoc, List.append_nil] using hsuite

end Dispatcher.Spelled

namespace Bridge.Spelled

variable {b : Bridge} (h : b.Spelled)
include h

theorem dispatcher : b.dispatcher.Spelled where
  name := Naming.isPath_dispatcherName h.dest
  dest := h.dest
  routes r hr := by
    obtain ⟨conv, hconv, rfl⟩ := List.mem_map.mp hr
    exact ⟨(h.conversions conv hconv).source, (h.conversions conv hconv).name⟩

theorem suite_lines : Suite b.lines := by
  have hconversions : Suite (b.conversions.flatMap Conversion.lines) :=
    .flatMap fun conv hconv => (h.conversions conv hconv).suite_lines
  rw [Bridge.lines, List.append_assoc]
  refine .append ?_ (hconversions.append h.dispatcher.suite_lines)
  split
  · rename_i c hc
    refine Suite.gap.append (.single (plain_append (begins_append (by decide)) (by decide) ?_))
    simp +decide [toString, (h.container c hc).unbroken]
  · exact .nil

end Bridge.Spelled

/-! ### Modules -/

namespace Import.Spelled

variable {i : Import} (h : i.Spelled)
include h

theorem plain_text : Plain i.text := by
  have hmodule := h.module.isPath
  have himported := h.imported
  rw [Import.text]
  split
  · rename_i newName heq
    rw [heq] at himported
    have hname := isPath_of_isName (himported newName rfl)
    exact plain_append (begins_append (begins_append (by decide))) hname.ends
      (by simp +decide [toString, hmodule.unbroken, hname.unbroken])
  · exact plain_append (by decide) hmodule.ends (by simp +decide [toString, hmodule.unbroken])
  · rename_i first more heq
    rw [heq] at himported
    have hname (n : String × Option String) (hn : n ∈ first :: more) : Unbroken (nameText n) ∧ Ends (nameText n) := by
      obtain ⟨hname, hnew⟩ := himported n hn
      obtain ⟨name, _ | newName⟩ := n
      · exact ⟨(isPath_of_isName hname).unbroken, (isPath_of_isName hname).ends⟩
      · have hnewName := isPath_of_isName (hnew newName rfl)
        exact ⟨by simp +decide [nameText, toString, (isPath_of_isName hname).unbroken, hnewName.unbroken],
          ends_append hnewName.ends⟩
    have hnames (item : String) (hitem : item ∈ (first :: more).map nameText) : Unbroken item ∧ Ends item := by
      obtain ⟨n, hn, rfl⟩ := List.mem_map.mp hitem
      exact hname n hn
    refine plain_append (begins_append (begins_append (by decide)))
      (ends_commaList (List.cons_ne_nil _ _) fun item hitem => (hnames item hitem).2) ?_
    simp +decide only [toString, unbroken_append, hmodule.unbroken, true_and]
    exact unbroken_commaList fun item hitem => (hnames item hitem).1

end Import.Spelled

namespace Module.Spelled

variable {m : Module} (h : m.Spelled)
include h

theorem suite_importLines : Suite m.importLines := by
  rw [Module.importLines]
  split
  · exact .nil
  · refine .blank (.of_plain fun l hl => ?_)
    obtain ⟨i, hi, rfl⟩ := List.mem_map.mp hl
    exact ⟨rfl, (h.imports i hi).plain_text⟩

theorem spelled_conversion {conv : Conversion} (hconv : conv ∈ m.conversions) : conv.Spelled := by
  obtain ⟨b, hb, hconv⟩ := List.mem_flatMap.mp hconv
  exact (h.bridges b hb).conversions conv hconv

theorem spelled_registration {r : Registration} (hr : r ∈ m.registrations) :
    IsPath r.source.text ∧ IsPath r.dest ∧ IsPath r.function := by
  obtain ⟨conv, hconv, rfl⟩ := List.mem_map.mp hr
  have hspelled := h.spelled_conversion hconv
  exact ⟨hspelled.source, hspelled.dest, hspelled.name⟩

theorem plain_registration {r : Registration} (hr : r ∈ m.registrations) :
    Plain s!"registry.register({r.source}, {r.dest}, {r.function})" := by
  obtain ⟨hsource, hdest, hfunction⟩ := h.spelled_registration hr
  refine plain_append ?_ (by decide) ?_
  · exact begins_append (begins_append (begins_append (begins_append (begins_append (by decide)))))
  · simp +decide [toString, hsource.unbroken, hdest.unbroken, hfunction.unbroken]

theorem suite_registrationLines : Suite m.registrationLines := by
  have hopening : Opening s!"def {Module.registrar}(registry):" :=
    opening_append (w := "def ") (by simp) (by simp [toString]) (by decide) (by simp +decide)
  have hdoc : Unbroken Module.registrarDoc := by decide +kernel
  have hlines := suite_orPass m.registrations
    (fun r => .at0 s!"registry.register({r.source}, {r.dest}, {r.function})") fun r hr => ⟨rfl, h.plain_registration hr⟩
  have hcall : Plain s!"{Module.registrar}(_registry)" :=
    plain_append (by decide) (by decide) (by simp +decide)
  have hbody := (suite_docstring hdoc).append hlines.1
  have hsuite := Suite.gap.append ((Suite.block hopening hbody (written_docstring _ _) .nil).append
    (Suite.gap.append (.single hcall)))
  unfold Module.registrationLines
  simpa only [List.append_assoc, List.append_nil] using hsuite

end Module.Spelled

namespace Module

variable {m : Module}

/-- The names in the list of exported names. -/
def entryLines (m : Module) : List Line := m.exported.map fun name => ⟨1, inQuotes name ++ ","⟩

/-- The body but for those names. -/
def frameLines (m : Module) : List Line := m.codeLines ++ gap ++ [.at0 "__all__ = [", .at0 "]"]

theorem bodyLines_eq (m : Module) :
    m.bodyLines = m.codeLines ++ gap ++ .at0 "__all__ = [" :: (m.entryLines ++ [.at0 "]"]) := by
  have hentry (name : String) : (Line.at0 (inQuotes name ++ ",")).nest = ⟨1, inQuotes name ++ ","⟩ := by
    rw [Line.nest, if_neg]
    · rfl
    · intro hempty
      have hcomma := (String.append_eq_empty_iff.mp hempty).2
      cases congrArg String.toList hcomma
  simp only [bodyLines, exportLines, Line.block, entryLines, List.map_map, Function.comp_def, hentry, List.append_assoc,
    List.cons_append]

namespace Spelled

variable (h : m.Spelled)
include h

theorem suite_frameLines : Suite m.frameLines := by
  have hhead : Suite [.blank, .at0 "from __future__ import annotations", .blank,
      .at0 "from dataclasses import dataclass", .blank, .at0 "import casemap.runtime as _rt"] :=
    .blank (.plain ⟨by decide, by decide, by decide⟩ (.blank (.plain ⟨by decide, by decide, by decide⟩
      (.blank (.single ⟨by decide, by decide, by decide⟩)))))
  have hregistry : Suite [.blank, .at0 "_registry = _rt.default_registry"] :=
    .blank (.single ⟨by decide, by decide, by decide⟩)
  have hunions : Suite (m.unions.flatMap UnionClass.lines) := .flatMap fun u hu => (h.unions u hu).suite_lines
  have hbridges : Suite (m.bridges.flatMap Bridge.lines) := .flatMap fun b hb => (h.bridges b hb).suite_lines
  have hcode := ((((hhead.append h.suite_importLines).append hregistry).append hunions).append hbridges).append
    h.suite_registrationLines
  exact (hcode.append .gap).append
    (.plain ⟨by decide, by decide, by decide⟩ (.single ⟨by decide, by decide, by decide⟩))

theorem isPath_exported {name : String} (hname : name ∈ m.exported) : IsPath name := by
  rcases List.mem_append.mp hname with hname | hname
  · rcases List.mem_append.mp hname with hname | hname
    · obtain ⟨u, hu, rfl⟩ := List.mem_map.mp hname
      exact (h.unions u hu).name
    · obtain ⟨conv, hconv, rfl⟩ := List.mem_map.mp hname
      exact (h.spelled_conversion hconv).name
  · obtain rfl := List.mem_singleton.mp hname
    exact isPath_of_isName (by decide)

theorem legible {l : Line} (hl : l ∈ m.bodyLines) : l.Legible := by
  have hframe := h.suite_frameLines.legible
  simp only [bodyLines_eq, frameLines, List.mem_append, List.mem_cons] at hl hframe
  rcases hl with hl | hl | hl | hl
  · exact hframe l (.inl hl)
  · exact hframe l (.inr (.inl hl))
  · obtain ⟨name, hname, rfl⟩ := List.mem_map.mp hl
    have hentry : Plain (inQuotes name ++ ",") :=
      plain_append (by rw [inQuotes, String.append_assoc]; exact begins_append (by decide)) (by decide)
        (by simp +decide [unbroken_inQuotes (h.isPath_exported hname).unbroken])
    exact Line.legible_of_text hentry.unbroken hentry.begins.2
  · exact hframe l (.inr (.inr hl))

end Spelled

end Module

/-- What is well formed about a module. -/
structure Module.LaidOut (m : Module) : Prop where
  text : m.text = m.preambleText ++ "\n" ++ ("\n".intercalate (m.bodyLines.map Line.render) ++ "\n")
  legible : ∀ l ∈ m.bodyLines, l.Legible
  exports : m.bodyLines = m.codeLines ++ gap ++ .at0 "__all__ = [" :: (m.entryLines ++ [.at0 "]"])
  wellIndented : WellIndented (Line.written (m.codeLines ++ gap ++ [.at0 "__all__ = [", .at0 "]"]))

/-- Every block of a generated module is well formed. The text of the module is its preamble and its body; the lines of
the body can be told from the text, with their depths; and leaving out blank lines and the names in the list of exported
names, they are well indented: no block is empty, and every `try` has what belongs to it. A line opens a block if it
ends in a colon; a field that has a word like `try` for its name does not. -/
theorem Schema.wellIndented_of_plans {source : String} {s : Schema} {file : Option String} {plans : List Plan}
    (hs : Schema.read source file = .ok s) (hp : s.plans file = .ok plans) (origin docstring : Option String) :
    (Module.ofPlans s plans origin docstring).LaidOut := by
  have hspelled := Module.spelled_ofPlans (Schema.spelled_of_parse (read_eq_ok_iff.mp hs).1) hp origin docstring
  exact ⟨Module.text_eq _, fun l hl => hspelled.legible hl, Module.bodyLines_eq _,
    hspelled.suite_frameLines.wellIndented⟩

/-- A case with two candidates, and a container. -/
def triedText : String :=
  "import a.b as c\nunion S \x7b A \x7b x: int \x7d \x7d\n@from_union(S, effect_container = c.Box)\n" ++
    "union D \x7b @from_case(A) F \x7b x: str \x7d @from_case(A) G \x7b x: int \x7d \x7d"

def triedSchema : Schema :=
  ⟨[⟨⟨"a", ["b"]⟩, .whole (some "c"), ⟨1, 1⟩⟩],
    [⟨"S", [⟨"A", .named [("x", .ofName "int")], [], ⟨2, 11⟩⟩], [], ⟨2, 1⟩⟩,
      ⟨"D", [⟨"F", .named [("x", .ofName "str")], [⟨"from_case", [⟨none, .ofName "A", ⟨4, 22⟩⟩], ⟨4, 11⟩⟩], ⟨4, 11⟩⟩,
        ⟨"G", .named [("x", .ofName "int")], [⟨"from_case", [⟨none, .ofName "A", ⟨4, 49⟩⟩], ⟨4, 38⟩⟩], ⟨4, 38⟩⟩],
        [⟨"from_union", [⟨none, .ofName "S", ⟨3, 13⟩⟩, ⟨some (.ofName "effect_container"), ⟨"c", ["Box"]⟩, ⟨3, 16⟩⟩],
          ⟨3, 1⟩⟩], ⟨3, 1⟩⟩]⟩

theorem Schema.wellIndented_of_plans_tried :
    ∃ plans, Schema.read triedText none = .ok triedSchema ∧ triedSchema.plans none = .ok plans ∧
      (Module.ofPlans triedSchema plans none none).LaidOut := by
  have hparse : Schema.parse triedText = .ok triedSchema :=
    Lettered.parse_eq (.append .literal .literal) (by decide +kernel)
  have hcompile : compile triedText none none = .ok _ :=
    compile_of_described hparse (by decide +kernel) (by decide +kernel)
  have hc := compile_eq_ok_iff.mp hcompile
  have hs : Schema.read triedText none = .ok triedSchema := read_eq_ok_iff.mpr ⟨hparse, hc.2.1⟩
  have hp := plans_eq_ok_iff.mpr hc.2.2.1
  exact ⟨_, hs, hp, wellIndented_of_plans hs hp none none⟩

end UnionBridge
