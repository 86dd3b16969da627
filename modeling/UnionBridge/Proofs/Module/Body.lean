import Mathlib
import UnionBridge.Module.Preamble

/-! The body of a generated module: its lines behind the first comment and the docstring, which alone hold text that was
supplied from outside. -/
namespace UnionBridge

theorem Line.render_at0 (text : String) : (Line.at0 text).render = text := by
  rw [render]
  split
  · rename_i hempty
    exact hempty.symm
  · exact String.empty_append

namespace Module

variable {m m' : Module}

/-- The lines behind the docstring, up to the list of exported names. -/
def codeLines (m : Module) : List Line :=
  [.blank, .at0 "from __future__ import annotations", .blank, .at0 "from dataclasses import dataclass", .blank,
    .at0 "import casemap.runtime as _rt"] ++
    m.importLines ++ [.blank, .at0 "_registry = _rt.default_registry"] ++
    m.unions.flatMap UnionClass.lines ++ m.bridges.flatMap Bridge.lines ++ m.registrationLines

/-- All lines behind the docstring. -/
def bodyLines (m : Module) : List Line := m.codeLines ++ m.exportLines

def bodyText (m : Module) : String := "\n".intercalate (m.bodyLines.map Line.render) ++ "\n"

theorem lines_eq (m : Module) : m.lines = .at0 m.headerText :: .docstring m.docstring :: m.bodyLines := by
  simp only [lines, bodyLines, codeLines, List.cons_append, List.nil_append, List.append_assoc]

/-- Behind each line of the body its end. -/
theorem toList_bodyText (m : Module) : m.bodyText.toList = m.bodyLines.flatMap fun l => l.render.toList ++ ['\n'] := by
  have hlines (l : Line) (ls : List Line) : ("\n".intercalate ((l :: ls).map Line.render) ++ "\n").toList =
      (l :: ls).flatMap fun l => l.render.toList ++ ['\n'] := by
    induction ls generalizing l with
    | nil => simp
    | cons next ls ih =>
      rw [List.flatMap_cons, ← ih, List.map_cons, List.map_cons, String.intercalate_cons_cons]
      simp
  have hbody : m.bodyLines ≠ [] := by simp [bodyLines, codeLines]
  obtain ⟨first, rest, hrest⟩ := List.exists_cons_of_ne_nil hbody
  rw [bodyText, hrest, hlines]

/-- The text of a module is its preamble, and below it the body. -/
theorem text_eq (m : Module) : m.text = m.preambleText ++ "\n" ++ m.bodyText := by
  have hbody : m.bodyLines.map Line.render ≠ [] := by simp [bodyLines, codeLines]
  obtain ⟨first, rest, hrest⟩ := List.exists_cons_of_ne_nil hbody
  have hdoc : (Line.docstring m.docstring).render = (Line.docstring m.docstring).text := Line.render_at0 _
  rw [text, lines_eq, bodyText, preambleText, List.map_cons, List.map_cons, hrest, Line.render_at0, hdoc,
    String.intercalate_cons_cons, String.intercalate_cons_cons]
  simp only [String.append_assoc, toString]

theorem text_around (m : Module) : m.text = m.textBefore ++ m.docstring ++ m.textAfter := by
  have hlines : m.lines.drop 2 = m.bodyLines := by rw [lines_eq]; rfl
  have hafter : m.textAfter = "\"\"\"\n" ++ m.bodyText := by
    rw [textAfter, hlines, bodyText, String.append_assoc]
  rw [text_eq, hafter, textBefore, preambleText, Line.docstring, Line.at0]
  simp only [String.append_assoc, toString]
  rfl

end Module

end UnionBridge
