import UnionBridge.Mapping.Plan
import UnionBridge.Proofs.Module.Paths

/-! Reading the text of a plan. From its lines alone can be told which sources there are, which cases each of them has,
whether the candidates of a case are tried or taken, and which variants they are. -/
namespace UnionBridge

/-- What the line of a case says. -/
structure Row where
  case : String
  /-- The word before the variants. -/
  mode : String
  variants : List String
  deriving DecidableEq, Repr

namespace Row

/-- The name of a variant, behind its number. -/
def readVariant (cs : List Char) : String :=
  String.ofList (((cs.dropWhile (· ≠ ' ')).drop 1).takeWhile Lexer.isNamePart)

/-- Reads a case, the arrow, the mode, and the variants behind number signs. -/
def read (line : List Char) : Row where
  case := String.ofList (line.takeWhile (· ≠ ' '))
  mode := String.ofList (((line.dropWhile (· ≠ ' ')).drop 4).takeWhile (· ≠ ' '))
  variants := (line.splitOn '#').tail.map readVariant

/-- The word for candidates that are tried, and the one for a candidate that is taken. -/
def modeOf (L : List Candidate) : String := if isFallible L then "try" else "into"

/-- A case and its candidates. -/
def ofCandidates (case : String) (L : List Candidate) : Row where
  case
  mode := modeOf L
  variants := L.map (·.target.name)

end Row

namespace Plan

/-- Reads one line, given what is below it: the cases up to the next source, and the sources. -/
def readLine (line : List Char) (below : List Row × List (String × List Row)) : List Row × List (String × List Row) :=
  if "    ".toList <+: line then (Row.read (line.drop 4) :: below.1, below.2)
  else if "  ".toList <+: line then
    ([], (String.ofList ((line.drop 2).takeWhile (· ≠ ':')), below.1) :: below.2)
  else below

/-- The sources that a text lists, each with its cases. -/
def readText (text : String) : List (String × List Row) := ((text.toList.splitOn '\n').foldr readLine ([], [])).2

end Plan

/-! ### Characters -/

section Characters

variable {c : Char} {text : String}

theorem takeWhile_ne {before : List Char} (h : c ∉ before) (rest : List Char) :
    (before ++ c :: rest).takeWhile (· ≠ c) = before := by
  have hne : ∀ x ∈ before, decide (x ≠ c) := fun x hx => decide_eq_true (ne_of_mem_of_not_mem hx h)
  rw [List.takeWhile_append_of_pos hne]
  simp

theorem dropWhile_ne {before : List Char} (h : c ∉ before) (rest : List Char) :
    (before ++ c :: rest).dropWhile (· ≠ c) = c :: rest := by
  have hne : ∀ x ∈ before, decide (x ≠ c) := fun x hx => decide_eq_true (ne_of_mem_of_not_mem hx h)
  rw [List.dropWhile_append_of_pos hne]
  simp

/-- The marks between the names of a variant. -/
def signs : List Char := ". :,\x7b\x7d()".toList

/-- A character that stands in no name, and not between the names of a variant either. -/
def Foreign (c : Char) : Prop := Lexer.isNamePart c = false ∧ c ∉ signs

instance : Decidable (Foreign c) := inferInstanceAs (Decidable (_ ∧ _))

namespace Foreign

variable (hc : Foreign c)
include hc

theorem notMem_signs (text : String) (h : text.toList ⊆ signs) : c ∉ text.toList := fun hmem => hc.2 (h hmem)

theorem notMem_path (h : IsPath text) : c ∉ text.toList := h.notMem ⟨hc.1, fun hdot => hc.2 (hdot ▸ by decide)⟩

theorem notMem_variantText {name : String} {body : Body} (hname : isName name.toList) (hbody : body.Spelled) :
    c ∉ (Plan.variantText name body).toList := by
  have hname := hc.notMem_path (isPath_of_isName hname)
  cases body with
  | unit => exact hname
  | positional types =>
    have htypes : c ∉ (", ".intercalate (types.map DottedName.text)).toList :=
      notMem_intercalate (hc.notMem_signs _ (by decide)) <|
        List.forall_mem_map.mpr fun t ht => hc.notMem_path (hbody t ht).isPath
    have hopen := hc.notMem_signs "(" (by decide)
    have hclose := hc.notMem_signs ")" (by decide)
    simp only [Plan.variantText, String.toList_append, List.mem_append, not_or]
    exact ⟨⟨⟨hname, hopen⟩, htypes⟩, hclose⟩
  | named fields =>
    have hcolon := hc.notMem_signs ": " (by decide)
    have hfields : c ∉ (", ".intercalate (fields.map fun e => s!"{e.1}: {e.2}")).toList := by
      refine notMem_intercalate (hc.notMem_signs _ (by decide)) (List.forall_mem_map.mpr fun e he => ?_)
      obtain ⟨hn, ht⟩ := hbody e he
      simp only [toString, String.toList_append, List.mem_append, not_or]
      exact ⟨⟨hc.notMem_path (isPath_of_isName hn), hcolon⟩, hc.notMem_path ht.isPath⟩
    have hopen := hc.notMem_signs " \x7b " (by decide)
    have hclose := hc.notMem_signs " \x7d" (by decide)
    simp only [Plan.variantText, String.toList_append, List.mem_append, not_or]
    exact ⟨⟨⟨hname, hopen⟩, hfields⟩, hclose⟩

end Foreign

end Characters

/-! ### Rows -/

namespace Row

variable {case name : String} {body : Body} {L : List Candidate}

/-- What is written of a candidate behind the number sign. -/
def targetText (t : Target) : String := toString t.index ++ " " ++ Plan.variantText t.name t.body

/-- The name of a variant ends where its fields begin. -/
theorem takeWhile_variantText {after : List Char} (hname : isName name.toList) (hafter : Apart after) :
    ((Plan.variantText name body).toList ++ after).takeWhile Lexer.isNamePart = name.toList := by
  have hparts := isNamePart_of_isName hname
  cases body with
  | unit => exact takeWhile_word hparts hafter
  | positional types =>
    simp only [Plan.variantText, String.toList_append, List.append_assoc]
    exact takeWhile_word hparts (apart_cons (c := '(') (by decide))
  | named fields =>
    simp only [Plan.variantText, String.toList_append, List.append_assoc]
    exact takeWhile_word hparts (apart_cons (c := ' ') (by decide))

theorem readVariant_targetText {t : Target} {after : List Char} (hname : isName t.name.toList) (hafter : Apart after) :
    readVariant ((targetText t).toList ++ after) = t.name := by
  have hdigits : ' ' ∉ (toString t.index).toList := (isPath_toString t.index).notMem (by decide)
  have hblank : " ".toList = [' '] := rfl
  simp only [readVariant, targetText, String.toList_append, List.append_assoc, hblank, List.cons_append,
    List.nil_append]
  rw [dropWhile_ne hdigits, List.drop_one, List.tail_cons, takeWhile_variantText hname hafter, String.ofList_toList]

/-- Pieces that each begin behind a sign are found where it stands, each with what comes before the next one. -/
theorem exists_splitOn_intercalate {sign : Char} {before separator : List Char} {pieces : List (List Char)}
    (hb : sign ∉ before) (hs : sign ∉ separator) (h : ∀ piece ∈ pieces, sign ∉ piece) :
    ∃ found, (before ++ separator.intercalate (pieces.map (sign :: ·))).splitOn sign = before :: found ∧
      List.Forall₂ (fun piece cs => cs = piece ∨ cs = piece ++ separator) pieces found := by
  induction pieces generalizing before with
  | nil => exact ⟨[], by simp [List.splitOn_eq_singleton hb], .nil⟩
  | cons piece pieces ih =>
    have hpiece := h piece List.mem_cons_self
    cases pieces with
    | nil =>
      refine ⟨[piece], ?_, .cons (.inl rfl) .nil⟩
      rw [List.map_singleton, List.intercalate_singleton, List.splitOn_append_cons_self_of_not_mem hb,
        List.splitOn_eq_singleton hpiece]
    | cons next pieces =>
      obtain ⟨found, hfound, hpieces⟩ := @ih (piece ++ separator) (by simp [hpiece, hs])
        fun p hp => h p (List.mem_cons_of_mem _ hp)
      refine ⟨(piece ++ separator) :: found, ?_, .cons (.inr rfl) hpieces⟩
      rw [List.map_cons, List.map_cons, List.intercalate_cons_cons, ← List.map_cons, List.cons_append,
        List.cons_append, List.splitOn_append_cons_self_of_not_mem hb, hfound]

/-- What has to hold of a case and its candidates so that their line can be read. -/
structure Legible (case : String) (L : List Candidate) : Prop where
  case : isName case.toList
  name : ∀ c ∈ L, isName c.target.name.toList
  body : ∀ c ∈ L, c.target.body.Spelled

theorem notMem_targetText {c : Char} (hc : Foreign c) {t : Target} (hname : isName t.name.toList)
    (hbody : t.body.Spelled) : c ∉ (targetText t).toList := by
  simp only [targetText, String.toList_append, List.mem_append, not_or]
  exact ⟨⟨hc.notMem_path (isPath_toString _), hc.notMem_signs _ (by decide)⟩, hc.notMem_variantText hname hbody⟩

theorem isPath_modeOf (L : List Candidate) : IsPath (modeOf L) := by
  rw [modeOf]
  split <;> exact isPath_of_isName (by decide)

/-- The line of a case, after its indentation. -/
def line (case : String) (L : List Candidate) : String := case ++ " => " ++ Plan.candidatesText L

theorem line_eq (case : String) (L : List Candidate) :
    line case L = case ++ (" => " ++ (modeOf L ++ (" " ++
      " | ".intercalate (L.map fun c => "#" ++ targetText c.target)))) := by
  simp only [line, Plan.candidatesText, modeOf, targetText, String.append_assoc, toString]

/-- Behind each number sign of the line stands one of the variants. -/
theorem map_readVariant_line (h : Legible case L) :
    ((line case L).toList.splitOn '#').tail.map readVariant = L.map (·.target.name) := by
  have hsign : Foreign '#' := by decide
  have hbefore : '#' ∉ (case ++ (" => " ++ (modeOf L ++ " "))).toList := by
    simp +decide [hsign.notMem_path (isPath_of_isName h.case), hsign.notMem_path (isPath_modeOf L)]
  have hpieces : ∀ piece ∈ L.map fun c => (targetText c.target).toList, '#' ∉ piece :=
    List.forall_mem_map.mpr fun c hc => notMem_targetText hsign (h.name c hc) (h.body c hc)
  have hbar : '#' ∉ " | ".toList := by decide
  obtain ⟨found, hfound, hread⟩ := exists_splitOn_intercalate hbefore hbar hpieces
  have hline : (line case L).toList = (case ++ (" => " ++ (modeOf L ++ " "))).toList ++
      " | ".toList.intercalate ((L.map fun c => (targetText c.target).toList).map ('#' :: ·)) := by
    rw [line_eq]
    simp [String.toList_intercalate, Function.comp_def]
  rw [hline, hfound, List.tail_cons, eq_comm, ← List.forall₂_eq_eq_eq, List.forall₂_map_left_iff,
    List.forall₂_map_right_iff]
  rw [List.forall₂_map_left_iff] at hread
  refine ((List.forall₂_and_left _ _).mpr ⟨h.name, hread⟩).imp fun c cs hcs => ?_
  obtain ⟨hname, rfl | rfl⟩ := hcs
  · rw [← List.append_nil (targetText c.target).toList, readVariant_targetText hname (by simp [Apart])]
  · have hbar : Apart " | ".toList := apart_cons (c := ' ') (by decide)
    rw [readVariant_targetText hname hbar]

theorem read_line (h : Legible case L) : read (line case L).toList = ofCandidates case L := by
  have hcase : ' ' ∉ case.toList := (isPath_of_isName h.case).notMem (by decide)
  have hmode : ' ' ∉ (modeOf L).toList := (isPath_modeOf L).notMem (by decide)
  have harrow : " => ".toList = [' ', '=', '>', ' '] := rfl
  have hblank : " ".toList = [' '] := rfl
  rw [read, map_readVariant_line h]
  simp only [line_eq, String.toList_append, harrow, hblank, List.cons_append, List.nil_append]
  rw [takeWhile_ne hcase, dropWhile_ne hcase, List.drop_succ_cons, List.drop_succ_cons, List.drop_succ_cons,
    List.drop_succ_cons, List.drop_zero, takeWhile_ne hmode]
  simp [ofCandidates]

theorem notMem_line {c : Char} (hc : Foreign c) (hsigns : c ∉ "=>|#".toList) (h : Legible case L) :
    c ∉ (line case L).toList := by
  have hcase := hc.notMem_path (isPath_of_isName h.case)
  have hmode := hc.notMem_path (isPath_modeOf L)
  have hblank : c ≠ ' ' := fun heq => hc.2 (heq ▸ by decide)
  have htargets : c ∉ (" | ".intercalate (L.map fun c => "#" ++ targetText c.target)).toList := by
    refine notMem_intercalate (by simp_all) (List.forall_mem_map.mpr fun cand hcand => ?_)
    have htarget := notMem_targetText hc (h.name cand hcand) (h.body cand hcand)
    simp_all
  rw [line_eq]
  simp_all

end Row

/-! ### The lines of a plan -/

namespace Plan

variable {s : Schema} {u : Union} {p : Plan} {file : Option String} {S : DottedName}
  {byCase : Table String (List Candidate)} {C : String} {L : List Candidate}

/-- The cases of a source, in the order of the table. -/
def rowsOf (byCase : Table String (List Candidate)) : List Row :=
  byCase.entries.map fun (case, L) => Row.ofCandidates case L

theorem readLine_case (h : Row.Legible C L) (below : List Row × List (String × List Row)) :
    readLine (s!"    {C} => " ++ candidatesText L).toList below = (Row.ofCandidates C L :: below.1, below.2) := by
  have hline : (s!"    {C} => " ++ candidatesText L).toList = "    ".toList ++ (Row.line C L).toList := by
    simp [Row.line, toString]
  have hdrop : ("    ".toList ++ (Row.line C L).toList).drop 4 = (Row.line C L).toList := rfl
  rw [readLine, hline, if_pos (List.prefix_append _ _), hdrop, Row.read_line h]

theorem readLine_source {text : String} (h : IsPath text) (below : List Row × List (String × List Row)) :
    readLine s!"  {text}:".toList below = ([], (text, below.1) :: below.2) := by
  have hline : s!"  {text}:".toList = "  ".toList ++ (text.toList ++ [':']) := by simp [toString]
  have hfour : ¬"    ".toList <+: "  ".toList ++ (text.toList ++ [':']) := by
    intro hprefix
    obtain ⟨c, cs, hcs⟩ := List.exists_cons_of_ne_nil (String.toList_eq_nil_iff.not.mpr h.ne_empty)
    have hc : c ≠ ' ' := fun heq => h.notMem (c := ' ') (by decide) (by simp [hcs, heq])
    rw [hcs] at hprefix
    have hthird : c = ' ' := by simpa using (List.prefix_iff_getElem?.mp hprefix) 2 (by simp)
    exact hc hthird
  have hdrop : ("  ".toList ++ (text.toList ++ [':'])).drop 2 = text.toList ++ [':'] := rfl
  rw [readLine, hline, if_neg hfour, if_pos (List.prefix_append _ _), hdrop,
    takeWhile_ne (h.notMem (by decide)), String.ofList_toList]

theorem readLine_other {text : String} (h : text.toList.head? ≠ some ' ')
    (below : List Row × List (String × List Row)) : readLine text.toList below = below := by
  have hblanks (n : Nat) : ¬(List.replicate (n + 1) ' ') <+: text.toList := by
    rintro ⟨rest, hrest⟩
    rw [← hrest] at h
    exact h rfl
  have hfour : ¬"    ".toList <+: text.toList := hblanks 3
  have htwo : ¬"  ".toList <+: text.toList := hblanks 1
  rw [readLine, if_neg hfour, if_neg htwo]

theorem foldr_sourceLines (hS : IsPath S.text) (h : ∀ e ∈ byCase.entries, Row.Legible e.1 e.2)
    (table : List (String × List Row)) :
    ((sourceLines S byCase).map String.toList).foldr readLine ([], table) =
      ([], (S.text, rowsOf byCase) :: table) := by
  have hrows (es : List (String × List Candidate)) (hes : ∀ e ∈ es, Row.Legible e.1 e.2) :
      ((es.map fun (case, L) => s!"    {case} => " ++ candidatesText L).map String.toList).foldr readLine ([], table) =
        (es.map fun (case, L) => Row.ofCandidates case L, table) := by
    induction es with
    | nil => rfl
    | cons e es ih =>
      simp only [List.map_cons, List.foldr_cons]
      rw [ih fun e' he' => hes e' (List.mem_cons_of_mem _ he'), readLine_case (hes e List.mem_cons_self)]
  simp only [sourceLines, List.map_cons, List.foldr_cons]
  rw [hrows byCase.entries h]
  exact readLine_source hS _

/-- The first line of a plan. -/
def header (p : Plan) : String :=
  s!"dest {p.dest} <- " ++ ", ".intercalate (p.mapping.sources.map DottedName.text) ++
    (p.mapping.container.map fun c => s!" with {c}").getD "" ++ " \x7b"

theorem lines_eq (p : Plan) :
    p.lines = p.header :: (p.table.entries.flatMap (fun e => sourceLines e.1 e.2) ++ ["\x7d"]) := rfl

/-- The sources of a plan with their cases. -/
def rows (p : Plan) : List (String × List Row) := p.table.entries.map fun (S, byCase) => (S.text, rowsOf byCase)

namespace Of

variable (h : p.Of s u file) (hu : u.Spelled)
include h hu

theorem legible (hS : p.table.get? S = some byCase) (hC : byCase.get? C = some L) : Row.Legible C L where
  case := by
    obtain ⟨hne, hL⟩ := h.eq_asked hS hC
    obtain ⟨c, hc⟩ := List.exists_mem_of_ne_nil _ hne
    rw [hL] at hc
    obtain ⟨e, he, hc⟩ := List.mem_flatMap.mp hc
    exact hu.claimed (List.of_mem_zip he).2 (List.mem_replicate.mp hc).1
  name c hc := by
    obtain ⟨v, hv, hname, _⟩ := h.variant_of_candidate hS hC hc
    exact hname ▸ (hu.variants v hv).name
  body c hc := by
    obtain ⟨v, hv, _, hbody⟩ := h.variant_of_candidate hS hC hc
    exact hbody ▸ (hu.variants v hv).body

theorem legible_entries {e : DottedName × Table String (List Candidate)} (he : e ∈ p.table.entries) :
    ∀ e' ∈ e.2.entries, Row.Legible e'.1 e'.2 := by
  intro e' he'
  have hS := h.mem_entries_table.mp he
  exact h.legible hu hS (Table.get?_of_mem_entries (h.tidy_table _ _ hS).1 he')

theorem unbroken_header : '\n' ∉ p.header.toList := by
  have hend : Foreign '\n' := by decide
  have hdest : '\n' ∉ p.dest.toList := hend.notMem_path (h.isPath_dest hu)
  have hsources : '\n' ∉ (", ".intercalate (p.mapping.sources.map DottedName.text)).toList := by
    refine notMem_intercalate (by decide) (List.forall_mem_map.mpr fun S hS => ?_)
    obtain ⟨_, hm⟩ := Mapping.ofUnion_eq_ok_iff.mp h.mapped
    have hmem : S ∈ u.sources := by simpa [hm, Mapping.described] using hS
    exact hend.notMem_path (hu.source hmem).isPath
  rw [header]
  cases hc : p.mapping.container with
  | none => simp_all [toString]
  | some c =>
    have hcontainer : '\n' ∉ c.text.toList := hend.notMem_path (hu.container (h.container_eq ▸ hc)).isPath
    simp_all [toString]

theorem unbroken_lines : ∀ line ∈ p.lines, '\n' ∉ line.toList := by
  have hend : Foreign '\n' := by decide
  intro line hline
  rw [lines_eq, List.mem_cons, List.mem_append, List.mem_flatMap, List.mem_singleton] at hline
  rcases hline with rfl | ⟨e, he, hline⟩ | rfl
  · exact h.unbroken_header hu
  · rcases List.mem_cons.mp hline with rfl | hline
    · have hS : '\n' ∉ e.1.text.toList := hend.notMem_path (h.isPath_source hu he)
      simp_all [toString]
    · obtain ⟨e', he', rfl⟩ := List.mem_map.mp hline
      have hrow := Row.notMem_line hend (by decide) (h.legible_entries hu he e' he')
      simp_all [Row.line, toString]
  · decide

/-- What is read from the text of a plan is its table. -/
theorem readText_text : readText p.text = p.rows := by
  have hlines : p.text.toList.splitOn '\n' = p.lines.map String.toList := by
    rw [text, String.toList_intercalate]
    refine List.splitOn_intercalate '\n' (List.forall_mem_map.mpr (h.unbroken_lines hu)) ?_
    simp [lines]
  have hsources (es : List (DottedName × Table String (List Candidate))) (hes : ∀ e ∈ es, e ∈ p.table.entries) :
      ((es.flatMap fun (S, byCase) => sourceLines S byCase).map String.toList).foldr readLine ([], []) =
        ([], es.map fun (S, byCase) => (S.text, rowsOf byCase)) := by
    induction es with
    | nil => rfl
    | cons e es ih =>
      have he := hes e List.mem_cons_self
      rw [List.flatMap_cons, List.map_append, List.foldr_append, ih fun e' he' => hes e' (List.mem_cons_of_mem _ he')]
      exact foldr_sourceLines (h.isPath_source hu he) (h.legible_entries hu he) _
  have hheader : p.header.toList.head? ≠ some ' ' := by simp [header, toString]
  have hlast (below : List Row × List (String × List Row)) : readLine "\x7d".toList below = below :=
    readLine_other (by decide) below
  rw [readText, hlines, lines_eq, List.map_cons, List.foldr_cons, readLine_other hheader, List.map_append,
    List.foldr_append, List.map_singleton, List.foldr_cons, List.foldr_nil, hlast, hsources _ fun e he => he]
  rfl

end Of

end Plan

end UnionBridge
