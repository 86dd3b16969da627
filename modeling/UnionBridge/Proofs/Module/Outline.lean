import UnionBridge.Module.Text
import UnionBridge.Proofs.Mapping.Printed
import UnionBridge.Proofs.Module.Suite

/-! Reading the functions of a module. From the lines of a function can be told which cases it tests for, in which
order, whether it tries what is below a test or simply does it, which variants it builds there, and which it names when
all attempts have failed. -/
namespace UnionBridge

/-- What stands below the test for a class. -/
structure Branch where
  /-- The class. -/
  test : String
  /-- The first word of every statement. -/
  outline : List String
  /-- What is constructed. -/
  built : List String
  /-- What an error names. -/
  named : List String
  deriving DecidableEq, Repr

namespace Line

/-- What a text has between a beginning and the first stop behind it, if it begins so. -/
def between (beginning : String) (stop : Char) (text : String) : Option String :=
  if beginning.toList <+: text.toList then
    some (String.ofList ((text.toList.drop beginning.toList.length).takeWhile (· ≠ stop)))
  else none

def firstWord (text : String) : String := String.ofList (text.toList.takeWhile fun c => c ≠ ' ' ∧ c ≠ ':')

def secondOfTwo : List (List Char) → List String
  | _ :: piece :: pieces => String.ofList piece :: secondOfTwo pieces
  | _ => []

/-- What a text has between quotation marks. -/
def quoted (text : String) : List String := secondOfTwo (text.toList.splitOn '"')

/-- What is assigned to `value`, or else what is returned, up to its arguments. -/
def constructed (texts : List String) : List String :=
  match texts.filterMap (between "value = " '(') with
  | [] => texts.filterMap (between "return " '(')
  | values => values

/-- What is quoted where something is raised, but for the destination and the case. -/
def raised (texts : List String) : List String :=
  (texts.filter fun text => "raise ".toList <+: text.toList).flatMap fun text => (quoted text).drop 2

end Line

namespace Branch

/-- The statements below a test are those of the second level. -/
def ofLines (test : String) (ls : List Line) : Branch where
  test
  outline := (ls.filter (·.depth = 2)).map (Line.firstWord ·.text)
  built := Line.constructed (ls.map (·.text))
  named := Line.raised (ls.map (·.text))

/-- A branch consists of attempts, one for each thing it builds, and raises an error after the last one. -/
def Tries (b : Branch) : Prop :=
  b.outline = (List.replicate b.built.length ["try", "except", "else"]).flatten ++ ["raise"]

/-- A branch builds one thing, without an attempt, and raises no error. -/
def Takes (b : Branch) : Prop := b.built.length = 1 ∧ "try" ∉ b.outline ∧ "raise" ∉ b.outline ∧ b.named = []

/-- Reads one line of a function, given what is below it: the lines up to the next one of the first level, and the
branches. -/
def readLine (l : Line) (below : List Line × List Branch) : List Line × List Branch :=
  if l.depth ≤ 1 then
    ([], ((Line.between "if isinstance(src, " ')' l.text).map (ofLines · below.1)).toList ++ below.2)
  else (l :: below.1, below.2)

/-- The branches of a function. -/
def readAll (ls : List Line) : List Branch := (ls.foldr readLine ([], [])).2

/-- The source of a function, as its last line has it. -/
def readSource (ls : List Line) : Option String :=
  ls.getLast?.bind fun l => Line.between "raise _rt.not_a_variant(src, \"" '"' l.text

end Branch

/-! ### Texts -/

namespace Line

variable {beginning text : String} {stop : Char}

theorem between_append {inside : String} (h : stop ∉ inside.toList) (rest : List Char)
    (htext : text.toList = beginning.toList ++ (inside.toList ++ stop :: rest)) :
    between beginning stop text = some inside := by
  rw [between, htext, if_pos (List.prefix_append _ _), List.drop_left, takeWhile_ne h, String.ofList_toList]

theorem between_eq_none (h : ¬beginning.toList <+: text.toList) : between beginning stop text = none := if_neg h

/-- A text does not begin with another one that has a different first letter. -/
theorem not_prefix_of_head? (hne : beginning ≠ "") (h : text.toList.head? ≠ beginning.toList.head?) :
    ¬beginning.toList <+: text.toList := by
  rintro ⟨rest, hrest⟩
  rw [← hrest, List.head?_append_of_ne_nil _ (String.toList_eq_nil_iff.not.mpr hne)] at h
  exact h rfl

theorem firstWord_ne {word : String} (hne : word ≠ "") (h : text.toList.head? ≠ word.toList.head?) :
    firstWord text ≠ word := by
  intro heq
  have hprefix : word.toList <+: text.toList := by
    rw [← heq, firstWord, String.toList_ofList]
    exact List.takeWhile_prefix _
  exact not_prefix_of_head? hne h hprefix

theorem quoted_of_notMem (h : '"' ∉ text.toList) : quoted text = [] := by
  rw [quoted, List.splitOn_eq_singleton h]
  rfl

theorem quoted_append {before inside rest : String} (hb : '"' ∉ before.toList) (hi : '"' ∉ inside.toList) :
    quoted (before ++ inQuotes inside ++ rest) = inside :: quoted rest := by
  have htext : (before ++ inQuotes inside ++ rest).toList =
      before.toList ++ '"' :: (inside.toList ++ '"' :: rest.toList) := by
    simp [inQuotes]
  rw [quoted, htext, List.splitOn_append_cons_self_of_not_mem hb, List.splitOn_append_cons_self_of_not_mem hi,
    secondOfTwo, String.ofList_toList, quoted]

theorem quoted_commaList {before after : String} {items : List String} (hb : '"' ∉ before.toList)
    (ha : '"' ∉ after.toList) (h : ∀ item ∈ items, '"' ∉ item.toList) :
    quoted (before ++ commaList (items.map inQuotes) ++ after) = items := by
  induction items generalizing before with
  | nil => exact quoted_of_notMem (by simp [commaList, hb, ha])
  | cons item items ih =>
    have hitem := h item List.mem_cons_self
    cases items with
    | nil =>
      rw [List.map_singleton, commaList, String.intercalate_singleton, quoted_append hb hitem, quoted_of_notMem ha]
    | cons next items =>
      have hrest := @ih ", " (by decide) fun i hi => h i (List.mem_cons_of_mem _ hi)
      have htext : before ++ commaList ((item :: next :: items).map inQuotes) ++ after =
          before ++ inQuotes item ++ (", " ++ commaList ((next :: items).map inQuotes) ++ after) := by
        simp only [commaList, List.map_cons, String.intercalate_cons_cons, String.append_assoc]
      rw [htext, quoted_append hb hitem, hrest]

end Line

/-! ### Attempts -/

namespace Attempt

variable {container : Option DottedName} {a : Attempt} {f : FieldStep}

/-- The variables of an attempt have the names that the fields of a variant give them. -/
def Slotted (a : Attempt) : Prop := ∀ f ∈ a.steps, f.slot.toList.head? = some 'f'

theorem slotted_ofTarget (dest : String) (t : Target) : (ofTarget dest t).Slotted := by
  intro f hf
  obtain ⟨field, _, rfl⟩ := List.mem_map.mp hf
  simp [FieldStep.ofField, Naming.slot, toString]

theorem head?_convertLine (h : f.slot.toList.head? = some 'f') :
    (convertLine container f).text.toList.head? = some 'f' := by
  cases container <;> simp [convertLine, Line.at0, FieldStep.valueSlot, toString, h]

theorem head?_tryLine (h : f.slot.toList.head? = some 'f') : (tryLine container f).text.toList.head? = some 'f' := by
  cases container <;> simp [tryLine, Line.at0, toString, h]

theorem head?_splitLine (h : f.slot.toList.head? = some 'f') :
    (splitLine container f).text.toList.head? = some 'f' := by
  cases container <;> simp [splitLine, Line.at0, FieldStep.valueSlot, toString, h]

/-- A text that begins with another letter than those that tell of constructions and errors. -/
def Quiet (text : String) : Prop := text.toList.head? ∉ [some 'v', some 'r']

instance (text : String) : Decidable (Quiet text) := inferInstanceAs (Decidable (_ ∉ _))

theorem quiet_of_head? {text : String} (h : text.toList.head? = some 'f') : Quiet text := by simp [Quiet, h]

/-- In these texts the attempt is built, once, and no error is raised. -/
structure BuiltIn (container : Option DottedName) (a : Attempt) (texts : List String) : Prop where
  values : texts.filterMap (Line.between "value = " '(') = if container.isSome then [a.label] else []
  returns : container = none → texts.filterMap (Line.between "return " '(') = [a.label]
  raised : Line.raised texts = []

theorem raised_append (texts texts' : List String) :
    Line.raised (texts ++ texts') = Line.raised texts ++ Line.raised texts' := by
  simp [Line.raised]

theorem constructor_text (a : Attempt) : a.constructor.text = a.label := by
  simp [constructor, label, DottedName.text, DottedName.parts, toString]

theorem between_construction {beginning : String} (ha : a.Spelled) :
    Line.between beginning '(' (beginning ++ a.construction container) = some a.label := by
  have hpath : '(' ∉ a.label.toList := by
    have hlabel : a.label = a.dest ++ "." ++ a.case := rfl
    rw [hlabel]
    exact ((ha.dest.append isPath_dot).append ha.case).notMem (by decide)
  refine Line.between_append hpath (commaList (a.steps.map (a.argument container)) ++ ")").toList ?_
  simp [construction, constructor_text, toString]

theorem texts_returnLines_none (a : Attempt) :
    (a.returnLines none).map (·.text) = ["return " ++ a.construction none] := rfl

theorem texts_returnLines_some (a : Attempt) (c : DottedName) : ∃ rest,
    (a.returnLines (some c)).map (·.text) = ["value = " ++ a.construction (some c), "return " ++ rest] := by
  refine ⟨c.text ++ (".compose_from(value, [" ++ (commaList (a.steps.map fun s => s!"*{s.effectsSlot}") ++ "])")), ?_⟩
  simp only [returnLines, Line.at0, List.map_cons, List.map_nil, toString, String.append_assoc]

theorem builtIn_returnLines (ha : a.Spelled) : BuiltIn container a ((a.returnLines container).map (·.text)) := by
  have hreturn (rest : String) : Line.between "value = " '(' ("return " ++ rest) = none :=
    Line.between_eq_none (by simp)
  cases container with
  | none =>
    rw [texts_returnLines_none]
    refine ⟨?_, fun _ => ?_, ?_⟩
    · rw [List.filterMap_cons_none (hreturn _)]
      rfl
    · rw [List.filterMap_cons_some (between_construction ha)]
      rfl
    · rw [Line.raised, List.filter_cons_of_neg (by simp)]
      rfl
  | some c =>
    obtain ⟨rest, htexts⟩ := texts_returnLines_some a c
    rw [htexts]
    refine ⟨?_, nofun, ?_⟩
    · rw [List.filterMap_cons_some (between_construction ha), List.filterMap_cons_none (hreturn _)]
      rfl
    · rw [Line.raised, List.filter_cons_of_neg (by simp), List.filter_cons_of_neg (by simp)]
      rfl

/-- Quiet texts in front make no difference. -/
theorem BuiltIn.append {quiet texts : List String} (h : BuiltIn container a texts) (hq : ∀ text ∈ quiet, Quiet text) :
    BuiltIn container a (quiet ++ texts) := by
  have hno {beginning text : String} (hb : beginning.toList.head? ∈ [some 'v', some 'r']) (htext : text ∈ quiet) :
      ¬beginning.toList <+: text.toList := by
    refine Line.not_prefix_of_head? ?_ fun heq => hq text htext (heq ▸ hb)
    rintro rfl
    simp at hb
  have hnone {beginning : String} (hb : beginning.toList.head? ∈ [some 'v', some 'r']) (stop : Char) :
      quiet.filterMap (Line.between beginning stop) = [] :=
    List.filterMap_eq_nil_iff.mpr fun text htext => Line.between_eq_none (hno hb htext)
  refine ⟨?_, fun hc => ?_, ?_⟩
  · rw [List.filterMap_append, hnone (by simp), List.nil_append, h.values]
  · rw [List.filterMap_append, hnone (by simp), List.nil_append, h.returns hc]
  · rw [Line.raised, List.filter_append, List.filter_eq_nil_iff.mpr, List.nil_append]
    · exact h.raised
    · intro text htext
      rw [decide_eq_true_eq]
      exact hno (by simp) htext

theorem texts_block (opening : String) (body : List Line) :
    (Line.block opening body).map (·.text) = opening :: body.map (·.text) := by
  simp [Line.block, Line.at0]

theorem quiet_map {line : FieldStep → Line} (h : ∀ f ∈ a.steps, (line f).text.toList.head? = some 'f') :
    ∀ text ∈ (a.steps.map line).map (·.text), Quiet text := by
  simp only [List.map_map, List.forall_mem_map]
  exact fun f hf => quiet_of_head? (h f hf)

theorem builtIn_directLines (ha : a.Spelled) (hs : a.Slotted) :
    BuiltIn container a ((a.directLines container).map (·.text)) := by
  rw [directLines, List.map_append]
  exact (builtIn_returnLines ha).append (quiet_map fun f hf => head?_convertLine (hs f hf))

theorem texts_tryLines (a : Attempt) : (a.tryLines container).map (·.text) =
    (["try:"] ++ (a.steps.map (tryLine container)).map (·.text) ++
      ["except _rt.ConversionFailed:", "pass", "else:"] ++
      (if container.isSome then a.steps.map (splitLine container) else []).map (·.text)) ++
      (a.returnLines container).map (·.text) := by
  simp only [tryLines, texts_block, List.map_append, List.append_assoc, List.cons_append, List.nil_append,
    List.map_cons, List.map_nil, Line.at0]

theorem builtIn_tryLines (ha : a.Spelled) (hs : a.Slotted) :
    BuiltIn container a ((a.tryLines container).map (·.text)) := by
  rw [texts_tryLines]
  refine (builtIn_returnLines ha).append ?_
  simp only [List.forall_mem_append]
  refine ⟨⟨⟨by decide, quiet_map fun f hf => head?_tryLine (hs f hf)⟩, by decide⟩, ?_⟩
  split
  · exact quiet_map fun f hf => head?_splitLine (hs f hf)
  · exact List.forall_mem_nil _

/-- The attempts of a branch are what is built there. -/
theorem constructed_flatMap {attempts : List Attempt} {texts : Attempt → List String} (after : List String)
    (h : ∀ a ∈ attempts, BuiltIn container a (texts a)) (hafter : ∀ text ∈ after, ¬"value = ".toList <+: text.toList)
    (hafter' : ∀ text ∈ after, ¬"return ".toList <+: text.toList) :
    Line.constructed (attempts.flatMap texts ++ after) = attempts.map label := by
  have hflatMap {beginning : String} (hno : ∀ text ∈ after, ¬beginning.toList <+: text.toList)
      (hone : ∀ a ∈ attempts, (texts a).filterMap (Line.between beginning '(') = [a.label]) :
      (attempts.flatMap texts ++ after).filterMap (Line.between beginning '(') = attempts.map label := by
    rw [List.filterMap_append, List.filterMap_eq_nil_iff.mpr fun text htext => Line.between_eq_none (hno text htext),
      List.append_nil, List.filterMap_flatMap, List.flatMap_congr hone, ← List.map_eq_flatMap]
  have hnone : container = none → (attempts.flatMap texts ++ after).filterMap (Line.between "value = " '(') = [] := by
    rintro rfl
    rw [List.filterMap_append, List.filterMap_eq_nil_iff.mpr fun text htext => Line.between_eq_none (hafter text htext),
      List.append_nil, List.filterMap_flatMap, List.flatMap_eq_nil_iff]
    exact fun a ha => (h a ha).values
  rw [Line.constructed]
  cases container with
  | none =>
    rw [hnone rfl]
    exact hflatMap hafter' fun a ha => (h a ha).returns rfl
  | some c =>
    have hvalues := hflatMap hafter fun a ha => (h a ha).values
    split
    · rename_i hnil
      obtain rfl : attempts = [] := List.map_eq_nil_iff.mp (hvalues.symm.trans hnil)
      exact List.filterMap_eq_nil_iff.mpr fun text htext => Line.between_eq_none (hafter' text htext)
    · exact hvalues

theorem raised_flatMap {attempts : List Attempt} {texts : Attempt → List String} (after : List String)
    (h : ∀ a ∈ attempts, BuiltIn container a (texts a)) :
    Line.raised (attempts.flatMap texts ++ after) = Line.raised after := by
  induction attempts with
  | nil => rfl
  | cons a attempts ih =>
    rw [List.flatMap_cons, List.append_assoc, raised_append, (h a List.mem_cons_self).raised, List.nil_append,
      ih fun b hb => h b (List.mem_cons_of_mem _ hb)]

end Attempt

/-! ### Statements -/

/-- Lines that all have some text. -/
def Solid (ls : List Line) : Prop := ∀ l ∈ ls, l.text ≠ ""

namespace Line

variable {l : Line} {ls : List Line}

theorem nest_eq (h : l.text ≠ "") : l.nest = ⟨l.depth + 1, l.text⟩ := if_neg h

theorem solid_map_nest (h : Solid ls) : Solid (ls.map nest) :=
  List.forall_mem_map.mpr fun l hl => (text_nest l).symm ▸ h l hl

theorem solid_block {opening : String} (ho : opening ≠ "") (h : Solid ls) : Solid (block opening ls) :=
  List.forall_mem_cons.mpr ⟨ho, solid_map_nest h⟩

/-- The statements among some lines. -/
def statements (ls : List Line) : List String := (ls.filter (·.depth = 0)).map (firstWord ·.text)

theorem statements_append (ls ls' : List Line) : statements (ls ++ ls') = statements ls ++ statements ls' := by
  simp [statements]

/-- A block is one statement. -/
theorem statements_block {opening : String} (h : Solid ls) : statements (block opening ls) = [firstWord opening] := by
  have hinner : (ls.map nest).filter (·.depth = 0) = [] := by
    rw [List.filter_eq_nil_iff, List.forall_mem_map]
    intro l hl
    simp [nest_eq (h l hl)]
  rw [statements, block, List.filter_cons_of_pos (by simp [at0]), hinner]
  rfl

theorem ofLines_nest (test : String) (h : Solid ls) :
    Branch.ofLines test ((ls.map nest).map nest) =
      ⟨test, statements ls, constructed (ls.map (·.text)), raised (ls.map (·.text))⟩ := by
  have hnest : (ls.map nest).map nest = ls.map fun l => ⟨l.depth + 2, l.text⟩ := by
    rw [List.map_map]
    refine List.map_congr_left fun l hl => ?_
    have htext := (text_nest l).symm ▸ h l hl
    rw [Function.comp_apply, nest_eq htext, nest_eq (h l hl)]
  rw [Branch.ofLines, hnest, List.map_map, List.filter_map, statements, List.map_map]
  simp [Function.comp_def]

end Line

namespace Attempt

variable {container : Option DottedName} {a : Attempt}

theorem ne_empty_of_head? {text : String} {c : Char} (h : text.toList.head? = some c) : text ≠ "" := by
  rintro rfl
  cases h

theorem solid_map {line : FieldStep → Line} (h : ∀ f ∈ a.steps, (line f).text.toList.head? = some 'f') :
    Solid (a.steps.map line) :=
  List.forall_mem_map.mpr fun f hf => ne_empty_of_head? (h f hf)

theorem solid_returnLines (container : Option DottedName) (a : Attempt) : Solid (a.returnLines container) := by
  cases container with
  | none => exact List.forall_mem_singleton.mpr (ne_empty_of_head? (c := 'r') (by simp [Line.at0]))
  | some c =>
    refine List.forall_mem_cons.mpr ⟨ne_empty_of_head? (c := 'v') (by simp [Line.at0]), ?_⟩
    exact List.forall_mem_singleton.mpr (ne_empty_of_head? (c := 'r') (by simp [Line.at0, toString]))

theorem solid_directLines (hs : a.Slotted) : Solid (a.directLines container) :=
  List.forall_mem_append.mpr ⟨solid_map fun f hf => head?_convertLine (hs f hf), solid_returnLines container a⟩

/-- The blocks of an attempt have something in them, so their lines are those of the attempt. -/
theorem solid_blocks (container : Option DottedName) (hs : a.Slotted) :
    Solid (a.steps.map (tryLine container)) ∧ Solid [.at0 "pass"] ∧ Solid
      ((if container.isSome then a.steps.map (splitLine container) else []) ++ a.returnLines container) := by
  refine ⟨solid_map fun f hf => head?_tryLine (hs f hf), List.forall_mem_singleton.mpr (by decide),
    List.forall_mem_append.mpr ⟨?_, solid_returnLines container a⟩⟩
  split
  · exact solid_map fun f hf => head?_splitLine (hs f hf)
  · exact List.forall_mem_nil _

theorem solid_tryLines (hs : a.Slotted) : Solid (a.tryLines container) := by
  obtain ⟨htries, hpass, hlast⟩ := solid_blocks container hs
  simp only [tryLines, Solid, List.forall_mem_append]
  exact ⟨⟨Line.solid_block (by decide) htries, Line.solid_block (by decide) hpass⟩, Line.solid_block (by decide) hlast⟩

theorem statements_tryLines (hs : a.Slotted) :
    Line.statements (a.tryLines container) = ["try", "except", "else"] := by
  obtain ⟨htries, hpass, hlast⟩ := solid_blocks container hs
  rw [tryLines, Line.statements_append, Line.statements_append, Line.statements_block htries,
    Line.statements_block hpass, Line.statements_block hlast]
  decide

theorem statements_flatMap {attempts : List Attempt} (h : ∀ a ∈ attempts, a.Slotted) :
    Line.statements (attempts.flatMap (·.tryLines container)) =
      (List.replicate attempts.length ["try", "except", "else"]).flatten := by
  induction attempts with
  | nil => rfl
  | cons a attempts ih =>
    rw [List.flatMap_cons, Line.statements_append, statements_tryLines (h a List.mem_cons_self),
      ih fun b hb => h b (List.mem_cons_of_mem _ hb), List.length_cons, List.replicate_succ, List.flatten_cons]

theorem statements_directLines (hs : a.Slotted) :
    ∀ word ∈ Line.statements (a.directLines container), word ≠ "try" ∧ word ≠ "raise" := by
  have hreturn (rest : String) : Line.firstWord ("return " ++ rest) = "return" := by simp [Line.firstWord]
  have hvalue (rest : String) : Line.firstWord ("value = " ++ rest) = "value" := by simp [Line.firstWord]
  have hreturns : ∀ text ∈ (a.returnLines container).map (·.text), Line.firstWord text ∈ ["return", "value"] := by
    cases container with
    | none => simp [texts_returnLines_none, hreturn]
    | some c =>
      obtain ⟨rest, htexts⟩ := texts_returnLines_some a c
      simp [htexts, hreturn, hvalue]
  rw [Line.statements, List.forall_mem_map]
  intro l hl
  rcases List.mem_append.mp (List.mem_of_mem_filter hl) with hl | hl
  · obtain ⟨f, hf, rfl⟩ := List.mem_map.mp hl
    have hhead : (convertLine container f).text.toList.head? = some 'f' := head?_convertLine (hs f hf)
    exact ⟨Line.firstWord_ne (by decide) (by simp [hhead]), Line.firstWord_ne (by decide) (by simp [hhead])⟩
  · have hword := hreturns l.text (List.mem_map_of_mem hl)
    constructor <;>
    · intro heq
      rw [heq] at hword
      simp at hword

end Attempt

/-! ### Functions -/

namespace Conversion

variable {conv : Conversion} {arm : Arm} {a : Attempt} {attempts : List Attempt}

/-- The lines below the test for a case. -/
def bodyLines (conv : Conversion) (arm : Arm) : List Line :=
  match arm.body with
  | .direct a => a.directLines conv.container
  | .firstFit attempts => attempts.flatMap (·.tryLines conv.container) ++ [conv.exhaustedLine arm.case attempts]

theorem armLines_eq (conv : Conversion) (arm : Arm) :
    conv.armLines arm = Line.block s!"if isinstance(src, {conv.source}.{arm.case}):" (conv.bodyLines arm) := rfl

/-- What is to be read below the test for a case. -/
def branch (conv : Conversion) (arm : Arm) : Branch where
  test := s!"{conv.source}.{arm.case}"
  outline := Line.statements (conv.bodyLines arm)
  built := Line.constructed ((conv.bodyLines arm).map (·.text))
  named := Line.raised ((conv.bodyLines arm).map (·.text))

theorem text_exhaustedLine (conv : Conversion) (C : String) (attempts : List Attempt) :
    (conv.exhaustedLine C attempts).text = "raise _rt.ExhaustedCandidatesError(src, " ++ inQuotes conv.dest ++
      (", " ++ inQuotes s!"{conv.source}.{C}" ++
        (", (" ++ commaList ((attempts.map Attempt.label).map inQuotes) ++ ",))")) := by
  simp only [exhaustedLine, Line.at0, List.map_map, Function.comp_def, String.append_assoc]

/-- The error after the last attempt names what was attempted. -/
theorem raised_exhaustedLine {C : String} (hdest : IsPath conv.dest) (hsource : IsPath conv.source.text) (hC : IsPath C)
    (ha : ∀ a ∈ attempts, a.Spelled) :
    Line.raised [(conv.exhaustedLine C attempts).text] = attempts.map Attempt.label := by
  have hmark {text : String} (h : IsPath text) : '"' ∉ text.toList := h.notMem (by decide)
  have hcase : IsPath s!"{conv.source}.{C}" := (hsource.append isPath_dot).append hC
  have hlabels : ∀ label ∈ attempts.map Attempt.label, '"' ∉ label.toList :=
    List.forall_mem_map.mpr fun a hmem => hmark (((ha a hmem).dest.append isPath_dot).append (ha a hmem).case)
  have hquoted : Line.quoted (conv.exhaustedLine C attempts).text =
      conv.dest :: s!"{conv.source}.{C}" :: attempts.map Attempt.label := by
    rw [text_exhaustedLine, Line.quoted_append (by decide) (hmark hdest), Line.quoted_append (by decide) (hmark hcase),
      Line.quoted_commaList (by decide) (by decide) hlabels]
  have hprefix : "raise ".toList <+: (conv.exhaustedLine C attempts).text.toList := by simp [text_exhaustedLine]
  have hfilter : [(conv.exhaustedLine C attempts).text].filter (fun text => "raise ".toList <+: text.toList) =
      [(conv.exhaustedLine C attempts).text] :=
    List.filter_eq_self.mpr (List.forall_mem_singleton.mpr (decide_eq_true hprefix))
  rw [Line.raised, hfilter, List.flatMap_singleton, hquoted]
  rfl

theorem solid_bodyLines (hs : ∀ a ∈ arm.body.attempts, a.Slotted) : Solid (conv.bodyLines arm) := by
  rw [bodyLines]
  cases hbody : arm.body with
  | direct a => exact Attempt.solid_directLines (hs a (by simp [hbody, ArmBody.attempts]))
  | firstFit attempts =>
    refine List.forall_mem_append.mpr ⟨?_, List.forall_mem_singleton.mpr ?_⟩
    · rw [List.forall_mem_flatMap]
      exact fun a ha => Attempt.solid_tryLines (hs a (by simpa [hbody, ArmBody.attempts] using ha))
    · exact Attempt.ne_empty_of_head? (c := 'r') (by simp [text_exhaustedLine])

section

variable (hconv : conv.Spelled) (harm : arm ∈ conv.arms) (hs : ∀ a ∈ arm.body.attempts, a.Slotted)
include hconv harm hs

/-- Where a candidate is taken, it is all that is built. -/
theorem branch_direct (hbody : arm.body = .direct a) :
    (conv.branch arm).built = [a.label] ∧ (conv.branch arm).Takes := by
  have hmem : a ∈ arm.body.attempts := by simp [hbody, ArmBody.attempts]
  have hspelled := (hconv.arms arm harm).attempts a hmem
  have hbuilds : ∀ b ∈ [a], Attempt.BuiltIn conv.container b ((b.directLines conv.container).map (·.text)) :=
    List.forall_mem_singleton.mpr (Attempt.builtIn_directLines hspelled (hs a hmem))
  have hbuilt : (conv.branch arm).built = [a.label] := by
    have hconstructed := Attempt.constructed_flatMap [] hbuilds (List.forall_mem_nil _) (List.forall_mem_nil _)
    simpa [branch, bodyLines, hbody] using hconstructed
  have hnamed : (conv.branch arm).named = [] := by
    have hraised : Line.raised _ = [] := Attempt.raised_flatMap [] hbuilds
    simpa [branch, bodyLines, hbody] using hraised
  have hwords : ∀ word ∈ Line.statements (a.directLines conv.container), word ≠ "try" ∧ word ≠ "raise" :=
    Attempt.statements_directLines (hs a hmem)
  have houtline : (conv.branch arm).outline = Line.statements (a.directLines conv.container) := by
    simp only [branch, bodyLines, hbody]
  refine ⟨hbuilt, by rw [hbuilt]; rfl, ?_, ?_, hnamed⟩
  · rw [houtline]
    exact fun hmem => (hwords _ hmem).1 rfl
  · rw [houtline]
    exact fun hmem => (hwords _ hmem).2 rfl

/-- Where candidates are tried, they are built in turn, and the error names them all. -/
theorem branch_firstFit (hbody : arm.body = .firstFit attempts) :
    (conv.branch arm).built = attempts.map Attempt.label ∧ (conv.branch arm).Tries ∧
      (conv.branch arm).named = attempts.map Attempt.label := by
  have harm := hconv.arms arm harm
  have hattempts : arm.body.attempts = attempts := by rw [hbody, ArmBody.attempts]
  have hspelled : ∀ a ∈ attempts, a.Spelled := hattempts ▸ harm.attempts
  have hslotted : ∀ a ∈ attempts, a.Slotted := hattempts ▸ hs
  have hbuilds : ∀ a ∈ attempts, Attempt.BuiltIn conv.container a ((a.tryLines conv.container).map (·.text)) :=
    fun a ha => Attempt.builtIn_tryLines (hspelled a ha) (hslotted a ha)
  have htexts : (conv.bodyLines arm).map (·.text) =
      (attempts.flatMap fun a => (a.tryLines conv.container).map (·.text)) ++
        [(conv.exhaustedLine arm.case attempts).text] := by
    simp only [bodyLines, hbody, List.map_append, List.map_flatMap, List.map_singleton]
  have hbuilt : (conv.branch arm).built = attempts.map Attempt.label := by
    rw [branch, htexts]
    refine Attempt.constructed_flatMap _ hbuilds ?_ ?_ <;>
    · refine List.forall_mem_singleton.mpr ?_
      simp [text_exhaustedLine]
  have houtline : (conv.branch arm).outline =
      (List.replicate attempts.length ["try", "except", "else"]).flatten ++ ["raise"] := by
    have hword : Line.firstWord (conv.exhaustedLine arm.case attempts).text = "raise" := by
      rw [text_exhaustedLine]
      simp [Line.firstWord]
    have hlast : Line.statements [conv.exhaustedLine arm.case attempts] = ["raise"] := by
      rw [Line.statements, List.filter_cons_of_pos (by simp [exhaustedLine, Line.at0]), List.map_cons, hword]
      rfl
    simp only [branch, bodyLines, hbody, Line.statements_append, hlast, Attempt.statements_flatMap hslotted]
  refine ⟨hbuilt, ?_, ?_⟩
  · rw [Branch.Tries, houtline, hbuilt, List.length_map]
  · rw [branch, htexts, Attempt.raised_flatMap _ hbuilds,
      raised_exhaustedLine hconv.dest hconv.source harm.case hspelled]

end

theorem depth_nest_at0 (text : String) : (Line.at0 text).nest.depth ≤ 1 := by
  rw [Line.nest]
  split
  · exact Nat.zero_le 1
  · exact Nat.le_refl 1

theorem readLine_shallow {l : Line} (hdepth : l.depth ≤ 1) (htext : ¬"if isinstance(src, ".toList <+: l.text.toList)
    (below : List Line × List Branch) : Branch.readLine l below = ([], below.2) := by
  rw [Branch.readLine, if_pos hdepth, Line.between_eq_none htext]
  rfl

theorem foldr_deep {ls : List Line} (h : ∀ l ∈ ls, 1 < l.depth) (below : List Line × List Branch) :
    ls.foldr Branch.readLine below = (ls ++ below.1, below.2) := by
  induction ls with
  | nil => rfl
  | cons l ls ih =>
    have hl : ¬l.depth ≤ 1 := Nat.not_le.mpr (h l List.mem_cons_self)
    rw [List.foldr_cons, ih fun l' hl' => h l' (List.mem_cons_of_mem _ hl'), Branch.readLine, if_neg hl]
    rfl

/-- The test for a case and the lines below it make a branch. -/
theorem foldr_armLines (hsource : IsPath conv.source.text) (hcase : IsPath arm.case)
    (hs : ∀ a ∈ arm.body.attempts, a.Slotted) (branches : List Branch) :
    ((conv.armLines arm).map Line.nest).foldr Branch.readLine ([], branches) =
      ([], conv.branch arm :: branches) := by
  have hsolid : Solid (conv.bodyLines arm) := solid_bodyLines hs
  have hdeep : ∀ l ∈ ((conv.bodyLines arm).map Line.nest).map Line.nest, 1 < l.depth := by
    simp only [List.forall_mem_map]
    intro l hl
    have htext := hsolid l hl
    rw [Line.nest_eq (l := l.nest) (by rwa [Line.text_nest]), Line.nest_eq htext]
    exact Nat.lt_of_lt_of_le Nat.one_lt_two (Nat.le_add_left 2 l.depth)
  have hpath : ')' ∉ s!"{conv.source}.{arm.case}".toList :=
    ((hsource.append isPath_dot).append hcase).notMem (by decide)
  have htest : Line.between "if isinstance(src, " ')' s!"if isinstance(src, {conv.source}.{arm.case}):" =
      some s!"{conv.source}.{arm.case}" :=
    Line.between_append hpath [':'] (by simp [toString])
  rw [armLines_eq, Line.block, List.map_cons, List.foldr_cons, foldr_deep hdeep, List.append_nil, Branch.readLine,
    if_pos (depth_nest_at0 _), Line.text_nest, Line.at0, htest, Option.map_some, Line.ofLines_nest _ hsolid]
  rfl

/-- The line after the last test. -/
def lastLine (conv : Conversion) : Line := .at0 ("raise _rt.not_a_variant(src, " ++ inQuotes conv.source.text ++ ")")

theorem lines_eq (conv : Conversion) :
    conv.lines = .blank :: .blank :: .at0 s!"def {conv.name}(src):" :: (Line.docstring conv.docText).nest ::
      ((conv.arms.flatMap conv.armLines).map Line.nest ++ [conv.lastLine.nest]) := by
  simp [lines, gap, Line.block, lastLine]

/-- The branches that are read from a function are its arms. -/
theorem readAll_lines (hconv : conv.Spelled) (hs : ∀ arm ∈ conv.arms, ∀ a ∈ arm.body.attempts, a.Slotted) :
    Branch.readAll conv.lines = conv.arms.map conv.branch := by
  have hno {text : String} (htext : text.toList.head? ≠ some 'i') : ¬"if isinstance(src, ".toList <+: text.toList :=
    Line.not_prefix_of_head? (by decide) (by simpa using htext)
  have hother {text : String} (htext : text.toList.head? ≠ some 'i') (below : List Line × List Branch) :
      Branch.readLine (Line.at0 text).nest below = ([], below.2) :=
    readLine_shallow (depth_nest_at0 text) (by rw [Line.text_nest]; exact hno htext) below
  have harms (arms : List Arm) (h : ∀ arm ∈ arms, arm ∈ conv.arms) :
      ((arms.flatMap conv.armLines).map Line.nest).foldr Branch.readLine ([], []) = ([], arms.map conv.branch) := by
    induction arms with
    | nil => rfl
    | cons arm arms ih =>
      have harm := h arm List.mem_cons_self
      rw [List.flatMap_cons, List.map_append, List.foldr_append, ih fun a ha => h a (List.mem_cons_of_mem _ ha),
        foldr_armLines hconv.source (hconv.arms arm harm).case (hs arm harm)]
      rfl
  have hlast : [conv.lastLine.nest].foldr Branch.readLine ([], []) = ([], []) := hother (by simp) _
  have hblank (below : List Line × List Branch) : Branch.readLine .blank below = ([], below.2) :=
    readLine_shallow (by decide) (by decide) below
  have hdef (below : List Line × List Branch) :
      Branch.readLine (.at0 s!"def {conv.name}(src):") below = ([], below.2) :=
    readLine_shallow (Nat.zero_le 1) (hno (by simp [Line.at0, toString])) below
  rw [Branch.readAll, lines_eq, List.foldr_cons, List.foldr_cons, List.foldr_cons, List.foldr_cons,
    List.foldr_append, hlast, harms _ fun _ h => h, Line.docstring, hother (by simp), hdef, hblank, hblank]

theorem readSource_lines (hsource : IsPath conv.source.text) :
    Branch.readSource conv.lines = some conv.source.text := by
  have hlast : conv.lines.getLast? = some conv.lastLine.nest := by
    simp only [lines_eq, ← List.cons_append, List.getLast?_concat]
  rw [Branch.readSource, hlast, Option.bind_some, Line.text_nest]
  exact Line.between_append (hsource.notMem (by decide)) [')'] (by simp [lastLine, Line.at0, inQuotes])

end Conversion

end UnionBridge
