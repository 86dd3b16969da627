import UnionBridge.Proofs.Module.Body
import UnionBridge.Proofs.Module.Lexeme
import UnionBridge.Proofs.Module.Suite

/-! Reading a line of a program character by character. Where brackets and quotation marks pair up, and no mark stands
right behind a word, a line consists of tokens; and so does a text of such lines. -/
namespace UnionBridge

open Preamble

variable {cs inside rest : List Char} {c : Char} {n n' steps : Nat} {w w' : Bool} {named : CharacterNames}

/-! ### Reading character by character -/

/-- What is known between two characters of a line. -/
structure Spot where
  /-- How many brackets are open. -/
  depth : Nat
  /-- Whether a quotation mark here would stand right behind a word or another mark. -/
  tight : Bool
  /-- Whether a quotation is open. -/
  quoting : Bool
  deriving DecidableEq, Repr

namespace Spot

variable {s s' : Spot}

/-- The characters that mean something else in a quotation, or end it, or end the line. -/
def disturbing : List Char := ['"', '\\', '\n', '\r', '\x00']

def next (s : Spot) (c : Char) : Option Spot :=
  if s.quoting then
    if c = '"' then some ⟨s.depth, true, false⟩
    else if c ∈ disturbing then none
    else some s
  else if isWordChar c || c = '.' then some ⟨s.depth, true, false⟩
  else if c = '"' then if s.tight then none else some ⟨s.depth, true, true⟩
  else if c ∈ [' ', ',', ';', ':', '=', '@', '*', '|'] then some ⟨s.depth, false, false⟩
  else if c ∈ ['(', '[', '\x7b'] then if s.depth < depthLimit then some ⟨s.depth + 1, false, false⟩ else none
  else if c ∈ [')', ']', '\x7d'] then if s.depth = 0 then none else some ⟨s.depth - 1, false, false⟩
  else none

def scan : Spot → List Char → Option Spot
  | s, [] => some s
  | s, c :: cs => (s.next c).bind fun s => scan s cs

theorem scan_append (s : Spot) (cs rest : List Char) : s.scan (cs ++ rest) = (s.scan cs).bind fun s => s.scan rest := by
  induction cs generalizing s with
  | nil => rfl
  | cons c cs ih =>
    rw [List.cons_append, scan, scan, Option.bind_assoc]
    exact congrArg _ (funext ih)

/-- What can be read right behind a word can be read elsewhere. -/
theorem scan_loosen (h : scan ⟨n, true, false⟩ cs = some s) (w : Bool) :
    ∃ w', scan ⟨n, w, false⟩ cs = some ⟨s.depth, w', s.quoting⟩ := by
  cases cs with
  | nil =>
    obtain rfl := Option.some.inj h
    exact ⟨w, rfl⟩
  | cons c cs =>
    refine ⟨s.tight, ?_⟩
    obtain ⟨s₁, hnext, hrest⟩ := Option.bind_eq_some_iff.mp h
    have hmark : c ≠ '"' := by
      rintro rfl
      cases hnext
    have hsame : next ⟨n, w, false⟩ c = next ⟨n, true, false⟩ c := by simp [next, hmark]
    rw [scan, hsame, hnext]
    exact hrest

theorem scan_word {word : List Char} (hne : word ≠ []) (hword : ∀ c ∈ word, isWordChar c || c = '.') (n : Nat)
    (w : Bool) (rest : List Char) : scan ⟨n, w, false⟩ (word ++ rest) = scan ⟨n, true, false⟩ rest := by
  induction word generalizing w with
  | nil => exact absurd rfl hne
  | cons c word ih =>
    have hnext : next ⟨n, w, false⟩ c = some ⟨n, true, false⟩ := by
      simp [next, hword c List.mem_cons_self]
    rw [List.cons_append, scan, hnext, Option.bind_some]
    cases word with
    | nil => rfl
    | cons => exact ih (List.cons_ne_nil _ _) (fun c hc => hword c (List.mem_cons_of_mem _ hc)) true

theorem scan_quoted (hinside : ∀ c ∈ inside, c ∉ disturbing) (n : Nat) (w : Bool) (rest : List Char) :
    scan ⟨n, w, true⟩ (inside ++ rest) = scan ⟨n, w, true⟩ rest := by
  induction inside with
  | nil => rfl
  | cons c inside ih =>
    have hc := hinside c List.mem_cons_self
    have hnext : next ⟨n, w, true⟩ c = some ⟨n, w, true⟩ := by
      simp only [disturbing, List.mem_cons, not_or] at hc
      simp [next, disturbing, hc]
    rw [List.cons_append, scan, hnext]
    exact ih fun c hc => hinside c (List.mem_cons_of_mem _ hc)

/-- A quotation that is open ends on the line. -/
theorem exists_quoted (h : scan ⟨n, true, true⟩ cs = some s) (hs : s.quoting = false) :
    ∃ inside rest, cs = inside ++ '"' :: rest ∧ (∀ c ∈ inside, c ∉ disturbing) ∧
      scan ⟨n, true, false⟩ rest = some s := by
  induction cs with
  | nil =>
    obtain rfl := Option.some.inj h
    cases hs
  | cons c cs ih =>
    obtain ⟨s₁, hnext, hrest⟩ := Option.bind_eq_some_iff.mp h
    rw [next, if_pos rfl] at hnext
    split_ifs at hnext with hmark hplain
    · obtain rfl := Option.some.inj hnext
      exact ⟨[], cs, by rw [hmark, List.nil_append], List.forall_mem_nil _, hrest⟩
    · obtain rfl := Option.some.inj hnext
      obtain ⟨inside, rest, rfl, hinside, hscan⟩ := ih hrest
      exact ⟨c :: inside, rest, rfl, List.forall_mem_cons.mpr ⟨hplain, hinside⟩, hscan⟩

end Spot

/-! ### Quotations on a line -/

namespace Quotation

theorem untilOne_of_plain (h : ∀ c ∈ inside, c ∉ Spot.disturbing) (rest : List Char) :
    untilOne '"' (inside ++ '"' :: rest) = some (inside, rest) := by
  induction inside with
  | nil => simp [untilOne]
  | cons c inside ih =>
    have hc := h c List.mem_cons_self
    simp only [Spot.disturbing, List.mem_cons, not_or] at hc
    have hrest := ih fun c hc => h c (List.mem_cons_of_mem _ hc)
    rw [List.cons_append, untilOne]
    · simp [hc.1, hc.2.2.1, hrest]
    · rintro _ _ rfl
      exact absurd rfl hc.2.1

theorem noEscape_of_plain (h : ∀ c ∈ inside, c ∉ Spot.disturbing) : NoEscape inside := by
  rintro before after rfl
  exact absurd (by decide) (h '\\' (by simp))

theorem verbatim_of_plain (h : ∀ c ∈ inside, c ∉ Spot.disturbing) : Verbatim inside where
  noReturn hmem := h _ hmem (by decide)
  noMarks hmarks := h '"' (hmarks.subset List.mem_cons_self) (by decide)
  noMarkLast hlast := h _ (List.mem_of_getLast? hlast) (by decide)
  noEscape := noEscape_of_plain h

/-- Text without marks and escapes is what its quotation stands for. -/
theorem read?_of_plain (named : CharacterNames) (h : ∀ c ∈ inside, c ∉ Spot.disturbing)
    (hrest : rest.head? ≠ some '"') : read? named false ('"' :: (inside ++ '"' :: rest)) = some (inside, rest) := by
  have hone : untilOne '"' (inside ++ '"' :: rest) = some (inside, rest) := untilOne_of_plain h rest
  have hvalue : unescape named inside.length inside = some inside :=
    unescape_noEscape (noEscape_of_plain h) (Nat.le_refl _)
  -- The mark before the text is not the first of three.
  have hsingle : ∀ cs, inside ++ '"' :: rest ≠ '"' :: '"' :: cs := by
    rintro cs heq
    rcases inside with _ | ⟨c, inside⟩
    · exact hrest (by rw [(List.cons.inj heq).2]; rfl)
    · exact absurd (by simp [Spot.disturbing, (List.cons.inj heq).1]) (h c List.mem_cons_self)
  generalize inside ++ '"' :: rest = cs at hone hsingle
  rcases cs with _ | ⟨a, _ | ⟨b, cs⟩⟩
  · cases hone
  · simp [read?, hone, hvalue]
  · simp [read?, hone, hvalue]

end Quotation

/-! ### The tokens of a line -/

namespace Lexeme

variable {s : Spot} {word : List Char} {t : Preamble.Token}

theorem next?_word (hne : word ≠ []) (hword : ∀ c ∈ word, isWordChar c)
    (hrest : ∀ c ∈ rest.head?, isWordChar c = false ∧ Quotation.isMark c = false) :
    next? named n (word ++ rest) = some (.word (String.ofList word), n, rest) := by
  have htake : (word ++ rest).takeWhile isWordChar = word := by
    rw [List.takeWhile_append_of_pos hword]
    cases rest with
    | nil => simp
    | cons c rest => simp [(hrest c rfl).1]
  have hdrop : (word ++ rest).dropWhile isWordChar = rest := by
    rw [List.dropWhile_append_of_pos hword]
    cases rest with
    | nil => simp
    | cons c rest => simp [(hrest c rfl).1]
  have htoken : token? named n (word ++ rest) = some (.word (String.ofList word), n, rest) := by
    rw [token?, htake, hdrop]
    cases rest with
    | nil => simp [hne]
    | cons c rest => simp [hne, (hrest c rfl).2]
  rw [next?.eq_def, htoken]
  rfl

/-- A character that is read where no word and no quotation is stands for itself. -/
theorem next?_sign (named : CharacterNames) (h : Spot.next ⟨n, w, false⟩ c = some s) (hword : isWordChar c = false)
    (hmark : c ≠ '"') (hblank : c ≠ ' ') (rest : List Char) :
    s.quoting = false ∧ next? named n (c :: rest) = some (.sign c, s.depth, rest) := by
  simp only [Spot.next, hword, hmark, Bool.false_or, decide_eq_true_eq, if_false, Bool.false_eq_true, List.mem_cons,
    hblank, false_or, List.not_mem_nil, or_false] at h
  split_ifs at h with hdot hsign hopen hdepth hclose hzero
  · obtain rfl := Option.some.inj h
    subst hdot
    exact ⟨rfl, rfl⟩
  · obtain rfl := Option.some.inj h
    rcases hsign with rfl | rfl | rfl | rfl | rfl | rfl | rfl <;> exact ⟨rfl, rfl⟩
  · obtain rfl := Option.some.inj h
    rcases hopen with rfl | rfl | rfl <;>
      exact ⟨rfl, by simp [next?, token?, isWordChar, Quotation.isMark, signs, hdepth]⟩
  · obtain rfl := Option.some.inj h
    rcases hclose with rfl | rfl | rfl <;>
      exact ⟨rfl, by simp [next?, token?, isWordChar, Quotation.isMark, signs, hzero]⟩

theorem read?_blank (steps n : Nat) (cs : List Char) :
    read? named steps n false (' ' :: cs) = read? named steps n false cs := by
  have hskip : skipSpaces (' ' :: cs) = skipSpaces cs := by simp [skipSpaces, isSpace]
  cases steps with
  | zero => rfl
  | succ steps => rw [read?.eq_def, read?.eq_def]; simp only [hskip]

theorem read?_token (hnext : next? named n (c :: cs) = some (t, n', rest))
    (hc : c ∉ [' ', '\t', '\x0c', '\\', '#', '\n']) (steps : Nat) :
    read? named (steps + 1) n false (c :: cs) = (read? named steps n' false rest).map (.token t :: ·) := by
  simp only [List.mem_cons, not_or, List.not_mem_nil, not_false_eq_true, and_true] at hc
  have hskip : skipSpaces (c :: cs) = c :: cs := by
    rw [skipSpaces]
    · simp [isSpace, hc]
    · rintro _ rfl
      exact absurd rfl hc.2.2.2.1
  rw [read?.eq_def]
  simp [hskip, hc, hnext]

/-- Where a character can be read, it is none of those that end a line or hide something of it. -/
theorem notMem_of_next (h : Spot.next ⟨n, w, false⟩ c = some s) :
    c ∉ ['\t', '\x0c', '\\', '#', '\n', '\r', '\x00', '\''] := by
  simp only [List.mem_cons, List.not_mem_nil, or_false]
  rintro (rfl | rfl | rfl | rfl | rfl | rfl | rfl | rfl) <;> cases h

/-- One token is read of a line, and what is left of the line, which is shorter, ends at the same place. -/
def TakesOne (named : CharacterNames) (n : Nat) (cs : List Char) (s : Spot) : Prop :=
  ∃ t n' w' cs', cs'.length < cs.length ∧ Spot.scan ⟨n', w', false⟩ cs' = some s ∧
    ∀ rest, next? named n (cs ++ '\n' :: rest) = some (t, n', cs' ++ '\n' :: rest)

theorem takesOne_word (named : CharacterNames) (h : Spot.scan ⟨n, w, false⟩ (c :: cs) = some s) (hword : isWordChar c) :
    TakesOne named n (c :: cs) s := by
  obtain ⟨word, after, rfl, hall, hafter⟩ : ∃ word after, cs = word ++ after ∧ (∀ c ∈ word, isWordChar c) ∧
      ∀ c ∈ after.head?, isWordChar c = false :=
    ⟨cs.takeWhile isWordChar, cs.dropWhile isWordChar, List.takeWhile_append_dropWhile.symm,
      fun _ => List.mem_takeWhile_imp, fun d hd => by
        have hhead := List.head?_dropWhile_not isWordChar cs
        rwa [hd] at hhead⟩
  have hallWord : ∀ d ∈ c :: word, isWordChar d := List.forall_mem_cons.mpr ⟨hword, hall⟩
  have hscan : Spot.scan ⟨n, true, false⟩ after = some s := by
    rwa [← List.cons_append, Spot.scan_word (List.cons_ne_nil _ _) fun d hd => by simp [hallWord d hd]] at h
  refine ⟨.word (String.ofList (c :: word)), n, true, after, by simp, hscan, fun rest => ?_⟩
  rw [← List.cons_append, List.append_assoc]
  refine next?_word (List.cons_ne_nil _ _) hallWord fun d hd => ?_
  cases after with
  | nil =>
    obtain rfl := Option.some.inj hd
    exact ⟨by decide, by decide⟩
  | cons d' after =>
    obtain rfl := Option.some.inj hd
    obtain ⟨_, hd', _⟩ := Option.bind_eq_some_iff.mp hscan
    have hmark : d' ≠ '"' := by
      rintro rfl
      cases hd'
    have hno := notMem_of_next hd'
    simp only [List.mem_cons, not_or] at hno
    exact ⟨hafter d' rfl, by simp [Quotation.isMark, hmark, hno]⟩

theorem takesOne_quotation (named : CharacterNames) (h : Spot.scan ⟨n, w, false⟩ ('"' :: cs) = some s)
    (hs : s.quoting = false) : TakesOne named n ('"' :: cs) s := by
  obtain ⟨s₁, hnext, hrest⟩ := Option.bind_eq_some_iff.mp h
  obtain rfl : s₁ = ⟨n, true, true⟩ := by
    cases w with
    | false => exact (Option.some.inj hnext).symm
    | true => cases hnext
  obtain ⟨inside, after, rfl, hinside, hscan⟩ := Spot.exists_quoted hrest hs
  refine ⟨.text inside, n, true, after, by simp; omega, hscan, fun rest => ?_⟩
  have hafter : (after ++ '\n' :: rest).head? ≠ some '"' := by
    cases after with
    | nil => simp
    | cons d after =>
      rintro ⟨⟩
      cases hscan
  have hread := Quotation.read?_of_plain named hinside hafter
  rw [List.cons_append, List.append_assoc, List.cons_append]
  exact next?_quotation hread n

theorem takesOne (named : CharacterNames) (h : Spot.scan ⟨n, w, false⟩ (c :: cs) = some s) (hs : s.quoting = false)
    (hblank : c ≠ ' ') : TakesOne named n (c :: cs) s := by
  by_cases hword : isWordChar c
  · exact takesOne_word named h hword
  · by_cases hmark : c = '"'
    · subst hmark
      exact takesOne_quotation named h hs
    · obtain ⟨⟨n', w', quoting⟩, hnext, hrest⟩ := Option.bind_eq_some_iff.mp h
      have hsign := next?_sign named hnext (eq_false_of_ne_true hword) hmark hblank
      obtain rfl : quoting = false := (hsign []).1
      exact ⟨_, n', w', cs, Nat.lt_succ_self _, hrest, fun rest => (hsign _).2⟩

/-- What is read of a line up to its end. -/
theorem exists_read_of_scan (named : CharacterNames) (h : Spot.scan ⟨n, w, false⟩ cs = some s)
    (hs : s.quoting = false) :
    ∃ k ts, ∀ m rest, read? named (m + k) n false (cs ++ '\n' :: rest) =
      (read? named m s.depth false ('\n' :: rest)).map (ts ++ ·) := by
  induction hlen : cs.length using Nat.strong_induction_on generalizing cs n w with
  | _ len ih =>
    subst hlen
    rcases cs with _ | ⟨c, cs⟩
    · obtain rfl := Option.some.inj h
      exact ⟨0, [], fun m rest => by simp⟩
    · by_cases hblank : c = ' '
      · subst hblank
        obtain ⟨k, ts, hread⟩ := ih _ (Nat.lt_succ_self _) (n := n) (w := false) h rfl
        exact ⟨k, ts, fun m rest => by rw [List.cons_append, read?_blank, hread]⟩
      · obtain ⟨t, n', w', cs', hlt, hscan, hnext⟩ := takesOne named h hs hblank
        obtain ⟨k, ts, hread⟩ := ih _ hlt hscan rfl
        obtain ⟨_, hc, _⟩ := Option.bind_eq_some_iff.mp h
        have hno := notMem_of_next hc
        simp only [List.mem_cons, not_or] at hno
        refine ⟨k + 1, .token t :: ts, fun m rest => ?_⟩
        have hone : next? named n (c :: (cs ++ '\n' :: rest)) = _ := hnext rest
        rw [List.cons_append, ← Nat.add_assoc, read?_token hone (by simp [hblank, hno]), hread, Option.map_map]
        rfl

theorem read?_lineEnd (m n : Nat) (rest : List Char) :
    read? named (m + 1) n false ('\n' :: rest) =
      (read? named m n (n = 0) rest).map ((if n = 0 then [.token .lineEnd] else []) ++ ·) := by
  have hskip : skipSpaces ('\n' :: rest) = '\n' :: rest := by simp [skipSpaces, isSpace]
  rw [read?.eq_def]
  by_cases hn : n = 0 <;> simp [hskip, hn]

theorem read?_emptyLine {blanks : List Char} (hblanks : ∀ c ∈ blanks, c = ' ') (m : Nat) (rest : List Char) :
    read? named (m + 1) 0 true (blanks ++ '\n' :: rest) = read? named m 0 true rest := by
  have hspaces : ∀ c ∈ blanks, isSpace c := fun c hc => by simp [isSpace, hblanks c hc]
  have hdrop : (blanks ++ '\n' :: rest).dropWhile isSpace = '\n' :: rest := by
    rw [List.dropWhile_append_of_pos hspaces, List.dropWhile_cons_of_neg (by decide)]
  rw [read?, hdrop]
  rfl

theorem read?_margin {blanks more : List Char} (hblanks : ∀ c ∈ blanks, c = ' ')
    (hmore : ∃ c ∈ more.head?, c ∉ [' ', '\t', '\x0c', '#', '\n']) (m : Nat) :
    read? named (m + 1) 0 true (blanks ++ more) = (read? named m 0 false more).map (.margin blanks :: ·) := by
  obtain ⟨c, hc, hno⟩ := hmore
  obtain ⟨cs, rfl⟩ := List.head?_eq_some_iff.mp hc
  simp only [List.mem_cons, not_or, List.not_mem_nil, not_false_eq_true, and_true] at hno
  have hspaces : ∀ c ∈ blanks, isSpace c := fun c hc => by simp [isSpace, hblanks c hc]
  have hspace : isSpace c = false := by simp [isSpace, hno]
  have htake : (blanks ++ c :: cs).takeWhile isSpace = blanks := by
    rw [List.takeWhile_append_of_pos hspaces, List.takeWhile_cons_of_neg (by simp [hspace]), List.append_nil]
  have hdrop : (blanks ++ c :: cs).dropWhile isSpace = c :: cs := by
    rw [List.dropWhile_append_of_pos hspaces, List.dropWhile_cons_of_neg (by simp [hspace])]
  rw [read?.eq_def]
  simp [hdrop, htake, hno]

end Lexeme

/-! ### Lines -/

/-- A text that is the same in a quotation. -/
def Quotable (text : String) : Prop := ∀ c ∈ Spot.disturbing, c ∉ text.toList

instance (text : String) : Decidable (Quotable text) := List.decidableBAll (· ∉ text.toList) Spot.disturbing

@[simp] theorem quotable_append {a b : String} : Quotable (a ++ b) ↔ Quotable a ∧ Quotable b := by
  simp only [Quotable, String.toList_append, List.mem_append, not_or]
  exact forall₂_and

theorem Quotable.notMem {text : String} (h : Quotable text) : ∀ c ∈ text.toList, c ∉ Spot.disturbing :=
  fun c hc hmem => h c hmem hc

/-- The text of a line that consists of tokens, with the numbers of brackets that are open before it and behind it. -/
inductive Lexical : Nat → String → Nat → Prop
  | code {n n' : Nat} {w : Bool} {text : String} (h : Spot.scan ⟨n, false, false⟩ text.toList = some ⟨n', w, false⟩) :
    Lexical n text n'
  | docstring {inside : String} (h : Quotable inside) :
    Lexical 0 ("\"\"\"" ++ inside ++ "\"\"\"") 0

namespace Spot

variable {s s' : Spot}

theorem clean_of_scan (h : s.scan cs = some s') : ∀ c ∈ cs, c ∉ ['\r', '\x00'] := by
  induction cs generalizing s with
  | nil => exact List.forall_mem_nil _
  | cons c cs ih =>
    obtain ⟨s₁, hnext, hrest⟩ := Option.bind_eq_some_iff.mp h
    refine List.forall_mem_cons.mpr ⟨fun hc => ?_, ih hrest⟩
    obtain ⟨n, w, quoting⟩ := s
    cases quoting with
    | true => rcases List.mem_pair.mp hc with rfl | rfl <;> cases hnext
    | false => exact Lexeme.notMem_of_next hnext (by rcases List.mem_pair.mp hc with rfl | rfl <;> simp)

theorem scan_blanks {blanks : List Char} (h : ∀ c ∈ blanks, c = ' ') (n : Nat) (rest : List Char) :
    scan ⟨n, false, false⟩ (blanks ++ rest) = scan ⟨n, false, false⟩ rest := by
  induction blanks with
  | nil => rfl
  | cons c blanks ih =>
    obtain rfl := h c List.mem_cons_self
    exact ih fun c hc => h c (List.mem_cons_of_mem _ hc)

end Spot

theorem Lexical.clean {text : String} (h : Lexical n text n') : ∀ c ∈ text.toList, c ∉ ['\r', '\x00'] := by
  cases h with
  | code hscan => exact Spot.clean_of_scan hscan
  | @docstring inside hinside =>
    have hmarks : ∀ c ∈ "\"\"\"".toList, c ∉ ['\r', '\x00'] := by simp
    rw [String.toList_append, String.toList_append, List.forall_mem_append, List.forall_mem_append]
    refine ⟨⟨hmarks, fun c hc hmem => hinside.notMem c hc ?_⟩, hmarks⟩
    rcases List.mem_pair.mp hmem with rfl | rfl <;> decide

namespace Line

variable {l : Line} {text : String}

theorem exists_render (l : Line) : ∃ blanks, l.render.toList = blanks ++ l.text.toList ∧ ∀ c ∈ blanks, c = ' ' := by
  by_cases hl : l.text = ""
  · exact ⟨[], by simp [render, hl], List.forall_mem_nil _⟩
  · exact ⟨List.replicate (4 * l.depth) ' ', toList_render hl, fun c hc => List.eq_of_mem_replicate hc⟩

open Lexeme in
theorem exists_read_code (named : CharacterNames) {more : List Char}
    (h : Spot.scan ⟨0, false, false⟩ more = some ⟨n', w, false⟩)
    (hblank : more.head? ≠ some ' ') {blanks : List Char} (hblanks : ∀ c ∈ blanks, c = ' ') : ∃ k ts, ∀ m rest,
    read? named (m + k) 0 true (blanks ++ more ++ '\n' :: rest) = (read? named m n' (n' = 0) rest).map (ts ++ ·) := by
  rcases more with _ | ⟨c, more⟩
  · obtain ⟨rfl, _⟩ := Spot.mk.inj (Option.some.inj h)
    exact ⟨1, [], fun m rest => by rw [List.append_nil, read?_emptyLine hblanks]; simp⟩
  · obtain ⟨_, hnext, _⟩ := Option.bind_eq_some_iff.mp h
    have hno := notMem_of_next hnext
    have hne : c ≠ ' ' := fun heq => hblank (heq ▸ rfl)
    simp only [List.mem_cons, not_or] at hno
    obtain ⟨k, ts, hread⟩ := exists_read_of_scan named h rfl
    refine ⟨1 + k + 1, .margin blanks :: ts ++ if n' = 0 then [.token .lineEnd] else [], fun m rest => ?_⟩
    rw [List.append_assoc, ← Nat.add_assoc, read?_margin hblanks ⟨c, rfl, by simp [hne, hno]⟩, ← Nat.add_assoc, hread,
      read?_lineEnd, Option.map_map, Option.map_map]
    simp [Function.comp_def]

open Lexeme in
/-- What is read of a line and its end, if tokens are all there is. -/
theorem exists_read (named : CharacterNames) (h : Lexical n l.text n') : ∃ k ts, ∀ m rest,
    read? named (m + k) n (n = 0) (l.render.toList ++ '\n' :: rest) = (read? named m n' (n' = 0) rest).map (ts ++ ·) := by
  obtain ⟨blanks, hrender, hblanks⟩ := l.exists_render
  generalize l.text = text at h hrender
  rw [hrender]
  cases h with
  | @code _ _ w _ hscan =>
    by_cases hn : n = 0
    · subst hn
      obtain ⟨before, more, heq, hbefore, hmore⟩ : ∃ before more, text.toList = before ++ more ∧
          (∀ c ∈ before, c = ' ') ∧ more.head? ≠ some ' ' := by
        refine ⟨text.toList.takeWhile (· = ' '), text.toList.dropWhile (· = ' '),
          List.takeWhile_append_dropWhile.symm, fun c hc => by simpa using List.mem_takeWhile_imp hc, fun hhead => ?_⟩
        have hfirst := List.head?_dropWhile_not (· = ' ') text.toList
        simp [hhead] at hfirst
      rw [heq, Spot.scan_blanks hbefore] at hscan
      rw [heq, ← List.append_assoc]
      exact exists_read_code named hscan hmore (List.forall_mem_append.mpr ⟨hblanks, hbefore⟩)
    · obtain ⟨k, ts, hread⟩ := exists_read_of_scan named (Spot.scan_blanks hblanks n _ ▸ hscan) rfl
      refine ⟨1 + k, ts ++ if n' = 0 then [.token .lineEnd] else [], fun m rest => ?_⟩
      rw [decide_eq_false hn, ← Nat.add_assoc, hread, read?_lineEnd, Option.map_map]
      simp [Function.comp_def]
  | @docstring inside hinside =>
    have hverbatim : Quotation.Verbatim inside.toList := Quotation.verbatim_of_plain hinside.notMem
    refine ⟨3, [.margin blanks, .token (.text inside.toList), .token .lineEnd], fun m rest => ?_⟩
    have hnext := next?_quotation (hverbatim.read? named ('\n' :: rest)) 0
    have htext : ("\"\"\"" ++ inside ++ "\"\"\"").toList ++ '\n' :: rest =
        '"' :: '"' :: '"' :: (inside.toList ++ '"' :: '"' :: '"' :: '\n' :: rest) := by simp
    rw [List.append_assoc, htext, decide_eq_true rfl, read?_margin hblanks ⟨'"', rfl, by decide⟩,
      read?_token hnext (by decide), read?_lineEnd, Option.map_map, Option.map_map]
    rfl

/-- Lines of tokens, with the numbers of brackets that are open before them and behind them. -/
inductive Chain : Nat → List Line → Nat → Prop
  | nil {n : Nat} : Chain n [] n
  | cons {n n' n'' : Nat} {l : Line} {ls : List Line} (h : Lexical n l.text n') (hrest : Chain n' ls n'') :
    Chain n (l :: ls) n''

namespace Chain

variable {ls ls' : List Line} {n'' : Nat}

theorem append (h : Chain n ls n') (h' : Chain n' ls' n'') : Chain n (ls ++ ls') n'' := by
  induction h with
  | nil => exact h'
  | cons hl _ ih => exact .cons hl (ih h')

theorem of_forall (h : ∀ l ∈ ls, Lexical n l.text n) : Chain n ls n := by
  induction ls with
  | nil => exact .nil
  | cons l ls ih => exact .cons (h l List.mem_cons_self) (ih fun l hl => h l (List.mem_cons_of_mem _ hl))

open Lexeme in
theorem exists_read (named : CharacterNames) (h : Chain n ls n') : ∃ k ts, ∀ m rest,
    read? named (m + k) n (n = 0) ((ls.flatMap fun l => l.render.toList ++ ['\n']) ++ rest) =
      (read? named m n' (n' = 0) rest).map (ts ++ ·) := by
  induction h with
  | nil => exact ⟨0, [], fun m rest => by simp⟩
  | cons hl _ ih =>
    obtain ⟨k, ts, hread⟩ := Line.exists_read named hl
    obtain ⟨k', ts', hread'⟩ := ih
    refine ⟨k' + k, ts ++ ts', fun m rest => ?_⟩
    rw [List.flatMap_cons, List.append_assoc, List.append_assoc, List.singleton_append, ← Nat.add_assoc, hread, hread',
      Option.map_map]
    simp [Function.comp_def]

theorem clean (h : Chain n ls n') :
    ∀ c ∈ ls.flatMap fun l => l.render.toList ++ ['\n'], c ∉ ['\r', '\x00'] := by
  induction h with
  | nil => exact List.forall_mem_nil _
  | @cons _ _ _ l _ hl _ ih =>
    obtain ⟨blanks, hrender, hblanks⟩ := l.exists_render
    rw [List.flatMap_cons, List.forall_mem_append, hrender, List.forall_mem_append, List.forall_mem_append]
    exact ⟨⟨⟨fun c hc => by simp [hblanks c hc], hl.clean⟩, List.forall_mem_singleton.mpr (by decide)⟩, ih⟩

/-- A text of such lines consists of tokens. -/
theorem exists_reads (h : Chain 0 ls 0) {text : String}
    (htext : text.toList = ls.flatMap fun l => l.render.toList ++ ['\n']) (named : CharacterNames) :
    ∃ ts, Lexeme.Reads named text ts := by
  obtain ⟨k, ts, hread⟩ := h.exists_read named
  have hclean := h.clean
  rw [← htext] at hclean
  have hreturn : '\r' ∉ text.toList := fun hmem => hclean _ hmem (by decide)
  refine ⟨ts, fun hmem => hclean _ hmem (by decide), 1 + k, ?_⟩
  have hend : Lexeme.read? named 1 0 true [] = some [] := rfl
  have hall := hread 1 []
  rw [List.append_nil, ← htext] at hall
  rw [unifyLines_eq_self hreturn]
  simpa [hend] using hall

end Chain

end Line

end UnionBridge
