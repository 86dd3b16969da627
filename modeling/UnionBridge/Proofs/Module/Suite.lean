import Mathlib
import UnionBridge.Module.Text

/-! Lines in blocks. Suites are put together from plain lines and from openings with a block below them; of any suite it
can be told, line by line, that what follows a line stands where it has to. -/
namespace UnionBridge

namespace Line

/-- A line opens a block when it ends in a colon. -/
def Opens (l : Line) : Prop := l.text.toList.getLast? = some ':'

instance (l : Line) : Decidable l.Opens := inferInstanceAs (Decidable (_ = _))

/-- The words that a line can open a block with. -/
def openings : List String := ["class ", "def ", "if ", "try:", "except ", "else:"]

/-- The line where a block of attempts begins. -/
def tryText : String := "try:"

/-- What to do when the attempts fail. -/
def exceptText : String := "except _rt.ConversionFailed:"

/-- What to do when they succeed. -/
def elseText : String := "else:"

/-- How many blanks a rendered line begins with. -/
def indentation (text : String) : Nat := (text.toList.takeWhile (· = ' ')).length

/-- A line that can be told from the rendered text: it is not broken, and its blanks are those of its depth. -/
structure Legible (l : Line) : Prop where
  unbroken : '\n' ∉ l.render.toList
  indented : l.text ≠ "" → indentation l.render = 4 * l.depth

/-- The lines with text. -/
def written (ls : List Line) : List Line := ls.filter fun l => l.text ≠ ""

/-- The same line one block further in, blank or not. -/
def deeper (l : Line) : Line := { l with depth := l.depth + 1 }

/-- A line opens a block in which another one stands, some lines below. -/
def Encloses (o : Line) (before : List Line) (l : Line) : Prop :=
  o.Opens ∧ ∃ above between, before = above ++ o :: between ∧ ∀ x ∈ between ++ [l], o.depth < x.depth

/-- What follows a `try` line: a block, the line for failure with a block, and the line for success with a block. -/
structure Attempted (t : Line) (after body failure success rest : List Line) : Prop where
  eq : after = body ++ ⟨t.depth, exceptText⟩ :: (failure ++ ⟨t.depth, elseText⟩ :: (success ++ rest))
  bodyNe : body ≠ []
  failureNe : failure ≠ []
  successNe : success ≠ []
  inner : ∀ x ∈ body ++ failure ++ success, t.depth < x.depth

end Line

/-- Lines that are properly indented. Each line that opens a block is followed by one exactly one level deeper; after
any other line comes one of the same level, or of the level of a line that opens a block around it. -/
structure WellIndented (ls : List Line) : Prop where
  start : ∀ l ∈ ls.head?, l.depth = 0
  opening {before : List Line} {l : Line} {after : List Line} (h : ls = before ++ l :: after) (hl : l.Opens) :
    ∃ next ∈ after.head?, next.depth = l.depth + 1
  other {before : List Line} {l next : Line} {after : List Line} (h : ls = before ++ l :: next :: after)
    (hl : ¬l.Opens) : next.depth = l.depth ∨ ∃ o : Line, o.Encloses before l ∧ next.depth = o.depth
  word : ∀ l ∈ ls, l.Opens → ∃ w ∈ Line.openings, w.toList <+: l.text.toList
  attempt {before : List Line} {t : Line} {after : List Line} (h : ls = before ++ t :: after)
    (ht : t.text = Line.tryText) : ∃ body failure success rest, t.Attempted after body failure success rest

/-! ### Suites -/

/-- A text without line ends. -/
def Unbroken (text : String) : Prop := '\n' ∉ text.toList

/-- A text that begins with no blank. -/
def Begins (text : String) : Prop := text ≠ "" ∧ text.toList.head? ≠ some ' '

/-- A text that does not end in a colon. -/
def Ends (text : String) : Prop := text ≠ "" ∧ text.toList.getLast? ≠ some ':'

instance (text : String) : Decidable (Unbroken text) := inferInstanceAs (Decidable (_ ∉ _))

instance (text : String) : Decidable (Begins text) := inferInstanceAs (Decidable (_ ∧ _))

instance (text : String) : Decidable (Ends text) := inferInstanceAs (Decidable (_ ∧ _))

/-- The text of a line that stands on its own. -/
structure Plain (text : String) : Prop where
  unbroken : Unbroken text
  begins : Begins text
  ends : Ends text

/-- The text of a line with a block below it. -/
structure Opening (text : String) : Prop where
  unbroken : Unbroken text
  word : ∃ w ∈ ["class ", "def ", "if "], w.toList <+: text.toList
  colon : text.toList.getLast? = some ':'

/-- Lines one after the other, each with its block if it opens one. -/
inductive Suite : List Line → Prop
  | nil : Suite []
  | blank {rest : List Line} (hrest : Suite rest) : Suite (.blank :: rest)
  | plain {text : String} {rest : List Line} (htext : Plain text) (hrest : Suite rest) : Suite (.at0 text :: rest)
  | block {opening : String} {body rest : List Line} (hopening : Opening opening) (hbody : Suite body)
      (hne : Line.written body ≠ []) (hrest : Suite rest) : Suite (Line.block opening body ++ rest)
  | attempt {body failure success rest : List Line} (hbody : Suite body) (hbodyNe : Line.written body ≠ [])
      (hfailure : Suite failure) (hfailureNe : Line.written failure ≠ []) (hsuccess : Suite success)
      (hsuccessNe : Line.written success ≠ []) (hrest : Suite rest) :
      Suite (Line.block Line.tryText body ++
        (Line.block Line.exceptText failure ++ (Line.block Line.elseText success ++ rest)))

namespace Suite

variable {ls ls' : List Line}

theorem append (h : Suite ls) (h' : Suite ls') : Suite (ls ++ ls') := by
  induction h with
  | nil => exact h'
  | blank _ ih => exact .blank ih
  | plain htext _ ih => exact .plain htext ih
  | block hopening hbody hne _ _ ih =>
    rw [List.append_assoc]
    exact .block hopening hbody hne ih
  | attempt hbody hbodyNe hfailure hfailureNe hsuccess hsuccessNe _ _ _ _ ih =>
    simp only [List.append_assoc]
    exact .attempt hbody hbodyNe hfailure hfailureNe hsuccess hsuccessNe ih

theorem flatMap {α : Type} {f : α → List Line} {l : List α} (h : ∀ a ∈ l, Suite (f a)) : Suite (l.flatMap f) := by
  induction l with
  | nil => exact .nil
  | cons a l ih =>
    rw [List.flatMap_cons]
    exact (h a List.mem_cons_self).append (ih fun b hb => h b (List.mem_cons_of_mem _ hb))

/-- Lines that stand on their own, each at depth zero. -/
theorem of_plain (h : ∀ l ∈ ls, l.depth = 0 ∧ Plain l.text) : Suite ls := by
  induction ls with
  | nil => exact .nil
  | cons l ls ih =>
    obtain ⟨depth, text⟩ := l
    obtain ⟨rfl, htext⟩ := h _ List.mem_cons_self
    exact .plain htext (ih fun l' hl' => h l' (List.mem_cons_of_mem _ hl'))

theorem single {text : String} (h : Plain text) : Suite [.at0 text] := .plain h .nil

theorem gap : Suite UnionBridge.gap := .blank (.blank .nil)

end Suite

/-! ### Lines that are written -/

namespace Line

variable {ls ls' : List Line} {l t : Line} {text opening : String}

@[simp] theorem text_nest (l : Line) : l.nest.text = l.text := by
  rw [nest]
  split <;> rfl

theorem toList_pushn (n : Nat) : ("".pushn ' ' n).toList = List.replicate n ' ' := by
  rw [String.pushn]
  induction n with
  | zero => rfl
  | succ n ih => rw [Nat.repeat, String.toList_push, ih, List.replicate_succ']

theorem toList_render (h : l.text ≠ "") : l.render.toList = List.replicate (4 * l.depth) ' ' ++ l.text.toList := by
  rw [render, if_neg h, String.toList_append, toList_pushn]

theorem legible_of_text (hunbroken : '\n' ∉ l.text.toList) (hflush : l.text.toList.head? ≠ some ' ') : l.Legible := by
  by_cases hl : l.text = ""
  · exact ⟨by simp [render, hl], fun h => absurd hl h⟩
  · refine ⟨by simpa [toList_render hl] using hunbroken, fun _ => ?_⟩
    rw [indentation, toList_render hl, List.takeWhile_append_of_pos (by simp)]
    cases htext : l.text.toList with
    | nil => simp
    | cons c cs =>
      rw [htext] at hflush
      have hc : c ≠ ' ' := fun hc => hflush (congrArg some hc)
      simp [hc]

theorem written_append : written (ls ++ ls') = written ls ++ written ls' := List.filter_append ..

theorem written_map_nest : written (ls.map nest) = (written ls).map deeper := by
  induction ls with
  | nil => rfl
  | cons l ls ih =>
    by_cases hl : l.text = "" <;> simp_all [written, nest, deeper]

theorem written_block (h : opening ≠ "") : written (block opening ls) = .at0 opening :: (written ls).map deeper := by
  rw [← written_map_nest]
  simp [written, block, at0, h]

end Line

theorem Plain.written_cons {text : String} {ls : List Line} (h : Plain text) :
    Line.written (.at0 text :: ls) = .at0 text :: Line.written ls :=
  List.filter_cons_of_pos (decide_eq_true h.begins.1)

theorem Opening.ne_empty {text : String} (h : Opening text) : text ≠ "" := by
  rintro rfl
  cases h.colon

/-! ### What a suite looks like line by line -/

/-- The order of depths: an opening is followed by a line one level deeper, other lines by none that is deeper. -/
def Line.Follows (l next : Line) : Prop := if l.Opens then next.depth = l.depth + 1 else next.depth ≤ l.depth

/-- Lines at depth zero with complete blocks, as far as depths go. -/
structure Stacked (ls : List Line) : Prop where
  start : ∀ l ∈ ls.head?, l.depth = 0
  finish : ∀ l ∈ ls.getLast?, ¬l.Opens
  chain : ls.IsChain Line.Follows

namespace Stacked

variable {ls ls' : List Line} {l o : Line} {before after : List Line} {text : String}

theorem nil : Stacked [] := ⟨by simp, by simp, .nil⟩

theorem plain (htext : ¬(Line.at0 text).Opens) (h : Stacked ls) : Stacked (.at0 text :: ls) where
  start := by simp [Line.at0]
  finish l hl := by
    rw [List.getLast?_cons] at hl
    cases hlast : ls.getLast? with
    | none =>
      rw [hlast] at hl
      obtain rfl := Option.some.inj hl
      exact htext
    | some l' =>
      rw [hlast] at hl
      obtain rfl := Option.some.inj hl
      exact h.finish _ hlast
  chain := by
    refine List.isChain_cons.mpr ⟨fun next hnext => ?_, h.chain⟩
    rw [Line.Follows, if_neg htext, h.start next hnext]
    exact Nat.zero_le _

theorem append (h : Stacked ls) (h' : Stacked ls') : Stacked (ls ++ ls') where
  start l hl := by
    cases ls with
    | nil => exact h'.start l hl
    | cons => exact h.start l hl
  finish l hl := by
    rw [List.getLast?_append] at hl
    cases hlast : ls'.getLast? with
    | none =>
      rw [hlast] at hl
      exact h.finish l hl
    | some l' =>
      rw [hlast] at hl
      obtain rfl := Option.some.inj hl
      exact h'.finish _ hlast
  chain := by
    refine List.isChain_append.mpr ⟨h.chain, h'.chain, fun l hl next hnext => ?_⟩
    rw [Line.Follows, if_neg (h.finish l hl), h'.start next hnext]
    exact Nat.zero_le _

theorem block (htext : (Line.at0 text).Opens) (hne : ls ≠ []) (h : Stacked ls) :
    Stacked (.at0 text :: ls.map Line.deeper) where
  start := by simp [Line.at0]
  finish l hl := by
    obtain ⟨first, rest, rfl⟩ := List.exists_cons_of_ne_nil hne
    rw [List.map_cons, List.getLast?_cons_cons, ← List.map_cons, List.getLast?_map, Option.mem_def,
      Option.map_eq_some_iff] at hl
    obtain ⟨last, hlast, rfl⟩ := hl
    exact h.finish last hlast
  chain := by
    refine List.isChain_cons.mpr ⟨fun next hnext => ?_, (List.isChain_map _).mpr (h.chain.imp fun l next hn => ?_)⟩
    · rw [List.head?_map, Option.mem_def, Option.map_eq_some_iff] at hnext
      obtain ⟨first, hfirst, rfl⟩ := hnext
      rw [Line.Follows, if_pos htext, Line.deeper, h.start first hfirst]
      rfl
    · by_cases hl : l.Opens
      · rw [Line.Follows, if_pos hl] at hn
        rw [Line.Follows, if_pos (show l.deeper.Opens from hl)]
        exact congrArg (· + 1) hn
      · rw [Line.Follows, if_neg hl] at hn
        rw [Line.Follows, if_neg (show ¬l.deeper.Opens from hl)]
        exact Nat.add_le_add_right hn 1

/-- Each level above that of a line is the level of a block that it stands in. -/
theorem exists_encloses (h : Stacked (before ++ l :: after)) {n : Nat} (hn : n < l.depth) :
    ∃ o : Line, o.Encloses before l ∧ o.depth = n := by
  induction before using List.reverseRecOn generalizing l after with
  | nil =>
    have hzero := h.start l (by simp)
    omega
  | append_singleton before p ih =>
    rw [List.append_assoc, List.singleton_append] at h
    have hfollows : p.Follows l := by
      have hchain := (List.isChain_append.mp h.chain).2.1
      exact (List.isChain_cons_cons.mp hchain).1
    by_cases hp : n < p.depth
    · obtain ⟨o, ⟨hopens, above, between, rfl, hinner⟩, rfl⟩ := ih h hp
      refine ⟨o, ⟨hopens, above, between ++ [p], by simp, fun x hx => ?_⟩, rfl⟩
      rcases List.mem_append.mp hx with hx | hx
      · exact hinner x hx
      · obtain rfl := List.mem_singleton.mp hx
        exact hn
    · -- The line before it is on level `n` or above, so it is the one that opens this block.
      rw [Line.Follows] at hfollows
      split at hfollows
      · rename_i hopens
        refine ⟨p, ⟨hopens, before, [], rfl, fun x hx => ?_⟩, by omega⟩
        obtain rfl := List.mem_singleton.mp (by simpa using hx)
        omega
      · omega

end Stacked

namespace Line

variable {ls ls' : List Line} {t l : Line} {before after : List Line}

/-- Every `try` line of some lines has what belongs to it below it, all of it among these lines. -/
def Tried (ls : List Line) : Prop := ∀ before t after, ls = before ++ t :: after → t.text = tryText →
  ∃ body failure success rest, t.Attempted after body failure success rest

theorem Attempted.append {body failure success rest : List Line} (h : t.Attempted after body failure success rest)
    (more : List Line) : t.Attempted (after ++ more) body failure success (rest ++ more) where
  eq := by simp [h.eq]
  bodyNe := h.bodyNe
  failureNe := h.failureNe
  successNe := h.successNe
  inner := h.inner

theorem tried_nil : Tried [] := fun before t after h => by simp at h

theorem Tried.append (h : Tried ls) (h' : Tried ls') : Tried (ls ++ ls') := by
  intro before t after heq ht
  rcases List.append_eq_append_iff.mp heq with ⟨between, rfl, hls'⟩ | ⟨between, rfl, hafter⟩
  · exact h' between t after hls' ht
  · cases between with
    | nil => exact h' [] t after hafter.symm ht
    | cons t' between =>
      obtain ⟨rfl, rfl⟩ := List.cons.inj hafter
      obtain ⟨body, failure, success, rest, hbelow⟩ := h before t between rfl ht
      exact ⟨body, failure, success, rest ++ ls', hbelow.append ls'⟩

theorem Tried.cons (hl : l.text ≠ tryText) (h : Tried ls) : Tried (l :: ls) := by
  intro before t after heq ht
  cases before with
  | nil =>
    obtain ⟨rfl, rfl⟩ := List.cons.inj heq
    exact absurd ht hl
  | cons l' before => exact h before t after (List.cons.inj heq).2 ht

theorem Tried.deeper (h : Tried ls) : Tried (ls.map Line.deeper) := by
  intro before t after heq ht
  obtain ⟨before, rest, rfl, rfl, hrest⟩ := List.map_eq_append_iff.mp heq
  obtain ⟨t, after, rfl, rfl, rfl⟩ := List.map_eq_cons_iff.mp hrest
  obtain ⟨body, failure, success, rest, hbelow⟩ := h before t after rfl ht
  refine ⟨body.map Line.deeper, failure.map Line.deeper, success.map Line.deeper, rest.map Line.deeper,
    ?_, ?_, ?_, ?_, ?_⟩
  · simp [hbelow.eq, Line.deeper]
  · simpa using hbelow.bodyNe
  · simpa using hbelow.failureNe
  · simpa using hbelow.successNe
  · intro x hx
    simp only [← List.map_append, List.mem_map] at hx
    obtain ⟨y, hy, rfl⟩ := hx
    exact Nat.add_lt_add_right (hbelow.inner y hy) 1

theorem Tried.attempt {body failure success rest : List Line} (hbody : Tried body) (hbodyNe : body ≠ [])
    (hfailure : Tried failure) (hfailureNe : failure ≠ []) (hsuccess : Tried success) (hsuccessNe : success ≠ [])
    (hrest : Tried rest) :
    Tried (.at0 tryText :: body.map Line.deeper ++
      (.at0 exceptText :: failure.map Line.deeper ++ (.at0 elseText :: success.map Line.deeper ++ rest))) := by
  intro before t after heq ht
  cases before with
  | nil =>
    obtain ⟨rfl, rfl⟩ := List.cons.inj heq
    refine ⟨body.map Line.deeper, failure.map Line.deeper, success.map Line.deeper, rest, ?_, ?_, ?_, ?_, ?_⟩
    · simp [at0]
    · simpa using hbodyNe
    · simpa using hfailureNe
    · simpa using hsuccessNe
    · intro x hx
      simp only [← List.map_append, List.mem_map] at hx
      obtain ⟨y, _, rfl⟩ := hx
      exact Nat.succ_pos _
  | cons l before =>
    have hbelow : Tried (.at0 exceptText :: failure.map Line.deeper ++
        (.at0 elseText :: success.map Line.deeper ++ rest)) :=
      .append (.cons (by decide) hfailure.deeper) (.append (.cons (by decide) hsuccess.deeper) hrest)
    exact hbody.deeper.append hbelow before t after (List.cons.inj heq).2 ht

end Line

namespace Suite

variable {ls : List Line}

theorem stacked (h : Suite ls) : Stacked (Line.written ls) := by
  induction h with
  | nil => exact .nil
  | blank _ ih => exact ih
  | plain htext _ ih =>
    rw [htext.written_cons]
    exact ih.plain htext.ends.2
  | block hopening _ hne _ ihbody ih =>
    rw [Line.written_append, Line.written_block hopening.ne_empty]
    exact (ihbody.block hopening.colon hne).append ih
  | attempt _ hbodyNe _ hfailureNe _ hsuccessNe _ ihbody ihfailure ihsuccess ih =>
    simp only [Line.written_append]
    rw [Line.written_block (by decide), Line.written_block (by decide), Line.written_block (by decide)]
    exact (ihbody.block (by decide) hbodyNe).append
      ((ihfailure.block (by decide) hfailureNe).append ((ihsuccess.block (by decide) hsuccessNe).append ih))

theorem tried (h : Suite ls) : Line.Tried (Line.written ls) := by
  induction h with
  | nil => exact Line.tried_nil
  | blank _ ih => exact ih
  | plain htext _ ih =>
    rw [htext.written_cons]
    refine ih.cons fun heq => htext.ends.2 ?_
    simp only [Line.at0] at heq
    rw [heq]
    decide
  | @block opening _ _ hopening _ hne _ ihbody ih =>
    rw [Line.written_append, Line.written_block hopening.ne_empty]
    refine (ihbody.deeper.cons fun heq => ?_).append ih
    obtain ⟨w, hw, hprefix⟩ := hopening.word
    have hopening : opening = Line.tryText := heq
    have hnone : ∀ w ∈ ["class ", "def ", "if "], ¬w.toList <+: Line.tryText.toList := by decide
    exact hnone w hw (hopening ▸ hprefix)
  | attempt _ hbodyNe _ hfailureNe _ hsuccessNe _ ihbody ihfailure ihsuccess ih =>
    simp only [Line.written_append]
    rw [Line.written_block (by decide), Line.written_block (by decide), Line.written_block (by decide)]
    exact ihbody.attempt hbodyNe ihfailure hfailureNe ihsuccess hsuccessNe ih

/-- What holds of the texts of all lines by themselves holds of all texts in a suite, at any depth. -/
theorem forall_text {P : String → Prop} (hblank : P "") (hplain : ∀ text, Plain text → P text)
    (hopening : ∀ text, Opening text → P text)
    (hattempt : ∀ text ∈ [Line.tryText, Line.exceptText, Line.elseText], P text) (h : Suite ls) : ∀ l ∈ ls, P l.text := by
  have hblock {opening : String} {body : List Line} (ho : P opening) (hb : ∀ l ∈ body, P l.text) :
      ∀ l ∈ Line.block opening body, P l.text := by
    intro l hl
    rcases List.mem_cons.mp hl with rfl | hl
    · exact ho
    · obtain ⟨l', hl', rfl⟩ := List.mem_map.mp hl
      rw [Line.text_nest]
      exact hb l' hl'
  induction h with
  | nil => simp
  | blank _ ih => exact List.forall_mem_cons.mpr ⟨hblank, ih⟩
  | plain htext _ ih => exact List.forall_mem_cons.mpr ⟨hplain _ htext, ih⟩
  | block ho _ _ _ ihbody ih => exact List.forall_mem_append.mpr ⟨hblock (hopening _ ho) ihbody, ih⟩
  | attempt _ _ _ _ _ _ _ ihbody ihfailure ihsuccess ih =>
    have htry := hblock (hattempt Line.tryText (by simp)) ihbody
    have hexcept := hblock (hattempt Line.exceptText (by simp)) ihfailure
    have helse := hblock (hattempt Line.elseText (by simp)) ihsuccess
    simp only [List.forall_mem_append]
    exact ⟨htry, hexcept, helse, ih⟩

/-- What opens a block begins with a word for it. -/
theorem word (h : Suite ls) : ∀ l ∈ ls, l.Opens → ∃ w ∈ Line.openings, w.toList <+: l.text.toList := by
  refine h.forall_text
    (P := fun text => text.toList.getLast? = some ':' → ∃ w ∈ Line.openings, w.toList <+: text.toList) (by decide)
    (fun text htext hopens => absurd hopens htext.ends.2) (fun text htext _ => ?_) (by decide)
  obtain ⟨w, hw, hprefix⟩ := htext.word
  have hall : ∀ w ∈ ["class ", "def ", "if "], w ∈ Line.openings := by decide
  exact ⟨w, hall w hw, hprefix⟩

theorem legible (h : Suite ls) : ∀ l ∈ ls, l.Legible := by
  have hprinted := h.forall_text (P := fun text => '\n' ∉ text.toList ∧ text.toList.head? ≠ some ' ') (by decide)
    (fun text htext => ⟨htext.unbroken, htext.begins.2⟩) (fun text htext => ⟨htext.unbroken, fun hhead => ?_⟩)
    (by decide)
  · exact fun l hl => Line.legible_of_text (hprinted l hl).1 (hprinted l hl).2
  · obtain ⟨w, hw, rest, hrest⟩ := htext.word
    rw [← hrest] at hhead
    have hwords : ∀ w ∈ ["class ", "def ", "if "], ∃ c cs, w.toList = c :: cs ∧ c ≠ ' ' := by
      simp
    obtain ⟨c, cs, hcs, hne⟩ := hwords w hw
    rw [hcs] at hhead
    exact hne (Option.some.inj hhead)

/-- The lines of a suite are properly indented. -/
theorem wellIndented (h : Suite ls) : WellIndented (Line.written ls) where
  start := h.stacked.start
  opening {before l after} heq hl := by
    have hstacked := heq ▸ h.stacked
    have hchain := (List.isChain_append.mp hstacked.chain).2.1
    cases after with
    | nil => exact absurd hl (hstacked.finish l (by simp))
    | cons next after =>
      have hfollows := (List.isChain_cons_cons.mp hchain).1
      rw [Line.Follows, if_pos hl] at hfollows
      exact ⟨next, rfl, hfollows⟩
  other {before l next after} heq hl := by
    have hstacked := heq ▸ h.stacked
    have hfollows := (List.isChain_cons_cons.mp (List.isChain_append.mp hstacked.chain).2.1).1
    rw [Line.Follows, if_neg hl] at hfollows
    rcases Nat.lt_or_eq_of_le hfollows with hlt | heq
    · obtain ⟨o, hencloses, hdepth⟩ := hstacked.exists_encloses hlt
      exact .inr ⟨o, hencloses, hdepth.symm⟩
    · exact .inl heq
  word l hl := h.word l (List.mem_of_mem_filter hl)
  attempt heq ht := h.tried _ _ _ heq ht

end Suite

end UnionBridge
