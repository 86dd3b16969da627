import Mathlib
import UnionBridge.Module.Preamble.Quotation

/-! Text between three quotation marks on either side: which texts stand for themselves there. -/
namespace UnionBridge.Quotation

variable {cs inside rest text value : List Char} {c : Char} {steps : Nat} {named : CharacterNames}

/-! ### Where a quotation ends -/

/-- What stands before the first three closing marks: a backslash takes the character behind it along. -/
inductive Inside : List Char → Prop
  | nil : Inside []
  | pair {c : Char} {rest : List Char} (hrest : Inside rest) : Inside ('\\' :: c :: rest)
  | char {a : Char} {rest : List Char} (ha : a ≠ '\\')
      (hopen : ¬(a = '"' ∧ ['"', '"'] <+: rest ++ ['"', '"', '"'])) (hrest : Inside rest) : Inside (a :: rest)

theorem untilThree_marks (rest : List Char) : untilThree '"' ('"' :: '"' :: '"' :: rest) = some ([], rest) := by
  simp [untilThree]

theorem untilThree_pair (c : Char) (rest : List Char) :
    untilThree '"' ('\\' :: c :: rest) = (untilThree '"' rest).map fun (s, r) => ('\\' :: c :: s, r) := by
  simp [untilThree]

theorem untilThree_char {a b c : Char} (ha : a ≠ '\\') (hopen : ¬(a = '"' ∧ b = '"' ∧ c = '"')) (rest : List Char) :
    untilThree '"' (a :: b :: c :: rest) = (untilThree '"' (b :: c :: rest)).map fun (s, r) => (a :: s, r) := by
  rw [untilThree]
  · rw [if_neg]
    simpa [and_assoc] using hopen
  · exact ha

theorem inside_of_untilThree (h : untilThree '"' text = some (inside, rest)) :
    Inside inside ∧ text = inside ++ '"' :: '"' :: '"' :: rest := by
  fun_induction untilThree '"' text generalizing inside with
  | case1 c after ih =>
    obtain ⟨⟨s, r⟩, hr, heq⟩ := Option.map_eq_some_iff.mp h
    obtain ⟨rfl, rfl⟩ := Prod.mk.inj heq
    obtain ⟨hs, htext⟩ := ih hr
    exact ⟨.pair hs, by rw [htext]; rfl⟩
  | case2 a b c after hpair hmarks =>
    obtain ⟨rfl, rfl⟩ := Prod.mk.inj (Option.some.inj h)
    obtain ⟨⟨rfl, rfl⟩, rfl⟩ : (a = '"' ∧ b = '"') ∧ c = '"' := by simpa using hmarks
    exact ⟨.nil, rfl⟩
  | case3 a b c after hpair hmarks ih =>
    obtain ⟨⟨s, r⟩, hr, heq⟩ := Option.map_eq_some_iff.mp h
    obtain ⟨rfl, rfl⟩ := Prod.mk.inj heq
    obtain ⟨hs, htext⟩ := ih hr
    refine ⟨.char hpair ?_ hs, by rw [htext]; rfl⟩
    rintro ⟨rfl, hprefix⟩
    have hnext : ['"', '"'] <+: b :: c :: after := by
      rw [htext]
      exact hprefix.trans ⟨r, by simp⟩
    simp only [List.cons_prefix_cons] at hnext
    obtain ⟨rfl, rfl, _⟩ := hnext
    exact hmarks (by decide)
  | case4 => cases h

theorem untilThree_of_inside (h : Inside inside) (rest : List Char) :
    untilThree '"' (inside ++ '"' :: '"' :: '"' :: rest) = some (inside, rest) := by
  induction h with
  | nil => exact untilThree_marks rest
  | pair _ ih => rw [List.cons_append, List.cons_append, untilThree_pair, ih, Option.map_some]
  | @char a more ha hopen _ ih =>
    obtain ⟨b, c, tail, htail⟩ : ∃ b c tail, more ++ '"' :: '"' :: '"' :: [] = b :: c :: tail := by
      rcases more with _ | ⟨b, _ | ⟨c, more⟩⟩ <;> simp
    have htext : more ++ '"' :: '"' :: '"' :: rest = b :: c :: (tail ++ rest) := by
      have happend := congrArg (· ++ rest) htail
      simpa using happend
    rw [List.cons_append, htext, untilThree_char ha, ← htext, ih, Option.map_some]
    rintro ⟨rfl, rfl, rfl⟩
    exact hopen ⟨rfl, tail, by rw [htail]; rfl⟩

/-- A quotation is read up to the first marks that close it. -/
theorem untilThree_eq_some_iff :
    untilThree '"' text = some (inside, rest) ↔ Inside inside ∧ text = inside ++ '"' :: '"' :: '"' :: rest := by
  refine ⟨inside_of_untilThree, ?_⟩
  rintro ⟨hinside, rfl⟩
  exact untilThree_of_inside hinside rest

/-! ### What the inside of a quotation stands for -/

theorem unescape_char (hc : c ≠ '\\') (steps : Nat) (rest : List Char) :
    unescape named (steps + 1) (c :: rest) = (unescape named steps rest).map (c :: ·) := by
  rw [unescape]
  rintro _ _ rfl
  exact absurd rfl hc

theorem unescape_last (c : Char) (steps : Nat) : unescape named (steps + 1) [c] = some [c] := by
  rw [unescape]
  · rw [unescape, Option.map_some]
  · rintro _ _ _ ⟨⟩

/-- A character that means nothing special behind a backslash. -/
def Idle (c : Char) : Prop :=
  c ≠ '\n' ∧ c ≠ 'N' ∧ isOctal c = false ∧ simpleEscape? c = none ∧ numberWidth? c = none

instance (c : Char) : Decidable (Idle c) := inferInstanceAs (Decidable (_ ∧ _))

/-- Each backslash has a character behind it, one that means nothing special there. -/
def NoEscape (cs : List Char) : Prop := ∀ before after, cs = before ++ '\\' :: after → ∃ c ∈ after.head?, Idle c

theorem Idle.ne_backslash (h : Idle c) : c ≠ '\\' := by
  rintro rfl
  exact absurd h (by decide)

theorem noEscape_nil : NoEscape [] := fun before after h => by simp at h

theorem NoEscape.pair (hc : Idle c) (h : NoEscape cs) : NoEscape ('\\' :: c :: cs) := by
  intro before after heq
  rcases before with _ | ⟨b, _ | ⟨b', before⟩⟩
  · obtain ⟨_, rfl⟩ := List.cons.inj heq
    exact ⟨c, rfl, hc⟩
  · obtain ⟨_, heq⟩ := List.cons.inj heq
    exact absurd (List.cons.inj heq).1 hc.ne_backslash
  · exact h before after (List.cons.inj (List.cons.inj heq).2).2

theorem NoEscape.char (hc : c ≠ '\\') (h : NoEscape cs) : NoEscape (c :: cs) := by
  intro before after heq
  rcases before with _ | ⟨b, before⟩
  · exact absurd (List.cons.inj heq).1 hc
  · exact h before after (List.cons.inj heq).2

theorem NoEscape.tail (h : NoEscape (c :: cs)) : NoEscape cs :=
  fun before after heq => h (c :: before) after (by rw [heq]; rfl)

theorem NoEscape.exists_pair (h : NoEscape ('\\' :: cs)) : ∃ c rest, cs = c :: rest ∧ Idle c := by
  obtain ⟨c, hc, hidle⟩ := h [] cs rfl
  obtain ⟨rest, rfl⟩ := List.head?_eq_some_iff.mp hc
  exact ⟨c, rest, rfl, hidle⟩

/-- Induction on a text without escapes: its backslashes come in pairs with what is behind them. -/
@[elab_as_elim]
theorem NoEscape.induct {P : ∀ cs, NoEscape cs → Prop} (nil : P [] noEscape_nil)
    (pair : ∀ c cs (hc : Idle c) (h : NoEscape cs), P cs h → P ('\\' :: c :: cs) (h.pair hc))
    (char : ∀ c cs (hc : c ≠ '\\') (h : NoEscape cs), P cs h → P (c :: cs) (h.char hc))
    {cs : List Char} (h : NoEscape cs) : P cs h :=
  match cs, h with
  | [], _ => nil
  | [c], h => by
    have hc : c ≠ '\\' := by
      rintro rfl
      obtain ⟨_, _, heq, _⟩ := h.exists_pair
      cases heq
    exact char c [] hc noEscape_nil nil
  | a :: c :: cs, h => by
    by_cases ha : a = '\\'
    · subst ha
      obtain ⟨_, _, heq, hc⟩ := h.exists_pair
      obtain ⟨rfl, rfl⟩ := List.cons.inj heq
      exact pair c cs hc h.tail.tail (NoEscape.induct nil pair char h.tail.tail)
    · exact char a (c :: cs) ha h.tail (NoEscape.induct nil pair char h.tail)

theorem unescape_idle (hc : Idle c) (steps : Nat) (rest : List Char) :
    unescape named (steps + 1) ('\\' :: c :: rest) = (unescape named steps rest).map ('\\' :: c :: ·) := by
  obtain ⟨hline, hname, hoctal, hsimple, hwidth⟩ := hc
  rw [unescape, if_neg hline, if_neg hname, if_neg (by simp [hoctal]), hsimple, hwidth]

theorem length_byName (h : byName named cs = some (c, rest)) : rest.length ≤ cs.length := by
  unfold byName at h
  split at h
  · rename_i after
    split at h
    · cases h
    · rename_i _ _ hdrop
      obtain ⟨named, _, heq⟩ := Option.map_eq_some_iff.mp h
      obtain ⟨_, rfl⟩ := Prod.mk.inj heq
      have hle := (List.dropWhile_suffix (l := after) (· ≠ '\x7d')).length_le
      rw [hdrop] at hle
      simp only [List.length_cons] at hle ⊢
      omega
  · cases h

/-- What is read where an escape stands: at most one character for the backslash and what is behind it. -/
theorem unescape_pair (h : unescape named (steps + 1) ('\\' :: c :: rest) = some value) :
    (∃ more after, after.length ≤ rest.length ∧ unescape named steps after = some more ∧ value.length ≤ more.length + 1) ∨
      Idle c ∧ ∃ more, unescape named steps rest = some more ∧ value = '\\' :: c :: more := by
  rw [unescape] at h
  split_ifs at h with hline hname hoctal
  · exact .inl ⟨value, rest, Nat.le_refl _, h, Nat.le_succ _⟩
  · obtain ⟨⟨named, after⟩, hnamed, h⟩ := Option.bind_eq_some_iff.mp h
    obtain ⟨more, hmore, h⟩ := Option.bind_eq_some_iff.mp h
    obtain rfl := Option.some.inj h
    exact .inl ⟨more, after, length_byName hnamed, hmore, Nat.le_refl _⟩
  · obtain ⟨more, hmore, rfl⟩ := Option.map_eq_some_iff.mp h
    exact .inl ⟨more, _, by simp, hmore, by simp⟩
  · split at h
    · obtain ⟨more, hmore, rfl⟩ := Option.map_eq_some_iff.mp h
      exact .inl ⟨more, rest, Nat.le_refl _, hmore, Nat.le_refl _⟩
    · rename_i width _ _
      obtain ⟨numbered, _, h⟩ := Option.bind_eq_some_iff.mp h
      obtain ⟨more, hmore, h⟩ := Option.bind_eq_some_iff.mp h
      obtain rfl := Option.some.inj h
      exact .inl ⟨more, rest.drop width, by simp, hmore, Nat.le_refl _⟩
    · rename_i hsimple hwidth
      obtain ⟨more, hmore, rfl⟩ := Option.map_eq_some_iff.mp h
      exact .inr ⟨⟨hline, hname, eq_false_of_ne_true hoctal, hsimple, hwidth⟩, more, hmore, rfl⟩

theorem length_unescape_le (h : unescape named steps cs = some value) : value.length ≤ cs.length := by
  induction steps generalizing cs value with
  | zero =>
    cases cs with
    | nil =>
      obtain rfl := Option.some.inj h
      exact Nat.le_refl _
    | cons => cases h
  | succ steps ih =>
    match cs, h with
    | [], h =>
      obtain rfl := Option.some.inj h
      exact Nat.le_refl _
    | [c], h =>
      rw [unescape_last] at h
      obtain rfl := Option.some.inj h
      exact Nat.le_refl _
    | a :: c :: rest, h =>
      by_cases ha : a = '\\'
      · subst ha
        obtain ⟨more, after, hafter, hmore, hvalue⟩ | ⟨_, more, hmore, rfl⟩ := unescape_pair h
        · have hle := ih hmore
          simp only [List.length_cons]
          omega
        · exact Nat.succ_le_succ (Nat.succ_le_succ (ih hmore))
      · rw [unescape_char ha] at h
        obtain ⟨more, hmore, rfl⟩ := Option.map_eq_some_iff.mp h
        exact Nat.succ_le_succ (ih hmore)

/-- What a quotation stands for is never longer than its inside; if it is as long, nothing in it was an escape. -/
theorem noEscape_of_length (hinside : Inside cs) (h : unescape named steps cs = some value)
    (hle : cs.length ≤ value.length) : value = cs ∧ NoEscape cs := by
  induction hinside generalizing steps value with
  | nil =>
    rw [unescape] at h
    exact ⟨(Option.some.inj h).symm, noEscape_nil⟩
  | @pair c rest _ ih =>
    rcases steps with _ | steps
    · cases h
    obtain ⟨more, after, hafter, hmore, hvalue⟩ | ⟨hc, more, hmore, rfl⟩ := unescape_pair h
    · have hshort := length_unescape_le hmore
      simp only [List.length_cons] at hle
      omega
    · obtain ⟨rfl, hrest⟩ := ih hmore (Nat.le_of_succ_le_succ (Nat.le_of_succ_le_succ hle))
      exact ⟨rfl, hrest.pair hc⟩
  | @char a rest ha _ _ ih =>
    rcases steps with _ | steps
    · cases h
    rw [unescape_char ha] at h
    obtain ⟨more, hmore, rfl⟩ := Option.map_eq_some_iff.mp h
    obtain ⟨rfl, hrest⟩ := ih hmore (Nat.le_of_succ_le_succ hle)
    exact ⟨rfl, hrest.char ha⟩

theorem unescape_noEscape (h : NoEscape cs) (hsteps : cs.length ≤ steps) : unescape named steps cs = some cs := by
  induction h using NoEscape.induct generalizing steps with
  | nil => rw [unescape]
  | pair c cs hc _ ih =>
    obtain ⟨steps, rfl⟩ := Nat.exists_eq_add_one.mpr (Nat.lt_of_lt_of_le (Nat.succ_pos _) hsteps)
    simp only [List.length_cons] at hsteps
    rw [unescape_idle hc, ih (by omega), Option.map_some]
  | char c cs hc _ ih =>
    obtain ⟨steps, rfl⟩ := Nat.exists_eq_add_one.mpr (Nat.lt_of_lt_of_le (Nat.succ_pos _) hsteps)
    rw [unescape_char hc, ih (Nat.le_of_succ_le_succ hsteps), Option.map_some]

theorem read?_eq_some_iff :
    read? named false ('"' :: '"' :: '"' :: text) = some (value, rest) ↔
      ∃ inside, Inside inside ∧ text = inside ++ '"' :: '"' :: '"' :: rest ∧
        unescape named inside.length inside = some value := by
  constructor
  · intro h
    obtain ⟨⟨inside, after⟩, hinside, h⟩ := Option.bind_eq_some_iff.mp h
    obtain ⟨_, hvalue, h⟩ := Option.bind_eq_some_iff.mp h
    obtain ⟨rfl, rfl⟩ := Prod.mk.inj (Option.some.inj h)
    obtain ⟨hinside, htext⟩ := untilThree_eq_some_iff.mp hinside
    exact ⟨inside, hinside, htext, hvalue⟩
  · rintro ⟨inside, hinside, rfl, hvalue⟩
    simp [read?, untilThree_of_inside hinside, hvalue]

/-! ### Texts that stand for themselves -/

/-- Text that stands for itself between three quotation marks on either side. -/
structure Verbatim (cs : List Char) : Prop where
  noReturn : '\r' ∉ cs
  noMarks : ¬['"', '"', '"'] <:+: cs
  noMarkLast : cs.getLast? ≠ some '"'
  noEscape : NoEscape cs

/-- The last character of a text is that of its end. -/
theorem getLast?_ne_of_suffix (before : List Char) (h : (before ++ cs).getLast? ≠ some '"') :
    cs.getLast? ≠ some '"' := by
  intro hlast
  rw [List.getLast?_append, hlast] at h
  exact h rfl

theorem Inside.of_noEscape (h : NoEscape cs) (hmarks : ¬['"', '"', '"'] <:+: cs) (hlast : cs.getLast? ≠ some '"') :
    Inside cs := by
  induction h using NoEscape.induct with
  | nil => exact .nil
  | pair c cs hc _ ih =>
    refine .pair (ih (fun h => hmarks ?_) (getLast?_ne_of_suffix ['\\', c] hlast))
    exact h.trans (List.suffix_append ['\\', c] cs).isInfix
  | char c cs hc _ ih =>
    refine .char hc ?_ (ih (fun h => hmarks (h.trans (List.suffix_cons c cs).isInfix))
      (getLast?_ne_of_suffix [c] hlast))
    rintro ⟨rfl, hopen⟩
    rcases cs with _ | ⟨a, _ | ⟨b, cs⟩⟩
    · exact hlast rfl
    · simp only [List.cons_append, List.cons_prefix_cons] at hopen
      obtain ⟨rfl, _⟩ := hopen
      exact hlast rfl
    · simp only [List.cons_append, List.cons_prefix_cons] at hopen
      obtain ⟨rfl, rfl, _⟩ := hopen
      exact hmarks (List.prefix_append ['"', '"', '"'] cs).isInfix

theorem Inside.noMarks (h : Inside cs) (hescape : NoEscape cs) :
    ¬['"', '"', '"'] <:+: cs ∧ cs.getLast? ≠ some '"' := by
  induction h with
  | nil => simp
  | @pair c rest _ ih =>
    obtain ⟨_, _, heq, hc⟩ := hescape.exists_pair
    obtain ⟨rfl, rfl⟩ := List.cons.inj heq
    have hmark : c ≠ '"' := by
      rintro rfl
      exact absurd hc (by decide)
    obtain ⟨hmarks, hlast⟩ := ih hescape.tail.tail
    constructor
    · simp [List.infix_cons_iff, hmark.symm, hmarks]
    · rcases List.eq_nil_or_concat rest with rfl | ⟨before, a, rfl⟩
      · simpa using hmark
      · simpa [List.getLast?_cons] using hlast
  | @char a rest ha hopen _ ih =>
    obtain ⟨hmarks, hlast⟩ := ih hescape.tail
    constructor
    · rw [List.infix_cons_iff, List.cons_prefix_cons]
      rintro (⟨rfl, hprefix⟩ | hinfix)
      · exact hopen ⟨rfl, hprefix.trans (List.prefix_append _ _)⟩
      · exact hmarks hinfix
    · rcases List.eq_nil_or_concat rest with rfl | ⟨before, b, rfl⟩
      · rintro ⟨⟩
        exact hopen (by decide)
      · simpa [List.getLast?_cons] using hlast

/-- Text that is read back between its marks no shorter than it was written stands for itself. -/
theorem verbatim_of_read? (hreturn : '\r' ∉ cs) (hle : cs.length ≤ value.length)
    (h : read? named false ('"' :: '"' :: '"' :: (cs ++ '"' :: '"' :: '"' :: rest)) = some (value, rest)) :
    value = cs ∧ Verbatim cs := by
  obtain ⟨inside, hinside, htext, hvalue⟩ := read?_eq_some_iff.mp h
  obtain rfl := List.append_cancel_right htext
  obtain ⟨heq, hescape⟩ := noEscape_of_length hinside hvalue hle
  obtain ⟨hmarks, hlast⟩ := hinside.noMarks hescape
  exact ⟨heq, hreturn, hmarks, hlast, hescape⟩

theorem Verbatim.read? (named : CharacterNames) (h : Verbatim cs) (rest : List Char) :
    read? named false ('"' :: '"' :: '"' :: (cs ++ '"' :: '"' :: '"' :: rest)) = some (cs, rest) :=
  read?_eq_some_iff.mpr ⟨cs, .of_noEscape h.noEscape h.noMarks h.noMarkLast, rfl,
    unescape_noEscape h.noEscape (Nat.le_refl _)⟩

instance (cs : List Char) : Decidable (Verbatim cs) :=
  decidable_of_iff
    ('\r' ∉ cs ∧
      Quotation.read? (fun _ => none) false ('"' :: '"' :: '"' :: (cs ++ '"' :: '"' :: '"' :: [])) = some (cs, []))
    ⟨fun h => (verbatim_of_read? h.1 (Nat.le_refl _) h.2).2, fun h => ⟨h.noReturn, h.read? _ []⟩⟩

end UnionBridge.Quotation
