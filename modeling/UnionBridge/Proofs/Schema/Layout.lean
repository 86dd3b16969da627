import UnionBridge.Proofs.Schema.Reading
import UnionBridge.Proofs.Schema.Passage

/-! Words laid out in a text are read back from it, as long as no name runs on into what follows it and no name is
mistaken for a keyword. -/
namespace UnionBridge

/-- A text that matches `NAME`. -/
def isName (cs : List Char) : Bool :=
  match cs with
  | [] => false
  | c :: rest => Lexer.isNameStart c && rest.all Lexer.isNamePart

/-- A token without its place. -/
abbrev Word := Terminal × List Char

namespace Word

/-- A word is spelled as its terminal demands. -/
inductive Valid : Word → Prop
  | name {cs : List Char} (h : isName cs) : Valid (.name, cs)
  | keyword {w : Word} (h : w ∈ Terminal.keywords) : Valid w
  | mark {k : Terminal} {c : Char} (h : Terminal.ofChar? c = some k) : Valid (k, [c])

/-- A word that what follows must be kept apart from. -/
def RunsOn (w : Word) : Prop := w.1 = .name ∨ w ∈ Terminal.keywords

instance (w : Word) : Decidable w.RunsOn := inferInstanceAs (Decidable (_ ∨ _))

end Word

def Token.key (t : Token) : Word := (t.terminal, t.text)

/-- Text that can follow a name. -/
def Apart (text : List Char) : Prop := ∀ c ∈ text.head?, ¬Lexer.isNamePart c

def Blank (gap : List Char) : Prop := ∀ c ∈ gap, Lexer.isSpace c

/-- Words one after the other, with spaces between them. -/
inductive Laid : List Word → List Char → Prop
  | nil {gap : List Char} (h : Blank gap) : Laid [] gap
  | cons {gap rest : List Char} {w : Word} {ws : List Word} (hgap : Blank gap) (hw : w.Valid)
      (hrest : w.RunsOn → Apart rest) (h : Laid ws rest) : Laid (w :: ws) (gap ++ (w.2 ++ rest))

variable {allowed : List Terminal} {w : Word} {ws : List Word} {text rest gap : List Char} {c : Char} {k : Terminal}

/-- The characters that are tokens of their own. -/
def marks : List (Char × Terminal) :=
  [('\x7b', .leftBrace), ('\x7d', .rightBrace), ('(', .leftParen), (')', .rightParen), (',', .comma), (':', .colon),
    ('.', .dot), ('=', .equal), ('@', .at)]

theorem mem_marks (h : Terminal.ofChar? c = some k) : (c, k) ∈ marks := by
  simp only [Terminal.ofChar?] at h
  repeat' split at h
  all_goals first | (subst c; cases h; decide) | cases h

theorem isNamePart_of_ofChar? (h : Terminal.ofChar? c = some k) : Lexer.isNamePart c = false := by
  have hall : ∀ m ∈ marks, Lexer.isNamePart m.1 = false := by decide
  exact hall _ (mem_marks h)

/-- What stands between tokens is no part of a name and no mark. -/
theorem isNamePart_of_isSpace (h : Lexer.isSpace c ∨ c = '#') :
    Lexer.isNamePart c = false ∧ Terminal.ofChar? c = none := by
  simp only [Lexer.isSpace, Bool.or_eq_true, decide_eq_true_eq] at h
  rcases h with ((((rfl | rfl) | rfl) | rfl) | rfl) | rfl <;> decide

/-- A word begins with a character that is not passed over. -/
theorem Word.Valid.head (hw : w.Valid) : ∃ c cs, w.2 = c :: cs ∧ Lexer.isSpace c = false ∧ c ≠ '#' := by
  have hstart {c : Char} (h : Lexer.isNamePart c ∨ (Terminal.ofChar? c).isSome) : Lexer.isSpace c = false ∧ c ≠ '#' := by
    have hnot : ¬(Lexer.isSpace c ∨ c = '#') := by
      intro hspace
      have hboth := isNamePart_of_isSpace hspace
      simp [hboth.1, hboth.2] at h
    simpa using hnot
  cases hw with
  | @name cs h =>
    cases cs with
    | nil => cases h
    | cons c cs =>
      have hc := (Bool.and_eq_true_iff.mp h).1
      exact ⟨c, cs, rfl, hstart (.inl (Lexer.isNamePart_of_isNameStart hc))⟩
  | keyword h =>
    have hall : ∀ w ∈ Terminal.keywords, ∃ c cs, w.2 = c :: cs ∧ Lexer.isSpace c = false ∧ c ≠ '#' := by
      intro w hw
      simp only [Terminal.keywords, List.mem_cons, List.not_mem_nil, or_false] at hw
      rcases hw with rfl | rfl | rfl | rfl <;> exact ⟨_, _, rfl, by decide, by decide⟩
    exact hall w h
  | @mark k c h => exact ⟨c, [], rfl, hstart (.inr (by rw [h]; rfl))⟩

/-- The lexer passes over a text and goes on with what follows it. -/
def Lexer.Skips (inComment : Bool) (gap : List Char) : Prop :=
  ∀ rest p, skip inComment (gap ++ rest) p = skip false rest (p.after gap)

theorem Lexer.skips_nil : Skips false [] := fun _ _ => rfl

theorem Lexer.skips_space (hc : isSpace c) (h : Skips false gap) : Skips false (c :: gap) := by
  intro rest p
  rw [List.cons_append, skip, if_neg Bool.false_ne_true, if_pos hc]
  exact h rest (p.next c)

theorem Blank.skips (hgap : Blank gap) : Lexer.Skips false gap := by
  induction gap with
  | nil => exact Lexer.skips_nil
  | cons c gap ih => exact Lexer.skips_space (hgap c List.mem_cons_self) (ih fun d hd => hgap d (List.mem_cons_of_mem _ hd))

theorem skip_word (hw : w.Valid) (rest : List Char) (p : Position) :
    Lexer.skip false (w.2 ++ rest) p = ⟨w.2 ++ rest, p⟩ := by
  obtain ⟨c, cs, hcs, hspace, hcomment⟩ := hw.head
  rw [hcs, List.cons_append, Lexer.skip, if_neg (by simp), if_neg (by simp [hspace]), if_neg hcomment]

theorem takeWhile_word {cs : List Char} (hcs : ∀ c ∈ cs, Lexer.isNamePart c) (hrest : Apart rest) :
    (cs ++ rest).takeWhile Lexer.isNamePart = cs := by
  rw [List.takeWhile_append_of_pos hcs]
  cases rest with
  | nil => exact List.append_nil _
  | cons c rest =>
    rw [List.takeWhile_cons_of_neg (hrest c rfl), List.append_nil]

/-- Keywords are names, and no two begin with the same letter. -/
theorem keyword_facts : ∀ w ∈ Terminal.keywords, isName w.2 ∧ w.1.isKeyword ∧
    ∀ w' ∈ Terminal.keywords, w'.2.head? = w.2.head? → w' = w := by
  decide

/-- At the beginning of a text that starts with a keyword, only that keyword can be found. -/
theorem find?_keyword {test : Word → Bool} (hw : w ∈ Terminal.keywords) (htest : test w)
    (hall : ∀ w' ∈ Terminal.keywords, test w' → w'.2.head? = w.2.head?) :
    Terminal.keywords.find? test = some w := by
  cases hfind : Terminal.keywords.find? test with
  | none => exact absurd htest (List.find?_eq_none.mp hfind w hw)
  | some w' =>
    have hw' := List.mem_of_find?_eq_some hfind
    rw [(keyword_facts w hw).2.2 w' hw' (hall w' hw' (List.find?_some hfind))]

/-- A keyword at the beginning of a text has its first letter in common with it. -/
theorem head?_of_isPrefixOf {cs : List Char} (hw : w ∈ Terminal.keywords) (h : w.2.isPrefixOf cs) :
    w.2.head? = cs.head? ∧ ∃ c, w.2.head? = some c ∧ Lexer.isNameStart c := by
  have hname := (keyword_facts w hw).1
  obtain ⟨d, hd⟩ := List.isPrefixOf_iff_prefix.mp h
  cases hcs : w.2 with
  | nil =>
    rw [hcs] at hname
    cases hname
  | cons c rest =>
    rw [hcs] at hname hd
    subst hd
    exact ⟨rfl, c, rfl, (Bool.and_eq_true_iff.mp hname).1⟩

theorem isNamePart_of_isName {cs : List Char} (h : isName cs) : ∀ c ∈ cs, Lexer.isNamePart c := by
  cases cs with
  | nil => cases h
  | cons c cs =>
    obtain ⟨hc, hcs⟩ := Bool.and_eq_true_iff.mp h
    intro d hd
    rcases List.mem_cons.mp hd with rfl | hd
    · exact Lexer.isNamePart_of_isNameStart hc
    · exact List.all_eq_true.mp hcs d hd

/-- The ways in which a word is matched with a text behind it. -/
inductive Lexer.Matched (allowed : List Terminal) (rest : List Char) : Word → Prop
  /-- Where names are allowed, a whole word is read. -/
  | whole {cs : List Char} (hcs : isName cs) (hname : Terminal.name ∈ allowed) (hrest : Apart rest) :
      Matched allowed rest (wordTerminal allowed cs, cs)
  /-- Where they are not, a keyword is read, whatever comes after it. -/
  | keyword {w : Word} (hw : w ∈ Terminal.keywords) (hmem : w.1 ∈ allowed) (hname : Terminal.name ∉ allowed) :
      Matched allowed rest w
  | mark {c : Char} {k : Terminal} (hc : Terminal.ofChar? c = some k) (hmem : k ∈ allowed) : Matched allowed rest (k, [c])

theorem Lexer.Matched.match?_eq (h : Matched allowed rest w) : match? allowed (w.2 ++ rest) = some w := by
  cases h with
  | @whole cs hcs hname hrest =>
    cases hcons : cs with
    | nil =>
      rw [hcons] at hcs
      cases hcs
    | cons c cs' =>
      rw [hcons] at hcs
      have hstart := (Bool.and_eq_true_iff.mp hcs).1
      have htake := takeWhile_word (isNamePart_of_isName hcs) hrest
      rw [List.cons_append] at htake
      rw [List.cons_append, match?, if_pos (by simp [hname, hstart]), htake]
  | keyword hw hmem hname =>
    have hself : w.2.isPrefixOf (w.2 ++ rest) := List.isPrefixOf_iff_prefix.mpr (List.prefix_append _ _)
    have hfind : Terminal.keywords.find? (fun k => allowed.contains k.1 && k.2.isPrefixOf (w.2 ++ rest)) = some w := by
      refine find?_keyword hw (by simp [hmem, hself]) fun w' hw' htest => ?_
      have hpre := (Bool.and_eq_true_iff.mp htest).2
      rw [(head?_of_isPrefixOf hw' hpre).1, (head?_of_isPrefixOf hw hself).1]
    obtain ⟨c, cs, hcs, -⟩ := (Word.Valid.keyword hw).head
    rw [hcs, List.cons_append] at hfind ⊢
    rw [match?, if_neg (by simp [hname]), hfind]
  | @mark c k hc hmem =>
    have hpart := isNamePart_of_ofChar? hc
    have hstart : isNameStart c = false := by
      cases hstart : isNameStart c with
      | false => rfl
      | true => rw [isNamePart_of_isNameStart hstart] at hpart; cases hpart
    have hnone : Terminal.keywords.find? (fun k => allowed.contains k.1 && k.2.isPrefixOf (c :: rest)) = none := by
      refine List.find?_eq_none.mpr fun k hk htest => ?_
      obtain ⟨hhead, d, hd, hdstart⟩ := head?_of_isPrefixOf hk (Bool.and_eq_true_iff.mp htest).2
      rw [hhead] at hd
      cases hd
      rw [hstart] at hdstart
      cases hdstart
    rw [List.singleton_append, match?, if_neg (by simp [hstart]), hnone, hc]
    exact if_pos (by simpa using hmem)

/-- A word is read as what it is where its terminal is allowed, unless it is a name that spells an allowed keyword. -/
theorem match?_word (hw : w.Valid) (hmem : w.1 ∈ allowed) (hrest : w.RunsOn → Apart rest)
    (hread : w.1 = .name → ∀ k ∈ Terminal.keywords, k.1 ∈ allowed → w.2 ≠ k.2) :
    Lexer.match? allowed (w.2 ++ rest) = some w := by
  cases hw with
  | @name cs h =>
    have hnone : Terminal.keywords.find? (fun k => k.2 = cs && allowed.contains k.1) = none := by
      refine List.find?_eq_none.mpr fun k hk htest => ?_
      simp only [Bool.and_eq_true, decide_eq_true_eq, List.contains_iff_mem] at htest
      exact hread rfl k hk htest.2 htest.1.symm
    have hterminal : Lexer.wordTerminal allowed cs = .name := by rw [Lexer.wordTerminal, hnone]
    exact hterminal ▸ (Lexer.Matched.whole h hmem (hrest (.inl rfl))).match?_eq
  | keyword h =>
    by_cases hallowed : Terminal.name ∈ allowed
    · have hfind : Terminal.keywords.find? (fun k => k.2 = w.2 && allowed.contains k.1) = some w := by
        refine find?_keyword h (by simpa using hmem) fun w' _ htest => ?_
        simp only [Bool.and_eq_true, decide_eq_true_eq] at htest
        rw [htest.1]
      have hterminal : Lexer.wordTerminal allowed w.2 = w.1 := by rw [Lexer.wordTerminal, hfind]
      have hmatched := (Lexer.Matched.whole (keyword_facts w h).1 hallowed (hrest (.inr h))).match?_eq
      rwa [hterminal] at hmatched
    · exact (Lexer.Matched.keyword h hmem hallowed).match?_eq
  | mark h => exact (Lexer.Matched.mark h hmem).match?_eq

/-- A token that a stack shifts is one that the lexer may read. -/
theorem Stack.mem_allowed {stack next : Stack} {t : Token} (hm : stack.meet t = .shifted next)
    (ht : t.terminal ≠ .finish) : t.terminal ∈ Parse.allowed stack.state := by
  cases ha : (stateRow stack.state).action? t.terminal with
  | none => cases (Stack.meet_of_none ha).symm.trans hm
  | some action =>
    have hmem := StateRow.mem_terminals (k := t.terminal) (by rw [ha]; rfl)
    exact List.mem_filter.mpr ⟨hmem, by simpa using ht⟩

theorem Word.Valid.ne_finish (hw : w.Valid) : w.1 ≠ .finish := by
  cases hw with
  | name _ => exact Terminal.noConfusion
  | keyword h =>
    have hall : ∀ w ∈ Terminal.keywords, w.1 ≠ .finish := by decide
    exact hall w h
  | mark h =>
    have hall : ∀ m ∈ marks, m.2 ≠ .finish := by decide
    exact hall _ (mem_marks h)

/-- A word that is matched after something to pass over is the next token. -/
theorem Lexer.next_of_match (hgap : Skips false gap) (hw : w.Valid) (h : match? allowed (w.2 ++ rest) = some w)
    (p : Position) :
    next allowed ⟨gap ++ (w.2 ++ rest), p⟩ = .token ⟨w.1, w.2, p.after gap⟩ ⟨rest, (p.after gap).after w.2⟩ := by
  obtain ⟨c, cs, hcs, -⟩ := hw.head
  have hskip : skip false (gap ++ (w.2 ++ rest)) p = ⟨c :: (cs ++ rest), p.after gap⟩ := by
    rw [hgap, skip_word hw, hcs, List.cons_append]
  rw [hcs, List.cons_append] at h
  simp only [next, hcs, List.cons_append] at hskip ⊢
  rw [hskip]
  simp only [h, hcs]
  rw [List.length_cons, List.drop_succ_cons, List.drop_left]

/-- The next word of a text is read as a token. -/
theorem next_word {stack next : Stack} {t : Token} {p : Position} (hgap : Blank gap) (hw : w.Valid)
    (hrest : w.RunsOn → Apart rest) (ht : t = ⟨w.1, w.2, p.after gap⟩) (hR : Readable stack.state t)
    (hm : stack.meet t = .shifted next) :
    Lexer.next (Parse.allowed stack.state) ⟨gap ++ (w.2 ++ rest), p⟩ =
      .token t ⟨rest, (p.after gap).after w.2⟩ := by
  subst ht
  have hmem : w.1 ∈ Parse.allowed stack.state := Stack.mem_allowed hm hw.ne_finish
  have hmatch : Lexer.match? (Parse.allowed stack.state) (w.2 ++ rest) = some w := by
    refine match?_word hw hmem hrest fun hname k hk hallowed => hR hname k hk ?_
    rw [mistakable, if_pos (by rw [List.contains_iff_mem, ← hname]; exact hmem)]
    exact List.mem_filter.mpr ⟨hallowed, (keyword_facts k hk).2.1⟩
  exact Lexer.next_of_match hgap.skips hw hmatch p

/-- Words laid out in a text are the tokens that are read from it, by every stack that can shift them. -/
theorem Laid.exists_tokens (h : Laid ws text) (p : Position) :
    ∃ ts : List Token, ts.map Token.key = ws ∧
      ∀ stack top : Stack, Stack.Runs Readable stack ts top → Parse.Reads stack ⟨text, p⟩ ts := by
  induction h generalizing p with
  | @nil gap hgap =>
    refine ⟨[], rfl, fun stack top _ => ?_⟩
    have hskip := hgap.skips [] p
    rw [List.append_nil] at hskip
    rw [Parse.Reads, Lexer.next]
    simp only [hskip, Lexer.skip]
  | @cons gap rest w ws hgap hw hrest _ ih =>
    obtain ⟨ts, hts, hreads⟩ := ih ((p.after gap).after w.2)
    refine ⟨⟨w.1, w.2, p.after gap⟩ :: ts, by rw [List.map_cons, hts]; rfl, fun stack top hruns => ?_⟩
    cases hruns with
    | cons hR hm hruns => exact ⟨_, _, next_word hgap hw hrest rfl hR hm, hm, hreads _ _ hruns⟩

end UnionBridge
