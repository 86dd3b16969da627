import UnionBridge.Proofs.Schema.Layout

/-! Spaces and comments may be put wherever a token begins or ends: the same tokens are read. What the lexer may read
depends on the state of the parser, so the runs on both texts are followed side by side; their stacks have the same states. -/
namespace UnionBridge

/-- What may stand between tokens: spaces, and comments with the ends of their lines. -/
inductive Filler : List Char → Prop
  | nil : Filler []
  | space {c : Char} {rest : List Char} (hc : Lexer.isSpace c) (h : Filler rest) : Filler (c :: rest)
  | comment {line rest : List Char} (hline : '\n' ∉ line) (h : Filler rest) : Filler ('#' :: (line ++ '\n' :: rest))

/-- A text with something put in at every offset, counted from a given one. -/
def padded (pad : Nat → List Char) : Nat → List Char → List Char
  | n, [] => pad n
  | n, c :: cs => pad n ++ c :: padded pad (n + 1) cs

variable {pad : Nat → List Char} {n : Nat} {gap gap' text rest rest' cs : List Char} {p q : Position}

namespace Position

theorem after_append (p : Position) (cs ds : List Char) : p.after (cs ++ ds) = (p.after cs).after ds := List.foldl_append

theorem offset_next (p : Position) (c : Char) : (p.next c).offset = p.offset + 1 := by
  rw [next]
  split <;> rfl

theorem offset_after (p : Position) (cs : List Char) : (p.after cs).offset = p.offset + cs.length := by
  induction cs generalizing p with
  | nil => rfl
  | cons c cs ih =>
    have hnext : (p.after (c :: cs)).offset = (p.next c).offset + cs.length := ih (p.next c)
    rw [hnext, offset_next, List.length_cons, Nat.add_assoc, Nat.add_comm 1]

end Position

/-! ### Padding -/

/-- Where nothing is put in between, a part of the text stays together. -/
theorem padded_append (hquiet : ∀ i, n < i → i < n + cs.length → pad i = []) (hcs : cs ≠ []) (rest : List Char) :
    padded pad n (cs ++ rest) = pad n ++ (cs ++ padded pad (n + cs.length) rest) := by
  induction cs generalizing n with
  | nil => exact absurd rfl hcs
  | cons c cs ih =>
    rw [List.cons_append, padded, List.cons_append]
    cases cs with
    | nil => rfl
    | cons d cs =>
      have hinner : pad (n + 1) = [] := hquiet (n + 1) (by omega) (by simp)
      have hrest := ih (n := n + 1) (fun i hi hlt => hquiet i (by omega) (by simp only [List.length_cons] at hlt ⊢; omega))
        (List.cons_ne_nil d cs)
      have hlength : n + 1 + (d :: cs).length = n + (c :: d :: cs).length := by
        simp only [List.length_cons]
        omega
      rw [hrest, hinner, List.nil_append, hlength]

/-! ### Passing over what stands between tokens -/

namespace Lexer

variable {inComment : Bool} {allowed : List Terminal} {w : Word} {t : Token} {after : Cursor} {c : Char}

theorem Skips.append (h : Skips inComment gap) (h' : Skips false gap') : Skips inComment (gap ++ gap') := by
  intro rest p
  rw [List.append_assoc, h, h', Position.after_append]

theorem skips_cons (h : Skips (c ≠ '\n') gap) : Skips true (c :: gap) := fun rest p => h rest (p.next c)

theorem skips_sign (h : Skips true gap) : Skips false ('#' :: gap) := fun rest p => h rest (p.next '#')

theorem skips_line {line : List Char} (hline : '\n' ∉ line) (h : Skips false gap) :
    Skips true (line ++ '\n' :: gap) := by
  induction line with
  | nil => exact skips_cons h
  | cons c line ih =>
    rw [List.mem_cons, not_or] at hline
    refine skips_cons ?_
    rw [decide_eq_true (Ne.symm hline.1)]
    exact ih hline.2

theorem skips_of_filler (h : Filler gap) : Skips false gap := by
  induction h with
  | nil => exact skips_nil
  | space hc _ ih => exact skips_space hc ih
  | comment hline _ ih => exact skips_sign (skips_line hline ih)

/-- What the lexer passes over before a token it passes over before any other. -/
theorem exists_skips (h : skip inComment cs p = ⟨rest, q⟩) (hrest : rest ≠ []) :
    ∃ gap, cs = gap ++ rest ∧ Skips inComment gap ∧ q = p.after gap := by
  induction cs generalizing inComment p with
  | nil =>
    cases h
    exact absurd rfl hrest
  | cons c cs ih =>
    rw [skip] at h
    split at h
    · rename_i hcomment
      obtain ⟨gap, rfl, hgap, rfl⟩ := ih h
      subst hcomment
      exact ⟨c :: gap, rfl, skips_cons hgap, rfl⟩
    · rename_i hcomment
      obtain rfl : inComment = false := by simpa using hcomment
      split at h
      · rename_i hspace
        obtain ⟨gap, rfl, hgap, rfl⟩ := ih h
        exact ⟨c :: gap, rfl, skips_space hspace hgap, rfl⟩
      · split at h
        · rename_i hsign
          obtain ⟨gap, rfl, hgap, rfl⟩ := ih h
          subst hsign
          exact ⟨'#' :: gap, rfl, skips_sign hgap, rfl⟩
        · cases h
          exact ⟨[], rfl, skips_nil, rfl⟩

/-- At the end of a text the lexer passes over everything, be it in a comment or not. -/
theorem skip_filler (h : Filler gap) (inComment : Bool) (p : Position) : (skip inComment gap p).rest = [] := by
  induction h generalizing inComment p with
  | nil => rfl
  | @space c rest hc _ ih =>
    rw [skip]
    split
    · exact ih _ _
    · exact ih _ _
  | @comment line rest hline _ ih =>
    have hpassed : Skips true (line ++ ['\n']) := skips_line hline skips_nil
    have hline (p : Position) : (skip true (line ++ '\n' :: rest) p).rest = [] := by
      rw [List.append_cons, hpassed]
      exact ih _ _
    cases inComment
    · exact hline _
    · exact hline _

theorem skip_append_filler (h : (skip inComment cs p).rest = []) (hgap : Filler gap) (q : Position) :
    (skip inComment (cs ++ gap) q).rest = [] := by
  induction cs generalizing inComment p q with
  | nil => exact skip_filler hgap _ _
  | cons c cs ih =>
    rw [List.cons_append]
    rw [skip] at h ⊢
    split at h
    · rename_i hcomment
      rw [if_pos hcomment]
      exact ih h _
    · rename_i hcomment
      rw [if_neg hcomment]
      split at h
      · rename_i hspace
        rw [if_pos hspace]
        exact ih h _
      · rename_i hspace
        rw [if_neg hspace]
        split at h
        · rename_i hsign
          rw [if_pos hsign]
          exact ih h _
        · cases h

/-! ### Reading a token -/

theorem exists_matched (h : match? allowed cs = some w) : ∃ rest, cs = w.2 ++ rest ∧ Matched allowed rest w := by
  cases cs with
  | nil => cases h
  | cons c cs =>
    rw [match?] at h
    split at h
    · rename_i hstart
      obtain rfl := Option.some.inj h
      simp only [Bool.and_eq_true, List.contains_iff_mem] at hstart
      have hname : isName ((c :: cs).takeWhile isNamePart) := by
        rw [List.takeWhile_cons_of_pos (isNamePart_of_isNameStart hstart.2)]
        simp [isName, hstart.2]
      have hrest : Apart ((c :: cs).dropWhile isNamePart) := by
        intro d hd
        have hnot := List.head?_dropWhile_not isNamePart (c :: cs)
        rw [hd] at hnot
        simp [hnot]
      exact ⟨_, List.takeWhile_append_dropWhile.symm, .whole hname hstart.1 hrest⟩
    · rename_i hstart
      split at h
      · rename_i k hfind
        obtain rfl := Option.some.inj h
        have hmem := List.mem_of_find?_eq_some hfind
        have htest := List.find?_some hfind
        simp only [Bool.and_eq_true, List.contains_iff_mem] at htest
        obtain ⟨hhead, d, hd, hdstart⟩ := head?_of_isPrefixOf hmem htest.2
        rw [hhead] at hd
        cases hd
        have hname : Terminal.name ∉ allowed := by simpa [hdstart] using hstart
        obtain ⟨rest, hrest⟩ := List.isPrefixOf_iff_prefix.mp htest.2
        exact ⟨rest, hrest.symm, .keyword hmem htest.1 hname⟩
      · split at h
        · rename_i t hchar
          split at h
          · rename_i hmem
            obtain rfl := Option.some.inj h
            exact ⟨cs, rfl, .mark hchar (by simpa using hmem)⟩
          · cases h
        · cases h

/-- What is matched is a word. -/
theorem Matched.valid (h : Matched allowed rest w) : w.Valid := by
  cases h with
  | @whole cs hcs _ _ =>
    rw [wordTerminal]
    split
    · rename_i hfind
      have htest := List.find?_some hfind
      simp only [Bool.and_eq_true, decide_eq_true_eq] at htest
      rw [← htest.1]
      exact .keyword (List.mem_of_find?_eq_some hfind)
    · exact .name hcs
  | keyword hw _ _ => exact .keyword hw
  | mark hc _ => exact .mark hc

/-- The same word is matched with another text behind it that has the same beginning, or that is apart. -/
theorem Matched.congr (h : Matched allowed rest w) (hrest : rest'.head? = rest.head? ∨ Apart rest') :
    Matched allowed rest' w := by
  cases h with
  | whole hcs hname hapart =>
    refine .whole hcs hname ?_
    rcases hrest with hrest | hrest
    · rwa [Apart, hrest]
    · exact hrest
  | keyword hw hmem hname => exact .keyword hw hmem hname
  | mark hc hmem => exact .mark hc hmem

/-- Before the next token the lexer passes over something. -/
theorem exists_of_next (h : next allowed ⟨cs, p⟩ = .token t after) :
    ∃ gap rest, cs = gap ++ (t.text ++ rest) ∧ Skips false gap ∧ t.start = p.after gap ∧
      after = ⟨rest, t.start.after t.text⟩ ∧ Matched allowed rest t.key := by
  rcases hskip : skip false cs p with ⟨rest, q⟩
  simp only [next, hskip] at h
  split at h
  · cases h
  · rename_i hne
    split at h
    · rename_i k text hmatch
      obtain ⟨gap, rfl, hgap, rfl⟩ := exists_skips hskip (by simpa using hne)
      obtain ⟨rest', hrest, hmatched⟩ := exists_matched hmatch
      subst hrest
      cases h
      exact ⟨gap, rest', rfl, hgap, rfl, by rw [List.drop_left], hmatched⟩
    · split at h <;> cases h

theorem next_eq_finish_iff : next allowed ⟨cs, p⟩ = .finish ↔ (skip false cs p).rest = [] := by
  rw [next]
  split
  · rename_i hnil
    exact iff_of_true rfl hnil
  · rename_i hne
    refine iff_of_false (fun h => ?_) hne
    split at h
    · cases h
    · split at h <;> cases h

end Lexer

/-! ### The states of two stacks -/

namespace Stack

variable {stack stack' next : Stack} {i : Nat} {t t' : Token}

def states (stack : Stack) : List Nat := stack.map Frame.state

theorem state_of_states (h : stack'.states = stack.states) : stack'.state = stack.state := by
  cases stack <;> cases stack' <;> simp_all [states, state]

theorem states_drop (h : stack'.states = stack.states) (n : Nat) : states (stack'.drop n) = states (stack.drop n) := by
  rw [states, states, List.map_drop, List.map_drop]
  exact congrArg (List.drop n) h

theorem length_of_states (h : stack'.states = stack.states) : stack'.length = stack.length := by
  simpa [states] using congrArg List.length h

/-- Reductions look at states only. -/
theorem exists_reduce? (h : stack'.states = stack.states) (hr : stack.reduce? i = some next) :
    ∃ next', stack'.reduce? i = some next' ∧ next'.states = next.states := by
  obtain ⟨r, target, hrule, hle, hgo, rfl⟩ := reduce?_eq_some_iff.mp hr
  have hbelow := states_drop h r.right.length
  refine ⟨_, reduce?_eq_some_iff.mpr ⟨r, target, hrule, length_of_states h ▸ hle, ?_, rfl⟩, ?_⟩
  · rwa [state_of_states hbelow]
  · exact congrArg (target :: ·) hbelow

/-- Whether a token is shifted depends on its terminal and on states only. -/
theorem exists_shifted (hm : stack.meet t = .shifted next) (h : stack'.states = stack.states)
    (hk : t'.terminal = t.terminal) : ∃ next', stack'.meet t' = .shifted next' ∧ next'.states = next.states := by
  revert stack' next
  refine meet_induction t (P := fun stack advance => ∀ {stack' next : Stack}, advance = .shifted next →
    stack'.states = stack.states → ∃ next', stack'.meet t' = .shifted next' ∧ next'.states = next.states)
    ?_ ?_ ?_ ?_ ?_ stack
  · exact fun _ _ _ _ h => nomatch h
  · intro stack q ha stack' next hnext h
    cases hnext
    rw [← hk, ← state_of_states h] at ha
    exact ⟨_, meet_of_shift ha, congrArg (q :: ·) h⟩
  · exact fun _ _ _ _ _ _ h => nomatch h
  · exact fun _ _ _ _ _ _ _ _ _ h => nomatch h
  · intro stack i frame below ha hr hfinal ih stack' next hnext h
    obtain ⟨next', hr', hstates⟩ := exists_reduce? h hr
    rw [← hk, ← state_of_states h] at ha
    cases next' with
    | nil => cases hstates
    | cons frame' below' =>
      have hframe : frame'.state = frame.state := (List.cons.inj hstates).1
      rw [meet_of_reduce ha hr' (hframe ▸ hfinal)]
      exact ih hnext hstates

end Stack

/-! ### Reading the padded text -/

theorem Filler.apart (h : Filler gap) (hne : gap ≠ []) (rest : List Char) : Apart (gap ++ rest) := by
  have hhead {c : Char} (hc : Lexer.isSpace c ∨ c = '#') : ¬Lexer.isNamePart c := by
    simp [(isNamePart_of_isSpace hc).1]
  cases h with
  | nil => exact absurd rfl hne
  | space hc _ =>
    intro d hd
    cases hd
    exact hhead (.inl hc)
  | comment _ _ =>
    intro d hd
    cases hd
    exact hhead (.inr rfl)

/-- A padded text begins as it did, or with something that is apart. -/
theorem head?_padded (hfiller : Filler (pad n)) (cs : List Char) :
    (padded pad n cs).head? = cs.head? ∨ Apart (padded pad n cs) := by
  by_cases hpad : pad n = []
  · left
    cases cs with
    | nil => rw [padded, hpad]
    | cons c cs =>
      rw [padded, hpad]
      rfl
  · right
    cases cs with
    | nil =>
      have := hfiller.apart hpad []
      rwa [List.append_nil] at this
    | cons c cs => exact hfiller.apart hpad _

namespace Parse

variable {stack stack' : Stack} {cursor : Cursor} {ts : List Token}

theorem Reads.le_start (h : Reads stack cursor ts) {t : Token} (ht : t ∈ ts) :
    cursor.position.offset ≤ t.start.offset := by
  induction ts generalizing stack cursor with
  | nil => cases ht
  | cons t₁ ts ih =>
    obtain ⟨after, next, hnext, -, hreads⟩ := h
    obtain ⟨gap, rest, -, -, hstart, rfl, -⟩ := Lexer.exists_of_next hnext
    have hle : cursor.position.offset ≤ t₁.start.offset := by
      rw [hstart, Position.offset_after]
      omega
    rcases List.mem_cons.mp ht with rfl | ht
    · exact hle
    · have hlater := ih hreads ht
      rw [Position.offset_after] at hlater
      omega

/-- Behind a place, something is put in only where the text ends and where tokens begin and end. -/
def PadsBounds (pad : Nat → List Char) (place stop : Nat) (ts : List Token) : Prop :=
  ∀ i, place < i → pad i ≠ [] → i = stop ∨ ∃ t ∈ ts, i = t.start.offset ∨ i = t.start.offset + t.text.length

variable {place stop : Nat} {t : Token}

/-- Up to the end of the next token, nothing is put in except where it begins. -/
theorem PadsBounds.quiet (h : PadsBounds pad place stop (t :: ts)) (hstop : t.start.offset + t.text.length ≤ stop)
    (hlater : ∀ t' ∈ ts, t.start.offset + t.text.length ≤ t'.start.offset) {i : Nat} (hi : place < i)
    (hne : i ≠ t.start.offset) (hlt : i < t.start.offset + t.text.length) : pad i = [] := by
  refine Decidable.byContradiction fun hsome => ?_
  rcases h i hi hsome with rfl | ⟨t', ht', hplace⟩
  · omega
  · rcases List.mem_cons.mp ht' with rfl | ht'
    · omega
    · have := hlater t' ht'
      omega

theorem PadsBounds.tail (h : PadsBounds pad place stop (t :: ts)) (hplace : place ≤ t.start.offset) :
    PadsBounds pad (t.start.offset + t.text.length) stop ts := by
  intro i hi hsome
  rcases h i (by omega) hsome with hstop | ⟨t', ht', hbound⟩
  · exact .inl hstop
  · rcases List.mem_cons.mp ht' with rfl | ht'
    · omega
    · exact .inr ⟨t', ht', hbound⟩

/-- The text up to the end of the next token, padded: something to pass over, the token, and the rest padded. -/
theorem exists_lead (hfiller : ∀ i, Filler (pad i)) (hgap : Lexer.Skips false gap) (htext : text ≠ [])
    (hquiet : ∀ i, n < i → i ≠ n + gap.length → i < n + gap.length + text.length → pad i = []) (rest : List Char) :
    ∃ lead, Lexer.Skips false lead ∧
      padded pad n (gap ++ (text ++ rest)) = lead ++ (text ++ padded pad (n + gap.length + text.length) rest) := by
  have hpad (i : Nat) : Lexer.Skips false (pad i) := Lexer.skips_of_filler (hfiller i)
  have hrest : padded pad (n + gap.length) (text ++ rest) =
      pad (n + gap.length) ++ (text ++ padded pad (n + gap.length + text.length) rest) :=
    padded_append (fun i hi hlt => hquiet i (by omega) (by omega) hlt) htext rest
  by_cases hnil : gap = []
  · subst hnil
    exact ⟨pad n, hpad n, hrest⟩
  · refine ⟨pad n ++ (gap ++ pad (n + gap.length)), (hpad n).append (hgap.append (hpad _)), ?_⟩
    rw [padded_append (fun i hi hlt => hquiet i hi (by omega) (by omega)) hnil, hrest]
    simp only [List.append_assoc]

/-- The same words are read off a text that is padded where tokens begin and end, by a stack in the same states. -/
theorem Reads.padded (hreads : Reads stack ⟨cs, p⟩ ts) (hfiller : ∀ i, Filler (pad i))
    (hpads : PadsBounds pad p.offset stop ts) (hstop : p.offset + cs.length = stop)
    (hstates : stack'.states = stack.states) (q : Position) :
    ∃ ts', ts'.map Token.key = ts.map Token.key ∧ Reads stack' ⟨padded pad p.offset cs, q⟩ ts' := by
  induction ts generalizing stack stack' cs p q with
  | nil =>
    refine ⟨[], rfl, Lexer.next_eq_finish_iff.mpr ?_⟩
    have hend := Lexer.next_eq_finish_iff.mp hreads
    cases cs with
    | nil => exact Lexer.skip_filler (hfiller _) _ _
    | cons c cs =>
      have hquiet (i : Nat) (hi : p.offset < i) (hlt : i < p.offset + (c :: cs).length) : pad i = [] := by
        refine Decidable.byContradiction fun hne => ?_
        rcases hpads i hi hne with rfl | ⟨t, ht, -⟩
        · omega
        · cases ht
      have happend := padded_append hquiet (List.cons_ne_nil c cs) []
      rw [List.append_nil] at happend
      rw [happend, Lexer.skips_of_filler (hfiller _)]
      exact Lexer.skip_append_filler hend (hfiller _) _
  | cons t ts ih =>
    obtain ⟨after, next, hnext, hm, hreads⟩ := hreads
    obtain ⟨gap, rest, rfl, hgap, hstart, rfl, hmatched⟩ := Lexer.exists_of_next hnext
    have htext : t.text ≠ [] := Lexer.match?_ne_nil hmatched.match?_eq
    have hoffset : t.start.offset = p.offset + gap.length := by rw [hstart, Position.offset_after]
    have hend : (t.start.after t.text).offset = t.start.offset + t.text.length := Position.offset_after _ _
    have hlater (t' : Token) (ht' : t' ∈ ts) : t.start.offset + t.text.length ≤ t'.start.offset :=
      hend ▸ hreads.le_start ht'
    have hlength : t.start.offset + t.text.length + rest.length = stop := by
      simp only [List.length_append] at hstop
      omega
    obtain ⟨lead, hlead, hpadded⟩ := exists_lead hfiller hgap htext
      (fun i hi hne hlt => hpads.quiet (by omega) hlater hi (hoffset ▸ hne) (hoffset ▸ hlt)) rest
    rw [← hoffset, ← hend] at hpadded
    have hmatched' : Lexer.Matched (allowed stack'.state) (UnionBridge.padded pad (t.start.after t.text).offset rest)
        t.key := by
      rw [Stack.state_of_states hstates]
      exact hmatched.congr (head?_padded (hfiller _) rest)
    have hnext' := Lexer.next_of_match (w := t.key) hlead hmatched.valid hmatched'.match?_eq q
    obtain ⟨next', hm', hstates'⟩ : ∃ next', stack'.meet ⟨t.terminal, t.text, q.after lead⟩ = .shifted next' ∧
        next'.states = next.states := Stack.exists_shifted hm hstates rfl
    have hrest : PadsBounds pad (t.start.after t.text).offset stop ts := hend ▸ hpads.tail (by omega)
    obtain ⟨ts', hkeys, hreads'⟩ := ih hreads hrest (hend ▸ hlength) hstates' ((q.after lead).after t.text)
    refine ⟨⟨t.terminal, t.text, q.after lead⟩ :: ts', congrArg (t.key :: ·) hkeys, ?_⟩
    rw [hpadded]
    exact ⟨_, next', hnext', hm', hreads'⟩

end Parse

end UnionBridge
