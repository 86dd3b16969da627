import UnionBridge.Proofs.Mapping.Resolution

/-! Which variants are reported as ambiguous: those without fields that are among several candidates for a case, each of
them once. -/
namespace UnionBridge

/-- The target that the variant at a place in the declaration is. -/
def Variant.targetAt (v : Variant) (i : Nat) (file : Option String) : Target :=
  ⟨v.name, v.body, i, Span.ofPlace v.place file⟩

namespace Union

/-- A variant claims a case of a source, and so does another variant, or the variant itself once more. -/
def Crowds (u : Union) (i : Nat) (v : Variant) (source : DottedName) (case : String) : Prop :=
  0 < v.claimCount source case ∧
    (1 < v.claimCount source case ∨
      ∃ j v', j ≠ i ∧ u.variants[j]? = some v' ∧ 0 < v'.claimCount source case)

/-- A variant without fields would have to be tried for a case of a source. -/
def Ambiguous (u : Union) (i : Nat) (v : Variant) : Prop :=
  v.body.fields = [] ∧ ∃ source ∈ u.writtenSources, ∃ case, u.Crowds i v source case

end Union

namespace Mapping

variable {m : Mapping} {u : Union} {v : Variant} {file : Option String} {source : DottedName} {case : String}
  {target : Target} {i : Nat}

/-! ### The candidates of one case -/

/-- What a pass over some candidates adds to the variants that are already reported: those without fields among them,
each once. -/
structure Adds (source : DottedName) (case : String) (reported : List Target) (l : List Candidate)
    (found : List Ambiguity × List Target) : Prop where
  nodup : (found.1.map Ambiguity.target).Nodup
  fresh : ∀ a ∈ found.1, a.target ∉ reported
  mem_reported : ∀ t, t ∈ found.2 ↔ t ∈ reported ∨ t ∈ found.1.map Ambiguity.target
  sound : ∀ a ∈ found.1, a.source = source ∧ a.case = case ∧ a.target.hasFields = false ∧ a.target ∈ l.map Candidate.target
  complete : ∀ c ∈ l, c.target.hasFields = false → c.target ∈ found.2

theorem adds_caseAmbiguities (all : List Candidate) (reported : List Target) (i : Nat) (l : List Candidate) :
    Adds source case reported l (caseAmbiguities source case all reported i l) := by
  induction l generalizing reported i with
  | nil => exact ⟨List.nodup_nil, by simp [caseAmbiguities], by simp [caseAmbiguities], by simp [caseAmbiguities], by simp⟩
  | cons c l ih =>
    rw [caseAmbiguities]
    split
    · -- the candidate has fields, or its variant is reported already
      rename_i hskip
      have h := ih reported (i + 1)
      refine ⟨h.nodup, h.fresh, h.mem_reported, ?_, ?_⟩
      · intro a ha
        obtain ⟨hs, hc, hf, hmem⟩ := h.sound a ha
        exact ⟨hs, hc, hf, List.mem_cons_of_mem _ hmem⟩
      · intro d hd hf
        rcases List.mem_cons.mp hd with rfl | hd
        · apply (h.mem_reported _).mpr
          left
          simpa [hf] using hskip
        · exact h.complete d hd hf
    · rename_i hfind
      have hboth : c.target.hasFields = false ∧ c.target ∉ reported := by simpa using hfind
      have h := ih (c.target :: reported) (i + 1)
      refine ⟨?_, ?_, ?_, ?_, ?_⟩
      · apply List.nodup_cons.mpr
        refine ⟨?_, h.nodup⟩
        intro hmem
        obtain ⟨a, ha, hat⟩ := List.mem_map.mp hmem
        exact h.fresh a ha (hat ▸ List.mem_cons_self)
      · intro a ha
        rcases List.mem_cons.mp ha with rfl | ha
        · exact hboth.2
        · intro hmem
          exact h.fresh a ha (List.mem_cons_of_mem _ hmem)
      · intro t
        have ht := h.mem_reported t
        rw [List.mem_cons] at ht
        rw [List.map_cons, List.mem_cons, ht]
        constructor
        · rintro ((rfl | hr) | hm)
          · exact .inr (.inl rfl)
          · exact .inl hr
          · exact .inr (.inr hm)
        · rintro (hr | rfl | hm)
          · exact .inl (.inr hr)
          · exact .inl (.inl rfl)
          · exact .inr hm
      · intro a ha
        rcases List.mem_cons.mp ha with rfl | ha
        · exact ⟨rfl, rfl, hboth.1, List.mem_cons_self⟩
        · obtain ⟨hs, hc, hf, hmem⟩ := h.sound a ha
          exact ⟨hs, hc, hf, List.mem_cons_of_mem _ hmem⟩
      · intro d hd hf
        rcases List.mem_cons.mp hd with rfl | hd
        · exact (h.mem_reported _).mpr (.inl List.mem_cons_self)
        · exact h.complete d hd hf

/-! ### All cases -/

/-- A variant without fields is one of several candidates of a cell. -/
def Competes (t : Target) (e : DottedName × String × List Candidate) : Prop :=
  isFallible e.2.2 ∧ t.hasFields = false ∧ t ∈ e.2.2.map Candidate.target

/-- The ambiguities of some cells: one for every variant that competes in one of them. -/
structure Reports (so : List Ambiguity × List Target) (cs : List (DottedName × String × List Candidate)) : Prop where
  nodup : (so.1.map Ambiguity.target).Nodup
  mem_reported : ∀ t, t ∈ so.2 ↔ t ∈ so.1.map Ambiguity.target
  sound : ∀ a ∈ so.1, ∃ l, (a.source, a.case, l) ∈ cs ∧ Competes a.target (a.source, a.case, l)
  complete : ∀ e ∈ cs, ∀ t, Competes t e → t ∈ so.2

theorem reports_nil : Reports ([], []) [] :=
  ⟨List.nodup_nil, by simp, by simp, by simp⟩

theorem Reports.report {so : List Ambiguity × List Target} {cs : List (DottedName × String × List Candidate)}
    (h : Reports so cs) (e : DottedName × String × List Candidate) : Reports (report so e) (cs ++ [e]) := by
  obtain ⟨source, case, l⟩ := e
  rw [Mapping.report]
  split
  · rename_i hl
    have hadds : Adds source case so.2 l (caseAmbiguities source case l so.2 0 l) := adds_caseAmbiguities l so.2 0 l
    refine ⟨?_, ?_, ?_, ?_⟩
    · rw [List.map_append]
      apply h.nodup.append hadds.nodup
      intro t hold hnew
      obtain ⟨a, ha, rfl⟩ := List.mem_map.mp hnew
      exact hadds.fresh a ha ((h.mem_reported _).mpr hold)
    · intro t
      rw [List.map_append, List.mem_append, ← h.mem_reported t]
      exact hadds.mem_reported t
    · intro a ha
      rcases List.mem_append.mp ha with ha | ha
      · obtain ⟨l', hmem, hcompetes⟩ := h.sound a ha
        exact ⟨l', List.mem_append_left _ hmem, hcompetes⟩
      · obtain ⟨rfl, rfl, hf, hmem⟩ := hadds.sound a ha
        exact ⟨l, by simp, hl, hf, hmem⟩
    · intro e he t ht
      rcases List.mem_append.mp he with he | he
      · exact (hadds.mem_reported t).mpr (.inl (h.complete e he t ht))
      · obtain rfl := List.mem_singleton.mp he
        obtain ⟨_, hf, hmem⟩ := ht
        obtain ⟨c, hc, rfl⟩ := List.mem_map.mp hmem
        exact hadds.complete c hc hf
  · rename_i hl
    refine ⟨h.nodup, h.mem_reported, ?_, ?_⟩
    · intro a ha
      obtain ⟨l', hmem, hcompetes⟩ := h.sound a ha
      exact ⟨l', List.mem_append_left _ hmem, hcompetes⟩
    · intro e he t ht
      rcases List.mem_append.mp he with he | he
      · exact h.complete e he t ht
      · obtain rfl := List.mem_singleton.mp he
        exact absurd ht.1 hl

theorem Reports.foldl {so : List Ambiguity × List Target} {cs : List (DottedName × String × List Candidate)}
    (h : Reports so cs) (more : List (DottedName × String × List Candidate)) :
    Reports (more.foldl Mapping.report so) (cs ++ more) := by
  induction more generalizing so cs with
  | nil => simpa using h
  | cons e more ih =>
    have hmore := ih (h.report e)
    rwa [List.append_assoc] at hmore

/-- The ambiguities of a table are those of its cells. -/
theorem reports_cells (t : CandidateTable) : ∃ reported, Reports (ambiguities t, reported) (cells t) :=
  ⟨_, reports_nil.foldl (cells t)⟩

/-! ### The variants of a union -/

/-- A variant is among several candidates for a case exactly if it crowds the case. -/
theorem crowds_iff (hv : u.variants[i]? = some v) :
    u.Crowds i v source case ↔
      isFallible (asked u file source case) ∧
        v.targetAt i file ∈ (asked u file source case).map Candidate.target := by
  have hcount : (asked u file source case).count ⟨case, v.targetAt i file⟩ = v.claimCount source case :=
    count_asked hv source case
  simp only [isFallible, decide_eq_true_eq]
  constructor
  · rintro ⟨hpos, hmore⟩
    have hmem : ⟨case, v.targetAt i file⟩ ∈ asked u file source case := by
      apply List.count_pos_iff.mp
      omega
    refine ⟨?_, List.mem_map.mpr ⟨_, hmem, rfl⟩⟩
    rcases hmore with htwice | ⟨j, v', hj, hv', hpos'⟩
    · have hle : (asked u file source case).count ⟨case, v.targetAt i file⟩ ≤ (asked u file source case).length :=
        List.count_le_length
      omega
    · have hcount' : (asked u file source case).count ⟨case, v'.targetAt j file⟩ = v'.claimCount source case :=
        count_asked hv' source case
      have hmem' : ⟨case, v'.targetAt j file⟩ ∈ asked u file source case := by
        apply List.count_pos_iff.mp
        omega
      by_contra hle
      obtain ⟨c, hc⟩ : ∃ c, asked u file source case = [c] := by
        apply List.length_eq_one_iff.mp
        have hlength := List.length_pos_of_mem hmem
        omega
      rw [hc, List.mem_singleton] at hmem hmem'
      have hindex : i = j := congrArg (fun c => c.target.index) (hmem.trans hmem'.symm)
      exact hj hindex.symm
  · rintro ⟨hl, hmem⟩
    obtain ⟨⟨case', t⟩, hc, rfl⟩ := List.mem_map.mp hmem
    obtain rfl : case' = case := (mem_asked hc).1
    have hpos := List.count_pos_iff.mpr hc
    refine ⟨by omega, ?_⟩
    by_cases hall : ∀ c ∈ asked u file source case', c = ⟨case', v.targetAt i file⟩
    · left
      have hlength := List.count_eq_length.mpr fun c hc => (hall c hc).symm
      omega
    · right
      push Not at hall
      obtain ⟨⟨case'', t⟩, hd, hne⟩ := hall
      obtain ⟨hcase, ht⟩ := mem_asked hd
      obtain rfl : case'' = case' := hcase
      obtain ⟨j, hj⟩ := List.getElem?_of_mem ht
      rw [getElem?_targets, Option.map_eq_some_iff] at hj
      obtain ⟨v', hv', rfl⟩ := hj
      refine ⟨j, v', ?_, hv', ?_⟩
      · rintro rfl
        obtain rfl := Option.some.inj (hv'.symm.trans hv)
        exact hne rfl
      · have hcount' : (asked u file source case'').count ⟨case'', v'.targetAt j file⟩ = v'.claimCount source case'' :=
          count_asked hv' source case''
        have hpos' : 0 < (asked u file source case'').count ⟨case'', v'.targetAt j file⟩ := List.count_pos_iff.mpr hd
        omega

/-- The cells of the table hold what the directives ask for, and none of them is empty. -/
theorem mem_cells_ofUnion (hm : Mapping.ofUnion u file = .ok m) {l : List Candidate} :
    (source, case, l) ∈ cells m.candidateTable ↔
      source ∈ u.writtenSources ∧ l = asked u file source case ∧ l ≠ [] := by
  have hkeys := keys_candidateTable_ofUnion hm
  have htidy := tidy_candidateTable m
  rw [mem_cells (hkeys ▸ u.nodup_sources) htidy, ← Union.mem_sources]
  by_cases hs : source ∈ u.sources
  · rw [htidy.get?_eq (hkeys ▸ hs), cell_candidateTable_ofUnion hm hs]
    split
    · rename_i hnil
      simp [hnil]
    · rename_i hne
      constructor
      · intro h
        obtain rfl := Option.some.inj h
        exact ⟨hs, rfl, hne⟩
      · rintro ⟨_, rfl, _⟩
        rfl
  · have hnone : m.candidateTable.get? source = none := Table.get?_eq_none_iff.mpr (hkeys ▸ hs)
    simp [hnone, hs]

/-- What competes in some cell is a variant without fields that would have to be tried. -/
theorem competes_iff (hm : Mapping.ofUnion u file = .ok m) (hv : u.variants[i]? = some v) :
    (∃ e ∈ cells m.candidateTable, Competes (v.targetAt i file) e) ↔ u.Ambiguous i v := by
  have hfields : (v.targetAt i file).hasFields = false ↔ v.body.fields = [] := by
    simp [Target.hasFields, Target.fields, Variant.targetAt]
  constructor
  · rintro ⟨⟨source, case, l⟩, he, hl, hf, hmem⟩
    obtain ⟨hs, rfl, _⟩ := (mem_cells_ofUnion hm).mp he
    exact ⟨hfields.mp hf, source, hs, case, (crowds_iff hv).mpr ⟨hl, hmem⟩⟩
  · rintro ⟨hf, source, hs, case, hcrowds⟩
    have hcrowded : isFallible (asked u file source case) ∧
        v.targetAt i file ∈ (asked u file source case).map Candidate.target := (crowds_iff hv).mp hcrowds
    obtain ⟨hl, hmem⟩ := hcrowded
    refine ⟨(source, case, asked u file source case), (mem_cells_ofUnion hm).mpr ⟨hs, rfl, ?_⟩, hl, hfields.mpr hf, hmem⟩
    intro hnil
    simp [hnil] at hmem

theorem exists_variant_of_competes (hm : Mapping.ofUnion u file = .ok m) {l : List Candidate}
    (he : (source, case, l) ∈ cells m.candidateTable) (h : Competes target (source, case, l)) :
    ∃ i v, u.variants[i]? = some v ∧ target = v.targetAt i file ∧ source ∈ u.writtenSources ∧
      u.Crowds i v source case := by
  obtain ⟨hs, rfl, _⟩ := (mem_cells_ofUnion hm).mp he
  obtain ⟨hl, _, hmem⟩ := h
  obtain ⟨c, hc, rfl⟩ := List.mem_map.mp hmem
  obtain ⟨i, hi⟩ := List.getElem?_of_mem (mem_asked hc).2
  rw [getElem?_targets, Option.map_eq_some_iff] at hi
  obtain ⟨v, hv, htarget⟩ := hi
  refine ⟨i, v, hv, htarget.symm, hs, (crowds_iff hv).mpr ⟨hl, ?_⟩⟩
  rw [Variant.targetAt, htarget]
  exact hmem

theorem resolve_eq_error_iff {ds : List Diagnostic} :
    m.resolve = .error ds ↔
      ambiguities m.candidateTable ≠ [] ∧ ds = (ambiguities m.candidateTable).map m.ambiguityDiagnostic := by
  simp only [resolve]
  cases ambiguities m.candidateTable with
  | nil => simp
  | cons a as => simp [eq_comm]

/-- Resolution refuses exactly the unions in which a variant without fields would have to be tried, because another
variant claims the same case of the same source, or the variant itself claims it twice. Then there is one diagnostic for
every such variant, at its place, and none for any other. -/
theorem ambiguity_exact (hm : Mapping.ofUnion u file = .ok m) :
    ((∃ ds, m.resolve = .error ds) ↔ ∃ i v, u.variants[i]? = some v ∧ u.Ambiguous i v) ∧
    ∀ ds, m.resolve = .error ds →
      ∃ is : List Nat, is.Nodup ∧ (∀ i, i ∈ is ↔ ∃ v, u.variants[i]? = some v ∧ u.Ambiguous i v) ∧
        List.Forall₂ (fun i d => ∃ v, u.variants[i]? = some v ∧ d.code = some Fault.ambiguousUnit.code ∧
          d.span = Span.ofPlace v.place file ∧ ∃ source ∈ u.writtenSources, ∃ case rivals,
            u.Crowds i v source case ∧ d = m.ambiguityDiagnostic ⟨v.targetAt i file, rivals, source, case⟩) is ds := by
  obtain ⟨reported, hreports⟩ := reports_cells m.candidateTable
  have hfound (a : Ambiguity) (ha : a ∈ ambiguities m.candidateTable) :
      ∃ i v, u.variants[i]? = some v ∧ a.target = v.targetAt i file ∧ a.source ∈ u.writtenSources ∧
        u.Crowds i v a.source a.case := by
    obtain ⟨l, he, hcompetes⟩ := hreports.sound a ha
    exact exists_variant_of_competes hm he hcompetes
  have hambiguous (i : Nat) (v : Variant) (hv : u.variants[i]? = some v) :
      (∃ a ∈ ambiguities m.candidateTable, a.target = v.targetAt i file) ↔ u.Ambiguous i v := by
    rw [← competes_iff hm hv]
    constructor
    · rintro ⟨a, ha, htarget⟩
      obtain ⟨l, he, hcompetes⟩ := hreports.sound a ha
      exact ⟨_, he, htarget ▸ hcompetes⟩
    · rintro ⟨e, he, hcompetes⟩
      exact List.mem_map.mp ((hreports.mem_reported _).mp (hreports.complete e he _ hcompetes))
  constructor
  · simp only [resolve_eq_error_iff]
    constructor
    · rintro ⟨_, hne, _⟩
      obtain ⟨a, ha⟩ := List.exists_mem_of_ne_nil _ hne
      obtain ⟨i, v, hv, htarget, _⟩ := hfound a ha
      exact ⟨i, v, hv, (hambiguous i v hv).mp ⟨a, ha, htarget⟩⟩
    · rintro ⟨i, v, hv, h⟩
      obtain ⟨a, ha, _⟩ := (hambiguous i v hv).mpr h
      exact ⟨_, List.ne_nil_of_mem ha, rfl⟩
  · intro ds hds
    obtain ⟨_, rfl⟩ := resolve_eq_error_iff.mp hds
    refine ⟨(ambiguities m.candidateTable).map fun a => a.target.index, ?_, ?_, ?_⟩
    · apply (List.nodup_map_iff_inj_on hreports.nodup.of_map).mpr
      intro a ha b hb hindex
      obtain ⟨i, v, hv, hat, _⟩ := hfound a ha
      obtain ⟨j, v', hv', hbt, _⟩ := hfound b hb
      rw [hat, hbt] at hindex
      obtain rfl : i = j := hindex
      obtain rfl := Option.some.inj (hv.symm.trans hv')
      exact List.inj_on_of_nodup_map hreports.nodup ha hb (hat.trans hbt.symm)
    · intro i
      constructor
      · intro hi
        obtain ⟨a, ha, rfl⟩ := List.mem_map.mp hi
        obtain ⟨i, v, hv, htarget, _⟩ := hfound a ha
        rw [htarget]
        exact ⟨v, hv, (hambiguous i v hv).mp ⟨a, ha, htarget⟩⟩
      · rintro ⟨v, hv, h⟩
        obtain ⟨a, ha, htarget⟩ := (hambiguous i v hv).mpr h
        exact List.mem_map.mpr ⟨a, ha, by rw [htarget]; rfl⟩
    · rw [List.forall₂_map_left_iff, List.forall₂_map_right_iff, List.forall₂_same]
      intro a ha
      obtain ⟨i, v, hv, htarget, hs, hcrowds⟩ := hfound a ha
      obtain ⟨target, rivals, source, case⟩ := a
      obtain rfl : target = v.targetAt i file := htarget
      exact ⟨v, hv, rfl, rfl, source, hs, case, rivals, hcrowds, rfl⟩

/-- Two variants that claim one case; the first has no fields. -/
def twoClaims : Union where
  name := "Shape"
  variants := [
    ⟨"Dot", .unit, [], ⟨2, 3⟩⟩,
    ⟨"Spot", .named [("x", .ofName "int")], [⟨fromCase, [⟨none, .ofName "Dot", ⟨3, 14⟩⟩], ⟨3, 3⟩⟩], ⟨3, 3⟩⟩]
  directives := [⟨fromUnion, [⟨none, .ofName "A", ⟨1, 13⟩⟩], ⟨1, 1⟩⟩]
  place := ⟨1, 1⟩

theorem ambiguity_exact_twoClaims :
    ∃ m ds, Mapping.ofUnion twoClaims none = .ok m ∧ m.resolve = .error ds ∧
      ds.map Diagnostic.span = [Span.ofPlace ⟨2, 3⟩ none] := by
  have hm : Mapping.ofUnion twoClaims none = .ok (described twoClaims none) :=
    ofUnion_eq_ok_iff.mpr ⟨by decide +kernel, rfl⟩
  have hdot : twoClaims.Ambiguous 0 ⟨"Dot", .unit, [], ⟨2, 3⟩⟩ := by
    refine ⟨rfl, .ofName "A", by decide +kernel, "Dot", by decide +kernel, .inr ⟨1, _, by omega, rfl, ?_⟩⟩
    decide +kernel
  obtain ⟨hfails, hreports⟩ := ambiguity_exact hm
  obtain ⟨ds, hds⟩ := hfails.mpr ⟨0, _, rfl, hdot⟩
  obtain ⟨is, hn, hmem, hall⟩ := hreports ds hds
  have hone (i : Nat) : i ∈ is ↔ i ∈ [0] := by
    rw [hmem, List.mem_singleton]
    constructor
    · rintro ⟨v, hv, hf, _⟩
      match i with
      | 0 => rfl
      | 1 =>
        obtain rfl := Option.some.inj hv
        cases hf
      | i + 2 => cases hv
    · rintro rfl
      exact ⟨_, rfl, hdot⟩
  obtain rfl : is = [0] := List.perm_singleton.mp ((List.perm_ext_iff_of_nodup hn (List.nodup_singleton 0)).mpr hone)
  obtain ⟨d, rest, ⟨v, hv, _, hspan, _⟩, hrest, rfl⟩ := List.forall₂_cons_left_iff.mp hall
  cases hrest
  obtain rfl := Option.some.inj hv
  exact ⟨_, _, hm, hds, by rw [List.map_singleton, hspan]⟩

/-- A variant without fields that claims one case twice. -/
def claimedTwice : Union where
  name := "Shape"
  variants := [⟨"Point", .unit,
    [⟨fromCase, [⟨none, .ofName "Dot", ⟨3, 14⟩⟩, ⟨some (.ofName "A"), .ofName "Dot", ⟨3, 19⟩⟩], ⟨3, 3⟩⟩], ⟨3, 3⟩⟩]
  directives := [⟨fromUnion, [⟨none, .ofName "A", ⟨1, 13⟩⟩], ⟨1, 1⟩⟩]
  place := ⟨1, 1⟩

/-- It is refused although no other variant claims the case: it is reported as its own rival. -/
theorem resolve_claimedTwice :
    ∃ m ds, Mapping.ofUnion claimedTwice none = .ok m ∧ m.resolve = .error ds ∧
      ds.map Diagnostic.message = ["variant 'Shape.Point' has no fields but competes with Shape.Point for 'A.Dot'; " ++
        "there is nothing to attempt a conversion on"] ∧
      ¬∃ (i j : Nat) (v v' : Variant), i ≠ j ∧ claimedTwice.variants[i]? = some v ∧ claimedTwice.variants[j]? = some v' := by
  have hm : Mapping.ofUnion claimedTwice none = .ok (described claimedTwice none) :=
    ofUnion_eq_ok_iff.mpr ⟨by decide +kernel, rfl⟩
  have htable := candidateTable_ofUnion hm
  refine ⟨_, _, hm, resolve_eq_error_iff.mpr ⟨?_, rfl⟩, ?_, ?_⟩
  · have hlength : (ambiguities (described claimedTwice none).gathered).length = 1 := by decide +kernel
    rw [htable]
    intro hnil
    rw [hnil] at hlength
    cases hlength
  · rw [htable]
    decide +kernel
  · rintro ⟨i, j, v, v', hij, hi, hj⟩
    obtain ⟨hlt, _⟩ := List.getElem?_eq_some_iff.mp hi
    obtain ⟨hlt', _⟩ := List.getElem?_eq_some_iff.mp hj
    have hlength : claimedTwice.variants.length = 1 := rfl
    omega

end Mapping

end UnionBridge
