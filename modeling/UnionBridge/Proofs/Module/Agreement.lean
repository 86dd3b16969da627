import UnionBridge.Proofs.Module.Outline

/-! The text of a plan and the functions for it: both are about the same sources, cases and variants, and candidates
that are tried according to one are tried according to the other. -/
namespace UnionBridge

variable {s : Schema} {u : Union} {p : Plan} {plans : List Plan} {file : Option String} {S : DottedName}
  {byCase : Table String (List Candidate)} {C : String} {L : List Candidate} {conv : Conversion} {arm : Arm}

/-- The line of a case in the text of a plan and the branch of a case in a function say the same. -/
structure Row.Tells (r : Row) (source dest : String) (b : Branch) : Prop where
  test : b.test = s!"{source}.{r.case}"
  built : b.built = r.variants.map fun variant => s!"{dest}.{variant}"
  mode : r.mode = "try" ∨ r.mode = "into"
  tries : r.mode = "try" ↔ b.Tries
  takes : r.mode = "into" ↔ b.Takes
  named : r.mode = "try" → b.named = b.built

/-- A function for a source is as the text of the plan has it: it has a branch for each case that is listed, and for
none besides. -/
structure Conversion.Agrees (conv : Conversion) (dest : String) (told : String × List Row) : Prop where
  source : Branch.readSource conv.lines = some told.1
  listed : (told.2.map (·.case)).Nodup
  emitted : ∀ r ∈ told.2, ∃ b ∈ Branch.readAll conv.lines, r.Tells told.1 dest b
  printed : ∀ b ∈ Branch.readAll conv.lines, ∃ r ∈ told.2, r.Tells told.1 dest b

namespace Branch

theorem Tries.not_takes {b : Branch} (h : b.Tries) : ¬b.Takes := by
  intro htakes
  refine htakes.2.2.1 ?_
  rw [h]
  simp

end Branch

/-- The branch that comes from some candidates says what their line says. -/
theorem Row.tells_branch (hconv : conv.Spelled) (harm : arm ∈ conv.arms) (hL : L ≠ [])
    (hbody : arm.body = .ofCandidates conv.dest L) :
    (ofCandidates arm.case L).Tells conv.source.text conv.dest (conv.branch arm) := by
  have hattempts : arm.body.attempts = L.map fun c => Attempt.ofTarget conv.dest c.target := by
    rw [hbody, ArmBody.attempts_ofCandidates]
  have hs : ∀ a ∈ arm.body.attempts, a.Slotted := by
    rw [hattempts, List.forall_mem_map]
    exact fun c _ => Attempt.slotted_ofTarget conv.dest c.target
  have hlabels : (L.map fun c => Attempt.ofTarget conv.dest c.target).map Attempt.label =
      (ofCandidates arm.case L).variants.map fun variant => s!"{conv.dest}.{variant}" := by
    simp only [List.map_map, ofCandidates]
    rfl
  rcases L with _ | ⟨c, _ | ⟨c', L⟩⟩
  · exact absurd rfl hL
  · obtain ⟨hbuilt, htakes⟩ := Conversion.branch_direct hconv harm hs hbody
    have hmode : (ofCandidates arm.case [c]).mode ≠ "try" := (by decide : "into" ≠ "try")
    exact ⟨rfl, hbuilt, .inr rfl, iff_of_false hmode fun htries => htries.not_takes htakes, iff_of_true rfl htakes,
      fun h => absurd h hmode⟩
  · obtain ⟨hbuilt, htries, hnamed⟩ := Conversion.branch_firstFit hconv harm hs hbody
    have hmode : (ofCandidates arm.case (c :: c' :: L)).mode ≠ "into" := (by decide : "try" ≠ "into")
    exact ⟨rfl, hbuilt.trans hlabels, .inl rfl, iff_of_true rfl htries, iff_of_false hmode htries.not_takes,
      fun _ => hnamed.trans hbuilt.symm⟩

theorem Conversion.nodup_caseOrder {decl : Option Union} (hn : byCase.keys.Nodup)
    (hd : ∀ u ∈ decl, (u.variants.map (·.name)).Nodup) : (caseOrder decl byCase).Nodup := by
  cases decl with
  | none => exact hn
  | some u =>
    refine List.nodup_append.mpr ⟨(hd u rfl).filter _, hn.filter _, fun C hC C' hC' heq => ?_⟩
    subst heq
    simpa [hC] using (List.mem_filter.mp hC').2

/-- The function for a source of a plan agrees with what the text of the plan says of the source, and where names are
distinct it tests for each case once. -/
theorem Plan.Of.agrees (h : p.Of s u file) (hS : p.table.get? S = some byCase) (hconv : conv.Spelled) {name : String}
    (heq : conv = .ofCases p.mapping (s.declared? S) name S byCase) :
    conv.Agrees p.dest (S.text, Plan.rowsOf byCase) ∧
      (s.Distinct → ((Branch.readAll conv.lines).map (·.test)).Nodup) := by
  have hn : byCase.keys.Nodup := (h.tidy_table S byCase hS).1
  have hsource : conv.source = S := by rw [heq]; rfl
  have hdest : conv.dest = p.dest := by rw [heq]; rfl
  have harms : ∀ arm ∈ conv.arms, ∃ L, byCase.get? arm.case = some L ∧ L ≠ [] ∧
      arm.body = .ofCandidates conv.dest L := by
    intro arm harm
    obtain ⟨L, hC, hbody⟩ := Conversion.mem_arms_ofCases.mp (heq ▸ harm)
    exact ⟨L, hC, (h.eq_asked hS hC).1, hdest ▸ hbody⟩
  have hread : Branch.readAll conv.lines = conv.arms.map conv.branch := by
    refine Conversion.readAll_lines hconv fun arm harm => ?_
    obtain ⟨L, _, _, hbody⟩ := harms arm harm
    rw [hbody, ArmBody.attempts_ofCandidates, List.forall_mem_map]
    exact fun c _ => Attempt.slotted_ofTarget conv.dest c.target
  have htells {arm : Arm} {L : List Candidate} (harm : arm ∈ conv.arms) (hC : byCase.get? arm.case = some L) :
      (Row.ofCandidates arm.case L).Tells S.text p.dest (conv.branch arm) := by
    obtain ⟨L', hC', hne, hbody⟩ := harms arm harm
    obtain rfl := Option.some.inj (hC.symm.trans hC')
    rw [← hsource, ← hdest]
    exact Row.tells_branch hconv harm hne hbody
  refine ⟨⟨hsource ▸ Conversion.readSource_lines hconv.source, ?_, fun r hr => ?_, fun b hb => ?_⟩, fun hs => ?_⟩
  · rw [Plan.rowsOf, List.map_map]
    exact hn
  · obtain ⟨e, he, rfl⟩ := List.mem_map.mp hr
    have hC : byCase.get? e.1 = some e.2 := Table.get?_of_mem_entries hn he
    have harm : (⟨e.1, .ofCandidates p.mapping.dest e.2⟩ : Arm) ∈ conv.arms :=
      heq ▸ Conversion.mem_arms_ofCases.mpr ⟨e.2, hC, rfl⟩
    rw [hread]
    exact ⟨_, List.mem_map_of_mem harm, htells harm hC⟩
  · rw [hread] at hb
    obtain ⟨arm, harm, rfl⟩ := List.mem_map.mp hb
    obtain ⟨L, hC, _, _⟩ := harms arm harm
    exact ⟨_, List.mem_map.mpr ⟨_, Table.mem_entries_of_get? hC, rfl⟩, htells harm hC⟩
  · have hcases : (conv.arms.map (·.case)).Nodup := by
      rw [heq, Conversion.map_case_arms]
      exact Conversion.nodup_caseOrder hn fun decl hd => hs.variants decl (Schema.mem_of_declared? hd).1
    have htests : (conv.arms.map conv.branch).map (·.test) =
        (conv.arms.map (·.case)).map fun C => s!"{conv.source}.{C}" := by
      simp only [List.map_map]
      rfl
    rw [hread, htests]
    exact hcases.map fun C C' hC => by simpa [toString] using hC

/-- The bridges of some plans agree with the texts of the plans. -/
theorem Bridge.agrees_ofPlans {used : List String} (hs : s.Spelled) (h : ∀ p ∈ plans, ∃ u ∈ s.unions, p.Of s u file) :
    List.Forall₂ (fun (p : Plan) (b : Bridge) => b.dest = p.dest ∧
      List.Forall₂ (fun told conv => conv.Agrees p.dest told ∧
        (s.Distinct → ((Branch.readAll conv.lines).map (·.test)).Nodup)) (Plan.readText p.text) b.conversions)
      plans (ofPlans s used plans) := by
  induction plans generalizing used with
  | nil => exact .nil
  | cons p plans ih =>
    obtain ⟨u, hu, hp⟩ := h p List.mem_cons_self
    have hspelled : ∀ b ∈ ofPlans s used (p :: plans), b.Spelled := spelled_ofPlans h hs
    rw [ofPlans] at hspelled ⊢
    refine .cons ⟨rfl, ?_⟩ (ih fun q hq => h q (List.mem_cons_of_mem _ hq))
    have hconversions := (hspelled _ List.mem_cons_self).conversions
    have hmade := Conversion.forall₂_ofSources s p.mapping used p.table.entries
    rw [hp.readText_text (hs.unions u hu), Plan.rows, List.forall₂_map_left_iff]
    refine List.forall₂_iff_zip.mpr ⟨hmade.length_eq, fun {e conv} hmem => ?_⟩
    obtain ⟨he, hconv⟩ := List.of_mem_zip hmem
    obtain ⟨name, heq⟩ := (List.forall₂_iff_zip.mp hmade).2 hmem
    exact hp.agrees (hp.mem_entries_table.mp he) (hconversions conv hconv) heq

/-- The text of every plan of a schema tells what the functions do that are emitted for it. Reading both, they have the
same sources in the same order; the cases that are listed for a source are those its function tests for, each once if
the schema was accepted; a case is listed with `try` just in case its branch consists of
attempts, and with `into` just in case its branch builds one variant without an attempt; and the variants listed for a
case are those that its branch builds, in the same order, and those that its error names. -/
theorem Schema.text_agrees {source : String} (hs : Schema.parse source = .ok s) (hp : s.plans file = .ok plans)
    (origin docstring : Option String) :
    List.Forall₂ (fun (p : Plan) (b : Bridge) => b.dest = p.dest ∧
      List.Forall₂ (fun told conv => conv.Agrees p.dest told ∧
        (Schema.read source file = .ok s → ((Branch.readAll conv.lines).map (·.test)).Nodup))
        (Plan.readText p.text) b.conversions)
      plans (Module.ofPlans s plans origin docstring).bridges := by
  have hof (p : Plan) (hmem : p ∈ plans) : ∃ u ∈ s.unions, p.Of s u file := by
    obtain ⟨u, hu, hof⟩ := exists_left_of_forall₂ (Schema.plans_eq_ok_iff.mp hp) hmem
    exact ⟨u, List.mem_of_mem_filter hu, hof⟩
  refine (Bridge.agrees_ofPlans (Schema.spelled_of_parse hs) hof).imp fun p b h => ⟨h.1, h.2.imp fun told conv h => ?_⟩
  exact ⟨h.1, fun hread => h.2 (Schema.read_eq_ok_iff.mp hread).2⟩

/-- The cases of the source are claimed in another order than they are declared in. -/
def claimedText : String :=
  "union S \x7b B \x7b x: int \x7d A \x7b x: int \x7d \x7d\n@from_union(S)\n" ++
    "union D \x7b @from_case(A) F \x7b x: str \x7d @from_case(A, B) G \x7b x: int \x7d \x7d"

def claimedSchema : Schema :=
  ⟨[], [⟨"S", [⟨"B", .named [("x", .ofName "int")], [], ⟨1, 11⟩⟩,
        ⟨"A", .named [("x", .ofName "int")], [], ⟨1, 24⟩⟩], [], ⟨1, 1⟩⟩,
    ⟨"D", [⟨"F", .named [("x", .ofName "str")],
          [⟨"from_case", [⟨none, .ofName "A", ⟨3, 22⟩⟩], ⟨3, 11⟩⟩], ⟨3, 11⟩⟩,
        ⟨"G", .named [("x", .ofName "int")],
          [⟨"from_case", [⟨none, .ofName "A", ⟨3, 49⟩⟩, ⟨none, .ofName "B", ⟨3, 52⟩⟩], ⟨3, 38⟩⟩], ⟨3, 38⟩⟩],
      [⟨"from_union", [⟨none, .ofName "S", ⟨2, 13⟩⟩], ⟨2, 1⟩⟩], ⟨2, 1⟩⟩]⟩

theorem Schema.text_agrees_claimed : ∃ plans,
    Schema.parse claimedText = .ok claimedSchema ∧ claimedSchema.plans none = .ok plans ∧
      plans.map (fun p => Plan.readText p.text) = [[("S", [⟨"A", "try", ["F", "G"]⟩, ⟨"B", "into", ["G"]⟩])]] ∧
      (Module.ofPlans claimedSchema plans none none).conversions.map (fun conv => Branch.readAll conv.lines) =
        [[⟨"S.B", ["f_x", "return"], ["D.G"], []⟩,
          ⟨"S.A", ["try", "except", "else", "try", "except", "else", "raise"], ["D.F", "D.G"], ["D.F", "D.G"]⟩]] ∧
      List.Forall₂ (fun (p : Plan) (b : Bridge) => b.dest = p.dest ∧
        List.Forall₂ (fun told conv => conv.Agrees p.dest told ∧ ((Branch.readAll conv.lines).map (·.test)).Nodup)
          (Plan.readText p.text) b.conversions)
        plans (Module.ofPlans claimedSchema plans none none).bridges := by
  have hparse : Schema.parse claimedText = .ok claimedSchema :=
    Lettered.parse_eq (.append .literal .literal) (by decide +kernel)
  have hcompile : compile claimedText none none = .ok _ :=
    compile_of_described hparse (by decide +kernel) (by decide +kernel)
  have hplans : claimedSchema.plans none = .ok _ := plans_eq_ok_iff.mpr (compile_eq_ok_iff.mp hcompile).2.2.1
  have hread : Schema.read claimedText none = .ok claimedSchema :=
    Schema.read_eq_ok_iff.mpr ⟨hparse, (compile_eq_ok_iff.mp hcompile).2.1⟩
  refine ⟨_, hparse, hplans, by decide +kernel, by decide +kernel, ?_⟩
  exact (text_agrees hparse hplans none none).imp fun p b h =>
    ⟨h.1, h.2.imp fun told conv h => ⟨h.1, h.2 hread⟩⟩

end UnionBridge
