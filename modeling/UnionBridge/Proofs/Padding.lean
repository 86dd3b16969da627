import UnionBridge.Proofs.Mapping.Unplaced
import UnionBridge.Proofs.Schema.Moved

/-! Layout never matters. Places do not show in generated code, and spaces and comments between tokens change nothing but
places. -/
namespace UnionBridge

variable {s s' : Schema} {source source' : String} {file doc : Option String} {c : Compiled} {plans : List Plan}
  {pad : Nat → String}

/-! ### Modules -/

@[simp]
theorem UnionClass.ofUnion_unplaced (u : Union) : ofUnion u.unplaced = ofUnion u := by
  simp only [ofUnion, Union.unplaced, List.map_map]
  rfl

theorem ArmBody.ofCandidates_unplaced (dest : String) (candidates : List Candidate) :
    ofCandidates dest (candidates.map Candidate.unplaced) = ofCandidates dest candidates := by
  simp only [ofCandidates, List.map_map]
  rfl

namespace Conversion

variable {decl : Option Union} {byCase : Table String (List Candidate)}

theorem caseOrder_unplaced (decl : Option Union) (byCase : Table String (List Candidate)) :
    caseOrder (decl.map Union.unplaced) (byCase.mapValues (List.map Candidate.unplaced)) = caseOrder decl byCase := by
  have hcontains : (byCase.mapValues (List.map Candidate.unplaced)).contains = byCase.contains := by
    funext case
    simp only [Table.contains, Table.get?_mapValues, Option.isSome_map]
  cases decl with
  | none => exact Table.keys_mapValues _ _
  | some u =>
    have hnames : u.unplaced.variants.map (·.name) = u.variants.map (·.name) := by
      simp [Union.unplaced, Variant.unplaced, Function.comp_def]
    simp only [caseOrder, Option.map_some, hnames, hcontains, Table.keys_mapValues]

theorem ofCases_unplaced (m : Mapping) (decl : Option Union) (name : String) (S : DottedName)
    (byCase : Table String (List Candidate)) :
    ofCases m.unplaced (decl.map Union.unplaced) name S (byCase.mapValues (List.map Candidate.unplaced)) =
      ofCases m decl name S byCase := by
  simp only [ofCases, caseOrder_unplaced, Table.get?_mapValues, Option.map_map, Function.comp_def,
    ArmBody.ofCandidates_unplaced]
  rfl

theorem ofSources_unplaced (s : Schema) (m : Mapping) (used : List String)
    (entries : List (DottedName × Table String (List Candidate))) :
    ofSources s.unplaced m.unplaced used (entries.map fun e => (e.1, e.2.mapValues (List.map Candidate.unplaced))) =
      ofSources s m used entries := by
  induction entries generalizing used with
  | nil => rfl
  | cons e entries ih =>
    simp only [List.map_cons, ofSources, Schema.declared?_unplaced, ofCases_unplaced, ih]
    rfl

end Conversion

theorem Bridge.ofPlans_unplaced (s : Schema) (used : List String) (plans : List Plan) :
    ofPlans s.unplaced used (plans.map Plan.unplaced) = ofPlans s used plans := by
  induction plans generalizing used with
  | nil => rfl
  | cons p plans ih =>
    have hsources := Conversion.ofSources_unplaced s p.mapping used p.table.entries
    have hentries : p.unplaced.table.entries =
      p.table.entries.map fun e => (e.1, e.2.mapValues (List.map Candidate.unplaced)) := rfl
    simp only [List.map_cons, ofPlans, hentries, ih]
    rw [show p.unplaced.mapping = p.mapping.unplaced from rfl, hsources]
    rfl

namespace Module

/-- A module whose imports have no places. -/
def unplaced (m : Module) : Module := { m with imports := m.imports.map Import.unplaced }

theorem ofPlans_unplaced (s : Schema) (plans : List Plan) (file doc : Option String) :
    ofPlans s.unplaced (plans.map Plan.unplaced) file doc = (ofPlans s plans file doc).unplaced := by
  have hunions : s.unplaced.unions.map UnionClass.ofUnion = s.unions.map UnionClass.ofUnion := by
    simp only [Schema.unplaced, List.map_map, Function.comp_def, UnionClass.ofUnion_unplaced]
  simp only [ofPlans, hunions, Bridge.ofPlans_unplaced]
  rfl

/-- The places of imports do not show in the text. -/
theorem text_unplaced (m : Module) : m.unplaced.text = m.text := by
  have himports : m.unplaced.importLines = m.importLines := by
    simp only [importLines, unplaced, List.isEmpty_map, List.map_map]
    rfl
  simp only [text, lines, himports]
  rfl

end Module

/-! ### Compiling -/

/-- If one of two texts whose schemas differ in nothing but places compiles, so does the other, under any file name and
with any docstring, and their plans differ in nothing but places. -/
theorem exists_plans_of_unplaced (hc : compile source file doc = .ok c) (hs : Schema.parse source' = .ok s')
    (h : s'.unplaced = c.schema.unplaced) (file' doc' : Option String) :
    ∃ plans, compile source' file' doc' = .ok ⟨s', plans, .ofPlans s' plans file' doc'⟩ ∧
      plans.map Plan.unplaced = c.plans.map Plan.unplaced := by
  obtain ⟨_, hdistinct, hplans, _⟩ := compile_eq_ok_iff.mp hc
  have hunplaced : List.Forall₂ (fun u (q : Plan) => q.Of s'.unplaced u none) s'.unplaced.destinations
      (c.plans.map Plan.unplaced) := by
    rw [h, Schema.destinations_unplaced, List.forall₂_map_left_iff, List.forall₂_map_right_iff]
    exact hplans.imp fun u p hp => hp.unplaced
  rw [Schema.destinations_unplaced, List.forall₂_map_left_iff] at hunplaced
  obtain ⟨plans, hplans', hsame⟩ := Plan.forall₂_placed hunplaced file'
  refine ⟨plans, compile_eq_ok_iff.mpr ⟨hs, ?_, hplans', rfl⟩, hsame⟩
  rw [← Schema.distinct_unplaced, h, Schema.distinct_unplaced]
  exact hdistinct

/-- Texts of schemas that differ in nothing but places compile to the same code, if one of them compiles. -/
theorem exists_compiled_of_unplaced (hc : compile source file doc = .ok c) (hs : Schema.parse source' = .ok s')
    (h : s'.unplaced = c.schema.unplaced) : ∃ c', compile source' file doc = .ok c' ∧ c'.code = c.code := by
  obtain ⟨_, _, _, hmodule⟩ := compile_eq_ok_iff.mp hc
  obtain ⟨plans, hc', hsame⟩ := exists_plans_of_unplaced hc hs h file doc
  have hmodules : (Module.ofPlans s' plans file doc).unplaced = c.module.unplaced := by
    rw [← Module.ofPlans_unplaced, hmodule, ← Module.ofPlans_unplaced, h, hsame]
  refine ⟨_, hc', ?_⟩
  rw [Compiled.code, Compiled.code, ← Module.text_unplaced, hmodules, Module.text_unplaced]

/-- Layout never matters. Whatever spaces and comments are put in at the boundaries of tokens, the text is parsed to the
same schema, but for places, and is compiled to the same code if it was compiled without them. -/
theorem compile_padded (hs : Schema.parse source = .ok s) (hfiller : ∀ n, Filler (pad n).toList)
    (hpad : ∀ n, n ∉ Schema.boundaries source → pad n = "") :
    (∃ s', Schema.parse (Schema.paddedText pad source) = .ok s' ∧ s'.unplaced = s.unplaced) ∧
      ∀ file doc c, compile source file doc = .ok c →
        ∃ c', compile (Schema.paddedText pad source) file doc = .ok c' ∧ c'.code = c.code := by
  obtain ⟨s', hs', hunplaced⟩ := Schema.parse_padded hs hfiller hpad
  refine ⟨⟨s', hs', hunplaced⟩, fun file doc c hc => exists_compiled_of_unplaced hc hs' ?_⟩
  have hschema := (compile_eq_ok_iff.mp hc).1
  rw [hunplaced, Except.ok.inj (hs.symm.trans hschema)]

def crowdedText : String := "unionS\x7bA(int)\x7d@from_union(S)union D\x7bA(int)\x7d"

/-- The first keyword is followed by a name at once. -/
def crowdedSchema : Schema :=
  ⟨[], [⟨"S", [⟨"A", .positional [.ofName "int"], [], ⟨1, 8⟩⟩], [], ⟨1, 1⟩⟩,
    ⟨"D", [⟨"A", .positional [.ofName "int"], [], ⟨1, 37⟩⟩],
      [⟨"from_union", [⟨none, .ofName "S", ⟨1, 27⟩⟩], ⟨1, 15⟩⟩], ⟨1, 15⟩⟩]⟩

/-- A comment at every boundary. -/
def commented (n : Nat) : String := if n ∈ Schema.boundaries crowdedText then " # noted\n" else ""

theorem compile_padded_crowded :
    (∃ s', Schema.parse (Schema.paddedText commented crowdedText) = .ok s' ∧ s'.unplaced = crowdedSchema.unplaced) ∧
      ∃ c c', compile crowdedText none none = .ok c ∧
        compile (Schema.paddedText commented crowdedText) none none = .ok c' ∧ c'.code = c.code := by
  have hs : Schema.parse crowdedText = .ok crowdedSchema := Lettered.parse_eq .literal (by decide +kernel)
  have hc : compile crowdedText none none = .ok ⟨crowdedSchema, crowdedSchema.destinations.map (Plan.described · none),
      Module.ofPlans crowdedSchema (crowdedSchema.destinations.map (Plan.described · none)) none none⟩ :=
    compile_of_described hs (by decide +kernel) (by decide +kernel)
  have hfiller (n : Nat) : Filler (commented n).toList := by
    have hcomment : " # noted\n".toList = ' ' :: '#' :: (" noted".toList ++ '\n' :: []) := rfl
    rw [commented]
    split
    · rw [hcomment]
      exact .space rfl (.comment (by decide) .nil)
    · exact .nil
  have hplaces (n : Nat) (hn : n ∉ Schema.boundaries crowdedText) : commented n = "" := if_neg hn
  obtain ⟨hparsed, hcompiled⟩ := compile_padded hs hfiller hplaces
  obtain ⟨c', hc', hcode⟩ := hcompiled none none _ hc
  exact ⟨hparsed, _, c', hc, hc', hcode⟩

end UnionBridge
