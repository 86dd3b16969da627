import UnionBridge.Proofs.Schema.Meaning
import UnionBridge.Proofs.Schema.Reading

/-! The parser accepts the token sequences of the grammar and no others, and returns what they denote. -/
namespace UnionBridge

/-- The fields of a variant are numbered by their positions. -/
theorem Body.map_index_fields (b : Body) : b.fields.map Field.index = List.range b.fields.length := by
  apply List.ext_getElem
  · simp
  · intro i _ _
    cases b <;> simp [fields] at *

namespace Schema

variable {tokens : List Token} {s : Schema}

/-- The schema that some tokens denote. -/
def ofTokens (tokens : List Token) : Except ParseFailure Schema := do
  let tree ← Parse.ofTokens [] {} tokens
  match ofTree? tree with
  | some s => .ok s
  | none => .error .stuck

theorem bind_ofTree?_eq_ok_iff {r : Except ParseFailure Tree} :
    (do let tree ← r
        match ofTree? tree with
        | some s => .ok s
        | none => .error .stuck) = (.ok s : Except ParseFailure Schema) ↔
      ∃ tree, r = .ok tree ∧ ofTree? tree = some s := by
  cases r with
  | error f => simp [bind, Except.bind]
  | ok tree => cases h : ofTree? tree <;> simp [bind, Except.bind, h]

theorem ofTokens_eq_ok_iff : ofTokens tokens = .ok s ↔ ∃ d : Phrase.Schema, d.tokens = tokens ∧ d.meaning = s := by
  rw [ofTokens, bind_ofTree?_eq_ok_iff]
  simp only [Parse.ofTokens_eq_ok_iff, Phrase.derives_schema_iff]
  constructor
  · rintro ⟨_, ⟨⟨d, rfl⟩, hleaves⟩, hs⟩
    exact ⟨d, hleaves, Option.some.inj (d.ofTree?_tree.symm.trans hs)⟩
  · rintro ⟨d, rfl, rfl⟩
    exact ⟨d.tree, ⟨⟨d, rfl⟩, rfl⟩, d.ofTree?_tree⟩

theorem parse_eq_ok_iff {source : String} :
    parse source = .ok s ↔ ∃ tokens, Parse.Reads [] ⟨source.toList, {}⟩ tokens ∧ ofTokens tokens = .ok s := by
  refine Iff.trans bind_ofTree?_eq_ok_iff ?_
  simp only [ofTokens, bind_ofTree?_eq_ok_iff, Parse.tree_eq_ok_iff]
  constructor
  · rintro ⟨tree, ⟨tokens, hreads, htree⟩, hs⟩
    exact ⟨tokens, hreads, tree, htree, hs⟩
  · rintro ⟨tokens, hreads, tree, htree, hs⟩
    exact ⟨tree, ⟨tokens, hreads, htree⟩, hs⟩

/-- Parsing is exact. The token sequences that are accepted are those of the grammar; what comes of one is what its
phrase denotes, with fields numbered in order; and text is parsed as the tokens that are read off it. -/
theorem parse_exact :
    (∀ tokens, (∃ s, ofTokens tokens = .ok s) ↔ ∃ d : Phrase.Schema, d.tokens = tokens) ∧
      (∀ d : Phrase.Schema, ofTokens d.tokens = .ok d.meaning) ∧
      (∀ b : Body, b.fields.map Field.index = List.range b.fields.length) ∧
      ∀ source s, parse source = .ok s ↔
        ∃ tokens, Parse.Reads [] ⟨source.toList, {}⟩ tokens ∧ ofTokens tokens = .ok s := by
  refine ⟨fun tokens => ?_, fun d => ofTokens_eq_ok_iff.mpr ⟨d, rfl, rfl⟩, Body.map_index_fields,
    fun _ _ => parse_eq_ok_iff⟩
  simp only [ofTokens_eq_ok_iff]
  constructor
  · rintro ⟨s, d, h, -⟩
    exact ⟨d, h⟩
  · rintro ⟨d, h⟩
    exact ⟨_, d, h, rfl⟩

end Schema

end UnionBridge
