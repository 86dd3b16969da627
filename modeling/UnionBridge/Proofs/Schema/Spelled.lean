import UnionBridge.Proofs.Schema.Places
import UnionBridge.Proofs.Schema.Written

/-! The names of a schema that was read from a text: every one of them matches `NAME`. -/
namespace UnionBridge

namespace Tree

variable {node : Tree} {nodes : List Tree}

/-- Every token under a tree is spelled as its terminal demands. -/
def Sound (node : Tree) : Prop := ∀ t ∈ node.leaves, t.key.Valid

theorem mem_leavesOf {t : Token} : t ∈ leavesOf nodes ↔ ∃ node ∈ nodes, t ∈ node.leaves := by
  induction nodes with
  | nil => simp [leavesOf]
  | cons node nodes ih => simp [leavesOf, ih]

theorem sound_node {n : Nonterminal} : (Tree.node n nodes).Sound ↔ ∀ node ∈ nodes, node.Sound := by
  simp only [Sound, leaves, mem_leavesOf]
  constructor
  · exact fun h child hchild t ht => h t ⟨child, hchild, ht⟩
  · rintro h t ⟨child, hchild, ht⟩
    exact h child hchild t ht

end Tree

namespace Phrase

theorem isName_word {t : TokenOf .name} (h : t.tree.Sound) : isName t.word.toList := by
  have hvalid : Word.Valid (.name, t.1.text) := by
    have hvalid := h t.1 (by simp [TokenOf.tree, Tree.leaves])
    rwa [Token.key, t.2] at hvalid
  rw [TokenOf.word, Token.word, String.toList_ofList]
  generalize t.1.text = cs at hvalid
  cases hvalid with
  | name h => exact h
  | keyword h =>
    have hkeywords : ∀ w ∈ Terminal.keywords, w.1 ≠ .name := by decide
    exact absurd rfl (hkeywords _ h)
  | mark h =>
    have hmarks : ∀ m ∈ marks, m.2 ≠ .name := by decide
    exact absurd rfl (hmarks _ (mem_marks h))

theorem Listed.mem_children_of_all {α : Type} {f : α → Tree} {l : Listed α} {a : α} (h : a ∈ l.all) :
    f a ∈ l.children f := by
  simp only [Listed.all, List.mem_cons, List.mem_map] at h
  rcases h with rfl | ⟨p, hp, rfl⟩
  · exact List.mem_cons_self
  · exact List.mem_cons_of_mem _ (List.mem_append_left _ (List.mem_flatMap.mpr ⟨p, hp, by simp⟩))

theorem Enclosed.mem_children_of_all {left right : Terminal} {α : Type} {f : α → Tree} {e : Enclosed left right α}
    {a : α} (h : a ∈ e.all) : f a ∈ e.children f := by
  rcases e with ⟨opening, _ | l, closing⟩
  · cases h
  · exact List.mem_cons_of_mem _ (List.mem_append_left _ (Listed.mem_children_of_all h))

theorem DottedName.spelled {d : DottedName} (h : d.tree.Sound) : d.meaning.Spelled := by
  have h := Tree.sound_node.mp h
  intro name hname
  rcases List.mem_cons.mp hname with rfl | hname
  · exact isName_word (h _ List.mem_cons_self)
  · obtain ⟨p, hp, rfl⟩ := List.mem_map.mp hname
    exact isName_word (h _ (List.mem_cons_of_mem _ (List.mem_flatMap.mpr ⟨p, hp, by simp⟩)))

theorem Argument.spelled {a : Argument} (h : a.tree.Sound) : a.meaning.Spelled := by
  have h := Tree.sound_node.mp h
  rcases a with ⟨first, _ | ⟨equal, value⟩⟩
  · exact ⟨by simp [meaning], DottedName.spelled (h _ (by simp [children]))⟩
  · have hfirst : first.meaning.Spelled := DottedName.spelled (h _ (by simp [children]))
    exact ⟨by simpa [meaning] using hfirst, DottedName.spelled (h _ (by simp [children, childrenOf?]))⟩

theorem Directive.spelled {d : Directive} (h : d.tree.Sound) : d.meaning.Spelled := by
  have h := Tree.sound_node.mp h
  refine ⟨isName_word (h _ (by simp [children])), fun a ha => ?_⟩
  obtain ⟨a', ha', rfl⟩ := List.mem_map.mp ha
  rcases d with ⟨sign, name, _ | e⟩
  · cases ha'
  · refine Argument.spelled (h _ ?_)
    exact List.mem_cons_of_mem _ (List.mem_cons_of_mem _ (Enclosed.mem_children_of_all ha'))

theorem TypeRef.spelled {t : TypeRef} (h : t.tree.Sound) : t.meaning.Spelled :=
  DottedName.spelled (Tree.sound_node.mp h _ (by simp))

theorem NamedField.spelled {f : NamedField} (h : f.tree.Sound) :
    isName f.meaning.1.toList ∧ f.meaning.2.Spelled := by
  have h := Tree.sound_node.mp h
  exact ⟨isName_word (h _ (by simp [children])), TypeRef.spelled (h _ (by simp [children]))⟩

theorem Fields.spelled {f : Fields} (h : f.tree.Sound) : f.meaning.Spelled := by
  cases f with
  | positional types =>
    intro t ht
    obtain ⟨t', ht', rfl⟩ := List.mem_map.mp ht
    exact TypeRef.spelled (Tree.sound_node.mp h _ (Enclosed.mem_children_of_all ht'))
  | named fields =>
    intro f hf
    obtain ⟨f', hf', rfl⟩ := List.mem_map.mp hf
    exact NamedField.spelled (Tree.sound_node.mp h _ (Enclosed.mem_children_of_all hf'))

theorem Variant.spelled {v : Variant} (h : v.tree.Sound) : v.meaning.Spelled := by
  have h := Tree.sound_node.mp h
  refine ⟨isName_word (h _ (by simp [children])), ?_, fun d hd => ?_⟩
  · rcases v with ⟨directives, name, _ | fields, comma⟩
    · trivial
    · exact Fields.spelled (h _ (by simp [children, childrenOf?]))
  · obtain ⟨d', hd', rfl⟩ := List.mem_map.mp hd
    exact Directive.spelled (h _ (List.mem_append_left _ (List.mem_map_of_mem hd')))

theorem Union.spelled {u : Union} (h : u.tree.Sound) : u.meaning.Spelled := by
  have h := Tree.sound_node.mp h
  refine ⟨isName_word (h _ (by simp [children])), fun v hv => ?_, fun d hd => ?_⟩
  · obtain ⟨v', hv', rfl⟩ := List.mem_map.mp hv
    have hchild : v'.tree ∈ u.variants.map Variant.tree := List.mem_map_of_mem hv'
    exact Variant.spelled (h _ (List.mem_append_right _ (by simp [hchild, -List.mem_map])))
  · obtain ⟨d', hd', rfl⟩ := List.mem_map.mp hd
    exact Directive.spelled (h _ (List.mem_append_left _ (List.mem_map_of_mem hd')))

theorem NewName.isName {n : NewName} (h : ∀ node ∈ NewName.children n, node.Sound) : isName n.2.word.toList :=
  isName_word (h _ (by simp [children]))

theorem ImportName.spelled {n : ImportName} (h : n.tree.Sound) :
    isName n.meaning.1.toList ∧ ∀ newName ∈ n.meaning.2, isName newName.toList := by
  have h := Tree.sound_node.mp h
  refine ⟨isName_word (h _ (by simp [children])), fun newName hnew => ?_⟩
  obtain ⟨p, hp, rfl⟩ := Option.map_eq_some_iff.mp hnew
  exact NewName.isName fun node hnode => h _ (by simp [children, childrenOf?, hp, hnode])

theorem WholeImport.spelled {i : WholeImport} (h : i.tree.Sound) : i.meaning.Spelled := by
  have h := Tree.sound_node.mp h
  refine ⟨DottedName.spelled (h _ (by simp [children])), fun newName hnew => ?_⟩
  obtain ⟨p, hp, rfl⟩ := Option.map_eq_some_iff.mp hnew
  exact NewName.isName fun node hnode => h _ (by simp [children, childrenOf?, hp, hnode])

theorem NamesImport.spelled {i : NamesImport} (h : i.tree.Sound) : i.meaning.Spelled := by
  have h := Tree.sound_node.mp h
  refine ⟨DottedName.spelled (h _ (by simp [children])), fun n hn => ?_⟩
  have hn : n ∈ i.names.all.map ImportName.meaning := by simpa [meaning, Listed.all, Function.comp_def] using hn
  obtain ⟨n', hn', rfl⟩ := List.mem_map.mp hn
  have hchild : n'.tree ∈ i.names.children ImportName.tree := Listed.mem_children_of_all hn'
  exact ImportName.spelled (h _ (by simp [children, hchild]))

theorem Schema.spelled {d : Schema} (h : d.tree.Sound) : d.meaning.Spelled := by
  have h := Tree.sound_node.mp h
  refine ⟨fun i hi => ?_, fun u hu => ?_⟩
  · obtain ⟨item, hitem, hi⟩ := List.mem_filterMap.mp hi
    have hsound := h _ (List.mem_map_of_mem hitem)
    rcases item with i' | i' | u
    · exact Option.some.inj hi ▸ WholeImport.spelled hsound
    · exact Option.some.inj hi ▸ NamesImport.spelled hsound
    · cases hi
  · obtain ⟨item, hitem, hu⟩ := List.mem_filterMap.mp hu
    have hsound := h _ (List.mem_map_of_mem hitem)
    rcases item with i | i | u'
    · cases hu
    · cases hu
    · exact Option.some.inj hu ▸ Union.spelled hsound

end Phrase

/-- Wherever a text parses, every name of the schema matches `NAME`. -/
theorem Schema.spelled_of_parse {source : String} {s : Schema} (h : parse source = .ok s) : s.Spelled := by
  obtain ⟨ts, hreads, hts⟩ := parse_eq_ok_iff.mp h
  obtain ⟨d, rfl, rfl⟩ := ofTokens_eq_ok_iff.mp hts
  have hstart : Parse.Reads [] ⟨source.toList, Position.after {} []⟩ d.tokens := hreads
  exact Phrase.Schema.spelled fun t ht => hstart.woven.valid ht

end UnionBridge
