import UnionBridge.Proofs.Schema.Syntax
import UnionBridge.Schema.OfTree

/-! What is built from the tree of a phrase is the meaning of the phrase. -/
namespace UnionBridge

namespace Tree

mutual

theorem first?_eq_head? : ∀ t : Tree, t.first? = t.leaves.head?
  | .leaf _ => rfl
  | .node _ children => firstOf?_eq_head? children

theorem firstOf?_eq_head? : ∀ ts : List Tree, firstOf? ts = (leavesOf ts).head?
  | [] => rfl
  | t :: rest => by rw [firstOf?, leavesOf, first?_eq_head? t, firstOf?_eq_head? rest, List.head?_append]

end

theorem place?_eq (t : Tree) : t.place? = t.leaves.head?.map Token.place := by
  rw [place?, first?_eq_head?]
  rfl

/-- The texts of the names among some trees. -/
def namesOf (cs : List Tree) : List String := (Tree.node .schema cs).names

theorem names_node (n : Nonterminal) (cs : List Tree) : (Tree.node n cs).names = namesOf cs := rfl

theorem node?_eq_head? (n : Nonterminal) (t : Tree) : t.node? n = (t.nodes n).head? := List.head?_filter.symm

section Simp

variable {k : Terminal} {n m : Nonterminal} {cs ds : List Tree}

@[simp] theorem namesOf_nil : namesOf [] = [] := rfl

@[simp] theorem namesOf_append : namesOf (cs ++ ds) = namesOf cs ++ namesOf ds := List.filterMap_append

@[simp] theorem namesOf_name (t : TokenOf .name) : namesOf (t.tree :: cs) = t.word :: namesOf cs := by
  simp [namesOf, names, children, TokenOf.tree, TokenOf.word, Token.word, t.2]

theorem namesOf_token (t : TokenOf k) (hk : k ≠ .name) : namesOf (t.tree :: cs) = namesOf cs := by
  simp [namesOf, names, children, TokenOf.tree, t.2, hk]

@[simp] theorem namesOf_node : namesOf (.node n ds :: cs) = namesOf cs := rfl

@[simp] theorem is_token (t : TokenOf k) : t.tree.is n = false := rfl

@[simp] theorem is_node : (Tree.node m cs).is n = decide (m = n) := rfl

@[simp] theorem nodes_node : (Tree.node m cs).nodes n = cs.filter (is n) := rfl

end Simp

theorem mapM_map_eq {α β : Type} {tree : α → Tree} {build? : Tree → Option β} {meaning : α → β}
    (h : ∀ a, build? (tree a) = some (meaning a)) (l : List α) :
    (l.map tree).mapM build? = some (l.map meaning) := by
  induction l with
  | nil => rfl
  | cons a l ih => simp [h, ih]

theorem namesOf_map_eq_nil {α : Type} {f : α → Tree} (h : ∀ a, namesOf [f a] = []) (l : List α) :
    namesOf (l.map f) = [] := by
  induction l with
  | nil => rfl
  | cons a l ih =>
    rw [List.map_cons, ← List.singleton_append, namesOf_append, h, ih]
    rfl

theorem filter_map_eq {α : Type} {f : α → Tree} {n : Nonterminal} {b : Bool} (h : ∀ a, (f a).is n = b) (l : List α) :
    (l.map f).filter (is n) = if b then l.map f else [] := by
  cases b
  · simpa using fun a _ => h a
  · simpa using fun a _ => h a

end Tree

open UnionBridge.Tree

namespace Phrase

section Lists

variable {α : Type} {f : α → Tree} {n : Nonterminal} {left right : Terminal}

theorem Listed.filter_children (h : ∀ a, (f a).is n = true) (l : Listed α) :
    (l.children f).filter (is n) = l.all.map f := by
  have hmore : (l.more.flatMap fun p => [p.1.tree, f p.2]).filter (is n) = (l.more.map Prod.snd).map f := by
    induction l.more with
    | nil => rfl
    | cons p more ih => simp [h, ih]
  have hcomma : (childrenOf? (fun t => [t.tree]) l.comma).filter (is n) = [] := by
    cases l.comma <;> rfl
  rw [Listed.children, List.filter_append, List.filter_cons_of_pos (h _), hmore, hcomma, List.append_nil, Listed.all,
    List.map_cons]

theorem Enclosed.filter_children (h : ∀ a, (f a).is n = true) (e : Enclosed left right α) :
    (e.children f).filter (is n) = e.all.map f := by
  rw [Enclosed.children, Enclosed.all]
  cases e.inner with
  | none => rfl
  | some l => simp [childrenOf?, Listed.filter_children h]

end Lists

theorem DottedName.dottedName?_tree (d : DottedName) : d.tree.dottedName? = some d.meaning := by
  have hrest : namesOf (d.rest.flatMap fun p => [p.1.tree, p.2.tree]) = d.rest.map fun p => p.2.word := by
    induction d.rest with
    | nil => rfl
    | cons p rest ih => simp [namesOf_token, ih]
  rw [dottedName?, tree, names_node, children, namesOf_name, hrest]
  rfl

theorem Argument.argument?_tree (a : Argument) : a.tree.argument? = some a.meaning := by
  have hplace : a.tree.place? = some a.first.head.place := by
    rw [place?_eq]
    rfl
  rcases a with ⟨first, _ | ⟨equal, value⟩⟩
  · have hnodes : (Argument.tree ⟨first, none⟩).nodes .dottedName = [first.tree] := rfl
    simp [argument?, hplace, hnodes, DottedName.dottedName?_tree, meaning]
  · have hnodes : (Argument.tree ⟨first, some (equal, value)⟩).nodes .dottedName = [first.tree, value.tree] := rfl
    simp [argument?, hplace, hnodes, DottedName.dottedName?_tree, meaning]

theorem Directive.directive?_tree (d : Directive) : d.tree.directive? = some d.meaning := by
  have hplace : d.tree.place? = some d.sign.place := by
    rw [place?_eq]
    rfl
  have hname : d.tree.names.head? = some d.name.word := by
    rw [tree, names_node, children, namesOf_token _ (by decide), namesOf_name]
    rfl
  have hargs : d.tree.nodes .argument = ((d.args.map Enclosed.all).getD []).map Argument.tree := by
    rw [tree, nodes_node, children, List.filter_cons_of_neg (by simp), List.filter_cons_of_neg (by simp)]
    cases d.args with
    | none => rfl
    | some e => exact e.filter_children fun _ => rfl
  simp [directive?, hplace, hname, hargs, mapM_map_eq Argument.argument?_tree, meaning]

theorem TypeRef.typeRef?_tree (t : TypeRef) : t.tree.typeRef? = some t.meaning := t.path.dottedName?_tree

theorem NamedField.namedField?_tree (f : NamedField) : f.tree.namedField? = some f.meaning := by
  have hname : f.tree.names.head? = some f.name.word := by
    rw [tree, names_node, children, namesOf_name]
    rfl
  have htype : f.tree.node? .typeRef = some f.type.tree := rfl
  simp [namedField?, hname, htype, TypeRef.typeRef?_tree, meaning]

theorem Variant.nodes_tree (v : Variant) {n : Nonterminal} (hn : n ≠ .directive) :
    v.tree.nodes n = (childrenOf? (fun f => [f.tree]) v.fields).filter (is n) := by
  have hdirectives : (v.directives.map Directive.tree).filter (is n) = [] :=
    filter_map_eq (b := false) (fun d => by simp [Directive.tree, hn.symm]) _
  have hcomma : (childrenOf? (fun t => [t.tree]) v.comma).filter (is n) = [] := by
    cases v.comma <;> rfl
  rw [tree, nodes_node, children, List.filter_append, List.filter_append, hdirectives, hcomma, List.nil_append,
    List.append_nil, List.filter_cons_of_neg (by simp)]

theorem Variant.body?_tree (v : Variant) : v.tree.body? = some v.meaning.body := by
  have hpositional := v.nodes_tree (n := .positionalFields) (by decide)
  have hnamed := v.nodes_tree (n := .namedFields) (by decide)
  rw [body?, node?_eq_head?, node?_eq_head?, hpositional, hnamed, meaning]
  rcases v.fields with _ | ⟨types⟩ | ⟨fields⟩
  · rfl
  · have hnodes : (types.children TypeRef.tree).filter (is .typeRef) = types.all.map TypeRef.tree :=
      types.filter_children fun _ => rfl
    simp [childrenOf?, Fields.tree, Fields.meaning, hnodes, mapM_map_eq TypeRef.typeRef?_tree]
  · have hnodes : (fields.children NamedField.tree).filter (is .namedField) = fields.all.map NamedField.tree :=
      fields.filter_children fun _ => rfl
    simp [childrenOf?, Fields.tree, Fields.meaning, hnodes, mapM_map_eq NamedField.namedField?_tree]

theorem head?_leavesOf_directives (ds : List Directive) (rest : List Tree) (t : Token)
    (h : (leavesOf rest).head? = some t) :
    (leavesOf (ds.map Directive.tree ++ rest)).head?.map Token.place =
      some ((ds.head?.map fun d => d.sign.place).getD t.place) := by
  cases ds with
  | nil => simp [h]
  | cons d ds => rfl

theorem Variant.variant?_tree (v : Variant) : v.tree.variant? = some v.meaning := by
  have hplace : v.tree.place? = some v.place := by
    rw [place?_eq]
    exact head?_leavesOf_directives _ _ _ rfl
  have hname : v.tree.names.head? = some v.name.word := by
    have hdirectives : namesOf (v.directives.map Directive.tree) = [] := namesOf_map_eq_nil (fun _ => rfl) _
    simp [tree, names_node, children, hdirectives]
  have hdirectives : v.tree.nodes .directive = v.directives.map Directive.tree := by
    have hfields : (childrenOf? (fun f => [f.tree]) v.fields).filter (is .directive) = [] := by
      rcases v.fields with _ | ⟨types⟩ | ⟨fields⟩ <;> rfl
    have hcomma : (childrenOf? (fun t => [t.tree]) v.comma).filter (is .directive) = [] := by
      cases v.comma <;> rfl
    have hall : (v.directives.map Directive.tree).filter (is .directive) = v.directives.map Directive.tree :=
      filter_map_eq (b := true) (fun _ => rfl) _
    rw [tree, nodes_node, children, List.filter_append, List.filter_append, List.filter_cons_of_neg (by simp), hfields,
      hcomma, hall, List.append_nil, List.append_nil]
  simp [variant?, hplace, hname, hdirectives, body?_tree, mapM_map_eq Directive.directive?_tree, meaning]

theorem Union.union?_tree (u : Union) : u.tree.union? = some u.meaning := by
  have hplace : u.tree.place? = some u.place := by
    rw [place?_eq]
    exact head?_leavesOf_directives _ _ _ rfl
  have hname : u.tree.names.head? = some u.name.word := by
    have hdirectives : namesOf (u.directives.map Directive.tree) = [] := namesOf_map_eq_nil (fun _ => rfl) _
    simp [tree, names_node, children, hdirectives, namesOf_token]
  have hnodes {n : Nonterminal} : u.tree.nodes n =
      (u.directives.map Directive.tree).filter (is n) ++ (u.variants.map Variant.tree).filter (is n) := by
    simp [tree, children]
  have hdirectives : u.tree.nodes .directive = u.directives.map Directive.tree := by
    rw [hnodes, filter_map_eq (b := true) (fun _ => rfl), filter_map_eq (b := false) (fun _ => rfl)]
    exact List.append_nil _
  have hvariants : u.tree.nodes .variant = u.variants.map Variant.tree := by
    rw [hnodes, filter_map_eq (b := false) (fun _ => rfl), filter_map_eq (b := true) (fun _ => rfl)]
    rfl
  simp [union?, hplace, hname, hdirectives, hvariants, mapM_map_eq Directive.directive?_tree,
    mapM_map_eq Variant.variant?_tree, meaning]

theorem NewName.namesOf_children (n : Option NewName) :
    namesOf (childrenOf? NewName.children n) = (n.map fun p => p.2.word).toList := by
  rcases n with _ | ⟨word, name⟩
  · rfl
  · simp [childrenOf?, NewName.children, namesOf_token]

theorem ImportName.importName?_tree (n : ImportName) : n.tree.importName? = some n.meaning := by
  have hnames : n.tree.names = n.name.word :: (n.newName.map fun p => p.2.word).toList := by
    rw [tree, names_node, children, namesOf_name, NewName.namesOf_children]
  rw [importName?, hnames, meaning]
  cases n.newName <;> rfl

theorem WholeImport.wholeImport?_tree (i : WholeImport) : i.tree.wholeImport? = some i.meaning := by
  have hplace : i.tree.place? = some i.word.place := by
    rw [place?_eq]
    rfl
  have hpath : i.tree.path? = some i.module.meaning := i.module.dottedName?_tree
  have hnewName : i.tree.names.head? = i.newName.map fun p => p.2.word := by
    have hmodule (cs : List Tree) : namesOf (i.module.tree :: cs) = namesOf cs := rfl
    rw [tree, names_node, children, namesOf_token _ (by decide), hmodule, NewName.namesOf_children]
    cases i.newName <;> rfl
  simp [wholeImport?, hplace, hpath, hnewName, meaning]

theorem NamesImport.namesImport?_tree (i : NamesImport) : i.tree.namesImport? = some i.meaning := by
  have hplace : i.tree.place? = some i.word.place := by
    rw [place?_eq]
    rfl
  have hpath : i.tree.path? = some i.module.meaning := i.module.dottedName?_tree
  have hnames : i.tree.nodes .importName = i.names.all.map ImportName.tree := by
    rw [tree, nodes_node, children, List.filter_cons_of_neg (by simp),
      List.filter_cons_of_neg (by simp [DottedName.tree]), List.filter_cons_of_neg (by simp)]
    exact i.names.filter_children fun _ => rfl
  rw [namesImport?, hnames, mapM_map_eq ImportName.importName?_tree]
  simp [hplace, hpath, meaning, Listed.all]

namespace Item

variable (items : List Item)

theorem mapM_imports :
    ((items.map Item.tree).filter isImport).mapM Tree.import? = some (items.filterMap Item.import?) := by
  induction items with
  | nil => rfl
  | cons item items ih =>
    rcases item with i | i | u
    · have hi : i.tree.import? = some i.meaning := i.wholeImport?_tree
      simp [Item.tree, show i.tree.isImport from rfl, hi, ih, Item.import?]
    · have hi : i.tree.import? = some i.meaning := i.namesImport?_tree
      simp [Item.tree, show i.tree.isImport from rfl, hi, ih, Item.import?]
    · exact ih

theorem mapM_unions :
    ((items.map Item.tree).filter (is .union)).mapM Tree.union? = some (items.filterMap Item.union?) := by
  induction items with
  | nil => rfl
  | cons item items ih =>
    rcases item with i | i | u
    · exact ih
    · exact ih
    · simp [Item.tree, show u.tree.is .union from rfl, u.union?_tree, ih, Item.union?]

end Item

theorem Schema.ofTree?_tree (s : Schema) : UnionBridge.Schema.ofTree? s.tree = some s.meaning := by
  have himports : (s.tree.children.filter isImport).mapM Tree.import? = some s.meaning.imports :=
    Item.mapM_imports s.items
  have hunions : (s.tree.nodes .union).mapM Tree.union? = some s.meaning.unions := Item.mapM_unions s.items
  simp [UnionBridge.Schema.ofTree?, himports, hunions]

end Phrase

end UnionBridge
