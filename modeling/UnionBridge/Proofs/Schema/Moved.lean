import UnionBridge.Proofs.Schema.RoundTrip
import UnionBridge.Proofs.Schema.Spacing

/-! Where the tokens of a schema stand makes no difference to what it says. The same words in other places make a phrase
of the same form, and it denotes the same but for the places. -/
namespace UnionBridge

open UnionBridge.Tree (leavesOf)

/-- The words of a phrase, however they are placed, make a phrase with the same meaning. -/
def Moves {π μ : Type} (leaves : π → List Token) (m : π → μ) (p : π) : Prop :=
  Writes leaves ((leaves p).map Token.key) fun p' => m p' = m p

namespace Moves

variable {π ρ μ ν : Type} {f : π → List Token} {g : ρ → List Token} {m : π → μ} {n : ρ → ν} {p : π} {q : ρ}

theorem token {k : Terminal} (t : TokenOf k) : Moves (fun t : TokenOf k => [t.1]) TokenOf.word t := by
  intro ts hts
  obtain ⟨t', rfl, ht⟩ := List.map_eq_singleton_iff.mp hts
  refine ⟨⟨t', (congrArg Prod.fst ht).trans t.2⟩, rfl, ?_⟩
  exact congrArg String.ofList (congrArg Prod.snd ht)

theorem append (h : Moves f m p) (h' : Moves g n q) :
    Moves (fun x : π × ρ => f x.1 ++ g x.2) (fun x => (m x.1, n x.2)) (p, q) := by
  have hboth := Writes.append h h'
  rw [← List.map_append] at hboth
  exact hboth.ofType id (fun _ => rfl) fun x hx => Prod.ext hx.1 hx.2

/-- The same tokens in another form. -/
theorem ofType (h : Moves f m p) (toOther : π → ρ) (hq : toOther p = q) (hg : ∀ p, g (toOther p) = f p)
    (hn : ∀ p', m p' = m p → n (toOther p') = n q) : Moves g n q := by
  have hwrites := Writes.ofType (Q := fun q' => n q' = n q) h toOther hg hn
  rwa [← hg, hq] at hwrites

theorem list {ps : List π} (h : ∀ p ∈ ps, Moves f m p) : Moves (fun ps => ps.flatMap f) (List.map m) ps := by
  have hwrites := Writes.list h
  rwa [← List.map_flatMap] at hwrites

theorem optional {o : Option π} (h : ∀ p ∈ o, Moves f m p) : Moves (fun o => (o.map f).getD []) (Option.map m) o := by
  cases o with
  | none =>
    intro ts hts
    exact ⟨none, (List.map_eq_nil_iff.mp hts).symm, rfl⟩
  | some p => exact (h p rfl).ofType some rfl (fun _ => rfl) fun p' hp' => congrArg some hp'

end Moves

namespace Phrase

theorem leavesOf_childrenOf? {α : Type} (f : α → List Tree) (o : Option α) :
    leavesOf (childrenOf? f o) = (o.map fun a => leavesOf (f a)).getD [] := by
  cases o <;> rfl

section Lists

variable {π μ : Type} {tree : π → Tree} {m : π → μ} {left right : Terminal}

theorem Listed.moves {l : Listed π} (h : ∀ p ∈ l.all, Moves (fun p => (tree p).leaves) m p) :
    Moves (fun l : Listed π => leavesOf (l.children tree)) (fun l => l.all.map m) l := by
  have hmore : Moves (fun ps : List (TokenOf .comma × π) => ps.flatMap fun p => [p.1.1] ++ (tree p.2).leaves)
      (List.map fun p => (p.1.word, m p.2)) l.more :=
    .list fun p hp => (Moves.token p.1).append (h p.2 (List.mem_cons_of_mem _ (List.mem_map_of_mem hp)))
  refine ((h l.first List.mem_cons_self).append (hmore.append (.optional fun t _ => Moves.token t))).ofType
    (fun p => ⟨p.1, p.2.1, p.2.2⟩) rfl (fun p => ?_) fun p hp => ?_
  · simp [children, leavesOf, leavesOf_childrenOf?, Tree.leavesOf_flatMap, TokenOf.tree, Tree.leaves]
  · simp only [Prod.mk.injEq] at hp
    have hsnd := congrArg (List.map Prod.snd) hp.2.1
    simp only [List.map_map, Function.comp_def] at hsnd
    simp [all, hp.1, Function.comp_def, hsnd]

theorem Enclosed.moves {e : Enclosed left right π} (h : ∀ p ∈ e.all, Moves (fun p => (tree p).leaves) m p) :
    Moves (fun e : Enclosed left right π => leavesOf (e.children tree)) (fun e => e.all.map m) e := by
  have hinner : Moves (fun o : Option (Listed π) => (o.map fun l => leavesOf (l.children tree)).getD [])
      (Option.map fun l => l.all.map m) e.inner := by
    refine .optional fun l hl => Listed.moves fun p hp => h p ?_
    rw [Enclosed.all, hl]
    exact hp
  refine ((Moves.token e.opening).append (hinner.append (.token e.closing))).ofType (fun p => ⟨p.1, p.2.1, p.2.2⟩) rfl
    (fun p => ?_) fun p hp => ?_
  · simp [children, leavesOf, leavesOf_childrenOf?, TokenOf.tree, Tree.leaves]
  · simp only [Prod.mk.injEq] at hp
    have hall (o : Option (Listed π)) : ((o.map Listed.all).getD []).map m = (o.map fun l => l.all.map m).getD [] := by
      cases o <;> rfl
    simp only [all, hall, hp.2.1]

end Lists

theorem DottedName.moves (d : DottedName) : Moves (fun d : DottedName => d.tree.leaves) meaning d := by
  have hrest : Moves (fun ps : List (TokenOf .dot × TokenOf .name) => ps.flatMap fun p => [p.1.1] ++ [p.2.1])
      (List.map fun p => (p.1.word, p.2.word)) d.rest :=
    .list fun p _ => (Moves.token p.1).append (.token p.2)
  refine ((Moves.token d.head).append hrest).ofType (fun p => ⟨p.1, p.2⟩) rfl (fun p => ?_) fun p hp => ?_
  · simp [tree, children, Tree.leaves, leavesOf, Tree.leavesOf_flatMap, TokenOf.tree]
  · simp only [Prod.mk.injEq] at hp
    have hnames := congrArg (List.map Prod.snd) hp.2
    simp only [List.map_map, Function.comp_def] at hnames
    simp only [meaning, hp.1, hnames]

theorem Argument.moves (a : Argument) : Moves (fun a : Argument => a.tree.leaves) (fun a => a.meaning.unplaced) a := by
  have hsecond : Moves (fun o : Option (TokenOf .equal × DottedName) => (o.map fun p => [p.1.1] ++ p.2.tree.leaves).getD [])
      (Option.map fun p => (p.1.word, p.2.meaning)) a.second :=
    .optional fun p _ => (Moves.token p.1).append p.2.moves
  refine (a.first.moves.append hsecond).ofType (fun p => ⟨p.1, p.2⟩) rfl (fun p => ?_) fun p hp => ?_
  · simp [tree, children, leavesOf_childrenOf?, Tree.leaves, leavesOf, TokenOf.tree]
  · obtain ⟨first, second⟩ := a
    obtain ⟨first', second'⟩ := p
    simp only [Prod.mk.injEq] at hp
    cases second <;> cases second' <;> simp_all [meaning, UnionBridge.Argument.unplaced]

theorem Directive.moves (d : Directive) : Moves (fun d : Directive => d.tree.leaves) (fun d => d.meaning.unplaced) d := by
  have hargs : Moves (fun o : Option (Enclosed .leftParen .rightParen Argument) =>
      (o.map fun e => leavesOf (e.children Argument.tree)).getD [])
      (Option.map fun e => e.all.map fun a => a.meaning.unplaced) d.args :=
    .optional fun e _ => Enclosed.moves fun a _ => a.moves
  refine ((Moves.token d.sign).append ((Moves.token d.name).append hargs)).ofType (fun p => ⟨p.1, p.2.1, p.2.2⟩) rfl
    (fun p => ?_) fun p hp => ?_
  · simp [tree, children, leavesOf_childrenOf?, Tree.leaves, leavesOf, TokenOf.tree]
  · simp only [Prod.mk.injEq] at hp
    have hall (o : Option (Enclosed .leftParen .rightParen Argument)) :
        (((o.map Enclosed.all).getD []).map Argument.meaning).map UnionBridge.Argument.unplaced =
          (o.map fun e => e.all.map fun a => a.meaning.unplaced).getD [] := by
      cases o <;> simp [Function.comp_def]
    simp only [meaning, UnionBridge.Directive.unplaced, hall, hp.2.1, hp.2.2]

theorem TypeRef.moves (t : TypeRef) : Moves (fun t : TypeRef => t.tree.leaves) meaning t :=
  t.path.moves.ofType TypeRef.mk rfl (fun p => by simp [tree, Tree.leaves]) fun _ hp => hp

theorem NamedField.moves (f : NamedField) : Moves (fun f : NamedField => f.tree.leaves) meaning f := by
  refine ((Moves.token f.name).append ((Moves.token f.colon).append f.type.moves)).ofType (fun p => ⟨p.1, p.2.1, p.2.2⟩)
    rfl (fun p => ?_) fun p hp => ?_
  · simp [tree, children, Tree.leaves, leavesOf, TokenOf.tree]
  · simp only [Prod.mk.injEq] at hp
    simp only [meaning, hp.1, hp.2.2]

theorem Fields.moves (f : Fields) : Moves (fun f : Fields => f.tree.leaves) meaning f := by
  cases f with
  | positional types =>
    refine (Enclosed.moves fun t _ => TypeRef.moves t).ofType Fields.positional rfl (fun p => ?_)
      fun p hp => congrArg Body.positional hp
    simp [tree, Tree.leaves]
  | named fields =>
    refine (Enclosed.moves fun f _ => NamedField.moves f).ofType Fields.named rfl (fun p => ?_)
      fun p hp => congrArg Body.named hp
    simp [tree, Tree.leaves]

theorem directives_move (ds : List Directive) :
    Moves (fun ds : List Directive => leavesOf (ds.map Directive.tree))
      (List.map fun d => d.meaning.unplaced) ds :=
  (Moves.list fun d _ => Directive.moves d).ofType id rfl (fun ps => Tree.leavesOf_map _ ps) fun _ hp => hp

theorem Variant.moves (v : Variant) : Moves (fun v : Variant => v.tree.leaves) (fun v => v.meaning.unplaced) v := by
  have hfields : Moves (fun o : Option Fields => (o.map fun f => f.tree.leaves).getD []) (Option.map Fields.meaning)
      v.fields := .optional fun f _ => f.moves
  refine ((directives_move v.directives).append ((Moves.token v.name).append (hfields.append
    (.optional fun t _ => Moves.token t)))).ofType (fun p => ⟨p.1, p.2.1, p.2.2.1, p.2.2.2⟩) rfl (fun p => ?_) fun p hp => ?_
  · simp [tree, children, leavesOf_childrenOf?, Tree.leaves, leavesOf, TokenOf.tree]
  · simp only [Prod.mk.injEq] at hp
    simp only [meaning, UnionBridge.Variant.unplaced, List.map_map, Function.comp_def, hp.1, hp.2.1, hp.2.2.1]

theorem Union.moves (u : Union) : Moves (fun u : Union => u.tree.leaves) (fun u => u.meaning.unplaced) u := by
  have hvariants : Moves (fun vs : List Variant => leavesOf (vs.map Variant.tree))
      (List.map fun v => v.meaning.unplaced) u.variants :=
    (Moves.list fun v _ => Variant.moves v).ofType id rfl (fun ps => Tree.leavesOf_map _ ps) fun _ hp => hp
  refine ((directives_move u.directives).append ((Moves.token u.word).append ((Moves.token u.name).append
    ((Moves.token u.opening).append (hvariants.append (.token u.closing)))))).ofType
    (fun p => ⟨p.1, p.2.1, p.2.2.1, p.2.2.2.1, p.2.2.2.2.1, p.2.2.2.2.2⟩) rfl (fun p => ?_) fun p hp => ?_
  · simp [tree, children, Tree.leaves, leavesOf, TokenOf.tree]
  · simp only [Prod.mk.injEq] at hp
    simp only [meaning, UnionBridge.Union.unplaced, List.map_map, Function.comp_def, hp.1, hp.2.2.1, hp.2.2.2.2.1]

theorem NewName.moves (n : NewName) : Moves (fun n : NewName => leavesOf (NewName.children n)) (fun n => n.2.word) n := by
  refine ((Moves.token n.1).append (.token n.2)).ofType id rfl (fun p => ?_) fun p hp => congrArg Prod.snd hp
  simp [children, Tree.leaves, leavesOf, TokenOf.tree]

theorem ImportName.moves (n : ImportName) : Moves (fun n : ImportName => n.tree.leaves) meaning n := by
  refine ((Moves.token n.name).append (.optional fun q _ => NewName.moves q)).ofType (fun p => ⟨p.1, p.2⟩) rfl
    (fun p => ?_) fun p hp => ?_
  · simp [tree, children, leavesOf_childrenOf?, Tree.leaves, leavesOf, TokenOf.tree]
  · exact hp

theorem WholeImport.moves (i : WholeImport) :
    Moves (fun i : WholeImport => i.tree.leaves) (fun i => i.meaning.unplaced) i := by
  refine ((Moves.token i.word).append (i.module.moves.append (.optional fun q _ => NewName.moves q))).ofType
    (fun p => ⟨p.1, p.2.1, p.2.2⟩) rfl (fun p => ?_) fun p hp => ?_
  · simp [tree, children, leavesOf_childrenOf?, Tree.leaves, leavesOf, TokenOf.tree]
  · simp only [Prod.mk.injEq] at hp
    simp only [meaning, Import.unplaced, hp.2.1, hp.2.2]

theorem NamesImport.moves (i : NamesImport) :
    Moves (fun i : NamesImport => i.tree.leaves) (fun i => i.meaning.unplaced) i := by
  refine ((Moves.token i.word).append (i.module.moves.append ((Moves.token i.importWord).append
    (Listed.moves fun n _ => ImportName.moves n)))).ofType (fun p => ⟨p.1, p.2.1, p.2.2.1, p.2.2.2⟩) rfl (fun p => ?_)
    fun p hp => ?_
  · simp [tree, children, Tree.leaves, leavesOf, TokenOf.tree]
  · simp only [Prod.mk.injEq] at hp
    have hnames := hp.2.2.2
    simp only [Listed.all, List.map_cons, List.cons.injEq, List.map_map, Function.comp_def] at hnames
    simp only [meaning, Import.unplaced, hp.2.1, hnames.1, hnames.2]

theorem Item.moves (i : Item) : Moves (fun i : Item => i.tree.leaves) parts i := by
  cases i with
  | wholeImport i =>
    refine i.moves.ofType Item.wholeImport rfl (fun _ => rfl) fun p hp => ?_
    simp [parts, import?, union?, hp]
  | namesImport i =>
    refine i.moves.ofType Item.namesImport rfl (fun _ => rfl) fun p hp => ?_
    simp [parts, import?, union?, hp]
  | union u =>
    refine u.moves.ofType Item.union rfl (fun _ => rfl) fun p hp => ?_
    simp [parts, import?, union?, hp]

theorem Schema.moves (s : Schema) : Moves Schema.tokens (fun s => s.meaning.unplaced) s := by
  refine (Moves.list fun i _ => Item.moves i).ofType Schema.mk rfl (fun p => ?_) fun p hp => ?_
  · simp [tokens, tree, Tree.leaves, Tree.leavesOf_map]
  · have himports := congrArg (List.filterMap Prod.fst) hp
    have hunions := congrArg (List.filterMap Prod.snd) hp
    simp only [List.filterMap_map, Function.comp_def, Item.parts] at himports hunions
    simp only [meaning, UnionBridge.Schema.unplaced, List.map_filterMap, himports, hunions]

end Phrase

/-! ### Padded texts -/

namespace Parse

/-- The tokens of a text, as far as they can be shifted. -/
def tokensWithin : (fuel : Nat) → Stack → Cursor → List Token
  | 0, _, _ => []
  | fuel + 1, stack, cursor =>
    match Lexer.next (allowed stack.state) cursor with
    | .token t after =>
      match stack.meet t with
      | .shifted next => t :: tokensWithin fuel next after
      | _ => []
    | _ => []

def tokens (source : List Char) : List Token := tokensWithin (source.length + 1) [] ⟨source, {}⟩

theorem tokensWithin_of_reads {fuel : Nat} {stack : Stack} {cursor : Cursor} {ts : List Token}
    (h : Reads stack cursor ts) (hfuel : cursor.rest.length < fuel) : tokensWithin fuel stack cursor = ts := by
  induction fuel generalizing stack cursor ts with
  | zero => exact absurd hfuel (Nat.not_lt_zero _)
  | succ fuel ih =>
    cases ts with
    | nil =>
      rw [Reads] at h
      rw [tokensWithin, h]
    | cons t ts =>
      obtain ⟨after, next, hnext, hm, hreads⟩ := h
      have hlt := Lexer.length_rest_lt hnext
      simp only [tokensWithin, hnext, hm]
      rw [ih hreads (by omega)]

end Parse

namespace Schema

/-- The offsets at which a text begins or ends, or one of its tokens does. -/
def boundaries (source : String) : List Nat :=
  0 :: source.toList.length ::
    (Parse.tokens source.toList).flatMap fun t => [t.start.offset, t.start.offset + t.text.length]

/-- A text with something put in at every offset. -/
def paddedText (pad : Nat → String) (source : String) : String :=
  String.ofList (padded (fun n => (pad n).toList) 0 source.toList)

variable {source : String} {s : Schema} {pad : Nat → String}

/-- Spaces and comments between tokens change the places in a schema and nothing else. -/
theorem parse_padded (hs : parse source = .ok s) (hfiller : ∀ n, Filler (pad n).toList)
    (hpad : ∀ n, n ∉ boundaries source → pad n = "") :
    ∃ s', parse (paddedText pad source) = .ok s' ∧ s'.unplaced = s.unplaced := by
  obtain ⟨tokens, hreads, htokens⟩ := parse_eq_ok_iff.mp hs
  obtain ⟨d, rfl, rfl⟩ := ofTokens_eq_ok_iff.mp htokens
  have htokens : Parse.tokens source.toList = d.tokens := Parse.tokensWithin_of_reads hreads (Nat.lt_succ_self _)
  have hpads : Parse.PadsBounds (fun n => (pad n).toList) 0 source.toList.length d.tokens := by
    intro n hn hsome
    have hmem : n ∈ boundaries source := Decidable.byContradiction fun h => hsome (congrArg String.toList (hpad n h))
    simp only [boundaries, htokens, List.mem_cons, List.mem_flatMap, List.not_mem_nil, or_false] at hmem
    rcases hmem with rfl | hmem
    · omega
    · exact hmem
  obtain ⟨tokens', hkeys, hreads'⟩ := hreads.padded hfiller hpads (Nat.zero_add _) rfl {}
  obtain ⟨d', rfl, hd'⟩ := d.moves tokens' hkeys
  refine ⟨d'.meaning, parse_eq_ok_iff.mpr ⟨d'.tokens, ?_, ofTokens_eq_ok_iff.mpr ⟨d', rfl, rfl⟩⟩, hd'⟩
  rwa [paddedText, String.toList_ofList]

end Schema

end UnionBridge
