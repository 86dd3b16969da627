import UnionBridge.Proofs.Schema.Machine

/-! What the machine accepts is what the grammar derives. A stack that holds only complete derivations keeps doing so,
and a derivation can be followed token by token. -/
namespace UnionBridge

namespace Tree

mutual

/-- The tokens under a tree, in order. -/
def leaves : Tree → List Token
  | .leaf t => [t]
  | .node _ children => leavesOf children

def leavesOf : List Tree → List Token
  | [] => []
  | t :: rest => leaves t ++ leavesOf rest

end

@[simp] theorem leavesOf_append (ts us : List Tree) : leavesOf (ts ++ us) = leavesOf ts ++ leavesOf us := by
  induction ts with
  | nil => rfl
  | cons t ts ih => rw [List.cons_append, leavesOf, leavesOf, ih, List.append_assoc]

@[simp] theorem leavesOf_singleton (t : Tree) : leavesOf [t] = t.leaves := List.append_nil _

theorem leavesOf_spliced (t : Tree) : leavesOf t.spliced = t.leaves := by
  cases t with
  | leaf t => rfl
  | node n children =>
    rw [spliced]
    split
    · rfl
    · exact leavesOf_singleton _

@[simp] theorem leaves_build (n : Nonterminal) (ts : List Tree) : (build n ts).leaves = leavesOf ts := by
  rw [build, leaves]
  induction ts with
  | nil => rfl
  | cons t ts ih => rw [List.flatMap_cons, leavesOf_append, leavesOf_spliced, ih, leavesOf]

end Tree

open UnionBridge.Tree (leavesOf)

/-- Derivations of some symbols, as trees: one for each symbol. -/
inductive Derives : List GrammarSymbol → List Tree → Prop
  | nil : Derives [] []
  | token {k : Terminal} {t : Token} {Xs : List GrammarSymbol} {ts : List Tree} (hk : t.terminal = k)
      (h : Derives Xs ts) : Derives (.t k :: Xs) (.leaf t :: ts)
  | rule {i : Nat} {r : Rule} {n : Nonterminal} {Xs : List GrammarSymbol} {cs ts : List Tree}
      (hr : rules[i]? = some r) (hn : r.left = n) (hcs : Derives r.right cs) (h : Derives Xs ts) :
      Derives (.n n :: Xs) (Tree.build n cs :: ts)

variable {Xs Ys : List GrammarSymbol} {ts us : List Tree}

theorem Derives.append (h : Derives Xs ts) (h' : Derives Ys us) : Derives (Xs ++ Ys) (ts ++ us) := by
  induction h with
  | nil => exact h'
  | token hk _ ih => exact .token hk ih
  | rule hr hn hcs _ _ ih => exact .rule hr hn hcs ih

theorem Derives.length_eq (h : Derives Xs ts) : Xs.length = ts.length := by
  induction h with
  | nil => rfl
  | token _ _ ih | rule _ _ _ _ _ ih => rw [List.length_cons, ih, List.length_cons]

/-! ### Stacks of derivations -/

namespace Stack

variable {stack next : Stack} {t : Token} {tree : Tree} {i : Nat}

/-- Every frame holds a derivation of the symbol that leads to its state. -/
inductive Holds : Stack → Prop
  | nil : Holds []
  | cons {stack : Stack} {X : GrammarSymbol} {q : Nat} {tree : Tree} (h : Holds stack)
      (hq : (stateRow stack.state).next? X = some q) (htree : Derives [X] [tree]) : Holds (⟨q, tree⟩ :: stack)

/-- The tokens that are on the stack. -/
def leaves (stack : Stack) : List Token := leavesOf (stack.reverse.map Frame.tree)

theorem leaves_cons (frame : Frame) (stack : Stack) : leaves (frame :: stack) = stack.leaves ++ frame.tree.leaves := by
  simp [leaves]

theorem leaves_drop (stack : Stack) (n : Nat) :
    leaves (stack.drop n) ++ leavesOf ((stack.take n).reverse.map Frame.tree) = stack.leaves := by
  rw [leaves, leaves, ← Tree.leavesOf_append, ← List.map_append, ← List.reverse_append, List.take_append_drop]

theorem Holds.drop (h : Holds stack) (n : Nat) : Holds (stack.drop n) := by
  induction h generalizing n with
  | nil => simpa using Holds.nil
  | cons h hq htree ih =>
    cases n with
    | zero => exact .cons h hq htree
    | succ n => exact ih n

/-- The frames on top of a stack are derivations of the symbols with which its state must have been reached. -/
theorem Holds.derives_of_backs (h : Holds stack) (hback : backs stack.state Xs) :
    Derives Xs.reverse ((stack.take Xs.length).reverse.map Frame.tree) := by
  induction Xs generalizing stack with
  | nil => simpa using Derives.nil
  | cons X Xs ih =>
    cases h with
    | nil => exact absurd hback backs_zero
    | cons h hq htree =>
      obtain ⟨rfl, hbelow⟩ := backs_cons hback hq
      simpa using (ih h hbelow).append htree

/-- What a reduction leaves is a stack of derivations of the same tokens. -/
theorem Holds.reduce (h : Holds stack) (ha : (stateRow stack.state).action? t.terminal = some (.reduce i))
    (hr : stack.reduce? i = some next) : Holds next ∧ next.leaves = stack.leaves := by
  obtain ⟨on, hon, -⟩ := StateRow.reduction_of_action? ha
  obtain ⟨r, target, hrule, hle, hgo, rfl⟩ := reduce?_eq_some_iff.mp hr
  have hright : Derives r.right ((stack.take r.right.length).reverse.map Frame.tree) := by
    have hback := h.derives_of_backs (backs_of_reduction hon hrule)
    rwa [List.reverse_reverse, List.length_reverse] at hback
  have hnext : (stateRow (state (stack.drop r.right.length))).next? (.n r.left) = some target := hgo
  refine ⟨.cons (h.drop _) hnext (.rule hrule rfl hright .nil), ?_⟩
  rw [leaves_cons, Tree.leaves_build, leaves_drop]

theorem Holds.shift (h : Holds stack) (hm : stack.meet t = .shifted next) :
    Holds next ∧ next.leaves = stack.leaves ++ [t] := by
  refine meet_induction t (P := fun stack a => stack.Holds → a = .shifted next →
    Holds next ∧ next.leaves = stack.leaves ++ [t]) ?_ ?_ ?_ ?_ ?_ stack h hm
  · rintro _ _ _ ⟨⟩
  · rintro stack q ha h ⟨⟩
    refine ⟨.cons h (StateRow.next?_of_action? ha) (.token rfl .nil), ?_⟩
    rw [leaves_cons, Tree.leaves]
  · rintro _ _ _ _ _ ⟨⟩
  · rintro _ _ _ _ _ _ _ _ ⟨⟩
  · intro stack i frame below ha hr _ ih h hm
    obtain ⟨hnext, hleaves⟩ := h.reduce ha hr
    rw [← hleaves]
    exact ih hnext hm

/-- Nothing lies under the start state. -/
theorem Holds.eq_nil (h : Holds stack) (hs : stack.state = 0) : stack = [] := by
  cases h with
  | nil => rfl
  | cons _ hq _ =>
    obtain rfl : _ = 0 := hs
    exact absurd hq next?_ne_zero

theorem Holds.accept (h : Holds stack) (hm : stack.meet t = .accepted tree) :
    Derives [.n .schema] [tree] ∧ tree.leaves = stack.leaves := by
  refine meet_induction t (P := fun stack a => stack.Holds → a = .accepted tree →
    Derives [.n .schema] [tree] ∧ tree.leaves = stack.leaves) ?_ ?_ ?_ ?_ ?_ stack h hm
  · rintro _ _ _ ⟨⟩
  · rintro _ _ _ _ ⟨⟩
  · rintro _ _ _ _ _ ⟨⟩
  · rintro stack i frame below ha hr hfinal h ⟨⟩
    obtain ⟨hnext, hleaves⟩ := h.reduce ha hr
    cases hnext with
    | cons hbelow hq htree =>
      obtain rfl : _ = finalState := hfinal
      obtain ⟨rfl, hzero⟩ := predecessors_final hq
      obtain rfl := hbelow.eq_nil hzero
      exact ⟨htree, by simpa [leaves] using hleaves⟩
  · intro stack i frame below ha hr _ ih h hm
    obtain ⟨hnext, hleaves⟩ := h.reduce ha hr
    rw [← hleaves]
    exact ih hnext hm

end Stack

/-! ### Following a derivation -/

variable {R : Nat → Token → Prop} {q q' e e' : Nat}

/-- A way through the states along a derivation. Beside the state of the whole stack it keeps the state after the last
shift, in which the next token has been read. -/
inductive Walk (R : Nat → Token → Prop) : Nat → Nat → List GrammarSymbol → List Tree → Nat → Nat → Prop
  | nil {q e : Nat} : Walk R q e [] [] q e
  | token {q e p q' e' : Nat} {k : Terminal} {t : Token} {Xs : List GrammarSymbol} {ts : List Tree}
      (hk : t.terminal = k) (hp : (stateRow q).next? (.t k) = some p) (hR : R e t) (h : Walk R p p Xs ts q' e') :
      Walk R q e (.t k :: Xs) (.leaf t :: ts) q' e'
  | rule {q e p q₁ e₁ q' e' i : Nat} {r : Rule} {n : Nonterminal} {Xs : List GrammarSymbol} {cs ts : List Tree}
      (hr : rules[i]? = some r) (hn : r.left = n) (hcs : Walk R q e r.right cs q₁ e₁)
      (hp : (stateRow q).next? (.n n) = some p) (h : Walk R p e₁ Xs ts q' e') :
      Walk R q e (.n n :: Xs) (Tree.build n cs :: ts) q' e'

theorem Walk.path (h : Walk R q e Xs ts q' e') : path? q Xs = some q' := by
  induction h with
  | nil => rfl
  | token _ hp _ _ ih => rw [path?, hp, Option.bind_some, ih]
  | rule _ _ _ hp _ _ ih => rw [path?, hp, Option.bind_some, ih]

/-- Symbols that all may stand where they are met. -/
def Along (K : Nat → GrammarSymbol → Prop) (q : Nat) : List GrammarSymbol → Prop
  | [] => True
  | X :: Xs => K q X ∧ ∀ p, (stateRow q).next? X = some p → Along K p Xs

/-- A bound on the states in which tokens are read when the whole stack is in some state. -/
structure Bounds (E : Nat → Nat → Prop) : Prop where
  shift : ∀ {q k p}, (stateRow q).next? (.t k) = some p → E p p
  reduce : ∀ {i : Nat} {r : Rule} {q q₁ p e : Nat}, rules[i]? = some r → path? q r.right = some q₁ →
    (stateRow q).next? (.n r.left) = some p → E q₁ e → E p e

/-- A derivation along a path is a way through the states, provided that its tokens can be read where the bound lets
them be read. -/
theorem Walk.of_derives {K : Nat → GrammarSymbol → Prop} {E : Nat → Nat → Prop} (hE : Bounds E)
    (hrule : ∀ (q i : Nat) (r : Rule), K q (.n r.left) → rules[i]? = some r → Along K q r.right)
    (hR : ∀ q e p (t : Token), K q (.t t.terminal) → (stateRow q).next? (.t t.terminal) = some p → E q e → R e t)
    (h : Derives Xs ts) (hq : path? q Xs = some q') (hK : Along K q Xs) (he : E q e) :
    ∃ e', Walk R q e Xs ts q' e' ∧ E q' e' := by
  induction h generalizing q q' e with
  | nil =>
    cases hq
    exact ⟨e, .nil, he⟩
  | @token k t Xs ts hk _ ih =>
    subst hk
    obtain ⟨p, hp, hq⟩ := Option.bind_eq_some_iff.mp hq
    obtain ⟨e', hwalk, he'⟩ := ih hq (hK.2 p hp) (hE.shift hp)
    exact ⟨e', .token rfl hp (hR q e p t hK.1 hp he) hwalk, he'⟩
  | @rule i r n Xs cs ts hr hn _ _ ihcs ih =>
    subst hn
    obtain ⟨p, hp, hq⟩ := Option.bind_eq_some_iff.mp hq
    obtain ⟨q₁, hq₁, _⟩ := exists_path hr hp
    obtain ⟨e₁, hwalk₁, he₁⟩ := ihcs hq₁ (hrule q i r hK.1 hr) he
    obtain ⟨e', hwalk, he'⟩ := ih hq (hK.2 p hp) (hE.reduce hr hq₁ hp he₁)
    exact ⟨e', .rule hr rfl hwalk₁ hp hwalk, he'⟩

namespace Stack

variable {top stack : Stack}

/-- A stack that will become another one as soon as it meets a token that the other has an action for. -/
def Leads (top stack : Stack) : Prop :=
  ∀ t : Token, t.terminal ∈ (stateRow stack.state).terminals → top.meet t = stack.meet t

/-- One token after the other is shifted, each read in the state of the shift before it. -/
inductive Runs (R : Nat → Token → Prop) : Stack → List Token → Stack → Prop
  | nil {stack : Stack} : Runs R stack [] stack
  | cons {stack next last : Stack} {t : Token} {ts : List Token} (hR : R stack.state t)
      (hm : stack.meet t = .shifted next) (h : Runs R next ts last) : Runs R stack (t :: ts) last

theorem Runs.append {mid last : Stack} {ts us : List Token} (h : Runs R stack ts mid) (h' : Runs R mid us last) :
    Runs R stack (ts ++ us) last := by
  induction h with
  | nil => exact h'
  | cons hR hm _ ih => exact .cons hR hm (ih h')

/-- Frames with the derivations of a right side on them are replaced by one for the left side. -/
theorem reduce?_append {frames : Stack} {i p : Nat} {r : Rule} (hr : rules[i]? = some r)
    (hframes : frames.length = r.right.length) (hp : (stateRow stack.state).next? (.n r.left) = some p) :
    reduce? (frames ++ stack) i = some (⟨p, Tree.build r.left (frames.reverse.map Frame.tree)⟩ :: stack) := by
  refine reduce?_eq_some_iff.mpr ⟨r, p, hr, ?_, ?_, ?_⟩
  · rw [List.length_append]
    omega
  · rwa [← hframes, List.drop_left]
  · rw [← hframes, List.drop_left, List.take_left]

/-- Along a way through the states the tokens are shifted, and its trees come to lie on the stack. -/
theorem exists_runs (h : Walk R q e Xs ts q' e') (htop : top.state = e) (hstack : stack.state = q)
    (hleads : top.Leads stack) :
    ∃ top' frames : Stack, Runs R top (leavesOf ts) top' ∧ top'.state = e' ∧ frames.reverse.map Frame.tree = ts ∧
      frames.length = Xs.length ∧ state (frames ++ stack) = q' ∧ top'.Leads (frames ++ stack) := by
  induction h generalizing top stack with
  | nil => exact ⟨top, [], .nil, htop, rfl, rfl, hstack, hleads⟩
  | @token q e p q' e' k t Xs ts hk hp hR _ ih =>
    have ha : (stateRow stack.state).action? t.terminal = some (.shift p) := by
      rw [hstack, hk]
      exact StateRow.action?_of_next? hp
    have hm : top.meet t = .shifted (⟨p, .leaf t⟩ :: stack) := by
      rw [hleads t (StateRow.mem_terminals (by rw [ha]; rfl)), meet_of_shift ha]
    obtain ⟨top', frames, hruns, htop', htrees, hlen, hstate, hleads'⟩ :=
      @ih (⟨p, .leaf t⟩ :: stack) (⟨p, .leaf t⟩ :: stack) rfl rfl (fun _ _ => rfl)
    refine ⟨top', frames ++ [⟨p, .leaf t⟩], .cons (htop ▸ hR) hm hruns, htop', ?_, ?_, ?_, ?_⟩
    · simp [htrees]
    · simp [hlen]
    · simpa using hstate
    · simpa using hleads'
  | @rule q e p q₁ e₁ q' e' i r n Xs cs ts hr hn hcs hp _ ihcs ih =>
    subst hn
    obtain ⟨top₁, frames₁, hruns₁, htop₁, htrees₁, hlen₁, hstate₁, hleads₁⟩ := ihcs htop hstack hleads
    have hreduce := reduce?_append hr hlen₁ (hstack ▸ hp)
    rw [htrees₁] at hreduce
    have hleads₂ : top₁.Leads (⟨p, Tree.build r.left cs⟩ :: stack) := by
      intro t ht
      obtain ⟨q₂, hq₂, hall⟩ := exists_path hr hp
      obtain rfl := Option.some.inj (hq₂.symm.trans hcs.path)
      have ha : (stateRow (state (frames₁ ++ stack))).action? t.terminal = some (.reduce i) := by
        rw [hstate₁]
        exact hall _ ht
      have hfinal : p ≠ finalState := by
        rintro rfl
        exact absurd ht (List.not_mem_nil)
      rw [hleads₁ t (StateRow.mem_terminals (by rw [ha]; rfl)), meet_of_reduce ha hreduce hfinal]
    obtain ⟨top', frames, hruns, htop', htrees, hlen, hstate, hleads'⟩ :=
      @ih top₁ (⟨p, Tree.build r.left cs⟩ :: stack) htop₁ rfl hleads₂
    refine ⟨top', frames ++ [⟨p, Tree.build r.left cs⟩], ?_, htop', ?_, ?_, ?_, ?_⟩
    · rw [leavesOf, Tree.leaves_build]
      exact hruns₁.append hruns
    · simp [htrees]
    · simp [hlen]
    · simpa using hstate
    · simpa using hleads'

/-- A way through the states along a whole schema ends in accepting it. -/
theorem exists_runs_accepted {i : Nat} {r : Rule} {cs : List Tree} (hr : rules[i]? = some r) (hleft : r.left = .schema)
    (h : Walk R 0 0 r.right cs q' e') :
    ∃ top : Stack, Runs R [] (leavesOf cs) top ∧ top.state = e' ∧
      ∀ t : Token, t.terminal = .finish → top.meet t = .accepted (Tree.build .schema cs) := by
  have hnil : state [] = 0 := rfl
  obtain ⟨top, frames, hruns, htop, htrees, hlen, hstate, hleads⟩ :=
    exists_runs h hnil hnil (fun _ _ => rfl)
  refine ⟨top, hruns, htop, fun t ht => ?_⟩
  obtain ⟨q₂, hq₂, ha⟩ := exists_path_schema hr hleft
  obtain rfl := Option.some.inj (hq₂.symm.trans h.path)
  rw [← hstate, ← ht] at ha
  have hgoto : (stateRow (state [])).next? (.n r.left) = some finalState := hleft ▸ goto_schema
  have hreduce := reduce?_append hr hlen hgoto
  rw [htrees, hleft] at hreduce
  rw [hleads t (StateRow.mem_terminals (by rw [ha]; rfl)), meet_of_final ha hreduce rfl]

end Stack

/-! ### Whole token sequences -/

namespace Parse

/-- Parses tokens that are already read. -/
def ofTokens (stack : Stack) (last : Position) : List Token → Except ParseFailure Tree
  | [] =>
    match stack.meet (finishToken last) with
    | .accepted tree => .ok tree
    | .refused expected => .error (.unexpectedToken (finishToken last) expected)
    | _ => .error .stuck
  | t :: ts =>
    match stack.meet t with
    | .shifted next => ofTokens next t.start ts
    | .refused expected => .error (.unexpectedToken t expected)
    | _ => .error .stuck

variable {stack : Stack} {last : Position} {tokens : List Token} {tree : Tree}

theorem derives_of_ofTokens (hs : stack.Holds) (h : ofTokens stack last tokens = .ok tree) :
    Derives [.n .schema] [tree] ∧ tree.leaves = stack.leaves ++ tokens := by
  induction tokens generalizing stack last with
  | nil =>
    rw [ofTokens] at h
    split at h
    · rename_i hm
      cases h
      rw [List.append_nil]
      exact hs.accept hm
    · cases h
    · cases h
  | cons t tokens ih =>
    rw [ofTokens] at h
    split at h
    · rename_i next hm
      obtain ⟨hnext, hleaves⟩ := hs.shift hm
      obtain ⟨hd, hl⟩ := ih hnext h
      exact ⟨hd, by rw [hl, hleaves, List.append_assoc, List.singleton_append]⟩
    · cases h
    · cases h

theorem ofTokens_of_runs {top : Stack} (h : stack.Runs R tokens top)
    (haccept : ∀ t : Token, t.terminal = .finish → top.meet t = .accepted tree) :
    ofTokens stack last tokens = .ok tree := by
  induction h generalizing last with
  | nil => rw [ofTokens, haccept _ rfl]
  | cons _ hm _ ih => rw [ofTokens, hm]; exact ih haccept

/-- A sequence of tokens is accepted with a tree exactly if the tree is a derivation of a schema from the tokens. -/
theorem ofTokens_eq_ok_iff :
    ofTokens [] last tokens = .ok tree ↔ Derives [.n .schema] [tree] ∧ tree.leaves = tokens := by
  constructor
  · intro h
    simpa [Stack.leaves, leavesOf] using derives_of_ofTokens .nil h
  · rintro ⟨h, rfl⟩
    cases h with
    | @rule i r _ _ cs _ hr hn hcs hnil =>
      cases hnil
      obtain ⟨q, hq, _⟩ := exists_path_schema hr hn
      have halong : ∀ (Xs : List GrammarSymbol) (q : Nat), Along (fun _ _ => True) q Xs := by
        intro Xs
        induction Xs with
        | nil => exact fun _ => trivial
        | cons X Xs ih => exact fun q => ⟨trivial, fun p _ => ih p⟩
      have hbounds : Bounds fun _ _ => True := ⟨fun _ => trivial, fun _ _ _ _ => trivial⟩
      obtain ⟨e, hwalk, _⟩ := Walk.of_derives (R := fun _ _ => True) hbounds (fun q _ r _ _ => halong r.right q)
        (fun _ _ _ _ _ _ _ => trivial) hcs hq (halong _ _) (e := 0) trivial
      obtain ⟨top, hruns, _, haccept⟩ := Stack.exists_runs_accepted hr hn hwalk
      rw [Tree.leaves_build]
      exact ofTokens_of_runs hruns haccept

end Parse

end UnionBridge
