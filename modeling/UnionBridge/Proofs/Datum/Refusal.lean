import UnionBridge.Proofs.Datum.Merge

/-! What merging takes and what it refuses. It goes by the shapes of what meets under the same keys, and what it finds
there decides whether it ends well and with which error. -/
namespace UnionBridge.Datum

inductive Shape
  | leaf
  | list
  | dict
  deriving DecidableEq, Repr

def shape : Datum → Shape
  | .leaf _ => .leaf
  | .list _ => .list
  | .dict _ => .dict

/-- A list takes what has items, keys or characters. -/
def Listable (d : Datum) : Prop := d.shape ≠ .leaf ∨ ∃ s, d = .leaf (.text s)

/-- No dictionary that keys lead to has a key twice. -/
def Keyed (d : Datum) : Prop := ∀ path, (d.keysAt path).Nodup

/-- A container, of which keys lead to containers only. -/
def Solid (d : Datum) : Prop := ∀ path e, d.at? path = some e → e.shape ≠ .leaf

/-- Two values that fit together: under all keys that they share are containers of one shape, and what comes under a new
key is solid. -/
structure Agrees (d e : Datum) : Prop where
  shared : ∀ path x y, d.at? path = some x → e.at? path = some y → x.shape = y.shape ∧ x.shape ≠ .leaf
  fresh : ∀ path k x y, d.at? path = some x → x.child? k = none → e.at? (path ++ [k]) = some y → y.Solid

/-- What a merge goes by: dictionaries meet dictionaries and lists meet what they can take. Of what goes into a list
nothing more is asked. -/
structure Takes (d e : Datum) : Prop where
  shared : ∀ path x y, d.at? path = some x → e.at? path = some y →
    x.shape = .dict ∧ y.shape = .dict ∨ x.shape = .list ∧ y.Listable
  fresh : ∀ path k x y, d.at? path = some x → x.shape = .dict → x.child? k = none → e.at? (path ++ [k]) = some y →
    y.Solid

/-- Somewhere a list meets a dictionary or a text. -/
def Pours (d e : Datum) : Prop :=
  ∃ path x y, d.at? path = some x ∧ e.at? path = some y ∧ x.shape = .list ∧ y.shape ≠ .list ∧ y.Listable

/-- Somewhere a dictionary meets something else, and its missing entries are the error. -/
def Balks (d e : Datum) (err : MergeError) : Prop :=
  ∃ path x y, d.at? path = some x ∧ e.at? path = some y ∧ x.shape = .dict ∧ y.shape ≠ .dict ∧
    err = .noEntries y.typeName

variable {d e : Datum} {k : String} {es fs : List (String × Datum)} {err : MergeError}

@[elab_as_elim]
theorem induction_on {motive : Datum → Prop} (leaf : ∀ l, motive (.leaf l)) (list : ∀ items, motive (.list items))
    (dict : ∀ fs, (∀ f ∈ fs, motive f.2) → motive (.dict fs)) : ∀ d, motive d
  | .leaf l => leaf l
  | .list items => list items
  | .dict fs => dict fs fun (k, e) hf =>
    have hsize : sizeOf e < sizeOf (Datum.dict fs) := by
      have hlt := List.sizeOf_lt_of_mem hf
      simp only [Prod.mk.sizeOf_spec, Datum.dict.sizeOf_spec] at hlt ⊢
      omega
    induction_on leaf list dict e
termination_by d => sizeOf d
decreasing_by exact hsize

/-! ### Paths -/

theorem at?_append (d : Datum) (path more : List String) :
    d.at? (path ++ more) = (d.at? path).bind (·.at? more) := by
  induction path generalizing d with
  | nil => rfl
  | cons k path ih =>
    rw [List.cons_append, at?_cons, at?_cons]
    cases d.child? k with
    | none => rfl
    | some e => exact ih e

theorem shape_of_child? (h : d.child? k = some e) : d.shape = .dict := by
  cases d <;> first | rfl | cases h

theorem keyed_list (items : List Datum) : (list items).Keyed := by
  intro path
  cases path <;> exact List.nodup_nil

theorem keyed_dict_iff : (dict fs).Keyed ↔ (fs.map Prod.fst).Nodup ∧ ∀ f ∈ fs, f.2.Keyed := by
  constructor
  · intro h
    have hn : (fs.map Prod.fst).Nodup := h []
    refine ⟨hn, fun f hf path => ?_⟩
    have hc : (dict fs).child? f.1 = some f.2 := Table.get?_of_mem_entries (t := ⟨fs⟩) hn hf
    have hpath := h (f.1 :: path)
    rwa [keysAt_cons, hc] at hpath
  · rintro ⟨hn, hall⟩ path
    cases path with
    | nil => exact hn
    | cons k path =>
      rw [keysAt_cons]
      cases hc : (dict fs).child? k with
      | none => exact List.nodup_nil
      | some e => exact hall _ (Table.mem_entries_of_get? hc) path

theorem solid_dict_iff : (dict fs).Solid ↔ ∀ k e, (dict fs).child? k = some e → e.Solid := by
  constructor
  · intro h k e hc path f hf
    exact h (k :: path) f (by rw [at?_cons, hc]; exact hf)
  · intro h path e he
    cases path with
    | nil =>
      obtain rfl := Option.some.inj he
      exact Shape.noConfusion
    | cons k path =>
      rw [at?_cons, Option.bind_eq_some_iff] at he
      obtain ⟨f, hf, he⟩ := he
      exact h k f hf path e he

theorem Solid.shape_ne (h : d.Solid) : d.shape ≠ .leaf := h [] d rfl

theorem solid_list (items : List Datum) : (list items).Solid := by
  intro path e he
  cases path with
  | nil =>
    obtain rfl := Option.some.inj he
    exact Shape.noConfusion
  | cons k path => cases he

/-! ### What fits, level by level -/

theorem Takes.root (h : d.Takes e) : d.shape = .dict ∧ e.shape = .dict ∨ d.shape = .list ∧ e.Listable :=
  h.shared [] d e rfl rfl

theorem takes_list_iff {items : List Datum} : (list items).Takes e ↔ e.Listable := by
  constructor
  · intro h
    obtain ⟨hdict, _⟩ | ⟨_, h⟩ := h.root
    · cases hdict
    · exact h
  · intro h
    constructor
    · intro path x y hx hy
      cases path with
      | nil =>
        obtain rfl := Option.some.inj hx
        obtain rfl := Option.some.inj hy
        exact .inr ⟨rfl, h⟩
      | cons k path => cases hx
    · intro path k x y hx hdict
      cases path with
      | nil =>
        obtain rfl := Option.some.inj hx
        cases hdict
      | cons k' path => cases hx

theorem takes_dict_iff : (dict es).Takes (dict fs) ↔
    ∀ k y, (dict fs).child? k = some y → ((dict es).child? k).elim y.Solid (·.Takes y) := by
  constructor
  · intro h k y hy
    cases hx : (dict es).child? k with
    | none => exact h.fresh [] k (dict es) y rfl rfl hx (by rw [List.nil_append, at?_cons, hy]; rfl)
    | some x =>
      constructor
      · intro path x' y' hx' hy'
        exact h.shared (k :: path) x' y' (by rw [at?_cons, hx]; exact hx') (by rw [at?_cons, hy]; exact hy')
      · intro path k' x' y' hx' hdict hnone hy'
        exact h.fresh (k :: path) k' x' y' (by rw [at?_cons, hx]; exact hx') hdict hnone
          (by rw [List.cons_append, at?_cons, hy]; exact hy')
  · intro h
    constructor
    · intro path x y hx hy
      cases path with
      | nil =>
        obtain rfl := Option.some.inj hx
        obtain rfl := Option.some.inj hy
        exact .inl ⟨rfl, rfl⟩
      | cons k path =>
        rw [at?_cons, Option.bind_eq_some_iff] at hx hy
        obtain ⟨x', hx', hx⟩ := hx
        obtain ⟨y', hy', hy⟩ := hy
        have hk := h k y' hy'
        rw [hx'] at hk
        exact hk.shared path x y hx hy
    · intro path k x y hx hdict hnone hy
      cases path with
      | nil =>
        obtain rfl := Option.some.inj hx
        rw [List.nil_append, at?_cons, Option.bind_eq_some_iff] at hy
        obtain ⟨y', hy', hy⟩ := hy
        obtain rfl := Option.some.inj hy
        have hk := h k y' hy'
        rwa [hnone] at hk
      | cons k' path =>
        rw [List.cons_append, at?_cons, Option.bind_eq_some_iff] at hy
        rw [at?_cons, Option.bind_eq_some_iff] at hx
        obtain ⟨x', hx', hx⟩ := hx
        obtain ⟨y', hy', hy⟩ := hy
        have hk := h k' y' hy'
        rw [hx'] at hk
        exact hk.fresh path k x y hx hdict hnone hy

theorem takes_empty_iff : (dict []).Takes (dict fs) ↔ (dict fs).Solid := by
  rw [takes_dict_iff, solid_dict_iff]
  rfl

theorem agrees_iff : d.Agrees e ↔ d.Takes e ∧ ¬d.Pours e := by
  constructor
  · intro h
    refine ⟨⟨fun path x y hx hy => ?_, fun path k x y hx _ => h.fresh path k x y hx⟩, ?_⟩
    · obtain ⟨hsame, hne⟩ := h.shared path x y hx hy
      cases hs : x.shape with
      | leaf => exact absurd hs hne
      | list => exact .inr ⟨rfl, .inl (hsame ▸ hne)⟩
      | dict => exact .inl ⟨rfl, hsame ▸ hs⟩
    · rintro ⟨path, x, y, hx, hy, hlist, hne, _⟩
      exact hne ((h.shared path x y hx hy).1 ▸ hlist)
  · rintro ⟨h, hpours⟩
    have hshared (path : List String) (x y : Datum) (hx : d.at? path = some x) (hy : e.at? path = some y) :
        x.shape = y.shape ∧ x.shape ≠ .leaf := by
      obtain ⟨hx', hy'⟩ | ⟨hx', hy'⟩ := h.shared path x y hx hy
      · simp [hx', hy']
      · by_cases hlist : y.shape = .list
        · simp [hx', hlist]
        · exact absurd ⟨path, x, y, hx, hy, hx', hlist, hy'⟩ hpours
    refine ⟨hshared, fun path k x y hx hnone hy => ?_⟩
    -- What has a key stands against a dictionary, so nothing is new under a list.
    rw [at?_append, Option.bind_eq_some_iff] at hy
    obtain ⟨z, hz, hy⟩ := hy
    have hdict : x.shape = .dict := by
      rw [(hshared path x z hx hz).1]
      rw [at?_cons, Option.bind_eq_some_iff] at hy
      obtain ⟨_, hchild, _⟩ := hy
      exact shape_of_child? hchild
    exact h.fresh path k x y hx hdict hnone (by rw [at?_append, hz]; exact hy)

/-! ### Where a merge stops -/

/-- What keeps an entry from being merged into others, if anything does. -/
def refusal? (es : List (String × Datum)) (f : String × Datum) : Option MergeError :=
  match (dict es).child? f.1 with
  | some present => (present.mergeIn f.2).2
  | none =>
    match f.2.emptyLike with
    | .ok fresh => (fresh.mergeIn f.2).2
    | .error err => some err

theorem refusal?_setEntry {f : String × Datum} (h : f.1 ≠ k) : refusal? (setEntry k d es) f = refusal? es f := by
  have hchild : (dict (setEntry k d es)).child? f.1 = (dict es).child? f.1 := by
    rw [setEntry_eq, child?, Table.get?_alterEntries, if_neg (Ne.symm h)]
    rfl
  rw [refusal?, hchild, refusal?]

/-- Merging entries stops at the first one that is refused. -/
theorem snd_mergeEntries (hn : (fs.map Prod.fst).Nodup) : (mergeEntries es fs).2 = fs.findSome? (refusal? es) := by
  induction fs generalizing es with
  | nil => rfl
  | cons f fs ih =>
    obtain ⟨k, v⟩ := f
    rw [List.map_cons, List.nodup_cons] at hn
    have hrest (d : Datum) : (mergeEntries (setEntry k d es) fs).2 = fs.findSome? (refusal? es) := by
      rw [ih hn.2, ← List.head?_filterMap, ← List.head?_filterMap]
      refine congrArg List.head? (List.filterMap_congr fun f hf => refusal?_setEntry ?_)
      rintro rfl
      exact hn.1 (List.mem_map.mpr ⟨f, hf, rfl⟩)
    rw [mergeEntries, List.findSome?_cons, refusal?, child?, Table.get?]
    cases hfind : es.find? fun e => e.1 = k with
    | some found =>
      obtain ⟨k', present⟩ := found
      cases hm : present.mergeIn v with
      | mk out stopped =>
        cases stopped with
        | none => simp [hm, hrest]
        | some err => simp [hm]
    | none =>
      cases hfresh : v.emptyLike with
      | error err => simp
      | ok fresh =>
        cases hm : fresh.mergeIn v with
        | mk out stopped =>
          cases stopped with
          | none => simp [hm, hrest]
          | some err => simp [hm]

/-! ### Outcomes -/

/-- How a merge ends: well exactly if the left side takes the right one, and else with an error of type, unless a
dictionary meets something else. -/
structure Settles (d e : Datum) : Prop where
  accepts : (d.mergeIn e).2 = none ↔ d.Takes e
  refuses : ∀ err, (d.mergeIn e).2 = some err → err.kind = .typeError ∨ d.Balks e err

theorem settles_leaf (l : Leaf) (e : Datum) : (leaf l).Settles e where
  accepts := by
    rw [mergeIn]
    refine iff_of_false (by rintro ⟨⟩) fun h => ?_
    obtain ⟨h, _⟩ | ⟨h, _⟩ := h.root <;> cases h
  refuses err h := by
    rw [mergeIn] at h
    obtain rfl := Option.some.inj h
    exact .inl rfl

theorem exists_listed_iff : (∃ more, e.listed = .ok more) ↔ e.Listable := by
  cases e with
  | leaf l => cases l <;> simp [listed, Listable, shape]
  | list more => simp [listed, Listable, shape]
  | dict fs => simp [listed, Listable, shape]

theorem kind_of_listed (h : e.listed = .error err) : err.kind = .typeError := by
  cases e with
  | leaf l => cases l <;> cases h <;> rfl
  | list more => cases h
  | dict fs => cases h

theorem settles_list (items : List Datum) (e : Datum) : (list items).Settles e where
  accepts := by
    rw [takes_list_iff, ← exists_listed_iff, mergeIn]
    cases e.listed <;> simp
  refuses err h := by
    rw [mergeIn] at h
    cases hl : e.listed with
    | ok more => simp [hl] at h
    | error err' =>
      simp only [hl, Option.some.injEq] at h
      exact .inl (h ▸ kind_of_listed hl)

/-- What is no dictionary has no entries. -/
theorem settles_of_shape_ne (h : e.shape ≠ .dict) : (dict es).Settles e := by
  have hm : (dict es).mergeIn e = (dict es, some (.noEntries e.typeName)) := by
    cases e <;> first | rfl | exact absurd rfl h
  constructor
  · rw [hm]
    refine ⟨fun h => (nomatch h), fun ht => ?_⟩
    obtain ⟨_, hdict⟩ | ⟨hlist, _⟩ := ht.root
    · exact absurd hdict h
    · cases hlist
  · intro err herr
    rw [hm] at herr
    exact .inr ⟨[], _, e, rfl, rfl, rfl, h, (Option.some.inj herr).symm⟩

/-- An entry with a new key is merged into an empty container. -/
theorem not_balks_empty : ¬(dict []).Balks (dict fs) err := by
  rintro ⟨path, x, y, hx, hy, _, hne, _⟩
  cases path with
  | nil =>
    obtain rfl := Option.some.inj hy
    exact hne rfl
  | cons k path => cases hx

theorem refusal?_eq_none_iff {f : String × Datum} (h : ∀ d : Datum, d.Settles f.2) :
    refusal? es f = none ↔ ((dict es).child? f.1).elim f.2.Solid (·.Takes f.2) := by
  obtain ⟨k, v⟩ := f
  rw [refusal?]
  cases (dict es).child? k with
  | some present => exact (h present).accepts
  | none =>
    cases v with
    | leaf l => exact ⟨fun h => (nomatch h), fun h => absurd rfl h.shape_ne⟩
    | list items => exact ⟨fun _ => solid_list items, fun _ => rfl⟩
    | dict fs => exact (h (dict [])).accepts.trans takes_empty_iff

theorem kind_of_refusal? {f : String × Datum} (h : ∀ d : Datum, d.Settles f.2) (hr : refusal? es f = some err) :
    err.kind = .typeError ∨ ∃ x, (dict es).child? f.1 = some x ∧ x.Balks f.2 err := by
  obtain ⟨k, v⟩ := f
  rw [refusal?] at hr
  cases hx : (dict es).child? k with
  | some present =>
    rw [hx] at hr
    exact ((h present).refuses err hr).imp_right fun hb => ⟨present, rfl, hb⟩
  | none =>
    rw [hx] at hr
    left
    cases v with
    | leaf l =>
      obtain rfl := Option.some.inj hr
      rfl
    | list items => cases hr
    | dict fs => exact ((h (dict [])).refuses err hr).resolve_right not_balks_empty

theorem settles_dict (hn : (fs.map Prod.fst).Nodup) (h : ∀ f ∈ fs, ∀ d : Datum, d.Settles f.2) :
    (dict es).Settles (dict fs) := by
  have hm : ((dict es).mergeIn (dict fs)).2 = fs.findSome? (refusal? es) := by
    rw [mergeIn]
    exact snd_mergeEntries hn
  have hchild {k : String} {v : Datum} : (dict fs).child? k = some v ↔ (k, v) ∈ fs :=
    (Table.mem_entries_iff (t := ⟨fs⟩) hn).symm
  constructor
  · rw [hm, List.findSome?_eq_none_iff, takes_dict_iff]
    constructor
    · intro hall k v hv
      exact (refusal?_eq_none_iff (h _ (hchild.mp hv))).mp (hall _ (hchild.mp hv))
    · intro hall f hf
      exact (refusal?_eq_none_iff (h f hf)).mpr (hall f.1 f.2 (hchild.mpr hf))
  · intro err herr
    rw [hm] at herr
    obtain ⟨f, hf, hr⟩ := List.exists_of_findSome?_eq_some herr
    refine (kind_of_refusal? (h f hf) hr).imp_right ?_
    rintro ⟨x, hx, path, x', y', hx', hy', hb⟩
    exact ⟨f.1 :: path, x', y', by rw [at?_cons, hx]; exact hx', by rw [at?_cons, hchild.mpr hf]; exact hy', hb⟩

theorem settles_of_keyed (he : e.Keyed) (d : Datum) : d.Settles e := by
  induction e using induction_on generalizing d with
  | leaf l =>
    cases d with
    | leaf l' => exact settles_leaf l' _
    | list items => exact settles_list items _
    | dict es => exact settles_of_shape_ne Shape.noConfusion
  | list more =>
    cases d with
    | leaf l' => exact settles_leaf l' _
    | list items => exact settles_list items _
    | dict es => exact settles_of_shape_ne Shape.noConfusion
  | dict fs ih =>
    cases d with
    | leaf l' => exact settles_leaf l' _
    | list items => exact settles_list items _
    | dict es =>
      obtain ⟨hn, hall⟩ := keyed_dict_iff.mp he
      exact settles_dict hn fun f hf d => ih f hf (hall f hf) d

/-- A merge ends well, and without a list taking keys or characters for items, exactly if the two values agree: they
have containers of one shape under all keys that they share, and containers all the way down under each new key.
Whatever does not agree is refused with an error of type, unless a list takes a dictionary or a text, or a dictionary
meets something else. -/
theorem mergeIn_outcome (he : e.Keyed) (d : Datum) :
    (d.Agrees e ↔ (d.mergeIn e).2 = none ∧ ¬d.Pours e) ∧
    ((d.mergeIn e).2 = none ↔ d.Takes e) ∧
    ∀ err, (d.mergeIn e).2 = some err → ¬d.Agrees e ∧ (err.kind = .typeError ∨ d.Balks e err) := by
  obtain ⟨haccepts, hrefuses⟩ := settles_of_keyed he d
  refine ⟨by rw [haccepts, agrees_iff], haccepts, fun err herr => ⟨fun hagrees => ?_, hrefuses err herr⟩⟩
  have hnone := haccepts.mpr (agrees_iff.mp hagrees).1
  rw [hnone] at herr
  cases herr

theorem mergeIn_outcome_nested :
    let existing : Datum := .dict [("a", .dict [("x", .list [.leaf (.int 1)])]), ("b", .dict [("y", .list [])])]
    let incoming : Datum := .dict [("a", .dict [("x", .list []), ("z", .list [])]), ("c", .dict [("w", .list [])])]
    incoming.Keyed ∧ existing.Takes incoming ∧ ¬(dict [("a", .leaf (.int 1))]).Agrees incoming := by
  intro existing incoming
  have hkeyed : incoming.Keyed := by simp [incoming, keyed_dict_iff, keyed_list]
  obtain ⟨_, haccepts, _⟩ := mergeIn_outcome hkeyed existing
  obtain ⟨_, _, hrefuses⟩ := mergeIn_outcome hkeyed (dict [("a", .leaf (.int 1))])
  exact ⟨hkeyed, haccepts.mp rfl, (hrefuses (.unmergeable "int") rfl).1⟩

/-- A number where the left side has a dictionary is refused for what it does not have, and a text where it has a list
is taken apart. -/
theorem mergeIn_mixed :
    (∃ err, ((dict [("k", .dict [])]).mergeIn (.dict [("k", .leaf (.int 1))])).2 = some err ∧ err.kind ≠ .typeError) ∧
      ((list []).mergeIn (.leaf (.text "ab"))).2 = none ∧ ¬(list []).Agrees (.leaf (.text "ab")) := by
  refine ⟨⟨.noEntries "int", rfl, by decide⟩, rfl, fun h => ?_⟩
  have hshape := (h.shared [] _ _ rfl rfl).1
  cases hshape

end UnionBridge.Datum
