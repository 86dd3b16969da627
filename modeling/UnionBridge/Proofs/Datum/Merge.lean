import UnionBridge.Datum.Merge
import UnionBridge.Proofs.Table

/-! Containers of one shape form a monoid under merging. At every path the lists are joined end to end, and a key stands
where it first appeared. -/
namespace UnionBridge

/-! ### Ordered tables -/

namespace Table

variable {κ α : Type} [DecidableEq κ] {t u : Table κ α}

/-- A table is given by the order of its keys and by what it holds under each of them. -/
theorem ext_get? (ht : t.keys.Nodup) (hk : t.keys = u.keys) (hg : ∀ k, t.get? k = u.get? k) : t = u := by
  obtain ⟨es⟩ := t
  obtain ⟨fs⟩ := u
  induction es generalizing fs with
  | nil =>
    have hnil : fs = [] := List.map_eq_nil_iff.mp hk.symm
    rw [hnil]
  | cons e es ih =>
    obtain _ | ⟨f, fs⟩ := fs
    · cases hk
    simp only [keys, List.map_cons, List.cons.injEq, List.nodup_cons] at ht hk ih
    have hvalue : some e.2 = some f.2 := by simpa [get?_cons, hk.1] using hg e.1
    have hrest (k : κ) : (⟨es⟩ : Table κ α).get? k = (⟨fs⟩ : Table κ α).get? k := by
      by_cases h : e.1 = k
      · subst k
        rw [get?_eq_none_iff.mpr ht.1, get?_eq_none_iff.mpr (by rw [keys, ← hk.2]; exact hk.1 ▸ ht.1)]
      · have := hg k
        rwa [get?_cons, get?_cons, if_neg h, if_neg (hk.1 ▸ h)] at this
    rw [Prod.ext hk.1 (Option.some.inj hvalue), mk.inj (ih ht.2 fs hk.2 hrest)]

end Table

theorem eraseDups_of_nodup {α : Type} [DecidableEq α] {l : List α} (h : l.Nodup) : l.eraseDups = l := by
  induction l with
  | nil => rfl
  | cons a l ih =>
    obtain ⟨ha, hl⟩ := List.nodup_cons.mp h
    have hall : l.filter (fun b => !b == a) = l := by
      rw [List.filter_eq_self]
      intro b hb
      simpa using fun (e : b = a) => ha (e ▸ hb)
    rw [List.eraseDups_cons, hall, ih hl]

/-- What was there before is a repeat, whether it is left out at once or later. -/
theorem eraseDups_append_filter {α : Type} [DecidableEq α] (as bs cs : List α) :
    (as ++ (bs.filter fun b => b ∉ as) ++ cs).eraseDups = (as ++ bs ++ cs).eraseDups := by
  have hremove (l : List α) : (l.filter fun b => b ∉ as).removeAll as = l.removeAll as := by
    simp [List.removeAll, List.filter_filter]
  have hrest : cs.removeAll (as ++ bs.filter fun b => b ∉ as) = cs.removeAll (as ++ bs) := by
    apply List.filter_congr
    intro c _
    by_cases h : c ∈ as <;> simp [h]
  have hfront : (as ++ bs.filter fun b => b ∉ as).eraseDups = (as ++ bs).eraseDups := by
    rw [List.eraseDups_append, hremove, ← List.eraseDups_append]
  rw [List.eraseDups_append, hrest, hfront, ← List.eraseDups_append]

namespace Datum

/-- Containers of one shape: lists, or so many levels of dictionaries above lists. -/
def Shaped : Nat → Datum → Prop
  | 0, .list _ => True
  | n + 1, .dict es => (es.map Prod.fst).Nodup ∧ ∀ e ∈ es, Shaped n e.2
  | _, _ => False

variable {n : Nat} {a b c d e : Datum} {k : String} {es fs : List (String × Datum)} {path : List String}

theorem shaped_zero_iff : d.Shaped 0 ↔ ∃ ds, d = .list ds := by
  cases d <;> simp [Shaped]

theorem shaped_succ_iff :
    d.Shaped (n + 1) ↔ ∃ es, d = .dict es ∧ (es.map Prod.fst).Nodup ∧ ∀ e ∈ es, e.2.Shaped n := by
  cases d <;> simp [Shaped]

/-- The empty container of a shape. -/
def emptyOf : Nat → Datum
  | 0 => .list []
  | _ + 1 => .dict []

theorem shaped_emptyOf (n : Nat) : (emptyOf n).Shaped n := by
  cases n <;> simp [emptyOf, Shaped]

theorem emptyLike_of_shaped (h : d.Shaped n) : d.emptyLike = .ok (emptyOf n) := by
  cases n with
  | zero =>
    obtain ⟨ds, rfl⟩ := shaped_zero_iff.mp h
    rfl
  | succ n =>
    obtain ⟨es, rfl, -⟩ := shaped_succ_iff.mp h
    rfl

/-- What becomes of the left side of a merge. -/
def join (d e : Datum) : Datum := (d.mergeIn e).1

/-- The outcome of a merge: a container, or what stopped it. -/
def merge (d e : Datum) : Except MergeError Datum :=
  match d.mergeIn e with
  | (_, some e) => .error e
  | (d, none) => .ok d

/-- The keys of a dictionary in order; other data have none. -/
def keys : Datum → List String
  | .dict es => es.map Prod.fst
  | _ => []

theorem Shaped.nodup_keys (h : d.Shaped n) : d.keys.Nodup := by
  cases n with
  | zero =>
    obtain ⟨ds, rfl⟩ := shaped_zero_iff.mp h
    exact List.nodup_nil
  | succ n =>
    obtain ⟨es, rfl, hn, -⟩ := shaped_succ_iff.mp h
    exact hn

/-- The items of a list; other data have none. -/
def items : Datum → List Datum
  | .list ds => ds
  | _ => []

/-- What a dictionary holds under a key. -/
def child? : Datum → String → Option Datum
  | .dict es, k => (⟨es⟩ : Table String Datum).get? k
  | _, _ => none

theorem Shaped.child (h : d.Shaped (n + 1)) (hc : d.child? k = some e) : e.Shaped n := by
  obtain ⟨es, rfl, -, hall⟩ := shaped_succ_iff.mp h
  exact hall _ (Table.mem_entries_of_get? hc)

/-- What stands at the end of a path of keys. -/
def at? (d : Datum) (path : List String) : Option Datum := path.foldlM child? d

/-- The list at the end of a path, with no items where there is none. -/
def itemsAt (d : Datum) (path : List String) : List Datum := (d.at? path).elim [] items

/-- The keys at the end of a path, none where there is no dictionary. -/
def keysAt (d : Datum) (path : List String) : List String := (d.at? path).elim [] keys

/-- Dictionaries are given by their keys and by what they hold under each of them. -/
theorem ext_child? (hd : d.Shaped (n + 1)) (he : e.Shaped (n + 1)) (hk : d.keys = e.keys)
    (hc : ∀ k, d.child? k = e.child? k) : d = e := by
  obtain ⟨es, rfl, hn, -⟩ := shaped_succ_iff.mp hd
  obtain ⟨fs, rfl, -⟩ := shaped_succ_iff.mp he
  rw [Table.mk.inj (Table.ext_get? (t := ⟨es⟩) (u := ⟨fs⟩) hn hk hc)]

/-! ### Entries -/

theorem setEntry_eq (k : String) (d : Datum) (es : List (String × Datum)) :
    setEntry k d es = Table.alterEntries k (fun _ => d) es := by
  induction es with
  | nil => rfl
  | cons e es ih =>
    rw [setEntry, Table.alterEntries, ih]
    split
    · rename_i h
      rw [h]
    · rfl

/-- What a dictionary holds under a key after a merge, by what either side held. -/
def combine : Option Datum → Option Datum → Option Datum
  | some d, some e => some (d.join e)
  | some d, none => some d
  | none, e => e

/-- The laws of merging containers of one shape. -/
structure Lawful (n : Nat) : Prop where
  mergeIn_eq : ∀ {a b : Datum}, a.Shaped n → b.Shaped n → a.mergeIn b = (a.join b, none)
  shaped_join : ∀ {a b : Datum}, a.Shaped n → b.Shaped n → (a.join b).Shaped n
  join_assoc : ∀ {a b c : Datum}, a.Shaped n → b.Shaped n → c.Shaped n → (a.join b).join c = a.join (b.join c)
  empty_join : ∀ {a : Datum}, a.Shaped n → (emptyOf n).join a = a
  join_empty : ∀ {a : Datum}, a.Shaped n → a.join (emptyOf n) = a

/-- Entries after a new one was merged in. -/
def absorb (es : List (String × Datum)) (e : String × Datum) : List (String × Datum) :=
  Table.alterEntries e.1 (fun present => present.elim e.2 (·.join e.2)) es

theorem alterEntries_congr {f g : Option Datum → Datum}
    (h : f ((⟨es⟩ : Table String Datum).get? k) = g ((⟨es⟩ : Table String Datum).get? k)) :
    Table.alterEntries k f es = Table.alterEntries k g es := by
  induction es with
  | nil => exact congrArg (fun d => [(k, d)]) h
  | cons e es ih =>
    rw [Table.alterEntries, Table.alterEntries]
    rw [Table.get?_cons] at h
    split
    · rename_i hk
      rw [if_pos hk] at h
      rw [h]
    · rename_i hk
      rw [if_neg hk] at h
      rw [ih h]

namespace Lawful

variable (hl : Lawful n)
include hl

theorem mergeEntries_cons (hes : (dict es).Shaped (n + 1)) (hd : d.Shaped n) :
    mergeEntries es ((k, d) :: fs) = mergeEntries (absorb es (k, d)) fs := by
  have habsorb (e : Datum) (h : ((⟨es⟩ : Table String Datum).get? k).elim d (·.join d) = e) :
      setEntry k e es = absorb es (k, d) := by
    rw [setEntry_eq, absorb]
    exact alterEntries_congr h.symm
  rw [mergeEntries]
  cases hget : es.find? fun e => e.1 = k with
  | some found =>
    have hpresent : (⟨es⟩ : Table String Datum).get? k = some found.2 := by simp [Table.get?, hget]
    have hm := hl.mergeIn_eq (hes.child hpresent) hd
    simp only [hm]
    rw [habsorb _ (by simp [hpresent])]
  | none =>
    have hpresent : (⟨es⟩ : Table String Datum).get? k = none := by simp [Table.get?, hget]
    have hm := hl.mergeIn_eq (shaped_emptyOf n) hd
    rw [hl.empty_join hd] at hm
    simp only [emptyLike_of_shaped hd, hm]
    rw [habsorb _ (by simp [hpresent])]

theorem shaped_absorb (hes : (dict es).Shaped (n + 1)) {e : String × Datum} (he : e.2.Shaped n) :
    (dict (absorb es e)).Shaped (n + 1) := by
  refine ⟨Table.nodup_keys_alter (t := ⟨es⟩) hes.1, fun f hf => ?_⟩
  have hget := Table.get?_of_mem_entries (t := ⟨absorb es e⟩) (Table.nodup_keys_alter (t := ⟨es⟩) hes.1) hf
  rw [absorb, Table.get?_alterEntries] at hget
  split at hget
  · rw [← Option.some.inj hget]
    cases hp : (⟨es⟩ : Table String Datum).get? e.1 with
    | none => exact he
    | some d => exact hl.shaped_join (hes.child hp) he
  · exact hes.child hget

/-- Merging dictionaries merges the entries one by one. -/
theorem mergeEntries_eq (hes : (dict es).Shaped (n + 1)) (hfs : ∀ f ∈ fs, f.2.Shaped n) :
    mergeEntries es fs = (fs.foldl absorb es, none) ∧ (dict (fs.foldl absorb es)).Shaped (n + 1) := by
  induction fs generalizing es with
  | nil => exact ⟨rfl, hes⟩
  | cons f fs ih =>
    have hf := hfs f List.mem_cons_self
    rw [hl.mergeEntries_cons hes hf, List.foldl_cons]
    exact ih (hl.shaped_absorb hes hf) fun g hg => hfs g (List.mem_cons_of_mem f hg)

end Lawful

theorem keys_foldl_absorb (es fs : List (String × Datum)) (hfs : (fs.map Prod.fst).Nodup) :
    (fs.foldl absorb es).map Prod.fst =
      es.map Prod.fst ++ (fs.map Prod.fst).filter fun k => k ∉ es.map Prod.fst := by
  induction fs generalizing es with
  | nil => simp
  | cons f fs ih =>
    obtain ⟨hf, hfs⟩ := List.nodup_cons.mp hfs
    rw [List.foldl_cons, ih _ hfs, absorb, Table.keys_alterEntries, List.map_cons]
    split
    · rename_i hmem
      rw [List.filter_cons_of_neg (by simpa using hmem)]
    · rename_i hmem
      rw [List.filter_cons_of_pos (by simpa using hmem), List.append_assoc, List.singleton_append]
      congr 2
      apply List.filter_congr
      intro k hk
      have hne : k ≠ f.1 := fun h => hf (h ▸ hk)
      simp [hne]

theorem get?_foldl_absorb (es fs : List (String × Datum)) (hfs : (fs.map Prod.fst).Nodup) (k : String) :
    (⟨fs.foldl absorb es⟩ : Table String Datum).get? k =
      combine ((⟨es⟩ : Table String Datum).get? k) ((⟨fs⟩ : Table String Datum).get? k) := by
  induction fs generalizing es with
  | nil =>
    change (⟨es⟩ : Table String Datum).get? k = combine _ none
    cases (⟨es⟩ : Table String Datum).get? k <;> rfl
  | cons f fs ih =>
    obtain ⟨hf, hfs⟩ := List.nodup_cons.mp hfs
    rw [List.foldl_cons, ih _ hfs, absorb, Table.get?_alterEntries, Table.get?_cons]
    split
    · rename_i h
      subst k
      rw [Table.get?_eq_none_iff.mpr hf]
      cases (⟨es⟩ : Table String Datum).get? f.1 <;> rfl
    · rfl

/-! ### Levels -/

namespace Lawful

theorem zero : Lawful 0 where
  mergeIn_eq ha hb := by
    obtain ⟨ds, rfl⟩ := shaped_zero_iff.mp ha
    obtain ⟨es, rfl⟩ := shaped_zero_iff.mp hb
    rfl
  shaped_join ha hb := by
    obtain ⟨ds, rfl⟩ := shaped_zero_iff.mp ha
    obtain ⟨es, rfl⟩ := shaped_zero_iff.mp hb
    exact shaped_zero_iff.mpr ⟨ds ++ es, rfl⟩
  join_assoc ha hb hc := by
    obtain ⟨ds, rfl⟩ := shaped_zero_iff.mp ha
    obtain ⟨es, rfl⟩ := shaped_zero_iff.mp hb
    obtain ⟨fs, rfl⟩ := shaped_zero_iff.mp hc
    exact congrArg list (List.append_assoc ds es fs)
  empty_join ha := by
    obtain ⟨ds, rfl⟩ := shaped_zero_iff.mp ha
    rfl
  join_empty ha := by
    obtain ⟨ds, rfl⟩ := shaped_zero_iff.mp ha
    exact congrArg list (List.append_nil ds)

variable (hl : Lawful n) (ha : a.Shaped (n + 1)) (hb : b.Shaped (n + 1))
include hl ha hb

theorem mergeIn_dict : a.mergeIn b = (a.join b, none) ∧ (a.join b).Shaped (n + 1) := by
  obtain ⟨es, rfl, -⟩ := shaped_succ_iff.mp ha
  obtain ⟨fs, rfl, -, hfs⟩ := shaped_succ_iff.mp hb
  obtain ⟨heq, hshaped⟩ := hl.mergeEntries_eq ha hfs
  have hm : (dict es).mergeIn (dict fs) = (dict (fs.foldl absorb es), none) := by rw [mergeIn, heq]
  rw [join, hm]
  exact ⟨rfl, hshaped⟩

/-- New keys come behind those that are there. -/
theorem keys_join : (a.join b).keys = a.keys ++ b.keys.filter fun k => k ∉ a.keys := by
  obtain ⟨es, rfl, -⟩ := shaped_succ_iff.mp ha
  obtain ⟨fs, rfl, hn, hfs⟩ := shaped_succ_iff.mp hb
  rw [join, mergeIn, (hl.mergeEntries_eq ha hfs).1]
  exact keys_foldl_absorb es fs hn

theorem child?_join (k : String) : (a.join b).child? k = combine (a.child? k) (b.child? k) := by
  obtain ⟨es, rfl, -⟩ := shaped_succ_iff.mp ha
  obtain ⟨fs, rfl, hn, hfs⟩ := shaped_succ_iff.mp hb
  rw [join, mergeIn, (hl.mergeEntries_eq ha hfs).1]
  exact get?_foldl_absorb es fs hn k

omit ha hb

/-- The laws carry over from the values of dictionaries to the dictionaries. -/
theorem succ : Lawful (n + 1) where
  mergeIn_eq ha hb := (hl.mergeIn_dict ha hb).1
  shaped_join ha hb := (hl.mergeIn_dict ha hb).2
  join_assoc {a b c} ha hb hc := by
    have hab := (hl.mergeIn_dict ha hb).2
    have hbc := (hl.mergeIn_dict hb hc).2
    refine ext_child? (hl.mergeIn_dict hab hc).2 (hl.mergeIn_dict ha hbc).2 ?_ fun k => ?_
    · rw [hl.keys_join hab hc, hl.keys_join ha hbc, hl.keys_join ha hb, hl.keys_join hb hc, List.filter_append,
        List.filter_filter, List.append_assoc]
      congr 2
      apply List.filter_congr
      intro k _
      by_cases hka : k ∈ a.keys <;> by_cases hkb : k ∈ b.keys <;> simp [hka, hkb]
    · rw [hl.child?_join hab hc, hl.child?_join ha hbc, hl.child?_join ha hb, hl.child?_join hb hc]
      cases hka : a.child? k <;> cases hkb : b.child? k <;> cases hkc : c.child? k <;> try rfl
      exact congrArg some (hl.join_assoc (ha.child hka) (hb.child hkb) (hc.child hkc))
  empty_join {a} ha := by
    have he := shaped_emptyOf (n + 1)
    refine ext_child? (hl.mergeIn_dict he ha).2 ha ?_ fun k => ?_
    · rw [hl.keys_join he ha]
      simp [emptyOf, keys]
    · rw [hl.child?_join he ha]
      rfl
  join_empty {a} ha := by
    have he := shaped_emptyOf (n + 1)
    refine ext_child? (hl.mergeIn_dict ha he).2 ha ?_ fun k => ?_
    · rw [hl.keys_join ha he]
      simp [emptyOf, keys]
    · rw [hl.child?_join ha he]
      cases a.child? k <;> rfl

end Lawful

theorem lawful (n : Nat) : Lawful n := by
  induction n with
  | zero => exact .zero
  | succ n ih => exact ih.succ

/-! ### Paths -/

theorem at?_cons (d : Datum) (k : String) (path : List String) : d.at? (k :: path) = (d.child? k).bind (·.at? path) :=
  rfl

theorem itemsAt_cons (d : Datum) (k : String) (path : List String) :
    d.itemsAt (k :: path) = (d.child? k).elim [] (·.itemsAt path) := by
  rw [itemsAt, at?_cons]
  cases d.child? k <;> rfl

theorem keysAt_cons (d : Datum) (k : String) (path : List String) :
    d.keysAt (k :: path) = (d.child? k).elim [] (·.keysAt path) := by
  rw [keysAt, at?_cons]
  cases d.child? k <;> rfl

theorem Shaped.nodup_keysAt (h : d.Shaped n) (path : List String) : (d.keysAt path).Nodup := by
  induction path generalizing n d with
  | nil => exact h.nodup_keys
  | cons k path ih =>
    rw [keysAt_cons]
    cases n with
    | zero =>
      obtain ⟨ds, rfl⟩ := shaped_zero_iff.mp h
      exact List.nodup_nil
    | succ n =>
      cases hc : d.child? k with
      | none => exact List.nodup_nil
      | some e => exact ih (h.child hc)

/-- At every path the items of the left side come first, then those of the right side. -/
theorem itemsAt_join (ha : a.Shaped n) (hb : b.Shaped n) (path : List String) :
    (a.join b).itemsAt path = a.itemsAt path ++ b.itemsAt path := by
  induction path generalizing n a b with
  | nil =>
    cases n with
    | zero =>
      obtain ⟨ds, rfl⟩ := shaped_zero_iff.mp ha
      obtain ⟨es, rfl⟩ := shaped_zero_iff.mp hb
      rfl
    | succ n =>
      obtain ⟨gs, hg, -⟩ := shaped_succ_iff.mp ((lawful (n + 1)).shaped_join ha hb)
      obtain ⟨es, rfl, -⟩ := shaped_succ_iff.mp ha
      obtain ⟨fs, rfl, -⟩ := shaped_succ_iff.mp hb
      rw [hg]
      rfl
  | cons k path ih =>
    cases n with
    | zero =>
      obtain ⟨ds, rfl⟩ := shaped_zero_iff.mp ha
      obtain ⟨es, rfl⟩ := shaped_zero_iff.mp hb
      rfl
    | succ n =>
      simp only [itemsAt_cons, (lawful n).child?_join ha hb]
      cases hca : a.child? k <;> cases hcb : b.child? k <;> simp [combine]
      exact ih (ha.child hca) (hb.child hcb)

/-- At every path the keys of the left side come first, then those of the right side that are new. -/
theorem keysAt_join (ha : a.Shaped n) (hb : b.Shaped n) (path : List String) :
    (a.join b).keysAt path = a.keysAt path ++ (b.keysAt path).filter fun k => k ∉ a.keysAt path := by
  induction path generalizing n a b with
  | nil =>
    cases n with
    | zero =>
      obtain ⟨ds, rfl⟩ := shaped_zero_iff.mp ha
      obtain ⟨es, rfl⟩ := shaped_zero_iff.mp hb
      rfl
    | succ n => exact (lawful n).keys_join ha hb
  | cons k path ih =>
    cases n with
    | zero =>
      obtain ⟨ds, rfl⟩ := shaped_zero_iff.mp ha
      obtain ⟨es, rfl⟩ := shaped_zero_iff.mp hb
      rfl
    | succ n =>
      simp only [keysAt_cons, (lawful n).child?_join ha hb]
      cases hca : a.child? k <;> cases hcb : b.child? k <;> simp [combine]
      exact ih (ha.child hca) (hb.child hcb)

/-! ### Several parts -/

theorem merge_eq_ok (ha : a.Shaped n) (hb : b.Shaped n) : a.merge b = .ok (a.join b) := by
  rw [merge, (lawful n).mergeIn_eq ha hb]

theorem shaped_foldl {ds : List Datum} (ha : a.Shaped n) (hds : ∀ d ∈ ds, d.Shaped n) :
    (ds.foldl join a).Shaped n := by
  induction ds generalizing a with
  | nil => exact ha
  | cons d ds ih =>
    obtain ⟨hd, hds⟩ := List.forall_mem_cons.mp hds
    exact ih ((lawful n).shaped_join ha hd) hds

theorem foldlM_merge {ds : List Datum} (ha : a.Shaped n) (hds : ∀ d ∈ ds, d.Shaped n) :
    ds.foldlM merge a = .ok (ds.foldl join a) := by
  induction ds generalizing a with
  | nil => rfl
  | cons d ds ih =>
    obtain ⟨hd, hds⟩ := List.forall_mem_cons.mp hds
    rw [List.foldlM_cons, merge_eq_ok ha hd]
    exact ih ((lawful n).shaped_join ha hd) hds

theorem merged_cons (d : Datum) (ds : List Datum) :
    merged (d :: ds) = d.emptyLike >>= fun fresh => (d :: ds).foldlM merge fresh := rfl

/-- Merging several parts gives what merging them from left to right gives, beginning with the first. -/
theorem merged_eq_ok {ds : List Datum} (hd : d.Shaped n) (hds : ∀ e ∈ ds, e.Shaped n) :
    merged (d :: ds) = .ok (ds.foldl join d) := by
  rw [merged_cons, emptyLike_of_shaped hd]
  change (d :: ds).foldlM merge (emptyOf n) = _
  rw [foldlM_merge (shaped_emptyOf n) (List.forall_mem_cons.mpr ⟨hd, hds⟩), List.foldl_cons,
    (lawful n).empty_join hd]

theorem itemsAt_foldl {ds : List Datum} (ha : a.Shaped n) (hds : ∀ d ∈ ds, d.Shaped n) (path : List String) :
    (ds.foldl join a).itemsAt path = a.itemsAt path ++ ds.flatMap (·.itemsAt path) := by
  induction ds generalizing a with
  | nil => simp
  | cons d ds ih =>
    obtain ⟨hd, hds⟩ := List.forall_mem_cons.mp hds
    rw [List.foldl_cons, ih ((lawful n).shaped_join ha hd) hds, itemsAt_join ha hd, List.flatMap_cons,
      List.append_assoc]

theorem keysAt_foldl {ds : List Datum} (ha : a.Shaped n) (hds : ∀ d ∈ ds, d.Shaped n) (path : List String) :
    (ds.foldl join a).keysAt path = (a.keysAt path ++ ds.flatMap (·.keysAt path)).eraseDups := by
  induction ds generalizing a with
  | nil => simp [eraseDups_of_nodup (ha.nodup_keysAt path)]
  | cons d ds ih =>
    obtain ⟨hd, hds⟩ := List.forall_mem_cons.mp hds
    rw [List.foldl_cons, ih ((lawful n).shaped_join ha hd) hds, keysAt_join ha hd, List.flatMap_cons,
      eraseDups_append_filter, List.append_assoc]

/-- A way to merge parts two at a time. -/
inductive Bracketing
  | part (d : Datum)
  | both (left right : Bracketing)

namespace Bracketing

/-- The parts from left to right. -/
def parts : Bracketing → List Datum
  | .part d => [d]
  | .both left right => left.parts ++ right.parts

/-- Merging as the brackets say. -/
def merge : Bracketing → Except MergeError Datum
  | .part d => .ok d
  | .both left right => do (← left.merge).merge (← right.merge)

theorem parts_eq_cons (b : Bracketing) : ∃ d ds, b.parts = d :: ds := by
  induction b with
  | part d => exact ⟨d, [], rfl⟩
  | both left right ihl _ =>
    obtain ⟨d, ds, h⟩ := ihl
    exact ⟨d, ds ++ right.parts, by rw [parts, h, List.cons_append]⟩

end Bracketing

theorem join_foldl {ds : List Datum} (ha : a.Shaped n) (hb : b.Shaped n) (hds : ∀ d ∈ ds, d.Shaped n) :
    ds.foldl join (a.join b) = a.join (ds.foldl join b) := by
  induction ds generalizing b with
  | nil => rfl
  | cons d ds ih =>
    obtain ⟨hd, hds⟩ := List.forall_mem_cons.mp hds
    rw [List.foldl_cons, List.foldl_cons, (lawful n).join_assoc ha hb hd, ih ((lawful n).shaped_join hb hd) hds]

/-- However the brackets stand, the outcome is that of merging from left to right. -/
theorem Bracketing.merge_eq_merged {b : Bracketing} (h : ∀ d ∈ b.parts, d.Shaped n) : b.merge = merged b.parts := by
  induction b with
  | part d => rw [merge, parts, merged_eq_ok (h d List.mem_cons_self) (by simp), List.foldl_nil]
  | both left right ihl ihr =>
    rw [parts, List.forall_mem_append] at h
    obtain ⟨hleft, hright⟩ := h
    rw [merge, ihl hleft, ihr hright, parts]
    obtain ⟨d, ds, hd⟩ := left.parts_eq_cons
    obtain ⟨e, es, he⟩ := right.parts_eq_cons
    rw [hd] at hleft ⊢
    rw [he] at hright ⊢
    obtain ⟨hd, hds⟩ := List.forall_mem_cons.mp hleft
    obtain ⟨he, hes⟩ := List.forall_mem_cons.mp hright
    have hall : ∀ f ∈ ds ++ e :: es, f.Shaped n := List.forall_mem_append.mpr ⟨hds, hright⟩
    have hleft := shaped_foldl hd hds
    rw [merged_eq_ok hd hds, merged_eq_ok he hes, List.cons_append, merged_eq_ok hd hall, List.foldl_append,
      List.foldl_cons, join_foldl hleft he hes]
    exact merge_eq_ok hleft (shaped_foldl he hes)

/-- Containers of one shape form a monoid under merging. Two of them can always be merged, and give one of the same
shape; merging is associative, and the empty container is neutral. Merging several parts is merging them from left to
right, however the brackets stand. At every path the lists of the parts are joined end to end, and the keys of the parts
stand in the order of their first appearance. -/
theorem merge_monoid (n : Nat) :
    (∀ a b : Datum, a.Shaped n → b.Shaped n → ∃ d, a.mergeIn b = (d, none) ∧ d.Shaped n ∧ ∀ path,
      d.itemsAt path = a.itemsAt path ++ b.itemsAt path ∧
        d.keysAt path = (a.keysAt path ++ b.keysAt path).eraseDups) ∧
    (∀ a b c : Datum, a.Shaped n → b.Shaped n → c.Shaped n →
      (do (← a.merge b).merge c) = (do a.merge (← b.merge c))) ∧
    ((emptyOf n).Shaped n ∧ ∀ a : Datum, a.Shaped n →
      a.emptyLike = .ok (emptyOf n) ∧ (emptyOf n).merge a = .ok a ∧ a.merge (emptyOf n) = .ok a) ∧
    (∀ (d : Datum) (ds : List Datum), (∀ e ∈ d :: ds, e.Shaped n) → merged (d :: ds) = ds.foldlM merge d ∧
      ∃ out, merged (d :: ds) = .ok out ∧ out.Shaped n ∧ ∀ path,
        out.itemsAt path = (d :: ds).flatMap (·.itemsAt path) ∧
          out.keysAt path = ((d :: ds).flatMap (·.keysAt path)).eraseDups) ∧
    ∀ b : Bracketing, (∀ d ∈ b.parts, d.Shaped n) → b.merge = merged b.parts := by
  have hl := lawful n
  have he := shaped_emptyOf n
  refine ⟨fun a b ha hb => ⟨a.join b, hl.mergeIn_eq ha hb, hl.shaped_join ha hb, fun path => ?_⟩,
    fun a b c ha hb hc => ?_, ⟨he, fun a ha => ⟨emptyLike_of_shaped ha, ?_, ?_⟩⟩, fun d ds h => ?_,
    fun b => Bracketing.merge_eq_merged⟩
  · have hkeys := keysAt_foldl ha (List.forall_mem_singleton.mpr hb) path
    simp only [List.foldl_cons, List.foldl_nil, List.flatMap_cons, List.flatMap_nil, List.append_nil] at hkeys
    exact ⟨itemsAt_join ha hb path, hkeys⟩
  · simp only [merge_eq_ok ha hb, merge_eq_ok hb hc]
    change (a.join b).merge c = a.merge (b.join c)
    rw [merge_eq_ok (hl.shaped_join ha hb) hc, merge_eq_ok ha (hl.shaped_join hb hc), hl.join_assoc ha hb hc]
  · rw [merge_eq_ok he ha, hl.empty_join ha]
  · rw [merge_eq_ok ha he, hl.join_empty ha]
  · obtain ⟨hd, hds⟩ := List.forall_mem_cons.mp h
    have heq := merged_eq_ok hd hds
    refine ⟨by rw [heq, foldlM_merge hd hds], _, heq, shaped_foldl hd hds, fun path => ⟨?_, ?_⟩⟩
    · rw [itemsAt_foldl hd hds, List.flatMap_cons]
    · rw [keysAt_foldl hd hds, List.flatMap_cons]

/-- Three dictionaries of dictionaries of lists, with keys in different orders and one without any. -/
def threeParts : Bracketing :=
  let row (k : String) (n : Int) : String × Datum := (k, .list [.leaf (.int n)])
  .both (.part (.dict [("b", .dict [row "x" 1])]))
    (.both (.part (.dict [("a", .dict []), ("b", .dict [row "z" 2, row "x" 3])]))
      (.part (.dict [("c", .dict [row "x" 4]), ("b", .dict [row "x" 5])])))

theorem merge_monoid_threeParts :
    (∀ d ∈ threeParts.parts, d.Shaped 2) ∧
      ∃ out, threeParts.merge = .ok out ∧ out.keysAt [] = ["b", "a", "c"] ∧ out.keysAt ["b"] = ["x", "z"] ∧
        out.itemsAt ["b", "x"] = [.leaf (.int 1), .leaf (.int 3), .leaf (.int 5)] := by
  have h : ∀ d ∈ threeParts.parts, d.Shaped 2 := by simp [threeParts, Bracketing.parts, Shaped]
  obtain ⟨_, _, _, hparts, hbrackets⟩ := merge_monoid 2
  obtain ⟨_, out, hout, _, hpath⟩ := hparts _ _ h
  refine ⟨h, out, (hbrackets threeParts h).trans hout, ?_, ?_, ?_⟩
  · rw [(hpath []).2]
    decide
  · rw [(hpath ["b"]).2]
    decide
  · rw [(hpath ["b", "x"]).1]
    rfl

end Datum

end UnionBridge
