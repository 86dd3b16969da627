import UnionBridge.Mapping.OfUnion
import UnionBridge.Proofs.Merge

/-! What the directives of a destination say, counted: which sources they name, and how often a variant claims a case
of a source. -/
namespace UnionBridge

variable {u : Union} {v : Variant} {a : Argument} {source : DottedName} {case : String} {ref : SourceRef}

theorem DottedName.simple?_eq_some_iff {d : DottedName} {s : String} : d.simple? = some s ↔ d = .ofName s := by
  obtain ⟨head, rest⟩ := d
  cases rest <;> simp [simple?, ofName]

/-! ### Sources -/

section EraseDups

variable {α : Type} [BEq α] [LawfulBEq α]

theorem idxOf_lt_of_filter {p : α → Bool} {l : List α} {a b : α} (hb : p b)
    (h : (l.filter p).idxOf a < (l.filter p).idxOf b) : l.idxOf a < l.idxOf b := by
  induction l with
  | nil => simp at h
  | cons x l ih =>
    by_cases hxa : x = a
    · subst x
      by_cases hab : a = b
      · subst b
        omega
      · simp [hab]
    · by_cases hxb : x = b
      · subst x
        simp [hb] at h
      · by_cases hx : p x
        · simp only [List.filter_cons, hx, if_true] at h
          simp only [List.idxOf_cons, beq_iff_eq, hxa, hxb, Bool.cond_eq_ite, if_false] at h ⊢
          have := ih (by omega)
          omega
        · simp only [List.filter_cons, hx] at h
          simp only [List.idxOf_cons, beq_iff_eq, hxa, hxb, Bool.cond_eq_ite, if_false]
          have := ih (by simpa using h)
          omega

/-- Dropping repeats keeps the order of first occurrences. -/
theorem pairwise_idxOf_eraseDups (l : List α) : l.eraseDups.Pairwise fun a b => l.idxOf a < l.idxOf b := by
  induction h : l.length using Nat.strongRecOn generalizing l with
  | _ n ih =>
    cases l with
    | nil => simp
    | cons x l =>
      rw [List.eraseDups_cons]
      have hlen : (l.filter fun b => !b == x).length < n := by
        have := List.length_filter_le (fun b => !b == x) l
        simp only [List.length_cons] at h
        omega
      have hne {b : α} (hb : b ∈ (l.filter fun b => !b == x).eraseDups) : b ≠ x := by
        have := (List.mem_filter.mp (List.mem_eraseDups.mp hb)).2
        simpa using this
      refine List.pairwise_cons.mpr ⟨?_, ?_⟩
      · intro b hb
        simp [Ne.symm (hne hb)]
      · apply (ih _ hlen _ rfl).imp_of_mem
        intro b c hb hc hlt
        have hb' := hne hb
        have hc' := hne hc
        have := idxOf_lt_of_filter (p := fun b => !b == x) (by simpa using hc') hlt
        simp only [List.idxOf_cons, beq_iff_eq, Ne.symm hb', Ne.symm hc', Bool.cond_eq_ite, if_false]
        omega

theorem nodup_eraseDups (l : List α) : l.eraseDups.Nodup := by
  apply (pairwise_idxOf_eraseDups l).imp
  rintro a b h rfl
  omega

end EraseDups

namespace Union

/-- The source unions that the directives of a union name, in the order in which they are written. -/
def writtenSources (u : Union) : List DottedName :=
  (argumentsOf fromUnion u.directives).filterMap fun a => if a.key = none then some a.value else none

theorem sources_eq (u : Union) : u.sources = u.writtenSources.eraseDups := by
  simp [sources, writtenSources]

theorem mem_sources : source ∈ u.sources ↔ source ∈ u.writtenSources := by
  rw [sources_eq, List.mem_eraseDups]

theorem nodup_sources (u : Union) : u.sources.Nodup := by
  rw [sources_eq]
  exact nodup_eraseDups _

/-! ### Claims of a variant -/

/-- Every directive of a variant claims cases, and every argument is a claim on declared sources. -/
def Claimable (sources : List DottedName) (v : Variant) : Prop :=
  ∀ d ∈ v.directives, d.name = fromCase ∧ ∀ a ∈ d.args, ∃ claim, claim? sources v a = .ok claim

/-- Without faults, every argument of a variant is a claim. -/
theorem claimable_of_directiveFaults (h : u.directiveFaults = []) (hv : v ∈ u.variants) :
    Claimable u.sources v := by
  simp only [directiveFaults, List.append_eq_nil_iff, List.flatMap_eq_nil_iff] at h
  intro d hd
  have hd := h.2 v hv d hd
  simp only [variantFaults] at hd
  split at hd
  · simp at hd
  split at hd
  · rename_i _ hname
    refine ⟨hname, fun a ha => ?_⟩
    have ha := List.filterMap_eq_nil_iff.mp hd a ha
    cases hc : claim? u.sources v a with
    | ok claim => exact ⟨claim, rfl⟩
    | error f => simp [hc] at ha
  · simp at hd

theorem claim?_eq_ok (h : claim? u.sources v a = .ok (ref, case)) :
    a.value = .ofName case ∧ (a.key = none ∧ ref = .every ∨ ∃ key ∈ u.sources, a.key = some key ∧ ref = .one key) := by
  simp only [claim?] at h
  split at h
  · cases h
  · rename_i c hvalue hkey
    cases h
    exact ⟨DottedName.simple?_eq_some_iff.mp hvalue, Or.inl ⟨hkey, rfl⟩⟩
  · rename_i c key hvalue hkey
    split at h
    · rename_i hmem
      cases h
      exact ⟨DottedName.simple?_eq_some_iff.mp hvalue, Or.inr ⟨key, by simpa using hmem, hkey, rfl⟩⟩
    · cases h

end Union

/-- Whether an argument claims a case of a source, by name or of every source. -/
def Argument.claims (a : Argument) (source : DottedName) (case : String) : Bool :=
  a.value = .ofName case && (a.key = none || a.key = some source)

/-- How often a variant claims a case of a source. Without any argument it claims the case of its own name once. -/
def Variant.claimCount (v : Variant) (source : DottedName) (case : String) : Nat :=
  match Union.argumentsOf fromCase v.directives with
  | [] => if v.name = case then 1 else 0
  | args => args.countP (·.claims source case)

namespace SourceRef

/-- Whether a reference is to a source, among others or alone. -/
def covers (source : DottedName) : SourceRef → Bool
  | .every => true
  | .one s => s = source

/-- How often some cases under a reference claim a case of a source. -/
def weight (source : DottedName) (case : String) (ref : SourceRef) (cases : List String) : Nat :=
  if ref.covers source then cases.count case else 0

theorem additive_weight (source : DottedName) (case : String) : Mergeable.Additive (weight source case) where
  empty ref := by
    simp only [weight]
    split <;> rfl
  merge ref l m := by
    simp only [weight, Mergeable.merge_list, List.count_append]
    split <;> rfl

end SourceRef

namespace Union

/-- The claim of one argument, as far as it is one. -/
def argumentClaim? (sources : List DottedName) (v : Variant) (a : Argument) : Option Claims :=
  match claim? sources v a with
  | .ok (ref, case) => some (Mergeable.single ref [case])
  | .error _ => none

theorem directiveClaims_eq {d : Directive} (h : d.name = fromCase) (sources : List DottedName) (v : Variant) :
    directiveClaims sources v d = Mergeable.mergeAll (d.args.filterMap (argumentClaim? sources v)) := by
  simp only [directiveClaims, h, if_true]
  rfl

theorem total_argumentClaim (h : claim? u.sources v a = .ok (ref, case')) (source : DottedName) (case : String) :
    (Mergeable.single ref [case']).total (SourceRef.weight source case) = if a.claims source case then 1 else 0 := by
  obtain ⟨hvalue, ⟨hkey, rfl⟩ | ⟨key, _, hkey, rfl⟩⟩ := claim?_eq_ok h
  · simp [Mergeable.total_single, SourceRef.weight, SourceRef.covers, Argument.claims, hvalue, hkey,
      DottedName.ofName, List.count_singleton]
  · by_cases hs : key = source
    · simp [Mergeable.total_single, SourceRef.weight, SourceRef.covers, Argument.claims, hvalue, hkey, hs,
        DottedName.ofName, List.count_singleton]
    · simp [Mergeable.total_single, SourceRef.weight, SourceRef.covers, Argument.claims, hkey, hs]

theorem total_arguments {args : List Argument} (h : ∀ a ∈ args, ∃ claim, claim? u.sources v a = .ok claim)
    (source : DottedName) (case : String) :
    ((args.filterMap (argumentClaim? u.sources v)).map (Table.total (SourceRef.weight source case))).sum =
      args.countP (·.claims source case) := by
  induction args with
  | nil => rfl
  | cons a args ih =>
    obtain ⟨⟨ref, case'⟩, ha⟩ := h a (by simp)
    have hc : argumentClaim? u.sources v a = some (Mergeable.single ref [case']) := by simp [argumentClaim?, ha]
    rw [List.filterMap_cons_some hc, List.map_cons, List.sum_cons, total_argumentClaim ha, List.countP_cons,
      ih fun b hb => h b (by simp [hb])]
    omega

theorem argumentsOf_eq {ds : List Directive} (h : ∀ d ∈ ds, d.name = fromCase) :
    argumentsOf fromCase ds = ds.flatMap (·.args) := by
  rw [argumentsOf, List.filter_eq_self.mpr (by simpa using h)]

/-- The directives of a variant claim a case as often as their arguments do. -/
theorem total_written (h : Claimable u.sources v) (source : DottedName) (case : String) :
    (Mergeable.mergeAll (v.directives.map (directiveClaims u.sources v))).total (SourceRef.weight source case) =
      (argumentsOf fromCase v.directives).countP (·.claims source case) := by
  rw [argumentsOf_eq fun d hd => (h d hd).1, Mergeable.total_mergeAll (SourceRef.additive_weight source case),
    List.countP_flatMap, List.map_map]
  congr 1
  apply List.map_congr_left
  intro d hd
  rw [Function.comp_apply, directiveClaims_eq (h d hd).1,
    Mergeable.total_mergeAll (SourceRef.additive_weight source case), total_arguments (h d hd).2]
  rfl

/-- A variant has no written claims exactly if none of its directives has an argument. -/
theorem isEmpty_written (h : Claimable u.sources v) :
    (Mergeable.mergeAll (v.directives.map (directiveClaims u.sources v))).isEmpty ↔
      argumentsOf fromCase v.directives = [] := by
  rw [argumentsOf_eq fun d hd => (h d hd).1, Mergeable.isEmpty_mergeAll, List.flatMap_eq_nil_iff,
    List.forall_mem_map]
  apply forall₂_congr
  intro d hd
  rw [directiveClaims_eq (h d hd).1, Mergeable.isEmpty_mergeAll]
  constructor
  · intro hempty
    apply List.eq_nil_iff_forall_not_mem.mpr
    intro a ha
    obtain ⟨⟨ref, case'⟩, hc⟩ := (h d hd).2 a ha
    have hclaim : argumentClaim? u.sources v a = some (Mergeable.single ref [case']) := by simp [argumentClaim?, hc]
    have := hempty _ (List.mem_filterMap.mpr ⟨a, ha, hclaim⟩)
    simp [Mergeable.single, Table.isEmpty] at this
  · intro hargs
    simp [hargs]

/-- The claims of a variant weigh as many times as its arguments say. -/
theorem total_variantClaims (h : Claimable u.sources v) (source : DottedName) (case : String) :
    (variantClaims u.sources v).total (SourceRef.weight source case) = v.claimCount source case := by
  have hempty := isEmpty_written h
  have htotal := total_written h source case
  simp only [variantClaims, Variant.claimCount]
  split
  · rename_i hw
    rw [hempty.mp hw, Mergeable.total_single]
    simp [SourceRef.weight, SourceRef.covers, List.count_singleton]
  · rename_i hw
    rw [htotal]
    split
    · rename_i hargs
      exact absurd (hempty.mpr hargs) hw
    · rfl

/-- A variant claims cases of declared sources only. -/
theorem mem_sources_of_variantClaims (h : Claimable u.sources v)
    (hs : .one source ∈ (variantClaims u.sources v).keys) : source ∈ u.sources := by
  simp only [variantClaims] at hs
  split at hs
  · simp [Mergeable.single, Table.keys] at hs
  · obtain ⟨_, hp, hs⟩ := Mergeable.mem_keys_mergeAll.mp hs
    obtain ⟨d, hd, rfl⟩ := List.mem_map.mp hp
    rw [directiveClaims_eq (h d hd).1] at hs
    obtain ⟨_, hp, hs⟩ := Mergeable.mem_keys_mergeAll.mp hs
    obtain ⟨a, ha, hc⟩ := List.mem_filterMap.mp hp
    obtain ⟨⟨ref, case'⟩, hok⟩ := (h d hd).2 a ha
    simp only [argumentClaim?, hok, Option.some.injEq] at hc
    subst hc
    have href : ref = .one source := by simpa [Mergeable.single, Table.keys, eq_comm] using hs
    subst href
    obtain ⟨_, ⟨_, hone⟩ | ⟨key, hkey, _, hone⟩⟩ := claim?_eq_ok hok
    · cases hone
    · cases hone
      exact hkey

end Union

end UnionBridge
