import UnionBridge.Proofs.Module.Naming

/-! The names of the functions of a module. The search for a name that no earlier function has comes to an end, at the
plain name or else at the least number that makes it differ; so every conversion is registered and offered once. -/
namespace UnionBridge

namespace Naming

variable {base name found : String} {used used' : List String} {next n : Nat}

/-- The search for a free name, from the one that is held and the number that is tried next. A used name gives way to
the numbered one. -/
inductive Finds (base : String) (used : List String) : (name : String) → (next : Nat) → (found : String) → Prop
  | free {name : String} {next : Nat} (h : name ∉ used) : Finds base used name next name
  | again {name : String} {next : Nat} {found : String} (h : name ∈ used)
      (rest : Finds base used (numbered base next) (next + 1) found) : Finds base used name next found

/-- The name to settle on: the plain one if it is free, else the one with the least number that is. -/
inductive Settles (base : String) (used : List String) : String → Prop
  | plain (h : base ∉ used) : Settles base used base
  | numbered (n : Nat) (hn : 2 ≤ n) (hbase : base ∈ used) (hfree : numbered base n ∉ used)
      (hleast : ∀ i, 2 ≤ i → i < n → numbered base i ∈ used) : Settles base used (numbered base n)

theorem Settles.congr (h : Settles base used name) (hmem : ∀ n, n ∈ used ↔ n ∈ used') : Settles base used' name := by
  cases h with
  | plain h => exact .plain (mt (hmem base).mpr h)
  | numbered n hn hbase hfree hleast =>
    exact .numbered n hn ((hmem _).mp hbase) (mt (hmem _).mpr hfree) fun i hi hlt => (hmem _).mp (hleast i hi hlt)

/-- From a number that is used, the search goes through the numbers in turn, up to the first that is free. -/
theorem finds_numbered (hfree : numbered base n ∉ used) (hle : next ≤ n)
    (hleast : ∀ i, next ≤ i → i < n → numbered base i ∈ used) :
    Finds base used (numbered base next) (next + 1) (numbered base n) := by
  induction hle using Nat.decreasingInduction with
  | self => exact .free hfree
  | of_succ k hk ih =>
    exact .again (hleast k (Nat.le_refl k) hk) (ih fun i hi => hleast i (Nat.le_of_succ_le hi))

/-- The search ends at the name to settle on. -/
theorem Settles.finds (h : Settles base used name) : Finds base used base 2 name := by
  cases h with
  | plain h => exact .free h
  | numbered n hn hbase hfree hleast => exact .again hbase (finds_numbered hfree hn hleast)

/-- There is a name to settle on: only so many numbers are used. -/
theorem settles_fresh (base : String) (used : List String) : Settles base used (fresh base used) := by
  rw [fresh]
  by_cases hbase : base ∈ used
  · rw [if_pos (List.contains_iff_mem.mpr hbase), List.find?_map]
    obtain ⟨_, hmem, hfree⟩ := exists_free base used
    obtain ⟨i, hi, rfl⟩ := List.mem_map.mp hmem
    have hfound : ((List.range (used.length + 1)).find?
        ((fun name => !used.contains name) ∘ fun i => numbered base (i + 2))).isSome :=
      List.find?_isSome.mpr ⟨i, hi, by simpa using hfree⟩
    obtain ⟨k, hk⟩ := Option.isSome_iff_exists.mp hfound
    rw [hk]
    obtain ⟨hfree, _, hleast⟩ := List.find?_range_eq_some.mp hk
    refine .numbered (k + 2) (Nat.le_add_left 2 k) hbase (by simpa using hfree) fun i hi hlt => ?_
    have hused := hleast (i - 2) (by omega)
    rw [Function.comp_apply, Nat.sub_add_cancel hi] at hused
    simpa using hused
  · rw [if_neg (mt List.contains_iff_mem.mp hbase)]
    exact .plain hbase

end Naming

open Naming

variable {s : Schema} {m : Mapping} {used : List String} {plans : List Plan} {conv : Conversion}
  {before after : List Conversion} {entries : List (DottedName × Table String (List Candidate))}

/-- A conversion has the name to settle on when the functions before it have theirs. -/
def Conversion.Named (used : List String) (before : List Conversion) (conv : Conversion) : Prop :=
  Settles (functionName conv.dest conv.source.text) (before.map (·.name) ++ used) conv.name

/-- Each name of a plan is settled on with those of the plan before it and those of other plans in use. -/
theorem Conversion.named_ofSources (h : (ofSources s m used entries).1 = before ++ conv :: after) :
    conv.Named used before := by
  induction entries generalizing used before with
  | nil => simp [ofSources] at h
  | cons e entries ih =>
    obtain ⟨source, byCase⟩ := e
    simp only [ofSources] at h
    rcases List.cons_eq_append_iff.mp h with ⟨rfl, heq⟩ | ⟨before, rfl, hrest⟩
    · obtain ⟨rfl, _⟩ := List.cons.inj heq
      exact settles_fresh _ _
    · refine (ih hrest).congr fun n => ?_
      simp only [List.map_cons, List.mem_append, List.mem_cons]
      tauto

theorem Bridge.named_ofPlans (h : (ofPlans s used plans).flatMap (·.conversions) = before ++ conv :: after) :
    conv.Named used before := by
  induction plans generalizing used before with
  | nil => simp [ofPlans] at h
  | cons p plans ih =>
    obtain ⟨hused, _⟩ := Conversion.names_ofSources s p.mapping used p.table.entries
    rw [ofPlans, List.flatMap_cons] at h
    rcases List.append_eq_append_iff.mp h with ⟨before, rfl, hrest⟩ | ⟨first, hfirst, hrest⟩
    · -- the conversion is of a later plan, before which all those of this one have their names
      refine (ih hrest).congr fun n => ?_
      simp only [hused, List.map_append, List.mem_append, List.mem_reverse]
      tauto
    · cases first with
      | nil =>
        rw [List.append_nil] at hfirst
        subst hfirst
        refine Settles.congr (ih (hrest.symm.trans (List.nil_append _).symm)) fun n => ?_
        simp only [hused, List.map_nil, List.nil_append, List.mem_append, List.mem_reverse]
      | cons c first =>
        obtain ⟨rfl, _⟩ := List.cons.inj hrest
        exact Conversion.named_ofSources hfirst

/-- A plan has one conversion for each of its sources, in order. -/
theorem Conversion.pairs_ofSources (s : Schema) (m : Mapping) (used : List String)
    (entries : List (DottedName × Table String (List Candidate))) :
    (ofSources s m used entries).1.map (fun conv => (conv.source, conv.dest)) =
      (entries.map Prod.fst).map fun source => (source, m.dest) := by
  induction entries generalizing used with
  | nil => rfl
  | cons e entries ih =>
    simp only [ofSources, List.map_cons, ih]
    rfl

/-- What a module has for the plan of a destination: a conversion for each of its sources, in order. -/
structure Bridge.Serves (b : Bridge) (p : Plan) : Prop where
  dest : b.dest = p.dest
  pairs : b.conversions.map (fun conv => (conv.source, conv.dest)) = p.table.keys.map fun source => (source, p.dest)

namespace Bridge

theorem serves_ofPlans (s : Schema) (used : List String) (plans : List Plan) :
    List.Forall₂ Serves (ofPlans s used plans) plans := by
  induction plans generalizing used with
  | nil => exact .nil
  | cons p plans ih => exact .cons ⟨rfl, Conversion.pairs_ofSources s p.mapping used p.table.entries⟩ (ih _)

theorem pairs_ofPlans (s : Schema) (used : List String) (plans : List Plan) :
    ((ofPlans s used plans).flatMap (·.conversions)).map (fun conv => (conv.source, conv.dest)) =
      plans.flatMap fun p => p.table.keys.map fun source => (source, p.dest) := by
  induction plans generalizing used with
  | nil => rfl
  | cons p plans ih =>
    rw [ofPlans, List.flatMap_cons, List.map_append, Conversion.pairs_ofSources, ih, List.flatMap_cons]
    rfl

end Bridge

/-- Plans of distinct destinations have no pair of a source and a destination in common. -/
theorem Plan.nodup_pairs (hdests : (plans.map (·.dest)).Nodup) (hsources : ∀ p ∈ plans, p.table.keys.Nodup) :
    (plans.flatMap fun p => p.table.keys.map fun source => (source, p.dest)).Nodup := by
  refine List.nodup_flatMap.mpr ⟨fun p hp => (hsources p hp).map fun _ _ h => (Prod.mk.inj h).1, ?_⟩
  refine (List.pairwise_map.mp hdests).imp fun hne pair hp hq => hne ?_
  obtain ⟨_, _, rfl⟩ := List.mem_map.mp hp
  obtain ⟨_, _, h⟩ := List.mem_map.mp hq
  exact (Prod.mk.inj h).2.symm

/-- In a module for plans of distinct destinations the search for the name of each conversion ends, at the plain name or
else at the least number that no conversion before it has made its own. The names of all conversions differ. Exactly the
pairs of a source and a destination of the plans are registered, in order; and each of them is registered once, with a
function that its plan offers once. -/
theorem Module.names_settled (s : Schema) (plans : List Plan) (file docstring : Option String)
    (hdests : (plans.map (·.dest)).Nodup) (hsources : ∀ p ∈ plans, p.table.keys.Nodup) :
    let m := ofPlans s plans file docstring
    (∀ before conv after, m.conversions = before ++ conv :: after →
      Finds (functionName conv.dest conv.source.text) (before.map (·.name)) (functionName conv.dest conv.source.text) 2
        conv.name ∧
      Settles (functionName conv.dest conv.source.text) (before.map (·.name)) conv.name) ∧
    (m.conversions.map (·.name)).Nodup ∧
    List.Forall₂ Bridge.Serves m.bridges plans ∧
    (m.registrations.map fun r => (r.source, r.dest)) =
      (plans.flatMap fun p => p.table.keys.map fun source => (source, p.dest)) ∧
    ∀ b ∈ m.bridges, ∀ conv ∈ b.conversions,
      (m.registrations.map fun r => (r.source, r.dest)).count (conv.source, conv.dest) = 1 ∧
      ⟨conv.source, conv.dest, conv.name⟩ ∈ m.registrations ∧ (b.conversions.map (·.name)).count conv.name = 1 := by
  intro m
  obtain ⟨hnames, _⟩ := Bridge.names_ofPlans s [] plans
  have hpairs : (m.registrations.map fun r => (r.source, r.dest)) =
      (plans.flatMap fun p => p.table.keys.map fun source => (source, p.dest)) := by
    rw [← Bridge.pairs_ofPlans s [] plans, registrations, List.map_map]
    rfl
  refine ⟨fun before conv after h => ?_, hnames, Bridge.serves_ofPlans s [] plans, hpairs, fun b hb conv hconv => ?_⟩
  · have hsettles : Settles (functionName conv.dest conv.source.text) (before.map (·.name)) conv.name := by
      simpa [Conversion.Named] using Bridge.named_ofPlans h
    exact ⟨hsettles.finds, hsettles⟩
  · have hreg : ⟨conv.source, conv.dest, conv.name⟩ ∈ m.registrations :=
      List.mem_map.mpr ⟨conv, List.mem_flatMap.mpr ⟨b, hb, hconv⟩, rfl⟩
    have hown : (b.conversions.map (·.name)).Nodup := by
      have hsublist : b.conversions.Sublist m.conversions := by
        rw [conversions, List.flatMap_def]
        exact List.sublist_flatten_of_mem (List.mem_map_of_mem hb)
      exact hnames.sublist (hsublist.map _)
    refine ⟨?_, hreg, List.count_eq_one_of_mem hown (List.mem_map_of_mem hconv)⟩
    refine List.count_eq_one_of_mem (hpairs ▸ Plan.nodup_pairs hdests hsources) ?_
    exact List.mem_map.mpr ⟨_, hreg, rfl⟩

/-- Two destinations whose sources differ in the size of letters only, or by a number. -/
def Plan.crowded : List Plan :=
  let plan (dest : String) (sources : List String) : Plan :=
    ⟨⟨dest, sources.map .ofName, none, [], [], {}⟩, ⟨sources.map fun source => (.ofName source, ∅)⟩⟩
  [plan "X" ["S", "s", "s_2"], plan "x" ["s"]]

theorem Module.names_settled_crowded :
    (Plan.crowded.map (·.dest)).Nodup ∧ (∀ p ∈ Plan.crowded, p.table.keys.Nodup) ∧
    (ofPlans ⟨[], []⟩ Plan.crowded none none).conversions.map (·.name) =
      ["x_from_s", "x_from_s_2", "x_from_s_2_2", "x_from_s_3"] ∧
    Finds "x_from_s_2" ["x_from_s", "x_from_s_2"] "x_from_s_2" 2 "x_from_s_2_2" := by
  have hdests : (Plan.crowded.map (·.dest)).Nodup := by decide +kernel
  have hsources : ∀ p ∈ Plan.crowded, p.table.keys.Nodup := by decide +kernel
  refine ⟨hdests, hsources, by decide +kernel, ?_⟩
  obtain ⟨hfinds, _⟩ := names_settled ⟨[], []⟩ Plan.crowded none none hdests hsources
  let all := (ofPlans ⟨[], []⟩ Plan.crowded none none).conversions
  let third := all.get ⟨2, by decide +kernel⟩
  obtain ⟨h, _⟩ := hfinds (all.take 2) third (all.drop 3) (by decide +kernel)
  have hplain : functionName third.dest third.source.text = "x_from_s_2" := by decide +kernel
  have hbefore : (all.take 2).map (·.name) = ["x_from_s", "x_from_s_2"] := by decide +kernel
  have hname : third.name = "x_from_s_2_2" := by decide +kernel
  rwa [hplain, hbefore, hname] at h

end UnionBridge
