import UnionBridge.Execution.Scope
import UnionBridge.Module.OfPlans
import UnionBridge.Proofs.Schema.Fields

/-! Names of functions in generated modules: no two conversions share one, and each of them says what it is from. -/
namespace UnionBridge

namespace Naming

variable {base dest source name : String} {used : List String}

theorem numbered_injective (base : String) : Function.Injective (numbered base) := by
  intro m n h
  have hsuffix : "_" ++ toString m = "_" ++ toString n := by
    apply (String.append_right_inj base).mp
    rw [← String.append_assoc, ← String.append_assoc]
    exact h
  exact Nat.repr_injective ((String.append_right_inj "_").mp hsuffix)

theorem className_injective (union : String) : Function.Injective (className union) := fun _ _ h =>
  (String.append_right_inj _).mp h

/-- No class of a variant is called what its union is called: its name is longer. -/
theorem className_ne (union variant : String) : className union variant ≠ union := by
  intro h
  have hlength := congrArg String.length h
  simp only [className, String.length_append] at hlength
  have hline : (toString "_").length = 1 := rfl
  have hunion : (toString union).length = union.length := rfl
  omega

/-- Among one more name than there are used ones, one is free. -/
theorem exists_free (base : String) (used : List String) :
    ∃ name ∈ (List.range (used.length + 1)).map fun i => numbered base (i + 2), name ∉ used := by
  by_contra hall
  push Not at hall
  have hn : ((List.range (used.length + 1)).map fun i => numbered base (i + 2)).Nodup :=
    List.nodup_range.map fun i j h => Nat.add_right_cancel (numbered_injective base h)
  have hle := (hn.subperm hall).length_le
  simp only [List.length_map, List.length_range] at hle
  omega

theorem fresh_notMem (base : String) (used : List String) : fresh base used ∉ used := by
  obtain ⟨free, hfree, hnot⟩ := exists_free base used
  rw [fresh]
  split
  · obtain ⟨name, hname⟩ := Option.isSome_iff_exists.mp
      (List.find?_isSome (p := fun name => !used.contains name) |>.mpr ⟨free, hfree, by simpa using hnot⟩)
    rw [hname]
    simpa using List.find?_some hname
  · rename_i hbase
    simpa using hbase

/-- A fresh name begins with what it is made from. -/
theorem exists_fresh_eq (base : String) (used : List String) : ∃ rest, fresh base used = base ++ rest := by
  rw [fresh]
  split
  · cases hfind : ((List.range (used.length + 1)).map fun i => numbered base (i + 2)).find? fun name =>
        !used.contains name with
    | none => exact ⟨"", String.append_empty.symm⟩
    | some name =>
      obtain ⟨i, _, rfl⟩ := List.mem_map.mp (List.mem_of_find?_eq_some hfind)
      exact ⟨"_" ++ toString (i + 2), String.append_assoc⟩
  · exact ⟨"", String.append_empty.symm⟩

/-- A name that says what it is from. -/
def SaysFrom (name : String) : Prop := "_from_".toList <:+: name.toList

instance : Decidable (SaysFrom name) := inferInstanceAs (Decidable (_ <:+: _))

theorem saysFrom_fresh (dest source : String) (used : List String) : SaysFrom (fresh (functionName dest source) used) := by
  obtain ⟨rest, hrest⟩ := exists_fresh_eq (functionName dest source) used
  refine ⟨(snakeCase dest).toList, (snakeCase source).toList ++ rest.toList, ?_⟩
  rw [hrest]
  simp [functionName, String.toList_append]

theorem saysFrom_dispatcherName (dest : String) : SaysFrom (dispatcherName dest) := by
  refine ⟨('_' :: (snakeCase dest).toList), "source".toList, ?_⟩
  simp [dispatcherName, String.toList_append]

theorem constant?_of_saysFrom (h : SaysFrom name) : constant? name = none := by
  unfold constant?
  split <;> first | rfl | exact absurd h (by decide +kernel)

theorem notMem_of_saysFrom {names : List String} (h : SaysFrom name) (hn : ∀ n ∈ names, ¬SaysFrom n) : name ∉ names :=
  fun hmem => hn name hmem h

theorem foreignName?_of_saysFrom (h : SaysFrom name) : foreignName? name = none := by
  have hfunction : name ∉ foreignFunctions := notMem_of_saysFrom h (by decide +kernel)
  have hclass : name ∉ foreignClasses := notMem_of_saysFrom h (by decide +kernel)
  have hother : name ∉ ["Ellipsis", "NotImplemented"] := notMem_of_saysFrom h (by decide +kernel)
  simp only [List.mem_cons, List.not_mem_nil, or_false, not_or] at hother
  rw [foreignName?, if_neg (by simpa using hfunction), if_neg (by simpa using hclass), if_neg hother.1, if_neg hother.2]

theorem builtinName?_of_saysFrom (h : SaysFrom name) : builtinName? name = none := by
  unfold builtinName?
  split
  case h_11 => exact foreignName?_of_saysFrom h
  all_goals exact absurd h (by decide +kernel)

end Naming

variable {s : Schema} {m : Mapping} {used : List String} {plans : List Plan}
  {entries : List (DottedName × Table String (List Candidate))}

namespace Conversion

/-- The conversions of a plan take names that are not used, and no name twice. -/
theorem names_ofSources (s : Schema) (m : Mapping) (used : List String)
    (entries : List (DottedName × Table String (List Candidate))) :
    (ofSources s m used entries).2 = ((ofSources s m used entries).1.map (·.name)).reverse ++ used ∧
      ((ofSources s m used entries).1.map (·.name)).Nodup ∧
      ∀ conv ∈ (ofSources s m used entries).1, conv.name ∉ used ∧ Naming.SaysFrom conv.name := by
  induction entries generalizing used with
  | nil => simp [ofSources]
  | cons e entries ih =>
    obtain ⟨source, byCase⟩ := e
    obtain ⟨hused, hn, hfree⟩ := ih (Naming.fresh (Naming.functionName m.dest source.text) used :: used)
    have hfresh := Naming.fresh_notMem (Naming.functionName m.dest source.text) used
    refine ⟨?_, ?_, ?_⟩
    · simp only [ofSources, hused, List.map_cons, List.reverse_cons, List.append_assoc, List.singleton_append]
      rfl
    · simp only [ofSources, List.map_cons, List.nodup_cons]
      refine ⟨fun hmem => ?_, hn⟩
      obtain ⟨conv, hconv, hname⟩ := List.mem_map.mp hmem
      exact (hfree conv hconv).1 (hname ▸ List.mem_cons_self)
    · intro conv hconv
      simp only [ofSources, List.mem_cons] at hconv
      rcases hconv with rfl | hconv
      · exact ⟨hfresh, Naming.saysFrom_fresh m.dest source.text used⟩
      · exact ⟨fun h => (hfree conv hconv).1 (List.mem_cons_of_mem _ h), (hfree conv hconv).2⟩

end Conversion

namespace Bridge

/-- The conversions of several plans take names that are not used, and no name twice. -/
theorem names_ofPlans (s : Schema) (used : List String) (plans : List Plan) :
    (((ofPlans s used plans).flatMap (·.conversions)).map (·.name)).Nodup ∧
      ∀ conv ∈ (ofPlans s used plans).flatMap (·.conversions), conv.name ∉ used ∧ Naming.SaysFrom conv.name := by
  induction plans generalizing used with
  | nil => simp [ofPlans]
  | cons p plans ih =>
    obtain ⟨hused, hn, hfree⟩ := Conversion.names_ofSources s p.mapping used p.table.entries
    obtain ⟨hnrest, hrest⟩ := ih (Conversion.ofSources s p.mapping used p.table.entries).2
    constructor
    · simp only [ofPlans, List.flatMap_cons, List.map_append]
      refine List.nodup_append.mpr ⟨hn, hnrest, ?_⟩
      rintro name hname _ hname' rfl
      obtain ⟨conv, hconv, rfl⟩ := List.mem_map.mp hname'
      refine (hrest conv hconv).1 ?_
      rw [hused]
      exact List.mem_append_left _ (List.mem_reverse.mpr hname)
    · intro conv hconv
      simp only [ofPlans, List.flatMap_cons, List.mem_append] at hconv
      rcases hconv with hconv | hconv
      · exact hfree conv hconv
      · refine ⟨fun h => (hrest conv hconv).1 ?_, (hrest conv hconv).2⟩
        rw [hused]
        exact List.mem_append_right _ h

end Bridge

end UnionBridge
