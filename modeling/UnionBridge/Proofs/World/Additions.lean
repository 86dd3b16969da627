import UnionBridge.Execution.Import
import UnionBridge.Proofs.World.Registry

/-! What comes into registries while a module is executed, besides its own conversions: what the modules register that its
imports run, and what its calls register. All the rest of the world stays as it is. -/
namespace UnionBridge

variable {w : World} {as : List Addition} {a : Addition} {f v : Value} {s : Supplied} {home : Nat} {name path : String}
  {paths : List String}

/-- Registries once some converters came in, one after the other. -/
def added (as : List Addition) (t : Table String Registry) : Table String Registry :=
  as.foldl (fun t a => t.alter a.1 fun r => (r.getD ∅).register a.2.1 a.2.2) t

theorem added_append {bs : List Addition} {t : Table String Registry} : added (as ++ bs) t = added bs (added as t) :=
  List.foldl_append

namespace World

/-- A world with other registries. -/
def withRegistries (w : World) (t : Table String Registry) : World := { w with registries := t }

theorem addAll_eq (w : World) (as : List Addition) : w.addAll as = w.withRegistries (added as w.registries) := by
  induction as generalizing w with
  | nil => rfl
  | cons a as ih => exact ih (w.register a.1 a.2.1 a.2.2)

@[simp]
theorem addAll_nil : w.addAll [] = w := rfl

theorem addAll_addAll {bs : List Addition} : (w.addAll as).addAll bs = w.addAll (as ++ bs) := List.foldl_append.symm

@[simp]
theorem registries_addAll : (w.addAll as).registries = added as w.registries := by rw [addAll_eq]; rfl

@[simp]
theorem classes_addAll : (w.addAll as).classes = w.classes := by rw [addAll_eq]; rfl

@[simp]
theorem modules_addAll : (w.addAll as).modules = w.modules := by rw [addAll_eq]; rfl

@[simp]
theorem importable_addAll : (w.addAll as).importable = w.importable := by rw [addAll_eq]; rfl

@[simp]
theorem misplaced_addAll : (w.addAll as).misplaced = w.misplaced := by rw [addAll_eq]; rfl

@[simp]
theorem outside_addAll : (w.addAll as).outside = w.outside := by rw [addAll_eq]; rfl

@[simp]
theorem dormant_addAll : (w.addAll as).dormant = w.dormant := by rw [addAll_eq]; rfl

@[simp]
theorem class?_addAll {c : ClassRef} : (w.addAll as).class? c = w.class? c := by rw [addAll_eq]; rfl

@[simp]
theorem globals_addAll : (w.addAll as).globals home = w.globals home := by rw [addAll_eq]; rfl

@[simp]
theorem global_addAll : (w.addAll as).global home name = w.global home name := by rw [addAll_eq]; rfl

/-! ### Imports -/

/-- The modules that are run register what they have to register, and are run no more. -/
theorem exists_runAll (w : World) (paths : List String) : ∃ as t, w.runAll paths = { w.addAll as with dormant := t } ∧
    (∀ a ∈ as, ∃ path ∈ paths, ∃ l, w.dormant.get? path = some l ∧ a ∈ l) ∧
    ∀ path l, t.get? path = some l → w.dormant.get? path = some l := by
  induction paths generalizing w with
  | nil => exact ⟨[], w.dormant, rfl, by simp, fun _ _ h => h⟩
  | cons path paths ih =>
    obtain ⟨as, t, hrun, has, ht⟩ := ih (w.run path)
    have hleft (path' : String) (l : List Addition) (h : (w.run path).dormant.get? path' = some l) :
        w.dormant.get? path' = some l := by
      change (w.dormant.erase path).get? path' = some l at h
      rw [Table.get?_erase] at h
      split at h
      · cases h
      · exact h
    refine ⟨(w.dormant.get? path).getD [] ++ as, t, ?_, fun a ha => ?_, fun path' l h => hleft path' l (ht path' l h)⟩
    · change (w.run path).runAll paths = _
      rw [hrun, addAll_eq, addAll_eq, run, added_append, addAll_eq]
      rfl
    · rcases List.mem_append.mp ha with ha | ha
      · cases hl : w.dormant.get? path with
        | none =>
          rw [hl] at ha
          cases ha
        | some l =>
          rw [hl] at ha
          exact ⟨path, List.mem_cons_self, l, hl, ha⟩
      · obtain ⟨path', hpath, l, hl, ha⟩ := has a ha
        exact ⟨path', List.mem_cons_of_mem _ hpath, l, hleft path' l hl, ha⟩

/-! ### Calls -/

theorem converting?_of_length (h : s.positional.length ≠ 3) : converting? f s = none := by
  unfold converting?
  split
  · rfl
  · exact absurd rfl h
  · rfl

/-- Converters that what is outside of the program registers. -/
def FromOutside (w : World) (as : List Addition) : Prop := ∀ a ∈ as, ∃ f s, a ∈ w.outside.registers f s

theorem fromOutside_nil : w.FromOutside [] := fun _ ha => absurd ha List.not_mem_nil

theorem FromOutside.append {bs : List Addition} (has : w.FromOutside as) (hbs : w.FromOutside bs) :
    w.FromOutside (as ++ bs) := List.forall_mem_append.mpr ⟨has, hbs⟩

theorem calling_of_none (h : converting? f s = none) :
    w.calling f s = (if f.isOutside then w.outside.registers f s else [], w.call f s) := by
  rw [calling, h]

/-- Unless a call passes a source, a target and a function, what comes of it is what comes of any call. -/
theorem call_of_calling (h : s.positional.length ≠ 3) : (w.calling f s).2 = w.call f s := by
  rw [calling_of_none (converting?_of_length h)]

theorem fromOutside_calling (h : s.positional.length ≠ 3) : w.FromOutside (w.calling f s).1 := by
  rw [calling_of_none (converting?_of_length h)]
  intro a ha
  dsimp only at ha
  split at ha
  · exact ⟨f, s, ha⟩
  · cases ha

/-- What a call registers: what is outside does, or the library's own function for that. -/
theorem mem_calling (h : a ∈ (w.calling f s).1) : a ∈ w.outside.registers f s ∨
    ∃ source target fn, f = .function (.builtin .converter) ∧ s = ⟨[source, target, fn], []⟩ ∧
      ConverterKey.require ⟨source, target, false⟩ = .ok () ∧
        a = (Library.registryName, ⟨source, target, false⟩, .callable fn) := by
  unfold calling at h
  split at h
  · rename_i k fn hk
    split at h
    · cases h
    · rename_i hkey
      obtain rfl := List.mem_singleton.mp h
      unfold converting? at hk
      split at hk
      · cases hk
      · cases hk
        exact .inr ⟨_, _, _, rfl, rfl, hkey, rfl⟩
      · cases hk
  · split at h
    · exact .inl h
    · cases h

end World

end UnionBridge
