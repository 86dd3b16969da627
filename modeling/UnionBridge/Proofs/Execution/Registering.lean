import UnionBridge.Proofs.Execution.Registration

/-! Registering conversions under pairs of classes, while names keep their meaning. -/
namespace UnionBridge

open Loading

variable {w w' v : World} {home : Nat} {name registry : String} {d : DottedName} {x : Value} {a b : ClassRef} {u : Unit}
  {c : Converter} {k k' : ConverterKey}

/-! ### Registries -/

/-- The key for a pair of classes. -/
def ConverterKey.ofClasses (source target : ClassRef) : ConverterKey := ⟨.cls source, .cls target, false⟩

theorem Value.equal_cls_iff : x.equal (.cls a) ↔ x = .cls a := equal_iff_itself rfl

namespace ConverterKey

/-- The pair of classes that a key is for. -/
def classes? (k : ConverterKey) : Option (ClassRef × ClassRef) :=
  match k with
  | ⟨.cls a, .cls b, false⟩ => some (a, b)
  | _ => none

theorem same_ofClasses_iff : k.same (.ofClasses a b) ↔ k = .ofClasses a b := by
  obtain ⟨source, target, fallible⟩ := k
  cases fallible <;> simp [same, ofClasses, Value.equal_cls_iff]

theorem ofClasses_injective {a' b' : ClassRef} : ofClasses a b = ofClasses a' b' ↔ a = a' ∧ b = b' := by
  simp [ofClasses]

end ConverterKey

namespace Registry

theorem get?_register_ofClasses (r : Registry) (a b a' b' : ClassRef) (c : Converter) :
    (r.register (.ofClasses a b) c).get? (.ofClasses a' b') =
      if a = a' ∧ b = b' then some c else r.get? (.ofClasses a' b') := by
  simp only [get?_register, ConverterKey.same_ofClasses_iff, ConverterKey.ofClasses_injective]

theorem get?_eq_none {r : Registry} (h : ∀ e ∈ r.entries, e.1.classes? ≠ some (a, b)) :
    r.get? (.ofClasses a b) = none := by
  simp only [get?, Option.map_eq_none_iff, List.find?_eq_none, ConverterKey.same_ofClasses_iff]
  intro e he heq
  exact h e he (by rw [heq]; rfl)

end Registry

theorem World.registry_register (w : World) (registry : String) (k : ConverterKey) (c : Converter) :
    (w.register registry k c).registry registry = (w.registry registry).register k c := by
  rw [World.registry_register_ite, if_pos rfl]

/-- Registering leaves the names of modules as they are. -/
theorem World.global_register (home : Nat) (registry name : String) (k : ConverterKey) (c : Converter) :
    (w.register registry k c).global home name = w.global home name := rfl

/-! ### What names stand for -/

/-- Two worlds between which only registries, importable modules and the last names of a module differ. -/
structure World.Alike (v w : World) (home : Nat) : Prop where
  classes : v.classes = w.classes
  misplaced : v.misplaced = w.misplaced
  others : ∀ id, id ≠ home → v.module? id = w.module? id
  names : ∀ name, name ∉ ["_registry", "__all__"] → (v.globals home).get? name = (w.globals home).get? name

namespace World.Alike

protected theorem refl (w : World) (home : Nat) : w.Alike w home := ⟨rfl, rfl, fun _ _ => rfl, fun _ _ => rfl⟩

protected theorem symm (h : v.Alike w home) : w.Alike v home :=
  ⟨h.classes.symm, h.misplaced.symm, fun id hid => (h.others id hid).symm, fun name hn => (h.names name hn).symm⟩

protected theorem trans (h : v.Alike w home) (h' : w.Alike w' home) : v.Alike w' home :=
  ⟨h.classes.trans h'.classes, h.misplaced.trans h'.misplaced, fun id hid => (h.others id hid).trans (h'.others id hid),
    fun name hn => (h.names name hn).trans (h'.names name hn)⟩

theorem register (w : World) (home : Nat) (registry : String) (k : ConverterKey) (c : Converter) :
    (w.register registry k c).Alike w home := ⟨rfl, rfl, fun _ _ => rfl, fun _ _ => rfl⟩

theorem addAll (w : World) (home : Nat) (as : List Addition) : (w.addAll as).Alike w home := by
  rw [World.addAll_eq]
  exact ⟨rfl, rfl, fun _ _ => rfl, fun _ _ => rfl⟩

theorem setImportable (w : World) (home : Nat) (name : String) (m : Option ModuleRef) :
    (w.setImportable name m).Alike w home := ⟨rfl, rfl, fun _ _ => rfl, fun _ _ => rfl⟩

theorem setGlobal (hh : home < w.modules.length) (hn : name ∈ ["_registry", "__all__"]) (x : Value) :
    (w.setGlobal home name x).Alike w home where
  classes := rfl
  misplaced := rfl
  others id hid := by
    simp only [World.setGlobal, module?, List.getElem?_modify_ne _ _ hid.symm]
  names name' hn' := by
    rw [World.setGlobal_eq, World.globals_setGlobals hh]
    exact Table.get?_insert_of_ne _ _ fun heq => hn' (heq ▸ hn)

theorem global_eq (h : v.Alike w home) (hn : name ∉ ["_registry", "__all__"]) : v.global home name = w.global home name := by
  simp only [World.global, h.names name hn]

end World.Alike

/-- A path means a value in a module, whatever happens to registries meanwhile. -/
def World.Means (w : World) (home : Nat) (d : DottedName) (x : Value) : Prop :=
  ∀ v : World, v.Alike w home → v.globalPath home d = .ok x

namespace World.Means

theorem of_alike (h : w.Means home d x) (hv : v.Alike w home) : v.Means home d x := fun _ hv' => h _ (hv'.trans hv)

/-- A name without a dot means what the module has under it. -/
theorem of_name (hn : name ∉ ["_registry", "__all__"]) (h : w.global home name = .ok x) :
    w.Means home (.ofName name) x := by
  intro v hv
  simp only [World.globalPath, DottedName.ofName, hv.global_eq hn, h]
  rfl

theorem global_eq (h : w.Means home (.ofName name) x) : w.global home name = .ok x := by
  have hx := h w (.refl w home)
  simp only [World.globalPath, DottedName.ofName] at hx
  cases hg : w.global home name with
  | error e =>
    rw [hg] at hx
    cases hx
  | ok y =>
    rw [hg] at hx
    exact hx

end World.Means

namespace Scope

variable {s : Scope} {l : Locals}

/-- A path that no variable hides means what it means in the module. -/
theorem path_of_foreign (h : d.head ∉ s.own) : s.path l d = s.world.globalPath s.home d := by
  simp [path, World.globalPath, name, h]

theorem name_of_foreign (h : name ∉ s.own) : s.name l name = s.world.global s.home name := by
  simp [Scope.name, h]

end Scope

/-! ### Registrations -/

namespace Registration

/-- What a registration mentions means two classes and a value, and none of it is hidden by the parameter. -/
structure Refers (r : Registration) (w : World) (home : Nat) (source dest : ClassRef) (f : Value) : Prop where
  source : w.Means home r.source (.cls source)
  dest : w.Means home (.ofName r.dest) (.cls dest)
  function : w.Means home (.ofName r.function) f
  shown : parameter ∉ [r.source.head, r.dest, r.function]

theorem Refers.of_alike {r : Registration} {f : Value} (h : r.Refers w home a b f) (hv : v.Alike w home) :
    r.Refers v home a b f :=
  ⟨h.source.of_alike hv, h.dest.of_alike hv, h.function.of_alike hv, h.shown⟩

/-- A registration puts what its function means under the classes that its source and its destination mean. -/
theorem Refers.gives_execute {r : Registration} {f : Value} (h : r.Refers w home a b f) (registry : String) :
    Gives (r.execute home registry) w () (w.register registry (.ofClasses a b) (.callable f)) := by
  obtain ⟨hsource, hdest, hfunction, hshown⟩ := h
  simp only [List.mem_cons, List.not_mem_nil, or_false, not_or] at hshown
  refine gives_execute_iff.mpr ⟨_, addition?_eq_ok_iff.mpr ⟨.cls a, .cls b, f, evaluated?_eq_ok_iff.mpr ⟨?_, ?_, ?_⟩, rfl, rfl⟩, rfl⟩
  · exact (Scope.path_of_foreign (by simpa [scope] using Ne.symm hshown.1)).trans (hsource w (.refl w home))
  · exact (Scope.name_of_foreign (by simpa [scope] using Ne.symm hshown.2.1)).trans hdest.global_eq
  · exact (Scope.name_of_foreign (by simpa [scope] using Ne.symm hshown.2.2)).trans hfunction.global_eq

variable {rs : List Registration} {source dest : Registration → ClassRef} {f : Registration → Value}

/-- Several registrations all succeed. Each is found afterwards, unless another one is for the same pair of classes, and
pairs for which there is none keep what they had. -/
theorem exists_forM (h : ∀ r ∈ rs, r.Refers w home (source r) (dest r) (f r)) (registry : String) :
    ∃ w', Gives (rs.forM (·.execute home registry)) w () w' ∧ w'.Alike w home ∧
      (∀ r ∈ rs, (∀ r' ∈ rs, source r' = source r → dest r' = dest r → r' = r) →
        (w'.registry registry).get? (.ofClasses (source r) (dest r)) = some (.callable (f r))) ∧
      ∀ a b, (∀ r ∈ rs, ¬(source r = a ∧ dest r = b)) →
        (w'.registry registry).get? (.ofClasses a b) = (w.registry registry).get? (.ofClasses a b) := by
  induction rs generalizing w with
  | nil => exact ⟨w, gives_forM_nil.mpr rfl, .refl w home, by simp, fun _ _ _ => rfl⟩
  | cons r rs ih =>
    have hr := (h r List.mem_cons_self).gives_execute registry
    have halike := World.Alike.register w home registry (.ofClasses (source r) (dest r)) (.callable (f r))
    obtain ⟨w', hrs, halike', hfound, hkept⟩ :=
      ih fun r' hr' => (h r' (List.mem_cons_of_mem r hr')).of_alike halike
    refine ⟨w', gives_forM_cons.mpr ⟨_, hr, hrs⟩, halike'.trans halike, fun r' hr' huniq => ?_, fun a b hab => ?_⟩
    · by_cases hmem : r' ∈ rs
      · exact hfound r' hmem fun r'' hr'' => huniq r'' (List.mem_cons_of_mem r hr'')
      · obtain rfl : r' = r := (List.mem_cons.mp hr').resolve_right hmem
        rw [hkept, World.registry_register, Registry.get?_register_ofClasses, if_pos ⟨rfl, rfl⟩]
        rintro r'' hr'' ⟨hs, hd⟩
        exact hmem (huniq r'' (List.mem_cons_of_mem _ hr'') hs hd ▸ hr'')
    · rw [hkept a b fun r' hr' => hab r' (List.mem_cons_of_mem r hr'), World.registry_register,
        Registry.get?_register_ofClasses, if_neg (hab r List.mem_cons_self)]

end Registration

end UnionBridge
