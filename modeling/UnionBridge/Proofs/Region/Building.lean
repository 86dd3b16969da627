import UnionBridge.Proofs.Region.Growth

/-! A world while a module comes into it. Every step leaves what was there as it was, and only adds what is new. -/
namespace UnionBridge

variable {w x x' : World} {home : Nat} {names more : List String} {name : String} {v : Value}

/-- What holds of the elements of a list, and stays when one of them is changed. -/
theorem forall_mem_modify {α : Type} {p : α → Prop} {l : List α} {i : Nat} {f : α → α} (h : ∀ a ∈ l, p a)
    (hf : ∀ a, p a → p (f a)) : ∀ a ∈ l.modify i f, p a := by
  intro a ha
  obtain ⟨j, hj⟩ := List.getElem?_of_mem ha
  rw [List.getElem?_modify] at hj
  obtain ⟨b, hb, rfl⟩ := Option.map_eq_some_iff.mp hj
  have hb := h b (List.mem_of_getElem? hb)
  split
  · exact hf b hb
  · exact hb

namespace World

/-- A sound world in which something changed is sound if what is new leads to nothing that is not there. -/
theorem Sound.of_change (h : x.Sound) (hle : x.region.Le x'.region)
    (hclasses : ∀ c ∈ x'.classes, c ∈ x.classes ∨ c.Within x'.region)
    (hmodules : ∀ m ∈ x'.modules, m ∈ x.modules ∨ m.globals.Within x'.region) (hmisplaced : x'.misplaced.Within x'.region)
    (hrest : (x'.registries, x'.outside, x'.dormant) = (x.registries, x.outside, x.dormant))
    (himportable : ∀ name m, x'.importable.get? name = some m → x.importable.get? name = some m ∨ m.Within x'.region) :
    x'.Sound where
  classes c hc := (hclasses c hc).elim (fun hc => (h.classes c hc).mono hle) id
  modules m hm := (hmodules m hm).elim (fun hm => (h.modules m hm).mono hle) id
  misplaced := hmisplaced
  registered name e he := by
    rw [registry, (Prod.mk.inj hrest).1] at he
    obtain ⟨ht, hc⟩ := h.registered name e he
    exact ⟨ht.mono hle, hc.mono hle⟩
  importable name m hm := (himportable name m hm).elim (fun hm => (h.importable name m hm).mono hle) id
  outside ρ hρ := by
    rw [(Prod.mk.inj (Prod.mk.inj hrest).2).1]
    exact h.outside ρ (hle.trans hρ)

/-- What a world had is as it was after a change of what came in since. -/
theorem Grown.of_change (h : w.Grown x) (hclasses : x.classes.length ≤ x'.classes.length)
    (hmodules : x.modules.length ≤ x'.modules.length)
    (hclass : ∀ id < w.classes.length, x'.classes[id]? = x.classes[id]?)
    (hmodule : ∀ id < w.modules.length, x'.modules[id]? = x.modules[id]?)
    (hmisplaced : ∀ f : FunctionRef, f.Within w.region → x'.misplaced.get? f = x.misplaced.get? f)
    (hrest : (x'.registries, x'.outside, x'.dormant) = (x.registries, x.outside, x.dormant)) : w.Grown x' where
  classes_le := h.classes_le.trans hclasses
  modules_le := h.modules_le.trans hmodules
  class_eq id hid := (hclass id hid).trans (h.class_eq id hid)
  module_eq id hid := (hmodule id hid).trans (h.module_eq id hid)
  misplaced_eq f hf := (hmisplaced f hf).trans (h.misplaced_eq f hf)
  registry_eq name := by
    rw [registry, (Prod.mk.inj hrest).1]
    exact h.registry_eq name
  outside_eq := (Prod.mk.inj (Prod.mk.inj hrest).2).1.trans h.outside_eq
  dormant_le path l hl := by
    rw [(Prod.mk.inj (Prod.mk.inj hrest).2).2] at hl
    exact h.dormant_le path l hl

/-- A module comes into a world. What has come in so far leads to nothing that is not there, and what the module has under
some names is new. -/
structure Building (w : World) (home : Nat) (names : List String) (x : World) : Prop where
  grown : w.Grown x
  sound : x.Sound
  new : w.modules.length ≤ home
  known : home < x.modules.length
  fresh : ∀ n ∈ names, ∃ v, (x.globals home).get? n = some v ∧ w.Lacks v

theorem region_setGlobal : (x.setGlobal home name v).region = x.region := by
  rw [region, region, show (x.setGlobal home name v).modules.length = x.modules.length from List.length_modify ..]
  rfl

theorem region_setClass {id : Nat} {g : DeclaredClass → DeclaredClass} : (x.setClass id g).region = x.region := by
  rw [region, region, show (x.setClass id g).classes.length = x.classes.length from List.length_modify ..]
  rfl

namespace Building

variable (h : w.Building home names x)
include h

theorem mono (hsub : ∀ n ∈ more, n ∈ names) : w.Building home more x :=
  { h with fresh := fun n hn => h.fresh n (hsub n hn) }

/-- Words of the language apart, what the module has under these names is new. -/
theorem lacks_of_global (hn : name ∈ names) (hc : constant? name = none) (hv : x.global home name = .ok v) : w.Lacks v := by
  obtain ⟨v', hget, hlacks⟩ := h.fresh name hn
  obtain rfl := Except.ok.inj ((global_of_get? hc hget).symm.trans hv)
  exact hlacks

/-- No word of the language means a class. -/
theorem le_class {id : Nat} (hn : name ∈ names) (hv : x.global home name = .ok (.cls (.declared id))) :
    w.classes.length ≤ id := by
  cases hc : constant? name with
  | some c =>
    rw [global_of_constant hc] at hv
    obtain rfl := Except.ok.inj hv
    unfold constant? at hc
    split at hc <;> cases hc
  | none => exact (h.lacks_of_global hn hc hv).le_class

theorem not_within_function {f : FunctionRef} (hn : name ∈ names) (hv : x.global home name = .ok (.function f)) :
    ¬f.Within w.region := by
  cases hc : constant? name with
  | some c =>
    rw [global_of_constant hc] at hv
    obtain rfl := Except.ok.inj hv
    unfold constant? at hc
    split at hc <;> cases hc
  | none => exact (h.lacks_of_global hn hc hv).not_within_function

/-- The module gets a value under a name. -/
theorem bind (hv : v.Within x.region) (hmore : ∀ n ∈ more, (n = name ∧ w.Lacks v) ∨ n ≠ name ∧ n ∈ names) :
    w.Building home more (x.setGlobal home name v) := by
  have hlength : (x.setGlobal home name v).modules.length = x.modules.length := List.length_modify ..
  refine ⟨h.grown.of_change le_rfl hlength.ge (fun _ _ => rfl) (fun id hid => ?_) (fun _ _ => rfl) rfl,
    h.sound.of_change ?_ (fun _ hc => .inl hc) (fun m hm => .inr ?_) ?_ rfl fun _ _ hm => .inl hm, h.new, ?_, fun n hn => ?_⟩
  · exact List.getElem?_modify_ne _ _ (by have := h.new; omega)
  · rw [region_setGlobal]
    exact Region.below_mono le_rfl le_rfl
  · rw [region_setGlobal]
    exact forall_mem_modify (p := fun m : LoadedModule => m.globals.Within x.region) h.sound.modules
      (fun m hm => hm.insert _ hv) m hm
  · rw [region_setGlobal]
    exact h.sound.misplaced
  · rw [hlength]
    exact h.known
  · rw [setGlobal_eq, globals_setGlobals h.known, Table.insertAll_cons]
    rcases hmore n hn with ⟨rfl, hlacks⟩ | ⟨hne, hn⟩
    · exact ⟨v, Table.get?_insert_self .., hlacks⟩
    · obtain ⟨v', hget, hlacks⟩ := h.fresh n hn
      exact ⟨v', (Table.get?_insert_of_ne _ v hne.symm).trans hget, hlacks⟩

/-- A name means something new from now on. -/
theorem bind_new (hv : v.Within x.region) (hlacks : w.Lacks v) : w.Building home (name :: names) (x.setGlobal home name v) :=
  h.bind hv fun n hn => by
    by_cases hname : n = name
    · exact .inl ⟨hname, hlacks⟩
    · exact .inr ⟨hname, (List.mem_cons.mp hn).resolve_left hname⟩

/-- A class that came in is changed. -/
theorem setClass {id : Nat} {g : DeclaredClass → DeclaredClass} (hid : w.classes.length ≤ id)
    (hg : ∀ c : DeclaredClass, c.Within x.region → (g c).Within x.region) : w.Building home names (x.setClass id g) := by
  have hlength : (x.setClass id g).classes.length = x.classes.length := List.length_modify ..
  refine ⟨h.grown.of_change hlength.ge le_rfl (fun id' hid' => ?_) (fun _ _ => rfl) (fun _ _ => rfl) rfl,
    h.sound.of_change ?_ (fun c hc => .inr ?_) (fun _ hm => .inl hm) ?_ rfl fun _ _ hm => .inl hm, h.new, h.known, h.fresh⟩
  · exact List.getElem?_modify_ne _ _ (by omega)
  · rw [region_setClass]
    exact Region.below_mono le_rfl le_rfl
  · rw [region_setClass]
    exact forall_mem_modify h.sound.classes hg c hc
  · rw [region_setClass]
    exact h.sound.misplaced

theorem setAttribute {id : Nat} (hid : w.classes.length ≤ id) (hv : v.Within x.region) :
    w.Building home names (x.setAttribute id name v) :=
  h.setClass hid fun _ hc => { hc with attributes := hc.attributes.insert name hv }

theorem rename {variant : Nat} {union : ClassRef} (hvariant : w.classes.length ≤ variant) :
    w.Building home names (x.rename variant union name) :=
  h.setClass hvariant fun _ hc => { hc with }

/-- A class comes in. -/
theorem addClass {c : ClassRef → DeclaredClass}
    (hc : (c (.declared x.classes.length)).Within (x.addClass c).2.region) : w.Building home names (x.addClass c).2 := by
  have hle : x.region.Le (x.addClass c).2.region := Region.below_mono (by simp [World.addClass]) le_rfl
  refine ⟨h.grown.of_change (by simp [World.addClass]) le_rfl (fun id hid => ?_) (fun _ _ => rfl) (fun _ _ => rfl) rfl,
    h.sound.of_change hle (fun d hd => ?_) (fun _ hm => .inl hm) (h.sound.misplaced.mono hle) rfl fun _ _ hm => .inl hm,
    h.new, h.known, h.fresh⟩
  · exact List.getElem?_append_left (hid.trans_le h.grown.classes_le)
  · rcases List.mem_append.mp hd with hd | hd
    · exact .inl hd
    · exact .inr (List.mem_singleton.mp hd ▸ hc)

/-- A function that came in gets a dispatcher. -/
theorem misplace {f : FunctionRef} (hf : ¬f.Within w.region) (hv : v.Within x.region) :
    w.Building home names { x with misplaced := x.misplaced.insert f v } := by
  refine ⟨h.grown.of_change le_rfl le_rfl (fun _ _ => rfl) (fun _ _ => rfl) (fun g hg => ?_) rfl,
    h.sound.of_change (Region.below_mono le_rfl le_rfl) (fun _ hc => .inl hc) (fun _ hm => .inl hm) ?_ rfl
      fun _ _ hm => .inl hm, h.new, h.known, h.fresh⟩
  · refine Table.get?_insert_of_ne _ v ?_
    rintro rfl
    exact hf hg
  · exact h.sound.misplaced.insert f hv

/-- A converter for something new comes in. -/
theorem register {registry : String} {k : ConverterKey} {c : Converter} (ht : k.target.Within x.region)
    (hc : c.Within x.region) (hlacks : w.Lacks k.target) (hsound : w.Sound) : w.Building home names (x.register registry k c) := by
  refine ⟨{ h.grown with registry_eq := fun name => ?_ }, h.sound.register ht hc, h.new, h.known, h.fresh⟩
  obtain ⟨added, heq, hadded⟩ := h.grown.registry_eq name
  rw [registry_register_ite]
  split
  · refine ⟨Registry.setEntry k c added, ?_, fun e he => ?_⟩
    · rw [Registry.register, heq]
      refine Registry.setEntry_append fun e he hsame => ?_
      simp only [ConverterKey.same, Bool.and_eq_true] at hsame
      exact (hlacks _ (hsound.registered name e he).1).1 hsame.1.2
    · rcases Registry.mem_setEntry he with he | ⟨_, hk | ⟨d, hd, hk⟩⟩
      · exact hadded e he
      · rwa [hk]
      · exact hk ▸ hadded d hd
  · exact ⟨added, heq, hadded⟩

/-- Converters for new things come in. -/
theorem addAll {as : List Addition} (hsound : w.Sound)
    (has : ∀ a ∈ as, a.2.1.target.Within x.region ∧ a.2.2.Within x.region ∧ w.Lacks a.2.1.target) :
    w.Building home names (x.addAll as) := by
  induction as generalizing x with
  | nil => exact h
  | cons a as ih =>
    obtain ⟨⟨ht, hc, hlacks⟩, has⟩ := List.forall_mem_cons.mp has
    exact ih (h.register ht hc hlacks hsound) has

/-- Modules are run that register nothing. -/
theorem run (hquiet : w.Quiet) (paths : List String) : w.Building home names (x.runAll paths) := by
  obtain ⟨as, t, hrun, has, ht⟩ := x.exists_runAll paths
  obtain rfl : as = [] := by
    refine List.eq_nil_iff_forall_not_mem.mpr fun a ha => ?_
    obtain ⟨path, _, l, hl, ha⟩ := has a ha
    rw [(h.grown.quiet hquiet).dormant path l hl] at ha
    cases ha
  rw [hrun]
  exact ⟨{ h.grown with dormant_le := fun path l hl => h.grown.dormant_le path l (ht path l hl) }, { h.sound with },
    h.new, h.known, h.fresh⟩

end Building

end World

end UnionBridge
