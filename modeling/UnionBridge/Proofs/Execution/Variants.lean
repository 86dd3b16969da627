import UnionBridge.Proofs.Execution.Leftovers
import UnionBridge.Proofs.Execution.Unaffected
import UnionBridge.Proofs.Execution.Unions

/-! What a loaded module shows of the unions of its schema: their variants, in order and each under its name, and the
dispatchers of the destinations, which take the place of a variant of the name that they get. -/
namespace UnionBridge

open Loading

variable {w w' x₁ x₂ x₃ : World} {home id k n : Nat} {m : Module} {u : UnionClass} {us : List UnionClass}

/-! ### The stages of an execution -/

/-- The worlds in which a module that is there now declared its unions, and then its bridges. -/
structure Module.Stages (m : Module) (w : World) (home : Nat) (x₁ x₂ x₃ : World) : Prop where
  unions : Gives (m.unions.forM (·.execute home)) x₁ () x₂
  bridges : Gives (m.bridges.forM (·.execute home)) x₂ () x₃
  alike : w.Alike (x₃.setGlobal home Module.registrar (m.registering home)) home

theorem Module.exists_stages {p : Preamble} {y : Unit} (h : Gives (m.execute home p) w y w') :
    ∃ x₁ x₂ x₃, m.Stages w' home x₁ x₂ x₃ := by
  obtain ⟨x₁, x₂, x₃, x₄, _, hunions, hbridges, hh, _, hregister, rfl⟩ := exists_steps h
  obtain ⟨halike, hmodules⟩ := alike_register home hregister
  have hknown : home < x₄.modules.length := by rwa [hmodules, World.setGlobal_eq, World.length_setGlobals]
  exact ⟨x₁, x₂, x₃, hunions, hbridges, (World.Alike.setGlobal hknown (by decide) _).trans halike⟩

theorem Module.Stages.of_alike (h : m.Stages w home x₁ x₂ x₃) (hw : w'.Alike w home) : m.Stages w' home x₁ x₂ x₃ :=
  ⟨h.unions, h.bridges, hw.trans h.alike⟩

namespace World

variable {r : LoadRequest} {c : Compiled}

theorem exists_stages_of_executeNew {p : Preamble} (h : w.executeNew r m p = (w', .ok id)) :
    ∃ x₁ x₂ x₃, m.Stages w' id x₁ x₂ x₃ := by
  obtain ⟨rfl, after, hrun, rfl⟩ := executeNew_eq_ok_iff.mp h
  obtain ⟨x₁, x₂, x₃, hstages⟩ := Module.exists_stages hrun
  refine ⟨x₁, x₂, x₃, ?_⟩
  split
  · exact hstages
  · exact hstages.of_alike (.setImportable _ _ _ _)

/-- A module that was loaded is well formed, and went through the stages of an execution. -/
theorem exists_stages_of_load (hc : compile r.source r.file r.docstring = .ok c) (h : w.load r = (w', .ok id)) :
    c.module.isWellFormed ∧ ∃ x₁ x₂ x₃, c.module.Stages w' id x₁ x₂ x₃ := by
  have hloads := w.loadsTo_load r
  rw [h] at hloads
  cases hloads with
  | executed hc' hp hx hr =>
    obtain rfl := Except.ok.inj (hc.symm.trans hc')
    exact ⟨LoadRequest.isWellFormed_of_preamble hp, exists_stages_of_executeNew hx⟩
  | adopted hc' hp hx hr ha =>
    obtain rfl := Except.ok.inj (hc.symm.trans hc')
    obtain ⟨x₁, x₂, x₃, hstages⟩ := exists_stages_of_executeNew hx
    have hholds := holds_of_executeNew hx
    obtain ⟨halike, _⟩ := alike_register id (hholds.adopt_iff.mp ha)
    exact ⟨LoadRequest.isWellFormed_of_preamble hp, x₁, x₂, x₃,
      hstages.of_alike (halike.trans (.setGlobal hholds.lt_length (by decide) _))⟩

end World

/-! ### The names of unions -/

theorem Compiled.coherent {source : String} {file doc : Option String} {c : Compiled}
    (hc : compile source file doc = .ok c) (hw : c.module.isWellFormed) : ∀ n ∈ c.module.unions, n.Coherent := by
  obtain ⟨_, _, _, hmodule⟩ := compile_eq_ok_iff.mp hc
  simp only [Module.isWellFormed, Bool.and_eq_true, List.all_eq_true] at hw
  intro n hn
  have hbound := hw.1.2 n hn
  simp only [UnionClass.isWellFormed, Bool.and_eq_true, List.all_eq_true] at hbound
  rw [hmodule] at hn
  obtain ⟨u, hu, rfl⟩ := List.mem_map.mp hn
  refine ⟨fun v hv => ?_, ?_, fun name hname => ?_⟩
  · obtain ⟨t, _, rfl⟩ := List.mem_map.mp hv
    rfl
  · have hcases : (UnionClass.ofUnion u).cases.map (·.case) = u.variants.map (·.name) := by
      simp [UnionClass.ofUnion, CaseClass.ofVariant, Function.comp_def]
    rw [hcases]
    exact (distinct hc).variants u hu
  · rcases List.mem_cons.mp hname with rfl | hname
    · exact Keyword.constant?_of_canBeBound hbound.1
    · obtain ⟨v, hv, rfl⟩ := List.mem_map.mp hname
      exact Keyword.constant?_of_canBeBound (hbound.2 v hv).1

namespace UnionClass

theorem map_fst_allBindings (k : Nat) (us : List UnionClass) :
    (allBindings k us).map Prod.fst = us.flatMap fun u => u.name :: u.cases.map (·.name) := by
  induction us generalizing k with
  | nil => rfl
  | cons u us ih =>
    rw [allBindings, List.map_append, ih, bindings, List.map_cons, CaseClass.map_fst_bindings, List.flatMap_cons]

theorem length_places (k : Nat) (us : List UnionClass) : (places k us).length = us.length := by
  induction us generalizing k with
  | nil => rfl
  | cons u us ih => rw [places, List.length_cons, ih, List.length_cons]

/-- A union among others, with those before it and those after it. -/
theorem exists_split {p : Nat × List Nat} (h : (u, p) ∈ us.zip (places k us)) :
    ∃ pre post k', us = pre ++ u :: post ∧ p.2 = u.numbers p.1 ∧
      allBindings k us = allBindings k pre ++ (u.bindings p.1 ++ allBindings k' post) := by
  induction us generalizing k with
  | nil => cases h
  | cons u' us ih =>
    rw [places, List.zip_cons_cons] at h
    rcases List.mem_cons.mp h with heq | h
    · obtain ⟨rfl, rfl⟩ := Prod.mk.inj heq
      exact ⟨[], us, _, rfl, rfl, rfl⟩
    · obtain ⟨pre, post, k', rfl, hnumbers, hbindings⟩ := ih h
      refine ⟨u' :: pre, post, k', rfl, hnumbers, ?_⟩
      rw [allBindings, hbindings, allBindings, List.append_assoc]

end UnionClass

namespace Module

/-- The names that a module gives to something once a union and its variants have theirs. -/
def boundAfter (m : Module) (name : String) : List String :=
  (m.unions.dropWhile (·.name ≠ name)).tail.flatMap (fun u => u.cases.map (·.name)) ++
    m.bridges.flatMap (fun b => b.conversions.map (·.name) ++ [b.dispatcher.name]) ++
    [registrar, "_registry", "__all__"]

/-- Whether the name of a union stays its own. -/
def keepsUnion (m : Module) (name : String) : Bool := name ∉ m.boundAfter name

/-- Whether the dispatchers leave a variant alone: they take the place of a variant of a destination that is called like
them. -/
def sparesVariant (m : Module) (u : UnionClass) (case : String) : Bool :=
  case ≠ "from_source" || m.bridges.all (·.dest ≠ u.name)

/-- A module whose unions can be declared, and whose destinations are among them. -/
structure Coherent (m : Module) : Prop where
  unions : ∀ u ∈ m.unions, u.Coherent
  names : (m.unions.map (·.name)).Nodup
  dests : ∀ b ∈ m.bridges, b.dest ∈ m.unions.map (·.name) ∧ constant? b.dest = none
  bridges : (m.bridges.map (·.dest)).Nodup

theorem map_fst_definitions (home : Nat) (m : Module) : (m.definitions home).map Prod.fst =
    m.bridges.flatMap fun b => b.conversions.map (·.name) ++ [b.dispatcher.name] := by
  simp [definitions, Bridge.definitions, List.map_flatMap, Function.comp_def]

/-- The name of a union that stays its own is given to nothing else. -/
theorem of_keepsUnion {pre post : List UnionClass} (hn : (m.unions.map (·.name)).Nodup)
    (hm : m.unions = pre ++ u :: post) (hk : m.keepsUnion u.name) (home : Nat) :
    u.name ∉ post.flatMap (fun n => n.cases.map (·.name)) ∧ u.name ∉ (m.definitions home).map Prod.fst ∧
      u.name ≠ registrar ∧ u.name ∉ ["_registry", "__all__"] := by
  have hpre : ∀ n ∈ pre, n.name ≠ u.name := by
    intro n hmem heq
    rw [hm, List.map_append, List.map_cons] at hn
    exact (List.nodup_append.mp hn).2.2 n.name (List.mem_map_of_mem hmem) u.name (by simp) heq
  have hlater : m.unions.dropWhile (·.name ≠ u.name) = u :: post := by
    rw [hm, List.dropWhile_append_of_pos (by simpa using hpre), List.dropWhile_cons_of_neg (by simp)]
  rw [keepsUnion, decide_eq_true_eq, boundAfter, hlater, List.tail_cons, ← map_fst_definitions home] at hk
  simp only [List.mem_append, not_or, List.mem_cons, List.not_mem_nil, or_false] at hk
  exact ⟨hk.1.1, hk.1.2, hk.2.1, by simpa using hk.2.2⟩

namespace Stages

variable (h : m.Stages w home x₁ x₂ x₃) (hm : m.Coherent) (he : w.Equipped home)

include h in
theorem class?_eq (c : ClassRef) : w.class? c = x₃.class? c := by
  cases c <;> simp [World.class?, h.alike.classes, World.setGlobal]

section

include h he

theorem equipped₃ : x₃.Equipped home := by
  have hregistering : (m.registering home).IsOther := by simp [Value.IsOther, equipment, registering]
  have hnames : ∀ t ∈ equipment, t.1 ∉ ["_registry", "__all__"] := by decide
  have hset : (x₃.setGlobal home registrar (m.registering home)).Equipped home := fun t ht =>
    (h.alike.global_eq (hnames t ht)).symm.trans (he t ht)
  exact hset.of_setGlobal hregistering

theorem equipped₂ : x₂.Equipped home := fun t ht => by
  refine Bridge.global_of_forM h.bridges (equipped₃ h he t ht) fun b _ e hmem => ?_
  have hother : e.2.IsOther := by
    rcases Bridge.mem_definitions.mp hmem with ⟨c, _, rfl⟩ | rfl <;> simp [Value.IsOther, equipment]
  exact hother t ht

theorem lt_length : home < x₁.modules.length := (UnionClass.equipped_of_forM h.unions (equipped₂ h he)).lt_length

end

section

variable {p : Nat × List Nat} (hp : (u, p) ∈ m.unions.zip (UnionClass.places x₁.classes.length m.unions))
include h hm he hp

theorem stands : u.Stands x₂ p.1 p.2 :=
  List.forall₂_zip (UnionClass.stand_of_forM hm.unions h.unions (equipped₂ h he)).1 hp

/-- As long as no bridge is there, the name of a union means the union if no later variant takes it. -/
theorem global_union (hk : m.keepsUnion u.name) : x₂.global home u.name = .ok (.cls (.declared p.1)) := by
  obtain ⟨pre, post, k', hsplit, _, hbindings⟩ := UnionClass.exists_split hp
  obtain ⟨_, hmodules, _⟩ := UnionClass.stand_of_forM hm.unions h.unions (equipped₂ h he)
  have hu := hm.unions u (List.of_mem_zip hp).1
  have hown : u.name ∉ u.cases.map (·.name) := hu.name_notMem
  have hpost : u.name ∉ post.map (·.name) := by
    have hnames := hm.names
    rw [hsplit, List.map_append, List.map_cons] at hnames
    exact (List.nodup_cons.mp (List.nodup_append.mp hnames).2.1).1
  have hlater := (of_keepsUnion hm.names hsplit hk home).1
  have hfree : u.name ∉ (CaseClass.bindings (p.1 + 1) u.cases ++ UnionClass.allBindings k' post).map Prod.fst := by
    rw [List.map_append, CaseClass.map_fst_bindings, UnionClass.map_fst_allBindings, List.mem_append, not_or]
    refine ⟨hown, fun hmem => ?_⟩
    obtain ⟨n, hn, hname⟩ := List.mem_flatMap.mp hmem
    rcases List.mem_cons.mp hname with hname | hname
    · exact hpost (hname ▸ List.mem_map_of_mem hn)
    · exact hlater (List.mem_flatMap.mpr ⟨n, hn, hname⟩)
  rw [World.global_of_modules_eq hmodules]
  apply World.global_of_get? (hu.bindable _ List.mem_cons_self)
  rw [World.globals_setGlobals (lt_length h he), hbindings, Table.insertAll_append, UnionClass.bindings,
    List.cons_append, Table.insertAll_cons, Table.get?_insertAll_of_notMem hfree, Table.get?_insert_self]

/-- As long as no bridge is there, the name of a destination means a union only if it is that union's. -/
theorem dest_eq {b : Bridge} (hb : b ∈ m.bridges) (hdest : x₂.global home b.dest = .ok (.cls (.declared p.1))) :
    b.dest = u.name := by
  obtain ⟨pre, post, k', _, _, hbindings⟩ := UnionClass.exists_split hp
  obtain ⟨_, hmodules, _⟩ := UnionClass.stand_of_forM hm.unions h.unions (equipped₂ h he)
  obtain ⟨hunion, hconstant⟩ := hm.dests b hb
  have hkey : b.dest ∈ (UnionClass.allBindings x₁.classes.length m.unions).map Prod.fst := by
    obtain ⟨n, hn, hname⟩ := List.mem_map.mp hunion
    rw [UnionClass.map_fst_allBindings]
    exact List.mem_flatMap.mpr ⟨n, hn, hname ▸ List.mem_cons_self⟩
  obtain ⟨v, hv, hget⟩ := Table.exists_get?_insertAll (t := x₁.globals home) hkey
  rw [World.global_of_modules_eq hmodules,
    World.global_of_get? hconstant (World.globals_setGlobals (lt_length h he) ▸ hget)] at hdest
  obtain rfl := Except.ok.inj hdest
  have hmem : (u.name, .cls (.declared p.1)) ∈ UnionClass.allBindings x₁.classes.length m.unions := by
    rw [hbindings]
    simp [UnionClass.bindings]
  have hnodup : ((UnionClass.allBindings x₁.classes.length m.unions).map Prod.snd).Nodup := by
    rw [UnionClass.map_snd_allBindings]
    exact List.Nodup.map (fun i j hij => by simpa using hij) List.nodup_range'
  exact congrArg Prod.fst (List.inj_on_of_nodup_map hnodup hv hmem rfl)

/-- A union that is no destination is left as it is. -/
theorem class?_eq_of_source (hdest : ∀ b ∈ m.bridges, b.dest ≠ u.name) :
    x₃.class? (.declared p.1) = x₂.class? (.declared p.1) :=
  Bridge.class?_forM h.bridges fun b hb hglobal => hdest b hb (dest_eq h hm he hp hb hglobal)

theorem global_eq_union (hk : m.keepsUnion u.name) :
    x₃.global home u.name = .ok (.cls (.declared p.1)) ∧ w.global home u.name = .ok (.cls (.declared p.1)) := by
  obtain ⟨pre, post, _, hsplit, _, _⟩ := UnionClass.exists_split hp
  obtain ⟨_, hdefined, hregistrar, hshared⟩ := of_keepsUnion hm.names hsplit hk home
  have h₃ : x₃.global home u.name = .ok (.cls (.declared p.1)) := by
    rw [World.global_of_modules_eq (Bridge.modules_forM h.bridges)]
    exact (World.global_setGlobals_of_notMem hdefined).trans (global_union h hm he hp hk)
  refine ⟨h₃, ?_⟩
  rw [h.alike.global_eq hshared, World.setGlobal_eq, World.global_setGlobals_of_notMem (by simpa using hregistrar), h₃]

/-- A variant is reached under its name, unless the dispatcher has taken that. -/
theorem member_eq {c : CaseClass} (hc : (c, n) ∈ u.cases.zip p.2) (hspared : m.sparesVariant u c.case) :
    w.member (.cls (.declared p.1)) c.case = .ok (.cls (.declared n)) := by
  obtain ⟨d, hd, _, _, hcollects⟩ := (stands h hm he hp).union
  have hmem : (c.case, n) ∈ (u.cases.map (·.case)).zip p.2 := by
    rw [List.zip_map_left]
    exact List.mem_map_of_mem hc
  obtain ⟨owner, howner⟩ := hcollects.allowed _ hmem
  have hheld : ∃ d, x₃.class? (.declared p.1) = some d ∧ d.chain = [.declared p.1, .builtin .object] ∧
      d.attributes.get? c.case = some (.cls (.declared n)) := by
    simp only [sparesVariant, Bool.or_eq_true, decide_eq_true_eq, List.all_eq_true] at hspared
    rcases hspared with hcase | hdest
    · refine Bridge.class_forM (Q := fun d => d.chain = [.declared p.1, .builtin .object] ∧
        d.attributes.get? c.case = some (.cls (.declared n))) h.bridges ?_
          ⟨d, hd, hcollects.chain, hcollects.held _ hmem⟩
      rintro d f ⟨hchain, hget⟩
      exact ⟨hchain, (Table.get?_insert_of_ne _ _ (Ne.symm hcase)).trans hget⟩
    · exact ⟨d, (class?_eq_of_source h hm he hp hdest).trans hd, hcollects.chain, hcollects.held _ hmem⟩
  obtain ⟨d, hd, hchain, hget⟩ := hheld
  exact World.member_of_own ((class?_eq h _).trans hd) (by rw [hchain]; rfl) hget howner

/-- A union lists its variants in the order of their declaration, unless the dispatcher has taken the name of one. -/
theorem variantsOf_eq (hspared : ∀ c ∈ u.cases, m.sparesVariant u c.case) :
    w.variantsOf (.cls (.declared p.1)) = .ok (p.2.map fun n => .cls (.declared n)) := by
  obtain ⟨d, hd, _, _, hcollects⟩ := (stands h hm he hp).union
  obtain ⟨_, _, _, _, hnumbers, _⟩ := UnionClass.exists_split hp
  have hkept : ∃ d, x₃.class? (.declared p.1) = some d ∧ d.Collects p.1 ((u.cases.map (·.case)).zip p.2) := by
    by_cases hdest : ∀ b ∈ m.bridges, b.dest ≠ u.name
    · exact ⟨d, (class?_eq_of_source h hm he hp hdest).trans hd, hcollects⟩
    · have hcases : "from_source" ∉ ((u.cases.map (·.case)).zip p.2).map Prod.fst := by
        rw [hnumbers, UnionClass.map_fst_zip]
        intro hmem
        obtain ⟨c, hc, hcase⟩ := List.mem_map.mp hmem
        have hc := hspared c hc
        simp only [sparesVariant, Bool.or_eq_true, decide_eq_true_eq, List.all_eq_true] at hc
        exact hc.elim (fun hne => hne hcase) fun hall => hdest hall
      exact Bridge.class_forM (Q := fun d => d.Collects p.1 ((u.cases.map (·.case)).zip p.2)) h.bridges
        (fun d f hd => hd.insert hcases (by decide) f) ⟨d, hd, hcollects⟩
  obtain ⟨d, hd, hcollects⟩ := hkept
  have hsnd : ((u.cases.map (·.case)).zip p.2).map Prod.snd = p.2 := hnumbers ▸ UnionClass.map_snd_zip p.1 u
  have hmap : ((u.cases.map (·.case)).zip p.2).map (fun e => Value.cls (.declared e.2)) =
      (((u.cases.map (·.case)).zip p.2).map Prod.snd).map fun n => .cls (.declared n) := by simp [Function.comp_def]
  rw [World.variantsOf_of_collects ((class?_eq h _).trans hd) hcollects, hmap, hsnd]

/-- A destination whose name stays its own has its dispatcher. -/
theorem from_source_eq (hk : m.keepsUnion u.name) {b : Bridge} (hb : b ∈ m.bridges) (hdest : b.dest = u.name) :
    w.member (.cls (.declared p.1)) "from_source" = .ok (.function (.dispatcher home b.dispatcher)) := by
  obtain ⟨d, hd, _, _, hcollects⟩ := (stands h hm he hp).union
  obtain ⟨d', hd', hchain⟩ := Bridge.class_forM (Q := fun d => d.chain = [.declared p.1, .builtin .object]) h.bridges
    (fun _ _ => id) ⟨d, hd, hcollects.chain⟩
  obtain ⟨pre, post, hsplit⟩ := List.append_of_mem hb
  have hbridges := h.bridges
  have hnodup := hm.bridges
  rw [hsplit] at hbridges
  rw [hsplit, List.map_append, List.map_cons] at hnodup
  have hpost : ∀ b' ∈ post, x₂.global home b'.dest ≠ .ok (.cls (.declared p.1)) := by
    intro b' hb' hglobal
    have hmem : b' ∈ m.bridges := hsplit ▸ List.mem_append_right _ (List.mem_cons_of_mem _ hb')
    have heq : b'.dest = b.dest := (dest_eq h hm he hp hmem hglobal).trans hdest.symm
    exact (List.nodup_cons.mp (List.nodup_append.mp hnodup).2.1).1 (heq ▸ List.mem_map_of_mem hb')
  have hdetach := equipped₃ h he ("staticmethod", .function (.builtin .detach)) (by simp [equipment])
  have hget := Bridge.dispatcher_forM hbridges (equipped₂ h he).lt_length (hdest ▸ (global_eq_union h hm he hp hk).1)
    hdetach hpost hd'
  have hname : World.refusal? "" "from_source" = none := rfl
  exact World.member_of_own ((class?_eq h _).trans hd') (by rw [hchain]; rfl) hget hname

end

end Stages

/-- What a loaded module shows of a union: a class of its name with a class for each variant, which it lists in order
and has under their names, and the dispatcher of a destination. -/
structure Exposes (m : Module) (u : UnionClass) (w : World) (home k : Nat) (ns : List Nat) : Prop where
  union : ∃ d, w.class? (.declared k) = some d ∧ d.givenName = u.name ∧ d.qualname = u.name
  variants : List.Forall₂ (fun c n => ∃ d, w.class? (.declared n) = some d ∧ c.IsVariant k d) u.cases ns
  reached : List.Forall₂ (fun c n => m.sparesVariant u c.case →
    w.member (.cls (.declared k)) c.case = .ok (.cls (.declared n))) u.cases ns
  listed : (∀ c ∈ u.cases, m.sparesVariant u c.case) →
    w.variantsOf (.cls (.declared k)) = .ok (ns.map fun n => .cls (.declared n))
  named : m.keepsUnion u.name → w.global home u.name = .ok (.cls (.declared k))
  dispatched : m.keepsUnion u.name → ∀ b ∈ m.bridges, b.dest = u.name →
    w.member (.cls (.declared k)) "from_source" = .ok (.function (.dispatcher home b.dispatcher))

theorem Stages.exposes (h : m.Stages w home x₁ x₂ x₃) (hm : m.Coherent) (he : w.Equipped home) {p : Nat × List Nat}
    (hp : (u, p) ∈ m.unions.zip (UnionClass.places x₁.classes.length m.unions)) : m.Exposes u w home p.1 p.2 where
  union := by
    obtain ⟨d, hd, hgiven, hqualified, _⟩ := (h.stands hm he hp).union
    rw [h.class?_eq]
    exact Bridge.class_forM (Q := fun d => d.givenName = u.name ∧ d.qualname = u.name) h.bridges (fun _ _ => id)
      ⟨d, hd, hgiven, hqualified⟩
  variants := by
    refine (h.stands hm he hp).variants.imp fun c n hn => ?_
    rw [h.class?_eq]
    exact Bridge.class_forM (Q := c.IsVariant p.1) h.bridges
      (fun _ _ hd => ⟨⟨hd.givenName, hd.bases, hd.fields⟩, hd.name, hd.qualname⟩) hn
  reached := List.forall₂_iff_zip.mpr ⟨(h.stands hm he hp).variants.length_eq, fun hc => h.member_eq hm he hp hc⟩
  listed := h.variantsOf_eq hm he hp
  named hk := (h.global_eq_union hm he hp hk).2
  dispatched hk _ hb hdest := h.from_source_eq hm he hp hk hb hdest

end Module

theorem Compiled.moduleCoherent {source : String} {file doc : Option String} {c : Compiled}
    (hc : compile source file doc = .ok c) (hw : c.module.isWellFormed) : c.module.Coherent where
  unions := coherent hc hw
  names := by
    obtain ⟨_, _, _, hmodule⟩ := compile_eq_ok_iff.mp hc
    have hnames : c.module.unions.map (·.name) = c.schema.unions.map (·.name) := by
      rw [hmodule]
      simp [Module.ofPlans, UnionClass.ofUnion, Function.comp_def]
    rw [hnames]
    exact (distinct hc).unions
  dests := (assembled hc hw).dests
  bridges := (orderly hc).bridges

/-- A module that was loaded has a class for each union of the schema and one for each of its variants, all different.
A union has its variants under their names and lists them in the order of their declaration, unless its dispatcher takes
the name of one. A destination whose name nothing else takes has its dispatcher. -/
theorem World.exposes_of_load {r : LoadRequest} {c : Compiled} (hc : compile r.source r.file r.docstring = .ok c)
    (h : w.load r = (w', .ok id)) (he : w'.Equipped id) :
    ∃ places : List (Nat × List Nat), (places.flatMap fun p => p.1 :: p.2).Nodup ∧
      List.Forall₂ (fun u p => c.module.Exposes (.ofUnion u) w' id p.1 p.2) c.schema.unions places ∧
      ∀ u ∈ c.schema.destinations, ∃ b ∈ c.module.bridges, b.dest = u.name := by
  obtain ⟨hw, x₁, x₂, x₃, hstages⟩ := exists_stages_of_load hc h
  have hm := Compiled.moduleCoherent hc hw
  refine ⟨UnionClass.places x₁.classes.length c.module.unions, ?_, ?_, fun u hu => ?_⟩
  · rw [UnionClass.flatMap_places]
    exact List.nodup_range'
  · obtain ⟨_, _, _, hmodule⟩ := compile_eq_ok_iff.mp hc
    have hunions : c.module.unions = c.schema.unions.map UnionClass.ofUnion := by rw [hmodule, Module.ofPlans]
    have hall : List.Forall₂ (fun u p => c.module.Exposes u w' id p.1 p.2) c.module.unions
        (UnionClass.places x₁.classes.length c.module.unions) :=
      List.forall₂_iff_zip.mpr ⟨(UnionClass.length_places _ _).symm, fun hp => hstages.exposes hm he hp⟩
    rw [hunions] at hall ⊢
    exact List.forall₂_map_left_iff.mp hall
  · obtain ⟨b, hb, hname, _⟩ := Compiled.exists_bridge_of_destination hc hu
    exact ⟨b, hb, hname⟩

/-- A source and a destination with a variant of the same name. -/
def sameVariant (variant : String) : Schema where
  imports := []
  unions := [oneVariant "S" 1 variant [("x", .ofName "int")] [],
    oneVariant "D" 2 variant [("x", .ofName "int")] [fromOne "S" none 2]]

def sameVariantModule (variant : String) : Module :=
  Module.ofPlans (sameVariant variant) ((sameVariant variant).destinations.map (Plan.described · none)) none none

/-- The request to load its text. -/
def sameVariantRequest (variant : String) : LoadRequest where
  name := "m"
  source :=
    let body := " \x7b " ++ variant ++ " \x7b x: int \x7d \x7d\n"
    "union S" ++ body ++ "@from_union(S)\nunion D" ++ body
  names := []
  registry := none
  register := false
  file := none
  docstring := none

/-- What comes of executing its module. -/
def sameVariantOutcome (variant : String) : World × Except Failure Nat :=
  Library.world.executeNew (sameVariantRequest variant) (sameVariantModule variant) ⟨some Module.defaultDocstring, []⟩

/-- What a value refers to if it is a module. -/
def Value.module? : Value → Option ModuleRef
  | .module m => some m
  | _ => Option.none

theorem World.equipped_of_references (hruntime : (w.global home "_rt").toOption.bind Value.module? =
      some (.library "casemap.runtime"))
    (hothers : ∀ t ∈ equipment.tail, (w.global home t.1).toOption.bind Value.reference? = t.2.reference?) :
    w.Equipped home := by
  have hrt : w.global home "_rt" = .ok (.module (.library "casemap.runtime")) := by
    cases hg : w.global home "_rt" with
    | error e =>
      rw [hg] at hruntime
      cases hruntime
    | ok v =>
      rw [hg] at hruntime
      cases v <;> cases hruntime
      rfl
  refine List.forall_mem_cons.mpr ⟨hrt, fun t ht => Value.eq_ok_of_reference? (hothers t ht) ?_⟩
  simp only [List.mem_cons, List.not_mem_nil, or_false] at ht
  rcases ht with rfl | rfl <;> rfl

theorem compile_sameVariant {variant : String} (h : variant = "A" ∨ variant = "from_source") :
    compile (sameVariantRequest variant).source none none =
      .ok ⟨sameVariant variant, (sameVariant variant).destinations.map (Plan.described · none),
        sameVariantModule variant⟩ := by
  rcases h with rfl | rfl
  · exact compile_of_lettered (by repeat first | apply Lettered.append | exact Lettered.literal)
      (by decide +kernel) (by decide +kernel) (by decide +kernel)
  · exact compile_of_lettered (by repeat first | apply Lettered.append | exact Lettered.literal)
      (by decide +kernel) (by decide +kernel) (by decide +kernel)

theorem load_sameVariant {variant : String} (h : variant = "A" ∨ variant = "from_source") :
    Library.world.load (sameVariantRequest variant) = ((sameVariantOutcome variant).1, .ok 0) ∧
      (sameVariantOutcome variant).1.Equipped 0 := by
  have hpreamble : (sameVariantRequest variant).preamble (sameVariantModule variant) =
      .ok ⟨some Module.defaultDocstring, []⟩ := by
    rcases h with rfl | rfl <;> exact LoadRequest.preamble_default rfl rfl (by decide +kernel) (by decide +kernel)
  have hfacts : (sameVariantOutcome variant).2.toOption = some 0 ∧
      ((sameVariantOutcome variant).1.global 0 "_rt").toOption.bind Value.module? = some (.library "casemap.runtime") ∧
      ∀ t ∈ equipment.tail,
        ((sameVariantOutcome variant).1.global 0 t.1).toOption.bind Value.reference? = t.2.reference? := by
    rcases h with rfl | rfl <;> decide +kernel
  obtain ⟨hout, hruntime, hothers⟩ := hfacts
  exact ⟨World.load_eq (compile_sameVariant h) hpreamble rfl rfl hout, World.equipped_of_references hruntime hothers⟩

theorem World.exposes_of_load_plain :
    compile (sameVariantRequest "A").source none none =
        .ok ⟨sameVariant "A", (sameVariant "A").destinations.map (Plan.described · none), sameVariantModule "A"⟩ ∧
      ∃ w, Library.world.load (sameVariantRequest "A") = (w, .ok 0) ∧ w.Equipped 0 ∧
        ∃ places : List (Nat × List Nat), (places.flatMap fun p => p.1 :: p.2).Nodup ∧
          List.Forall₂ (fun u p => (sameVariantModule "A").Exposes (.ofUnion u) w 0 p.1 p.2)
            (sameVariant "A").unions places ∧
          ∀ u ∈ (sameVariant "A").destinations, ∃ b ∈ (sameVariantModule "A").bridges, b.dest = u.name := by
  have hcompile := compile_sameVariant (.inl rfl)
  obtain ⟨hload, hequipped⟩ := load_sameVariant (.inl rfl)
  exact ⟨hcompile, _, hload, hequipped, exposes_of_load hcompile hload hequipped⟩

/-- A variant of a destination that is called like its dispatcher cannot be reached: the dispatcher takes its place, and
the destination lists it among its variants. -/
theorem World.exposes_of_load_taken :
    ∃ w, Library.world.load (sameVariantRequest "from_source") = (w, .ok 0) ∧ w.Equipped 0 ∧
      w.global 0 "D" = .ok (.cls (.declared 2)) ∧ (w.class? (.declared 3)).map (·.qualname) = some "D.from_source" ∧
      (∃ b ∈ (sameVariantModule "from_source").bridges,
        w.member (.cls (.declared 2)) "from_source" = .ok (.function (.dispatcher 0 b.dispatcher))) ∧
      w.variantsOf (.cls (.declared 2)) ≠ .ok [.cls (.declared 3)] := by
  obtain ⟨hload, hequipped⟩ := load_sameVariant (.inr rfl)
  refine ⟨_, hload, hequipped, ?_⟩
  have hfacts : ((sameVariantOutcome "from_source").1.global 0 "D").toOption.bind Value.reference? =
        (Value.cls (.declared 2)).reference? ∧
      ((sameVariantOutcome "from_source").1.class? (.declared 3)).map (·.qualname) = some "D.from_source" ∧
      (∃ b ∈ (sameVariantModule "from_source").bridges,
        ((sameVariantOutcome "from_source").1.member (.cls (.declared 2)) "from_source").toOption.bind
          Value.reference? = (Value.function (.dispatcher 0 b.dispatcher)).reference?) ∧
      ((sameVariantOutcome "from_source").1.variantsOf (.cls (.declared 2))).toOption.map (·.map Value.reference?) ≠
        some [(Value.cls (.declared 3)).reference?] := by
    decide +kernel
  obtain ⟨hname, hqualified, ⟨b, hb, hmember⟩, hlisted⟩ := hfacts
  refine ⟨Value.eq_ok_of_reference? hname rfl, hqualified, ⟨b, hb, Value.eq_ok_of_reference? hmember rfl⟩,
    fun heq => hlisted ?_⟩
  rw [heq]
  rfl

end UnionBridge
