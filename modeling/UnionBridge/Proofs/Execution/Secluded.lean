import UnionBridge.Proofs.Execution.Confined
import UnionBridge.Proofs.Execution.Leftovers

/-! Modules that use nothing of other modules. What such a module comes to hold leads only to itself, and while it is executed
no registry has a say. -/
namespace UnionBridge

open Loading

variable {hidden : String → Prop} {w x x' : World} {functions : FunctionRef → Prop} {name : String} {home : Nat} {u : Unit}
  {m : Module} {p : Preamble}

/-! ### Imports -/

namespace World

variable {t : Table String Registry}

theorem locate_withRegistries {d : DottedName} : (w.withRegistries t).locate d = w.locate d := by
  have hreversed (path : List String) : (w.withRegistries t).locateReversed path = w.locateReversed path := by
    induction path with
    | nil => rfl
    | cons last before ih =>
      unfold locateReversed
      rw [ih]
      rfl
  exact hreversed _

theorem runsFor_withRegistries {path : List String} : (w.withRegistries t).runsFor path = w.runsFor path := by
  induction path with
  | nil => rfl
  | cons last before ih =>
    unfold runsFor
    rw [ih]
    rfl

end World

namespace Import

theorem runs_withRegistries (i : Import) (w : World) (t : Table String Registry) : i.runs (w.withRegistries t) = i.runs w := by
  have hmember (m : ModuleRef) (name : String) : (w.withRegistries t).member? (.module m) name = w.member? (.module m) name :=
    (w.same_withRegistries t).member?_eq (Value.within_whole _)
  simp only [runs, World.runsFor_withRegistries, hmember]
  rfl

theorem insulated_bindNames (i : Import) (w : World) : Insulated hidden (i.bindNames home) w := by
  have htake (w : World) (t : Table String Registry) : (w.withRegistries t).take = w.take :=
    funext fun _ => funext fun _ => World.take_withRegistries
  refine insulated_bind_get fun w' halike u x h => ?_
  have hlocate (d : DottedName) : w'.locate d = w.locate d := by rw [halike.rest, World.locate_withRegistries]
  have htaken : w'.take = w.take := by rw [halike.rest, htake]
  obtain ⟨m, hm, h⟩ := gives_bind_lift.mp h
  simp only [hlocate, htaken]
  split at h
  · have hname (n : String × Option String) (w : World) :
        Insulated hidden (do Loading.bind home (n.2.getD n.1) (← (← get).take (.module m) n.1)) w :=
      insulated_bind_ask (q := fun w => w.take (.module m) n.1) (fun t => congrFun (congrFun (htake w t) _) _)
        fun v _ => insulated_name v
    obtain ⟨x', hx', hleft⟩ := insulated_forM (fun n _ w => hname n w) w' halike u x h
    exact ⟨x', gives_bind_lift.mpr ⟨m, hm, hx'⟩, hleft⟩
  · obtain ⟨top, htop, h⟩ := gives_bind_lift.mp h
    split at h
    · obtain ⟨x', hx', hleft⟩ := insulated_name _ w' halike u x h
      exact ⟨x', gives_bind_lift.mpr ⟨m, hm, gives_bind_lift.mpr ⟨top, htop, hx'⟩⟩, hleft⟩
    · obtain ⟨v, hv, h⟩ := gives_bind_lift.mp h
      obtain ⟨x', hx', hleft⟩ := insulated_name v w' halike u x h
      exact ⟨x', gives_bind_lift.mpr ⟨m, hm, gives_bind_lift.mpr ⟨top, htop, gives_bind_lift.mpr ⟨v, hv, hx'⟩⟩⟩, hleft⟩

theorem insulated_execute (i : Import) (w : World) : Insulated hidden (i.execute home) w := by
  refine insulated_bind (insulated_modify fun w' halike => ?_) fun _ x _ => i.insulated_bindNames x
  have hruns : i.runs w' = i.runs w := by rw [halike.rest, runs_withRegistries]
  rw [hruns]
  exact halike.runAll _

/-- Whatever imports find, all that they bind is names of the module. -/
theorem exists_of_bindNames {i : Import} (h : Gives (i.bindNames home) x u x') : ∃ es, x' = x.setGlobals home es := by
  obtain ⟨m, _, h⟩ := gives_bind_lift.mp (gives_bind_get.mp h)
  split at h
  · refine preserved_of_forM (P := fun y => ∃ es, y = x.setGlobals home es) ⟨[], World.setGlobals_nil.symm⟩ h ?_
    rintro n _ y y' ⟨es, rfl⟩ hn
    obtain ⟨v, _, hn⟩ := gives_bind_lift.mp (gives_bind_get.mp hn)
    obtain rfl := gives_name.mp hn
    exact ⟨es ++ [_], by rw [World.setGlobal_eq, World.setGlobals_setGlobals]⟩
  · obtain ⟨top, _, h⟩ := gives_bind_lift.mp h
    split at h
    · exact ⟨[(_, _)], gives_name.mp h⟩
    · obtain ⟨v, _, h⟩ := gives_bind_lift.mp h
      exact ⟨[(_, _)], gives_name.mp h⟩

end Import

namespace World

/-- A world in which a module makes its imports. Nothing is declared so far. -/
structure Importing (w x : World) : Prop extends w.Stocked (fun _ => False) x where
  classes_eq : x.classes = w.classes
  misplaced_eq : x.misplaced = w.misplaced

theorem Importing.of_import (h : w.Importing x) {i : Import} (hi : Gives (i.execute home) x u x') : w.Importing x' := by
  obtain ⟨_, _, hrun, hi⟩ := gives_bind.mp hi
  obtain rfl := gives_modify.mp hrun
  obtain ⟨es, rfl⟩ := Import.exists_of_bindNames hi
  have hstocked := h.toStocked.run (i.runs x)
  obtain ⟨as, t, hrun, _⟩ := x.exists_runAll (i.runs x)
  rw [hrun, addAll_eq] at hstocked ⊢
  exact { hstocked with
    classes_eq := h.classes_eq
    misplaced_eq := h.misplaced_eq }

theorem Importing.of_statement (h : w.Importing x) {statement : Loading Unit} (hs : statement ∈ m.importing home p)
    (hg : Gives statement x u x') : w.Importing x' := by
  simp only [Module.importing, List.mem_append, List.mem_singleton, List.mem_map] at hs
  rcases hs with ((rfl | ⟨doc, _, rfl⟩) | ⟨i, _, rfl⟩)
  · obtain rfl := gives_name.mp hg
    exact { h with }
  · obtain rfl := gives_name.mp hg
    exact { h with }
  · exact h.of_import hg

end World

/-! ### Unions -/

namespace CaseClass

theorem insulated_execute (c : CaseClass) (h : w.Confined (fun _ => False) x) :
    Insulated hidden (c.execute w.modules.length) x := by
  refine insulated_bind_global fun maker hfound => ?_
  have hmaker := h.within_global hfound
  extract_lets declare
  have hdeclare (wrap : Option Value) (x : World) (hwrap : ∀ f, wrap = some f → f.Homeless) :
      Insulated hidden (declare wrap) x := by
    refine insulated_bind_global fun base _ => ?_
    split
    · refine insulated_bind_global fun moduleName _ => insulated_bind_get fun x' halike v y h => ?_
      obtain ⟨⟨id, x₁⟩, hdeclared, h⟩ := gives_bind_lift.mp h
      have h := gives_bind_set.mp h
      rw [halike.rest]
      have hdeclared' := World.declareClass_withRegistries (t := x'.registries) hdeclared
      have halike₁ := halike.withRegistries (congrArg Prod.fst (World.shared_declareClass hdeclared))
      cases wrap with
      | none =>
        obtain ⟨x₂, hmade, h⟩ := gives_bind_lift.mp h
        have hmade' := World.makeRecord_withRegistries (t := x'.registries) hmade
        have halike₂ := halike₁.withRegistries (congrArg Prod.fst (World.shared_makeRecord hmade))
        obtain ⟨y', hy', hleft⟩ := insulated_name _ _ halike₂ v y (gives_bind_set.mp h)
        refine ⟨y', gives_bind_lift.mpr ⟨_, hdeclared', gives_bind_set.mpr ?_⟩, hleft⟩
        exact gives_bind_get.mpr (gives_bind_lift.mpr ⟨_, hmade', gives_bind_set.mpr hy'⟩)
      | some f =>
        obtain ⟨y', hy', hleft⟩ :=
          insulated_bind_call (fun _ _ => hwrap f rfl) (fun v _ => insulated_name v) _ halike₁ v y h
        exact ⟨y', gives_bind_lift.mpr ⟨_, hdeclared', gives_bind_set.mpr hy'⟩, hleft⟩
    · exact insulated_bind_get fun _ _ _ _ h => absurd h not_gives_throw
  split
  · exact insulated_bind (insulated_pure _) fun wrap y hy => by
      obtain ⟨rfl, rfl⟩ := gives_pure.mp hy
      exact hdeclare none _ fun _ hf => by cases hf
  · refine insulated_bind (insulated_bind_call (fun _ hv => World.homeless_of_calling_frozen hv) fun v _ => insulated_pure _)
      fun wrap y hy => ?_
    obtain ⟨f, hf, hy⟩ := gives_bind_call.mp hy
    obtain ⟨rfl, rfl⟩ := gives_pure.mp hy
    refine hdeclare (some f) _ fun g hg => ?_
    exact Option.some.inj hg ▸ (h.homeless_calling hmaker ⟨by simp, by simp⟩ (by simp) hf).1

theorem insulated_attach (c : CaseClass) (x : World) : Insulated hidden (c.attach home) x := by
  refine insulated_bind_globalPath fun attach _ => insulated_bind_global fun union _ =>
    insulated_bind_global fun variant _ => ?_
  split
  · refine insulated_bind_get fun x' halike v y h => ?_
    rw [halike.rest, World.attachVariant_withRegistries]
    obtain ⟨hresult, rfl⟩ := gives_lift.mp (gives_bind_set.mp h)
    exact ⟨_, gives_bind_set.mpr (gives_lift.mpr ⟨hresult, rfl⟩),
      halike.withRegistries (congrArg Prod.fst (World.shared_attachVariant _ _ _ _))⟩
  · exact insulated_bind_call (fun _ hv => World.homeless_of_calling (by simp) hv) fun _ _ => insulated_pure _

end CaseClass

namespace UnionClass

theorem insulated_declare (n : UnionClass) (x : World) : Insulated hidden (n.declare home) x := by
  refine insulated_bind_global fun moduleName _ => insulated_bind_get fun x' halike u y h => ?_
  obtain ⟨⟨id, x₁⟩, hdeclared, h⟩ := gives_bind_lift.mp h
  rw [halike.rest]
  have hdeclared' := World.declareClass_withRegistries (t := x'.registries) hdeclared
  have halike₁ := halike.withRegistries (congrArg Prod.fst (World.shared_declareClass hdeclared))
  obtain ⟨y', hy', hleft⟩ := insulated_name _ _ halike₁ u y (gives_bind_set.mp h)
  exact ⟨y', gives_bind_lift.mpr ⟨_, hdeclared', gives_bind_set.mpr hy'⟩, hleft⟩

theorem insulated_execute (n : UnionClass) (h : w.Confined (fun _ => False) x) :
    Insulated hidden (n.execute w.modules.length) x := by
  rw [execute_eq]
  refine insulated_forM_of h (fun s hs _ _ h hg => h.of_step hs hg) fun s hs x h => ?_
  rw [steps, List.mem_cons, List.mem_append, List.mem_map, List.mem_map] at hs
  rcases hs with rfl | ⟨c, _, rfl⟩ | ⟨c, _, rfl⟩
  · exact n.insulated_declare x
  · exact c.insulated_execute h
  · exact c.insulated_attach x

end UnionClass

/-! ### Modules -/

namespace Module

/-- The functions that a module defines. -/
inductive Defines (m : Module) (home : Nat) : FunctionRef → Prop
  | conversion {c : Conversion} (hc : c ∈ m.conversions) : Defines m home (.conversion home c)
  | dispatcher {b : Bridge} (hb : b ∈ m.bridges) : Defines m home (.dispatcher home b.dispatcher)
  | registrar : Defines m home (.registrar home m.registrations)

theorem Defines.home?_eq {id : Nat} {g : FunctionRef} (h : m.Defines id g) : g.home? = some id := by
  cases h <;> rfl

theorem within_definitions {b : Bridge} (hb : b ∈ m.bridges) :
    ∀ e ∈ b.definitions w.modules.length, e.2.Within (.newcomer w (m.Defines w.modules.length)) := by
  intro e he
  rcases Bridge.mem_definitions.mp he with ⟨c, hc, rfl⟩ | rfl
  · exact Defines.conversion (List.mem_flatMap.mpr ⟨b, hb, hc⟩)
  · exact Defines.dispatcher hb

/-- What a module does before it defines functions. -/
def opening (home : Nat) (p : Preamble) (m : Module) : List (Loading Unit) :=
  m.importing home p ++ [do Loading.bind home "_registry" (← Loading.globalPath home ⟨"_rt", ["default_registry"]⟩)] ++
    m.unions.map (·.execute home)

theorem declarations_eq : m.declarations home p =
    m.opening home p ++ m.bridges.map (·.execute home) ++
      [Loading.bind home registrar (.function (.registrar home m.registrations))] :=
  rfl

theorem insulated_importing {statement : Loading Unit} (hs : statement ∈ m.importing home p) (x : World) :
    Insulated hidden statement x := by
  simp only [importing, List.mem_append, List.mem_singleton, List.mem_map] at hs
  rcases hs with ((rfl | ⟨doc, _, rfl⟩) | ⟨i, _, rfl⟩)
  · exact insulated_name _
  · exact insulated_name _
  · exact i.insulated_execute x

section Bridges

variable (hm : ∀ b ∈ m.bridges, ∀ c ∈ b.conversions, Naming.SaysFrom c.name)
include hm

/-- While the functions of a module come in, it stays as it is but for them. -/
theorem confined_bridge {b : Bridge} (hb : b ∈ m.bridges) (h : w.Confined (m.Defines w.modules.length) x ∧ w.Untouched x)
    (hx : Gives (b.execute w.modules.length) x ⟨⟩ x') :
    w.Confined (m.Defines w.modules.length) x' ∧ w.Untouched x' :=
  ⟨h.1.of_bridge (hm b hb) (h.2.serves h.1) (within_definitions hb) hx, h.2.of_bridge (hm b hb) hx⟩

variable (h : w.Confined (fun _ => False) x)
include h

theorem confined_bridges (hx : Gives (m.bridges.forM (·.execute w.modules.length)) x u x') :
    w.Confined (m.Defines w.modules.length) x' :=
  (preserved_of_forM ⟨h.mono nofun fun _ hf => hf.home?_eq, h.untouched⟩ hx
    fun _ hb _ _ h hx => confined_bridge hm hb h hx).1

theorem insulated_bridges : Insulated hidden (m.bridges.forM (·.execute w.modules.length)) x :=
  insulated_forM_of ⟨h.mono nofun fun _ hf => hf.home?_eq, h.untouched⟩ (fun _ hb _ _ h hx => confined_bridge hm hb h hx)
    fun b hb _ h => Bridge.insulated_execute (hm b hb) (h.2.serves h.1)

end Bridges

end Module

namespace LoadRequest

/-- A module that uses nothing of other modules: what it has under its names once its imports are made leads to none of them,
and nor does what is outside of the program. What has taken the place of a class is a function of one of them. -/
structure Secluded (r : LoadRequest) (w : World) : Prop where
  outside : w.outside.Closed
  misplaced : ∀ f v, w.misplaced.get? f = some v → ∃ home < w.modules.length, f.home? = some home
  imported : ∀ (c : Compiled) (p : Preamble) (x : World), compile r.source r.file r.docstring = .ok c →
    r.preamble c.module = .ok p → Gives ((c.module.importing w.modules.length p).forM id) (w.entering r) ⟨⟩ x →
      (x.globals w.modules.length).Within (.newcomer w fun _ => False)

theorem importing_entering (r : LoadRequest) (w : World) : w.Importing (w.entering r) where
  outside_eq := rfl
  dormant_le _ _ hl := hl
  entries _ _ he := .inl (.registered he)
  classes_eq := rfl
  misplaced_eq := rfl

namespace Secluded

variable {r : LoadRequest} {c : Compiled} (h : r.Secluded w) (hc : compile r.source r.file r.docstring = .ok c)
  (hp : r.preamble c.module = .ok p)
include h hc hp

theorem confined_of_importing (hx : Gives ((c.module.importing w.modules.length p).forM id) (w.entering r) u x) :
    w.Confined (fun _ => False) x := by
  have himporting := preserved_of_forM (importing_entering r w) hx fun _ hs _ _ h hg => h.of_statement hs hg
  exact { himporting with
    outside := h.outside
    homes := fun _ hf => hf.elim
    classes_le := himporting.classes_eq ▸ le_rfl
    classes := fun id d hid hd => by
      rw [himporting.classes_eq, List.getElem?_eq_none hid] at hd
      cases hd
    globals := h.imported c p x hc hp hx
    misplaced := fun f v hv => .inl (h.misplaced f v (himporting.misplaced_eq ▸ hv)) }

/-- It gets the registry of the library. -/
theorem confined_of_registry (hx : Gives ((c.module.importing w.modules.length p ++
      [do Loading.bind w.modules.length "_registry" (← Loading.globalPath w.modules.length ⟨"_rt", ["default_registry"]⟩)]).forM id)
      (w.entering r) u x) : w.Confined (fun _ => False) x := by
  obtain ⟨x₁, himports, hregistry⟩ := gives_forM_append.mp hx
  have h₁ := h.confined_of_importing hc hp himports
  obtain ⟨x₂, hregistry, hnil⟩ := gives_forM_cons.mp hregistry
  obtain rfl := gives_forM_nil.mp hnil
  obtain ⟨v, hv, hregistry⟩ := gives_bind_globalPath.mp hregistry
  obtain rfl := gives_name.mp hregistry
  exact h₁.bind (h₁.within_globalPath hv)

theorem confined_of_opening (hx : Gives ((c.module.opening w.modules.length p).forM id) (w.entering r) u x) :
    w.Confined (fun _ => False) x := by
  obtain ⟨x₁, hx, hunions⟩ := gives_forM_append.mp hx
  refine preserved_of_forM (h.confined_of_registry hc hp hx) hunions fun s hs y y' hy hgives => ?_
  obtain ⟨n, _, rfl⟩ := List.mem_map.mp hs
  exact hy.of_union hgives

omit h hp in
theorem saysFrom {b : Bridge} (hb : b ∈ c.module.bridges) : ∀ f ∈ b.conversions, Naming.SaysFrom f.name :=
  fun f hf => (Compiled.orderly hc).froms f (List.mem_flatMap.mpr ⟨b, hb, hf⟩)

/-- When a module comes to register its conversions, it leads to nothing but itself. -/
theorem confined_of_prepare {e : Value × Value} (hx : Gives (c.module.prepare w.modules.length p) (w.entering r) e x) :
    w.Confined (c.module.Defines w.modules.length) x := by
  obtain ⟨_, x₂, hdeclared, hread⟩ := gives_bind.mp hx
  obtain ⟨_, _, hread'⟩ := gives_bind_global.mp hread
  obtain ⟨_, _, hread''⟩ := gives_bind_global.mp hread'
  obtain ⟨_, rfl⟩ := gives_pure.mp hread''
  rw [Module.declarations_eq] at hdeclared
  obtain ⟨x₁, hdefined, hlast⟩ := gives_forM_append.mp hdeclared
  obtain ⟨x₀, hopening, hbridges⟩ := gives_forM_append.mp hdefined
  rw [List.forM_eq_forM, List.forM_map] at hbridges
  have h₁ := Module.confined_bridges (fun _ => saysFrom hc) (h.confined_of_opening hc hp hopening) hbridges
  obtain ⟨_, hregistrar, hnil⟩ := gives_forM_cons.mp hlast
  obtain rfl := gives_forM_nil.mp hnil
  obtain rfl := gives_name.mp hregistrar
  exact h₁.bind Module.Defines.registrar

/-- Until then no registry has a say. -/
theorem insulated_prepare : Insulated hidden (c.module.prepare w.modules.length p) (w.entering r) := by
  refine insulated_bind ?_ fun _ x _ => insulated_bind_global fun f _ => insulated_bind_global fun registry _ => insulated_pure _
  rw [Module.declarations_eq]
  refine insulated_forM_append (insulated_forM_append ?_ fun x hx => ?_) fun x _ => insulated_forM fun s hs x => ?_
  · refine insulated_forM_append (insulated_forM_append (insulated_forM fun s hs x => ?_) fun x _ => ?_) fun x hx => ?_
    · exact Module.insulated_importing hs x
    · refine insulated_forM fun s hs x => ?_
      obtain rfl := List.mem_singleton.mp hs
      exact insulated_bind_globalPath fun v _ => insulated_name v
    · refine insulated_forM_of (h.confined_of_registry hc hp hx) (fun s hs y y' hy hgives => ?_) fun s hs y hy => ?_
      · obtain ⟨n, _, rfl⟩ := List.mem_map.mp hs
        exact hy.of_union hgives
      · obtain ⟨n, _, rfl⟩ := List.mem_map.mp hs
        exact n.insulated_execute hy
  · rw [List.forM_eq_forM, List.forM_map]
    exact Module.insulated_bridges (fun _ => saysFrom hc) (h.confined_of_opening hc hp hx)
  · obtain rfl := List.mem_singleton.mp hs
    exact insulated_name _

end Secluded

end LoadRequest

/-! ### Imports from the library -/

/-- Where imports find modules of the library only, a module uses no other one. -/
theorem LoadRequest.secluded_of_library {r : LoadRequest} (houtside : w.outside.Closed)
    (hmisplaced : ∀ f v, w.misplaced.get? f = some v → ∃ home < w.modules.length, f.home? = some home)
    (hnames : ∀ e ∈ r.names, e.2.Within (.newcomer w fun _ => False))
    (hlibrary : ∀ name m, w.importable.get? name = some m → ∃ path, m = .library path) : r.Secluded w where
  outside := houtside
  misplaced := hmisplaced
  imported c p x _ _ hx := by
    have hentering : w.Confined (fun _ => False) (w.entering r) :=
      { importing_entering r w with
        outside := houtside
        homes := nofun
        classes_le := le_rfl
        classes := fun id d hid hd => by
          have hnone : (w.entering r).classes[id]? = none := List.getElem?_eq_none hid
          rw [hnone] at hd
          cases hd
        globals := by
          have hglobals : (w.entering r).globals w.modules.length = r.initialModule.globals := by
            simp [World.entering, World.globals, World.module?, World.addModule, World.setImportable]
          rw [hglobals]
          refine Table.Within.insertAll (.of_entries ?_) hnames
          simp [Module.initialGlobals]
        misplaced := fun f v hv => .inl (hmisplaced f v hv) }
    have himportable : ∀ name m, (w.entering r).importable.get? name = some m → m.Within (.newcomer w fun _ => False) := by
      intro name m hm
      rw [World.entering, World.get?_setImportable] at hm
      split at hm
      · exact Option.some.inj hm ▸ rfl
      · obtain ⟨path, rfl⟩ := hlibrary name m hm
        exact ModuleRef.within_library path
    refine (preserved_of_forM (P := fun y => w.Confined (fun _ => False) y ∧ y.importable = (w.entering r).importable)
      ⟨hentering, rfl⟩ hx fun s hs y y' hy hgives => ?_).1.globals
    have hsame : y'.importable = (w.entering r).importable := by
      have hstatement : s ∈ c.module.statements w.modules.length p := by simp [Module.statements, Module.declarations, hs]
      have hrun : Gives ([s].forM id) y () y' := gives_forM_cons.mpr ⟨y', hgives, gives_forM_nil.mpr rfl⟩
      have hkept : (([s].forM id).run.run y).2.importable = y.importable :=
        Module.importable_forM (List.forall_mem_singleton.mpr hstatement) y
      rw [hrun] at hkept
      exact hkept.trans hy.2
    refine ⟨?_, hsame⟩
    simp only [Module.importing, List.mem_append, List.mem_singleton, List.mem_map] at hs
    rcases hs with ((rfl | ⟨doc, _, rfl⟩) | ⟨i, _, rfl⟩)
    · obtain rfl := gives_name.mp hgives
      exact hy.1.bind (Value.within_intrinsic.mpr Intrinsic.within_dictionary)
    · obtain rfl := gives_name.mp hgives
      exact hy.1.bind (Value.within_text doc)
    · exact hy.1.of_import (hy.2 ▸ himportable) hgives

end UnionBridge
