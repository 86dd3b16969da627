import UnionBridge.Proofs.Execution.Bridges
import UnionBridge.Proofs.Execution.Statements
import UnionBridge.Proofs.Region.Declaring

/-! The statements of a module that comes into a world. None of them touches what was there; what they bind under the names
of unions and functions is new, whatever stands in the place of the declaration of fields. -/
namespace UnionBridge

open Loading

variable {w x x' : World} {home id : Nat} {names : List String} {name : String} {v f maker : Value} {u : Unit}

/-! ### Whatever stands in the place of the declaration of fields -/

namespace Parameters

variable {function : String} {unsaid : Nat} {ps : List Parameter} {fields : List (String × Value)}

theorem bind_unknown (h : name ∉ ps.map (·.name)) : bind function unsaid ps ⟨[], [(name, v)]⟩ ≠ .ok fields := by
  have hname : byName function (ps.map (·.name)) ((ps.map (·.name)).zip []) [(name, v)] =
      Failure.typeError s!"{function}() got an unexpected keyword argument '{name}'" := by
    rw [byName, if_pos (by simpa using h)]
  rw [bind, hname]
  intro h
  cases h

/-- A value that a call passes is among the values of the parameters. -/
theorem exists_mem_of_bind (h : bind function unsaid ps (.of [v]) = .ok fields) : ∃ e ∈ fields, e.2 = v := by
  cases ps with
  | nil => cases h
  | cons p ps =>
    simp only [bind, Supplied.of, byName, List.map_cons, List.zip_cons_cons, List.zip_nil_right] at h
    obtain ⟨bound, hbound, h⟩ := Except.exists_of_bind_eq_ok h
    cases hbound
    split at h
    · cases h
    · split at h
      · refine ⟨(p.name, v), ?_, rfl⟩
        rw [← Except.ok.inj h]
        simp
      · cases h

end Parameters

namespace World

/-- What a class makes of something is a record of it. -/
theorem exists_of_instantiate {s : Supplied} (hs : s.isEmpty = false) (h : w.instantiate id s = .ok v) :
    ∃ function ps fields, Parameters.bind function 1 ps s = .ok fields ∧ v = .record id fields := by
  simp only [instantiate] at h
  split at h
  · cases h
  · split at h
    · rename_i givenName fields _ _
      rw [fill] at h
      obtain ⟨values, hvalues, h⟩ := Except.exists_of_bind_eq_ok h
      split at h
      · cases h
      · exact ⟨_, _, values, hvalues, (Except.ok.inj h).symm⟩
    · split at h
      · cases h
      · split at h
        · simp only [hs] at h
          cases h
        · split at h
          · obtain ⟨_, _, h⟩ := Except.exists_of_bind_eq_ok h
            cases h
          · cases h
    · cases h

theorem refuse_frozen (b : Builtin) : w.refuse b frozen ≠ .ok f := by
  unfold refuse frozen
  cases b <;> exact fun h => nomatch h

theorem unnamed_frozen {b : Builtin} {method : String} {ps : List Parameter} (h : constructor? b = some (method, ps)) :
    "frozen" ∉ ps.map (·.name) := by
  unfold constructor? at h
  split at h
  all_goals cases h
  all_goals decide

theorem construct_frozen (hquiet : w.Quiet) {c : ClassRef} (h : w.construct c frozen = .ok f) :
    ∃ id fields, f = .record id fields := by
  unfold construct at h
  split at h
  · obtain ⟨_, _, fields, _, rfl⟩ := exists_of_instantiate (s := frozen) rfl h
    exact ⟨_, fields, rfl⟩
  · exact absurd h hquiet.call_frozen_ne_ok
  · split at h
    · rename_i hc
      obtain ⟨values, hvalues, _⟩ := Except.exists_of_bind_eq_ok h
      exact absurd hvalues (Parameters.bind_unknown (unnamed_frozen hc))
    · rename_i hs
      cases hs
    · rename_i hs
      cases hs
    · exact absurd h (refuse_frozen _)

theorem builtinCall_frozen (g : BuiltinFunction) : w.builtinCall g frozen ≠ .ok f := by
  intro h
  have hparameters : ∀ p, g.parameters? = some p → "frozen" ∉ p.2.map (·.name) := by
    intro p hp
    unfold BuiltinFunction.parameters? at hp
    split at hp
    all_goals cases hp
    all_goals decide
  unfold builtinCall at h
  split at h
  · rename_i hs
    cases hs
  · cases h
  · rename_i hs
    cases hs
  · cases h
  · rename_i hp _ _
    obtain ⟨values, hvalues, _⟩ := Except.exists_of_bind_eq_ok h
    exact absurd hvalues (Parameters.bind_unknown (hparameters _ hp))
  · rename_i g _ _ _ hclass hdetach hnone _ _
    cases g with
    | classTest => exact hclass rfl
    | detach => exact hdetach rfl
    | carrier _ op => cases op <;> cases hnone
    | abstract _ op => cases op <;> cases hnone
    | _ => cases hnone

theorem runWithin_frozen {depth : Nat} {g : FunctionRef} {home : Nat} (hg : g.home? = some home) :
    w.runWithin depth g frozen ≠ .ok f := by
  intro h
  cases depth with
  | zero => cases h
  | succ depth =>
    cases g with
    | builtin g => cases hg
    | _ =>
      obtain ⟨_, hlocals, _⟩ := Except.exists_of_bind_eq_ok h
      exact absurd hlocals (Parameters.bind_unknown (by decide))

/-- Whatever takes the demand for frozen instances gives a record. -/
theorem call_frozen (hquiet : w.Quiet) (h : w.call maker frozen = .ok f) : ∃ id fields, f = .record id fields := by
  simp only [call, callWithin] at h
  unfold callBy at h
  split at h
  · exact construct_frozen hquiet h
  · exact absurd h (builtinCall_frozen _)
  · rename_i g hg
    cases g with
    | builtin b => exact absurd rfl (hg b)
    | _ => exact absurd h (runWithin_frozen rfl)
  · unfold react at h
    split at h
    · cases h
    · exact construct_frozen hquiet h
    all_goals first | exact absurd h hquiet.call_frozen_ne_ok | (rename_i hs; cases hs)
  · split at h
    · obtain ⟨_, _, fields, _, rfl⟩ := exists_of_instantiate (s := frozen) rfl h
      exact ⟨_, fields, rfl⟩
    · cases h

/-- What that makes of a class has the class in a field. -/
theorem exists_of_wrap {c : ClassRef} {fields : List (String × Value)}
    (h : w.call (.record id fields) (.of [.cls c]) = .ok v) :
    ∃ id fields, v = .record id fields ∧ ∃ e ∈ fields, e.2 = .cls c := by
  simp only [call, callWithin, callBy] at h
  split at h
  · obtain ⟨_, _, values, hvalues, rfl⟩ := exists_of_instantiate (s := .of [.cls c]) rfl h
    exact ⟨_, values, rfl, Parameters.exists_mem_of_bind hvalues⟩
  · cases h

end World

/-! ### Imports -/

namespace World

theorem exists_of_locateReversed {path : List String} {m : ModuleRef} (h : x.locateReversed path = .ok m) :
    ∃ name, x.importable.get? name = some m := by
  cases path with
  | nil => cases h
  | cons last before =>
    cases before with
    | nil =>
      simp only [locateReversed] at h
      split at h
      · rename_i found
        exact ⟨_, Except.ok.inj h ▸ found⟩
      · cases h
    | cons parent before =>
      simp only [locateReversed] at h
      split at h
      · rename_i found
        exact ⟨_, Except.ok.inj h ▸ found⟩
      · obtain ⟨_, _, h⟩ := Except.exists_of_bind_eq_ok h
        split at h <;> cases h

theorem Sound.within_locate (h : x.Sound) {d : DottedName} {m : ModuleRef} (hm : x.locate d = .ok m) : m.Within x.region := by
  obtain ⟨_, hfound⟩ := exists_of_locateReversed hm
  exact h.importable _ _ hfound

theorem Sound.within_take (h : x.Sound) (hv : v.Within x.region) (hf : x.take v name = .ok f) : f.Within x.region := by
  simp only [take] at hf
  split at hf
  · rename_i a ha
    exact Except.ok.inj hf ▸ h.closed.within_member? hv ha
  · rename_i m _ hm
    obtain ⟨path, _, hm⟩ := Option.bind_eq_some_iff.mp hm
    exact Except.ok.inj hf ▸ Value.within_module.mpr (h.importable _ _ hm)
  · cases hf

end World

theorem CaseClass.within_bodyAttributes {ρ : Region} (c : CaseClass) (hv : v.Within ρ) : (c.bodyAttributes v).Within ρ := by
  refine .of_entries ?_
  simp only [bodyAttributes]
  split
  · exact List.forall_mem_singleton.mpr hv
  · exact List.forall_mem_cons.mpr ⟨hv, List.forall_mem_singleton.mpr (Value.within_intrinsic.mpr Intrinsic.within_dictionary)⟩

namespace World.Building

section

variable (h : w.Building home names x)
include h

theorem within_global (hv : x.global home name = .ok v) : v.Within x.region := h.sound.within_global h.known hv

/-- A name that nothing new is expected of may mean anything that is there. -/
theorem bind_any (hv : v.Within x.region) (hn : name ∉ names) : w.Building home names (x.setGlobal home name v) :=
  h.bind hv fun _ hmem => .inr ⟨fun heq => hn (heq ▸ hmem), hmem⟩

end

/-- Imports bind names, once modules were run that register nothing. -/
theorem of_import (h : w.Building home [] x) (hquiet : w.Quiet) {i : Import} (hi : Gives (i.execute home) x u x') :
    w.Building home [] x' := by
  obtain ⟨_, _, hrun, hi⟩ := gives_bind.mp hi
  obtain rfl := gives_modify.mp hrun
  have h := h.run hquiet (i.runs x)
  generalize x.runAll (i.runs x) = x at h hi
  have hi := gives_bind_get.mp hi
  obtain ⟨m, hm, hi⟩ := gives_bind_lift.mp hi
  have hm := h.sound.within_locate hm
  split at hi
  · refine (preserved_of_forM (P := fun x => w.Building home [] x ∧ m.Within x.region) ⟨h, hm⟩ hi ?_).1
    rintro n _ x₁ x₂ ⟨h₁, hm₁⟩ hn
    have hn := gives_bind_get.mp hn
    obtain ⟨v, hv, hn⟩ := gives_bind_lift.mp hn
    obtain rfl := gives_name.mp hn
    have hv := h₁.sound.within_take (Value.within_module.mpr hm₁) hv
    exact ⟨h₁.bind_any hv (by simp), by rwa [region_setGlobal]⟩
  · obtain ⟨top, htop, hi⟩ := gives_bind_lift.mp hi
    have htop := Value.within_module.mpr (h.sound.within_locate htop)
    split at hi
    · obtain rfl := gives_name.mp hi
      exact h.bind_any htop (by simp)
    · obtain ⟨v, hv, hi⟩ := gives_bind_lift.mp hi
      obtain rfl := gives_name.mp hi
      refine h.bind_any ?_ (by simp)
      have hpath : Concur (·.Within x.region) (i.module.rest.foldlM x.take (.module top)) (i.module.rest.foldlM x.take (.module top)) :=
        .foldlM htop fun v hv name _ => ⟨rfl, fun a ha => h.sound.within_take hv ha⟩
      exact hpath.2 v hv

/-! ### Unions -/

variable (h : w.Building home names x) (hquiet : w.Quiet)
include h hquiet

/-- The class of a variant comes in, or something that holds it. -/
theorem of_case {c : CaseClass} (hc : Gives (c.execute home) x u x') : w.Building home (c.name :: names) x' := by
  obtain ⟨maker, hmaker, hc⟩ := gives_bind_global.mp hc
  have hmaker := h.within_global hmaker
  extract_lets declare at hc
  have hdeclare (wrap : Option Value) (hd : Gives (declare wrap) x u x') (hwrap : ∀ f, wrap = some f → f.Within x.region ∧
      ∃ id fields, f = .record id fields) : w.Building home (c.name :: names) x' := by
    obtain ⟨base, hbase, hd⟩ := gives_bind_global.mp hd
    have hbase := h.within_global hbase
    split at hd
    · obtain ⟨moduleName, hmodule, hd⟩ := gives_bind_global.mp hd
      have hmodule := h.within_global hmodule
      have hd := gives_bind_get.mp hd
      obtain ⟨⟨id, x₁⟩, hdeclared, hd⟩ := gives_bind_lift.mp hd
      have hattributes := c.within_bodyAttributes hmodule
      obtain ⟨h₁, hnew, hknown, hle⟩ := h.declareClass (List.forall_mem_singleton.mpr (Value.within_cls.mp hbase)) hattributes hdeclared
      have hd := gives_bind_set.mp hd
      cases wrap with
      | none =>
        have hd := gives_bind_get.mp hd
        obtain ⟨x₂, hmade, hd⟩ := gives_bind_lift.mp hd
        obtain ⟨h₂, hlength⟩ := h₁.makeRecord hnew hknown hmade
        obtain rfl := gives_name.mp (gives_bind_set.mp hd)
        have hknown : id < x₂.classes.length := by omega
        exact h₂.bind_new (Value.within_cls.mpr hknown) (.of_class hnew)
      | some f =>
        obtain ⟨hf, _, _, rfl⟩ := hwrap f rfl
        obtain ⟨v, hv, hd⟩ := gives_bind_call.mp hd
        rw [(h₁.grown.quiet hquiet).calling_eq (by simp [Supplied.of]), addAll_nil] at hd
        rw [call_of_calling (by simp [Supplied.of])] at hv
        obtain rfl := gives_name.mp hd
        obtain ⟨k, fields, rfl, e, he, heq⟩ := exists_of_wrap hv
        refine h₁.bind_new (h₁.sound.within_call (hf.mono hle) (Supplied.within_of ?_) hv) (.of_field he ?_)
        · exact List.forall_mem_singleton.mpr (Value.within_cls.mpr hknown)
        · exact heq ▸ .of_class hnew
    · exact absurd (gives_bind_get.mp hd) not_gives_throw
  split at hc
  · obtain ⟨wrap, _, hwrap, hd⟩ := gives_bind.mp hc
    obtain ⟨rfl, rfl⟩ := gives_pure.mp hwrap
    exact hdeclare none hd fun _ hf => by cases hf
  · obtain ⟨wrap, _, hwrap, hd⟩ := gives_bind.mp hc
    have hquiet := h.grown.quiet hquiet
    obtain ⟨f, hf, hwrap⟩ := gives_bind_call.mp hwrap
    rw [hquiet.calling_eq (by simp), addAll_nil] at hwrap
    rw [call_of_calling (by simp)] at hf
    obtain ⟨rfl, rfl⟩ := gives_pure.mp hwrap
    refine hdeclare (some f) hd fun g hg => ?_
    obtain rfl := Option.some.inj hg
    exact ⟨h.sound.within_call hmaker ⟨by simp, by simp⟩ hf, call_frozen hquiet hf⟩

theorem of_cases {cs : List CaseClass} (hcs : Gives (cs.forM (·.execute home)) x u x') :
    w.Building home (cs.map (·.name) ++ names) x' := by
  induction cs generalizing x names with
  | nil =>
    obtain rfl := gives_forM_nil.mp hcs
    exact h
  | cons c cs ih =>
    obtain ⟨x₁, hc, hcs⟩ := gives_forM_cons.mp hcs
    refine (ih (h.of_case hquiet hc) hcs).mono fun n hn => ?_
    simp only [List.map_cons, List.cons_append, List.mem_cons, List.mem_append] at hn ⊢
    tauto

/-- A variant that came in is attached to its union, which did, too. -/
theorem of_attach (hsound : w.Sound) {c : CaseClass} (hunion : c.union ∈ names) (hvariant : c.name ∈ names)
    (hword : constant? c.name = none) (hc : Gives (c.attach home) x u x') : w.Building home names x' := by
  obtain ⟨f, _, hc⟩ := gives_bind_globalPath.mp hc
  obtain ⟨union, hu, hc⟩ := gives_bind_global.mp hc
  obtain ⟨variant, hv, hc⟩ := gives_bind_global.mp hc
  split at hc
  · rename_i union variant
    have hc := gives_bind_set.mp (gives_bind_get.mp hc)
    obtain ⟨_, rfl⟩ := gives_lift.mp hc
    exact h.attachVariant (h.le_class hunion hu) (h.le_class hvariant hv) (Value.within_cls.mp (h.within_global hu))
      (Value.within_cls.mp (h.within_global hv))
  · obtain ⟨_, _, hc⟩ := gives_bind_call.mp hc
    obtain ⟨_, rfl⟩ := gives_pure.mp hc
    refine h.addAll hsound fun a ha => ?_
    rcases mem_calling ha with ha | ⟨source, target, f, _, hs, _, rfl⟩
    · rw [(h.grown.quiet hquiet).registers] at ha
      cases ha
    · obtain ⟨rfl, rfl, rfl⟩ : union = source ∧ variant = target ∧ Value.text c.case = f := by simpa [Supplied.of] using hs
      exact ⟨h.within_global hv, Value.within_text (ρ := x.region) c.case, h.lacks_of_global hvariant hword hv⟩

/-- A union comes in with its variants. -/
theorem of_union (hsound : w.Sound) {n : UnionClass} (hcases : ∀ c ∈ n.cases, c.union = n.name ∧ constant? c.name = none) (hn : Gives (n.execute home) x u x') :
    w.Building home (n.name :: names) x' := by
  obtain ⟨moduleName, hmodule, hn⟩ := gives_bind_global.mp hn
  have hmodule := h.within_global hmodule
  have hn := gives_bind_get.mp hn
  obtain ⟨⟨id, x₁⟩, hdeclared, hn⟩ := gives_bind_lift.mp hn
  have hattributes : Table.Within x.region
      ⟨[("__module__", moduleName), ("__doc__", .text n.docText), ("__slots__", .tuple [])]⟩ := by
    refine .of_entries ?_
    simp [hmodule]
  obtain ⟨h₁, hnew, hknown, _⟩ := h.declareClass (by simp) hattributes hdeclared
  have hn := gives_bind_set.mp hn
  have hn := gives_bind_name.mp hn
  have h₂ : w.Building home (n.name :: names) (x₁.setGlobal home n.name (.cls (.declared id))) :=
    h₁.bind_new (Value.within_cls.mpr hknown) (.of_class hnew)
  obtain ⟨_, x₂, hdeclares, hattaches⟩ := gives_bind.mp hn
  have h₃ := h₂.of_cases hquiet hdeclares
  refine mono (preserved_of_forM h₃ hattaches fun c hc x₁ x₂ h₁ hattach => h₁.of_attach hquiet hsound ?_ ?_ (hcases c hc).2 hattach) ?_
  · rw [(hcases c hc).1]
    exact List.mem_append_right _ List.mem_cons_self
  · exact List.mem_append_left _ (List.mem_map_of_mem hc)
  · exact fun m hm => List.mem_append_right _ hm

theorem of_unions (hsound : w.Sound) {us : List UnionClass}
    (hcases : ∀ n ∈ us, ∀ c ∈ n.cases, c.union = n.name ∧ constant? c.name = none)
    (hus : Gives (us.forM (·.execute home)) x u x') : w.Building home (us.map (·.name) ++ names) x' := by
  induction us generalizing x names with
  | nil =>
    obtain rfl := gives_forM_nil.mp hus
    exact h
  | cons n us ih =>
    obtain ⟨hn, hcases⟩ := List.forall_mem_cons.mp hcases
    obtain ⟨x₁, hgives, hus⟩ := gives_forM_cons.mp hus
    refine (ih (h.of_union hquiet hsound hn hgives) hcases hus).mono fun m hm => ?_
    simp only [List.map_cons, List.cons_append, List.mem_cons, List.mem_append] at hm ⊢
    tauto

/-! ### Bridges -/

omit hquiet in
theorem of_definitions {es : List (String × Value)} (hes : ∀ e ∈ es, ∃ f, e.2 = .function f ∧ f.home? = some home) :
    w.Building home (es.map Prod.fst ++ names) (x.setGlobals home es) := by
  induction es generalizing x names with
  | nil =>
    rw [setGlobals_nil]
    exact h
  | cons e es ih =>
    obtain ⟨⟨f, heq, hhome⟩, hes⟩ := List.forall_mem_cons.mp hes
    have hwithin : e.2.Within x.region := by
      rw [heq]
      refine Value.within_function.mpr (FunctionRef.within_region.mpr fun home' hhome' => ?_)
      obtain rfl := Option.some.inj (hhome.symm.trans hhome')
      exact h.known
    have h₁ : w.Building home (e.1 :: names) (x.setGlobal home e.1 e.2) :=
      h.bind_new hwithin (heq ▸ .of_function hhome h.new)
    have h₂ := ih h₁ hes
    rw [setGlobal_eq, setGlobals_setGlobals] at h₂
    refine h₂.mono fun m hm => ?_
    simp only [List.map_cons, List.cons_append, List.mem_cons, List.mem_append] at hm ⊢
    tauto

/-- A destination that came in gets its functions. -/
theorem of_bridge {b : Bridge} (hdest : b.dest ∈ names) (hb : Gives (b.execute home) x u x') : w.Building home names x' := by
  obtain ⟨as, as', y, detach, g, f, target, has, has', rfl, hdetach, hg, hf, htarget, hleft⟩ := Bridge.gives_execute hb
  have hx := h.grown.quiet hquiet
  obtain rfl := hx.eq_nil_of_fromOutside has
  obtain rfl := hx.eq_nil_of_fromOutside has'
  simp only [addAll_nil] at hdetach hg hf htarget hleft
  have hdefined : ∀ e ∈ b.definitions home, ∃ f, e.2 = .function f ∧ f.home? = some home := by
    intro e he
    rcases Bridge.mem_definitions.mp he with ⟨c, _, rfl⟩ | rfl
    · exact ⟨_, rfl, rfl⟩
    · exact ⟨_, rfl, rfl⟩
  have h₁ := (h.of_definitions hdefined).mono fun m hm => List.mem_append_right _ hm
  have hf := h₁.sound.within_call (h₁.within_global hdetach) (Supplied.within_of (List.forall_mem_singleton.mpr (h₁.within_global hg))) hf
  rcases hleft with ⟨id, rfl, rfl⟩ | ⟨d, rfl, rfl⟩
  · exact h₁.setAttribute (h₁.le_class hdest htarget) hf
  · exact h₁.misplace (h₁.not_within_function hdest htarget) hf

end World.Building

end UnionBridge
