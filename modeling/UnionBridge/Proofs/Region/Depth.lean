import UnionBridge.Proofs.Region.Run

/-! Calls in two worlds that are the same in a region, however deep they nest. -/
namespace UnionBridge

variable {ρ κ : Region} {asked : String → Prop} {w w' : World} {f : Value} {s : Supplied}

/-- No variable of a function hides a name by which it reaches what its module has. -/
def FunctionRef.Free : FunctionRef → Prop
  | .conversion _ c => ∀ name ∈ c.reached, name ∉ c.ownNames
  | .dispatcher _ d => ∀ name ∈ d.reached, name ∉ d.ownNames
  | .builtin _ | .registrar _ _ => True

/-- Two worlds that no call of something in a region can tell apart, as far as the registries that are asked on the way
answer alike. -/
structure World.Parallel (ρ κ : Region) (asked : String → Prop) (w w' : World) : Prop where
  nested : w.Nested ρ κ w'
  owned : ∀ (f : FunctionRef) home, f.Within κ → f.home? = some home → ∀ name,
    w.global home "_registry" = .ok (.registry name) → asked name
  free : (ρ.Le κ ∧ ∀ name, asked name) ∨ ∀ f : FunctionRef, f.Within κ → f.Free
  answer : ∀ depth name, asked name → Callers ρ κ (w.callWithin depth) (w'.callWithin depth) →
    ∀ request v target container, v.Within ρ → target.Within κ → (∀ c, container = some c → c.Within κ) →
    Concur (·.Within ρ) (w'.answer (w'.callWithin depth) name request v target container)
      (w.answer (w.callWithin depth) name request v target container)

/-! ### Calls that do not fit -/

/-- What takes one value takes neither none nor several. -/
theorem Parameters.exists_bind_unfit (function p : String) {vs : List Value} (h : vs.length ≠ 1) :
    ∃ e, bind function 0 (required [p]) (.of vs) = .error e := by
  match vs, h with
  | [], _ => exact ⟨_, rfl⟩
  | _ :: _ :: _, _ => exact ⟨_, rfl⟩

/-- The function of a module that is not passed one value does the same in any world. -/
theorem World.runWithin_unfit {g : FunctionRef} {depth : Nat} {vs : List Value} (h : vs.length ≠ 1) :
    Concur (·.Within ρ) (w'.runWithin depth g (.of vs)) (w.runWithin depth g (.of vs)) := by
  cases depth with
  | zero => exact .error
  | succ depth =>
    unfold runWithin
    split
    · exact .ok Value.within_none
    · rename_i parameter _ _
      obtain ⟨e, he⟩ := Parameters.exists_bind_unfit g.name parameter h
      simp only [he]
      exact .error

/-! ### Calls -/

theorem World.Same.concur_callBy {run run' : FunctionRef → Supplied → Except Failure Value} (h : w.Same ρ w')
    (hf : f.Within ρ) (hs : s.Within ρ)
    (hrun : ∀ g home, f = .function g → g.home? = some home → Concur (·.Within ρ) (run' g s) (run g s)) :
    Concur (·.Within ρ) (w'.callBy run' f s) (w.callBy run f s) := by
  unfold callBy
  split
  · exact h.concur_construct (Value.within_cls.mp hf) hs
  · exact h.concur_builtinCall hs
  · rename_i g hg
    cases g with
    | builtin b => exact absurd rfl (hg b)
    | _ => exact hrun _ _ rfl rfl
  · exact h.concur_react (Value.within_intrinsic.mp hf) hs
  · rw [h.override?_eq (Value.within_classOf hf)]
    split
    · rename_i ho
      exact h.concur_instantiate (h.within_override? (Value.within_classOf hf) ho) hs
    · rw [h.typeName_eq hf]
      exact .error

namespace World.Parallel

variable (h : w.Parallel ρ κ asked w')
include h

theorem concur_runWithin {depth : Nat} {g : FunctionRef} (hcallers : Callers ρ κ (w.callWithin depth) (w'.callWithin depth))
    (hg : g.Within κ) (hs : s.Within ρ) :
    Concur (·.Within ρ) (w'.runWithin (depth + 1) g s) (w.runWithin (depth + 1) g s) := by
  have hparallel (home : Nat) (own : List String) (hhome : g.home? = some home) :
      Scope.Parallel ρ κ asked ⟨w, home, w.callWithin depth, w.answer (w.callWithin depth), own⟩
        ⟨w', home, w'.callWithin depth, w'.answer (w'.callWithin depth), own⟩ :=
    { nested := h.nested
      callers := hcallers
      home_eq := rfl
      own_eq := rfl
      home := h.nested.closed.home g home hg hhome
      owned := h.owned g home hg hhome
      answer := fun name hname => h.answer depth name hname hcallers }
  -- what a function comes to, by what its body comes to from its parameter
  have hbody (parameter : String) (body' body : Action Value) (hbody : Action.Concurs ρ (·.Within ρ) body' body) :
      Concur (·.Within ρ)
        (do
          let locals ← Parameters.bind g.name 0 (Parameters.required [parameter]) s
          (body'.run.run ⟨locals⟩).1)
        (do
          let locals ← Parameters.bind g.name 0 (Parameters.required [parameter]) s
          (body.run.run ⟨locals⟩).1) := by
    refine (Parameters.concur_bind (Parameters.within_required _) hs).bind fun locals hlocals => ?_
    obtain ⟨heq, _, hresult⟩ := hbody ⟨locals⟩ (.of_entries hlocals)
    exact ⟨congrArg Prod.fst heq, hresult⟩
  cases g with
  | builtin b => exact .ok Value.within_none
  | conversion home c =>
    have hreach : Scope.Reaches ρ κ asked ⟨w, home, w.callWithin depth, w.answer (w.callWithin depth), c.ownNames⟩ c.reached :=
      h.free.imp id fun hfree => hfree _ hg
    exact hbody _ _ _ ((hparallel home _ rfl).concurs_conversion hreach)
  | dispatcher home d =>
    have hreach : Scope.Reaches ρ κ asked ⟨w, home, w.callWithin depth, w.answer (w.callWithin depth), d.ownNames⟩ d.reached :=
      h.free.imp id fun hfree => hfree _ hg
    exact hbody _ _ _ ((hparallel home _ rfl).concurs_dispatcher hreach)
  | registrar home rs => exact hbody _ _ _ (hparallel home _ rfl).concurs_registrar

/-- By induction on how deep calls nest: the callers of one level run functions whose callers are those of the level
below. -/
theorem callers (depth : Nat) : Callers ρ κ (w.callWithin depth) (w'.callWithin depth) := by
  have hunfit (depth : Nat) (f : Value) (vs : List Value) (hf : f.Within ρ) (hvs : ∀ v ∈ vs, v.Within ρ)
      (hlength : vs.length ≠ 1) :
      Concur (·.Within ρ) (w'.callWithin depth f (.of vs)) (w.callWithin depth f (.of vs)) :=
    h.nested.same.concur_callBy hf (Supplied.within_of hvs) fun _ _ _ _ => runWithin_unfit hlength
  induction depth with
  | zero => exact ⟨fun f s hf hs => h.nested.same.concur_callBy (hf.mono h.nested.le) hs fun _ _ _ _ => .error, hunfit 0⟩
  | succ depth ih =>
    refine ⟨fun f s hf hs => h.nested.same.concur_callBy (hf.mono h.nested.le) hs ?_, hunfit (depth + 1)⟩
    rintro g home rfl _
    exact h.concur_runWithin ih (Value.within_function.mp hf) hs

/-- A call of something in the region comes to the same in both worlds. -/
theorem concur_call (hf : f.Within κ) (hs : s.Within ρ) : Concur (·.Within ρ) (w'.call f s) (w.call f s) :=
  (h.callers _).apt f s hf hs

end World.Parallel

end UnionBridge
