import UnionBridge.Proofs.Execution.Fields

/-! Trying candidates in turn: what a function does up to the point where a candidate is chosen. -/
namespace UnionBridge

open UnionBridge.Action

variable {s : Scope} {conv : Conversion} {attempts : List Attempt} {σ : Sense} {a : Attempt} {f : FieldStep}
  {l : Locals} {x v : Value} {vs : List Value} {e : Failure} {L : List Candidate}

/-! ### Choosing -/

/-- What the fields of a candidate are converted to. -/
def Candidate.convert (σ : Sense) (s : Scope) (x : Value) (r : Request) (c : Candidate) : Except Failure (List Value) :=
  c.target.fields.mapM fun f => σ.reply s x r f.attr f.type

/-- The first candidate that accepts all of its fields, with what they become. A rejection leads on to the next
candidate; any other failure is the end. -/
def firstFit (convert : Candidate → Except Failure (List Value)) :
    List Candidate → Except Failure (Option (Candidate × List Value))
  | [] => .ok none
  | c :: rest =>
    match convert c with
    | .ok vs => .ok (some (c, vs))
    | .error e => if e.isRejection then firstFit convert rest else .error e

/-- The candidate that a value becomes, and what its fields are converted to. A single candidate has to accept; of
several, the first that fits is taken, and it is an error if none does. -/
def chosen (σ : Sense) (s : Scope) (x : Value) (dest case : String) (L : List Candidate) :
    Except Failure (Candidate × List Value) :=
  match L with
  | [c] => (c.convert σ s x .into).map fun vs => (c, vs)
  | _ =>
    match firstFit (Candidate.convert σ s x .tryInto) L with
    | .ok (some r) => .ok r
    | .ok none => .error (.exhaustion s.world x dest case (L.map fun c => s!"{dest}.{c.target.name}"))
    | .error e => .error e

theorem chosen_several {dest case : String} (h : L.length ≠ 1) :
    chosen σ s x dest case L =
      match firstFit (Candidate.convert σ s x .tryInto) L with
      | .ok (some r) => .ok r
      | .ok none => .error (.exhaustion s.world x dest case (L.map fun c => s!"{dest}.{c.target.name}"))
      | .error e => .error e := by
  match L with
  | [] => rfl
  | [c] => simp at h
  | _ :: _ :: _ => rfl

/-- What fits first is one of the candidates, and accepts. -/
theorem mem_of_firstFit {convert : Candidate → Except Failure (List Value)} {c : Candidate}
    (h : firstFit convert L = .ok (some (c, vs))) : c ∈ L ∧ convert c = .ok vs := by
  induction L with
  | nil => cases h
  | cons d L ih =>
    rw [firstFit] at h
    cases hd : convert d with
    | ok us =>
      rw [hd] at h
      cases h
      exact ⟨by simp, hd⟩
    | error e =>
      rw [hd] at h
      by_cases he : e.isRejection
      · obtain ⟨hc, hvs⟩ := ih (by simpa [he] using h)
        exact ⟨by simp [hc], hvs⟩
      · simp [he] at h

/-! ### One attempt -/

/-- What the steps of a candidate come to, in terms of its fields. -/
theorem mapM_steps (r : Request) (dest : String) (c : Candidate) :
    (Attempt.ofTarget dest c.target).steps.mapM (fun f => σ.reply s x r f.attr f.type) = c.convert σ s x r := by
  rw [Candidate.convert, Attempt.ofTarget, List.mapM_map]
  rfl

/-- What follows once all fields of a candidate are accepted. -/
def Attempt.conclude (container : Option DottedName) (a : Attempt) (s : Scope) : Action Value := do
  a.steps.forM (·.settle container s)
  a.finish container s

/-- What is assigned when a field is kept under its own variable. -/
def FieldStep.keep (f : FieldStep) (v : Value) : List (String × Value) := [(f.slot, v)]

/-- The variables once all fields of a candidate are kept. -/
def Attempt.keeping (a : Attempt) (vs : List Value) (l : Locals) : Locals :=
  l.insertAll (writesOf FieldStep.keep a.steps vs)

namespace Scope.Tries

variable (h : s.Tries conv attempts σ)
include h

theorem eval_attempt_ok (ha : a ∈ attempts) (hf : f ∈ a.steps) (hx : l.get? Conversion.parameter = some x)
    (hr : σ.reply s x .tryInto f.attr f.type = .ok v) :
    eval (f.attempt conv.container s) l = (.ok (), l.insertAll (f.keep v)) := by
  rw [FieldStep.attempt, eval_bind_ok ((h.toReads.eval_ask ha hf hx .tryInto).trans (by rw [hr]))]
  rfl

theorem eval_attempt_error (ha : a ∈ attempts) (hf : f ∈ a.steps) (hx : l.get? Conversion.parameter = some x)
    (hr : σ.reply s x .tryInto f.attr f.type = .error e) :
    eval (f.attempt conv.container s) l = (.error e, l) := by
  rw [FieldStep.attempt, eval_bind_error ((h.toReads.eval_ask ha hf hx .tryInto).trans (by rw [hr]))]

theorem eval_catches (e : Failure) (l : Locals) : eval (s.catches e) l = (.ok e.isRejection, l) := by
  cases hu : e.isUndetermined with
  | true =>
    cases e with
    | error kind message => simp only [catches, hu, if_pos]; rfl
    | _ => cases hu
  | false =>
    simp only [catches, hu, Bool.false_eq_true, if_false, helper]
    rw [eval_bind_ok (h.rejection.eval_fetchPath l)]
    rfl

end Scope.Tries

section Steps

variable {dest : String} {t : Target} {c : Candidate}

theorem mem_steps_ofTarget : f ∈ (Attempt.ofTarget dest t).steps ↔ ∃ g ∈ t.fields, FieldStep.ofField g = f := by
  rw [Attempt.ofTarget, List.mem_map]

theorem parameter_notMem_keep (hf : f ∈ (Attempt.ofTarget dest t).steps) (v : Value) :
    Conversion.parameter ∉ (f.keep v).map Prod.fst := by
  obtain ⟨g, _, rfl⟩ := mem_steps_ofTarget.mp hf
  simpa [FieldStep.keep] using fun h => Naming.slot_ne_parameter h.symm

variable (h : s.Tries conv attempts σ) (hc : Attempt.ofTarget dest c.target ∈ attempts)
  (hx : l.get? Conversion.parameter = some x)
include h hc hx

theorem eval_attempts_ok (hr : c.convert σ s x .tryInto = .ok vs) :
    eval ((Attempt.ofTarget dest c.target).steps.forM (·.attempt conv.container s)) l =
      (.ok (), (Attempt.ofTarget dest c.target).keeping vs l) := by
  rw [← mapM_steps .tryInto dest c, mapM_eq_ok_iff] at hr
  exact eval_forM_ok (fun f hf l v hx hv => h.eval_attempt_ok hc hf hx hv) (fun f hf => parameter_notMem_keep hf) hx hr

theorem eval_attempts_error (hr : c.convert σ s x .tryInto = .error e) :
    ∃ l', eval ((Attempt.ofTarget dest c.target).steps.forM (·.attempt conv.container s)) l = (.error e, l') ∧
      l'.get? Conversion.parameter = some x := by
  rw [← mapM_steps .tryInto dest c] at hr
  exact eval_forM_error (fun f hf l v hx hv => h.eval_attempt_ok hc hf hx hv)
    (fun f hf l e hx he => h.eval_attempt_error hc hf hx he) (fun f hf => parameter_notMem_keep hf) hx hr

/-- A candidate that accepts goes on from variables that hold what its fields became. -/
theorem eval_runTry_ok (hr : c.convert σ s x .tryInto = .ok vs) :
    eval ((Attempt.ofTarget dest c.target).runTry conv.container s) l =
      eval (some <$> (Attempt.ofTarget dest c.target).conclude conv.container s)
        ((Attempt.ofTarget dest c.target).keeping vs l) := by
  rw [Attempt.runTry, Attempt.conclude, map_bind]
  apply eval_bind_ok (v := true)
  apply eval_tryCatch_ok
  rw [eval_bind_ok (eval_attempts_ok h hc hx hr), eval_pure]

/-- A rejection is caught, and what was assigned before it does no harm. -/
theorem eval_runTry_rejected (hr : c.convert σ s x .tryInto = .error e) (he : e.isRejection) :
    ∃ l', eval ((Attempt.ofTarget dest c.target).runTry conv.container s) l = (.ok none, l') ∧
      l'.get? Conversion.parameter = some x := by
  obtain ⟨l', hl', hx'⟩ := eval_attempts_error h hc hx hr
  refine ⟨l', ?_, hx'⟩
  have haccepted : eval (tryCatch
      (do (Attempt.ofTarget dest c.target).steps.forM (·.attempt conv.container s); return true)
      fun f => do if ← s.catches f then return false else throw f) l = (.ok false, l') := by
    rw [eval_tryCatch_error (eval_bind_error hl'), eval_bind_ok (h.eval_catches e l'), he]
    rfl
  rw [Attempt.runTry, eval_bind_ok haccepted]
  rfl

theorem eval_runTry_error (hr : c.convert σ s x .tryInto = .error e) (he : e.isRejection = false) :
    ∃ l', eval ((Attempt.ofTarget dest c.target).runTry conv.container s) l = (.error e, l') := by
  obtain ⟨l', hl', _⟩ := eval_attempts_error h hc hx hr
  refine ⟨l', ?_⟩
  have haccepted : eval (tryCatch
      (do (Attempt.ofTarget dest c.target).steps.forM (·.attempt conv.container s); return true)
      fun f => do if ← s.catches f then return false else throw f) l = (.error e, l') := by
    rw [eval_tryCatch_error (eval_bind_error hl'), eval_bind_ok (h.eval_catches e l'), he]
    rfl
  rw [Attempt.runTry, eval_bind_error haccepted]

end Steps

/-! ### All attempts -/

/-- Whoever only hands a result on changes nothing where there always is one. -/
theorem eval_bind_some {α : Type} {m : Action (Option α)} {k : Option α → Action (Option α)}
    (hk : ∀ v, k (some v) = pure (some v)) (hm : (eval m l).1 ≠ .ok none) : eval (m >>= k) l = eval m l := by
  rw [eval_bind]
  cases hr : eval m l with
  | mk r l' =>
    cases r with
    | error e => rfl
    | ok o =>
      cases o with
      | none => simp [hr] at hm
      | some v => simp only [hk, eval_pure]

theorem eval_some_ne_none {α : Type} (m : Action α) (l : Locals) : (eval (some <$> m) l).1 ≠ .ok none := by
  rw [eval_map]
  cases (eval m l).1 <;> simp [Except.map]

section All

variable {dest : String} {c : Candidate} (h : s.Tries conv attempts σ)
  (hL : ∀ c ∈ L, Attempt.ofTarget dest c.target ∈ attempts) (hx : l.get? Conversion.parameter = some x)
include h hL hx

/-- The candidate that fits first is settled and finished. Nothing later is attempted. -/
theorem eval_firstAccepted_some (hr : firstFit (Candidate.convert σ s x .tryInto) L = .ok (some (c, vs))) :
    ∃ l' : Locals, l'.get? Conversion.parameter = some x ∧
      eval (ArmBody.firstAccepted conv.container s (L.map fun c => Attempt.ofTarget dest c.target)) l =
        eval (some <$> (Attempt.ofTarget dest c.target).conclude conv.container s)
          ((Attempt.ofTarget dest c.target).keeping vs l') := by
  induction L generalizing l with
  | nil => cases hr
  | cons d L ih =>
    rw [firstFit] at hr
    rw [List.map_cons, ArmBody.firstAccepted]
    cases hd : d.convert σ s x .tryInto with
    | ok us =>
      rw [hd] at hr
      cases hr
      have hrun := eval_runTry_ok h (hL c (by simp)) hx hd
      refine ⟨l, hx, ?_⟩
      refine (eval_bind_some ?_ ?_).trans hrun
      · intro v
        rfl
      · rw [hrun]
        exact eval_some_ne_none _ _
    | error e =>
      rw [hd] at hr
      by_cases he : e.isRejection
      · obtain ⟨l₁, hl₁, hx₁⟩ := eval_runTry_rejected h (hL d (by simp)) hx hd he
        obtain ⟨l', hx', hl'⟩ := ih (fun c hc => hL c (by simp [hc])) hx₁ (by simpa [he] using hr)
        refine ⟨l', hx', ?_⟩
        rw [eval_bind_ok hl₁]
        exact hl'
      · simp [he] at hr

/-- Where some candidates all reject, whatever attempts come after them are next, and the value that is being converted
is still there. -/
theorem eval_firstAccepted_append (hr : firstFit (Candidate.convert σ s x .tryInto) L = .ok none)
    (rest : List Attempt) :
    ∃ l', eval (ArmBody.firstAccepted conv.container s ((L.map fun c => Attempt.ofTarget dest c.target) ++ rest)) l =
      eval (ArmBody.firstAccepted conv.container s rest) l' ∧ l'.get? Conversion.parameter = some x := by
  induction L generalizing l with
  | nil => exact ⟨l, rfl, hx⟩
  | cons d L ih =>
    rw [firstFit] at hr
    rw [List.map_cons, List.cons_append, ArmBody.firstAccepted]
    cases hd : d.convert σ s x .tryInto with
    | ok us =>
      rw [hd] at hr
      cases hr
    | error e =>
      rw [hd] at hr
      by_cases he : e.isRejection
      · obtain ⟨l₁, hl₁, hx₁⟩ := eval_runTry_rejected h (hL d (by simp)) hx hd he
        rw [eval_bind_ok hl₁]
        exact ih (fun c hc => hL c (by simp [hc])) hx₁ (by simpa [he] using hr)
      · simp [he] at hr

/-- Where every candidate rejects, there is no result. -/
theorem eval_firstAccepted_none (hr : firstFit (Candidate.convert σ s x .tryInto) L = .ok none) :
    ∃ l', eval (ArmBody.firstAccepted conv.container s (L.map fun c => Attempt.ofTarget dest c.target)) l =
      (.ok none, l') ∧ l'.get? Conversion.parameter = some x := by
  obtain ⟨l', hl', hx'⟩ := eval_firstAccepted_append h hL hx hr []
  rw [List.append_nil] at hl'
  exact ⟨l', hl', hx'⟩

/-- A failure that is no rejection escapes at once. -/
theorem eval_firstAccepted_error (hr : firstFit (Candidate.convert σ s x .tryInto) L = .error e) :
    ∃ l', eval (ArmBody.firstAccepted conv.container s (L.map fun c => Attempt.ofTarget dest c.target)) l =
      (.error e, l') := by
  induction L generalizing l with
  | nil => cases hr
  | cons d L ih =>
    rw [firstFit] at hr
    rw [List.map_cons, ArmBody.firstAccepted]
    cases hd : d.convert σ s x .tryInto with
    | ok us =>
      rw [hd] at hr
      cases hr
    | error e' =>
      rw [hd] at hr
      by_cases he : e'.isRejection
      · obtain ⟨l₁, hl₁, hx₁⟩ := eval_runTry_rejected h (hL d (by simp)) hx hd he
        rw [eval_bind_ok hl₁]
        exact ih (fun c hc => hL c (by simp [hc])) hx₁ (by simpa [he] using hr)
      · obtain rfl : e' = e := by simpa [he] using hr
        obtain ⟨l₁, hl₁⟩ := eval_runTry_error h (hL d (by simp)) hx hd (by simpa using he)
        exact ⟨l₁, eval_bind_error hl₁⟩

end All

/-! ### Arms -/

section Arms

variable {dest case : String} {c : Candidate} (h : s.Tries conv attempts σ)
  (hL : ∀ c ∈ L, Attempt.ofTarget dest c.target ∈ attempts) (hx : l.get? Conversion.parameter = some x)
include h hL hx

/-- Where a candidate fits, the arm comes to what settling and finishing it comes to. -/
theorem eval_run_some (hr : firstFit (Candidate.convert σ s x .tryInto) L = .ok (some (c, vs))) :
    ∃ l' : Locals, l'.get? Conversion.parameter = some x ∧
      (eval (ArmBody.run conv s case (.firstFit (L.map fun c => Attempt.ofTarget dest c.target))) l).1 =
        (eval ((Attempt.ofTarget dest c.target).conclude conv.container s)
          ((Attempt.ofTarget dest c.target).keeping vs l')).1 := by
  obtain ⟨l', hx', hl'⟩ := eval_firstAccepted_some h hL hx hr
  refine ⟨l', hx', ?_⟩
  rw [eval_map] at hl'
  rw [ArmBody.run]
  cases hc : eval ((Attempt.ofTarget dest c.target).conclude conv.container s)
    ((Attempt.ofTarget dest c.target).keeping vs l') with
  | mk r l₁ =>
    rw [hc] at hl'
    cases r with
    | error e => rw [eval_bind_error hl']
    | ok v =>
      rw [eval_bind_ok hl']
      rfl

theorem eval_run_error (hr : firstFit (Candidate.convert σ s x .tryInto) L = .error e) :
    (eval (ArmBody.run conv s case (.firstFit (L.map fun c => Attempt.ofTarget dest c.target))) l).1 = .error e := by
  obtain ⟨l', hl'⟩ := eval_firstAccepted_error h hL hx hr
  rw [ArmBody.run, eval_bind_error hl']

/-- Without a candidate that fits, the error names the value, the destination, the case and everything tried. -/
theorem eval_run_none (hr : firstFit (Candidate.convert σ s x .tryInto) L = .ok none) :
    (eval (ArmBody.run conv s case (.firstFit (L.map fun c => Attempt.ofTarget dest c.target))) l).1 =
      .error (.exhaustion s.world x conv.dest s!"{conv.source}.{case}"
        (L.map fun c => s!"{dest}.{c.target.name}")) := by
  obtain ⟨l', hl', hx'⟩ := eval_firstAccepted_none h hL hx hr
  rw [ArmBody.run, eval_bind_ok hl']
  simp only [Scope.helper]
  rw [eval_bind_ok (h.exhaustion.eval_fetchPath l'), eval_bind_ok (h.toReads.eval_parameter hx')]
  have htried : ((L.map fun c => Attempt.ofTarget dest c.target).map fun a => Value.text a.label).filterMap
      Value.asText? = L.map fun c => s!"{dest}.{c.target.name}" := by
    rw [List.map_map, List.filterMap_map, ← List.filterMap_eq_map]
    rfl
  simp only [Scope.raiseBy, eval_throw, htried]

end Arms

end UnionBridge
