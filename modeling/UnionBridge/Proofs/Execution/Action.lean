import Mathlib
import UnionBridge.Execution.Function

/-! What parts of a body come to: their outcome, and the variables that they leave. -/
namespace UnionBridge

namespace Action

variable {α β : Type} {l l' : Locals} {a : Action α} {f : α → Action β} {v : α} {e : Failure}

/-- Runs part of a body on some variables. -/
def eval (a : Action α) (l : Locals) : Except Failure α × Locals := a.run.run l

@[simp]
theorem eval_pure (v : α) (l : Locals) : eval (pure v) l = (.ok v, l) := rfl

@[simp]
theorem eval_throw (e : Failure) (l : Locals) : eval (throw e : Action α) l = (.error e, l) := rfl

/-- What cannot set variables leaves them alone. -/
@[simp]
theorem eval_lift (r : Except Failure α) (l : Locals) : eval (liftM r : Action α) l = (r, l) := rfl

@[simp]
theorem eval_get (l : Locals) : eval get l = (.ok l, l) := rfl

theorem eval_bind (a : Action α) (f : α → Action β) (l : Locals) :
    eval (a >>= f) l = match eval a l with
      | (.ok v, l') => eval (f v) l'
      | (.error e, l') => (.error e, l') := by
  simp only [eval, ExceptT.run_bind, StateT.run_bind]
  cases h : a.run.run l with
  | mk r l' => cases r <;> rfl

theorem eval_bind_ok (h : eval a l = (.ok v, l')) : eval (a >>= f) l = eval (f v) l' := by
  rw [eval_bind, h]

theorem eval_bind_error (h : eval a l = (.error e, l')) : eval (a >>= f) l = (.error e, l') := by
  rw [eval_bind, h]

theorem eval_bind_lift_ok {r : Except Failure α} (h : r = .ok v) : eval (liftM r >>= f) l = eval (f v) l :=
  eval_bind_ok (by rw [eval_lift, h])

theorem eval_bind_lift_error {r : Except Failure α} (h : r = .error e) : eval (liftM r >>= f) l = (.error e, l) :=
  eval_bind_error (by rw [eval_lift, h])

theorem eval_map (g : α → β) (a : Action α) (l : Locals) :
    eval (g <$> a) l = ((eval a l).1.map g, (eval a l).2) := by
  rw [map_eq_pure_bind, eval_bind]
  cases h : eval a l with
  | mk r l' => cases r <;> rfl

theorem eval_tryCatch_ok {handle : Failure → Action α} (h : eval a l = (.ok v, l')) :
    eval (tryCatch a handle) l = (.ok v, l') := by
  have hr : (StateT.run a l : Id (Except Failure α × Locals)) = (.ok v, l') := h
  change (ExceptT.tryCatch a handle).run.run l = _
  simp only [ExceptT.tryCatch, ExceptT.run_mk, StateT.run_bind, hr]
  rfl

theorem eval_tryCatch_error {handle : Failure → Action α} (h : eval a l = (.error e, l')) :
    eval (tryCatch a handle) l = eval (handle e) l' := by
  have hr : (StateT.run a l : Id (Except Failure α × Locals)) = (.error e, l') := h
  change (ExceptT.tryCatch a handle).run.run l = _
  simp only [ExceptT.tryCatch, ExceptT.run_mk, StateT.run_bind, hr]
  rfl

@[simp]
theorem eval_assign (name : String) (v : Value) (l : Locals) :
    eval (Scope.assign name v) l = (.ok (), l.insert name v) := rfl

end Action

end UnionBridge
