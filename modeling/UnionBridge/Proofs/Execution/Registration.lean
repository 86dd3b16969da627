import UnionBridge.Proofs.Execution.Loading
import UnionBridge.Proofs.Execution.Names

/-! What one registration of a module comes to: it puts a converter into a registry, or fails and changes nothing. What is
no registry may do anything with the converter. -/
namespace UnionBridge.Registration

open Loading

variable {r : Registration} {rs : List Registration} {w w' : World} {home : Nat} {registry name : String}
  {v source target f : Value} {a : Addition} {as : List Addition} {e : Failure} {result : Except Failure Unit}

/-- Where the names in a registration mean something: in the function that registers. -/
def scope (w : World) (home : Nat) : Scope := ⟨w, home, w.call, w.answer w.call, [parameter]⟩

/-- What a registration registers, where a value is the parameter of the function. -/
def evaluated? (r : Registration) (w : World) (home : Nat) (v : Value) : Except Failure (Value × Value × Value) :=
  ((r.evaluate (scope w home)).run.run ⟨[(parameter, v)]⟩).1

theorem evaluated?_eq_ok_iff : r.evaluated? w home v = .ok (source, target, f) ↔
    (scope w home).path ⟨[(parameter, v)]⟩ r.source = .ok source ∧
      (scope w home).name ⟨[(parameter, v)]⟩ r.dest = .ok target ∧
        (scope w home).name ⟨[(parameter, v)]⟩ r.function = .ok f := by
  change (Action.eval (r.evaluate (scope w home)) ⟨[(parameter, v)]⟩).1 = _ ↔ _
  rw [evaluate, Action.eval_bind, Scope.eval_fetchPath]
  cases hsource : (scope w home).path ⟨[(parameter, v)]⟩ r.source with
  | error e => simp
  | ok source' =>
    simp only
    rw [Action.eval_bind, Scope.eval_fetch]
    cases htarget : (scope w home).name ⟨[(parameter, v)]⟩ r.dest with
    | error e => simp
    | ok target' =>
      simp only
      rw [Action.eval_bind, Scope.eval_fetch]
      cases hf : (scope w home).name ⟨[(parameter, v)]⟩ r.function with
      | error e => simp
      | ok f' => simp [Action.eval_pure]

/-- Besides the parameter, a name means what it means in the module. -/
theorem eq_or_global_of_name {x : Value} (h : (scope w home).name ⟨[(parameter, v)]⟩ name = .ok x) :
    name = parameter ∧ x = v ∨ name ≠ parameter ∧ w.global home name = .ok x := by
  by_cases hname : name = parameter
  · rw [hname] at h
    exact .inl ⟨hname, (Except.ok.inj h).symm⟩
  · refine .inr ⟨hname, ?_⟩
    simpa [Scope.name, scope, hname] using h

/-! ### Registries -/

/-- What a registration puts into a registry. -/
def addition? (r : Registration) (w : World) (home : Nat) (registry : String) : Except Failure Addition := do
  let (source, target, f) ← r.evaluated? w home (.registry registry)
  ConverterKey.require ⟨source, target, false⟩
  return (registry, ⟨source, target, false⟩, .callable f)

/-- A registration adds its converter, or fails and changes nothing. -/
theorem run_execute (r : Registration) (w : World) (home : Nat) (registry : String) :
    (r.execute home registry).run.run w =
      match r.addition? w home registry with
      | .ok a => (.ok (), w.addAll [a])
      | .error e => (.error e, w) := by
  refine (run_bind_ask (q := fun w => r.evaluated? w home (.registry registry))).trans ?_
  rw [addition?]
  cases r.evaluated? w home (.registry registry) with
  | error e => rfl
  | ok x =>
    obtain ⟨source, target, f⟩ := x
    refine run_bind_lift.trans ?_
    change _ = match ConverterKey.require ⟨source, target, false⟩ >>= fun _ =>
      Except.ok (registry, (⟨source, target, false⟩ : ConverterKey), Converter.callable f) with
      | .ok a => _
      | .error e => _
    cases ConverterKey.require ⟨source, target, false⟩ <;> rfl

theorem gives_execute_iff {u : Unit} : Gives (r.execute home registry) w u w' ↔
    ∃ a, r.addition? w home registry = .ok a ∧ w' = w.addAll [a] := by
  rw [Gives, run_execute]
  cases r.addition? w home registry with
  | error e =>
    constructor
    · rintro ⟨⟩
    · rintro ⟨_, ⟨⟩, _⟩
  | ok a =>
    constructor
    · rintro ⟨⟩
      exact ⟨a, rfl, rfl⟩
    · rintro ⟨_, ⟨⟩, rfl⟩
      rfl

theorem addition?_eq_ok_iff : r.addition? w home registry = .ok a ↔
    ∃ source target f, r.evaluated? w home (.registry registry) = .ok (source, target, f) ∧
      ConverterKey.require ⟨source, target, false⟩ = .ok () ∧ a = (registry, ⟨source, target, false⟩, .callable f) := by
  rw [addition?]
  constructor
  · intro h
    obtain ⟨⟨source, target, f⟩, hx, h⟩ := Except.exists_of_bind_eq_ok h
    obtain ⟨_, hkey, h⟩ := Except.exists_of_bind_eq_ok h
    exact ⟨source, target, f, hx, hkey, (Except.ok.inj h).symm⟩
  · rintro ⟨source, target, f, hx, hkey, rfl⟩
    rw [hx]
    change (ConverterKey.require ⟨source, target, false⟩ >>= fun _ => _) = _
    rw [hkey]
    rfl

/-! ### Other things -/

/-- What a module registers where it hands a converter to something that is no registry, and what comes of that. -/
def offering (r : Registration) (w : World) (home : Nat) (v : Value) : List Addition × Except Failure Unit :=
  match w.member v "register", r.evaluated? w home v with
  | .error e, _ | .ok _, .error e => ([], .error e)
  | .ok operation, .ok (source, target, f) =>
    ((w.calling operation (.of [source, target, f])).1, (w.calling operation (.of [source, target, f])).2.map fun _ => ())

theorem run_offer (r : Registration) (w : World) (home : Nat) (v : Value) :
    (r.offer home v).run.run w = ((r.offering w home v).2, w.addAll (r.offering w home v).1) := by
  refine (run_bind_ask (q := fun w => w.member v "register")).trans ?_
  rw [offering]
  cases w.member v "register" with
  | error e => rfl
  | ok operation =>
    refine (run_bind_ask (q := fun w => r.evaluated? w home v)).trans ?_
    cases r.evaluated? w home v with
    | error e => rfl
    | ok x =>
      obtain ⟨source, target, f⟩ := x
      change (Loading.call operation (.of [source, target, f]) >>= fun _ => pure ()).run.run w = _
      refine run_bind_call.trans ?_
      dsimp only
      cases (w.calling operation (.of [source, target, f])).2 <;> rfl

/-- What is registered then comes from outside, or is what the registration registers. -/
theorem mem_offering (h : a ∈ (r.offering w home v).1) : (∃ f s, a ∈ w.outside.registers f s) ∨
    ∃ source target f, r.evaluated? w home v = .ok (source, target, f) ∧
      ConverterKey.require ⟨source, target, false⟩ = .ok () ∧
        a = (Library.registryName, ⟨source, target, false⟩, .callable f) := by
  unfold offering at h
  split at h
  · cases h
  · cases h
  · rename_i source target f _ hx
    rcases World.mem_calling h with h | ⟨_, _, _, _, hs, hkey, rfl⟩
    · exact .inl ⟨_, _, h⟩
    · obtain ⟨rfl, rfl, rfl⟩ : source = _ ∧ target = _ ∧ f = _ := by simpa [Supplied.of] using hs
      exact .inr ⟨_, _, _, hx, hkey, rfl⟩

end UnionBridge.Registration
