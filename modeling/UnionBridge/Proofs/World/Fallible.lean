import UnionBridge.Proofs.Execution.Routing

/-! Conversions that may reject their value, against those that have to succeed, with and without a container. -/
namespace UnionBridge

variable {w : World} {call : Caller} {r : Registry} {v target u : Value} {k : ClassRef} {wrap : Value → Value}
  {out out' : Except Failure Value}

namespace World

/-- The text of a rejection with a reason. -/
def told (w : World) (v target : Value) (reason : String) : String :=
  let message := s!"cannot convert {w.display v} to {w.targetName target}"
  if reason = "" then message else s!"{message}: {reason}"

/-- How an attempt passes on what the conversion that it stands for comes to. -/
inductive Passes (w : World) (v target : Value) : Except Failure Value → Except Failure Value → Prop
  | value (u : Value) : Passes w v target (.ok u) (.ok u)
  | rejection (e : Failure) (h : e.isRejection) : Passes w v target (.error e) (.error e)
  | misfit (kind : ErrorKind) (message : String) (h : kind.meansMisfit) :
    Passes w v target (.error (.error kind message))
      (.error (.rejected v target (some message) (some kind) (w.told v target message)))
  | other (e : Failure) (h : ¬e.isMisfit) : Passes w v target (.error e) (.error e)

/-- Whether a container comes apart into a value and effects. -/
def ComesApart (w : World) (call : Caller) (c v : Value) (es : List Value) : Prop :=
  ∃ it, (do w.pair (← w.invoke call c "into_value_and_effects" [])) = .ok (v, it) ∧ w.spread it = .ok es

/-- How a result gets into a container of a class: as it is if it is one, or as what one holds without effects. -/
inductive Lifts (w : World) (call : Caller) (k : ClassRef) : Except Failure Value → Except Failure Value → Prop
  | produced (q : Value) (h : w.isInstance q k) : Lifts w call k (.ok q) (.ok q)
  | held (q u : Value) (h : ¬w.isInstance q k) (hu : w.isInstance u k) (hq : w.ComesApart call u q []) :
    Lifts w call k (.ok q) (.ok u)
  | failure (e : Failure) : Lifts w call k (.error e) (.error e)

/-- A class makes containers: of a value without effects, an instance of it that comes apart into these again. -/
structure Wraps (w : World) (call : Caller) (k : ClassRef) (wrap : Value → Value) : Prop where
  new (q : Value) : w.invoke call (.cls k) "new" [q, .list []] = .ok (wrap q)
  isInstance (q : Value) : w.isInstance (wrap q) k
  apart (q : Value) : w.ComesApart call (wrap q) q []

/-- Classes of containers are such classes, unless they add effects where they are split. -/
theorem wraps_carrier (hcall : ∀ f s, ∃ run, call f s = w.callBy run f s) {c : Carrier} (hc : CarrierOp.mark c .split = []) :
    w.Wraps call (.builtin (.carrier c)) (.carrier c · []) := by
  have hnew (q : Value) : w.invoke call (.cls (.builtin (.carrier c))) "new" [q, .list []] = .ok (.carrier c q []) := by
    obtain ⟨run, hrun⟩ := hcall (.function (.builtin (.carrier c .new))) (.of [q, .list []])
    have hmade : w.callBy run (.function (.builtin (.carrier c .new))) (.of [q, .list []]) = .ok (.carrier c q []) := by
      cases c <;> rfl
    cases c <;> exact hrun.trans hmade
  cases c with
  | effectful => exact ⟨hnew, fun _ => rfl, fun _ => ⟨_, rfl, rfl⟩⟩
  | written c =>
    obtain ⟨name, isDeclared, splitMarks, composeMarks⟩ := c
    obtain rfl : splitMarks = [] := List.map_eq_nil_iff.mp hc
    refine ⟨hnew, fun _ => ?_, fun _ => ⟨_, rfl, rfl⟩⟩
    simp [isInstance, isSubclass, chain, Value.classOf, Builtin.chain]

/-- How attempts to convert a value by a registry go. -/
structure Attempts (w : World) (call : Caller) (r : Registry) (v target : Value) : Prop where
  /-- A converter that may reject its value is all that the outcome is taken from. -/
  converter (c : Converter) (h : r.lookup (w.chain v.classOf) target true = some c) :
    w.Passes v target (c.run w call v) (w.tryInto call r v target)
  /-- Without one the outcome is taken from the conversion that has to succeed. -/
  fallback (h : r.lookup (w.chain v.classOf) target true = none) :
    w.Passes v target (w.into call r v target) (w.tryInto call r v target)
  /-- No error about values gets out. -/
  closed (kind : ErrorKind) (message : String) (h : w.tryInto call r v target = .error (.error kind message)) :
    ¬kind.meansMisfit
  agrees (h : r.lookup (w.chain v.classOf) target true = none) (u : Value) :
    w.tryInto call r v target = .ok u ↔ w.into call r v target = .ok u
  intoEffects (k : ClassRef) (wrap : Value → Value) (hw : w.Wraps call k wrap) :
    w.Lifts call k (w.into call r v target) (w.intoEffects call r v target (.cls k))
  tryIntoEffects (k : ClassRef) (wrap : Value → Value) (hw : w.Wraps call k wrap) :
    w.Lifts call k (w.tryInto call r v target) (w.tryIntoEffects call r v target (.cls k))
  effectsClosed (k : ClassRef) (wrap : Value → Value) (hw : w.Wraps call k wrap) (kind : ErrorKind) (message : String)
    (h : w.tryIntoEffects call r v target (.cls k) = .error (.error kind message)) : ¬kind.meansMisfit
  effectsAgree (k : ClassRef) (h : r.lookup (w.chain v.classOf) target true = none) (u : Value) :
    w.tryIntoEffects call r v target (.cls k) = .ok u ↔ w.intoEffects call r v target (.cls k) = .ok u

theorem rejection_eq (hv : ¬v.hasLongInt) (ht : ¬target.hasLongInt) (reason : String) (cause : Option ErrorKind) :
    Failure.rejection w v target (some reason) cause =
      .rejected v target (some reason) cause (w.told v target reason) := by
  by_cases hreason : reason = "" <;> simp [Failure.rejection, hv, ht, told, Option.filter, hreason]

theorem passes_mapError (hv : ¬v.hasLongInt) (ht : ¬target.hasLongInt) (out : Except Failure Value) :
    w.Passes v target out (out.mapError (w.asRejection v target)) := by
  cases out with
  | ok u => exact .value u
  | error e =>
    cases e with
    | error kind message =>
      rw [Except.mapError, asRejection]
      split
      · rename_i hkind
        rw [rejection_eq hv ht]
        exact .misfit kind message hkind
      · rename_i hkind
        exact .other _ hkind
    | rejected => exact .rejection _ rfl
    | exhausted => exact .other _ (by simp [Failure.isMisfit])

theorem Passes.not_meansMisfit (h : w.Passes v target out out') {kind : ErrorKind} {message : String}
    (hout : out' = .error (.error kind message)) : ¬kind.meansMisfit := by
  cases h with
  | other e h =>
    cases hout
    exact h
  | rejection e h =>
    cases hout
    cases h
  | _ => cases hout

theorem Passes.ok_iff (h : w.Passes v target out out') : out' = .ok u ↔ out = .ok u := by
  cases h <;> simp

theorem tryInto_eq (hkey : target.unhashable? = none) : w.tryInto call r v target =
    ((r.lookup (w.chain v.classOf) target true).elim (w.into call r v target) fun c => c.run w call v).mapError
      (w.asRejection v target) := by
  simp only [tryInto, lookup, requireKey, hkey, bind, Except.bind, pure, Except.pure]
  cases r.lookup (w.chain v.classOf) target true <;> rfl

theorem Wraps.lifts (hw : w.Wraps call k wrap) (out : Except Failure Value) :
    w.Lifts call k out (do w.lift call (← out) (.cls k)) := by
  cases out with
  | error e => exact .failure e
  | ok q =>
    change w.Lifts call k (.ok q) (w.lift call q (.cls k))
    rw [lift, instanceTest]
    by_cases hq : w.isInstance q k
    · simp only [hq]
      exact .produced q hq
    · simp only [hq]
      change w.Lifts call k (.ok q) (w.invoke call (.cls k) "new" [q, .list []])
      rw [hw.new]
      exact .held q _ hq (hw.isInstance q) (hw.apart q)

theorem attempts (w : World) (call : Caller) (r : Registry) (v target : Value) (hkey : target.unhashable? = none)
    (hv : ¬v.hasLongInt) (ht : ¬target.hasLongInt) : w.Attempts call r v target := by
  have hclosed kind message (h : w.tryInto call r v target = .error (.error kind message)) : ¬kind.meansMisfit := by
    rw [tryInto_eq hkey] at h
    exact (passes_mapError hv ht _).not_meansMisfit h
  have hagree (h : r.lookup (w.chain v.classOf) target true = none) u :
      w.tryInto call r v target = .ok u ↔ w.into call r v target = .ok u := by
    rw [tryInto_eq hkey, h]
    exact (passes_mapError hv ht _).ok_iff
  refine ⟨?converter, ?fallback, hclosed, hagree, ?intoEffects, ?tryIntoEffects, ?effectsClosed, ?effectsAgree⟩
  case converter =>
    intro c h
    rw [tryInto_eq hkey, h]
    exact passes_mapError hv ht _
  case fallback =>
    intro h
    rw [tryInto_eq hkey, h]
    exact passes_mapError hv ht _
  case intoEffects => exact fun k wrap hw => hw.lifts _
  case tryIntoEffects => exact fun k wrap hw => hw.lifts _
  case effectsClosed =>
    intro k wrap hw kind message h
    have hlifts : w.Lifts call k (w.tryInto call r v target) (w.tryIntoEffects call r v target (.cls k)) := hw.lifts _
    generalize hout : w.tryInto call r v target = out at hlifts
    rw [h] at hlifts
    cases hlifts with
    | failure => exact hclosed kind message hout
  case effectsAgree =>
    intro k h u
    simp only [tryIntoEffects, intoEffects]
    cases hout : w.into call r v target with
    | ok q => rw [(hagree h q).mpr hout]
    | error e =>
      cases hout' : w.tryInto call r v target with
      | error e' => exact iff_of_false (by rintro ⟨⟩) (by rintro ⟨⟩)
      | ok q =>
        rw [(hagree h q).mp hout'] at hout
        cases hout

/-- A registry with a converter that may reject, and that finds every integer too big. -/
def strictRegistry : Registry :=
  (∅ : Registry).register ⟨.cls (.builtin .int), .cls (.builtin .str), true⟩
    (.custom "strict" (.raise .valueError "too big"))

theorem attempts_strict :
    let w := Library.world
    let str := Value.cls (.builtin .str)
    str.unhashable? = none ∧ ¬str.hasLongInt ∧ ¬(Value.bool true).hasLongInt ∧ ¬(Value.text "a").hasLongInt ∧
      w.tryInto w.call strictRegistry (.bool true) str =
        .error (.rejected (.bool true) str (some "too big") (some .valueError) (w.told (.bool true) str "too big")) ∧
      w.Lifts w.call (.builtin (.carrier .effectful)) (.ok (.text "a"))
        (w.tryIntoEffects w.call strictRegistry (.text "a") str (.cls (.builtin (.carrier .effectful)))) := by
  intro w str
  have hkey : str.unhashable? = none := rfl
  have hstr : ¬str.hasLongInt := by decide
  have hbool : ¬(Value.bool true).hasLongInt := by decide
  have htext : ¬(Value.text "a").hasLongInt := by decide
  refine ⟨hkey, hstr, hbool, htext, ?rejected, ?lifted⟩
  case rejected =>
    have hpasses : w.Passes (.bool true) str (.error (.error .valueError "too big"))
        (w.tryInto w.call strictRegistry (.bool true) str) :=
      (attempts w w.call strictRegistry (.bool true) str hkey hbool hstr).converter _ rfl
    generalize w.tryInto w.call strictRegistry (.bool true) str = out at hpasses
    cases hpasses with
    | misfit => rfl
    | rejection _ h => cases h
    | other _ h => exact absurd rfl h
  case lifted =>
    have hattempts := attempts w w.call strictRegistry (.text "a") str hkey htext hstr
    have hsame : w.tryInto w.call strictRegistry (.text "a") str = .ok (.text "a") := (hattempts.agrees rfl _).mpr rfl
    rw [← hsame]
    exact hattempts.tryIntoEffects _ _ (wraps_carrier (fun f s => ⟨_, rfl⟩) (by decide))

/-- A target that cannot be part of a key makes an attempt fail with an error about values that is no rejection. -/
theorem tryInto_misfit_of_list : ¬∀ (r : Registry) (v target : Value) (kind : ErrorKind) (message : String),
    Library.world.tryInto Library.world.call r v target = .error (.error kind message) → ¬kind.meansMisfit := by
  intro h
  exact h ∅ (.int 1) (.list []) .typeError _ rfl rfl

end World

end UnionBridge
