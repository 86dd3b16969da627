import UnionBridge.Proofs.Execution.Attempts
import UnionBridge.Proofs.World.Plain

/-! Effect containers: what they come apart into, and what asking for results in a container has to do with asking for
plain ones. -/
namespace UnionBridge

variable {s : Scope} {σ : Sense} {v q : Value} {es : List Value} {L : List Candidate} {k : ClassRef}
  {wrap : Value → List Value → Value} {run : FunctionRef → Supplied → Except Failure Value}

namespace Scope

/-- What a value comes apart into if it is a container: its content, and something that gives its effects. -/
def unpacks (s : Scope) (q : Value) : Except Failure (Value × Value) := do
  s.world.pair (← s.world.invoke s.call q "into_value_and_effects" [])

/-- A value is solid if it does not come apart. -/
def Solid (s : Scope) (q : Value) : Prop := ∃ e, s.unpacks q = .error e

theorem solid_of_plain (hcall : s.call = s.world.callBy run) (h : q.Plain) : s.Solid q := by
  obtain ⟨e, he⟩ := World.invoke_split_error h
  refine ⟨e, ?_⟩
  rw [unpacks, hcall, he]
  rfl

/-- A class is a container: taking apart what it makes gives back what it was made of, and composing is making. -/
structure Contains (s : Scope) (k : ClassRef) (wrap : Value → List Value → Value) : Prop where
  new : ∀ v es, s.world.invoke s.call (.cls k) "new" [v, .list es] = .ok (wrap v es)
  split : ∀ v es, ∃ it, s.unpacks (wrap v es) = .ok (v, it) ∧ s.world.spread it = .ok es
  compose : ∀ v es, (do s.call (← s.world.member (.cls k) "compose_from") (.of [v, .list es])) = .ok (wrap v es)

/-- The container of the library is one. -/
theorem contains_effectful (hcall : s.call = s.world.callBy run) :
    s.Contains (.builtin (.carrier .effectful)) (.carrier .effectful) where
  new v es := by
    rw [hcall]
    change Except.ok (Value.carrier .effectful v (es ++ [])) = _
    rw [List.append_nil]
  split v es := by
    refine ⟨.iterator false (es ++ []), rfl, ?_⟩
    rw [List.append_nil]
    rfl
  compose v es := by
    rw [hcall]
    change Except.ok (Value.carrier .effectful v (es ++ [])) = _
    rw [List.append_nil]

/-! ### Results in a container -/

/-- The value and the effects of the result of a conversion. A result that is in no container has no effects. -/
def Yields (s : Scope) (k : ClassRef) (q v : Value) (es : List Value) : Prop :=
  if s.world.isInstance q k then ∃ it, s.unpacks q = .ok (v, it) ∧ s.world.spread it = .ok es else v = q ∧ es = []

/-- A result, put into a container unless it is in one. -/
def lifted (s : Scope) (k : ClassRef) (wrap : Value → List Value → Value) (q : Value) : Value :=
  if s.world.isInstance q k then q else wrap q []

/-- A result comes apart into its value and its effects once it is in a container. -/
theorem Contains.unpacks_lifted (hw : s.Contains k wrap) (h : s.Yields k q v es) :
    ∃ it, s.unpacks (s.lifted k wrap q) = .ok (v, it) ∧ s.world.spread it = .ok es := by
  rw [Yields] at h
  rw [lifted]
  split at h
  · rename_i hi
    rw [if_pos hi]
    exact h
  · rename_i hi
    obtain ⟨rfl, rfl⟩ := h
    rw [if_neg hi]
    exact hw.split v []

/-- What comes apart once it is in a container has that value and these effects. -/
theorem Contains.yields_of_unpacks_lifted (hw : s.Contains k wrap) {p : Value × Value}
    (hp : s.unpacks (s.lifted k wrap q) = .ok p) (hs : s.world.spread p.2 = .ok es) : s.Yields k q p.1 es := by
  rw [lifted] at hp
  rw [Yields]
  split at hp
  · rename_i hi
    rw [if_pos hi]
    exact ⟨p.2, hp, hs⟩
  · rename_i hi
    obtain ⟨it, hunpack, hit⟩ := hw.split q []
    rw [hunpack] at hp
    obtain rfl := Except.ok.inj hp
    rw [if_neg hi]
    exact ⟨rfl, (Except.ok.inj (hit.symm.trans hs)).symm⟩

theorem Contains.lift_eq (hw : s.Contains k wrap) (q : Value) :
    s.world.lift s.call q (.cls k) = .ok (s.lifted k wrap q) := by
  simp only [World.lift, World.instanceTest, lifted, bind, Except.bind]
  split
  · rfl
  · exact hw.new q []

/-- Registries answer requests for results in a container as they answer without one, and put the result into it. -/
def Lifts (s : Scope) (registry : String) (k : ClassRef) : Prop :=
  ∀ r v t, s.answer registry r v t (some (.cls k)) = do s.world.lift s.call (← s.answer registry r v t none) (.cls k)

theorem lifts_of_answer (h : s.answer = s.world.answer s.call) (registry : String) (k : ClassRef) :
    s.Lifts registry k := by
  intro r v t
  rw [h]
  cases r <;> rfl

end Scope

/-! ### Choosing -/

/-- The same names, with results in no container. -/
def Sense.bare (σ : Sense) : Sense := { σ with container := none }

theorem mapM_map_ok {α β γ ε : Type} (f : α → Except ε β) (g : β → γ) (l : List α) :
    l.mapM (fun a => (f a).map g) = (l.mapM f).map (List.map g) := by
  induction l with
  | nil => rfl
  | cons a l ih =>
    rw [List.mapM_cons, List.mapM_cons, ih]
    cases f a with
    | error e => rfl
    | ok b => cases l.mapM f <;> rfl

/-- What is made of the values afterwards has no influence on which candidate fits first. -/
theorem firstFit_map {convert : Candidate → Except Failure (List Value)} (g : List Value → List Value) :
    firstFit (fun c => (convert c).map g) L = (firstFit convert L).map (Option.map fun r => (r.1, g r.2)) := by
  induction L with
  | nil => rfl
  | cons c L ih =>
    rw [firstFit, firstFit]
    cases convert c with
    | ok vs => rfl
    | error e =>
      simp only [Except.map] at ih ⊢
      split
      · exact ih
      · rfl

section Lifted

variable (hw : s.Contains k wrap) (hl : s.Lifts σ.registry k) (hσ : σ.container = some (.cls k))
include hw hl hσ

/-- A reply in a container is the plain reply, put into it. -/
theorem reply_lifted (x : Value) (r : Request) (attr : String) (type : DottedName) :
    σ.reply s x r attr type = (σ.bare.reply s x r attr type).map (s.lifted k wrap) := by
  simp only [Sense.reply, Sense.bare, hσ, bind, Except.bind]
  cases s.world.member x attr with
  | error e => rfl
  | ok v =>
    simp only [hl r v (σ.type type), bind, Except.bind]
    cases s.answer σ.registry r v (σ.type type) none with
    | error e => rfl
    | ok q => exact hw.lift_eq q

theorem convert_lifted (x : Value) (r : Request) (c : Candidate) :
    c.convert σ s x r = (c.convert σ.bare s x r).map (List.map (s.lifted k wrap)) := by
  rw [Candidate.convert, Candidate.convert, ← mapM_map_ok]
  congr 1
  funext f
  exact reply_lifted hw hl hσ x r f.attr f.type

/-- A container changes nothing about which candidate is chosen. -/
theorem chosen_lifted (x : Value) (dest case : String) (L : List Candidate) :
    chosen σ s x dest case L = (chosen σ.bare s x dest case L).map fun r => (r.1, r.2.map (s.lifted k wrap)) := by
  by_cases hlen : L.length = 1
  · obtain ⟨c, rfl⟩ := List.length_eq_one_iff.mp hlen
    simp only [chosen, convert_lifted hw hl hσ]
    cases c.convert σ.bare s x .into <;> rfl
  · have hconvert : Candidate.convert σ s x .tryInto =
        fun c => (Candidate.convert σ.bare s x .tryInto c).map (List.map (s.lifted k wrap)) := by
      funext c
      exact convert_lifted hw hl hσ x .tryInto c
    rw [chosen_several hlen, chosen_several hlen, hconvert, firstFit_map]
    cases firstFit (Candidate.convert σ.bare s x .tryInto) L with
    | error e => rfl
    | ok o => cases o <;> rfl

end Lifted

end UnionBridge
