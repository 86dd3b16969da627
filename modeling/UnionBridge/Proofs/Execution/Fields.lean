import UnionBridge.Proofs.Execution.Names
import UnionBridge.Proofs.World.Construct

/-! Converting the fields of a value one after the other, and constructing the result from what the variables hold. -/
namespace UnionBridge

open UnionBridge.Action

section MapM

variable {α β ε : Type} {f : α → Except ε β} {l : List α} {vs : List β} {e : ε}

/-- Going through a list comes out well exactly if every entry does. -/
theorem mapM_eq_ok_iff : l.mapM f = .ok vs ↔ List.Forall₂ (fun a v => f a = .ok v) l vs := by
  induction l generalizing vs with
  | nil =>
    rw [List.mapM_nil, List.forall₂_nil_left_iff]
    constructor
    · intro h
      exact (Except.ok.inj h).symm
    · rintro rfl
      rfl
  | cons a l ih =>
    rw [List.mapM_cons, List.forall₂_cons_left_iff]
    constructor
    · intro h
      cases ha : f a with
      | error e =>
        rw [ha] at h
        cases h
      | ok v =>
        cases hl : l.mapM f with
        | error e =>
          rw [ha, hl] at h
          cases h
        | ok vs' =>
          rw [ha, hl] at h
          obtain rfl := Except.ok.inj h
          exact ⟨v, vs', rfl, ih.mp hl, rfl⟩
    · rintro ⟨v, vs', ha, hl, rfl⟩
      rw [ha, ih.mpr hl]
      rfl

/-- What goes wrong for the first time goes wrong at some entry, after entries that come out well. -/
theorem mapM_eq_error (h : l.mapM f = .error e) :
    ∃ before a after vs,
      l = before ++ a :: after ∧ List.Forall₂ (fun a v => f a = .ok v) before vs ∧ f a = .error e := by
  induction l with
  | nil => cases h
  | cons a l ih =>
    rw [List.mapM_cons] at h
    cases ha : f a with
    | error e' =>
      rw [ha] at h
      obtain rfl := Except.error.inj h
      exact ⟨[], a, l, [], rfl, List.Forall₂.nil, ha⟩
    | ok v =>
      cases hl : l.mapM f with
      | ok vs =>
        rw [ha, hl] at h
        cases h
      | error e' =>
        rw [ha, hl] at h
        obtain rfl := Except.error.inj h
        obtain ⟨before, b, after, vs, rfl, hvs, hb⟩ := ih hl
        exact ⟨a :: before, b, after, v :: vs, rfl, List.Forall₂.cons ha hvs, hb⟩

/-- What goes wrong after entries that come out well is what goes wrong for the first time. -/
theorem mapM_eq_error_of_append {a : α} {before after : List α} (hbefore : ∀ b ∈ before, ∃ v, f b = .ok v)
    (ha : f a = .error e) : (before ++ a :: after).mapM f = .error e := by
  induction before with
  | nil =>
    rw [List.nil_append, List.mapM_cons, ha]
    rfl
  | cons b before ih =>
    obtain ⟨v, hb⟩ := hbefore b List.mem_cons_self
    rw [List.cons_append, List.mapM_cons, hb, ih fun b hb => hbefore b (List.mem_cons_of_mem _ hb)]
    rfl

end MapM

/-! ### What names stand for -/

/-- What the names in some attempts stand for. -/
structure Sense where
  /-- The registry that the function asks. -/
  registry : String
  type : DottedName → Value
  container : Option Value
  /-- The class of each destination variant, by its name. -/
  variant : String → Nat

/-- The answer about one attribute of a value. -/
def Sense.reply (σ : Sense) (s : Scope) (x : Value) (r : Request) (attr : String) (type : DottedName) :
    Except Failure Value := do
  let v ← s.world.member x attr
  s.answer σ.registry r v (σ.type type) σ.container

/-- The names in some attempts of a conversion stand for what a sense says they do: the registry, the types, the
container, the class of each variant, which makes values with its fields, and the errors. -/
structure Scope.Follows (s : Scope) (conv : Conversion) (attempts : List Attempt) (σ : Sense) : Prop where
  own : s.own = conv.ownNames
  calls : ∀ c supplied, s.call (.cls c) supplied = s.world.construct c supplied
  registry : s.Stands (.ofName "_registry") (.registry σ.registry)
  types : ∀ a ∈ attempts, ∀ f ∈ a.steps, s.Stands f.type (σ.type f.type)
  container : Option.Rel s.Stands conv.container σ.container
  variants : ∀ a ∈ attempts, s.Stands a.constructor (.cls (.declared (σ.variant a.case)))
  makes : ∀ a ∈ attempts, s.world.Makes (σ.variant a.case) (a.steps.map (·.attr))
  rejection : s.Stands ⟨"_rt", ["ConversionFailed"]⟩ (.cls (.builtin .conversionFailed))
  exhaustion : s.Stands ⟨"_rt", ["ExhaustedCandidatesError"]⟩ (.cls (.builtin .exhausted))

/-- What some attempts of a conversion mention stands for what a sense says: the registry, the types, the container, and
the class of each variant, which is called like any class. -/
structure Scope.Reads (s : Scope) (conv : Conversion) (attempts : List Attempt) (σ : Sense) : Prop where
  own : s.own = conv.ownNames
  calls : ∀ c supplied, s.call (.cls c) supplied = s.world.construct c supplied
  registry : s.Stands (.ofName "_registry") (.registry σ.registry)
  types : ∀ a ∈ attempts, ∀ f ∈ a.steps, s.Stands f.type (σ.type f.type)
  container : Option.Rel s.Stands conv.container σ.container
  variants : ∀ a ∈ attempts, s.Stands a.constructor (.cls (.declared (σ.variant a.case)))

/-- What some attempts of a conversion mention stands for what a sense says, and so do the errors that attempts catch and
raise. -/
structure Scope.Tries (s : Scope) (conv : Conversion) (attempts : List Attempt) (σ : Sense) : Prop
    extends s.Reads conv attempts σ where
  rejection : s.Stands ⟨"_rt", ["ConversionFailed"]⟩ (.cls (.builtin .conversionFailed))
  exhaustion : s.Stands ⟨"_rt", ["ExhaustedCandidatesError"]⟩ (.cls (.builtin .exhausted))

variable {s : Scope} {conv : Conversion} {arm : Arm} {attempts : List Attempt} {σ : Sense} {a : Attempt}
  {f : FieldStep} {l : Locals} {x : Value}

theorem Scope.Follows.reads (h : s.Follows conv attempts σ) : s.Reads conv attempts σ :=
  ⟨h.own, h.calls, h.registry, h.types, h.container, h.variants⟩

theorem Scope.Follows.tries (h : s.Follows conv attempts σ) : s.Tries conv attempts σ :=
  ⟨h.reads, h.rejection, h.exhaustion⟩

namespace Scope.Reads

variable (h : s.Reads conv attempts σ)
include h

theorem eval_parameter (hx : l.get? Conversion.parameter = some x) :
    eval (s.fetch Conversion.parameter) l = (.ok x, l) :=
  eval_fetch_own rfl (h.own ▸ Conversion.parameter_mem_ownNames) hx

theorem eval_container (l : Locals) : eval (conv.container.mapM s.fetchPath) l = (.ok σ.container, l) := by
  have hc := h.container
  cases hd : conv.container with
  | none =>
    rw [hd] at hc
    cases hk : σ.container with
    | none => rfl
    | some k =>
      rw [hk] at hc
      cases hc
  | some d =>
    rw [hd] at hc
    cases hk : σ.container with
    | none =>
      rw [hk] at hc
      cases hc
    | some k =>
      rw [hk] at hc
      obtain ⟨hstands⟩ := hc
      change eval (some <$> s.fetchPath d) l = _
      rw [eval_map, hstands.eval_fetchPath]
      rfl

/-- Asking about a field leaves all variables as they are. -/
theorem eval_ask (ha : a ∈ attempts) (hf : f ∈ a.steps) (hx : l.get? Conversion.parameter = some x) (r : Request) :
    eval (f.ask conv.container s r) l = (σ.reply s x r f.attr f.type, l) := by
  rw [FieldStep.ask, eval_bind_ok (h.registry.eval_fetch l)]
  simp only
  rw [eval_bind_ok (eval_pure _ l), eval_bind_ok (h.eval_parameter hx), Sense.reply]
  cases hm : s.world.member x f.attr with
  | error e =>
    rw [eval_bind_lift_error rfl]
    rfl
  | ok v =>
    rw [eval_bind_lift_ok rfl, eval_bind_ok ((h.types a ha f hf).eval_fetchPath l),
      eval_bind_ok (h.eval_container l)]
    rfl

end Scope.Reads

/-! ### Runs of assignments -/

section Runs

variable {α : Type} {g : FieldStep → Action Unit} {reply : FieldStep → Except Failure α}
  {writes : FieldStep → α → List (String × Value)} {steps : List FieldStep} {vs : List α} {e : Failure}

/-- All that a run of steps assigns, in order. -/
def writesOf (writes : FieldStep → α → List (String × Value)) (steps : List FieldStep) (vs : List α) :
    List (String × Value) :=
  (steps.zip vs).flatMap fun e => writes e.1 e.2

theorem parameter_notMem_writesOf (hw : ∀ f ∈ steps, ∀ v, Conversion.parameter ∉ (writes f v).map Prod.fst) :
    Conversion.parameter ∉ (writesOf writes steps vs).map Prod.fst := by
  rw [writesOf, List.map_flatMap, List.mem_flatMap]
  rintro ⟨e, he, hmem⟩
  exact hw e.1 (List.of_mem_zip he).1 e.2 hmem

/-- Steps that all come out well assign everything that each of them assigns. -/
theorem eval_forM_ok
    (hg : ∀ f ∈ steps, ∀ l v, l.get? Conversion.parameter = some x → reply f = .ok v →
      eval (g f) l = (.ok (), l.insertAll (writes f v)))
    (hw : ∀ f ∈ steps, ∀ v, Conversion.parameter ∉ (writes f v).map Prod.fst)
    (hx : l.get? Conversion.parameter = some x) (hr : List.Forall₂ (fun f v => reply f = .ok v) steps vs) :
    eval (steps.forM g) l = (.ok (), l.insertAll (writesOf writes steps vs)) := by
  induction hr generalizing l with
  | nil => rfl
  | @cons f v steps vs hf _ ih =>
    have hx' : (l.insertAll (writes f v)).get? Conversion.parameter = some x := by
      rw [Table.get?_insertAll_of_notMem (hw f (by simp) v), hx]
    rw [List.forM_eq_forM] at ih ⊢
    rw [List.forM_cons, eval_bind_ok (hg f (by simp) l v hx hf),
      ih (fun f hf => hg f (by simp [hf])) (fun f hf => hw f (by simp [hf])) hx']
    simp only [writesOf, List.zip_cons_cons, List.flatMap_cons, Table.insertAll_append]

/-- A step that fails ends a run of steps. The value that is being converted is still there. -/
theorem eval_forM_error
    (hg : ∀ f ∈ steps, ∀ l v, l.get? Conversion.parameter = some x → reply f = .ok v →
      eval (g f) l = (.ok (), l.insertAll (writes f v)))
    (he : ∀ f ∈ steps, ∀ l e, l.get? Conversion.parameter = some x → reply f = .error e → eval (g f) l = (.error e, l))
    (hw : ∀ f ∈ steps, ∀ v, Conversion.parameter ∉ (writes f v).map Prod.fst)
    (hx : l.get? Conversion.parameter = some x) (hr : steps.mapM reply = .error e) :
    ∃ l', eval (steps.forM g) l = (.error e, l') ∧ l'.get? Conversion.parameter = some x := by
  obtain ⟨before, f, after, vs, rfl, hvs, hf⟩ := mapM_eq_error hr
  have hw' : ∀ f ∈ before, ∀ v, Conversion.parameter ∉ (writes f v).map Prod.fst := fun f hf => hw f (by simp [hf])
  have hx' : (l.insertAll (writesOf writes before vs)).get? Conversion.parameter = some x := by
    rw [Table.get?_insertAll_of_notMem (parameter_notMem_writesOf hw'), hx]
  have hbefore := eval_forM_ok (fun f hf => hg f (by simp [hf])) hw' hx hvs
  refine ⟨_, ?_, hx'⟩
  rw [List.forM_eq_forM] at hbefore ⊢
  rw [List.forM_append, eval_bind_ok hbefore, List.forM_cons, eval_bind_error (he f (by simp) _ e hx' hf)]

end Runs

/-! ### Constructing -/

/-- Going through a list by what leaves the variables alone is going through what it gives. -/
theorem eval_mapM {α β γ : Type} {g : α → Action γ} {reply : β → Except Failure γ} {as : List α} {bs : List β}
    (h : List.Forall₂ (fun a b => eval (g a) l = (reply b, l)) as bs) : eval (as.mapM g) l = (bs.mapM reply, l) := by
  induction h with
  | nil => rfl
  | @cons a b as bs hab _ ih =>
    rw [List.mapM_cons, List.mapM_cons]
    cases hb : reply b with
    | error e =>
      rw [hb] at hab
      rw [eval_bind_error hab]
      rfl
    | ok c =>
      rw [hb] at hab
      rw [eval_bind_ok hab]
      cases hbs : bs.mapM reply with
      | error e =>
        rw [hbs] at ih
        rw [eval_bind_error ih]
        rfl
      | ok cs =>
        rw [hbs] at ih
        rw [eval_bind_ok ih, eval_pure]
        rfl

/-- The values of fields, as an attempt passes them. -/
def Attempt.supply (a : Attempt) (vs : List Value) : Supplied :=
  match a.passing with
  | .byPosition => ⟨vs, []⟩
  | .byKeyword => ⟨[], (a.steps.map (·.attr)).zip vs⟩

/-- The constructor of the variant is handed what the variables of the fields hold. -/
theorem Scope.Reads.eval_construct (h : s.Reads conv attempts σ) (ha : a ∈ attempts) {vs : List Value}
    (hvs : List.Forall₂ (fun f v => eval (s.fetch (f.valueSlot conv.container)) l = (.ok v, l)) a.steps vs) :
    eval (a.construct conv.container s) l =
      (s.world.construct (.declared (σ.variant a.case)) (a.supply vs), l) := by
  have hfetch : eval (a.steps.mapM fun f => s.fetch (f.valueSlot conv.container)) l = (.ok vs, l) := by
    have hall : vs.mapM (Except.ok : Value → Except Failure Value) = .ok vs :=
      mapM_eq_ok_iff.mpr (List.forall₂_same.mpr fun _ _ => rfl)
    rw [eval_mapM hvs, hall]
  have hsupplied : eval (a.supplied conv.container s) l = (.ok (a.supply vs), l) := by
    rw [Attempt.supplied, eval_bind_ok hfetch, Attempt.supply]
    cases a.passing <;> rfl
  rw [Attempt.construct, eval_bind_ok ((h.variants a ha).eval_fetchPath l), eval_bind_ok hsupplied, eval_lift, h.calls]

/-- A variant whose class makes values with its fields is made with all of them. -/
theorem Attempt.construct_supply {w : World} {id : Nat} {vs : List Value} (hm : w.Makes id (a.steps.map (·.attr)))
    (hn : (a.steps.map (·.attr)).Nodup) (hl : vs.length = (a.steps.map (·.attr)).length) :
    w.construct (.declared id) (a.supply vs) = .ok (.record id ((a.steps.map (·.attr)).zip vs)) := by
  obtain ⟨hpos, hkey⟩ := hm.construct_eq_ok hn hl
  rw [supply]
  cases a.passing with
  | byPosition => exact hpos
  | byKeyword => exact hkey

end UnionBridge
