import UnionBridge.Proofs.Execution.Containers
import UnionBridge.Proofs.Execution.FirstFit

/-! Taking fields apart. Values and effects of fields live in variables whose names end in `_value` and `_effects`; what
an attempt left lives in a variable without such an end, which a field whose own name has one may find taken. -/
namespace UnionBridge

open UnionBridge.Action

variable {s : Scope} {conv : Conversion} {attempts : List Attempt} {σ : Sense} {f : FieldStep} {l : Locals} {q : Value}
  {e : Failure} {dest : String} {t : Target} {c : Candidate} {d : DottedName} {k : ClassRef}
  {wrap : Value → List Value → Value} {ps : List (Value × Value)} {ess : List (List Value)}

/-! ### Variables -/

/-- What is assigned when a container is taken apart. -/
def FieldStep.parts (container : Option DottedName) (f : FieldStep) (p : Value × Value) : List (String × Value) :=
  [(f.valueSlot container, p.1), (f.effectsSlot, p.2)]

/-- The variables once all fields of a candidate are taken apart. -/
def Attempt.unpacking (a : Attempt) (d : DottedName) (ps : List (Value × Value)) (l : Locals) : Locals :=
  l.insertAll (writesOf (FieldStep.parts (some d)) a.steps ps)

theorem value_ne_effects (key key' : String) : key ++ "_value" ≠ key' ++ "_effects" := by
  intro h
  have := congrArg (fun n : String => n.toList.getLast?) h
  simp at this

theorem keys_parts {steps : List FieldStep} (hl : steps.length = ps.length) :
    (writesOf (FieldStep.parts (some d)) steps ps).map Prod.fst =
      steps.flatMap fun f => [f.valueSlot (some d), f.effectsSlot] := by
  have hkeys : (writesOf (FieldStep.parts (some d)) steps ps).map Prod.fst =
      ((steps.zip ps).map Prod.fst).flatMap fun f => [f.valueSlot (some d), f.effectsSlot] := by
    rw [writesOf, List.map_flatMap, List.flatMap_map]
    rfl
  rw [hkeys, List.map_fst_zip (by omega)]

/-- The variables for values and effects are all different. -/
theorem nodup_parts (hn : t.body.fieldNames.Nodup) :
    ((Attempt.ofTarget dest t).steps.flatMap fun f => [f.valueSlot (some d), f.effectsSlot]).Nodup := by
  rw [Attempt.ofTarget, List.flatMap_map, List.nodup_flatMap]
  constructor
  · intro f _
    rw [FieldStep.valueSlot_ofField_some, FieldStep.effectsSlot_ofField, List.nodup_cons, List.mem_singleton]
    exact ⟨fun h => value_ne_effects f.key f.key (Naming.slot_injective h), List.nodup_singleton _⟩
  · refine (List.pairwise_map.mp (Body.nodup_keys hn)).imp fun {f g} hne => ?_
    intro name hf hg
    simp only [FieldStep.valueSlot_ofField_some, FieldStep.effectsSlot_ofField, List.mem_cons, List.not_mem_nil,
      or_false] at hf hg
    rcases hf with rfl | rfl <;> rcases hg with hg | hg
    · exact hne ((String.append_left_inj "_value").mp (Naming.slot_injective hg))
    · exact value_ne_effects f.key g.key (Naming.slot_injective hg)
    · exact value_ne_effects g.key f.key (Naming.slot_injective hg).symm
    · exact hne ((String.append_left_inj "_effects").mp (Naming.slot_injective hg))

theorem parameter_notMem_parts (hf : f ∈ (Attempt.ofTarget dest t).steps) (p : Value × Value) :
    Conversion.parameter ∉ (f.parts (some d) p).map Prod.fst := by
  obtain ⟨g, _, rfl⟩ := mem_steps_ofTarget.mp hf
  simp only [FieldStep.parts, List.map_cons, List.map_nil, List.mem_cons, List.not_mem_nil, or_false, not_or,
    FieldStep.valueSlot_ofField_some, FieldStep.effectsSlot_ofField]
  exact ⟨fun heq => Naming.slot_ne_parameter heq.symm, fun heq => Naming.slot_ne_parameter heq.symm⟩

/-! ### Finishing -/

/-- Taking a container apart sets two variables. What does not come apart sets none. -/
theorem eval_unpack (container : Option DottedName) (f : FieldStep) (q : Value) (l : Locals) :
    eval (f.unpack container s q) l = match s.unpacks q with
      | .ok p => (.ok (), l.insertAll (f.parts container p))
      | .error e => (.error e, l) := by
  rw [FieldStep.unpack, Scope.unpacks]
  cases s.world.invoke s.call q "into_value_and_effects" [] with
  | error e => exact eval_bind_lift_error rfl
  | ok r =>
    rw [eval_bind_lift_ok rfl]
    cases hp : s.world.pair r with
    | error e =>
      rw [eval_bind_lift_error rfl]
      simp only [bind, Except.bind, hp]
    | ok p =>
      rw [eval_bind_lift_ok rfl]
      simp only [bind, Except.bind, hp]
      rfl

theorem forall₂_comp {α β γ : Type} {r : α → β → Prop} {r' : β → γ → Prop} {r'' : α → γ → Prop} {as : List α}
    {bs : List β} {cs : List γ} (hab : List.Forall₂ r as bs) (hbc : List.Forall₂ r' bs cs)
    (h : ∀ a b c, r a b → r' b c → r'' a c) : List.Forall₂ r'' as cs := by
  induction hab generalizing cs with
  | nil =>
    cases hbc
    exact List.Forall₂.nil
  | cons hr _ ih =>
    cases hbc with
    | cons hr' htail => exact List.Forall₂.cons (h _ _ _ hr hr') (ih htail)

section Parts

variable (hf : f ∈ (Attempt.ofTarget dest t).steps)
include hf

theorem constant?_valueSlot_of_mem : constant? (f.valueSlot (some d)) = none := by
  obtain ⟨g, _, rfl⟩ := mem_steps_ofTarget.mp hf
  rw [FieldStep.valueSlot_ofField_some]
  exact Naming.constant?_slot _

theorem constant?_effectsSlot_of_mem : constant? f.effectsSlot = none := by
  obtain ⟨g, _, rfl⟩ := mem_steps_ofTarget.mp hf
  rw [FieldStep.effectsSlot_ofField]
  exact Naming.constant?_slot _

theorem effectsSlot_ne_resultSlot_of_mem : f.effectsSlot ≠ Attempt.resultSlot := by
  obtain ⟨g, _, rfl⟩ := mem_steps_ofTarget.mp hf
  rw [FieldStep.effectsSlot_ofField]
  exact Naming.slot_ne_resultSlot

end Parts

section Unpacked

variable (hn : t.body.fieldNames.Nodup) (hl : (Attempt.ofTarget dest t).steps.length = ps.length)
include hn hl

/-- After all fields are taken apart, their variables hold what they came apart into. -/
theorem get?_parts (l : Locals) {p : Value × Value} (hmem : (f, p) ∈ (Attempt.ofTarget dest t).steps.zip ps) :
    ((Attempt.ofTarget dest t).unpacking d ps l).get? (f.valueSlot (some d)) = some p.1 ∧
      ((Attempt.ofTarget dest t).unpacking d ps l).get? f.effectsSlot = some p.2 := by
  have hnodup : ((writesOf (FieldStep.parts (some d)) (Attempt.ofTarget dest t).steps ps).map Prod.fst).Nodup := by
    rw [keys_parts hl]
    exact nodup_parts hn
  constructor
  · exact Table.get?_insertAll_of_mem hnodup (List.mem_flatMap.mpr ⟨_, hmem, by simp [FieldStep.parts]⟩)
  · exact Table.get?_insertAll_of_mem hnodup (List.mem_flatMap.mpr ⟨_, hmem, by simp [FieldStep.parts]⟩)

theorem eval_fetch_values (hv : ∀ f ∈ (Attempt.ofTarget dest t).steps, f.valueSlot (some d) ∈ s.own) (l : Locals) :
    List.Forall₂ (fun f v => eval (s.fetch (f.valueSlot (some d))) ((Attempt.ofTarget dest t).unpacking d ps l) =
      (.ok v, (Attempt.ofTarget dest t).unpacking d ps l)) (Attempt.ofTarget dest t).steps (ps.map Prod.fst) := by
  rw [List.forall₂_map_right_iff]
  refine List.forall₂_iff_zip.mpr ⟨hl, fun {f p} hmem => ?_⟩
  have hf := (List.of_mem_zip hmem).1
  exact Scope.eval_fetch_own (constant?_valueSlot_of_mem hf) (hv f hf) (get?_parts hn hl l hmem).1

/-- The effects of all fields, in their order, are still there when the variable of the result is set. -/
theorem eval_effects (he : ∀ f ∈ (Attempt.ofTarget dest t).steps, f.effectsSlot ∈ s.own) (l : Locals) (v : Value) :
    eval ((Attempt.ofTarget dest t).effects s)
      (((Attempt.ofTarget dest t).unpacking d ps l).insert Attempt.resultSlot v) =
        ((ps.mapM fun p => s.world.spread p.2).map List.flatten,
          ((Attempt.ofTarget dest t).unpacking d ps l).insert Attempt.resultSlot v) := by
  generalize hl₁ : ((Attempt.ofTarget dest t).unpacking d ps l).insert Attempt.resultSlot v = l₁
  have hspread : List.Forall₂ (fun f p => eval (do s.world.spread (← s.fetch f.effectsSlot)) l₁ =
      (s.world.spread p.2, l₁)) (Attempt.ofTarget dest t).steps ps := by
    refine List.forall₂_iff_zip.mpr ⟨hl, fun {f p} hmem => ?_⟩
    have hf := (List.of_mem_zip hmem).1
    have hslot : l₁.get? f.effectsSlot = some p.2 := by
      rw [← hl₁, Table.get?_insert_of_ne _ _ (effectsSlot_ne_resultSlot_of_mem hf).symm]
      exact (get?_parts hn hl l hmem).2
    rw [eval_bind_ok (Scope.eval_fetch_own (constant?_effectsSlot_of_mem hf) (he f hf) hslot), eval_lift]
  have hall := eval_mapM hspread
  rw [Attempt.effects]
  cases hess : ps.mapM fun p => s.world.spread p.2 with
  | error e =>
    rw [hess] at hall
    rw [eval_bind_error hall]
    rfl
  | ok ess =>
    rw [hess] at hall
    rw [eval_bind_ok hall]
    rfl

end Unpacked

/-- What comes of a variant once its fields are taken apart: the variant with their values, in a container with their
effects. -/
def Sense.compose (σ : Sense) (s : Scope) (wrap : Value → List Value → Value) (a : Attempt) (ps : List (Value × Value)) :
    Except Failure Value := do
  let v ← s.world.construct (.declared (σ.variant a.case)) (a.supply (ps.map Prod.fst))
  let ess ← ps.mapM fun p => s.world.spread p.2
  return wrap v ess.flatten

theorem Sense.compose_eq_ok_iff {a : Attempt} :
    σ.compose s wrap a ps = .ok q ↔ ∃ v ess,
      s.world.construct (.declared (σ.variant a.case)) (a.supply (ps.map Prod.fst)) = .ok v ∧
      List.Forall₂ (fun (p : Value × Value) es => s.world.spread p.2 = .ok es) ps ess ∧ q = wrap v ess.flatten := by
  rw [compose]
  constructor
  · intro h
    cases hv : s.world.construct (.declared (σ.variant a.case)) (a.supply (ps.map Prod.fst)) with
    | error e =>
      rw [hv] at h
      cases h
    | ok v =>
      cases hess : ps.mapM fun p => s.world.spread p.2 with
      | error e =>
        simp only [hv, hess, bind, Except.bind] at h
        cases h
      | ok ess =>
        simp only [hv, hess, bind, Except.bind] at h
        exact ⟨v, ess, rfl, mapM_eq_ok_iff.mp hess, (Except.ok.inj h).symm⟩
  · rintro ⟨v, ess, hv, hess, rfl⟩
    rw [hv, mapM_eq_ok_iff.mpr hess]
    rfl

section Finish

variable (h : s.Reads conv attempts σ) (hk : conv.container = some d) (hσ : σ.container = some (.cls k))
include h hk hσ

theorem Scope.Reads.stands_container : s.Stands d (.cls k) := by
  have hrel := h.container
  rw [hk, hσ] at hrel
  cases hrel
  assumption

/-- Once all fields are taken apart, the result is composed of what they came apart into. -/
theorem eval_finish_contained (hw : s.Contains k wrap) (hc : Attempt.ofTarget dest c.target ∈ attempts)
    (hn : c.target.body.fieldNames.Nodup)
    (hv : ∀ f ∈ (Attempt.ofTarget dest c.target).steps, f.valueSlot (some d) ∈ s.own)
    (he : ∀ f ∈ (Attempt.ofTarget dest c.target).steps, f.effectsSlot ∈ s.own) (hr : Attempt.resultSlot ∈ s.own)
    (hl : (Attempt.ofTarget dest c.target).steps.length = ps.length) (l : Locals) :
    (eval ((Attempt.ofTarget dest c.target).finish (some d) s)
      ((Attempt.ofTarget dest c.target).unpacking d ps l)).1 =
      σ.compose s wrap (Attempt.ofTarget dest c.target) ps := by
  have hvalues := eval_fetch_values hn hl hv l
  rw [← hk] at hvalues
  have hconstruct := h.eval_construct hc hvalues
  rw [hk] at hconstruct
  rw [Attempt.finish, Sense.compose]
  cases hcls : s.world.construct (.declared (σ.variant (Attempt.ofTarget dest c.target).case))
      ((Attempt.ofTarget dest c.target).supply (ps.map Prod.fst)) with
  | error e =>
    rw [hcls] at hconstruct
    rw [eval_bind_error hconstruct]
    rfl
  | ok v =>
    rw [hcls] at hconstruct
    rw [eval_bind_ok hconstruct]
    simp only
    rw [eval_bind_ok (eval_assign _ _ _), eval_bind_ok ((h.stands_container hk hσ).eval_fetchPath _)]
    have hcompose := hw.compose v
    cases hm : s.world.member (.cls k) "compose_from" with
    | error e =>
      rw [hm] at hcompose
      cases hcompose []
    | ok operation =>
      rw [hm] at hcompose
      have hresult : eval (s.fetch Attempt.resultSlot)
          (((Attempt.ofTarget dest c.target).unpacking d ps l).insert Attempt.resultSlot v) =
            (.ok v, ((Attempt.ofTarget dest c.target).unpacking d ps l).insert Attempt.resultSlot v) :=
        Scope.eval_fetch_own rfl hr (Table.get?_insert_self _ _ _)
      have heffects := eval_effects (d := d) hn hl he l v
      rw [eval_bind_lift_ok rfl, eval_bind_ok hresult]
      cases hess : ps.mapM fun p => s.world.spread p.2 with
      | error e =>
        rw [hess] at heffects
        rw [eval_bind_error heffects]
        rfl
      | ok ess =>
        rw [hess] at heffects
        rw [eval_bind_ok heffects, eval_lift]
        exact hcompose ess.flatten

end Finish

theorem Scope.Follows.compose_eq_ok (h : s.Follows conv attempts σ) (hc : Attempt.ofTarget dest c.target ∈ attempts)
    (hn : c.target.body.fieldNames.Nodup) (hl : (Attempt.ofTarget dest c.target).steps.length = ps.length)
    (hs : List.Forall₂ (fun (p : Value × Value) es => s.world.spread p.2 = .ok es) ps ess) :
    σ.compose s wrap (Attempt.ofTarget dest c.target) ps = .ok (wrap (σ.make (c, ps.map Prod.fst)) ess.flatten) := by
  have hlen : (ps.map Prod.fst).length = ((Attempt.ofTarget dest c.target).steps.map (·.attr)).length := by simp [hl]
  have hconstruct := Attempt.construct_supply (h.makes _ hc) (nodup_attrs_ofTarget hn) hlen
  rw [attrs_ofTarget] at hconstruct
  exact Sense.compose_eq_ok_iff.mpr ⟨_, ess, hconstruct, hs, rfl⟩

/-! ### Settling -/

/-- Taking one field apart leaves the variable of another alone. -/
def FieldStep.Spares (d : DottedName) (f g : FieldStep) : Prop := g.slot ≠ f.valueSlot (some d) ∧ g.slot ≠ f.effectsSlot

theorem FieldStep.Spares.get?_insertAll {g : FieldStep} (h : f.Spares d g) (p : Value × Value) (l : Locals) :
    (l.insertAll (f.parts (some d) p)).get? g.slot = l.get? g.slot := by
  apply Table.get?_insertAll_of_notMem
  simp only [FieldStep.parts, List.map_cons, List.map_nil, List.mem_cons, List.not_mem_nil, or_false, not_or]
  exact h

/-- What other fields have left is still there once a field that spares them is taken apart. -/
theorem FieldStep.get?_spared {steps : List FieldStep} {qs : List Value} (h : ∀ g ∈ steps, f.Spares d g)
    (hq : List.Forall₂ (fun g q => l.get? g.slot = some q) steps qs) (p : Value × Value) :
    List.Forall₂ (fun g q => (l.insertAll (f.parts (some d) p)).get? g.slot = some q) steps qs := by
  refine List.forall₂_iff_zip.mpr ⟨hq.length_eq, fun {g q} hmem => ?_⟩
  rw [(h g (List.of_mem_zip hmem).1).get?_insertAll]
  exact (List.forall₂_iff_zip.mp hq).2 hmem

theorem eval_settle_cons_ok {steps : List FieldStep} {p : Value × Value} (hconst : constant? f.slot = none)
    (ho : f.slot ∈ s.own) (hq : l.get? f.slot = some q) (hp : s.unpacks q = .ok p) :
    eval ((f :: steps).forM (·.settle (some d) s)) l =
      eval (steps.forM (·.settle (some d) s)) (l.insertAll (f.parts (some d) p)) := by
  rw [List.forM_eq_forM, List.forM_cons]
  apply eval_bind_ok
  rw [FieldStep.settle, eval_bind_ok (Scope.eval_fetch_own hconst ho hq), eval_unpack, hp]

theorem eval_settle_cons_error {steps : List FieldStep} (hconst : constant? f.slot = none)
    (ho : f.slot ∈ s.own) (hq : l.get? f.slot = some q) (he : s.unpacks q = .error e) :
    eval ((f :: steps).forM (·.settle (some d) s)) l = (.error e, l) := by
  rw [List.forM_eq_forM, List.forM_cons]
  apply eval_bind_error
  rw [FieldStep.settle, eval_bind_ok (Scope.eval_fetch_own hconst ho hq), eval_unpack, he]

/-- Where every field spares those after it, each is taken apart from what its own attempt left. -/
theorem eval_settle_ok {steps : List FieldStep} {qs : List Value}
    (ho : ∀ f ∈ steps, constant? f.slot = none ∧ f.slot ∈ s.own)
    (hq : List.Forall₂ (fun f q => l.get? f.slot = some q) steps qs)
    (hp : List.Forall₂ (fun q p => s.unpacks q = .ok p) qs ps) (hspare : steps.Pairwise (FieldStep.Spares d)) :
    eval (steps.forM (·.settle (some d) s)) l =
      (.ok (), l.insertAll (writesOf (FieldStep.parts (some d)) steps ps)) := by
  induction steps generalizing l qs ps with
  | nil =>
    cases hq
    cases hp
    rfl
  | cons f steps ih =>
    cases hq with
    | @cons _ q _ qs hf hsteps =>
      obtain ⟨p, ps, hqp, hps, rfl⟩ := List.forall₂_cons_left_iff.mp hp
      obtain ⟨hfirst, hrest⟩ := List.pairwise_cons.mp hspare
      obtain ⟨hconst, hown⟩ := ho f (by simp)
      rw [eval_settle_cons_ok hconst hown hf hqp, ih (fun g hg => ho g (by simp [hg]))
        (FieldStep.get?_spared hfirst hsteps p) hps hrest]
      simp only [writesOf, List.zip_cons_cons, List.flatMap_cons, Table.insertAll_append]

/-- Where every field spares those after it, all that the attempts left comes apart if they can be settled. -/
theorem exists_parts_of_settle {steps : List FieldStep} {qs : List Value} {u : Unit}
    (ho : ∀ f ∈ steps, constant? f.slot = none ∧ f.slot ∈ s.own)
    (hq : List.Forall₂ (fun f q => l.get? f.slot = some q) steps qs) (hspare : steps.Pairwise (FieldStep.Spares d))
    (h : (eval (steps.forM (·.settle (some d) s)) l).1 = .ok u) :
    ∃ ps, List.Forall₂ (fun q p => s.unpacks q = .ok p) qs ps := by
  induction steps generalizing l qs with
  | nil =>
    cases hq
    exact ⟨[], .nil⟩
  | cons f steps ih =>
    cases hq with
    | @cons _ q _ qs hf hsteps =>
      obtain ⟨hconst, hown⟩ := ho f (by simp)
      obtain ⟨hfirst, hrest⟩ := List.pairwise_cons.mp hspare
      cases hqp : s.unpacks q with
      | error e =>
        rw [eval_settle_cons_error hconst hown hf hqp] at h
        cases h
      | ok p =>
        rw [eval_settle_cons_ok hconst hown hf hqp] at h
        obtain ⟨ps, hps⟩ := ih (fun g hg => ho g (by simp [hg])) (FieldStep.get?_spared hfirst hsteps p) hrest h
        exact ⟨p :: ps, .cons hqp hps⟩

/-- Where some field does not spare a later one, what is taken apart is not always what an attempt left. If neither
values nor effects come apart, that is an error. -/
theorem eval_settle_error {steps : List FieldStep} (ho : ∀ f ∈ steps, constant? f.slot = none ∧ f.slot ∈ s.own)
    (hstate : ∀ f ∈ steps, ∃ q, l.get? f.slot = some q ∧
      (s.Solid q ∨ ∃ p, s.unpacks q = .ok p ∧ s.Solid p.1 ∧ s.Solid p.2))
    (hlost : (∃ f ∈ steps, ∃ q, l.get? f.slot = some q ∧ s.Solid q) ∨ ¬steps.Pairwise (FieldStep.Spares d)) :
    ∃ e l', eval (steps.forM (·.settle (some d) s)) l = (.error e, l') := by
  induction steps generalizing l with
  | nil => simp at hlost
  | cons f steps ih =>
    obtain ⟨hconst, hown⟩ := ho f (by simp)
    obtain ⟨q, hq, ⟨e, he⟩ | ⟨p, hp, hvalue, heffects⟩⟩ := hstate f (by simp)
    · exact ⟨e, l, eval_settle_cons_error hconst hown hq he⟩
    · rw [eval_settle_cons_ok hconst hown hq hp]
      -- another variable now holds one of the two parts, unless it is spared
      have hclobbered (g : FieldStep) (hg : ¬f.Spares d g) :
          ∃ r, (l.insertAll (f.parts (some d) p)).get? g.slot = some r ∧ s.Solid r := by
        by_cases hslot : g.slot = f.effectsSlot
        · refine ⟨p.2, ?_, heffects⟩
          rw [hslot]
          exact Table.get?_insert_self _ _ _
        · have hvalueSlot : g.slot = f.valueSlot (some d) := by
            by_contra hne
            exact hg ⟨hne, hslot⟩
          refine ⟨p.1, ?_, hvalue⟩
          change ((l.insert (f.valueSlot (some d)) p.1).insert f.effectsSlot p.2).get? g.slot = _
          rw [Table.get?_insert_of_ne _ _ (Ne.symm hslot), hvalueSlot, Table.get?_insert_self]
      apply ih fun g hg => ho g (by simp [hg])
      · intro g hg
        by_cases hspare : f.Spares d g
        · rw [hspare.get?_insertAll]
          exact hstate g (by simp [hg])
        · obtain ⟨r, hr, hsolid⟩ := hclobbered g hspare
          exact ⟨r, hr, Or.inl hsolid⟩
      · by_cases hall : ∀ g ∈ steps, f.Spares d g
        · rcases hlost with ⟨g, hg, r, hr, hsolid⟩ | hpair
          · rcases List.mem_cons.mp hg with rfl | hg
            · rw [hq] at hr
              obtain rfl := Option.some.inj hr
              obtain ⟨e, he⟩ := hsolid
              rw [hp] at he
              cases he
            · exact Or.inl ⟨g, hg, r, by rw [(hall g hg).get?_insertAll, hr], hsolid⟩
          · exact Or.inr fun hsteps => hpair (List.pairwise_cons.mpr ⟨hall, hsteps⟩)
        · obtain ⟨g, hg, hspare⟩ : ∃ g ∈ steps, ¬f.Spares d g := by simpa using hall
          obtain ⟨r, hr, hsolid⟩ := hclobbered g hspare
          exact Or.inl ⟨g, hg, r, hr, hsolid⟩

end UnionBridge
