import UnionBridge.Proofs.Region.Call

/-! Registries, asked by callers that cannot be told apart. What is called lies within a region of its own: it is what a
module has under its names, while any value may be passed. -/
namespace UnionBridge

variable {ρ κ : Region} {w w' : World} {call call' : Caller} {v target container : Value} {name : String}

/-- Two ways to call that agree on whatever lies within a region, as far as it is passed values from another one. Calls that
pass no value or several to what is in the larger region agree, too; they fail where one value is expected. -/
structure Callers (ρ κ : Region) (call call' : Caller) : Prop where
  apt : ∀ f s, f.Within κ → s.Within ρ → Concur (·.Within ρ) (call' f s) (call f s)
  unfit : ∀ f vs, f.Within ρ → (∀ v ∈ vs, v.Within ρ) → vs.length ≠ 1 →
    Concur (·.Within ρ) (call' f (.of vs)) (call f (.of vs))

/-- Two worlds that are the same in a region, with another one in it that nothing leads out of. -/
structure World.Nested (ρ κ : Region) (w w' : World) : Prop where
  same : w.Same ρ w'
  closed : w.Same κ w
  le : κ.Le ρ

namespace World.Nested

variable (h : w.Nested ρ κ w')
include h

theorem concur_member (hv : v.Within κ) : Concur (·.Within κ) (w'.member v name) (w.member v name) :=
  ⟨(h.same.concur_member (hv.mono h.le)).1, (h.closed.concur_member hv).2⟩

theorem concur_memberPath {names : List String} (hv : v.Within κ) :
    Concur (·.Within κ) (w'.memberPath v names) (w.memberPath v names) :=
  ⟨(h.same.concur_memberPath (hv.mono h.le)).1, (h.closed.concur_memberPath hv).2⟩

variable (hc : Callers ρ κ call call')
include hc

/-- An attribute of something that may be called is called. -/
theorem concur_invoke {args : List Value} (hv : v.Within κ) (hargs : ∀ x ∈ args, x.Within ρ) :
    Concur (·.Within ρ) (w'.invoke call' v name args) (w.invoke call v name args) := by
  unfold invoke
  split
  · split
    · exact h.same.concur_carrierCall (List.forall_mem_singleton.mpr (hv.mono h.le))
    · exact .error
  · exact (h.concur_member hv).bind fun f hf => hc.apt f _ hf (Supplied.within_of hargs)

/-- An attribute of any value is called without a value. -/
theorem concur_invoke_nil (hv : v.Within ρ) : Concur (·.Within ρ) (w'.invoke call' v name []) (w.invoke call v name []) := by
  unfold invoke
  split
  · simp only [List.isEmpty_nil, if_true]
    exact h.same.concur_carrierCall (List.forall_mem_singleton.mpr hv)
  · exact (h.same.concur_member hv).bind fun f hf => hc.unfit f [] hf (by simp) (by simp)

theorem concur_fit (hv : v.Within ρ) (ht : target.Within κ) :
    Concur (·.Within ρ) (w'.fit call' v target) (w.fit call v target) := by
  have hcall := hc.apt target (.of [v]) ht (Supplied.within_of (List.forall_mem_singleton.mpr hv))
  unfold fit
  split
  · rw [h.same.isInstance_eq hv]
    split
    · exact .ok hv
    · exact hcall
  · exact hcall

variable {r r' : Registry}

/-- What a registry finds decides together with the target. -/
theorem concur_into (hv : v.Within ρ) (ht : target.Within κ)
    (hlookup : w'.lookup r' v.classOf target false = w.lookup r v.classOf target false)
    (hrun : ∀ c, w.lookup r v.classOf target false = .ok (some c) →
      Concur (·.Within ρ) (c.run w' call' v) (c.run w call v)) :
    Concur (·.Within ρ) (w'.into call' r' v target) (w.into call r v target) := by
  unfold into
  rw [hlookup]
  cases hfound : w.lookup r v.classOf target false with
  | error e => exact .error
  | ok found =>
    cases found with
    | none => exact h.concur_fit hc hv ht
    | some c => exact hrun c hfound

theorem concur_tryInto (hv : v.Within ρ) (ht : target.Within κ)
    (hlookup : ∀ fallible, w'.lookup r' v.classOf target fallible = w.lookup r v.classOf target fallible)
    (hrun : ∀ fallible c, w.lookup r v.classOf target fallible = .ok (some c) →
      Concur (·.Within ρ) (c.run w' call' v) (c.run w call v)) :
    Concur (·.Within ρ) (w'.tryInto call' r' v target) (w.tryInto call r v target) := by
  have hrejection (f : Failure) : w'.asRejection v target f = w.asRejection v target f := by
    cases f with
    | error kind message => simp only [asRejection, h.same.rejection_eq hv (ht.mono h.le)]
    | _ => rfl
  unfold tryInto
  rw [hlookup]
  cases hfound : w.lookup r v.classOf target true with
  | error e => exact .error
  | ok found =>
    cases found with
    | none => exact (h.concur_into hc hv ht (hlookup false) (hrun false)).mapError hrejection
    | some c => exact (hrun true c hfound).mapError hrejection

theorem concur_lift (hv : v.Within ρ) (hcontainer : container.Within κ) :
    Concur (·.Within ρ) (w'.lift call' v container) (w.lift call v container) := by
  refine .bind_eq (Same.instanceTest_eq h.same hv container) fun is => ?_
  cases is with
  | true => exact .ok hv
  | false =>
    refine h.concur_invoke hc hcontainer (List.forall_mem_cons.mpr ⟨hv, List.forall_mem_singleton.mpr ?_⟩)
    exact Value.within_list.mpr (by simp)

/-- A registry whose converters cannot be told apart answers every request alike. -/
theorem concur_answer {container : Option Value} {request : Request} (hv : v.Within ρ) (ht : target.Within κ)
    (hcontainer : ∀ c, container = some c → c.Within κ)
    (hlookup : ∀ fallible, w'.lookup (w'.registry name) v.classOf target fallible =
      w.lookup (w.registry name) v.classOf target fallible)
    (hrun : ∀ fallible c, w.lookup (w.registry name) v.classOf target fallible = .ok (some c) →
      Concur (·.Within ρ) (c.run w' call' v) (c.run w call v)) :
    Concur (·.Within ρ) (w'.answer call' name request v target container) (w.answer call name request v target container) := by
  have hinto := h.concur_into hc hv ht (hlookup false) (hrun false)
  have htry := h.concur_tryInto hc hv ht hlookup hrun
  cases request with
  | into =>
    cases container with
    | none => exact hinto
    | some c => exact hinto.bind fun x hx => h.concur_lift hc hx (hcontainer c rfl)
  | tryInto =>
    cases container with
    | none => exact htry
    | some c => exact htry.bind fun x hx => h.concur_lift hc hx (hcontainer c rfl)

end World.Nested

/-! ### Converters -/

/-- What a converter holds lies within a region. -/
def Behaviour.Within (ρ : Region) : Behaviour → Prop
  | .pure f => ∀ σ : Region, ρ.Le σ → ∀ v x, v.Within σ → f v = .ok x → x.Within σ
  | .constant v | .add v | .make v | .reject v _ => v.Within ρ
  | .atMost limit target _ => limit.Within ρ ∧ target.Within ρ
  | .raise _ _ => True
  | .withEffects container target _ => container.Within ρ ∧ ∀ t, target = some t → t.Within ρ

def Converter.Within (ρ : Region) : Converter → Prop
  | .callable f => f.Within ρ
  | .custom _ b => b.Within ρ

theorem Converter.Within.mono {c : Converter} (h : c.Within κ) (hle : κ.Le ρ) : c.Within ρ := by
  cases c with
  | callable f => exact Value.Within.mono hle h
  | custom label b =>
    cases b with
    | pure f => exact fun σ hσ => h σ (hle.trans hσ)
    | raise kind text => trivial
    | atMost limit target reason => exact ⟨h.1.mono hle, h.2.mono hle⟩
    | withEffects container target effects => exact ⟨h.1.mono hle, fun t ht => (h.2 t ht).mono hle⟩
    | _ => exact Value.Within.mono hle h

variable (h : w.Same ρ w') (hc : Callers ρ ρ call call')
include h hc

theorem Behaviour.concur_run {b : Behaviour} (hb : b.Within ρ) (hv : v.Within ρ) :
    Concur (·.Within ρ) (b.run w' call' v) (b.run w call v) := by
  have hnested : w.Nested ρ ρ w' := ⟨h, h.here, .refl ρ⟩
  have hcall (f : Value) (hf : f.Within ρ) : Concur (·.Within ρ) (call' f (.of [v])) (call f (.of [v])) :=
    hc.apt f _ hf (Supplied.within_of (List.forall_mem_singleton.mpr hv))
  cases b with
  | pure f => exact ⟨rfl, fun x hx => hb ρ (.refl ρ) v x hv hx⟩
  | constant result => exact .ok hb
  | add amount => exact h.concur_add hv hb
  | make target => exact hcall target hb
  | atMost limit target reason =>
    refine .bind_eq (h.exceeds_eq hv hb.1) fun is => ?_
    cases is with
    | true =>
      simp only [h.rejection_eq hv hb.2]
      exact .error
    | false => exact .ok hv
  | reject target reason =>
    simp only [run, h.rejection_eq hv hb]
    exact .error
  | raise kind text => exact .error
  | withEffects container target effects =>
    have heffects : Concur (fun es : List Value => ∀ e ∈ es, e.Within ρ) (effectTexts w' effects v) (effectTexts w effects v) :=
      .mapM fun e _ => .bind_eq (h.textOf_eq hv) fun _ => .ok (Value.within_text _)
    have hput (content : Value) (hcontent : content.Within ρ) :
        Concur (·.Within ρ) (do w'.invoke call' container "new" [content, .list (← effectTexts w' effects v)])
          (do w.invoke call container "new" [content, .list (← effectTexts w effects v)]) := by
      refine heffects.bind fun es hes => hnested.concur_invoke hc hb.1 ?_
      exact List.forall_mem_cons.mpr ⟨hcontent, List.forall_mem_singleton.mpr (Value.within_list.mpr hes)⟩
    cases target with
    | none => exact hput v hv
    | some t => exact (hcall t (hb.2 t rfl)).bind hput

theorem Converter.concur_run {c : Converter} (hconverter : c.Within ρ) (hv : v.Within ρ) :
    Concur (·.Within ρ) (c.run w' call' v) (c.run w call v) := by
  cases c with
  | callable f => exact hc.apt f _ hconverter (Supplied.within_of (List.forall_mem_singleton.mpr hv))
  | custom label b => exact Behaviour.concur_run h hc hconverter hv

end UnionBridge
