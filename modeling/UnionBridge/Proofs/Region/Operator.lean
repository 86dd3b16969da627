import UnionBridge.Proofs.Region.Shown
import UnionBridge.World.Operator

/-! Making instances and using operators in a region of two worlds. -/
namespace UnionBridge

variable {ρ : Region} {w w' : World} {c : ClassRef} {v a b : Value} {id : Nat} {operation : String} {s : Supplied}
  {args : List Value}

namespace Parameters

variable {function : String} {names : List String} {bound kw es : List (String × Value)} {ps : List Parameter}

theorem within_byName (hbound : ∀ e ∈ bound, e.2.Within ρ) (hkw : ∀ e ∈ kw, e.2.Within ρ)
    (h : byName function names bound kw = .ok es) : ∀ e ∈ es, e.2.Within ρ := by
  induction kw generalizing bound with
  | nil =>
    cases h
    exact hbound
  | cons e kw ih =>
    obtain ⟨name, v⟩ := e
    obtain ⟨hv, hkw⟩ := List.forall_mem_cons.mp hkw
    rw [byName] at h
    split at h
    · cases h
    · split at h
      · cases h
      · refine ih ?_ hkw h
        intro e he
        rcases List.mem_append.mp he with he | he
        · exact hbound e he
        · obtain rfl := List.mem_singleton.mp he
          exact hv

/-- Parameters get values that a call passes, or their defaults. -/
theorem within_bind {unsaid : Nat} (hps : ∀ p ∈ ps, p.Within ρ) (hs : s.Within ρ)
    (h : bind function unsaid ps s = .ok es) : ∀ e ∈ es, e.2.Within ρ := by
  simp only [bind] at h
  cases hb : byName function (ps.map (·.name)) ((ps.map (·.name)).zip s.positional) s.keyword with
  | error f =>
    rw [hb] at h
    cases h
  | ok bound =>
    rw [hb] at h
    simp only [Except.bind, Bind.bind] at h
    have hpassed : ∀ e ∈ bound, e.2.Within ρ :=
      within_byName (fun e he => hs.1 _ (List.of_mem_zip he).2) hs.2 hb
    split at h
    · cases h
    · split at h
      · cases h
        intro e he
        obtain ⟨p, hp, hfound⟩ := List.mem_filterMap.mp he
        rcases (Option.orElse_eq_some _ _ _).mp hfound with hpass | ⟨_, hdefault⟩
        · exact hpassed e (List.mem_of_find?_eq_some hpass)
        · obtain ⟨v, hv, rfl⟩ := Option.map_eq_some_iff.mp hdefault
          exact hps p hp v hv
      · cases h

theorem concur_bind {unsaid : Nat} (hps : ∀ p ∈ ps, p.Within ρ) (hs : s.Within ρ) :
    Concur (fun es : List (String × Value) => ∀ e ∈ es, e.2.Within ρ) (bind function unsaid ps s)
      (bind function unsaid ps s) :=
  ⟨rfl, fun _ => within_bind hps hs⟩

theorem within_required (names : List String) : ∀ p ∈ required names, p.Within ρ := by
  intro p hp
  obtain ⟨name, _, rfl⟩ := List.mem_map.mp hp
  intro v hv
  cases hv

end Parameters

namespace World.Same

variable (h : w.Same ρ w')
include h

/-! ### Instances -/

theorem override?_eq (hc : c.Within ρ) : w'.override? c operation = w.override? c operation := by
  have hfind : ((w.chain c).findSome? fun c => (w'.class? c).bind (·.attributes.get? operation)) =
      (w.chain c).findSome? fun c => (w.class? c).bind (·.attributes.get? operation) :=
    findSome?_congr fun d hd => by rw [h.class?_eq (h.within_chain hc d hd)]
  simp only [override?, h.chain_eq hc, hfind]

theorem within_override? (hc : c.Within ρ) (ho : w.override? c operation = some id) : ρ.classes id := by
  rw [override?] at ho
  split at ho
  · rename_i o hfound
    cases ho
    obtain ⟨d, hd, hattribute⟩ := List.exists_of_findSome?_eq_some hfound
    obtain ⟨decl, hdecl, hget⟩ := Option.bind_eq_some_iff.mp hattribute
    exact Value.within_cls.mp ((h.within_class? (h.within_chain hc d hd) hdecl).attributes _ _ hget)
  · cases ho

theorem fieldRefusal?_eq {field : String × Value} (hc : c.Within ρ) (hf : field.2.Within ρ) :
    w'.fieldRefusal? c field = w.fieldRefusal? c field := by
  obtain ⟨name, v⟩ := field
  unfold fieldRefusal?
  split <;> simp_all [h.typeName_eq, h.className_eq]

theorem concur_fill {givenName : String} {fields : List Parameter} (hid : ρ.classes id)
    (hfields : ∀ p ∈ fields, p.Within ρ) (hs : s.Within ρ) :
    Concur (·.Within ρ) (w'.fill id givenName fields s) (w.fill id givenName fields s) := by
  refine (Parameters.concur_bind hfields hs).bind fun es hes => ?_
  have hrefused : es.findSome? (w'.fieldRefusal? (.declared id)) = es.findSome? (w.fieldRefusal? (.declared id)) :=
    findSome?_congr fun e he => h.fieldRefusal?_eq hid (hes e he)
  rw [hrefused]
  split
  · exact .error
  · exact .ok (Value.within_record.mpr ⟨hid, hes⟩)

theorem concur_instantiate (hid : ρ.classes id) (hs : s.Within ρ) :
    Concur (·.Within ρ) (w'.instantiate id s) (w.instantiate id s) := by
  have hc : (ClassRef.declared id).Within ρ := hid
  simp only [instantiate, h.override?_eq hc, h.class?_eq hc]
  split
  · exact .error
  · split
    · rename_i hclass
      exact h.concur_fill hid (fun p => (h.within_class? hc hclass).fields _ rfl p) hs
    · split
      · exact .error
      · cases hinit : w.override? (.declared id) "__init__" with
        | none =>
          simp only
          split
          · exact .ok (Value.within_bare.mpr hid)
          · exact .error
        | some constructor =>
          have hconstructor : (ClassRef.declared constructor).Within ρ := h.within_override? hc hinit
          simp only [h.class?_eq hconstructor]
          split
          · rename_i hclass
            refine (h.concur_fill hconstructor (fun p => (h.within_class? hconstructor hclass).fields _ rfl p) hs).bind ?_
            exact fun _ _ => .error
          · exact .error
    · exact .error

/-- The result of an operation that a class takes over. -/
theorem overridden?_eq (hv : v.Within ρ) (hargs : ∀ v ∈ args, v.Within ρ) :
    w'.overridden? v operation args = w.overridden? v operation args := by
  have hmade (id : Nat) (hid : ρ.classes id) : (w'.override? (.declared id) operation).map (fun o => w'.instantiate o (.of args)) =
      (w.override? (.declared id) operation).map fun o => w.instantiate o (.of args) := by
    have hc : (ClassRef.declared id).Within ρ := hid
    rw [h.override?_eq hc]
    cases ho : w.override? (.declared id) operation with
    | none => rfl
    | some o => exact congrArg some (h.concur_instantiate (h.within_override? hc ho) (Supplied.within_of hargs)).1
  cases v with
  | record id fields => exact hmade id (Value.within_record.mp hv).1
  | bare id => exact hmade id (Value.within_bare.mp hv)
  | _ => rfl

theorem concur_overridden? {result : Except Failure Value} (hv : v.Within ρ) (hargs : ∀ v ∈ args, v.Within ρ)
    (hresult : w.overridden? v operation args = some result) : Concur (·.Within ρ) result result := by
  have hmade (id : Nat) (hid : ρ.classes id)
      (hmap : (w.override? (.declared id) operation).map (fun o => w.instantiate o (.of args)) = some result) :
      Concur (·.Within ρ) result result := by
    obtain ⟨o, ho, rfl⟩ := Option.map_eq_some_iff.mp hmap
    exact h.here.concur_instantiate (h.within_override? (ClassRef.within_declared.mpr hid) ho) (Supplied.within_of hargs)
  cases v with
  | record id fields => exact hmade id (Value.within_record.mp hv).1 hresult
  | bare id => exact hmade id (Value.within_bare.mp hv) hresult
  | _ => cases hresult

/-! ### Operators -/

theorem wrongResult_eq {α : Type} {before after : String} (hv : v.Within ρ) :
    (w'.wrongResult before v after : Except Failure α) = w.wrongResult before v after := by
  simp only [wrongResult, h.typeName_eq hv]

theorem truth_eq (hv : v.Within ρ) : w'.truth v = w.truth v := by
  have hnone : ∀ x ∈ ([] : List Value), x.Within ρ := fun _ hx => absurd hx List.not_mem_nil
  simp only [truth, h.overridden?_eq hv hnone]
  split
  · rename_i hresult
    exact ((h.concur_overridden? hv hnone hresult).bind fun x hx => .of_eq (h.wrongResult_eq hx)).1
  · rename_i hresult
    exact ((h.concur_overridden? hv hnone hresult).bind fun x hx => .of_eq (h.wrongResult_eq hx)).1
  · rfl

theorem textOf_eq (hv : v.Within ρ) : w'.textOf v = w.textOf v := by
  have hnone : ∀ x ∈ ([] : List Value), x.Within ρ := fun _ hx => absurd hx List.not_mem_nil
  simp only [textOf, h.overridden?_eq hv hnone, h.displayed_eq hv]
  split
  · rfl
  · rename_i hresult
    exact ((h.concur_overridden? hv hnone hresult).bind fun x hx => .of_eq (h.wrongResult_eq hx)).1
  · rfl

theorem noOperator_eq {op : String} (ha : a.Within ρ) (hb : b.Within ρ) : w'.noOperator op a b = w.noOperator op a b := by
  simp only [noOperator, h.typeName_eq ha, h.typeName_eq hb]

theorem concur_add (ha : a.Within ρ) (hb : b.Within ρ) : Concur (·.Within ρ) (w'.add a b) (w.add a b) := by
  have hleft : ∀ x ∈ [b], x.Within ρ := List.forall_mem_singleton.mpr hb
  have hright : ∀ x ∈ [a], x.Within ρ := List.forall_mem_singleton.mpr ha
  simp only [add, h.overridden?_eq ha hleft, h.overridden?_eq hb hright, h.noOperator_eq ha hb, h.typeName_eq hb]
  split
  · rename_i hresult
    exact h.concur_overridden? ha hleft hresult
  · rename_i hresult
    exact h.concur_overridden? hb hright hresult
  · split
    · exact .ok (Value.within_int _)
    · exact .bind_eq rfl fun x => .bind_eq rfl fun y => .ok (Value.within_float _)
    · split
      · exact .ok (Value.within_text _)
      · exact .error
      · exact .error

theorem exceeds_eq (ha : a.Within ρ) (hb : b.Within ρ) : w'.exceeds a b = w.exceeds a b := by
  have hleft : ∀ x ∈ [b], x.Within ρ := List.forall_mem_singleton.mpr hb
  have hright : ∀ x ∈ [a], x.Within ρ := List.forall_mem_singleton.mpr ha
  simp only [exceeds, h.overridden?_eq ha hleft, h.overridden?_eq hb hright, h.typeName_eq ha, h.typeName_eq hb]
  split
  · rename_i hresult
    exact ((h.concur_overridden? ha hleft hresult).bind fun x hx => .of_eq (h.truth_eq hx)).1
  · rename_i hresult
    exact ((h.concur_overridden? hb hright hresult).bind fun x hx => .of_eq (h.truth_eq hx)).1
  · rfl

/-- Going through a value. -/
theorem concur_items? (hv : v.Within ρ) :
    Concur (fun items : Option (List Value) => ∀ vs, items = some vs → ∀ x ∈ vs, x.Within ρ) (w'.items? v) (w.items? v) := by
  have hnone : ∀ x ∈ ([] : List Value), x.Within ρ := fun _ hx => absurd hx List.not_mem_nil
  simp only [items?, h.overridden?_eq hv hnone]
  split
  · rename_i hresult
    refine (h.concur_overridden? hv hnone hresult).bind fun x hx => ?_
    rw [h.wrongResult_eq hx]
    exact .error
  · refine .ok fun vs hvs => ?_
    split at hvs
    · cases hvs
      exact Value.within_tuple.mp hv
    · cases hvs
      exact Value.within_list.mp hv
    · cases hvs
      exact Value.within_iterator.mp hv
    · obtain ⟨s, _, rfl⟩ := Option.map_eq_some_iff.mp hvs
      intro x hx
      obtain ⟨c, _, rfl⟩ := List.mem_map.mp hx
      exact Value.within_text _

theorem concur_items (hv : v.Within ρ) :
    Concur (fun vs : List Value => ∀ x ∈ vs, x.Within ρ) (w'.items v) (w.items v) := by
  refine (h.concur_items? hv).bind fun found hfound => ?_
  cases found with
  | none =>
    simp only [h.typeName_eq hv]
    exact .error
  | some vs => exact .ok (hfound vs rfl)

theorem concur_spread (hv : v.Within ρ) :
    Concur (fun vs : List Value => ∀ x ∈ vs, x.Within ρ) (w'.spread v) (w.spread v) := by
  refine (h.concur_items? hv).bind fun found hfound => ?_
  cases found with
  | none =>
    simp only [h.typeName_eq hv]
    exact .error
  | some vs => exact .ok (hfound vs rfl)

theorem concur_pair (hv : v.Within ρ) :
    Concur (fun p : Value × Value => p.1.Within ρ ∧ p.2.Within ρ) (w'.pair v) (w.pair v) := by
  refine (h.concur_items? hv).bind fun found hfound => ?_
  simp only [h.typeName_eq hv]
  split
  · have hitems := hfound _ rfl
    exact .ok ⟨hitems _ List.mem_cons_self, hitems _ (List.mem_cons_of_mem _ List.mem_cons_self)⟩
  · exact .error
  · exact .error
  · exact .error

end World.Same

end UnionBridge
