import UnionBridge.Proofs.Region.Member
import UnionBridge.World.Into

/-! Calling classes and functions of the library, and asking registries, in a region of two worlds. -/
namespace UnionBridge

variable {ρ : Region} {w w' : World} {c : ClassRef} {v x target container : Value} {name : String} {s : Supplied}
  {vs : List Value}

namespace World.Same

variable (h : w.Same ρ w')
include h

/-! ### Classes -/

theorem misled?_eq {α : Type} {operations : List (String × String)} (hv : v.Within ρ) :
    (w'.misled? v operations : Option (Except Failure α)) = w.misled? v operations := by
  have hnone : ∀ x ∈ ([] : List Value), x.Within ρ := fun _ hx => absurd hx List.not_mem_nil
  refine findSome?_congr fun o _ => ?_
  obtain ⟨operation, before⟩ := o
  simp only [h.overridden?_eq hv hnone]
  cases hresult : w.overridden? v operation [] with
  | none => rfl
  | some result =>
    exact congrArg some ((h.concur_overridden? hv hnone hresult).bind fun x hx => .of_eq (h.wrongResult_eq hx)).1

theorem intOf_eq (hv : v.Within ρ) : w'.intOf v = w.intOf v := by
  simp only [intOf, h.misled?_eq hv, h.typeName_eq hv]

theorem floatFrom_eq (hv : v.Within ρ) : w'.floatFrom v = w.floatFrom v := by
  simp only [floatFrom, h.misled?_eq hv, h.typeName_eq hv]

theorem concur_unlessRefused {b : Builtin} {content made : Value} (hmade : made.Within ρ) :
    Concur (·.Within ρ) (w'.unlessRefused b content made) (w.unlessRefused b content made) := by
  rw [unlessRefused, unlessRefused, h.outside_eq]
  split
  · exact .error
  · exact .ok hmade

theorem concur_convert {b : Builtin} (hv : v.Within ρ) : Concur (·.Within ρ) (w'.convert b v) (w.convert b v) := by
  unfold convert
  split
  · exact .bind_eq (h.truth_eq hv) fun _ => .ok (Value.within_bool _)
  · exact .bind_eq (h.intOf_eq hv) fun _ => .ok (Value.within_int _)
  · exact .bind_eq (h.floatFrom_eq hv) fun _ => .ok (Value.within_float _)
  · exact .bind_eq (h.textOf_eq hv) fun _ => .ok (Value.within_text _)
  · exact (h.concur_items hv).bind fun _ hvs => .ok (Value.within_tuple.mpr hvs)
  · exact (h.concur_items hv).bind fun _ hvs => .ok (Value.within_list.mpr hvs)
  · exact .ok (Value.within_cls.mpr (Value.within_classOf hv))
  · exact .bind_eq (h.intOf_eq hv) fun _ => h.concur_unlessRefused (Value.within_writtenInt _ _)
  · exact .bind_eq (h.textOf_eq hv) fun _ => h.concur_unlessRefused (Value.within_writtenText _ _)
  · exact .error
  · exact .error

omit h in
theorem concur_empty {b : Builtin} : Concur (·.Within ρ) (empty b) (empty b) := by
  refine ⟨rfl, fun x hx => ?_⟩
  unfold empty at hx
  split at hx
  all_goals cases hx
  all_goals first | exact Value.within_intrinsic.mpr (Intrinsic.within_of fun c => by simp) | simp

theorem concur_refuse {b : Builtin} (hs : s.Within ρ) : Concur (·.Within ρ) (w'.refuse b s) (w.refuse b s) := by
  unfold refuse
  dsimp only
  split
  all_goals try exact .error
  · rename_i base hpositional _
    rw [h.typeName_eq (hs.1 base (by simp [hpositional]))]
    exact .error
  · rename_i encoding _ hpositional _
    rw [h.typeName_eq (hs.1 encoding (by simp [hpositional]))]
    split
    · exact .error
    · exact .error

omit h in
theorem within_constructor? {b : Builtin} {method : String} {ps : List Parameter}
    (hb : constructor? b = some (method, ps)) : ∀ p ∈ ps, p.Within ρ := by
  unfold constructor? at hb
  dsimp only at hb
  split at hb
  all_goals cases hb
  all_goals simp [Parameters.required, Parameter.Within]

theorem concur_assemble {b : Builtin} (hvs : ∀ v ∈ vs, v.Within ρ) :
    Concur (·.Within ρ) (w'.assemble b vs) (w.assemble b vs) := by
  unfold assemble
  split
  · exact h.concur_unlessRefused (Value.within_box.mpr (hvs _ (by simp)))
  · rename_i k v effects
    have hv : v.Within ρ := hvs v (by simp)
    have heffects : effects.Within ρ := hvs effects (by simp)
    split
    · exact .ok (Value.within_carrier.mpr ⟨hv, Value.within_tuple.mp heffects⟩)
    · exact .ok (Value.within_carrier.mpr ⟨hv, Value.within_list.mp heffects⟩)
    · exact .ok (Value.within_carrier.mpr ⟨hv, Value.within_iterator.mp heffects⟩)
    · exact .ok (Value.within_carrier.mpr ⟨hv, List.forall_mem_singleton.mpr heffects⟩)
    · exact (h.concur_items heffects).bind fun es hes => .ok (Value.within_carrier.mpr ⟨hv, hes⟩)
  · exact h.concur_convert (hvs _ (by simp))
  · exact h.concur_convert (hvs _ (by simp))
  · exact .ok (Value.within_intrinsic.mpr (Intrinsic.within_of fun c => by simp))

theorem concur_construct (hc : c.Within ρ) (hs : s.Within ρ) :
    Concur (·.Within ρ) (w'.construct c s) (w.construct c s) := by
  unfold construct
  split
  · exact h.concur_instantiate hc hs
  · rw [h.outside_eq]
    exact h.outside_within.concur_call (Value.within_cls.mpr hc) hs
  · split
    · rename_i hb
      refine (Parameters.concur_bind (within_constructor? hb) hs).bind fun es hes => h.concur_assemble fun x hx => ?_
      obtain ⟨e, he, rfl⟩ := List.mem_map.mp hx
      exact hes e he
    · exact concur_empty
    · exact h.concur_convert (hs.1 _ (by simp))
    · exact h.concur_refuse hs

/-! ### Functions of the library -/

theorem concur_variantNames (hv : v.Within ρ) :
    Concur (fun vs : List Value => ∀ x ∈ vs, x.Within ρ) (w'.variantNames v) (w.variantNames v) := by
  simp only [variantNames, h.member?_eq hv]
  split
  · exact .ok fun _ hx => absurd hx List.not_mem_nil
  · rename_i hnames
    exact h.concur_items (h.within_member? hv hnames)

theorem concur_variantsOf (hv : v.Within ρ) :
    Concur (fun vs : List Value => ∀ x ∈ vs, x.Within ρ) (w'.variantsOf v) (w.variantsOf v) :=
  (h.concur_variantNames hv).bind fun _ hnames => .mapM fun name hname =>
    .bind_eq (h.textOf_eq (hnames name hname)) fun _ => h.concur_member hv

theorem requireContainer_eq (hv : v.Within ρ) : w'.requireContainer v = w.requireContainer v := by
  cases v with
  | cls c =>
    have hc := Value.within_cls.mp hv
    simp only [requireContainer, isSubclass, h.chain_eq hc, h.member?_eq hv, h.qualifiedName_eq hc]
  | _ => simp only [requireContainer, h.displayed_eq hv]

theorem concur_carrierCall {k : Carrier} {op : CarrierOp} (hvs : ∀ v ∈ vs, v.Within ρ) :
    Concur (·.Within ρ) (w'.carrierCall k op vs) (w.carrierCall k op vs) := by
  have hmark (op : CarrierOp) : ∀ e ∈ op.mark k, e.Within ρ := by
    cases k <;> cases op <;> simp [CarrierOp.mark]
  have happend {op : CarrierOp} {es : List Value} (hes : ∀ e ∈ es, e.Within ρ) : ∀ e ∈ es ++ op.mark k, e.Within ρ :=
    List.forall_mem_append.mpr ⟨hes, hmark op⟩
  unfold carrierCall
  split
  · refine (h.concur_items (hvs _ (by simp))).bind fun es hes => .ok ?_
    exact Value.within_carrier.mpr ⟨hvs _ (by simp), happend hes⟩
  · refine (h.concur_items (hvs _ (by simp))).bind fun es hes => .ok ?_
    exact Value.within_carrier.mpr ⟨hvs _ (by simp), happend hes⟩
  · refine (h.concur_member (hvs _ (by simp))).bind fun content hcontent => ?_
    refine (h.concur_member (hvs _ (by simp))).bind fun effects heffects => ?_
    refine (h.concur_items heffects).bind fun es hes => .ok ?_
    refine Value.within_tuple.mpr (List.forall_mem_cons.mpr ⟨hcontent, List.forall_mem_singleton.mpr ?_⟩)
    exact Value.within_iterator.mpr (happend hes)
  · exact .error

omit h

mutual

theorem instanceTest_eq (h : w.Same ρ w') (hv : v.Within ρ) : ∀ test : Value, w'.instanceTest v test = w.instanceTest v test
  | .cls _ => congrArg Except.ok (h.isInstance_eq hv)
  | .tuple cs => instanceTestAny_eq h hv cs
  | .none | .bool _ | .int _ | .float _ | .text _ | .writtenInt _ _ | .writtenText _ _ | .box _ _ | .carrier _ _ _ | .record _ _
  | .bare _ | .function _ | .module _ | .registry _ | .list _ | .iterator _ _ | .feature _ | .intrinsic _ => rfl

theorem instanceTestAny_eq (h : w.Same ρ w') (hv : v.Within ρ) :
    ∀ cs : List Value, w'.instanceTestAny v cs = w.instanceTestAny v cs
  | [] => rfl
  | c :: cs => by
    have hrest := instanceTestAny_eq h hv cs
    change (do if ← w'.instanceTest v c then return true else w'.instanceTestAny v cs) = _
    rw [instanceTest_eq h hv c, hrest]
    rfl

end

include h

theorem concur_apply {f : BuiltinFunction} (hvs : ∀ v ∈ vs, v.Within ρ) :
    Concur (·.Within ρ) (w'.apply f vs) (w.apply f vs) := by
  unfold apply
  split
  · exact .bind_eq (h.requireContainer_eq (hvs _ (by simp))) fun _ => .ok (hvs _ (by simp))
  · exact (h.concur_variantsOf (hvs _ (by simp))).bind fun names hnames => .ok (Value.within_tuple.mpr hnames)
  · exact .ok (Value.within_intrinsic.mpr (Intrinsic.within_of fun c => by simp))
  · exact .ok (Value.within_intrinsic.mpr (Intrinsic.within_of fun c => by simp))
  · exact .ok (Value.within_intrinsic.mpr (Intrinsic.within_of fun c => by simp))
  · exact .error
  · exact (h.concur_member (hvs _ (by simp))).bind fun _ _ => .error
  · exact h.concur_carrierCall hvs
  · exact .ok Value.within_none
  · exact .error

omit h in
theorem within_parameters? {f : BuiltinFunction} {ofClass : Bool} {ps : List Parameter}
    (hf : f.parameters? = some (ofClass, ps)) : ∀ p ∈ ps, p.Within ρ := by
  unfold BuiltinFunction.parameters? at hf
  split at hf
  all_goals cases hf
  all_goals simp [Parameters.required, Parameter.Within]

theorem concur_builtinCall {f : BuiltinFunction} (hs : s.Within ρ) :
    Concur (·.Within ρ) (w'.builtinCall f s) (w.builtinCall f s) := by
  unfold builtinCall
  split
  · exact .bind_eq (instanceTest_eq h (hs.1 _ (by simp)) _) fun _ => .ok (Value.within_bool _)
  · exact ⟨rfl, fun x hx => by unfold wrongCount at hx; dsimp only at hx; split at hx <;> cases hx⟩
  · exact .ok (hs.1 _ (by simp))
  · exact ⟨rfl, fun x hx => by unfold wrongCount at hx; dsimp only at hx; split at hx <;> cases hx⟩
  · refine (Parameters.concur_bind (within_parameters? ‹_ = some (_, _)›) hs).bind fun es hes => h.concur_apply fun x hx => ?_
    obtain ⟨e, he, rfl⟩ := List.mem_map.mp hx
    exact hes e he
  · exact h.concur_apply hs.1

theorem concur_react {i : Intrinsic} (hi : i.Within ρ) (hs : s.Within ρ) :
    Concur (·.Within ρ) (w'.react i s) (w.react i s) := by
  have houtside {s : Supplied} (hs : s.Within ρ) :
      Concur (·.Within ρ) (w'.outside.call (.intrinsic i) s) (w.outside.call (.intrinsic i) s) := by
    rw [h.outside_eq]
    exact h.outside_within.concur_call (Value.within_intrinsic.mpr hi) hs
  unfold react
  split
  · exact .error
  · rename_i hreaction
    exact h.concur_construct (hi _ hreaction) hs
  · exact .error
  · exact .ok Value.within_none
  · exact .bind_eq (h.displayed_eq (hs.1 _ List.mem_cons_self)) fun _ => .ok (Value.within_text _)
  · exact houtside hs
  · rw [h.typeName_eq (hs.1 _ List.mem_cons_self)]
    exact .error
  · exact houtside hs

end World.Same

end UnionBridge
