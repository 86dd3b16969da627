import UnionBridge.Proofs.Region.Operator
import UnionBridge.World.Attach

/-! Attributes in a region of two worlds. -/
namespace UnionBridge

variable {ρ : Region} {w w' : World} {c d : ClassRef} {v x : Value} {name reader : String}

/-! ### What the library and the language provide -/

theorem Intrinsic.within_dictionary {text : String} {filled : Bool} : (Intrinsic.dictionary text filled).Within ρ :=
  within_of fun c hc => by cases hc

theorem Intrinsic.within_builtinMethod {cls : String} : (builtinMethod cls name).Within ρ := by
  refine within_of fun c => ?_
  simp only [builtinMethod]
  split
  · simp
  · split <;> simp

theorem Intrinsic.within_unbound {owner : Builtin} {cls : String} {p : Provision} : (unbound owner cls name p).Within ρ := by
  cases p with
  | operator =>
    refine within_of fun c => ?_
    simp only [unbound]
    split_ifs <;> simp
  | shared => exact within_builtinMethod
  | _ => exact within_of fun c => by simp [unbound]

theorem Intrinsic.within_bound {owner : Builtin} {cls : String} {p : Provision} : (bound owner cls name p).Within ρ := by
  cases p with
  | operator =>
    refine within_of fun c => ?_
    simp only [bound]
    split <;> simp
  | method => exact within_builtinMethod
  | function => exact within_of fun c => by simp [bound]
  | _ => exact within_unbound

theorem Builtin.within_operation? {b : Builtin} (h : b.operation? name = some v) : v.Within ρ := by
  unfold Builtin.operation? at h
  split at h
  · obtain ⟨op, _, rfl⟩ := Option.map_eq_some_iff.mp h
    simp
  · obtain ⟨op, _, rfl⟩ := Option.map_eq_some_iff.mp h
    simp
  · obtain ⟨op, _, rfl⟩ := Option.map_eq_some_iff.mp h
    cases op <;> simp
  · cases h

theorem Value.within_classes {cs : List ClassRef} (hcs : ∀ d ∈ cs, d.Within ρ) : (Value.tuple (cs.map .cls)).Within ρ := by
  refine Value.within_tuple.mpr fun x hx => ?_
  obtain ⟨d, hd, rfl⟩ := List.mem_map.mp hx
  exact Value.within_cls.mpr (hcs d hd)

namespace Library

theorem within_modules : ∀ m ∈ modules, ∀ e ∈ m.2, e.2.Within ρ := by
  have hfeatures : ∀ e ∈ Feature.names.map fun name => (name, Value.feature name), e.2.Within ρ := by
    intro e he
    obtain ⟨name, _, rfl⟩ := List.mem_map.mp he
    exact Value.within_feature name
  have hnone : ∀ e ∈ ([] : List (String × Value)), e.2.Within ρ := fun _ he => absurd he List.not_mem_nil
  simp only [modules, conversionNames, effectNames, unionNames, submodule, List.forall_mem_cons, List.forall_mem_append,
    Value.within_text, Value.within_module, ModuleRef.within_library, Value.within_cls, ClassRef.within_builtin,
    Value.within_function, FunctionRef.within_builtin, Value.within_registry, true_and]
  exact ⟨hnone, ⟨⟨⟨hnone, hnone⟩, hnone⟩, hnone⟩, hnone, hnone, hnone, hnone, hfeatures, fun _ hm => absurd hm List.not_mem_nil⟩

theorem within_attribute? {path : String} (h : attribute? path name = some v) : v.Within ρ := by
  unfold attribute? at h
  split at h
  · rename_i found
    cases h
    obtain ⟨m, hm, hfound⟩ := Option.bind_eq_some_iff.mp found
    obtain ⟨e, he, rfl⟩ := Option.map_eq_some_iff.mp hfound
    exact within_modules m (List.mem_of_find?_eq_some hm) e (List.mem_of_find?_eq_some he)
  · split at h
    · cases h
      refine Value.within_list.mpr fun x hx => ?_
      obtain ⟨s, _, rfl⟩ := List.mem_map.mp hx
      exact Value.within_text s
    · unfold commonAttribute? at h
      split at h
      · cases h
        simp
      · cases h
        simp
      · cases h
        simp
      · cases h
        simp
      · cases h
        simp
      · split at h
        · cases h
          simp
        · cases h
      · cases h
        exact Value.within_intrinsic.mpr Intrinsic.within_dictionary
      · cases h
        exact Value.within_intrinsic.mpr (Intrinsic.within_of fun c => by simp)
      · cases h
        exact Value.within_intrinsic.mpr (Intrinsic.within_of fun c => by simp)
      · cases h

end Library

namespace World.Same

variable (h : w.Same ρ w')
include h

/-! ### Classes -/

theorem ownAttribute?_eq (hc : c.Within ρ) : w'.ownAttribute? reader name c = w.ownAttribute? reader name c := by
  cases c with
  | builtin b => simp only [ownAttribute?, h.outside_eq]
  | declared id => simp only [ownAttribute?, h.class?_eq hc]

omit h in
theorem within_ownAttribute?_builtin {b : Builtin} (ho : w.outside.Within ρ)
    (ha : w.ownAttribute? reader name (.builtin b) = some v) : v.Within ρ := by
  simp only [ownAttribute?] at ha
  split at ha
  · rename_i hoperation
    cases ha
    exact Builtin.within_operation? hoperation
  · cases ha
    exact Value.within_intrinsic.mpr Intrinsic.within_unbound
  · cases ha
    split <;> simp
  · split at ha
    · cases ha
    · cases ha
      simp
  · split at ha
    · cases ha
      simp
    · cases ha
  · split at ha
    · exact ho.attributes _ _ _ (Value.within_cls.mpr (ClassRef.within_builtin _)) ha
    · cases ha

theorem within_ownAttribute? (hc : c.Within ρ) (ha : w.ownAttribute? reader name c = some v) : v.Within ρ := by
  cases c with
  | builtin b => exact within_ownAttribute?_builtin h.outside_within ha
  | declared id =>
    obtain ⟨decl, hdecl, hget⟩ := Option.bind_eq_some_iff.mp ha
    exact (h.within_class? hc hdecl).attributes _ _ hget

theorem inherited?_eq (hc : c.Within ρ) : w'.inherited? c name = w.inherited? c name := by
  rw [inherited?, inherited?, h.chain_eq hc, h.qualifiedName_eq hc]
  exact findSome?_congr fun d hd => h.ownAttribute?_eq (h.within_chain hc d hd)

theorem within_inherited? (hc : c.Within ρ) (hv : w.inherited? c name = some v) : v.Within ρ := by
  obtain ⟨d, hd, ha⟩ := List.exists_of_findSome?_eq_some hv
  exact h.within_ownAttribute? (h.within_chain hc d hd) ha

theorem bases_eq (hc : c.Within ρ) : w'.bases c = w.bases c := by
  cases c with
  | builtin b => cases b <;> rfl
  | declared id => simp only [World.bases, h.class?_eq hc]

theorem within_bases (hc : c.Within ρ) : ∀ d ∈ w.bases c, d.Within ρ := by
  intro d hd
  cases c with
  | builtin b => cases b <;> simp_all [World.bases]
  | declared id =>
    cases hclass : w.class? (.declared id) with
    | none => simp [World.bases, hclass] at hd
    | some decl =>
      simp only [World.bases, hclass, Option.elim_some] at hd
      exact (h.within_class? hc hclass).bases d hd

theorem isOpen_eq (hc : c.Within ρ) : w'.isOpen c = w.isOpen c := by
  rw [isOpen, isOpen, h.chain_eq hc]
  refine Bool.eq_iff_iff.mpr ?_
  rw [List.any_eq_true, List.any_eq_true]
  exact exists_congr fun d => and_congr_right fun hd => by rw [h.class?_eq (h.within_chain hc d hd)]

theorem layout_eq (hc : c.Within ρ) : w'.layout c name = w.layout c name := by
  simp only [layout, h.isOpen_eq hc]

theorem classData?_eq (hc : c.Within ρ) : w'.classData? c name = w.classData? c name := by
  unfold classData?
  simp only [h.className_eq hc, h.qualifiedName_eq hc, h.bases_eq hc, h.chain_eq hc, h.ownAttribute?_eq hc, h.layout_eq hc]

theorem within_classData? (hc : c.Within ρ) (hv : w.classData? c name = some v) : v.Within ρ := by
  unfold classData? at hv
  split at hv
  · cases hv
    cases c <;> simp
  · cases hv
    simp
  · cases hv
    simp
  · cases hv
    exact Value.within_classes (h.within_bases hc)
  · cases hv
    cases hb : w.bases c with
    | nil => simp
    | cons d ds => exact Value.within_cls.mpr (h.within_bases hc d (hb ▸ List.mem_cons_self))
  · cases hv
    exact Value.within_classes (h.within_chain hc)
  · cases hv
    exact Value.within_intrinsic.mpr (Intrinsic.within_of fun c => by simp)
  · cases hv
    simp
  · rcases (Option.orElse_eq_some _ _ _).mp hv with hown | ⟨_, hhome⟩
    · exact h.within_ownAttribute? hc hown
    · split at hhome
      · cases hhome
        simp
      · cases hhome
  · cases hv
    cases ha : w.ownAttribute? (w.qualifiedName c) "__doc__" c with
    | none => simp
    | some v => exact h.within_ownAttribute? hc ha
  · rcases (Option.orElse_eq_some _ _ _).mp hv with hown | ⟨_, htable⟩
    · exact h.within_ownAttribute? hc hown
    · split at htable
      · cases htable
      · cases htable
        exact Value.within_intrinsic.mpr Intrinsic.within_dictionary
  all_goals cases hv
  all_goals simp

theorem fromMetaclass?_eq (hc : c.Within ρ) : w'.fromMetaclass? c name = w.fromMetaclass? c name := by
  unfold fromMetaclass?
  simp only [h.qualifiedName_eq hc]

omit h in
theorem within_fromMetaclass? (hc : c.Within ρ) (hv : w.fromMetaclass? c name = some v) : v.Within ρ := by
  unfold fromMetaclass? at hv
  split at hv
  · cases hv
    refine Value.within_intrinsic.mpr fun d hd => ?_
    cases hd
    exact hc
  · cases hv
    exact Value.within_intrinsic.mpr Intrinsic.within_bound
  · cases hv
    exact Value.within_intrinsic.mpr Intrinsic.within_bound
  · cases hv

theorem classAttribute?_eq (hc : c.Within ρ) : w'.classAttribute? c name = w.classAttribute? c name := by
  simp only [classAttribute?, h.qualifiedName_eq hc, h.ownAttribute?_eq hc, h.classData?_eq hc, h.inherited?_eq hc,
    h.fromMetaclass?_eq hc]

theorem within_classAttribute? (hc : c.Within ρ) (hv : w.classAttribute? c name = some v) : v.Within ρ := by
  rw [classAttribute?] at hv
  split at hv
  · exact h.within_ownAttribute? hc hv
  · rcases (Option.orElse_eq_some _ _ _).mp hv with hdata | ⟨_, hv⟩
    · exact h.within_classData? hc hdata
    · rcases (Option.orElse_eq_some _ _ _).mp hv with hinherited | ⟨_, hmeta⟩
      · exact h.within_inherited? hc hinherited
      · exact within_fromMetaclass? hc hmeta

/-! ### Instances, functions and modules -/

omit h in
theorem within_numberData? (hx : numberData? v name = some x) : x.Within ρ := by
  unfold numberData? at hx
  split at hx
  all_goals cases hx
  all_goals simp

theorem homeData?_eq (hv : v.Within ρ) : w'.homeData? v name = w.homeData? v name := by
  by_cases hn : name = "__module__"
  · subst hn
    cases v with
    | function f =>
      cases f with
      | builtin f => rfl
      | conversion home _ | dispatcher home _ | registrar home _ =>
        have hglobals := h.globals_eq (h.home _ home (Value.within_function.mp hv) rfl)
        exact congrArg (·.get? "__name__") hglobals
    | _ => rfl
  · unfold homeData?
    split
    all_goals first | rfl | exact absurd rfl hn

theorem within_homeData? (hv : v.Within ρ) (hx : w.homeData? v name = some x) : x.Within ρ := by
  unfold homeData? at hx
  split at hx
  · cases hx
    simp
  · cases hx
    simp
  · cases hx
    simp
  · exact h.within_globals (h.home _ _ (Value.within_function.mp hv) rfl) _ _ hx
  · exact h.within_globals (h.home _ _ (Value.within_function.mp hv) rfl) _ _ hx
  · exact h.within_globals (h.home _ _ (Value.within_function.mp hv) rfl) _ _ hx
  · cases hx
    simp
  · cases hx
    simp
  · cases hx
    simp
  · cases hx
    exact Value.within_intrinsic.mpr (Intrinsic.within_of fun c => by simp)
  · cases hx
    exact Value.within_intrinsic.mpr Intrinsic.within_dictionary
  · cases hx
    exact Value.within_intrinsic.mpr Intrinsic.within_dictionary
  · cases hx
    exact Value.within_intrinsic.mpr Intrinsic.within_dictionary
  · cases hx
    exact Value.within_intrinsic.mpr Intrinsic.within_dictionary
  · rename_i f
    cases hx
    cases f.doc? <;> simp
  · cases hx
    exact Value.within_intrinsic.mpr Intrinsic.within_dictionary
  · cases hx
    exact Value.within_intrinsic.mpr Intrinsic.within_dictionary
  · cases hx

theorem instanceData?_eq (hv : v.Within ρ) : w'.instanceData? v name = w.instanceData? v name := by
  have hhome : w'.homeData? v name = w.homeData? v name := h.homeData?_eq hv
  by_cases hn : name = "__dict__"
  · subst hn
    cases v with
    | record id fields =>
      obtain ⟨hid, hfields⟩ := Value.within_record.mp hv
      have hopen := h.isOpen_eq (ClassRef.within_declared.mpr hid)
      have hshown : ((w.displayFields fields).zip fields).map (fun e => Text.quoted e.2.1 ++ ": " ++ w'.display e.2.2) =
          ((w.displayFields fields).zip fields).map fun e => Text.quoted e.2.1 ++ ": " ++ w.display e.2.2 :=
        List.map_congr_left fun e he => by rw [h.display_eq e.2.2 (hfields _ (List.of_mem_zip he).2)]
      unfold instanceData?
      simp only [hopen, h.displayFields_eq fields hfields, hshown]
    | _ => exact congrArg (fun data => numberData? _ "__dict__" <|> data) hhome
  · unfold instanceData?
    split
    all_goals first | rfl | exact absurd rfl hn | rw [hhome]

theorem within_instanceData? (hv : v.Within ρ) (hx : w.instanceData? v name = some x) : x.Within ρ := by
  unfold instanceData? at hx
  split at hx
  · cases hx
    exact Value.within_cls.mpr (Value.within_classOf hv)
  · split at hx
    · cases hx
      exact Value.within_intrinsic.mpr Intrinsic.within_dictionary
    · cases hx
  · cases hx
    simp
  · obtain ⟨n, _, rfl⟩ := Option.map_eq_some_iff.mp hx
    simp
  · rcases (Option.orElse_eq_some _ _ _).mp hx with hnumber | ⟨_, hhome⟩
    · exact within_numberData? hnumber
    · exact h.within_homeData? hv hhome

theorem ownValue?_eq (hv : v.Within ρ) : w'.ownValue? v name = w.ownValue? v name := by
  unfold ownValue?
  split
  · rw [h.globals_eq (ModuleRef.within_loaded.mp (Value.within_module.mp hv))]
  · rw [h.outside_eq]
  · rw [h.outside_eq]
  · rfl
  · rfl
  · rfl
  · rfl
  · rfl
  · exact h.misplaced_eq _ (Value.within_function.mp hv)
  · rfl
  · rfl

theorem within_ownValue? (hv : v.Within ρ) (hx : w.ownValue? v name = some x) : x.Within ρ := by
  unfold ownValue? at hx
  split at hx
  · exact h.within_globals (ModuleRef.within_loaded.mp (Value.within_module.mp hv)) _ _ hx
  · rcases (Option.orElse_eq_some _ _ _).mp hx with hlibrary | ⟨_, houtside⟩
    · exact Library.within_attribute? hlibrary
    · exact h.outside_within.attributes _ _ _ hv houtside
  · exact h.outside_within.attributes _ _ _ hv hx
  · obtain ⟨e, he, rfl⟩ := Option.map_eq_some_iff.mp hx
    exact (Value.within_record.mp hv).2 e (List.mem_of_find?_eq_some he)
  · cases hx
    exact (Value.within_carrier.mp hv).1
  · cases hx
    exact Value.within_tuple.mpr (Value.within_carrier.mp hv).2
  · cases hx
    exact Value.within_list.mpr (Value.within_carrier.mp hv).2
  · cases hx
    exact Value.within_box.mp hv
  · exact h.misplaced_within _ _ (Value.within_function.mp hv) hx
  · cases hx
    exact Value.within_intrinsic.mpr Intrinsic.within_dictionary
  · cases hx

theorem fromClass?_eq (hv : v.Within ρ) : w'.fromClass? v name = w.fromClass? v name := by
  have hc := Value.within_classOf hv
  simp only [fromClass?, h.chain_eq hc, h.qualifiedName_eq hc, h.display_eq v hv]
  refine findSome?_congr fun d hd => ?_
  have hown : w'.ownAttribute? (w.qualifiedName v.classOf) name d = w.ownAttribute? (w.qualifiedName v.classOf) name d :=
    h.ownAttribute?_eq (h.within_chain hc d hd)
  cases d with
  | builtin b => simp only [hown]
  | declared id => simp only [hown]

/-- A function that is bound to an instance leads nowhere else. -/
theorem within_fromClass? (hv : v.Within ρ) (hx : w.fromClass? v name = some x) : x.Within ρ := by
  have hc := Value.within_classOf hv
  obtain ⟨d, hd, hx⟩ := List.exists_of_findSome?_eq_some hx
  have hd := h.within_chain hc d hd
  cases d with
  | builtin b =>
    simp only at hx
    split at hx
    · cases hx
      exact Value.within_intrinsic.mpr Intrinsic.within_bound
    · exact h.within_ownAttribute? hd hx
  | declared id =>
    obtain ⟨a, ha, rfl⟩ := Option.map_eq_some_iff.mp hx
    have ha := h.within_ownAttribute? hd ha
    split
    · rename_i i
      split
      · exact Value.within_intrinsic.mpr (Value.within_intrinsic.mp ha)
      · exact ha
    · exact ha

theorem member?_eq (hv : v.Within ρ) : w'.member? v name = w.member? v name := by
  cases v with
  | cls c => exact h.classAttribute?_eq (Value.within_cls.mp hv)
  | _ => simp only [member?, h.instanceData?_eq hv, h.ownValue?_eq hv, h.fromClass?_eq hv]

theorem within_member? (hv : v.Within ρ) (hx : w.member? v name = some x) : x.Within ρ := by
  have hinstance (hx : ((w.instanceData? v name) <|> (w.ownValue? v name) <|> w.fromClass? v name) = some x) :
      x.Within ρ := by
    rcases (Option.orElse_eq_some _ _ _).mp hx with hdata | ⟨_, hx⟩
    · exact h.within_instanceData? hv hdata
    · rcases (Option.orElse_eq_some _ _ _).mp hx with hown | ⟨_, hclass⟩
      · exact h.within_ownValue? hv hown
      · exact h.within_fromClass? hv hclass
  cases v with
  | cls c => exact h.within_classAttribute? (Value.within_cls.mp hv) hx
  | _ => exact hinstance hx

theorem ownerText_eq (hv : v.Within ρ) : w'.ownerText v = w.ownerText v := by
  unfold ownerText
  split
  · rw [h.moduleLabel?_eq (Value.within_module.mp hv)]
  · rw [h.className_eq (Value.within_cls.mp hv)]
  · rw [h.typeName_eq hv]

theorem concur_member (hv : v.Within ρ) : Concur (·.Within ρ) (w'.member v name) (w.member v name) := by
  have hname : ∀ x ∈ [Value.text name], x.Within ρ := List.forall_mem_singleton.mpr (Value.within_text name)
  simp only [member, h.overridden?_eq hv hname, h.member?_eq hv, h.ownerText_eq hv]
  split
  · rename_i hresult
    exact h.concur_overridden? hv hname hresult
  · split
    · rename_i hfound
      exact .ok (h.within_member? hv hfound)
    · rename_i hresult
      exact h.concur_overridden? hv hname hresult
    · exact .error
    · exact .error

theorem concur_memberPath {names : List String} (hv : v.Within ρ) :
    Concur (·.Within ρ) (w'.memberPath v names) (w.memberPath v names) :=
  .foldlM hv fun _ ha _ _ => h.concur_member ha

end World.Same

end UnionBridge
