import UnionBridge.Proofs.Value.Exact

/-! Equality of values is symmetric and transitive. It is not reflexive: some values equal nothing, not even
themselves. -/
namespace UnionBridge.Value

variable {a b : Value} {as es : List Value} {fs : List (String × Value)} {m : Number} {s : String} {k : Nat}

/-! ### What a value of each form equals -/

theorem equal_box_iff {name : String} : (box name a).equal b ↔ ∃ c, b = .box name c ∧ a.equal c := by
  cases b with
  | box other b =>
    rw [equal, Bool.and_eq_true, decide_eq_true_eq]
    exact ⟨fun ⟨hname, h⟩ => ⟨b, by rw [hname], h⟩, by rintro ⟨_, ⟨rfl⟩, h⟩; exact ⟨rfl, h⟩⟩
  | _ => exact iff_of_false Bool.false_ne_true fun ⟨_, h, _⟩ => nomatch h

theorem equal_effectful_iff : (carrier .effectful a es).equal b ↔
    ∃ c cs, b = .carrier .effectful c cs ∧ a.equal c ∧ equalList es cs := by
  cases b with
  | carrier k b bs =>
    cases k with
    | effectful =>
      have hparts : (carrier .effectful a es).equal (carrier .effectful b bs) = (a.equal b && equalList es bs) := rfl
      rw [hparts, Bool.and_eq_true]
      exact ⟨fun h => ⟨b, bs, rfl, h⟩, by rintro ⟨_, _, ⟨rfl⟩, h⟩; exact h⟩
    | _ => exact iff_of_false Bool.false_ne_true fun ⟨_, _, h, _⟩ => nomatch h
  | _ => exact iff_of_false Bool.false_ne_true fun ⟨_, _, h, _⟩ => nomatch h

theorem equal_record_iff : (record k fs).equal b ↔ ∃ gs, b = .record k gs ∧ equalFields fs gs := by
  cases b with
  | record l gs =>
    have hparts : (record k fs).equal (record l gs) = (decide (k = l) && equalFields fs gs) := rfl
    rw [hparts, Bool.and_eq_true, decide_eq_true_iff]
    exact ⟨fun ⟨h, hs⟩ => ⟨gs, h ▸ rfl, hs⟩, by rintro ⟨_, ⟨rfl⟩, h⟩; exact ⟨rfl, h⟩⟩
  | _ => exact iff_of_false Bool.false_ne_true fun ⟨_, h, _⟩ => nomatch h

theorem equal_tuple_iff : (tuple as).equal b ↔ ∃ bs, b = .tuple bs ∧ equalList as bs := by
  cases b with
  | tuple bs => exact ⟨fun h => ⟨bs, rfl, h⟩, by rintro ⟨_, ⟨rfl⟩, h⟩; exact h⟩
  | _ => exact iff_of_false Bool.false_ne_true fun ⟨_, h, _⟩ => nomatch h

theorem equal_list_iff : (list as).equal b ↔ ∃ bs, b = .list bs ∧ equalList as bs := by
  cases b with
  | list bs => exact ⟨fun h => ⟨bs, rfl, h⟩, by rintro ⟨_, ⟨rfl⟩, h⟩; exact h⟩
  | _ => exact iff_of_false Bool.false_ne_true fun ⟨_, h, _⟩ => nomatch h

/-- The values that equal themselves and nothing else. -/
def isItself : Value → Bool
  | .none | .cls _ | .function _ | .module _ | .registry _ | .feature _ | .intrinsic _ => true
  | _ => false

theorem eq_of_equal (ha : a.isItself) (h : a.equal b) : b = a := by
  cases a with
  | none =>
    cases b with
    | none => rfl
    | _ => exact (Bool.false_ne_true h).elim
  | cls _ | function _ | module _ | registry _ | feature _ | intrinsic _ =>
    cases b <;> first | exact (Bool.false_ne_true h).elim | rw [of_decide_eq_true h]
  | _ => cases ha

/-- Equality of values that are not of one form with content. -/
def equalAtoms (a b : Value) : Bool :=
  match a.asNumber?, b.asNumber? with
  | some m, some n => m.compare? n = some .eq
  | _, _ =>
    match a.asText?, b.asText? with
    | some s, some t => s = t
    | _, _ => false

theorem equal_number_iff (ha : a.asNumber? = some m) :
    a.equal b ↔ ∃ n, b.asNumber? = some n ∧ m.compare? n = some .eq := by
  have hatoms : a.equal b = equalAtoms a b := by cases a <;> first | rfl | cases ha
  have htext : a.asText? = Option.none := by cases a <;> first | rfl | cases ha
  rw [hatoms, equalAtoms, ha, htext]
  cases b.asNumber? <;> simp

theorem equal_text_iff (ha : a.asText? = some s) : a.equal b ↔ b.asText? = some s := by
  have hatoms : a.equal b = equalAtoms a b := by cases a <;> first | rfl | cases ha
  have hnumber : a.asNumber? = Option.none := by cases a <;> first | rfl | cases ha
  rw [hatoms, equalAtoms, ha, hnumber]
  cases b.asText? <;> simp [eq_comm]

/-! ### The laws -/

mutual

theorem equal_symm {a b : Value} (h : a.equal b) : b.equal a := by
  match a with
  | .box _ a =>
    obtain ⟨b, rfl, hab⟩ := equal_box_iff.mp h
    exact equal_box_iff.mpr ⟨a, rfl, equal_symm hab⟩
  | .carrier .effectful a es =>
    obtain ⟨b, fs, rfl, hab, hes⟩ := equal_effectful_iff.mp h
    exact equal_effectful_iff.mpr ⟨a, es, rfl, equal_symm hab, equalList_symm hes⟩
  | .record c fs =>
    obtain ⟨gs, rfl, hfs⟩ := equal_record_iff.mp h
    exact equal_record_iff.mpr ⟨fs, rfl, equalFields_symm hfs⟩
  | .tuple as =>
    obtain ⟨bs, rfl, has⟩ := equal_tuple_iff.mp h
    exact equal_tuple_iff.mpr ⟨as, rfl, equalList_symm has⟩
  | .list as =>
    obtain ⟨bs, rfl, has⟩ := equal_list_iff.mp h
    exact equal_list_iff.mpr ⟨as, rfl, equalList_symm has⟩
  | .bool _ | .int _ | .float _ | .writtenInt _ _ =>
    obtain ⟨n, hb, hab⟩ := (equal_number_iff rfl).mp h
    exact (equal_number_iff hb).mpr ⟨_, rfl, Number.compare?_eq_symm hab⟩
  | .text _ | .writtenText _ _ => exact (equal_text_iff ((equal_text_iff rfl).mp h)).mpr rfl
  | .none | .cls _ | .function _ | .module _ | .registry _ | .feature _ | .intrinsic _ =>
    obtain rfl := eq_of_equal rfl h
    exact h
  | .carrier (.written _) _ _ | .bare _ | .iterator _ _ => exact (Bool.false_ne_true h).elim

theorem equalList_symm {as bs : List Value} (h : equalList as bs) : equalList bs as := by
  match as, bs with
  | [], [] => exact h
  | a :: as, b :: bs =>
    rw [equalList, Bool.and_eq_true] at h ⊢
    exact ⟨equal_symm h.1, equalList_symm h.2⟩

theorem equalFields_symm {fs gs : List (String × Value)} (h : equalFields fs gs) : equalFields gs fs := by
  match fs, gs with
  | [], [] => exact h
  | (_, a) :: fs, (_, b) :: gs =>
    rw [equalFields, Bool.and_eq_true] at h ⊢
    exact ⟨equal_symm h.1, equalFields_symm h.2⟩

end

mutual

theorem equal_trans {a b c : Value} (hab : a.equal b) (hbc : b.equal c) : a.equal c := by
  match a with
  | .box _ a =>
    obtain ⟨b, rfl, hcontent⟩ := equal_box_iff.mp hab
    obtain ⟨c, rfl, hnext⟩ := equal_box_iff.mp hbc
    exact equal_box_iff.mpr ⟨c, rfl, equal_trans hcontent hnext⟩
  | .carrier .effectful a es =>
    obtain ⟨b, fs, rfl, hab, hes⟩ := equal_effectful_iff.mp hab
    obtain ⟨c, gs, rfl, hbc, hfs⟩ := equal_effectful_iff.mp hbc
    exact equal_effectful_iff.mpr ⟨c, gs, rfl, equal_trans hab hbc, equalList_trans hes hfs⟩
  | .record _ fs =>
    obtain ⟨gs, rfl, hfs⟩ := equal_record_iff.mp hab
    obtain ⟨hs, rfl, hgs⟩ := equal_record_iff.mp hbc
    exact equal_record_iff.mpr ⟨hs, rfl, equalFields_trans hfs hgs⟩
  | .tuple as =>
    obtain ⟨bs, rfl, has⟩ := equal_tuple_iff.mp hab
    obtain ⟨cs, rfl, hbs⟩ := equal_tuple_iff.mp hbc
    exact equal_tuple_iff.mpr ⟨cs, rfl, equalList_trans has hbs⟩
  | .list as =>
    obtain ⟨bs, rfl, has⟩ := equal_list_iff.mp hab
    obtain ⟨cs, rfl, hbs⟩ := equal_list_iff.mp hbc
    exact equal_list_iff.mpr ⟨cs, rfl, equalList_trans has hbs⟩
  | .bool _ | .int _ | .float _ | .writtenInt _ _ =>
    obtain ⟨n, hb, hmn⟩ := (equal_number_iff rfl).mp hab
    obtain ⟨p, hc, hnp⟩ := (equal_number_iff hb).mp hbc
    exact (equal_number_iff rfl).mpr ⟨p, hc, Number.compare?_eq_trans hmn hnp⟩
  | .text _ | .writtenText _ _ =>
    have hb := (equal_text_iff rfl).mp hab
    exact (equal_text_iff rfl).mpr ((equal_text_iff hb).mp hbc)
  | .none | .cls _ | .function _ | .module _ | .registry _ | .feature _ | .intrinsic _ =>
    obtain rfl := eq_of_equal rfl hab
    exact hbc
  | .carrier (.written _) _ _ | .bare _ | .iterator _ _ => exact (Bool.false_ne_true hab).elim

theorem equalList_trans {as bs cs : List Value} (h : equalList as bs) (h' : equalList bs cs) : equalList as cs := by
  match as, bs, cs with
  | [], [], [] => exact h
  | a :: as, b :: bs, c :: cs =>
    rw [equalList, Bool.and_eq_true] at h h' ⊢
    exact ⟨equal_trans h.1 h'.1, equalList_trans h.2 h'.2⟩

theorem equalFields_trans {fs gs hs : List (String × Value)} (h : equalFields fs gs) (h' : equalFields gs hs) :
    equalFields fs hs := by
  match fs, gs, hs with
  | [], [], [] => exact h
  | (_, a) :: fs, (_, b) :: gs, (_, c) :: hs =>
    rw [equalFields, Bool.and_eq_true] at h h' ⊢
    exact ⟨equal_trans h.1 h'.1, equalFields_trans h.2 h'.2⟩

end

theorem equal_itself_iff (ha : a.isItself) : a.equal b ↔ b = a := by
  refine ⟨eq_of_equal ha, ?_⟩
  rintro rfl
  cases b with
  | none => rfl
  | cls _ | function _ | module _ | registry _ | feature _ | intrinsic _ => exact decide_eq_true rfl
  | _ => cases ha

theorem equal_iff_itself (ha : a.isItself) : b.equal a ↔ b = a :=
  ⟨fun h => eq_of_equal ha (equal_symm h), fun h => equal_symm ((equal_itself_iff ha).mpr h)⟩

end UnionBridge.Value
