import UnionBridge.Proofs.Mapping.Added

/-! Unions that mirror each other: pairs with the same variants, of which each is converted to the other. -/
namespace UnionBridge

variable {pairs : List (Union × Union)} {a b u u' : Union} {v : Variant} {t t' : DottedName} {S : DottedName}
  {file doc : Option String} {source : String} {s : Schema}

/-- Two unions of a list of pairs, in either order. -/
def Partners (pairs : List (Union × Union)) (a b : Union) : Prop := (a, b) ∈ pairs ∨ (b, a) ∈ pairs

theorem Partners.symm (h : Partners pairs a b) : Partners pairs b a := Or.symm h

/-- What a type is in the mirror: the partner, if it is one of the unions, and else the same. -/
inductive TypeMirrors (pairs : List (Union × Union)) : DottedName → DottedName → Prop
  | union {a b : Union} (h : Partners pairs a b) : TypeMirrors pairs (.ofName a.name) (.ofName b.name)
  | other {t : DottedName} (h : ∀ a b, Partners pairs a b → t ≠ .ofName a.name) : TypeMirrors pairs t t

theorem TypeMirrors.symm (h : TypeMirrors pairs t t') : TypeMirrors pairs t' t := by
  cases h with
  | union h => exact .union h.symm
  | other h => exact .other h

/-- Two unions that are converted from each other, on their own, make a list of one pair. -/
theorem partners_singleton : Partners [(a, b)] u u' ↔ u = a ∧ u' = b ∨ u = b ∧ u' = a := by
  simp only [Partners, List.mem_singleton, Prod.mk.injEq]
  tauto

theorem typeMirrors_iff : TypeMirrors pairs t t' ↔
    (∃ p ∈ pairs, t = .ofName p.1.name ∧ t' = .ofName p.2.name ∨ t = .ofName p.2.name ∧ t' = .ofName p.1.name) ∨
      t = t' ∧ ∀ p ∈ pairs, t ≠ .ofName p.1.name ∧ t ≠ .ofName p.2.name := by
  constructor
  · intro h
    cases h with
    | union h =>
      rcases h with h | h
      · exact .inl ⟨_, h, .inl ⟨rfl, rfl⟩⟩
      · exact .inl ⟨_, h, .inr ⟨rfl, rfl⟩⟩
    | other h => exact .inr ⟨rfl, fun p hp => ⟨h p.1 p.2 (.inl hp), h p.2 p.1 (.inr hp)⟩⟩
  · rintro (⟨p, hp, ⟨rfl, rfl⟩ | ⟨rfl, rfl⟩⟩ | ⟨rfl, h⟩)
    · exact .union (.inl hp)
    · exact .union (.inr hp)
    · exact .other fun a b hab => hab.elim (fun hp => (h _ hp).1) fun hp => (h _ hp).2

instance : Decidable (TypeMirrors pairs t t') := decidable_of_iff' _ typeMirrors_iff

/-- A union is converted from another one, without a container and without directives on its variants, and the other one
has a variant of the same name for each variant, with a field of the same name for each field. -/
@[mk_iff]
structure Union.Mirrors (pairs : List (Union × Union)) (a b : Union) : Prop where
  sources : a.sources = [.ofName b.name]
  container : a.container? = none
  bare : ∀ v ∈ a.variants, v.directives = []
  variants : ∀ v ∈ a.variants, ∃ v' ∈ b.variants, v'.name = v.name ∧
    ∀ f ∈ v.body.fields, ∃ f' ∈ v'.body.fields, f'.attr = f.attr ∧ TypeMirrors pairs f.type f'.type

instance : Decidable (a.Mirrors pairs b) := decidable_of_iff' _ (Union.mirrors_iff pairs a b)

/-- The unions of each pair are declared, and mirror each other. -/
def Schema.Mirrored (s : Schema) (pairs : List (Union × Union)) : Prop :=
  ∀ a b, Partners pairs a b → a ∈ s.unions ∧ a.Mirrors pairs b

theorem Schema.mirrored_iff : s.Mirrored pairs ↔ ∀ p ∈ pairs, (p.1 ∈ s.unions ∧ p.1.Mirrors pairs p.2) ∧
    p.2 ∈ s.unions ∧ p.2.Mirrors pairs p.1 := by
  constructor
  · intro h p hp
    exact ⟨h p.1 p.2 (.inl hp), h p.2 p.1 (.inr hp)⟩
  · rintro h a b (hp | hp)
    · exact (h _ hp).1
    · exact (h _ hp).2

instance : Decidable (s.Mirrored pairs) := decidable_of_iff' _ Schema.mirrored_iff

/-- The mirror of the name of a union is the name of a partner. -/
theorem Schema.Mirrored.exists_partner (h : s.Mirrored pairs) (hn : (s.unions.map (·.name)).Nodup)
    (hp : Partners pairs a u) (hm : TypeMirrors pairs (.ofName a.name) t') :
    ∃ b, Partners pairs a b ∧ t' = .ofName b.name := by
  generalize ht : DottedName.ofName a.name = t at hm
  cases hm with
  | @union a' b hp' =>
    have hname : a'.name = a.name := by simpa [DottedName.ofName] using ht.symm
    obtain rfl : a' = a := List.inj_on_of_nodup_map hn (h a' b hp').1 (h a u hp).1 hname
    exact ⟨b, hp', rfl⟩
  | other hother => exact absurd ht.symm (hother a u hp)

/-! ### Candidates -/

/-- Of variants with different names, one that has no directives is the only one that claims its own name. -/
theorem flatMap_claimCount {es : List (Target × Variant)} {e : Target × Variant} (he : e ∈ es)
    (hn : (es.map fun e => e.2.name).Nodup) (hbare : ∀ e ∈ es, e.2.directives = []) (S : DottedName) :
    (es.flatMap fun e' => List.replicate (e'.2.claimCount S e.2.name) (⟨e.2.name, e'.1⟩ : Candidate)) =
      [⟨e.2.name, e.1⟩] := by
  have hcount : ∀ e' ∈ es, e'.2.claimCount S e.2.name = if e'.2.name = e.2.name then 1 else 0 := by
    intro e' he'
    rw [Variant.claimCount, hbare e' he']
    rfl
  induction es with
  | nil => cases he
  | cons e₁ es ih =>
    rw [List.map_cons, List.nodup_cons] at hn
    rw [List.flatMap_cons, hcount e₁ List.mem_cons_self]
    rcases List.mem_cons.mp he with rfl | he
    · have hnone : (es.flatMap fun e' => List.replicate (e'.2.claimCount S e.2.name) (⟨e.2.name, e'.1⟩ : Candidate)) =
          [] := by
        rw [List.flatMap_eq_nil_iff]
        intro e' he'
        have hne : e'.2.name ≠ e.2.name := fun heq => hn.1 (heq ▸ List.mem_map_of_mem (f := fun e => e.2.name) he')
        rw [hcount e' (List.mem_cons_of_mem _ he'), if_neg hne, List.replicate_zero]
      rw [hnone]
      simp
    · have hne : e₁.2.name ≠ e.2.name := fun heq => hn.1 (heq ▸ List.mem_map_of_mem (f := fun e => e.2.name) he)
      rw [if_neg hne, ih he hn.2 (fun e he => hbare e (List.mem_cons_of_mem _ he))
        fun e he => hcount e (List.mem_cons_of_mem _ he)]
      rfl

/-- The only candidate for the case of a variant is the variant, where none has directives. -/
theorem Mapping.exists_asked_eq (hn : (u.variants.map (·.name)).Nodup) (hbare : ∀ v ∈ u.variants, v.directives = [])
    (hv : v ∈ u.variants) (S : DottedName) :
    ∃ target : Target, target.name = v.name ∧ target.body = v.body ∧
      asked u file S v.name = [⟨v.name, target⟩] := by
  have hlen : (u.targets file).length = u.variants.length := by simp [Union.targets]
  have hvariants : (targetVariants u file).map Prod.snd = u.variants := List.map_snd_zip (by omega)
  obtain ⟨⟨target, v'⟩, he, rfl⟩ := List.mem_map.mp (hvariants ▸ hv)
  obtain ⟨i, hi⟩ := List.getElem?_of_mem he
  obtain ⟨_, _, htarget⟩ := index_targetVariants hi
  simp only at htarget
  refine ⟨target, by rw [htarget], by rw [htarget], ?_⟩
  refine flatMap_claimCount he ?_ (fun e he => hbare e.2 (hvariants ▸ List.mem_map_of_mem he)) S
  have hnames : (targetVariants u file).map (fun e => e.2.name) = u.variants.map (·.name) := by
    rw [← hvariants, List.map_map]
    rfl
  rwa [hnames]

/-! ### Conversions -/

theorem Schema.Mirrored.mem_destinations (h : s.Mirrored pairs) (hp : Partners pairs a b) : a ∈ s.destinations := by
  obtain ⟨ha, hm⟩ := h a b hp
  refine List.mem_filter.mpr ⟨ha, ?_⟩
  have hne : a.directives ≠ [] := by
    intro hnil
    have hsources := hm.sources
    rw [Union.sources, hnil] at hsources
    cases hsources
  simp [Union.isDestination, hne]

/-- A conversion takes each variant of a union to the variant of the same name of another one, and nothing else. -/
structure Conversion.Mirrors (conv : Conversion) (a b : Union) : Prop where
  source : conv.source = .ofName a.name
  dest : conv.dest = b.name
  container : conv.container = none
  cases : conv.arms.map (·.case) = a.variants.map (·.name)
  arms : ∀ arm ∈ conv.arms, ∃ v ∈ b.variants, ∃ target : Target, target.name = v.name ∧ target.body = v.body ∧
    arm = ⟨v.name, .direct (.ofTarget b.name target)⟩

/-- The conversion from a union to its partner has an arm for each variant, in which the only candidate is the variant
of the same name. -/
theorem Compiled.exists_mirror {c : Compiled} (hc : compile source file doc = .ok c) (h : c.schema.Mirrored pairs)
    (hp : Partners pairs a b) : ∃ conv ∈ c.module.conversions, conv.Mirrors a b := by
  obtain ⟨ha, hma⟩ := h a b hp
  obtain ⟨hb, hmb⟩ := h b a hp.symm
  have hdistinct := distinct hc
  obtain ⟨p, hplan, hof⟩ := exists_right_of_forall₂ (compile_eq_ok_iff.mp hc).2.2.1 (h.mem_destinations hp.symm)
  have hS : .ofName a.name ∈ p.table.keys := by
    rw [hof.keys_table, hmb.sources]
    exact List.mem_singleton_self _
  obtain ⟨byCase, hbyCase⟩ := Option.isSome_iff_exists.mp (Table.isSome_get?_iff.mpr hS)
  obtain ⟨conv, hconv, name, heq, _⟩ := exists_conversion hc hplan hbyCase
  have hdecl := Schema.declared?_of_mem hdistinct.unions ha
  refine ⟨conv, hconv, by rw [heq]; rfl, by rw [heq]; exact hof.dest_eq, ?_, ?_, fun arm harm => ?_⟩
  · rw [heq]
    exact hof.container_eq.trans hmb.container
  · rw [heq, Conversion.map_case_arms, hdecl, hof.caseOrder_eq hbyCase hdecl]
  · rw [heq] at harm
    obtain ⟨L, hL, hbody⟩ := Conversion.mem_arms_ofCases.mp harm
    obtain ⟨case, body⟩ := arm
    simp only at hL hbody
    obtain ⟨v', hv', rfl, _⟩ := hof.readable hbyCase hdecl hL
    obtain ⟨v, hv, hname, _⟩ := hma.variants v' hv'
    obtain ⟨target, htname, htbody, hasked⟩ :=
      Mapping.exists_asked_eq (hdistinct.variants b hb) hmb.bare hv (.ofName a.name)
    refine ⟨v, hv, target, htname, htbody, ?_⟩
    rw [(hof.eq_asked hbyCase hL).2, ← hname, hasked] at hbody
    rw [hbody, hname, ← hof.dest_eq]
    rfl

end UnionBridge
