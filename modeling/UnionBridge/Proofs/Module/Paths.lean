import UnionBridge.Proofs.Coverage
import UnionBridge.Proofs.Module.Naming
import UnionBridge.Proofs.Schema.Spelled

/-! The names in a generated module: whatever the schema, they are made of the characters of names. Of an arm with
several attempts, each converts some field. -/
namespace UnionBridge

/-- Names joined by dots, as far as their characters go. -/
structure IsPath (text : String) : Prop where
  ne_empty : text ≠ ""
  all : ∀ c ∈ text.toList, Lexer.isNamePart c ∨ c = '.'

variable {a b text : String} {d : DottedName}

namespace IsPath

theorem append (ha : IsPath a) (hb : IsPath b) : IsPath (a ++ b) where
  ne_empty h := ha.ne_empty (String.append_eq_empty_iff.mp h).1
  all c hc := by
    rw [String.toList_append, List.mem_append] at hc
    exact hc.elim (ha.all c) (hb.all c)

theorem notMem (h : IsPath text) {c : Char} (hc : Lexer.isNamePart c = false ∧ c ≠ '.') : c ∉ text.toList := by
  intro hmem
  rcases h.all c hmem with hpart | hdot
  · rw [hc.1] at hpart
    cases hpart
  · exact hc.2 hdot

end IsPath

theorem notMem_intercalate {c : Char} {separator : String} {items : List String} (hs : c ∉ separator.toList)
    (h : ∀ item ∈ items, c ∉ item.toList) : c ∉ (separator.intercalate items).toList := by
  induction items with
  | nil => exact List.not_mem_nil
  | cons first items ih =>
    have hfirst := h first List.mem_cons_self
    have hrest := ih fun item hitem => h item (List.mem_cons_of_mem _ hitem)
    cases items with
    | nil => simpa using hfirst
    | cons next items =>
      rw [String.intercalate_cons_cons]
      simp only [String.toList_append, List.mem_append, not_or]
      exact ⟨⟨hfirst, hs⟩, hrest⟩

theorem isPath_of_isName (h : isName text.toList) : IsPath text where
  ne_empty := by
    rintro rfl
    cases h
  all c hc := .inl (isNamePart_of_isName h c hc)

theorem isPath_toString (n : Nat) : IsPath (toString n) where
  ne_empty := Nat.repr_ne_empty
  all c hc := by
    have hdigit := Nat.isDigit_of_mem_toDigits (by decide) (by decide) (Nat.toList_repr ▸ hc)
    left
    simp [Lexer.isNamePart, Char.isAlphanum, hdigit]

theorem isPath_underscore : IsPath "_" := isPath_of_isName (by decide)

theorem isPath_dot : IsPath "." := ⟨by decide, by simp⟩

theorem DottedName.Spelled.isPath (h : d.Spelled) : IsPath d.text := by
  have hparts (first : String) (more : List String) (h : ∀ n ∈ first :: more, isName n.toList) :
      IsPath (".".intercalate (first :: more)) := by
    induction more generalizing first with
    | nil =>
      rw [String.intercalate_singleton]
      exact isPath_of_isName (h first List.mem_cons_self)
    | cons next more ih =>
      rw [String.intercalate_cons_cons]
      exact ((isPath_of_isName (h first List.mem_cons_self)).append isPath_dot).append
        (ih next fun n hn => h n (List.mem_cons_of_mem _ hn))
  exact hparts d.head d.rest h

namespace Naming

theorem isNamePart_toLower {c : Char} (h : Lexer.isNamePart c) : Lexer.isNamePart c.toLower := by
  rw [Char.toLower]
  split
  · rename_i hupper
    have hval : 97 ≤ c.val + 32 ∧ c.val + 32 ≤ 122 := by
      obtain ⟨hge, hle⟩ := hupper
      simp only [ge_iff_le, UInt32.le_iff_toNat_le] at hge hle ⊢
      simp at hge hle ⊢
      omega
    simp [Lexer.isNamePart, Char.isAlphanum, Char.isAlpha, Char.isLower, hval]
  · exact h

/-- The characters of names are among the first, each of which has one small letter wherever it stands. -/
theorem lowerAt_of_isNamePart {c : Char} (h : Lexer.isNamePart c) (before after : List Char) :
    Text.lowerAt before c after = [c.toLower] := by
  have hfirst : c.toNat < 0x80 := by
    simp only [Lexer.isNamePart, Char.isAlphanum, Char.isAlpha, Char.isUpper, Char.isLower, Char.isDigit, Bool.or_eq_true,
      Bool.and_eq_true, decide_eq_true_eq, UInt32.le_iff_toNat_le] at h
    rcases h with ((h | h) | h) | rfl
    · exact Nat.lt_of_le_of_lt h.2 (by decide)
    · exact Nat.lt_of_le_of_lt h.2 (by decide)
    · exact Nat.lt_of_le_of_lt h.2 (by decide)
    · decide
  have hsigma : c ≠ '\u03a3' := by
    rintro rfl
    exact absurd hfirst (by decide)
  simp [Text.lowerAt, Text.lowerAlone, hsigma, hfirst]

theorem isNamePart_of_snakeFrom {before cs : List Char}
    (h : ∀ c ∈ cs, Lexer.isNamePart c ∨ c = '.') : ∀ c ∈ snakeFrom before cs, Lexer.isNamePart c := by
  induction cs generalizing before with
  | nil => simp [snakeFrom]
  | cons c cs ih =>
    have ih (before : List Char) := @ih before fun c' hc' => h c' (List.mem_cons_of_mem _ hc')
    rw [snakeFrom]
    split
    · exact List.forall_mem_cons.mpr ⟨by decide, ih []⟩
    · rename_i hdot
      have hc := (h c List.mem_cons_self).resolve_right hdot
      have hstart : ∀ c' ∈ (if c.isUpper && (before.head?.map fun b => b.isLower || b.isDigit).getD false then ['_']
          else []), Lexer.isNamePart c' := by
        split
        · exact List.forall_mem_singleton.mpr (by decide)
        · exact List.forall_mem_nil _
      rw [lowerAt_of_isNamePart hc]
      exact List.forall_mem_append.mpr ⟨List.forall_mem_append.mpr
        ⟨hstart, List.forall_mem_singleton.mpr (isNamePart_toLower hc)⟩, ih (c :: before)⟩

theorem isNamePart_of_snakeCase (h : IsPath text) : ∀ c ∈ (snakeCase text).toList, Lexer.isNamePart c := by
  rw [snakeCase, String.toList_ofList]
  exact isNamePart_of_snakeFrom h.all

theorem isPath_functionName (ha : IsPath a) (hb : IsPath b) : IsPath (functionName a b) where
  ne_empty h := by
    have h := (String.append_eq_empty_iff.mp (String.append_eq_empty_iff.mp h).1).2
    cases congrArg String.toList h
  all c hc := by
    simp only [functionName, String.toList_append, List.mem_append] at hc
    rcases hc with (hc | hc) | hc
    · exact .inl (isNamePart_of_snakeCase ha c hc)
    · have hfrom : IsPath "_from_" := isPath_of_isName (by decide)
      exact hfrom.all c hc
    · exact .inl (isNamePart_of_snakeCase hb c hc)

theorem isPath_dispatcherName (h : IsPath text) : IsPath (dispatcherName text) where
  ne_empty h := by
    have h := (String.append_eq_empty_iff.mp (String.append_eq_empty_iff.mp h).1).1
    cases congrArg String.toList h
  all c hc := by
    simp only [dispatcherName, String.toList_append, List.mem_append] at hc
    rcases hc with (hc | hc) | hc
    · exact isPath_underscore.all c hc
    · exact .inl (isNamePart_of_snakeCase h c hc)
    · have hsource : IsPath "_from_source" := isPath_of_isName (by decide)
      exact hsource.all c hc

theorem isPath_fresh (h : IsPath text) (used : List String) : IsPath (fresh text used) := by
  rw [fresh]
  split
  · cases hfind : ((List.range (used.length + 1)).map fun i => numbered text (i + 2)).find? fun name =>
        !used.contains name with
    | none => exact h
    | some name =>
      obtain ⟨i, _, rfl⟩ := List.mem_map.mp (List.mem_of_find?_eq_some hfind)
      exact (h.append isPath_underscore).append (isPath_toString (i + 2))
  · exact h

end Naming

/-! ### What schemas give -/

theorem Field.isPath {body : Body} {f : Field} (h : body.Spelled) (hf : f ∈ body.fields) :
    IsPath f.key ∧ IsPath f.attr ∧ IsPath f.type.text := by
  cases body with
  | unit => simp [Body.fields] at hf
  | positional types =>
    obtain ⟨i, t, ht, rfl⟩ := Body.mem_fields_positional.mp hf
    exact ⟨isPath_toString i, isPath_underscore.append (isPath_toString i), (h t (List.mem_of_getElem? ht)).isPath⟩
  | named fields =>
    obtain ⟨i, e, he, rfl⟩ := Body.mem_fields_named.mp hf
    obtain ⟨hname, htype⟩ := h e (List.mem_of_getElem? he)
    exact ⟨isPath_of_isName hname, isPath_of_isName hname, htype.isPath⟩

namespace Union.Spelled

variable {u : Union} (h : u.Spelled)
include h

theorem of_argumentsOf {name : String} {a : Argument} (ha : a ∈ argumentsOf name u.directives) : a.Spelled := by
  obtain ⟨d, hd, ha⟩ := List.mem_flatMap.mp ha
  exact (h.directives d (List.mem_of_mem_filter hd)).args a ha

theorem source {S : DottedName} (hS : S ∈ u.sources) : S.Spelled := by
  obtain ⟨a, ha, hvalue⟩ := List.mem_filterMap.mp (mem_sources.mp hS)
  split at hvalue
  · obtain rfl := Option.some.inj hvalue
    exact (h.of_argumentsOf ha).value
  · cases hvalue

theorem container {c : DottedName} (hc : u.container? = some c) : c.Spelled := by
  obtain ⟨a, ha, hvalue⟩ := List.mem_filterMap.mp (List.mem_of_getLast? hc)
  split at hvalue
  · obtain rfl := Option.some.inj hvalue
    exact (h.of_argumentsOf ha).value
  · cases hvalue

/-- A case that a variant claims is written in one of its directives, or is its own name. -/
theorem claimed {v : Variant} (hv : v ∈ u.variants) {S : DottedName} {C : String} (hclaims : v.claimCount S C ≠ 0) :
    isName C.toList := by
  rw [Variant.claimCount] at hclaims
  split at hclaims
  · split at hclaims
    · rename_i heq
      exact heq ▸ (h.variants v hv).name
    · exact absurd rfl hclaims
  · obtain ⟨a, ha, hclaim⟩ := List.countP_pos_iff.mp (Nat.pos_of_ne_zero hclaims)
    obtain ⟨d, hd, ha⟩ := List.mem_flatMap.mp ha
    have hvalue : a.value = .ofName C := by
      simp only [Argument.claims, Bool.and_eq_true, decide_eq_true_eq] at hclaim
      exact hclaim.1
    have hspelled := (((h.variants v hv).directives d (List.mem_of_mem_filter hd)).args a ha).value
    rw [hvalue] at hspelled
    exact hspelled C (by simp [DottedName.parts, DottedName.ofName])

end Union.Spelled

/-! ### What modules are made of -/

structure CaseClass.Spelled (c : CaseClass) : Prop where
  union : IsPath c.union
  case : IsPath c.case
  fields : ∀ f ∈ c.fields, IsPath f.1 ∧ IsPath f.2.text

structure UnionClass.Spelled (u : UnionClass) : Prop where
  name : IsPath u.name
  cases : ∀ c ∈ u.cases, c.Spelled

structure FieldStep.Spelled (f : FieldStep) : Prop where
  slot : IsPath f.slot
  attr : IsPath f.attr
  type : IsPath f.type.text

structure Attempt.Spelled (a : Attempt) : Prop where
  dest : IsPath a.dest
  case : IsPath a.case
  steps : ∀ f ∈ a.steps, f.Spelled

structure Arm.Spelled (arm : Arm) : Prop where
  case : IsPath arm.case
  attempts : ∀ a ∈ arm.body.attempts, a.Spelled
  /-- There is something to try in each attempt. -/
  tried : ∀ attempts, arm.body = .firstFit attempts → ∀ a ∈ attempts, a.steps ≠ []

structure Conversion.Spelled (conv : Conversion) : Prop where
  name : IsPath conv.name
  source : IsPath conv.source.text
  dest : IsPath conv.dest
  container : ∀ c ∈ conv.container, IsPath c.text
  arms : ∀ arm ∈ conv.arms, arm.Spelled

structure Bridge.Spelled (b : Bridge) : Prop where
  dest : IsPath b.dest
  container : ∀ c ∈ b.container, IsPath c.text
  conversions : ∀ conv ∈ b.conversions, conv.Spelled

structure Module.Spelled (m : Module) : Prop where
  imports : ∀ i ∈ m.imports, i.Spelled
  unions : ∀ u ∈ m.unions, u.Spelled
  bridges : ∀ b ∈ m.bridges, b.Spelled

variable {s : Schema} {u : Union} {p : Plan} {plans : List Plan} {file : Option String} {S : DottedName}
  {byCase : Table String (List Candidate)}

theorem Union.Spelled.ofUnion (h : u.Spelled) : (UnionClass.ofUnion u).Spelled where
  name := isPath_of_isName h.name
  cases c hc := by
    obtain ⟨v, hv, rfl⟩ := List.mem_map.mp hc
    refine ⟨isPath_of_isName h.name, isPath_of_isName (h.variants v hv).name, fun f hf => ?_⟩
    obtain ⟨field, hfield, rfl⟩ := List.mem_map.mp hf
    exact (Field.isPath (h.variants v hv).body hfield).2

theorem Attempt.spelled_ofTarget {dest : String} {t : Target} (hdest : IsPath dest) (hname : isName t.name.toList)
    (hbody : t.body.Spelled) : (ofTarget dest t).Spelled where
  dest := hdest
  case := isPath_of_isName hname
  steps f hf := by
    obtain ⟨field, hfield, rfl⟩ := List.mem_map.mp hf
    obtain ⟨hkey, hattr, htype⟩ := Field.isPath hbody hfield
    have hslot : IsPath "f_" := isPath_of_isName (by decide)
    exact ⟨hslot.append hkey, hattr, htype⟩

namespace Plan.Of

variable (h : p.Of s u file) (hu : u.Spelled)
include h

/-- Where a case has several candidates, all of them have fields. -/
theorem hasFields {C : String} {L : List Candidate} (hS : p.table.get? S = some byCase) (hC : byCase.get? C = some L)
    (hfallible : isFallible L) : ∀ c ∈ L, c.target.hasFields := by
  have hclear := (Mapping.resolve_eq_ok_iff.mp h.resolved).2
  have hkeys : p.table.keys.Nodup := h.keys_table ▸ u.nodup_sources
  refine hclear (S, C, L) ((Mapping.mem_cells hkeys h.tidy_table).mpr ?_) hfallible
  rw [hS]
  exact hC

include hu

theorem isPath_dest : IsPath p.mapping.dest := by
  have hdest : p.mapping.dest = u.name := h.dest_eq
  exact hdest ▸ isPath_of_isName hu.name

theorem isPath_source {e : DottedName × Table String (List Candidate)} (he : e ∈ p.table.entries) :
    IsPath e.1.text := by
  have hmem : e.1 ∈ u.sources := h.keys_table ▸ List.mem_map_of_mem he
  exact (hu.source hmem).isPath

theorem spelled_arm {decl : Option Union} {name : String} {arm : Arm} (hS : p.table.get? S = some byCase)
    (harm : arm ∈ (Conversion.ofCases p.mapping decl name S byCase).arms) : arm.Spelled := by
  obtain ⟨L, hC, hbody⟩ := Conversion.mem_arms_ofCases.mp harm
  obtain ⟨hne, hL⟩ := h.eq_asked hS hC
  refine ⟨?_, fun a ha => ?_, fun attempts hattempts a ha => ?_⟩
  · obtain ⟨c, hc⟩ := List.exists_mem_of_ne_nil _ hne
    rw [hL] at hc
    obtain ⟨e, he, hc⟩ := List.mem_flatMap.mp hc
    exact isPath_of_isName (hu.claimed (List.of_mem_zip he).2 (List.mem_replicate.mp hc).1)
  · rw [hbody, ArmBody.attempts_ofCandidates] at ha
    obtain ⟨c, hc, rfl⟩ := List.mem_map.mp ha
    obtain ⟨v, hv, hname, hvbody⟩ := h.variant_of_candidate hS hC hc
    refine Attempt.spelled_ofTarget ?_ (hname ▸ (hu.variants v hv).name) (hvbody ▸ (hu.variants v hv).body)
    exact h.isPath_dest hu
  · -- With one candidate the arm is no list of attempts; with several, each has a field to convert.
    have hattempts' : attempts = L.map fun c => Attempt.ofTarget p.mapping.dest c.target := by
      rw [← ArmBody.attempts_ofCandidates, ← hbody, hattempts]
      rfl
    have hfallible : isFallible L := by
      rcases L with _ | ⟨c, _ | ⟨c', L⟩⟩
      · exact absurd rfl hne
      · rw [hbody] at hattempts
        cases hattempts
      · simp [isFallible]
    rw [hattempts'] at ha
    obtain ⟨c, hc, rfl⟩ := List.mem_map.mp ha
    have hfields := h.hasFields hS hC hfallible c hc
    simpa [Target.hasFields, Attempt.ofTarget] using hfields

theorem spelled_ofCases {decl : Option Union} {name : String} (hname : IsPath name)
    (hS : p.table.get? S = some byCase) : (Conversion.ofCases p.mapping decl name S byCase).Spelled where
  name := hname
  source := h.isPath_source (e := (S, byCase)) hu (h.mem_entries_table.mpr hS)
  dest := h.isPath_dest hu
  container _ hc := (hu.container (h.container_eq ▸ hc)).isPath
  arms _ harm := h.spelled_arm hu hS harm

end Plan.Of

theorem Conversion.isPath_name {m : Mapping} {used : List String}
    {entries : List (DottedName × Table String (List Candidate))} (hdest : IsPath m.dest)
    (h : ∀ e ∈ entries, IsPath e.1.text) : ∀ conv ∈ (ofSources s m used entries).1, IsPath conv.name := by
  induction entries generalizing used with
  | nil => simp [ofSources]
  | cons e entries ih =>
    have hname := Naming.isPath_fresh (Naming.isPath_functionName hdest (h e List.mem_cons_self)) used
    exact List.forall_mem_cons.mpr ⟨hname, ih fun e' he' => h e' (List.mem_cons_of_mem _ he')⟩

theorem Bridge.spelled_ofPlans {used : List String} (h : ∀ p ∈ plans, ∃ u ∈ s.unions, p.Of s u file)
    (hs : s.Spelled) : ∀ b ∈ ofPlans s used plans, b.Spelled := by
  induction plans generalizing used with
  | nil => simp [ofPlans]
  | cons p plans ih =>
    rw [ofPlans]
    obtain ⟨u, hu, hp⟩ := h p List.mem_cons_self
    have hspelled := hs.unions u hu
    refine List.forall_mem_cons.mpr ⟨?_, ih fun q hq => h q (List.mem_cons_of_mem _ hq)⟩
    have hcontainer (c : DottedName) (hc : c ∈ p.mapping.container) : IsPath c.text :=
      (hspelled.container (hp.container_eq ▸ hc)).isPath
    refine ⟨hp.isPath_dest hspelled, hcontainer, fun conv hconv => ?_⟩
    have hname : IsPath conv.name :=
      Conversion.isPath_name (hp.isPath_dest hspelled) (fun e he => hp.isPath_source hspelled he) conv hconv
    obtain ⟨e, he, name, rfl⟩ := exists_left_of_forall₂ (Conversion.forall₂_ofSources s p.mapping used _) hconv
    exact hp.spelled_ofCases hspelled hname (hp.mem_entries_table.mp he)

/-- The names in the module of any schema whose plans are made are names. -/
theorem Module.spelled_ofPlans (hs : s.Spelled) (hp : s.plans file = .ok plans) (origin docstring : Option String) :
    (ofPlans s plans origin docstring).Spelled where
  imports := hs.imports
  unions u hu := by
    obtain ⟨u', hu', rfl⟩ := List.mem_map.mp hu
    exact (hs.unions u' hu').ofUnion
  bridges := by
    have hof (p : Plan) (hmem : p ∈ plans) : ∃ u ∈ s.unions, p.Of s u file := by
      obtain ⟨u, hu, hof⟩ := exists_left_of_forall₂ (Schema.plans_eq_ok_iff.mp hp) hmem
      exact ⟨u, List.mem_of_mem_filter hu, hof⟩
    exact Bridge.spelled_ofPlans hof hs

end UnionBridge
