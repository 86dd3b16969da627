import UnionBridge.Proofs.Execution.Converters
import UnionBridge.Proofs.Execution.FirstFit

/-! The names by which functions reach what their module has, and the variables that take such names. -/
namespace UnionBridge

open UnionBridge.Action

variable {s : Scope} {own names : List String} {conv : Conversion} {arm : Arm} {a : Attempt} {f : FieldStep}
  {name : String}

/-- The names by which a candidate reaches classes: its own, the container's and those of the types of its fields. -/
def Attempt.reached (container : Option DottedName) (a : Attempt) : List String :=
  (a.constructor :: (container.toList ++ a.steps.map (·.type))).map (·.head)

namespace Conversion

/-- The names that begin the paths of the schema in a function. -/
def written (c : Conversion) : List String :=
  c.arms.flatMap fun arm => c.source.head :: arm.body.attempts.flatMap (·.reached c.container)

/-- The names by which every conversion reaches the library. -/
def helpers : List String := ["_rt", "_registry", "isinstance"]

/-- All names by which a conversion reaches what its module has. -/
def reached (c : Conversion) : List String := c.written ++ helpers

end Conversion

namespace Dispatcher

def written (d : Dispatcher) : List String := d.routes.map (·.1.head)

def helpers : List String := ["_rt", "isinstance"]

/-- All names by which a dispatcher reaches what its module has: those of the sources, of the conversions and of the
library. -/
def reached (d : Dispatcher) : List String := d.written ++ d.routes.map (·.2) ++ helpers

end Dispatcher

/-! ### No other name is looked up -/

namespace Scope

/-- It makes no difference for some names which of two lists holds the variables. -/
def Agrees (s : Scope) (own names : List String) : Prop := ∀ name ∈ names, name ∈ s.own ↔ name ∈ own

variable (h : s.Agrees own names)
include h

theorem Agrees.mono {fewer : List String} (hsub : ∀ name ∈ fewer, name ∈ names) : s.Agrees own fewer :=
  fun name hname => h name (hsub name hname)

theorem Agrees.name_eq (hname : name ∈ names) (l : Locals) : Scope.name { s with own } l name = s.name l name := by
  simp only [Scope.name, List.contains_eq_mem, h name hname]

theorem Agrees.fetch_eq (hname : name ∈ names) : Scope.fetch { s with own } name = s.fetch name := by
  simp only [Scope.fetch, h.name_eq hname]

theorem Agrees.fetchPath_eq {d : DottedName} (hname : d.head ∈ names) :
    Scope.fetchPath { s with own } d = s.fetchPath d := by
  simp only [Scope.fetchPath, Scope.path, h.name_eq hname]

theorem Agrees.helper_eq (hname : "_rt" ∈ names) : Scope.helper { s with own } name = s.helper name :=
  h.fetchPath_eq hname

theorem Agrees.isInstance_eq {subject : String} {d : DottedName}
    (hnames : ∀ n ∈ ["isinstance", subject, d.head], n ∈ names) :
    Scope.isInstance { s with own } subject d = s.isInstance subject d := by
  simp only [List.forall_mem_cons] at hnames
  obtain ⟨htest, hsubject, hd, _⟩ := hnames
  simp only [Scope.isInstance, h.fetch_eq htest, h.fetch_eq hsubject, h.fetchPath_eq hd]

theorem Agrees.raiseForeign_eq {parameter unions : String} (hrt : "_rt" ∈ names) (hp : parameter ∈ names) :
    Scope.raiseForeign { s with own } parameter unions = s.raiseForeign parameter unions := by
  simp only [Scope.raiseForeign, h.helper_eq hrt, h.fetch_eq hp]
  rfl

theorem Agrees.catches_eq (hrt : "_rt" ∈ names) (e : Failure) : Scope.catches { s with own } e = s.catches e := by
  simp only [Scope.catches, h.helper_eq hrt]

end Scope

namespace Action

variable {α β : Type}

theorem forM_congr {as : List α} {g g' : α → Action PUnit} (h : ∀ a ∈ as, g a = g' a) : as.forM g = as.forM g' := by
  induction as with
  | nil => rfl
  | cons a as ih =>
    change (g a >>= fun _ => as.forM g) = g' a >>= fun _ => as.forM g'
    rw [h a List.mem_cons_self, ih fun b hb => h b (List.mem_cons_of_mem _ hb)]

theorem mapM_congr {as : List α} {g g' : α → Action β} (h : ∀ a ∈ as, g a = g' a) : as.mapM g = as.mapM g' := by
  induction as with
  | nil => rfl
  | cons a as ih =>
    rw [List.mapM_cons, List.mapM_cons, h a List.mem_cons_self, ih fun b hb => h b (List.mem_cons_of_mem _ hb)]

end Action

namespace Conversion

theorem source_mem_written (harm : arm ∈ conv.arms) : conv.source.head ∈ conv.written :=
  List.mem_flatMap.mpr ⟨arm, harm, List.mem_cons_self⟩

theorem mem_written (harm : arm ∈ conv.arms) (ha : a ∈ arm.body.attempts) (h : name ∈ a.reached conv.container) :
    name ∈ conv.written :=
  List.mem_flatMap.mpr ⟨arm, harm, List.mem_cons_of_mem _ (List.mem_flatMap.mpr ⟨a, ha, h⟩)⟩

theorem constructor_mem_written (harm : arm ∈ conv.arms) (ha : a ∈ arm.body.attempts) :
    a.constructor.head ∈ conv.written :=
  mem_written harm ha (by simp [Attempt.reached])

theorem container_mem_written {d : DottedName} (harm : arm ∈ conv.arms) (ha : a ∈ arm.body.attempts)
    (hd : conv.container = some d) : d.head ∈ conv.written :=
  mem_written harm ha (by simp [Attempt.reached, hd])

theorem type_mem_written (harm : arm ∈ conv.arms) (ha : a ∈ arm.body.attempts) (hf : f ∈ a.steps) :
    f.type.head ∈ conv.written :=
  mem_written harm ha (by
    simp only [Attempt.reached, List.map_cons, List.map_append, List.map_map, List.mem_cons, List.mem_append, List.mem_map]
    exact .inr (.inr ⟨f, hf, rfl⟩))

/-! Two scopes that agree on what a function reaches and on its variables run its parts alike. -/

section Agreement

variable (h : s.Agrees own (conv.reached ++ conv.ownNames))
include h

theorem agrees_written (hname : name ∈ conv.written) : s.Agrees own [name] :=
  h.mono (by simp [reached, hname])

theorem agrees_helper (hname : name ∈ helpers) : s.Agrees own [name] :=
  h.mono (by simp [reached, hname])

theorem agrees_own (hname : name ∈ conv.ownNames) : s.Agrees own [name] :=
  h.mono (by simp [hname])

variable (harm : arm ∈ conv.arms) (ha : a ∈ arm.body.attempts)
include harm ha

theorem ask_eq (hf : f ∈ a.steps) (r : Request) : f.ask conv.container { s with own } r = f.ask conv.container s r := by
  have hregistry := (agrees_helper h (by simp [helpers])).fetch_eq (List.mem_singleton_self "_registry")
  have hparameter := (agrees_own h parameter_mem_ownNames).fetch_eq (List.mem_singleton_self _)
  have htype := (agrees_written h (type_mem_written harm ha hf)).fetchPath_eq (List.mem_singleton_self _)
  have hcontainer : conv.container.mapM (Scope.fetchPath { s with own }) = conv.container.mapM s.fetchPath := by
    cases hd : conv.container with
    | none => rfl
    | some d =>
      simp only [Option.mapM_some, (agrees_written h (container_mem_written harm ha hd)).fetchPath_eq
        (List.mem_singleton_self _)]
  simp only [FieldStep.ask, hregistry, hparameter, htype, hcontainer]

theorem convert_eq (hf : f ∈ a.steps) : f.convert conv.container { s with own } = f.convert conv.container s := by
  simp only [FieldStep.convert, ask_eq h harm ha hf]
  rfl

theorem attempt_eq (hf : f ∈ a.steps) : f.attempt conv.container { s with own } = f.attempt conv.container s := by
  simp only [FieldStep.attempt, ask_eq h harm ha hf]

theorem settle_eq {attempts : List Attempt} (hb : arm.body = .firstFit attempts) (hf : f ∈ a.steps) :
    f.settle conv.container { s with own } = f.settle conv.container s := by
  have hmem : a ∈ attempts := by rwa [hb] at ha
  have hslot := (agrees_own h (slot_mem_ownNames harm hb hmem hf)).fetch_eq (List.mem_singleton_self _)
  simp only [FieldStep.settle, hslot]
  rfl

theorem construct_eq : a.construct conv.container { s with own } = a.construct conv.container s := by
  have hconstructor := (agrees_written h (constructor_mem_written harm ha)).fetchPath_eq (List.mem_singleton_self _)
  have hvalues : a.steps.mapM (fun f => Scope.fetch { s with own } (f.valueSlot conv.container)) =
      a.steps.mapM fun f => s.fetch (f.valueSlot conv.container) :=
    mapM_congr fun f hf => (agrees_own h (valueSlot_mem_ownNames harm ha hf)).fetch_eq (List.mem_singleton_self _)
  simp only [Attempt.construct, Attempt.supplied, hconstructor, hvalues]

theorem finish_eq : a.finish conv.container { s with own } = a.finish conv.container s := by
  simp only [Attempt.finish, construct_eq h harm ha]
  cases hd : conv.container with
  | none => rfl
  | some d =>
    have hsome : conv.container.isSome := by rw [hd]; rfl
    have hcontainer := (agrees_written h (container_mem_written harm ha hd)).fetchPath_eq (List.mem_singleton_self _)
    have hresult := (agrees_own h (resultSlot_mem_ownNames harm ha hsome)).fetch_eq (List.mem_singleton_self _)
    have heffects : a.effects { s with own } = a.effects s := by
      refine congrArg (· >>= fun parts => pure parts.flatten) (mapM_congr fun f hf => ?_)
      rw [(agrees_own h (effectsSlot_mem_ownNames harm ha hf hsome)).fetch_eq (List.mem_singleton_self _)]
    simp only [hcontainer, hresult, heffects]

theorem runDirect_eq : a.runDirect conv.container { s with own } = a.runDirect conv.container s := by
  simp only [Attempt.runDirect, finish_eq h harm ha, forM_congr fun f hf => convert_eq h harm ha hf]

theorem runTry_eq {attempts : List Attempt} (hb : arm.body = .firstFit attempts) :
    a.runTry conv.container { s with own } = a.runTry conv.container s := by
  have hcatches (e : Failure) := (agrees_helper h (by simp [helpers])).catches_eq (List.mem_singleton_self "_rt") e
  simp only [Attempt.runTry, finish_eq h harm ha, hcatches, forM_congr fun f hf => attempt_eq h harm ha hf,
    forM_congr fun f hf => settle_eq h harm ha hb hf]

omit ha in
theorem firstAccepted_eq {attempts : List Attempt} (hb : arm.body = .firstFit attempts) {as : List Attempt}
    (has : ∀ a ∈ as, a ∈ attempts) :
    ArmBody.firstAccepted conv.container { s with own } as = ArmBody.firstAccepted conv.container s as := by
  induction as with
  | nil => rfl
  | cons a as ih =>
    have ha : a ∈ arm.body.attempts := by
      rw [hb]
      exact has a List.mem_cons_self
    simp only [ArmBody.firstAccepted, runTry_eq h harm ha hb, ih fun b hmem => has b (List.mem_cons_of_mem _ hmem)]

omit ha in
theorem run_eq : arm.body.run conv { s with own } arm.case = arm.body.run conv s arm.case := by
  cases hb : arm.body with
  | direct a =>
    have ha : a ∈ arm.body.attempts := by simp [hb, ArmBody.attempts]
    simp only [ArmBody.run, runDirect_eq h harm ha]
  | firstFit attempts =>
    have herror : Scope.helper { s with own } "ExhaustedCandidatesError" = s.helper "ExhaustedCandidatesError" :=
      (agrees_helper h (by simp [helpers])).helper_eq (List.mem_singleton_self "_rt")
    have hparameter := (agrees_own h parameter_mem_ownNames).fetch_eq (List.mem_singleton_self _)
    simp only [ArmBody.run, firstAccepted_eq h harm hb fun a ha => ha, herror, hparameter]
    rfl

end Agreement

/-- A conversion looks up no other names than those that it reaches its module by and its variables. -/
theorem body_eq_of_agrees (h : s.Agrees own (conv.reached ++ conv.ownNames)) : conv.body { s with own } = conv.body s := by
  have harms (arms : List Arm) (hsub : ∀ arm ∈ arms, arm ∈ conv.arms) :
      conv.runArms { s with own } arms = conv.runArms s arms := by
    induction arms with
    | nil => exact h.raiseForeign_eq (by simp [reached, helpers]) (by simp [parameter_mem_ownNames])
    | cons arm arms ih =>
      have harm := hsub arm List.mem_cons_self
      have htest : Scope.isInstance { s with own } parameter (conv.source.child arm.case) =
          s.isInstance parameter (conv.source.child arm.case) := by
        apply Scope.Agrees.isInstance_eq h
        intro n hn
        simp only [List.mem_cons, List.not_mem_nil, or_false] at hn
        rcases hn with rfl | rfl | rfl
        · simp [reached, helpers]
        · simp [parameter_mem_ownNames]
        · exact List.mem_append_left _ (List.mem_append_left _ (source_mem_written harm))
      simp only [runArms, htest, run_eq h harm, ih fun b hb => hsub b (List.mem_cons_of_mem _ hb)]
  exact harms conv.arms fun _ => id

end Conversion

/-- A dispatcher looks up no other names than those that it reaches its module by and its parameter. -/
theorem Dispatcher.body_eq_of_agrees {d : Dispatcher} (h : s.Agrees own (d.reached ++ d.ownNames)) :
    d.body { s with own } = d.body s := by
  have hroutes (routes : List (DottedName × String)) (hsub : ∀ r ∈ routes, r ∈ d.routes) :
      d.runRoutes { s with own } routes = d.runRoutes s routes := by
    induction routes with
    | nil => exact h.raiseForeign_eq (by simp [reached, helpers]) (by simp [ownNames])
    | cons r routes ih =>
      obtain ⟨source, function⟩ := r
      have hr := hsub _ List.mem_cons_self
      have hfunction : function ∈ d.reached ++ d.ownNames := by
        simp only [reached, List.mem_append, List.mem_map]
        exact .inl (.inl (.inr ⟨_, hr, rfl⟩))
      have htest : Scope.isInstance { s with own } parameter source = s.isInstance parameter source := by
        apply h.isInstance_eq
        intro n hn
        simp only [List.mem_cons, List.not_mem_nil, or_false] at hn
        rcases hn with rfl | rfl | rfl
        · simp [reached, helpers]
        · simp [ownNames]
        · simp only [reached, written, List.mem_append, List.mem_map]
          exact .inl (.inl (.inl ⟨_, hr, rfl⟩))
      have hparameter : Scope.fetch { s with own } parameter = s.fetch parameter := h.fetch_eq (by simp [ownNames])
      simp only [runRoutes, htest, h.fetch_eq hfunction, hparameter,
        ih fun b hb => hsub b (List.mem_cons_of_mem _ hb)]
  exact hroutes d.routes fun _ => id

/-! ### Which names are taken -/

/-- The variables of a field. Where its candidate has to succeed, what it is converted to is taken apart at once. -/
def Field.variables (f : Field) (contained alone : Bool) : List String :=
  match contained, alone with
  | false, _ => [Naming.slot f.key]
  | true, true => [Naming.slot (f.key ++ "_value"), Naming.slot (f.key ++ "_effects")]
  | true, false => [Naming.slot f.key, Naming.slot (f.key ++ "_value"), Naming.slot (f.key ++ "_effects")]

namespace Plan

/-- The variables of the conversion of a source. -/
inductive Binds (p : Plan) (S : DottedName) : String → Prop
  | parameter : p.Binds S Conversion.parameter
  | result {byCase : Table String (List Candidate)} {C : String} {L : List Candidate} (hS : p.table.get? S = some byCase)
      (hC : byCase.get? C = some L) (hcontainer : p.mapping.container.isSome) : p.Binds S Attempt.resultSlot
  | field {byCase : Table String (List Candidate)} {C : String} {L : List Candidate} {cand : Candidate} {f : Field}
      {name : String} (hS : p.table.get? S = some byCase) (hC : byCase.get? C = some L) (hcand : cand ∈ L)
      (hf : f ∈ cand.target.fields) (hname : name ∈ f.variables p.mapping.container.isSome (L.length == 1)) :
      p.Binds S name

/-- The names that begin paths of the schema in the conversion of a source. -/
inductive Writes (p : Plan) (S : DottedName) : String → Prop
  | source {byCase : Table String (List Candidate)} {C : String} {L : List Candidate} (hS : p.table.get? S = some byCase)
      (hC : byCase.get? C = some L) : p.Writes S S.head
  | dest {byCase : Table String (List Candidate)} {C : String} {L : List Candidate} (hS : p.table.get? S = some byCase)
      (hC : byCase.get? C = some L) : p.Writes S p.dest
  | container {byCase : Table String (List Candidate)} {C : String} {L : List Candidate} {d : DottedName}
      (hS : p.table.get? S = some byCase) (hC : byCase.get? C = some L) (hd : p.mapping.container = some d) :
      p.Writes S d.head
  | type {byCase : Table String (List Candidate)} {C : String} {L : List Candidate} {cand : Candidate} {f : Field}
      (hS : p.table.get? S = some byCase) (hC : byCase.get? C = some L) (hcand : cand ∈ L)
      (hf : f ∈ cand.target.fields) : p.Writes S f.type.head

end Plan

/-- What an arm assigns are the variables of the fields of its candidates. -/
theorem ArmBody.mem_assigned_ofCandidates {dest : String} {L : List Candidate} {container : Option DottedName} :
    name ∈ (ofCandidates dest L).assigned container ↔
      ∃ cand ∈ L, ∃ f ∈ cand.target.fields, name ∈ f.variables container.isSome (L.length == 1) := by
  by_cases hlen : L.length = 1
  · obtain ⟨cand, rfl⟩ := List.length_eq_one_iff.mp hlen
    have hvariables (f : Field) :
        (FieldStep.ofField f).directVariables container = f.variables container.isSome true := by
      cases container with
      | none => rfl
      | some d =>
        simp only [FieldStep.directVariables, FieldStep.valueSlot_ofField_some, FieldStep.effectsSlot_ofField]
        rfl
    simp only [ofCandidates_single, assigned, Attempt.ofTarget, List.flatMap_map, hvariables, List.mem_flatMap,
      List.mem_singleton, exists_eq_left, List.length_singleton, beq_self_eq_true]
  · have hvariables (f : Field) :
        (FieldStep.ofField f).triedVariables container = f.variables container.isSome false := by
      cases container with
      | none => rfl
      | some d =>
        simp only [FieldStep.triedVariables, FieldStep.valueSlot_ofField_some, FieldStep.effectsSlot_ofField]
        rfl
    have hseveral : (L.length == 1) = false := by simpa using hlen
    simp only [ofCandidates_several dest hlen, assigned, Attempt.ofTarget, List.flatMap_map, hvariables, List.mem_flatMap,
      hseveral]

namespace Compiled

variable {source : String} {file docstring : Option String} {c : Compiled} {p : Plan}
  {byCase : Table String (List Candidate)} {S : DottedName} {decl : Option Union} {fn : String}

theorem mem_ownNames_iff (hS : p.table.get? S = some byCase) (hne : ∀ C L, byCase.get? C = some L → L ≠ []) :
    name ∈ (Conversion.ofCases p.mapping decl fn S byCase).ownNames ↔ p.Binds S name := by
  have hholds : (Conversion.ofCases p.mapping decl fn S byCase).holdsResult = true ↔
      p.mapping.container.isSome ∧ ∃ C L, byCase.get? C = some L := by
    simp only [Conversion.holdsResult, Bool.and_eq_true, List.any_eq_true]
    refine and_congr_right fun _ => ⟨?_, ?_⟩
    · rintro ⟨arm, harm, _⟩
      obtain ⟨L, hC, _⟩ := Conversion.mem_arms_ofCases.mp harm
      exact ⟨_, L, hC⟩
    · rintro ⟨C, L, hC⟩
      refine ⟨⟨C, .ofCandidates p.mapping.dest L⟩, Conversion.mem_arms_ofCases.mpr ⟨L, hC, rfl⟩, ?_⟩
      simpa [ArmBody.attempts_ofCandidates] using hne C L hC
  simp only [Conversion.ownNames, List.mem_cons, List.mem_append, List.mem_flatMap]
  constructor
  · rintro (rfl | hresult | ⟨arm, harm, hassigned⟩)
    · exact .parameter
    · split at hresult
      · rename_i h
        obtain ⟨hcontainer, C, L, hC⟩ := hholds.mp h
        obtain rfl := List.mem_singleton.mp hresult
        exact .result hS hC hcontainer
      · cases hresult
    · obtain ⟨L, hC, hb⟩ := Conversion.mem_arms_ofCases.mp harm
      rw [hb] at hassigned
      obtain ⟨cand, hcand, f, hf, hname⟩ := ArmBody.mem_assigned_ofCandidates.mp hassigned
      exact .field hS hC hcand hf hname
  · intro h
    cases h with
    | parameter => exact .inl rfl
    | result hS' hC hcontainer =>
      obtain rfl := Option.some.inj (hS.symm.trans hS')
      rw [if_pos (hholds.mpr ⟨hcontainer, _, _, hC⟩)]
      exact .inr (.inl (List.mem_singleton_self _))
    | @field _ C L _ _ _ hS' hC hcand hf hname =>
      obtain rfl := Option.some.inj (hS.symm.trans hS')
      refine .inr (.inr ⟨⟨C, .ofCandidates p.mapping.dest L⟩, Conversion.mem_arms_ofCases.mpr ⟨L, hC, rfl⟩, ?_⟩)
      exact ArmBody.mem_assigned_ofCandidates.mpr ⟨_, hcand, _, hf, hname⟩

theorem mem_written_iff (hS : p.table.get? S = some byCase) (hne : ∀ C L, byCase.get? C = some L → L ≠ []) :
    name ∈ (Conversion.ofCases p.mapping decl fn S byCase).written ↔ p.Writes S name := by
  constructor
  · intro h
    obtain ⟨arm, harm, hname⟩ := List.mem_flatMap.mp h
    obtain ⟨L, hC, hb⟩ := Conversion.mem_arms_ofCases.mp harm
    rcases List.mem_cons.mp hname with rfl | hname
    · exact .source hS hC
    · obtain ⟨a, ha, hname⟩ := List.mem_flatMap.mp hname
      rw [hb, ArmBody.attempts_ofCandidates] at ha
      obtain ⟨cand, hcand, rfl⟩ := List.mem_map.mp ha
      simp only [Attempt.reached, List.map_cons, List.map_append, List.mem_cons, List.mem_append, List.mem_map,
        Option.mem_toList] at hname
      rcases hname with rfl | ⟨d, hd, rfl⟩ | ⟨_, ⟨_, hstep, rfl⟩, rfl⟩
      · exact .dest hS hC
      · exact .container hS hC hd
      · obtain ⟨f, hf, rfl⟩ := mem_steps_ofTarget.mp hstep
        exact .type hS hC hcand hf
  · intro h
    have hattempt {C : String} {L : List Candidate} {cand : Candidate} (hC : byCase.get? C = some L) (hcand : cand ∈ L)
        (hname : name ∈ (Attempt.ofTarget p.mapping.dest cand.target).reached p.mapping.container) :
        name ∈ (Conversion.ofCases p.mapping decl fn S byCase).written := by
      have harm : ⟨C, .ofCandidates p.mapping.dest L⟩ ∈ (Conversion.ofCases p.mapping decl fn S byCase).arms :=
        Conversion.mem_arms_ofCases.mpr ⟨L, hC, rfl⟩
      refine Conversion.mem_written harm ?_ hname
      rw [ArmBody.attempts_ofCandidates]
      exact List.mem_map.mpr ⟨cand, hcand, rfl⟩
    cases h with
    | @source _ C L hS' hC =>
      obtain rfl := Option.some.inj (hS.symm.trans hS')
      have harm : ⟨C, .ofCandidates p.mapping.dest L⟩ ∈ (Conversion.ofCases p.mapping decl fn S byCase).arms :=
        Conversion.mem_arms_ofCases.mpr ⟨L, hC, rfl⟩
      exact Conversion.source_mem_written harm
    | @dest _ C L hS' hC =>
      obtain rfl := Option.some.inj (hS.symm.trans hS')
      obtain ⟨cand, hcand⟩ := List.exists_mem_of_ne_nil L (hne C L hC)
      exact hattempt hC hcand (by simp [Attempt.reached, Attempt.ofTarget, Attempt.constructor, Plan.dest])
    | @container _ C L d hS' hC hd =>
      obtain rfl := Option.some.inj (hS.symm.trans hS')
      obtain ⟨cand, hcand⟩ := List.exists_mem_of_ne_nil L (hne C L hC)
      exact hattempt hC hcand (by simp [Attempt.reached, hd])
    | type hS' hC hcand hf =>
      obtain rfl := Option.some.inj (hS.symm.trans hS')
      refine hattempt hC hcand ?_
      simp only [Attempt.reached, List.map_cons, List.map_append, List.map_map, List.mem_cons, List.mem_append,
        List.mem_map]
      exact .inr (.inr ⟨_, mem_steps_ofTarget.mpr ⟨_, hf, rfl⟩, rfl⟩)

/-- In the conversion of a source of a plan, a variable takes a name by which something of the module is reached exactly
if that name begins a path that the schema gives there: the source, the destination, its container or the type of a
field. What the library has is always reached. In a dispatcher that happens exactly if a source begins with the name of
its parameter; conversions and what the library has are always reached. -/
theorem captures_iff (hc : compile source file docstring = .ok c) :
    (∀ conv ∈ c.module.conversions, ∃ p ∈ c.plans, p.dest = conv.dest ∧ conv.source ∈ p.table.keys ∧
      ∀ name, name ∈ conv.reached ∧ name ∈ conv.ownNames ↔ p.Writes conv.source name ∧ p.Binds conv.source name) ∧
    ∀ b ∈ c.module.bridges, ∀ name, name ∈ b.dispatcher.reached ∧ name ∈ b.dispatcher.ownNames ↔
      name = Dispatcher.parameter ∧ ∃ conv ∈ b.conversions, conv.source.head = name := by
  constructor
  · intro conv hconv
    obtain ⟨p, hp, byCase, fn, hS, heq⟩ := conversion_cases hc hconv
    obtain ⟨u, _, hof⟩ := exists_destination hc hp
    have hne (C : String) (L : List Candidate) (hC : byCase.get? C = some L) : L ≠ [] := (hof.eq_asked hS hC).1
    refine ⟨p, hp, ?_, Table.isSome_get?_iff.mp (by simp [hS]), fun name => ?_⟩
    · rw [heq]
      rfl
    · have hown : name ∈ conv.ownNames ↔ p.Binds conv.source name := by
        rw [heq]
        exact mem_ownNames_iff hS hne
      have hwritten : name ∈ conv.written ↔ p.Writes conv.source name := by
        rw [heq]
        exact mem_written_iff hS hne
      rw [← hown, ← hwritten]
      constructor
      · rintro ⟨hreached, hmem⟩
        rcases List.mem_append.mp hreached with hmem' | hhelper
        · exact ⟨hmem', hmem⟩
        · exact absurd hmem (common_notMem_ownNames hc hconv (by simp [Conversion.helpers] at hhelper ⊢; tauto))
      · rintro ⟨hmem', hmem⟩
        exact ⟨List.mem_append_left _ hmem', hmem⟩
  · intro b hb name
    have hroutes : b.dispatcher.routes = b.conversions.map fun conv => (conv.source, conv.name) := rfl
    simp only [Dispatcher.ownNames, List.mem_singleton, Dispatcher.reached, Dispatcher.written, hroutes, List.map_map,
      List.mem_append, List.mem_map, Function.comp_apply]
    constructor
    · rintro ⟨(hsource | ⟨conv, hconv, hname⟩) | hhelper, rfl⟩
      · exact ⟨rfl, hsource⟩
      · have hfrom := (orderly hc).froms conv (List.mem_flatMap.mpr ⟨b, hb, hconv⟩)
        rw [hname] at hfrom
        exact absurd hfrom (by decide)
      · exact absurd hhelper (by decide)
    · rintro ⟨rfl, hsource⟩
      exact ⟨.inl (.inl hsource), rfl⟩

end Compiled

/-- A union with a field of some type, and a destination that converts it. -/
def capturing (source type : String) : Schema where
  imports := []
  unions := [oneVariant source 1 "A" [("x", .ofName type)] [],
    oneVariant "D" 2 "A" [("x", .ofName type)] [fromOne source none 2]]

def capturingText (source type : String) : String :=
  "union " ++ source ++ " \x7b A \x7b x: " ++ type ++ " \x7d \x7d\n@from_union(" ++ source ++ ")\nunion D \x7b A \x7b x: " ++ type ++
    " \x7d \x7d\n"

def capturingPlan (source type : String) : Plan :=
  .described (oneVariant "D" 2 "A" [("x", .ofName type)] [fromOne source none 2]) none

def capturingCompiled (source type : String) : Compiled :=
  ⟨capturing source type, [capturingPlan source type],
    Module.ofPlans (capturing source type) [capturingPlan source type] none none⟩

theorem Compiled.captures_iff_type :
    ∃ c, compile (capturingText "S" "src") none none = .ok c ∧
      ∃ conv ∈ c.module.conversions, "src" ∈ conv.reached ∧ "src" ∈ conv.ownNames := by
  have hc : compile (capturingText "S" "src") none none = .ok (capturingCompiled "S" "src") :=
    compile_of_lettered (by repeat first | apply Lettered.append | exact Lettered.literal)
      (by decide +kernel) (by decide +kernel) (by decide +kernel)
  obtain ⟨conv, hconv, hsource⟩ : ∃ conv ∈ (capturingCompiled "S" "src").module.conversions, conv.source = .ofName "S" := by
    decide +kernel
  obtain ⟨hall, _⟩ := captures_iff hc
  obtain ⟨p, hp, _, _, hiff⟩ := hall conv hconv
  obtain rfl := List.mem_singleton.mp hp
  rw [hsource] at hiff
  obtain ⟨e, _, e', _, cand, hcand, f, hf, hS, hC, htype⟩ : ∃ e ∈ (capturingPlan "S" "src").table.entries,
      ∃ e' ∈ e.2.entries, ∃ cand ∈ e'.2, ∃ f ∈ cand.target.fields,
        (capturingPlan "S" "src").table.get? (.ofName "S") = some e.2 ∧ e.2.get? e'.1 = some e'.2 ∧
          f.type.head = "src" := by
    decide +kernel
  have hwrites : (capturingPlan "S" "src").Writes (.ofName "S") f.type.head := .type hS hC hcand hf
  rw [htype] at hwrites
  exact ⟨_, hc, conv, hconv, (hiff "src").mpr ⟨hwrites, .parameter⟩⟩

/-- A source is called like the parameter of the dispatcher, which never finds it. -/
theorem Compiled.captures_iff_source :
    ∃ c, compile (capturingText "value" "int") none none = .ok c ∧
      ∃ b ∈ c.module.bridges, "value" ∈ b.dispatcher.reached ∧ "value" ∈ b.dispatcher.ownNames :=
  ⟨capturingCompiled "value" "int",
    compile_of_lettered (by repeat first | apply Lettered.append | exact Lettered.literal)
      (by decide +kernel) (by decide +kernel) (by decide +kernel), by decide +kernel⟩

end UnionBridge
