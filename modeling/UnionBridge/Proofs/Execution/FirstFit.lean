import UnionBridge.Proofs.Coverage
import UnionBridge.Proofs.Execution.Attempts

/-! Arms without an effect container: running one is choosing a candidate and making its variant. -/
namespace UnionBridge

open UnionBridge.Action

variable {s : Scope} {conv : Conversion} {arm : Arm} {attempts : List Attempt} {σ : Sense} {f : FieldStep} {l : Locals}
  {x v : Value} {vs : List Value} {e : Failure} {L : List Candidate} {dest : String} {t : Target} {c : Candidate}

/-! ### Variables of fields -/

theorem slots_ofTarget (dest : String) (t : Target) :
    (Attempt.ofTarget dest t).steps.map (·.slot) = t.fields.map fun f => Naming.slot f.key := by
  simp [Attempt.ofTarget, FieldStep.ofField]

theorem nodup_slots (hn : t.body.fieldNames.Nodup) : ((Attempt.ofTarget dest t).steps.map (·.slot)).Nodup := by
  rw [slots_ofTarget]
  have hkeys := (Body.nodup_keys hn).map Naming.slot_injective
  rwa [List.map_map] at hkeys

theorem keys_keep {steps : List FieldStep} (hl : steps.length = vs.length) :
    (writesOf FieldStep.keep steps vs).map Prod.fst = steps.map (·.slot) := by
  have hkeep : writesOf FieldStep.keep steps vs = (steps.zip vs).map fun e => (e.1.slot, e.2) :=
    List.map_eq_flatMap.symm
  rw [hkeep, List.map_map]
  change (steps.zip vs).map ((·.slot) ∘ Prod.fst) = _
  rw [← List.map_map, List.map_fst_zip (by omega)]

theorem constant?_slot_of_mem (hf : f ∈ (Attempt.ofTarget dest t).steps) : constant? f.slot = none := by
  obtain ⟨g, _, rfl⟩ := mem_steps_ofTarget.mp hf
  exact Naming.constant?_slot g.key

/-- Every field that was kept is still there once all are. -/
theorem get?_kept (hn : t.body.fieldNames.Nodup) (hl : (Attempt.ofTarget dest t).steps.length = vs.length)
    (l : Locals) :
    List.Forall₂ (fun f v => ((Attempt.ofTarget dest t).keeping vs l).get? f.slot = some v)
      (Attempt.ofTarget dest t).steps vs := by
  refine List.forall₂_iff_zip.mpr ⟨hl, fun {f v} hmem => ?_⟩
  apply Table.get?_insertAll_of_mem
  · rw [keys_keep hl]
    exact nodup_slots hn
  · exact List.mem_flatMap.mpr ⟨_, hmem, by simp [FieldStep.keep]⟩

theorem eval_fetch_kept (hn : t.body.fieldNames.Nodup)
    (ho : ∀ f ∈ (Attempt.ofTarget dest t).steps, f.slot ∈ s.own)
    (hl : (Attempt.ofTarget dest t).steps.length = vs.length) :
    List.Forall₂ (fun f v => eval (s.fetch f.slot) ((Attempt.ofTarget dest t).keeping vs l) =
      (.ok v, (Attempt.ofTarget dest t).keeping vs l)) (Attempt.ofTarget dest t).steps vs := by
  refine List.forall₂_iff_zip.mpr ⟨hl, fun {f v} hmem => ?_⟩
  have hf := (List.of_mem_zip hmem).1
  exact Scope.eval_fetch_own (constant?_slot_of_mem hf) (ho f hf) ((List.forall₂_iff_zip.mp (get?_kept hn hl l)).2 hmem)

namespace Compiled

variable {source : String} {file doc : Option String} {compiled : Compiled} (hc : compile source file doc = .ok compiled)
include hc

theorem steps_ofField (hconv : conv ∈ compiled.module.conversions) :
    ∀ arm ∈ conv.arms, ∀ a ∈ arm.body.attempts, ∀ f ∈ a.steps, ∃ g, f = .ofField g := by
  obtain ⟨p, _, byCase, name, _, heq⟩ := conversion_cases hc hconv
  intro arm harm a ha f hf
  rw [heq] at harm
  obtain ⟨L, _, hb⟩ := Conversion.mem_arms_ofCases.mp harm
  rw [hb, ArmBody.attempts_ofCandidates] at ha
  obtain ⟨cand, _, rfl⟩ := List.mem_map.mp ha
  obtain ⟨g, _, rfl⟩ := mem_steps_ofTarget.mp hf
  exact ⟨g, rfl⟩

/-- A name that begins neither like the variables of fields nor like the other two is no variable of a conversion. -/
theorem notMem_ownNames {name : String} (hconv : conv ∈ compiled.module.conversions)
    (hname : name ∉ [Conversion.parameter, Attempt.resultSlot]) (hhead : name.toList.head? ≠ some 'f') :
    name ∉ conv.ownNames := by
  simp only [List.mem_cons, List.not_mem_nil, or_false, not_or] at hname
  intro hmem
  rcases Conversion.ownNames_cases (steps_ofField hc hconv) hmem with h | h | ⟨key, h⟩
  · exact hname.1 h
  · exact hname.2 h
  · exact Naming.slot_ne hhead h.symm

/-- The names that every conversion mentions are not variables of it. -/
theorem common_notMem_ownNames {name : String} (hconv : conv ∈ compiled.module.conversions)
    (hname : name ∈ ["_registry", "_rt", "isinstance"]) : name ∉ conv.ownNames := by
  simp only [List.mem_cons, List.not_mem_nil, or_false] at hname
  rcases hname with rfl | rfl | rfl <;> exact notMem_ownNames hc hconv (by decide) (by decide)

end Compiled

/-! ### Arms without a container -/

/-- The variant that a chosen candidate becomes. -/
def Sense.make (σ : Sense) (r : Candidate × List Value) : Value :=
  .record (σ.variant r.1.target.name) (r.1.target.body.attrs.zip r.2)

theorem attrs_ofTarget (dest : String) (t : Target) :
    (Attempt.ofTarget dest t).steps.map (·.attr) = t.body.attrs := Attempt.reads_ofTarget dest t

theorem nodup_attrs_ofTarget (hn : t.body.fieldNames.Nodup) :
    ((Attempt.ofTarget dest t).steps.map (·.attr)).Nodup := by
  rw [attrs_ofTarget]
  exact Body.nodup_attrs hn

theorem length_of_convert {r : Request} (hr : c.convert σ s x r = .ok vs) :
    (Attempt.ofTarget dest c.target).steps.length = vs.length := by
  rw [← mapM_steps r dest c, mapM_eq_ok_iff] at hr
  exact hr.length_eq

theorem eval_settle_plain (steps : List FieldStep) (l : Locals) :
    eval (steps.forM (·.settle none s)) l = (.ok (), l) := by
  induction steps with
  | nil => rfl
  | cons f steps ih =>
    rw [List.forM_eq_forM] at ih ⊢
    rw [List.forM_cons]
    exact (eval_bind_ok rfl).trans ih

section Plain

variable (hk : conv.container = none) (hc : Attempt.ofTarget dest c.target ∈ attempts)
  (hn : c.target.body.fieldNames.Nodup) (ho : ∀ f ∈ (Attempt.ofTarget dest c.target).steps, f.slot ∈ s.own)

section Reads

variable (h : s.Reads conv attempts σ)
include hk hc hn ho h

/-- Once the fields of a candidate are kept, the class of its variant makes the result of them. -/
theorem Scope.Reads.eval_conclude_plain (hl : (Attempt.ofTarget dest c.target).steps.length = vs.length) (l : Locals) :
    (eval ((Attempt.ofTarget dest c.target).conclude none s) ((Attempt.ofTarget dest c.target).keeping vs l)).1 =
      s.world.construct (.declared (σ.variant c.target.name)) ((Attempt.ofTarget dest c.target).supply vs) := by
  have hvalues : List.Forall₂ (fun f v => eval (s.fetch (f.valueSlot conv.container))
      ((Attempt.ofTarget dest c.target).keeping vs l) = (.ok v, (Attempt.ofTarget dest c.target).keeping vs l))
      (Attempt.ofTarget dest c.target).steps vs := by
    rw [hk]
    exact eval_fetch_kept hn ho hl
  have hconstruct := h.eval_construct hc hvalues
  rw [hk] at hconstruct
  rw [Attempt.conclude, eval_bind_ok (eval_settle_plain _ _), Attempt.finish, eval_bind, hconstruct]
  change _ = s.world.construct (.declared (σ.variant (Attempt.ofTarget dest c.target).case)) _
  cases s.world.construct (.declared (σ.variant (Attempt.ofTarget dest c.target).case)) _ <;> rfl

/-- A single candidate is converted field by field; the first failure escapes. -/
theorem Scope.Reads.eval_runDirect_plain (hx : l.get? Conversion.parameter = some x) :
    (eval ((Attempt.ofTarget dest c.target).runDirect none s) l).1 =
      c.convert σ s x .into >>= fun vs =>
        s.world.construct (.declared (σ.variant c.target.name)) ((Attempt.ofTarget dest c.target).supply vs) := by
  have hok : ∀ f ∈ (Attempt.ofTarget dest c.target).steps, ∀ (l : Locals) v, l.get? Conversion.parameter = some x →
      σ.reply s x .into f.attr f.type = .ok v → eval (f.convert none s) l = (.ok (), l.insertAll (f.keep v)) := by
    intro f hf l v hx hv
    have hask := h.eval_ask hc hf hx .into
    rw [hk, hv] at hask
    rw [FieldStep.convert, eval_bind_ok hask]
    rfl
  have herror : ∀ f ∈ (Attempt.ofTarget dest c.target).steps, ∀ (l : Locals) e, l.get? Conversion.parameter = some x →
      σ.reply s x .into f.attr f.type = .error e → eval (f.convert none s) l = (.error e, l) := by
    intro f hf l e hx he
    have hask := h.eval_ask hc hf hx .into
    rw [hk, he] at hask
    rw [FieldStep.convert, eval_bind_error hask]
  have hw : ∀ f ∈ (Attempt.ofTarget dest c.target).steps, ∀ v, Conversion.parameter ∉ (f.keep v).map Prod.fst :=
    fun f hf => parameter_notMem_keep hf
  rw [Attempt.runDirect]
  cases hr : c.convert σ s x .into with
  | ok vs =>
    have hl : (Attempt.ofTarget dest c.target).steps.length = vs.length := length_of_convert hr
    have hconclude := h.eval_conclude_plain hk hc hn ho hl l
    rw [Attempt.conclude, eval_bind_ok (eval_settle_plain _ _)] at hconclude
    rw [← mapM_steps .into dest c, mapM_eq_ok_iff] at hr
    rw [eval_bind_ok (eval_forM_ok hok hw hx hr)]
    exact hconclude
  | error e =>
    rw [← mapM_steps .into dest c] at hr
    obtain ⟨l', hl', _⟩ := eval_forM_error hok herror hw hx hr
    rw [eval_bind_error hl']
    rfl

end Reads

variable (h : s.Follows conv attempts σ)

include hc hn h in
/-- The class of a variant makes it, with the values of the fields. -/
theorem Scope.Follows.construct_eq (hl : (Attempt.ofTarget dest c.target).steps.length = vs.length) :
    s.world.construct (.declared (σ.variant c.target.name)) ((Attempt.ofTarget dest c.target).supply vs) =
      .ok (σ.make (c, vs)) := by
  have hlen : vs.length = ((Attempt.ofTarget dest c.target).steps.map (·.attr)).length := by simp [hl]
  have hconstruct := Attempt.construct_supply (h.makes _ hc) (nodup_attrs_ofTarget hn) hlen
  rw [attrs_ofTarget] at hconstruct
  exact hconstruct

include hk hc hn ho h

theorem eval_conclude_plain (hl : (Attempt.ofTarget dest c.target).steps.length = vs.length) (l : Locals) :
    (eval ((Attempt.ofTarget dest c.target).conclude none s) ((Attempt.ofTarget dest c.target).keeping vs l)).1 =
      .ok (σ.make (c, vs)) :=
  (h.reads.eval_conclude_plain hk hc hn ho hl l).trans (h.construct_eq hc hn hl)

theorem eval_runDirect_plain (hx : l.get? Conversion.parameter = some x) :
    (eval ((Attempt.ofTarget dest c.target).runDirect none s) l).1 =
      (c.convert σ s x .into).map fun vs => σ.make (c, vs) := by
  rw [h.reads.eval_runDirect_plain hk hc hn ho hx]
  cases hr : c.convert σ s x .into with
  | ok vs => exact h.construct_eq hc hn (length_of_convert hr)
  | error e => rfl

end Plain

theorem ArmBody.ofCandidates_single (dest : String) (c : Candidate) :
    ofCandidates dest [c] = .direct (Attempt.ofTarget dest c.target) := rfl

theorem ArmBody.ofCandidates_several (dest : String) (h : L.length ≠ 1) :
    ofCandidates dest L = .firstFit (L.map fun c => Attempt.ofTarget dest c.target) := by
  simp only [ofCandidates]
  split
  · rename_i a ha
    have := congrArg List.length ha
    simp at this
    omega
  · rfl

theorem ArmBody.mem_attempts (hb : arm.body = .ofCandidates dest L) (hc : c ∈ L) :
    Attempt.ofTarget dest c.target ∈ arm.body.attempts := by
  rw [hb, ArmBody.attempts_ofCandidates]
  exact List.mem_map.mpr ⟨c, hc, rfl⟩

/-- What is chosen is one of the candidates, and accepts. -/
theorem mem_of_chosen {case : String} (h : chosen σ s x dest case L = .ok (c, vs)) :
    c ∈ L ∧ ∃ r, c.convert σ s x r = .ok vs := by
  by_cases hlen : L.length = 1
  · obtain ⟨c', rfl⟩ := List.length_eq_one_iff.mp hlen
    simp only [chosen] at h
    cases hr : c'.convert σ s x .into with
    | error e =>
      rw [hr] at h
      cases h
    | ok us =>
      rw [hr] at h
      obtain ⟨rfl, rfl⟩ := Prod.mk.inj (Except.ok.inj h)
      exact ⟨List.mem_singleton_self _, .into, hr⟩
  · rw [chosen_several hlen] at h
    split at h
    · rename_i r hr
      obtain rfl := Except.ok.inj h
      obtain ⟨hc, hconvert⟩ := mem_of_firstFit hr
      exact ⟨hc, .tryInto, hconvert⟩
    · cases h
    · cases h

/-- An arm without a container takes the candidate that is chosen, and the class of its variant makes the result. -/
theorem Scope.Tries.eval_run_plain (h : s.Tries conv arm.body.attempts σ) (hk : conv.container = none)
    (harm : arm ∈ conv.arms) (hb : arm.body = .ofCandidates conv.dest L) (hn : ∀ c ∈ L, c.target.body.fieldNames.Nodup)
    (hx : l.get? Conversion.parameter = some x) :
    (eval (arm.body.run conv s arm.case) l).1 =
      chosen σ s x conv.dest s!"{conv.source}.{arm.case}" L >>= fun r =>
        s.world.construct (.declared (σ.variant r.1.target.name)) ((Attempt.ofTarget conv.dest r.1.target).supply r.2) := by
  have hL (c : Candidate) (hc : c ∈ L) : Attempt.ofTarget conv.dest c.target ∈ arm.body.attempts :=
    ArmBody.mem_attempts hb hc
  have ho (c : Candidate) (hc : c ∈ L) (f : FieldStep) (hf : f ∈ (Attempt.ofTarget conv.dest c.target).steps) :
      f.slot ∈ s.own := by
    have hmem := Conversion.valueSlot_mem_ownNames harm (hL c hc) hf
    rw [hk] at hmem
    rwa [h.own]
  by_cases hlen : L.length = 1
  · obtain ⟨c, rfl⟩ := List.length_eq_one_iff.mp hlen
    have hdirect := h.toReads.eval_runDirect_plain hk (hL c (by simp)) (hn c (by simp)) (ho c (by simp)) hx
    rw [hb, ArmBody.ofCandidates_single, ArmBody.run, hk, hdirect]
    simp only [chosen]
    cases c.convert σ s x .into <;> rfl
  · rw [chosen_several hlen]
    have hbody := hb.trans (ArmBody.ofCandidates_several conv.dest hlen)
    rw [hbody]
    cases hr : firstFit (Candidate.convert σ s x .tryInto) L with
    | error e => exact eval_run_error h hL hx hr
    | ok o =>
      cases o with
      | none => exact eval_run_none h hL hx hr
      | some r =>
        obtain ⟨c, vs⟩ := r
        obtain ⟨hc, hconvert⟩ := mem_of_firstFit hr
        obtain ⟨l', _, hl'⟩ := eval_run_some h hL hx hr
        rw [hl', hk]
        exact h.toReads.eval_conclude_plain hk (hL c hc) (hn c hc) (ho c hc) (length_of_convert hconvert) l'

/-- An arm without a container takes the candidate that is chosen and makes its variant. -/
theorem eval_run_plain (h : s.Follows conv arm.body.attempts σ) (hk : conv.container = none) (harm : arm ∈ conv.arms)
    (hb : arm.body = .ofCandidates conv.dest L) (hn : ∀ c ∈ L, c.target.body.fieldNames.Nodup)
    (hx : l.get? Conversion.parameter = some x) :
    (eval (arm.body.run conv s arm.case) l).1 =
      (chosen σ s x conv.dest s!"{conv.source}.{arm.case}" L).map σ.make := by
  rw [h.tries.eval_run_plain hk harm hb hn hx]
  cases hr : chosen σ s x conv.dest s!"{conv.source}.{arm.case}" L with
  | error e => rfl
  | ok r =>
    obtain ⟨c, vs⟩ := r
    obtain ⟨hc, _, hconvert⟩ := mem_of_chosen hr
    exact h.construct_eq (ArmBody.mem_attempts hb hc) (hn c hc) (length_of_convert hconvert)

/-- The arm for a case of a source, where the destination has no container, means first fit over the candidates of the
case, in the order in which the destination declares them. -/
theorem Compiled.firstFit_of_arm {source : String} {file doc : Option String} {c : Compiled} {p : Plan} {S : DottedName}
    {byCase : Table String (List Candidate)} {C : String} (hc : compile source file doc = .ok c) (hp : p ∈ c.plans)
    (hk : p.mapping.container = none) (hS : p.table.get? S = some byCase) (hC : byCase.get? C = some L) :
    ∃ conv arm, c.module.Emits S p.dest C conv arm ∧
      (∀ conv' arm', c.module.Emits S p.dest C conv' arm' → conv' = conv ∧ arm' = arm) ∧
      Mapping.Ordered L ∧
      ∀ (s : Scope) (σ : Sense) (l : Locals) (x : Value), s.Follows conv arm.body.attempts σ →
        l.get? Conversion.parameter = some x →
        (eval (arm.body.run conv s C) l).1 = (chosen σ s x p.dest s!"{S}.{C}" L).map σ.make := by
  obtain ⟨conv, arm, he, hcontainer, hbody, huniq⟩ := exists_arm hc hp hS hC
  obtain ⟨dest, hdest, hof⟩ := exists_destination hc hp
  refine ⟨conv, arm, he, huniq, hof.ordered_candidates hS hC, fun s σ l x h hx => ?_⟩
  have hn (c' : Candidate) (hc' : c' ∈ L) : c'.target.body.fieldNames.Nodup := by
    obtain ⟨v, hv, _, hb⟩ := hof.variant_of_candidate hS hC hc'
    rw [hb]
    exact (distinct hc).fields dest (List.mem_of_mem_filter hdest) v hv
  have hrun := eval_run_plain h (hcontainer.trans hk) he.mem_arms (he.dest_eq ▸ hbody) hn hx
  rwa [he.source_eq, he.dest_eq, he.case_eq] at hrun

/-- A class that makes values with some attributes, under a union. -/
def recordClass (name : String) (id union : Nat) (attrs : List String) : DeclaredClass where
  givenName := name
  name := name
  qualname := name
  bases := [.declared union]
  chain := [.declared id, .declared union, .builtin .object]
  attributes := ∅
  fields := some (Parameters.required attrs)

/-- A union class with its variants. -/
def unionClass (name : String) (id : Nat) (variants : List (String × Nat)) : DeclaredClass where
  givenName := name
  name := name
  qualname := name
  bases := [.builtin .object]
  chain := [.declared id, .builtin .object]
  attributes := ⟨variants.map fun v => (v.1, .cls (.declared v.2))⟩
  fields := none

/-- A destination with two variants for one case, of which the first wants an integer. -/
def twoFitsDest : Union where
  name := "D"
  variants := [
    ⟨"F", .named [("x", .ofName "int")], [⟨fromCase, [⟨none, .ofName "A", ⟨4, 12⟩⟩], ⟨4, 1⟩⟩], ⟨4, 1⟩⟩,
    ⟨"G", .named [("x", .ofName "str")], [⟨fromCase, [⟨none, .ofName "A", ⟨5, 12⟩⟩], ⟨5, 1⟩⟩], ⟨5, 1⟩⟩]
  directives := [⟨fromUnion, [⟨none, .ofName "S", ⟨2, 13⟩⟩], ⟨2, 1⟩⟩]
  place := ⟨2, 1⟩

def twoFits : Schema where
  imports := []
  unions := [⟨"S", [⟨"A", .named [("x", .ofName "str")], [], ⟨1, 11⟩⟩], [], ⟨1, 1⟩⟩, twoFitsDest]

def twoFitsText : String :=
  "union S \x7b A \x7b x: str \x7d \x7d\n@from_union(S)\nunion D \x7b\n" ++
    "@from_case(A) F \x7b x: int \x7d\n@from_case(A) G \x7b x: str \x7d\n\x7d\n"

def twoFitsAttempts : List Attempt :=
  [⟨"D", "F", .byKeyword, [⟨"f_x", "x", .ofName "int"⟩]⟩, ⟨"D", "G", .byKeyword, [⟨"f_x", "x", .ofName "str"⟩]⟩]

def twoFitsConversion : Conversion := ⟨"d_from_s", .ofName "S", "D", none, [⟨"A", .firstFit twoFitsAttempts⟩]⟩

/-- The classes of its module, and what the module has imported. -/
def twoFitsWorld : World where
  classes := [unionClass "S" 0 [("A", 1)], recordClass "A" 1 0 ["x"], unionClass "D" 2 [("F", 3), ("G", 4)],
    recordClass "F" 3 2 ["x"], recordClass "G" 4 2 ["x"]]
  modules := [⟨"m", ⟨[("S", .cls (.declared 0)), ("D", .cls (.declared 2)),
    ("_rt", .module (.library "casemap.runtime")), ("_registry", .registry "default")]⟩⟩]
  registries := ∅
  importable := ∅
  misplaced := ∅

def twoFitsScope : Scope where
  world := twoFitsWorld
  home := 0
  call := twoFitsWorld.call
  answer := twoFitsWorld.answer twoFitsWorld.call
  own := twoFitsConversion.ownNames

def twoFitsSense : Sense where
  registry := "default"
  type d := if d = .ofName "int" then .cls (.builtin .int) else .cls (.builtin .str)
  container := none
  variant name := if name = "F" then 3 else 4

set_option maxRecDepth 10000 in
theorem follows_twoFits : twoFitsScope.Follows twoFitsConversion twoFitsAttempts twoFitsSense where
  own := rfl
  calls _ _ := rfl
  registry _ := rfl
  types a ha f hf := by
    simp only [twoFitsAttempts, List.mem_cons, List.not_mem_nil, or_false] at ha
    rcases ha with rfl | rfl
    · obtain rfl := List.mem_singleton.mp hf
      intro l
      rfl
    · obtain rfl := List.mem_singleton.mp hf
      intro l
      rfl
  container := .none
  variants a ha := by
    simp only [twoFitsAttempts, List.mem_cons, List.not_mem_nil, or_false] at ha
    rcases ha with rfl | rfl
    · intro l
      rfl
    · intro l
      rfl
  makes a ha := by
    simp only [twoFitsAttempts, List.mem_cons, List.not_mem_nil, or_false] at ha
    rcases ha with rfl | rfl
    · exact ⟨⟨_, _, rfl, rfl, rfl⟩, rfl, by decide⟩
    · exact ⟨⟨_, _, rfl, rfl, rfl⟩, rfl, by decide⟩
  rejection _ := rfl
  exhaustion _ := rfl

def twoFitsCandidates : List Candidate :=
  [⟨"A", ⟨"F", .named [("x", .ofName "int")], 0, Span.ofPlace ⟨4, 1⟩ none⟩⟩,
    ⟨"A", ⟨"G", .named [("x", .ofName "str")], 1, Span.ofPlace ⟨5, 1⟩ none⟩⟩]

set_option maxRecDepth 10000 in
theorem Compiled.firstFit_of_arm_twoFits :
    ∃ c, compile twoFitsText none none = .ok c ∧
      ∃ conv arm, c.module.Emits (.ofName "S") "D" "A" conv arm ∧
        twoFitsScope.Follows conv arm.body.attempts twoFitsSense ∧
        (eval (arm.body.run conv twoFitsScope "A") ⟨[("src", .record 1 [("x", .text "ab")])]⟩).1 =
          .ok (.record 4 [("x", .text "ab")]) := by
  have hc : compile twoFitsText none none = .ok ⟨twoFits, _, _⟩ :=
    compile_of_lettered (.append .literal .literal) (by decide +kernel) (by decide +kernel) (by decide +kernel)
  have hS : (Plan.described twoFitsDest none).table.get? (.ofName "S") = some ⟨[("A", twoFitsCandidates)]⟩ := by
    decide +kernel
  obtain ⟨conv, arm, he, huniq, _, hrun⟩ := firstFit_of_arm hc (List.mem_singleton_self _) rfl hS (C := "A") rfl
  obtain ⟨rfl, rfl⟩ := huniq twoFitsConversion ⟨"A", .firstFit twoFitsAttempts⟩
    ⟨by decide +kernel, rfl, rfl, by simp [twoFitsConversion], rfl⟩
  refine ⟨_, hc, _, _, he, follows_twoFits, ?_⟩
  rw [hrun twoFitsScope twoFitsSense _ (.record 1 [("x", .text "ab")]) follows_twoFits rfl]
  rfl

end UnionBridge
