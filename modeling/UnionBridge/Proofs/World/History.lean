import UnionBridge.Proofs.World.Registry
import UnionBridge.Session.Basic

/-! What a look-up finds after any history of registrations: the last one for the first class of the chain that has
any. -/
namespace UnionBridge

/-- A call that registers a converter. -/
structure RegisterCall where
  registry : String
  key : ConverterKey
  converter : Converter

variable {s : Session} {registry : String} {e e' : RegisterCall} {calls calls' before rest : List RegisterCall}
  {q : ConverterKey} {f : Converter} {c k : ClassRef} {source target : Value} {fallible : Bool}

namespace RegisterCall

/-- Whether a call registers its converter for a key. One whose source or target cannot be part of a key fails. -/
def Registers (e : RegisterCall) (registry : String) (q : ConverterKey) : Prop :=
  e.registry = registry ∧ e.key.source.unhashable? = none ∧ e.key.target.unhashable? = none ∧ e.key.same q

instance : Decidable (e.Registers registry q) := inferInstanceAs (Decidable (_ ∧ _))

/-- The session after the call, which leaves it as it is if it fails. -/
def run (e : RegisterCall) (s : Session) : Session :=
  match s.register e.registry e.key.source e.key.target e.key.fallible e.converter with
  | .ok s' => s'
  | .error _ => s

theorem run_cases (e : RegisterCall) (s : Session) :
    (e.key.source.unhashable? = none ∧ e.key.target.unhashable? = none ∧
      e.run s = { s with world := s.world.register e.registry e.key e.converter }) ∨
    (¬(e.key.source.unhashable? = none ∧ e.key.target.unhashable? = none) ∧ e.run s = s) := by
  simp only [run, Session.register, ConverterKey.require, World.requireKey]
  cases hsource : e.key.source.unhashable? with
  | some name => exact .inr ⟨fun h => Option.some_ne_none name h.1, rfl⟩
  | none =>
    cases htarget : e.key.target.unhashable? with
    | some name => exact .inr ⟨fun h => Option.some_ne_none name h.2, rfl⟩
    | none => exact .inl ⟨rfl, rfl, rfl⟩

/-- One call changes what its registry has for its own key. -/
theorem get?_run (e : RegisterCall) (s : Session) (registry : String) (q : ConverterKey) :
    ((e.run s).world.registry registry).get? q =
      if e.Registers registry q then some e.converter else (s.world.registry registry).get? q := by
  rcases e.run_cases s with ⟨hsource, htarget, hrun⟩ | ⟨hfails, hrun⟩
  · rw [hrun, World.registry_register_ite]
    by_cases hname : e.registry = registry
    · rw [if_pos hname, Registry.get?_register]
      simp only [Registers, hname, hsource, htarget, true_and]
    · rw [if_neg hname, if_neg fun h => hname h.1]
  · rw [hrun, if_neg fun h => hfails ⟨h.2.1, h.2.2.1⟩]

end RegisterCall

namespace Session

def withRegistries (s : Session) (rs : Table String Registry) : Session :=
  { s with world := { s.world with registries := rs } }

/-- The session after a history of calls. -/
def after (s : Session) (calls : List RegisterCall) : Session := calls.foldl (fun s e => e.run s) s

theorem run_eq (e : RegisterCall) (s : Session) : ∃ rs, e.run s = s.withRegistries rs := by
  rcases e.run_cases s with ⟨_, _, hrun⟩ | ⟨_, hrun⟩
  · exact ⟨_, hrun⟩
  · exact ⟨s.world.registries, hrun⟩

theorem after_eq (s : Session) (calls : List RegisterCall) : ∃ rs, s.after calls = s.withRegistries rs := by
  induction calls generalizing s with
  | nil => exact ⟨s.world.registries, rfl⟩
  | cons e calls ih =>
    obtain ⟨rs, hrun⟩ := run_eq e s
    obtain ⟨rs', hafter⟩ := ih (e.run s)
    rw [hrun] at hafter
    exact ⟨rs', by rw [after, List.foldl_cons, hrun]; exact hafter⟩

/-- The converter of the last of the calls that registers for a key. -/
def lastOf (calls : List RegisterCall) (registry : String) (q : ConverterKey) : Option Converter :=
  (calls.reverse.find? fun e => e.Registers registry q).map (·.converter)

/-- After a history a registry has the last converter that it registered for a key, or what it had before. -/
theorem get?_after (s : Session) (calls : List RegisterCall) (registry : String) (q : ConverterKey) :
    ((s.after calls).world.registry registry).get? q =
      (lastOf calls registry q).or ((s.world.registry registry).get? q) := by
  induction calls using List.reverseRecOn with
  | nil => rfl
  | append_singleton calls e ih =>
    have hlast : s.after (calls ++ [e]) = e.run (s.after calls) := by
      rw [after, List.foldl_append]
      rfl
    rw [hlast, RegisterCall.get?_run, ih, lastOf, lastOf, List.reverse_concat, List.find?_cons]
    by_cases he : e.Registers registry q
    · simp [he]
    · simp [he]

theorem lastOf_eq_none : lastOf calls registry q = none ↔ ∀ e ∈ calls, ¬e.Registers registry q := by
  simp [lastOf]

theorem lastOf_eq_some : lastOf calls registry q = some f ↔ ∃ before e rest, calls = before ++ e :: rest ∧
    e.Registers registry q ∧ (∀ e' ∈ rest, ¬e'.Registers registry q) ∧ e.converter = f := by
  simp only [lastOf, Option.map_eq_some_iff, List.find?_eq_some_iff_append, decide_eq_true_eq, Bool.not_eq_true',
    decide_eq_false_iff_not]
  constructor
  · rintro ⟨e, ⟨he, rest, before, hsplit, hrest⟩, rfl⟩
    refine ⟨before.reverse, e, rest.reverse, ?_, he, fun e' he' => hrest e' (List.mem_reverse.mp he'), rfl⟩
    rw [← List.reverse_reverse calls, hsplit]
    simp
  · rintro ⟨before, e, rest, rfl, he, hrest, rfl⟩
    exact ⟨e, ⟨he, rest.reverse, before.reverse, by simp, fun e' he' => hrest e' (List.mem_reverse.mp he')⟩, rfl⟩

/-- A call that registers nothing for a key may as well not be made. -/
theorem lastOf_skip (he : ¬e.Registers registry q) :
    lastOf (before ++ e :: rest) registry q = lastOf (before ++ rest) registry q := by
  simp [lastOf, he]

theorem lastOf_swap (h : ¬(e.Registers registry q ∧ e'.Registers registry q)) :
    lastOf (before ++ e :: e' :: rest) registry q = lastOf (before ++ e' :: e :: rest) registry q := by
  by_cases he : e.Registers registry q
  · have he' : ¬e'.Registers registry q := fun he' => h ⟨he, he'⟩
    simp [lastOf, he, he']
  · simp [lastOf, List.find?_cons, he]

/-! ### Look-ups -/

theorem lookup_after_refused {name : String} (h : target.unhashable? = some name) :
    (s.after calls).lookup registry (.cls c) target fallible =
      .error (.failed (.error .typeError s!"unhashable type: '{name}'")) := by
  rw [lookup, World.lookup, World.requireKey, h]
  rfl

theorem lookup_after (h : target.unhashable? = none) :
    (s.after calls).lookup registry (.cls c) target fallible =
      .ok ((s.world.chain c).findSome? fun k =>
        ((s.after calls).world.registry registry).get? ⟨.cls k, target, fallible⟩) := by
  obtain ⟨rs, hafter⟩ := s.after_eq calls
  rw [lookup, World.lookup, World.requireKey, h, hafter]
  rfl

/-- Histories that have the same last registrations cannot be told apart. -/
theorem lookup_after_congr (h : ∀ registry q, lastOf calls registry q = lastOf calls' registry q) :
    (s.after calls).lookup registry source target fallible =
      (s.after calls').lookup registry source target fallible := by
  have hget q : ((s.after calls).world.registry registry).get? q =
      ((s.after calls').world.registry registry).get? q := by
    rw [get?_after, get?_after, h]
  cases source with
  | cls c =>
    cases hkey : target.unhashable? with
    | some name => rw [lookup_after_refused hkey, lookup_after_refused hkey]
    | none =>
      rw [lookup_after hkey, lookup_after hkey]
      simp only [hget]
  | _ =>
    obtain ⟨rs, hafter⟩ := s.after_eq calls
    obtain ⟨rs', hafter'⟩ := s.after_eq calls'
    rw [hafter, hafter']
    rfl

/-! ### The history of a registry -/

/-- How what a registry answers depends on the history of the calls since it was empty. -/
structure Reflects (s : Session) (registry : String) : Prop where
  /-- A look-up finds the last converter for the first class of the chain that has any for the target and the flag. -/
  found (calls : List RegisterCall) (c : ClassRef) (target : Value) (fallible : Bool) (f : Converter)
    (hkey : target.unhashable? = none) : (s.after calls).lookup registry (.cls c) target fallible = .ok (some f) ↔
      ∃ above k below before e rest, s.world.chain c = above ++ k :: below ∧ calls = before ++ e :: rest ∧
        (∀ a ∈ above, ∀ e' ∈ calls, ¬e'.Registers registry ⟨.cls a, target, fallible⟩) ∧
        e.Registers registry ⟨.cls k, target, fallible⟩ ∧
        (∀ e' ∈ rest, ¬e'.Registers registry ⟨.cls k, target, fallible⟩) ∧ e.converter = f
  missing (calls : List RegisterCall) (c : ClassRef) (target : Value) (fallible : Bool)
    (hkey : target.unhashable? = none) : (s.after calls).lookup registry (.cls c) target fallible = .ok none ↔
      ∀ k ∈ s.world.chain c, ∀ e ∈ calls, ¬e.Registers registry ⟨.cls k, target, fallible⟩
  refused (calls : List RegisterCall) (c : ClassRef) (target : Value) (fallible : Bool) (name : String)
    (hkey : target.unhashable? = some name) : (s.after calls).lookup registry (.cls c) target fallible =
      .error (.failed (.error .typeError s!"unhashable type: '{name}'"))
  /-- Registrations for different keys commute. -/
  commute (before rest : List RegisterCall) (e e' : RegisterCall) (source target : Value) (fallible : Bool)
    (hne : e.registry = e'.registry → ¬e.key.same e'.key) :
    (s.after (before ++ e :: e' :: rest)).lookup registry source target fallible =
      (s.after (before ++ e' :: e :: rest)).lookup registry source target fallible
  /-- Once a class has a converter, one for another class is not found in its place unless that class is before it. -/
  specific (before rest : List RegisterCall) (e : RegisterCall) (base c k : ClassRef) (above below : List ClassRef)
    (target : Value) (fallible : Bool) (hchain : s.world.chain c = above ++ k :: below)
    (hk : ∃ e' ∈ before ++ rest, e'.Registers registry ⟨.cls k, target, fallible⟩)
    (hbase : e.key.source = .cls base) (hafter : base ∉ above ++ [k]) :
    (s.after (before ++ e :: rest)).lookup registry (.cls c) target fallible =
      (s.after (before ++ rest)).lookup registry (.cls c) target fallible

theorem lookup_reflects (s : Session) (registry : String) (hempty : s.world.registry registry = ∅) :
    s.Reflects registry := by
  have hget calls q : ((s.after calls).world.registry registry).get? q = lastOf calls registry q := by
    rw [get?_after, hempty]
    exact Option.or_none
  refine ⟨?found, ?missing, ?refused, ?commute, ?specific⟩
  case found =>
    intro calls c target fallible f hkey
    rw [lookup_after hkey, Except.ok.injEq, List.findSome?_eq_some_iff]
    simp only [hget, lastOf_eq_some, lastOf_eq_none]
    constructor
    · rintro ⟨above, k, below, hchain, ⟨before, e, rest, hcalls, he, hrest, hf⟩, habove⟩
      exact ⟨above, k, below, before, e, rest, hchain, hcalls, habove, he, hrest, hf⟩
    · rintro ⟨above, k, below, before, e, rest, hchain, hcalls, habove, he, hrest, hf⟩
      exact ⟨above, k, below, hchain, ⟨before, e, rest, hcalls, he, hrest, hf⟩, habove⟩
  case missing =>
    intro calls c target fallible hkey
    rw [lookup_after hkey, Except.ok.injEq, List.findSome?_eq_none_iff]
    simp only [hget, lastOf_eq_none]
  case refused => exact fun calls c target fallible name hkey => lookup_after_refused hkey
  case commute =>
    intro before rest e e' source target fallible hne
    refine lookup_after_congr fun registry q => lastOf_swap fun ⟨he, he'⟩ => ?_
    exact hne (he.1.trans he'.1.symm) (ConverterKey.same_trans he.2.2.2 (ConverterKey.same_symm he'.2.2.2))
  case specific =>
    intro before rest e base c k above below target fallible hchain hk hbase hafter
    have hskip a (ha : a ∈ above ++ [k]) : lastOf (before ++ e :: rest) registry ⟨.cls a, target, fallible⟩ =
        lastOf (before ++ rest) registry ⟨.cls a, target, fallible⟩ := by
      refine lastOf_skip fun he => hafter ?_
      have hsource : (Value.cls base).equal (.cls a) := hbase ▸ (ConverterKey.same_iff.mp he.2.2.2).1
      obtain ⟨rfl⟩ := Value.eq_of_equal rfl hsource
      exact ha
    obtain ⟨f, hf⟩ : ∃ f, lastOf (before ++ rest) registry ⟨.cls k, target, fallible⟩ = some f := by
      rw [← Option.ne_none_iff_exists', Ne, lastOf_eq_none]
      obtain ⟨e', he', hregisters⟩ := hk
      exact fun hnone => hnone e' he' hregisters
    cases hkey : target.unhashable? with
    | some name => rw [lookup_after_refused hkey, lookup_after_refused hkey]
    | none =>
      rw [lookup_after hkey, lookup_after hkey, hchain]
      have habove : (above.findSome? fun a => lastOf (before ++ e :: rest) registry ⟨.cls a, target, fallible⟩) =
          above.findSome? fun a => lastOf (before ++ rest) registry ⟨.cls a, target, fallible⟩ := by
        rw [← List.head?_filterMap, ← List.head?_filterMap,
          List.filterMap_congr fun a ha => hskip a (List.mem_append_left _ ha)]
      simp only [hget, List.findSome?_append, List.findSome?_cons, habove, hskip k (by simp), hf]

/-- A class, then a class above it, and that one once more. -/
def crossedCalls : List RegisterCall :=
  let registers (source : Builtin) (label : String) : RegisterCall :=
    ⟨"default", ⟨.cls (.builtin source), .cls (.builtin .str), false⟩, .custom label (.constant .none)⟩
  [registers .bool "narrow", registers .int "wide", registers .int "wider"]

theorem lookup_reflects_crossed :
    Session.initial.world.registry "default" = ∅ ∧
      (Session.initial.after crossedCalls).lookup "default" (.cls (.builtin .bool)) (.cls (.builtin .str)) false =
        .ok (some (.custom "narrow" (.constant .none))) ∧
      (Session.initial.after crossedCalls).lookup "default" (.cls (.builtin .int)) (.cls (.builtin .str)) false =
        .ok (some (.custom "wider" (.constant .none))) := by
  have hempty : Session.initial.world.registry "default" = ∅ := rfl
  refine ⟨hempty, ?narrow, ?wider⟩
  case narrow =>
    exact ((lookup_reflects _ _ hempty).found _ _ _ _ _ rfl).mpr
      ⟨[], .builtin .bool, _, [], _, _, rfl, rfl, nofun, by decide, by decide, rfl⟩
  case wider =>
    exact ((lookup_reflects _ _ hempty).found _ _ _ _ _ rfl).mpr
      ⟨[], .builtin .int, _, [_, _], _, [], rfl, rfl, nofun, by decide, nofun, rfl⟩

/-- A look-up for what cannot be part of a key fails, so that nothing is registered for it is not what it answers. -/
theorem lookup_refuses_lists : ¬∀ (calls : List RegisterCall) (c : ClassRef) (target : Value) (fallible : Bool),
    (∀ k ∈ Session.initial.world.chain c, ∀ e ∈ calls, ¬e.Registers "default" ⟨.cls k, target, fallible⟩) →
      (Session.initial.after calls).lookup "default" (.cls c) target fallible = .ok none := by
  intro h
  have hnone := h [] (.builtin .int) (.list []) false fun _ _ _ he => (List.not_mem_nil he).elim
  rw [lookup_after_refused rfl] at hnone
  cases hnone

end Session

end UnionBridge
