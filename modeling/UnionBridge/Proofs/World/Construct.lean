import UnionBridge.Proofs.Table
import UnionBridge.World.Construct

/-! Constructors that are given a value for each of their parameters, by place or by name, and the attributes of what
they make. -/
namespace UnionBridge

namespace Parameters

variable {function : String} {unsaid : Nat} {ps : List Parameter} {s : Supplied} {bound kw : List (String × Value)}
  {vs : List Value}

theorem byName_eq_ok {names : List String} (hk : ∀ e ∈ kw, e.1 ∈ names) (hn : ((bound ++ kw).map Prod.fst).Nodup) :
    byName function names bound kw = .ok (bound ++ kw) := by
  induction kw generalizing bound with
  | nil => simp [byName]
  | cons e kw ih =>
    obtain ⟨name, v⟩ := e
    have hname : name ∈ names := hk (name, v) (by simp)
    have hfresh : name ∉ bound.map Prod.fst := by
      rw [List.map_append, List.nodup_append] at hn
      intro hb
      exact hn.2.2 name hb name (by simp) rfl
    have happ : bound ++ (name, v) :: kw = (bound ++ [(name, v)]) ++ kw := by simp
    rw [byName, if_neg (by simpa using hname), if_neg (by simpa using hfresh), happ]
    exact ih (fun e he => hk e (by simp [he])) (happ ▸ hn)

/-- Looking every parameter up among values under the same names gives these values back. -/
theorem filterMap_find? {es : List (String × Value)} (hk : es.map Prod.fst = ps.map (·.name))
    (hf : ∀ e ∈ es, (bound.find? fun b => b.1 = e.1) = some e) :
    (ps.filterMap fun p => (bound.find? fun b => b.1 = p.name) <|> p.default.map fun v => (p.name, v)) = es := by
  induction ps generalizing es with
  | nil => simpa using hk.symm
  | cons p ps ih =>
    cases es with
    | nil => simp at hk
    | cons e es =>
      simp only [List.map_cons, List.cons.injEq] at hk
      have hp : (bound.find? fun b => b.1 = p.name) = some e := hk.1 ▸ hf e (by simp)
      have hhead : ((bound.find? fun b => b.1 = p.name) <|> p.default.map fun v => (p.name, v)) = some e := by
        rw [hp]
        rfl
      simp only [List.filterMap_cons, hhead]
      rw [ih hk.2 fun e he => hf e (by simp [he])]

/-- A call that passes one value for each parameter binds them all. -/
theorem bind_eq_ok (hn : (ps.map (·.name)).Nodup) (hl : vs.length = ps.length) (hs : s.positional.length ≤ ps.length)
    (hb : byName function (ps.map (·.name)) ((ps.map (·.name)).zip s.positional) s.keyword =
      .ok ((ps.map (·.name)).zip vs)) :
    bind function unsaid ps s = .ok ((ps.map (·.name)).zip vs) := by
  have hkeys : ((ps.map (·.name)).zip vs).map Prod.fst = ps.map (·.name) :=
    List.map_fst_zip (by simp [hl])
  have hfind (e : String × Value) (he : e ∈ (ps.map (·.name)).zip vs) :
      (((ps.map (·.name)).zip vs).find? fun b => b.1 = e.1) = some e := by
    have hn' : (((ps.map (·.name)).zip vs).map Prod.fst).Nodup := by rwa [hkeys]
    exact find?_of_nodup hn' he
  have hmissing : (ps.filter fun p =>
      p.default.isNone && !(((ps.map (·.name)).zip vs).map Prod.fst).contains p.name) = [] := by
    rw [List.filter_eq_nil_iff]
    intro p hp
    simp [hkeys, List.mem_map_of_mem hp]
  simp only [bind, hb, Except.bind, Bind.bind, hmissing]
  rw [if_neg (by omega), filterMap_find? hkeys hfind]
  rfl

theorem bind_positional (hn : (ps.map (·.name)).Nodup) (hl : vs.length = ps.length) :
    bind function unsaid ps ⟨vs, []⟩ = .ok ((ps.map (·.name)).zip vs) :=
  bind_eq_ok hn hl (Nat.le_of_eq hl) rfl

theorem bind_keyword (hn : (ps.map (·.name)).Nodup) (hl : vs.length = ps.length) :
    bind function unsaid ps ⟨[], (ps.map (·.name)).zip vs⟩ = .ok ((ps.map (·.name)).zip vs) := by
  have hkeys : ((ps.map (·.name)).zip vs).map Prod.fst = ps.map (·.name) :=
    List.map_fst_zip (by simp [hl])
  apply bind_eq_ok hn hl (Nat.zero_le _)
  rw [List.zip_nil_right, byName_eq_ok]
  · rfl
  · intro e he
    exact (List.of_mem_zip he).1
  · rwa [List.nil_append, hkeys]

end Parameters

namespace World

variable {w : World} {id : Nat} {attrs : List String} {vs : List Value}

/-- A declared class has values with some attributes: its constructor takes them, and each can be set. -/
structure Makes (w : World) (id : Nat) (attrs : List String) : Prop where
  takes : ∃ cls ps, w.class? (.declared id) = some cls ∧ cls.fields = some ps ∧ ps.map (·.name) = attrs
  creates : w.override? (.declared id) "__new__" = none
  settable : ∀ attr ∈ attrs, attr ≠ "__class__" ∧ attr ≠ "__weakref__"

theorem Makes.of_fields (hf : ((w.class? (.declared id)).bind (·.fields)).map (·.map (·.name)) = some attrs)
    (hc : w.override? (.declared id) "__new__" = none)
    (hs : ∀ attr ∈ attrs, attr ≠ "__class__" ∧ attr ≠ "__weakref__") : w.Makes id attrs := by
  obtain ⟨ps, hps, hnames⟩ := Option.map_eq_some_iff.mp hf
  obtain ⟨cls, hcls, hfields⟩ := Option.bind_eq_some_iff.mp hps
  exact ⟨⟨cls, ps, hcls, hfields, hnames⟩, hc, hs⟩

theorem fieldRefusal?_eq_none {cls : ClassRef} {e : String × Value} (h : e.1 ≠ "__class__" ∧ e.1 ≠ "__weakref__") :
    w.fieldRefusal? cls e = none := by
  obtain ⟨name, v⟩ := e
  simp only at h
  simp only [fieldRefusal?]
  split <;> simp_all

theorem Makes.construct_of_bind (h : w.Makes id attrs) {s : Supplied}
    (hb : ∀ function ps, ps.map Parameter.name = attrs → Parameters.bind function 1 ps s = .ok (attrs.zip vs)) :
    w.construct (.declared id) s = .ok (.record id (attrs.zip vs)) := by
  obtain ⟨cls, ps, hcls, hfields, hnames⟩ := h.takes
  have hrefuse : (attrs.zip vs).findSome? (w.fieldRefusal? (.declared id)) = none := by
    rw [List.findSome?_eq_none_iff]
    intro e he
    exact fieldRefusal?_eq_none (h.settable e.1 (List.of_mem_zip he).1)
  obtain ⟨givenName, name, qualname, bases, chain, attributes, fields⟩ := cls
  simp only at hfields
  subst hfields
  simp only [construct, instantiate, h.creates, hcls, fill, hb _ ps hnames, bind, Except.bind, hrefuse]
  rfl

/-- A constructor that gets one value for each attribute, by place or by name, makes the value with these attributes. -/
theorem Makes.construct_eq_ok (h : w.Makes id attrs) (hn : attrs.Nodup) (hl : vs.length = attrs.length) :
    w.construct (.declared id) ⟨vs, []⟩ = .ok (.record id (attrs.zip vs)) ∧
      w.construct (.declared id) ⟨[], attrs.zip vs⟩ = .ok (.record id (attrs.zip vs)) := by
  constructor
  · apply h.construct_of_bind
    rintro function ps rfl
    exact Parameters.bind_positional hn (by simpa using hl)
  · apply h.construct_of_bind
    rintro function ps rfl
    exact Parameters.bind_keyword hn (by simpa using hl)

/-- An attribute of a value is what the value was made with, unless every value has it anyway. -/
theorem member_record {k : Nat} {es : List (String × Value)} {attr : String} {y : Value}
    (hr : w.override? (.declared k) "__getattribute__" = none) (hs : attr ∉ ["__class__", "__dict__", "__weakref__"])
    (hn : (es.map Prod.fst).Nodup) (he : (attr, y) ∈ es) : w.member (.record k es) attr = .ok y := by
  simp only [List.mem_cons, List.not_mem_nil, or_false, not_or] at hs
  have hover : w.overridden? (.record k es) "__getattribute__" [.text attr] = none := by
    rw [overridden?, hr]
    rfl
  have hdata : w.instanceData? (.record k es) attr = none := by
    have hnumber : numberData? (.record k es) attr = none := rfl
    have hhome : w.homeData? (.record k es) attr = none := rfl
    unfold instanceData?
    split <;> simp_all
  have hfind : es.find? (·.1 = attr) = some (attr, y) := find?_of_nodup hn he
  simp only [member, hover, member?, hdata, ownValue?, hfind]
  rfl

end World

end UnionBridge
