import UnionBridge.Execution.Load
import UnionBridge.Proofs.World.Additions

/-! What parts of loading come to: a result, and the world that they leave. -/
namespace UnionBridge

/-- What comes well out of two steps came well out of both. -/
theorem Except.exists_of_bind_eq_ok {α β ε : Type} {r : Except ε α} {f : α → Except ε β} {x : β}
    (h : r >>= f = .ok x) : ∃ v, r = .ok v ∧ f v = .ok x := by
  cases r with
  | error e => cases h
  | ok v => exact ⟨v, rfl, h⟩

namespace Loading

variable {α β : Type} {a : Loading α} {f : α → Loading β} {u v : α} {x : β} {w w' w₁ : World} {e : Failure}
  {home : Nat} {name : String}

/-- A part of loading that starts in one world comes out well and leaves another. -/
def Gives (a : Loading α) (w : World) (v : α) (w' : World) : Prop := a.run.run w = (.ok v, w')

theorem gives_bind : Gives (a >>= f) w x w' ↔ ∃ v w₁, Gives a w v w₁ ∧ Gives (f v) w₁ x w' := by
  simp only [Gives, ExceptT.run_bind, StateT.run_bind]
  cases h : a.run.run w with
  | mk r w₁ =>
    cases r with
    | error e =>
      constructor
      · intro he
        cases he
      · rintro ⟨v, w₁, ⟨⟩, _⟩
    | ok v =>
      constructor
      · intro hv
        exact ⟨v, w₁, rfl, hv⟩
      · rintro ⟨v, w₁, ⟨⟩, hv⟩
        exact hv

theorem gives_pure : Gives (pure u) w v w' ↔ v = u ∧ w' = w := by
  constructor
  · rintro ⟨⟩
    exact ⟨rfl, rfl⟩
  · rintro ⟨rfl, rfl⟩
    rfl

/-- What cannot change the world leaves it as it is. -/
theorem gives_lift {r : Except Failure α} : Gives (liftM r) w v w' ↔ r = .ok v ∧ w' = w := by
  constructor
  · intro h
    exact ⟨congrArg Prod.fst h, (congrArg Prod.snd h).symm⟩
  · rintro ⟨rfl, rfl⟩
    rfl

theorem gives_get : Gives get w w₁ w' ↔ w₁ = w ∧ w' = w := gives_pure

theorem gives_set {u : PUnit} : Gives (set w₁) w u w' ↔ w' = w₁ := by
  constructor
  · intro h
    exact (congrArg Prod.snd h).symm
  · rintro rfl
    rfl

theorem gives_modify {g : World → World} {u : PUnit} : Gives (modify g) w u w' ↔ w' = g w := by
  constructor
  · intro h
    exact (congrArg Prod.snd h).symm
  · rintro rfl
    rfl

theorem not_gives_throw : ¬Gives (throw e : Loading α) w v w' := by
  rintro ⟨⟩

theorem gives_forM_nil {γ : Type} {g : γ → Loading PUnit} {u : PUnit} : Gives (([] : List γ).forM g) w u w' ↔ w' = w :=
  ⟨fun h => (gives_pure.mp h).2, fun h => gives_pure.mpr ⟨rfl, h⟩⟩

theorem gives_forM_cons {γ : Type} {g : γ → Loading PUnit} {c : γ} {cs : List γ} {u : PUnit} :
    Gives ((c :: cs).forM g) w u w' ↔ ∃ w₁, Gives (g c) w ⟨⟩ w₁ ∧ Gives (cs.forM g) w₁ u w' := by
  rw [List.forM, gives_bind]
  constructor
  · rintro ⟨_, w₁, hc, hcs⟩
    exact ⟨w₁, hc, hcs⟩
  · rintro ⟨w₁, hc, hcs⟩
    exact ⟨⟨⟩, w₁, hc, hcs⟩

theorem gives_forM_append {γ : Type} {g : γ → Loading PUnit} {cs ds : List γ} {u : PUnit} :
    Gives ((cs ++ ds).forM g) w u w' ↔ ∃ w₁, Gives (cs.forM g) w ⟨⟩ w₁ ∧ Gives (ds.forM g) w₁ u w' := by
  induction cs generalizing w with
  | nil =>
    constructor
    · intro h
      exact ⟨w, gives_forM_nil.mpr rfl, h⟩
    · rintro ⟨w₁, hnil, h⟩
      obtain rfl := gives_forM_nil.mp hnil
      exact h
  | cons c cs ih =>
    simp only [List.cons_append, gives_forM_cons, ih]
    constructor
    · rintro ⟨w₁, hc, w₂, hcs, hds⟩
      exact ⟨w₂, ⟨w₁, hc, hcs⟩, hds⟩
    · rintro ⟨w₂, ⟨w₁, hc, hcs⟩, hds⟩
      exact ⟨w₁, hc, w₂, hcs, hds⟩

/-- What every step preserves, a run of steps preserves. -/
theorem preserved_of_forM {γ : Type} {P : World → Prop} {g : γ → Loading PUnit} {cs : List γ} {u : PUnit} (hw : P w)
    (h : Gives (cs.forM g) w u w') (hstep : ∀ c ∈ cs, ∀ w w', P w → Gives (g c) w ⟨⟩ w' → P w') : P w' := by
  induction cs generalizing w with
  | nil =>
    obtain rfl := gives_forM_nil.mp h
    exact hw
  | cons c cs ih =>
    obtain ⟨w₁, hc, hcs⟩ := gives_forM_cons.mp h
    exact ih (hstep c List.mem_cons_self w w₁ hw hc) hcs fun d hd => hstep d (List.mem_cons_of_mem c hd)

theorem gives_bind_get {f : World → Loading β} : Gives (get >>= f) w x w' ↔ Gives (f w) w x w' := by
  rw [gives_bind]
  constructor
  · rintro ⟨_, w₁, hget, hf⟩
    obtain ⟨rfl, rfl⟩ := gives_get.mp hget
    exact hf
  · intro hf
    exact ⟨w, w, gives_get.mpr ⟨rfl, rfl⟩, hf⟩

theorem gives_bind_set {w₁ : World} {f : PUnit → Loading β} : Gives (set w₁ >>= f) w x w' ↔ Gives (f ⟨⟩) w₁ x w' := by
  rw [gives_bind]
  constructor
  · rintro ⟨_, w₂, hset, hf⟩
    obtain rfl := gives_set.mp hset
    exact hf
  · intro hf
    exact ⟨⟨⟩, w₁, gives_set.mpr rfl, hf⟩

theorem gives_bind_lift {r : Except Failure α} :
    Gives (liftM r >>= f) w x w' ↔ ∃ v, r = .ok v ∧ Gives (f v) w x w' := by
  rw [gives_bind]
  constructor
  · rintro ⟨v, w₁, hlift, hf⟩
    obtain ⟨hr, rfl⟩ := gives_lift.mp hlift
    exact ⟨v, hr, hf⟩
  · rintro ⟨v, hr, hf⟩
    exact ⟨v, w, gives_lift.mpr ⟨hr, rfl⟩, hf⟩

/-- A question about the world leaves it as it is. -/
theorem gives_ask {q : World → Except Failure α} :
    Gives (do let w ← get; liftM (q w)) w v w' ↔ q w = .ok v ∧ w' = w := by
  rw [gives_bind]
  constructor
  · rintro ⟨_, w₁, hget, hq⟩
    obtain ⟨rfl, rfl⟩ := gives_get.mp hget
    exact gives_lift.mp hq
  · intro h
    exact ⟨w, w, gives_get.mpr ⟨rfl, rfl⟩, gives_lift.mpr h⟩

/-- After a question things go on in the same world, with the answer. -/
theorem gives_bind_of_asks {q : World → Except Failure α}
    (ha : ∀ v w₁, Gives a w v w₁ ↔ q w = .ok v ∧ w₁ = w) :
    Gives (a >>= f) w x w' ↔ ∃ v, q w = .ok v ∧ Gives (f v) w x w' := by
  rw [gives_bind]
  constructor
  · rintro ⟨v, w₁, hv, hf⟩
    obtain ⟨hv, rfl⟩ := (ha v w₁).mp hv
    exact ⟨v, hv, hf⟩
  · rintro ⟨v, hv, hf⟩
    exact ⟨v, w, (ha v w).mpr ⟨hv, rfl⟩, hf⟩

/-- What comes of a question settles how things go on. -/
theorem run_bind_ask {q : World → Except Failure α} :
    ((do let w ← get; liftM (q w)) >>= f).run.run w =
      match q w with
      | .ok v => (f v).run.run w
      | .error e => (.error e, w) := by
  change (liftM (q w) >>= f).run.run w = _
  cases q w <;> rfl

theorem run_bind_lift {r : Except Failure α} : (liftM r >>= f).run.run w =
    match r with
    | .ok v => (f v).run.run w
    | .error e => (.error e, w) := by
  cases r <;> rfl

variable {g : Value → Loading β}

theorem gives_bind_global :
    Gives (global home name >>= g) w x w' ↔ ∃ v, w.global home name = .ok v ∧ Gives (g v) w x w' :=
  gives_bind_of_asks fun _ _ => gives_ask

theorem gives_bind_globalPath {d : DottedName} :
    Gives (globalPath home d >>= g) w x w' ↔ ∃ v, w.globalPath home d = .ok v ∧ Gives (g v) w x w' :=
  gives_bind_of_asks fun _ _ => gives_ask

theorem run_bind_call {f : Value} {s : Supplied} : (call f s >>= g).run.run w =
    match (w.calling f s).2 with
    | .ok v => (g v).run.run (w.addAll (w.calling f s).1)
    | .error e => (.error e, w.addAll (w.calling f s).1) := by
  change (liftM (w.calling f s).2 >>= g).run.run (w.addAll (w.calling f s).1) = _
  cases (w.calling f s).2 <;> rfl

/-- A call has a result, and may put converters into registries. -/
theorem gives_call {f v : Value} {s : Supplied} :
    Gives (call f s) w v w' ↔ (w.calling f s).2 = .ok v ∧ w' = w.addAll (w.calling f s).1 := by
  rw [call, gives_bind_get, gives_bind_set, gives_lift]

theorem gives_bind_call {f : Value} {s : Supplied} : Gives (call f s >>= g) w x w' ↔
    ∃ v, (w.calling f s).2 = .ok v ∧ Gives (g v) (w.addAll (w.calling f s).1) x w' := by
  rw [gives_bind]
  constructor
  · rintro ⟨v, w₁, hcall, hg⟩
    obtain ⟨hv, rfl⟩ := gives_call.mp hcall
    exact ⟨v, hv, hg⟩
  · rintro ⟨v, hv, hg⟩
    exact ⟨v, _, gives_call.mpr ⟨hv, rfl⟩, hg⟩

theorem gives_name {v : Value} {u : Unit} : Gives (bind home name v) w u w' ↔ w' = w.setGlobal home name v :=
  gives_modify

theorem gives_bind_name {v : Value} {g : Unit → Loading β} :
    Gives (bind home name v >>= g) w x w' ↔ Gives (g ()) (w.setGlobal home name v) x w' := by
  rw [gives_bind]
  constructor
  · rintro ⟨u, w₁, hname, hg⟩
    obtain rfl := gives_name.mp hname
    exact hg
  · intro hg
    exact ⟨(), _, gives_name.mpr rfl, hg⟩

end Loading

theorem Module.headerText_congr {m m' : Module} (ho : m.origin = m'.origin) : m.headerText = m'.headerText := by
  unfold headerText
  rw [ho]

theorem Module.preambleText_congr {m m' : Module} (ho : m.origin = m'.origin) (hd : m.docstring = m'.docstring) :
    m.preambleText = m'.preambleText := by
  unfold preambleText
  rw [headerText_congr ho, hd]

/-- A module with nothing in it. -/
def Module.bare : Module := ⟨none, defaultDocstring, [], [], []⟩

theorem Module.preamble_bare (named : CharacterNames) :
    Preamble.ofText? named bare.preambleText = some ⟨some defaultDocstring, []⟩ := by
  rfl

theorem Module.null_notMem_bare : '\x00' ∉ bare.preambleText.toList := by decide +kernel

/-- Without a file and a text about itself, a module has the same preamble, whatever else it has. -/
theorem LoadRequest.preamble_default {r : LoadRequest} {m : Module} (ho : m.origin = none)
    (hd : m.docstring = Module.defaultDocstring) (hw : m.isWellFormed) (hr : '\x00' ∉ r.origin.toList) :
    r.preamble m = .ok ⟨some Module.defaultDocstring, []⟩ := by
  have htext : m.preambleText = Module.bare.preambleText := Module.preambleText_congr ho hd
  have hnull : '\x00' ∉ m.preambleText.toList := htext ▸ Module.null_notMem_bare
  have hrefusal : r.refusal? m = none := by simp [refusal?, hr, hnull]
  rw [preamble, hrefusal, Module.preamble?, if_pos hw, htext, Module.preamble_bare]

/-! ### Names of modules -/

namespace World

variable {w v : World} {home : Nat} {name : String} {x : Value} {es es' : List (String × Value)}

/-- Binds several names of a module. -/
def setGlobals (w : World) (home : Nat) (es : List (String × Value)) : World :=
  { w with modules := w.modules.modify home fun m => { m with globals := m.globals.insertAll es } }

@[simp]
theorem setGlobals_nil : w.setGlobals home [] = w := by
  have hid : (fun m : LoadedModule => { m with globals := m.globals.insertAll [] }) = id := rfl
  rw [setGlobals, hid, List.modify_id]

theorem setGlobals_setGlobals : (w.setGlobals home es).setGlobals home es' = w.setGlobals home (es ++ es') := by
  simp only [setGlobals, List.modify_modify_eq, Function.comp_def, Table.insertAll_append]

theorem setGlobal_eq : w.setGlobal home name x = w.setGlobals home [(name, x)] := rfl

theorem length_setGlobals : (w.setGlobals home es).modules.length = w.modules.length := List.length_modify ..

theorem globals_setGlobals (hh : home < w.modules.length) :
    (w.setGlobals home es).globals home = (w.globals home).insertAll es := by
  simp [setGlobals, globals, module?, List.getElem?_eq_getElem hh]

/-- A module that does not exist gets no names. -/
theorem globals_setGlobals_of_le (hh : w.modules.length ≤ home) :
    (w.setGlobals home es).globals home = w.globals home := by
  have hnone : (w.setGlobals home es).module? home = none := List.getElem?_eq_none (by rwa [length_setGlobals])
  have hnone' : w.module? home = none := List.getElem?_eq_none hh
  rw [globals, globals, hnone, hnone']

theorem setGlobals_addAll {as : List Addition} :
    (w.addAll as).setGlobals home es = (w.setGlobals home es).addAll as := by
  rw [addAll_eq, addAll_eq]
  rfl

theorem global_congr (h : v.globals home = w.globals home) (name : String) : v.global home name = w.global home name := by
  simp only [global, h]

theorem global_of_modules_eq (h : v.modules = w.modules) (home : Nat) (name : String) :
    v.global home name = w.global home name := by
  apply global_congr
  rw [globals, globals, module?, module?, h]

theorem global_of_constant {c : Value} (hc : constant? name = some c) : w.global home name = .ok c := by
  simp [global, hc]

theorem global_of_get? (hc : constant? name = none) (hx : (w.globals home).get? name = some x) :
    w.global home name = .ok x := by
  simp [global, hc, hx]

/-- Words of the language apart, a name means what the module has under it. -/
theorem global_eq_ok_iff (hc : constant? name = none) (hb : builtinName? name = none) :
    w.global home name = .ok x ↔ (w.globals home).get? name = some x := by
  cases hx : (w.globals home).get? name <;> simp [global, hc, hb, hx]

/-- Names keep their meaning when others are bound. -/
theorem global_setGlobals_of_notMem (hn : name ∉ es.map Prod.fst) :
    (w.setGlobals home es).global home name = w.global home name := by
  by_cases hh : home < w.modules.length
  · simp only [global, globals_setGlobals hh, Table.get?_insertAll_of_notMem hn]
  · exact global_congr (globals_setGlobals_of_le (Nat.le_of_not_lt hh)) name

/-- What a name means after names were bound, unless it is one of the new values, it meant before. -/
theorem global_of_setGlobals (h : (w.setGlobals home es).global home name = .ok x) (hx : ∀ e ∈ es, e.2 ≠ x) :
    w.global home name = .ok x := by
  by_cases hn : name ∈ es.map Prod.fst
  · cases hc : constant? name with
    | some c => rwa [global_of_constant hc] at h ⊢
    | none =>
      by_cases hh : home < w.modules.length
      · obtain ⟨a, ha, hget⟩ := Table.exists_get?_insertAll (t := w.globals home) hn
        rw [← globals_setGlobals hh] at hget
        rw [global_of_get? hc hget] at h
        exact absurd (Except.ok.inj h) (hx _ ha)
      · rwa [global_congr (globals_setGlobals_of_le (Nat.le_of_not_lt hh))] at h
  · rwa [global_setGlobals_of_notMem hn] at h

end World

end UnionBridge
