import UnionBridge.Proofs.Execution.Bridges
import UnionBridge.Proofs.Execution.Registration

/-! What parts of loading change of what modules share. They put converters into registries and do nothing else to it, not
even where they fail; and the declarations of a module put in only what comes from elsewhere. -/
namespace UnionBridge

namespace World

variable {w w' : World}

/-- What modules share: the registries, what imports find, and what is outside of the program. -/
def shared (w : World) : Table String Registry × Table String ModuleRef × Outside := (w.registries, w.importable, w.outside)

theorem shared_addAll (w : World) (as : List Addition) :
    (w.addAll as).shared = (added as w.registries, w.importable, w.outside) := by
  rw [shared, registries_addAll, importable_addAll, outside_addAll]

theorem shared_declareClass {name : String} {bases : List ClassRef} {attributes : Table String Value}
    {fields : Option (List Parameter)} {id : Nat} (h : w.declareClass name bases attributes fields = .ok (id, w')) :
    w'.shared = w.shared := by
  simp only [declareClass] at h
  split at h
  · cases h
  · obtain ⟨above, _, h⟩ := Except.exists_of_bind_eq_ok h
    cases h
    rfl

theorem shared_makeRecord {id : Nat} {fields : List (String × DottedName)} (h : w.makeRecord id fields = .ok w') :
    w'.shared = w.shared := by
  obtain ⟨parameters, _, h⟩ := Except.exists_of_bind_eq_ok h
  obtain ⟨_, _, h⟩ := Except.exists_of_bind_eq_ok h
  simp only at h
  split at h <;> cases h <;> rfl

theorem shared_attachVariant (w : World) (union variant : Nat) (name : String) :
    (w.attachVariant union variant name).1.shared = w.shared := by
  simp only [attachVariant]
  split
  · rfl
  · split
    · rfl
    · split <;> rfl

end World

namespace Loading

variable {α β : Type} {a : Loading α} {f : α → Loading β} {w w' : World} {Q Q' : Addition → Prop} {home : Nat}
  {as : List Addition}

/-- A part of loading changes what modules share only by putting converters into registries, and all of these have a
property, whether it comes out well or not. -/
def Adds (Q : Addition → Prop) (a : Loading α) (w : World) : Prop :=
  ∃ as, (a.run.run w).2.shared = (added as w.registries, w.importable, w.outside) ∧ ∀ e ∈ as, Q e

theorem adds_of_shared (h : (a.run.run w).2.shared = w.shared) : Adds Q a w := ⟨[], h, by simp⟩

theorem adds_bind (ha : Adds Q a w) (hf : ∀ v w', Gives a w v w' → Adds Q (f v) w') : Adds Q (a >>= f) w := by
  obtain ⟨as, heq, has⟩ := ha
  simp only [Adds, ExceptT.run_bind, StateT.run_bind]
  cases hr : a.run.run w with
  | mk r w₁ =>
    rw [hr] at heq
    cases r with
    | error e => exact ⟨as, heq, has⟩
    | ok v =>
      obtain ⟨bs, heq', hbs⟩ := hf v w₁ hr
      obtain ⟨hregistries, hrest⟩ := Prod.mk.inj heq
      obtain ⟨himportable, houtside⟩ := Prod.mk.inj hrest
      refine ⟨as ++ bs, ?_, List.forall_mem_append.mpr ⟨has, hbs⟩⟩
      rw [added_append, ← hregistries, ← himportable, ← houtside]
      exact heq'

theorem adds_pure (v : α) : Adds Q (pure v) w := adds_of_shared rfl

theorem adds_throw (e : Failure) : Adds Q (throw e : Loading α) w := adds_of_shared rfl

theorem adds_lift (r : Except Failure α) : Adds Q (liftM r) w := adds_of_shared rfl

theorem adds_modify {g : World → World} (h : (g w).shared = w.shared) : Adds Q (modify g) w := adds_of_shared h

theorem adds_bind_get {f : World → Loading β} (h : Adds Q (f w) w) : Adds Q (get >>= f) w := h

theorem adds_bind_set {f : PUnit → Loading β} (hw : w'.shared = w.shared) (h : Adds Q (f ⟨⟩) w') :
    Adds Q (set w' >>= f) w :=
  adds_bind (adds_of_shared hw) fun v w₁ hv => by
    obtain rfl := gives_set.mp hv
    exact h

theorem adds_bind_lift {r : Except Failure α} (h : ∀ v, r = .ok v → Adds Q (f v) w) : Adds Q (liftM r >>= f) w :=
  adds_bind (adds_lift r) fun v w' hv => by
    obtain ⟨hr, rfl⟩ := gives_lift.mp hv
    exact h v hr

/-- After a question things go on in the same world. -/
theorem adds_bind_ask {p : World → Except Failure α} (h : ∀ v, p w = .ok v → Adds Q (f v) w) :
    Adds Q ((do let w ← get; liftM (p w)) >>= f) w :=
  adds_bind (adds_of_shared rfl) fun v w' hv => by
    obtain ⟨hr, rfl⟩ := gives_ask.mp hv
    exact h v hr

variable {g : Value → Loading β}

theorem adds_bind_global {name : String} (h : ∀ v, w.global home name = .ok v → Adds Q (g v) w) :
    Adds Q (global home name >>= g) w := adds_bind_ask h

theorem adds_bind_globalPath {d : DottedName} (h : ∀ v, w.globalPath home d = .ok v → Adds Q (g v) w) :
    Adds Q (globalPath home d >>= g) w := adds_bind_ask h

theorem adds_name {name : String} (v : Value) : Adds Q (bind home name v) w := adds_of_shared rfl

theorem adds_bind_call {x : Value} {s : Supplied} (hs : ∀ e ∈ (w.calling x s).1, Q e)
    (h : ∀ v, Adds Q (g v) (w.addAll (w.calling x s).1)) : Adds Q (call x s >>= g) w :=
  adds_bind ⟨_, w.shared_addAll _, hs⟩ fun v w' hv => by
    obtain ⟨-, rfl⟩ := gives_call.mp hv
    exact h v

theorem adds_forM {δ : Type} {g : δ → Loading PUnit} {cs : List δ} (h : ∀ c ∈ cs, ∀ w, Adds Q (g c) w) :
    Adds Q (cs.forM g) w := by
  induction cs generalizing w with
  | nil => exact adds_pure _
  | cons c cs ih =>
    exact adds_bind (h c List.mem_cons_self w) fun _ _ _ => ih fun d hd => h d (List.mem_cons_of_mem c hd)

theorem Adds.outside_eq {v : α} (h : Adds Q a w) (hv : Gives a w v w') : w'.outside = w.outside := by
  obtain ⟨as, heq, -⟩ := h
  rw [show a.run.run w = (.ok v, w') from hv] at heq
  exact congrArg (·.2.2) heq

/-- Steps add what each of them adds in the world to which those before it lead. -/
theorem adds_steps {steps : List (Loading Unit)} (h : ∀ done s rest x, steps = done ++ s :: rest →
    Gives (done.forM id) w () x → x.outside = w.outside → Adds Q s x) : Adds Q (steps.forM id) w := by
  induction steps generalizing w with
  | nil => exact adds_pure _
  | cons s steps ih =>
    have hs := h [] s steps w rfl (gives_forM_nil.mpr rfl) rfl
    refine adds_bind hs fun _ x hx => ih fun done s' rest y heq hy houtside => ?_
    exact h (s :: done) s' rest y (by rw [heq]; rfl) (gives_forM_cons.mpr ⟨x, hx, hy⟩) (houtside.trans (hs.outside_eq hx))

theorem Adds.importable_eq (h : Adds Q a w) : (a.run.run w).2.importable = w.importable := by
  obtain ⟨as, heq, -⟩ := h
  exact congrArg (·.2.1) heq

end Loading

open Loading

variable {w w' : World} {home : Nat} {name : String} {Q : Addition → Prop}

/-! ### Declarations -/

/-- Imports bind names of the module, and run modules that were not imported so far. -/
theorem Import.adds_execute (i : Import) (w : World)
    (hQ : ∀ path ∈ i.runs w, ∀ l, w.dormant.get? path = some l → ∀ e ∈ l, Q e) : Adds Q (i.execute home) w := by
  have hnames (w : World) : Adds Q (i.bindNames home) w := by
    refine adds_bind_get (adds_bind_lift fun m _ => ?_)
    split
    · exact adds_forM fun n _ w => adds_bind_get (adds_bind_lift fun v _ => adds_name v)
    · refine adds_bind_lift fun top _ => ?_
      split
      · exact adds_name _
      · exact adds_bind_lift fun v _ => adds_name v
  obtain ⟨as, t, hrun, has, -⟩ := w.exists_runAll (i.runs w)
  refine adds_bind ⟨as, ?_, fun e he => ?_⟩ fun _ w' _ => hnames w'
  · change (w.runAll (i.runs w)).shared = _
    rw [hrun]
    exact w.shared_addAll as
  · obtain ⟨path, hpath, l, hl, he⟩ := has e he
    exact hQ path hpath l hl e he

namespace CaseClass

/-- The class of a variant comes in, by way of whatever stands in the place of the declaration of fields. -/
theorem adds_execute (c : CaseClass) (w : World) (hQ : ∀ f s, ∀ e ∈ w.outside.registers f s, Q e) :
    Adds Q (c.execute home) w := by
  have hcalling (f : Value) (s : Supplied) (x : World) (hx : x.outside = w.outside) (hs : s.positional.length ≠ 3) :
      ∀ e ∈ (x.calling f s).1, Q e := by
    intro e he
    obtain ⟨f, s, he⟩ := World.fromOutside_calling hs e he
    exact hQ f s e (hx ▸ he)
  refine adds_bind_global fun maker _ => ?_
  extract_lets declare
  have hdeclare (wrap : Option Value) (x : World) (hx : x.outside = w.outside) : Adds Q (declare wrap) x := by
    refine adds_bind_global fun base _ => ?_
    split
    · refine adds_bind_global fun moduleName _ => adds_bind_get (adds_bind_lift fun declared hdeclared => ?_)
      refine adds_bind_set (World.shared_declareClass hdeclared) ?_
      split
      · refine adds_bind_get (adds_bind_lift fun made hmade => ?_)
        exact adds_bind_set (World.shared_makeRecord hmade) (adds_name _)
      · refine adds_bind_call (hcalling _ _ _ ?_ (by simp [Supplied.of])) fun v => adds_name v
        exact (congrArg (·.2.2) (World.shared_declareClass hdeclared)).trans hx
    · exact adds_bind_get (adds_throw _)
  split
  · exact adds_bind (adds_pure _) fun wrap x hx => by
      obtain ⟨-, rfl⟩ := gives_pure.mp hx
      exact hdeclare wrap x rfl
  · refine adds_bind (adds_bind_call (hcalling _ _ _ rfl (by simp)) fun f => adds_pure _) fun wrap x hx => ?_
    obtain ⟨f, _, hx⟩ := gives_bind_call.mp hx
    obtain ⟨-, rfl⟩ := gives_pure.mp hx
    exact hdeclare wrap _ World.outside_addAll

/-- The class becomes a variant, by way of whatever stands in the place of what attaches it. -/
theorem adds_attach (c : CaseClass) (w : World) (hQ : ∀ f s, ∀ e ∈ w.outside.registers f s, Q e)
    (hregister : w.globalPath home ⟨"_rt", ["attach_variant"]⟩ = .ok (.function (.builtin .converter)) →
      ∀ source target, w.global home c.union = .ok source → w.global home c.name = .ok target →
        Q (Library.registryName, ⟨source, target, false⟩, .callable (.text c.case))) : Adds Q (c.attach home) w := by
  refine adds_bind_globalPath fun attach hattach => adds_bind_global fun union hunion =>
    adds_bind_global fun variant hvariant => ?_
  split
  · exact adds_bind_get (adds_bind_set (World.shared_attachVariant _ _ _ _) (adds_lift _))
  · refine adds_bind_call (fun e he => ?_) fun _ => adds_pure _
    rcases World.mem_calling he with he | ⟨source, target, fn, rfl, hs, _, rfl⟩
    · exact hQ _ _ e he
    · obtain ⟨rfl, rfl, rfl⟩ : union = source ∧ variant = target ∧ Value.text c.case = fn := by
        simpa [Supplied.of] using hs
      exact hregister hattach _ _ hunion hvariant

end CaseClass

namespace UnionClass

/-- The class of a union comes in, before those of its variants. -/
def declare (home : Nat) (u : UnionClass) : Loading Unit := do
  let moduleName ← Loading.global home "__name__"
  let attributes : Table String Value :=
    ⟨[("__module__", moduleName), ("__doc__", .text u.docText), ("__slots__", .tuple [])]⟩
  let (id, w) ← (← get).declareClass u.name [] attributes none
  set w
  Loading.bind home u.name (.cls (.declared id))

/-- What a union does, step by step. -/
def steps (home : Nat) (u : UnionClass) : List (Loading Unit) :=
  u.declare home :: (u.cases.map (·.execute home) ++ u.cases.map (·.attach home))

theorem execute_eq (home : Nat) (u : UnionClass) : u.execute home = (u.steps home).forM id := by
  simp only [execute, steps, declare, List.forM_eq_forM, List.forM_cons, List.forM_append, List.forM_map, bind_assoc, id]

theorem adds_declare (u : UnionClass) (w : World) : Adds Q (u.declare home) w := by
  refine adds_bind_global fun moduleName _ => adds_bind_get (adds_bind_lift fun declared hdeclared => ?_)
  exact adds_bind_set (World.shared_declareClass hdeclared) (adds_name _)

theorem adds_of_mem_steps {u : UnionClass} {s : Loading Unit} (hs : s ∈ u.steps home)
    (hQ : ∀ f s, ∀ e ∈ w.outside.registers f s, Q e)
    (hregister : ∀ c ∈ u.cases, s = c.attach home →
      w.globalPath home ⟨"_rt", ["attach_variant"]⟩ = .ok (.function (.builtin .converter)) →
        ∀ source target, w.global home c.union = .ok source → w.global home c.name = .ok target →
          Q (Library.registryName, ⟨source, target, false⟩, .callable (.text c.case))) : Adds Q s w := by
  rw [steps, List.mem_cons, List.mem_append, List.mem_map, List.mem_map] at hs
  rcases hs with rfl | ⟨c, _, rfl⟩ | ⟨c, hc, rfl⟩
  · exact u.adds_declare w
  · exact c.adds_execute w hQ
  · exact c.adds_attach w hQ (hregister c hc rfl)

end UnionClass

namespace Bridge

theorem adds_execute (b : Bridge) (w : World) (hQ : ∀ f s, ∀ e ∈ w.outside.registers f s, Q e) :
    Adds Q (b.execute home) w := by
  have hcalling (f : Value) (v : Value) (x : World) (hx : x.outside = w.outside) : ∀ e ∈ (x.calling f (.of [v])).1, Q e := by
    intro e he
    obtain ⟨f, s, he⟩ := World.fromOutside_calling (by simp [Supplied.of]) e he
    exact hQ f s e (hx ▸ he)
  refine adds_bind ?_ fun _ x hx => ?_
  · cases b.container with
    | none => exact adds_pure _
    | some container =>
      exact adds_bind_globalPath fun _ _ => adds_bind_globalPath fun _ _ => adds_bind_call (hcalling _ _ w rfl) fun _ => adds_pure _
  · obtain ⟨as, -, rfl⟩ := exists_of_checks hx
    refine adds_bind (adds_forM fun c _ x => adds_name _) fun _ x hx => ?_
    obtain rfl := gives_forM_name.mp hx
    refine adds_bind (adds_name _) fun _ x hx => ?_
    obtain rfl := gives_name.mp hx
    refine adds_bind_global fun detach _ => adds_bind_global fun f _ => adds_bind_call (hcalling _ _ _ World.outside_addAll) fun f => ?_
    refine adds_bind_global fun owner _ => ?_
    split
    · exact adds_modify rfl
    · exact adds_modify rfl
    · exact adds_bind_get (adds_throw _)

end Bridge

end UnionBridge
