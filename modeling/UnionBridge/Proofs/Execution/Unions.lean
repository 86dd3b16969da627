import UnionBridge.Proofs.Execution.Loaded
import UnionBridge.Proofs.World.Classes

/-! Executing the unions of a module. Each comes in as a new class with a new class for each of its variants, which it
has as attributes and lists in order; no later union touches any of them, even one that takes their names. -/
namespace UnionBridge

open Loading

variable {w w' x x' : World} {home k n : Nat} {name : String} {v : Value} {es : List (String × Value)}

/-! ### What unions are declared with -/

/-- The names that the declarations of unions and destinations rely on, and what they should mean. -/
def equipment : List (String × Value) :=
  [("_rt", .module (.library "casemap.runtime")), ("dataclass", .function (.builtin .recordClass)),
    ("staticmethod", .function (.builtin .detach))]

/-- In a module these names mean what they should. -/
def World.Equipped (w : World) (home : Nat) : Prop := ∀ t ∈ equipment, w.global home t.1 = .ok t.2

/-- A value that is no part of the equipment. -/
def Value.IsOther (v : Value) : Prop := ∀ t ∈ equipment, v ≠ t.2

namespace Value

theorem isOther_cls (c : ClassRef) : (Value.cls c).IsOther := by simp [IsOther, equipment]

end Value

namespace World.Equipped

theorem of_modules_eq (h : w'.Equipped home) (hm : w'.modules = w.modules) : w.Equipped home := fun t ht =>
  (global_of_modules_eq hm home t.1).symm.trans (h t ht)

/-- Binding names to other values equips no module. -/
theorem of_setGlobals (h : (w.setGlobals home es).Equipped home) (hes : ∀ e ∈ es, e.2.IsOther) : w.Equipped home :=
  fun t ht => global_of_setGlobals (h t ht) fun e he => hes e he t ht

theorem of_setGlobal (h : (w.setGlobal home name v).Equipped home) (hv : v.IsOther) : w.Equipped home := by
  rw [setGlobal_eq] at h
  exact h.of_setGlobals (by simpa using hv)

/-- Neither does binding another name. -/
theorem of_notMem (h : (w.setGlobal home name v).Equipped home) (hn : name ∉ equipment.map Prod.fst) : w.Equipped home := by
  intro t ht
  have hother : t.1 ∉ [(name, v)].map Prod.fst := by
    intro heq
    obtain rfl : t.1 = name := List.mem_singleton.mp heq
    exact hn (List.mem_map_of_mem ht)
  rw [← global_setGlobals_of_notMem hother]
  exact h t ht

theorem lt_length (h : w.Equipped home) : home < w.modules.length := by
  by_contra hle
  have hruntime := h ("_rt", .module (.library "casemap.runtime")) (by simp [equipment])
  rw [global_eq_ok_iff rfl (by decide +kernel)] at hruntime
  simp [globals, module?, List.getElem?_eq_none (Nat.le_of_not_lt hle)] at hruntime

theorem maker_eq (h : w.Equipped home) (hv : w.global home "dataclass" = .ok v) :
    v = .function (.builtin .recordClass) :=
  Except.ok.inj (hv.symm.trans (h ("dataclass", _) (by simp [equipment])))

theorem attacher_eq (h : w.Equipped home) (hv : w.globalPath home ⟨"_rt", ["attach_variant"]⟩ = .ok v) :
    v = .function (.builtin .attachVariant) := by
  have hpath : w.globalPath home ⟨"_rt", ["attach_variant"]⟩ =
      w.memberPath (.module (.library "casemap.runtime")) ["attach_variant"] := by
    rw [globalPath, h ("_rt", .module (.library "casemap.runtime")) (by simp [equipment])]
    rfl
  exact Except.ok.inj (hv.symm.trans (hpath.trans rfl))

end World.Equipped

/-! ### Variants -/

namespace CaseClass

variable {c : CaseClass} {cs : List CaseClass} {base : ClassRef} {d : DeclaredClass}

/-- The class of a variant before its union has it. -/
structure Declared (c : CaseClass) (base : ClassRef) (d : DeclaredClass) : Prop where
  givenName : d.givenName = c.name
  bases : d.bases = [base]
  fields : d.fields.map (·.map (·.name)) = some (Table.insertAll ∅ c.recordFields).keys

/-- The class of a variant is not called like any equipment. -/
theorem name_notMem (c : CaseClass) : c.name ∉ equipment.map Prod.fst := by
  have hname : c.name.toList = '_' :: (c.union.toList ++ '_' :: c.case.toList) := by
    simp [name, Naming.className, toString]
  have hlow : '_' ∈ c.union.toList ++ '_' :: c.case.toList := by simp
  intro hmem
  simp only [equipment, List.map_cons, List.map_nil, List.mem_cons, List.not_mem_nil, or_false] at hmem
  rcases hmem with heq | heq | heq
  · obtain ⟨-, hrest⟩ := List.cons.inj (hname.symm.trans (congrArg String.toList heq))
    rw [hrest] at hlow
    revert hlow
    decide
  · cases (List.cons.inj (hname.symm.trans (congrArg String.toList heq))).1
  · cases (List.cons.inj (hname.symm.trans (congrArg String.toList heq))).1

/-- Whatever stands in the place of the declaration of fields, only the name of the class comes to mean something else. -/
theorem exists_of_execute (h : Gives (c.execute home) x () x') : ∃ v, x'.modules = (x.setGlobal home c.name v).modules := by
  obtain ⟨maker, _, h⟩ := gives_bind_global.mp h
  extract_lets declare at h
  have hdeclare (wrap : Option Value) (y : World) (hy : y.modules = x.modules) (hd : Gives (declare wrap) y () x') :
      ∃ v, x'.modules = (x.setGlobal home c.name v).modules := by
    obtain ⟨base, _, hd⟩ := gives_bind_global.mp hd
    split at hd
    · obtain ⟨moduleName, _, hd⟩ := gives_bind_global.mp hd
      obtain ⟨⟨id, x₁⟩, hdeclared, hd⟩ := gives_bind_lift.mp (gives_bind_get.mp hd)
      obtain ⟨rfl, above, _, rfl⟩ := World.declareClass_eq_ok hdeclared
      have hd := gives_bind_set.mp hd
      cases wrap with
      | none =>
        obtain ⟨x₂, hmade, hd⟩ := gives_bind_lift.mp (gives_bind_get.mp hd)
        obtain ⟨g, rfl, _⟩ := World.makeRecord_eq_ok hmade
        obtain rfl := gives_name.mp (gives_bind_set.mp hd)
        refine ⟨.cls (.declared y.classes.length), ?_⟩
        simp only [World.setGlobal, World.setClass, hy]
      | some f =>
        obtain ⟨v, _, hd⟩ := gives_bind_call.mp hd
        obtain rfl := gives_name.mp hd
        refine ⟨v, ?_⟩
        simp only [World.setGlobal, World.modules_addAll, hy]
    · exact absurd (gives_bind_get.mp hd) not_gives_throw
  split at h
  · obtain ⟨wrap, _, hwrap, hd⟩ := gives_bind.mp h
    obtain ⟨rfl, rfl⟩ := gives_pure.mp hwrap
    exact hdeclare none _ rfl hd
  · obtain ⟨wrap, _, hwrap, hd⟩ := gives_bind.mp h
    obtain ⟨f, _, hwrap⟩ := gives_bind_call.mp hwrap
    obtain ⟨rfl, rfl⟩ := gives_pure.mp hwrap
    exact hdeclare (some f) _ World.modules_addAll hd

/-- The class of a variant comes in last and gets its name. -/
theorem gives_execute (h : Gives (c.execute home) x () x') (he : x'.Equipped home)
    (hb : x.global home c.union = .ok (.cls base)) :
    ∃ d, c.Declared base d ∧ x'.classes = x.classes ++ [d] ∧
      x'.modules = (x.setGlobal home c.name (.cls (.declared x.classes.length))).modules := by
  obtain ⟨v, hmodules⟩ := exists_of_execute h
  have hx : x.Equipped home := (he.of_modules_eq hmodules).of_notMem c.name_notMem
  obtain ⟨maker, hmaker, h⟩ := gives_bind_global.mp h
  obtain rfl := hx.maker_eq hmaker
  obtain ⟨wrap, x₀, hwrap, h⟩ := gives_bind.mp h
  obtain ⟨rfl, hsame⟩ := gives_pure.mp hwrap
  subst x₀
  obtain ⟨base', hbase, h⟩ := gives_bind_global.mp h
  obtain rfl := Except.ok.inj (hb.symm.trans hbase)
  obtain ⟨moduleName, _, h⟩ := gives_bind_global.mp h
  obtain ⟨⟨id, x₁⟩, hdeclared, h⟩ := gives_bind_lift.mp (gives_bind_get.mp h)
  obtain ⟨rfl, above, _, rfl⟩ := World.declareClass_eq_ok hdeclared
  obtain ⟨x₂, hmade, h⟩ := gives_bind_lift.mp (gives_bind_get.mp (gives_bind_set.mp h))
  obtain ⟨g, rfl, hg⟩ := World.makeRecord_eq_ok hmade
  obtain rfl := gives_name.mp (gives_bind_set.mp h)
  let d : DeclaredClass := ⟨c.name, c.name, c.name, [base], .declared x.classes.length :: above,
    x.completed c.name above (c.bodyAttributes moduleName), none⟩
  refine ⟨g d, ⟨(hg d).1, (hg d).2.1, (hg d).2.2⟩, ?_, rfl⟩
  change (x.classes ++ [d]).modify x.classes.length g = _
  rw [List.modify_eq_take_cons_drop (by simp)]
  simp

/-- The names that the classes of some variants get, given the number of the first. -/
def bindings : (first : Nat) → List CaseClass → List (String × Value)
  | _, [] => []
  | n, c :: cs => (c.name, .cls (.declared n)) :: bindings (n + 1) cs

/-- Declaring classes of variants leaves no equipment that was not there. -/
theorem equipped_of_forM (h : Gives (cs.forM (·.execute home)) x () x') (he : x'.Equipped home) : x.Equipped home := by
  induction cs generalizing x with
  | nil =>
    obtain rfl := gives_forM_nil.mp h
    exact he
  | cons c cs ih =>
    obtain ⟨x₁, hc, hcs⟩ := gives_forM_cons.mp h
    obtain ⟨v, hmodules⟩ := exists_of_execute hc
    exact ((ih hcs).of_modules_eq hmodules).of_notMem c.name_notMem

/-- The classes of variants come in one after the other. -/
theorem gives_forM_execute (h : Gives (cs.forM (·.execute home)) x () x') (he : x'.Equipped home)
    (hcs : ∀ c ∈ cs, c.union = name ∧ c.name ≠ name) (hb : x.global home name = .ok (.cls base)) :
    ∃ ds, List.Forall₂ (·.Declared base ·) cs ds ∧ x'.classes = x.classes ++ ds ∧
      x'.modules = (x.setGlobals home (bindings x.classes.length cs)).modules := by
  induction cs generalizing x with
  | nil =>
    obtain rfl := gives_forM_nil.mp h
    exact ⟨[], .nil, by simp, by simp [bindings]⟩
  | cons c cs ih =>
    obtain ⟨⟨hunion, hne⟩, hcs⟩ := List.forall_mem_cons.mp hcs
    obtain ⟨x₁, hc, hrest⟩ := gives_forM_cons.mp h
    obtain ⟨d, hd, hclasses, hmodules⟩ := gives_execute hc (equipped_of_forM hrest he) (hunion ▸ hb)
    have hb₁ : x₁.global home name = .ok (.cls base) := by
      rw [World.global_of_modules_eq hmodules, World.setGlobal_eq,
        World.global_setGlobals_of_notMem (by simpa using hne.symm), hb]
    obtain ⟨ds, hds, hclasses', hmodules'⟩ := ih hrest hcs hb₁
    refine ⟨d :: ds, .cons hd hds, by simp [hclasses', hclasses], ?_⟩
    have hlength : x₁.classes.length = x.classes.length + 1 := by simp [hclasses]
    rw [hmodules', bindings, ← List.singleton_append, ← World.setGlobals_setGlobals, hlength]
    simp only [World.setGlobals, hmodules, World.setGlobal_eq]

/-- A class becomes a variant of a union. -/
theorem gives_attach (h : Gives (c.attach home) x () x') (he : x.Equipped home)
    (hk : x.global home c.union = .ok (.cls (.declared k))) (hn : x.global home c.name = .ok (.cls (.declared n))) :
    x.attachVariant k n c.case = (x', .ok ()) := by
  obtain ⟨f, hf, h⟩ := gives_bind_globalPath.mp h
  obtain rfl := he.attacher_eq hf
  obtain ⟨union, hunion, h⟩ := gives_bind_global.mp h
  obtain rfl := Except.ok.inj (hk.symm.trans hunion)
  obtain ⟨variant, hvariant, h⟩ := gives_bind_global.mp h
  obtain rfl := Except.ok.inj (hn.symm.trans hvariant)
  obtain ⟨hresult, rfl⟩ := gives_lift.mp (gives_bind_set.mp (gives_bind_get.mp h))
  exact Prod.ext rfl hresult

theorem modules_attach {u : Unit} (h : Gives (c.attach home) x u x') : x'.modules = x.modules := by
  obtain ⟨f, _, h⟩ := gives_bind_globalPath.mp h
  obtain ⟨union, _, h⟩ := gives_bind_global.mp h
  obtain ⟨variant, _, h⟩ := gives_bind_global.mp h
  split at h
  · obtain ⟨_, rfl⟩ := gives_lift.mp (gives_bind_set.mp (gives_bind_get.mp h))
    exact World.modules_attachVariant _ _ _ _
  · obtain ⟨_, _, h⟩ := gives_bind_call.mp h
    obtain ⟨_, rfl⟩ := gives_pure.mp h
    exact World.modules_addAll

/-- The class of a variant that its union has. -/
structure IsVariant (c : CaseClass) (union : Nat) (d : DeclaredClass) : Prop
    extends c.Declared (.declared union) d where
  name : d.name = c.case
  qualname : d.qualname = s!"{c.union}.{c.case}"

theorem Declared.isVariant (h : c.Declared (.declared k) d) : c.IsVariant k (d.named c.union c.case) :=
  ⟨⟨h.givenName, h.bases, h.fields⟩, rfl, rfl⟩

theorem map_fst_bindings (n : Nat) (cs : List CaseClass) : (bindings n cs).map Prod.fst = cs.map (·.name) := by
  induction cs generalizing n with
  | nil => rfl
  | cons c cs ih => rw [bindings, List.map_cons, List.map_cons, ih]

theorem map_snd_bindings (n : Nat) (cs : List CaseClass) :
    (bindings n cs).map Prod.snd = (List.range' n cs.length).map fun j => .cls (.declared j) := by
  induction cs generalizing n with
  | nil => rfl
  | cons c cs ih => rw [bindings, List.map_cons, ih, List.length_cons, List.range'_succ, List.map_cons]

theorem forall₂_bindings (n : Nat) (cs : List CaseClass) :
    List.Forall₂ (fun c j => (c.name, .cls (.declared j)) ∈ bindings n cs) cs (List.range' n cs.length) := by
  induction cs generalizing n with
  | nil => exact .nil
  | cons c cs ih =>
    rw [List.length_cons, List.range'_succ]
    exact .cons List.mem_cons_self ((ih (n + 1)).imp fun _ _ hmem => List.mem_cons_of_mem _ hmem)

/-- Classes that come in one after the other have numbers one after the other. -/
theorem forall₂_declared {ds before : List DeclaredClass} (h : List.Forall₂ (·.Declared base ·) cs ds)
    (hx : x.classes = before ++ ds) :
    List.Forall₂ (fun c j => ∃ d, x.class? (.declared j) = some d ∧ c.Declared base d) cs
      (List.range' before.length cs.length) := by
  induction h generalizing before with
  | nil => exact .nil
  | @cons c d cs ds hd _ ih =>
    rw [List.length_cons, List.range'_succ]
    refine .cons ⟨d, ?_, hd⟩ ?_
    · simp [World.class?, hx]
    · have hx' : x.classes = (before ++ [d]) ++ ds := by simpa using hx
      have hrest := ih hx'
      rwa [List.length_append, List.length_singleton] at hrest

end CaseClass

namespace World

/-- What it leaves when a union gets some variants: it has them after those that it had, each of them is called after
it, and nothing else changes. -/
structure Attached (x x' : World) (k : Nat) (d : DeclaredClass) (es more : List (String × Nat)) : Prop where
  modules : x'.modules = x.modules
  length : x'.classes.length = x.classes.length
  union : ∃ d', x'.class? (.declared k) = some d' ∧ d'.givenName = d.givenName ∧ d'.qualname = d.qualname ∧
    d'.Collects k (es ++ more)
  variants : ∀ e ∈ more, x'.class? (.declared e.2) = (x.class? (.declared e.2)).map (·.named d.qualname e.1)
  others : ∀ j, j ≠ k → j ∉ more.map Prod.snd → x'.class? (.declared j) = x.class? (.declared j)

variable {cs : List CaseClass} {d : DeclaredClass} {es more : List (String × Nat)}

/-- The variants of a union are attached one after the other. -/
theorem attached_of_forM (h : Gives (cs.forM (·.attach home)) x () x') (he : x.Equipped home)
    (hcs : List.Forall₂ (fun c (e : String × Nat) => c.case = e.1 ∧ x.global home c.union = .ok (.cls (.declared k)) ∧
      x.global home c.name = .ok (.cls (.declared e.2))) cs more)
    (hnumbers : (k :: more.map Prod.snd).Nodup) (hnames : ((es ++ more).map Prod.fst).Nodup)
    (hk : x.class? (.declared k) = some d) (hd : d.Collects k es) : x.Attached x' k d es more := by
  induction cs generalizing x d es more with
  | nil =>
    cases hcs
    obtain rfl := gives_forM_nil.mp h
    exact ⟨rfl, rfl, ⟨d, hk, rfl, rfl, by simpa using hd⟩, by simp, fun _ _ _ => rfl⟩
  | cons c cs ih =>
    obtain ⟨e, more, ⟨hcase, hunion, hname⟩, htail, rfl⟩ := List.forall₂_cons_left_iff.mp hcs
    obtain ⟨x₁, hc, hrest⟩ := gives_forM_cons.mp h
    have hattach := c.gives_attach hc he hunion hname
    rw [hcase] at hattach
    simp only [List.map_cons, List.nodup_cons, List.mem_cons, not_or] at hnumbers
    obtain ⟨⟨hne, hk'⟩, hlast, hnumbers⟩ := hnumbers
    have hnames' : ((es ++ [e] ++ more).map Prod.fst).Nodup := by simpa using hnames
    have hnew : e.1 ∉ es.map Prod.fst := by
      rw [List.map_append] at hnames
      exact fun hmem => (List.nodup_append.mp hnames).2.2 _ hmem _ (by simp) rfl
    obtain ⟨hx₁, hd₁⟩ := attachVariant_eq_ok hk hd (Ne.symm hne) hnew hattach
    have hmodules : x₁.modules = x.modules := by rw [hx₁]; rfl
    have hk₁ : x₁.class? (.declared k) = some (d.withVariant es e.1 e.2) := by
      rw [hx₁, class?_setClass, if_pos rfl, class?_setClass, if_neg (Ne.symm hne), hk]
      rfl
    have hothers (j : Nat) (hjk : j ≠ k) (hje : j ≠ e.2) : x₁.class? (.declared j) = x.class? (.declared j) := by
      rw [hx₁, class?_setClass, if_neg hjk.symm, class?_setClass, if_neg hje.symm]
    have hcs₁ : List.Forall₂ (fun c (e : String × Nat) => c.case = e.1 ∧
        x₁.global home c.union = .ok (.cls (.declared k)) ∧
        x₁.global home c.name = .ok (.cls (.declared e.2))) cs more := by
      simpa only [global_of_modules_eq hmodules] using htail
    have hmore := ih hrest (he.of_modules_eq hmodules.symm) hcs₁ (List.nodup_cons.mpr ⟨hk', hnumbers⟩) hnames' hk₁ hd₁
    exact
    { modules := hmore.modules.trans hmodules
      length := hmore.length.trans (by rw [hx₁]; simp [setClass])
      union := by
        obtain ⟨d', hd', hgiven, hqual, hcollects⟩ := hmore.union
        exact ⟨d', hd', hgiven, hqual, by simpa using hcollects⟩
      variants := by
        intro e' he'
        rcases List.mem_cons.mp he' with rfl | he'
        · rw [hmore.others _ (Ne.symm hne) hlast, hx₁, class?_setClass, if_neg hne, class?_setClass, if_pos rfl]
        · have hmem : e'.2 ∈ more.map Prod.snd := List.mem_map_of_mem he'
          rw [hmore.variants e' he', hothers e'.2 (fun heq => hk' (heq ▸ hmem)) fun heq => hlast (heq ▸ hmem)]
          rfl
      others := by
        intro j hjk hj
        simp only [List.map_cons, List.mem_cons, not_or] at hj
        rw [hmore.others j hjk hj.2, hothers j hjk hj.1] }

end World

/-! ### Unions -/

/-- What holds of pairs of elements holds of each element and a pair that names it. -/
theorem forall₂_zip_map {α β γ : Type} {r : α → β → Prop} {f : α → γ} {l : List α} {m : List β}
    (h : List.Forall₂ r l m) : List.Forall₂ (fun a (e : γ × β) => f a = e.1 ∧ r a e.2) l ((l.map f).zip m) := by
  induction h with
  | nil => exact .nil
  | cons hr _ ih => exact .cons ⟨rfl, hr⟩ ih

namespace UnionClass

variable {u : UnionClass} {ns : List Nat}

/-- A union in which no variant occurs twice and all names can be given to something. -/
structure Coherent (u : UnionClass) : Prop where
  cases : ∀ c ∈ u.cases, c.union = u.name
  distinct : (u.cases.map (·.case)).Nodup
  bindable : ∀ name ∈ u.name :: u.cases.map (·.name), constant? name = none

/-- No class of a variant is called what the union is called. -/
theorem Coherent.name_notMem (hu : u.Coherent) : u.name ∉ u.cases.map (·.name) := by
  intro hmem
  obtain ⟨c, hc, hname⟩ := List.mem_map.mp hmem
  rw [CaseClass.name, hu.cases c hc] at hname
  exact Naming.className_ne _ _ hname

theorem Coherent.nodup_names (hu : u.Coherent) : (u.cases.map (·.name)).Nodup := by
  have hnames : u.cases.map (·.name) = (u.cases.map (·.case)).map (Naming.className u.name) := by
    rw [List.map_map]
    exact List.map_congr_left fun c hc => by rw [CaseClass.name, hu.cases c hc]; rfl
  rw [hnames]
  exact hu.distinct.map (Naming.className_injective u.name)

/-- A union stands in a world: there is a class for it and one for each of its variants, and it has these. -/
structure Stands (u : UnionClass) (w : World) (k : Nat) (ns : List Nat) : Prop where
  union : ∃ d, w.class? (.declared k) = some d ∧ d.givenName = u.name ∧ d.qualname = u.name ∧
    d.Collects k ((u.cases.map (·.case)).zip ns)
  variants : List.Forall₂ (fun c n => ∃ d, w.class? (.declared n) = some d ∧ c.IsVariant k d) u.cases ns

theorem Stands.of_eq (h : u.Stands w k ns) (hw : ∀ j ∈ k :: ns, w'.class? (.declared j) = w.class? (.declared j)) :
    u.Stands w' k ns where
  union := by rw [hw k List.mem_cons_self]; exact h.union
  variants := by
    have hns : ∀ n ∈ ns, w'.class? (.declared n) = w.class? (.declared n) := fun n hn =>
      hw n (List.mem_cons_of_mem k hn)
    refine List.forall₂_iff_get.mpr ⟨h.variants.length_eq, fun i hi hi' => ?_⟩
    rw [hns _ (List.get_mem ns ⟨i, hi'⟩)]
    exact h.variants.get hi hi'

/-- The numbers of the variants of a union that comes in as class `k`. -/
def numbers (k : Nat) (u : UnionClass) : List Nat := List.range' (k + 1) u.cases.length

theorem nodup_numbers (k : Nat) (u : UnionClass) : (k :: u.numbers k).Nodup := by
  rw [numbers, ← List.range'_succ]
  exact List.nodup_range'

theorem map_fst_zip (k : Nat) (u : UnionClass) :
    ((u.cases.map (·.case)).zip (u.numbers k)).map Prod.fst = u.cases.map (·.case) :=
  List.map_fst_zip (by simp [numbers])

theorem map_snd_zip (k : Nat) (u : UnionClass) :
    ((u.cases.map (·.case)).zip (u.numbers k)).map Prod.snd = u.numbers k :=
  List.map_snd_zip (by simp [numbers])

/-- The names that the classes of a union get. -/
def bindings (k : Nat) (u : UnionClass) : List (String × Value) :=
  (u.name, .cls (.declared k)) :: CaseClass.bindings (k + 1) u.cases

/-- A union comes into a world: its classes are the new ones, they get their names, and nothing else changes. -/
structure Arrives (u : UnionClass) (x x' : World) (home : Nat) : Prop where
  stands : u.Stands x' x.classes.length (u.numbers x.classes.length)
  modules : x'.modules = (x.setGlobals home (u.bindings x.classes.length)).modules
  length : x'.classes.length = x.classes.length + (u.cases.length + 1)
  others : ∀ j < x.classes.length, x'.class? (.declared j) = x.class? (.declared j)

theorem modules_forM_attach {cs : List CaseClass} {y : Unit} (h : Gives (cs.forM (·.attach home)) x y x') :
    x'.modules = x.modules :=
  preserved_of_forM (P := fun w => w.modules = x.modules) rfl h fun _ _ _ _ hw hc =>
    (CaseClass.modules_attach hc).trans hw

/-- The declaration of a union leaves no equipment that was not there. -/
theorem equipped_of_execute (h : Gives (u.execute home) x () x') (he : x'.Equipped home) : x.Equipped home := by
  obtain ⟨moduleName, _, h⟩ := gives_bind_global.mp h
  obtain ⟨⟨id, x₁⟩, hdeclared, h⟩ := gives_bind_lift.mp (gives_bind_get.mp h)
  obtain ⟨rfl, above, _, rfl⟩ := World.declareClass_eq_ok hdeclared
  have h := gives_bind_set.mp h
  obtain ⟨_, x₃, hcases, hattach⟩ := gives_bind.mp (gives_bind_name.mp h)
  have he₃ : x₃.Equipped home := he.of_modules_eq (modules_forM_attach hattach)
  exact ((CaseClass.equipped_of_forM hcases he₃).of_setGlobal (Value.isOther_cls _)).of_modules_eq rfl

theorem equipped_of_forM {us : List UnionClass} (h : Gives (us.forM (·.execute home)) x () x') (he : x'.Equipped home) :
    x.Equipped home := by
  induction us generalizing x with
  | nil =>
    obtain rfl := gives_forM_nil.mp h
    exact he
  | cons u us ih =>
    obtain ⟨x₁, hu, hus⟩ := gives_forM_cons.mp h
    exact equipped_of_execute hu (ih hus)

/-- The classes of a union are what their names mean. -/
theorem global_of_mem_bindings (hu : u.Coherent) (hw : w.modules = (x.setGlobals home (u.bindings k)).modules)
    (hh : home < x.modules.length) (hv : (name, v) ∈ u.bindings k) : w.global home name = .ok v := by
  have hkeys : (u.bindings k).map Prod.fst = u.name :: u.cases.map (·.name) := by
    rw [bindings, List.map_cons, CaseClass.map_fst_bindings]
  have hnodup : ((u.bindings k).map Prod.fst).Nodup := by
    rw [hkeys]
    exact List.nodup_cons.mpr ⟨hu.name_notMem, hu.nodup_names⟩
  rw [World.global_of_modules_eq hw]
  apply World.global_of_get? (hu.bindable name (hkeys ▸ List.mem_map_of_mem hv))
  rw [World.globals_setGlobals hh, Table.get?_insertAll_of_mem hnodup hv]

theorem arrives (hu : u.Coherent) (h : Gives (u.execute home) x () x') (he : x'.Equipped home) :
    u.Arrives x x' home := by
  have hh := (equipped_of_execute h he).lt_length
  obtain ⟨moduleName, _, h⟩ := gives_bind_global.mp h
  obtain ⟨⟨id, x₁⟩, hdeclared, h⟩ := gives_bind_lift.mp (gives_bind_get.mp h)
  obtain ⟨rfl, hx₁⟩ := World.declareClass_alone rfl rfl hdeclared
  have h := gives_bind_set.mp h
  obtain ⟨_, x₃, hcases, hattach⟩ := gives_bind.mp (gives_bind_name.mp h)
  set k := x.classes.length with hk
  set d : DeclaredClass := ⟨u.name, u.name, u.name, [.builtin .object], [.declared k, .builtin .object],
    ⟨[("__module__", moduleName), ("__doc__", .text u.docText), ("__slots__", .tuple [])]⟩, none⟩ with hd
  have hmodules₁ : x₁.modules = x.modules := by rw [hx₁]
  have hclasses₁ : x₁.classes = x.classes ++ [d] := by rw [hx₁]
  have hempty : d.Collects k [] := ⟨rfl, rfl, by simp, by simp⟩
  -- The classes of the variants are declared; the name of the union still means the union.
  have he₃ : x₃.Equipped home := he.of_modules_eq (modules_forM_attach hattach)
  have hunion : (x₁.setGlobal home u.name (.cls (.declared k))).global home u.name = .ok (.cls (.declared k)) := by
    apply World.global_of_get? (hu.bindable _ List.mem_cons_self)
    rw [World.setGlobal_eq, World.globals_setGlobals (hmodules₁ ▸ hh)]
    exact Table.get?_insert_self ..
  have hnames : ∀ c ∈ u.cases, c.union = u.name ∧ c.name ≠ u.name := fun c hc =>
    ⟨hu.cases c hc, fun heq => hu.name_notMem (heq ▸ List.mem_map_of_mem hc)⟩
  obtain ⟨ds, hds, hclasses, hmodules⟩ := CaseClass.gives_forM_execute hcases he₃ hnames hunion
  have hclasses : x₃.classes = (x.classes ++ [d]) ++ ds := hclasses.trans (congrArg (· ++ ds) hclasses₁)
  have hlength : (x.classes ++ [d]).length = k + 1 := by simp [hk]
  have hmodules : x₃.modules = (x.setGlobals home (u.bindings k)).modules := by
    have hfirst : (x₁.setGlobal home u.name (.cls (.declared k))).classes.length = k + 1 := by
      rw [← hlength]
      exact congrArg List.length hclasses₁
    rw [hmodules, hfirst, World.setGlobal_eq, World.setGlobals_setGlobals]
    simp only [World.setGlobals, hmodules₁, bindings, List.singleton_append]
  -- Each class has its name, so that it is what is attached.
  have hmeans : List.Forall₂ (fun c j => x₃.global home c.union = .ok (.cls (.declared k)) ∧
      x₃.global home c.name = .ok (.cls (.declared j))) u.cases (u.numbers k) := by
    refine (List.forall₂_and_left _ _).mpr ⟨fun c hc => ?_,
      (CaseClass.forall₂_bindings (k + 1) u.cases).imp fun c j hmem => ?_⟩
    · rw [hu.cases c hc]
      exact global_of_mem_bindings hu hmodules hh List.mem_cons_self
    · exact global_of_mem_bindings hu hmodules hh (List.mem_cons_of_mem _ hmem)
  have hk₃ : x₃.class? (.declared k) = some d := by simp [World.class?, hclasses, hk]
  have hattached : x₃.Attached x' k d [] ((u.cases.map (·.case)).zip (u.numbers k)) := by
    refine World.attached_of_forM hattach he₃ (forall₂_zip_map hmeans) ?_ ?_ hk₃ hempty
    · rw [map_snd_zip]
      exact nodup_numbers k u
    · rw [List.nil_append, map_fst_zip]
      exact hu.distinct
  have hvariants := CaseClass.forall₂_declared hds hclasses
  rw [hlength] at hvariants
  refine ⟨⟨by simpa using hattached.union, ?_⟩, hattached.modules.trans hmodules, ?_, fun j hj => ?_⟩
  · refine List.forall₂_iff_zip.mpr ⟨hvariants.length_eq, fun {c j} hcj => ?_⟩
    obtain ⟨e, he, hdeclared⟩ := List.forall₂_zip hvariants hcj
    have hmem : (c.case, j) ∈ (u.cases.map (·.case)).zip (u.numbers k) := by
      rw [List.zip_map_left]
      exact List.mem_map_of_mem hcj
    refine ⟨e.named u.name c.case, ?_, ?_⟩
    · rw [hattached.variants _ hmem, he]
      rfl
    · rw [← hu.cases c (List.of_mem_zip hcj).1]
      exact hdeclared.isVariant
  · rw [hattached.length, hclasses, List.length_append, hlength, hds.length_eq]
    omega
  · have hnumber : j ∉ u.numbers k := by
      rw [numbers, List.mem_range'_1]
      omega
    rw [hattached.others j (Nat.ne_of_lt hj) (by rwa [map_snd_zip])]
    simp [World.class?, hclasses, List.getElem?_append_left, hj]

/-- The numbers of unions that come in one after the other, each with those of its variants. -/
def places : (first : Nat) → List UnionClass → List (Nat × List Nat)
  | _, [] => []
  | k, u :: us => (k, u.numbers k) :: places (k + (u.cases.length + 1)) us

/-- The names that the classes of these unions get. -/
def allBindings : (first : Nat) → List UnionClass → List (String × Value)
  | _, [] => []
  | k, u :: us => u.bindings k ++ allBindings (k + (u.cases.length + 1)) us

/-- How many classes unions have with their variants. -/
def count (us : List UnionClass) : Nat := (us.map (·.cases.length + 1)).sum

theorem flatMap_places (k : Nat) (us : List UnionClass) :
    (places k us).flatMap (fun p => p.1 :: p.2) = List.range' k (count us) := by
  induction us generalizing k with
  | nil => rfl
  | cons u us ih =>
    simp only [places, List.flatMap_cons, ih, numbers, count, List.map_cons, List.sum_cons]
    rw [← List.range'_succ, List.range'_append_1]

theorem map_snd_allBindings (k : Nat) (us : List UnionClass) :
    (allBindings k us).map Prod.snd = (List.range' k (count us)).map fun j => .cls (.declared j) := by
  induction us generalizing k with
  | nil => rfl
  | cons u us ih =>
    simp only [allBindings, List.map_append, ih, bindings, List.map_cons, CaseClass.map_snd_bindings, count,
      List.sum_cons]
    rw [← List.range'_append_1, List.map_append, List.range'_succ, List.map_cons]

/-- Unions come in one after the other, and each stays what it is when it has come. -/
theorem stand_of_forM {us : List UnionClass} (hus : ∀ u ∈ us, u.Coherent)
    (h : Gives (us.forM (·.execute home)) x () x') (he : x'.Equipped home) :
    List.Forall₂ (fun u p => u.Stands x' p.1 p.2) us (places x.classes.length us) ∧
      x'.modules = (x.setGlobals home (allBindings x.classes.length us)).modules ∧
      ∀ j < x.classes.length, x'.class? (.declared j) = x.class? (.declared j) := by
  induction us generalizing x with
  | nil =>
    obtain rfl := gives_forM_nil.mp h
    exact ⟨.nil, by simp [allBindings], fun _ _ => rfl⟩
  | cons u us ih =>
    obtain ⟨hu, hus⟩ := List.forall_mem_cons.mp hus
    obtain ⟨x₁, hfirst, hrest⟩ := gives_forM_cons.mp h
    have harrives := arrives hu hfirst (equipped_of_forM hrest he)
    obtain ⟨hstand, hmodules, hothers⟩ := ih hus hrest
    rw [harrives.length] at hstand hmodules hothers
    refine ⟨.cons (harrives.stands.of_eq fun j hj => hothers j ?_) hstand, ?_, fun j hj => ?_⟩
    · simp only [numbers, List.mem_cons, List.mem_range'_1] at hj
      omega
    · rw [hmodules, allBindings, ← World.setGlobals_setGlobals]
      simp only [World.setGlobals, harrives.modules]
    · rw [hothers j (by omega), harrives.others j hj]

end UnionClass

end UnionBridge
