import UnionBridge.Proofs.Execution.Loading
import UnionBridge.Proofs.Module.Naming

/-! Executing the bridges of a module: what they bind, and where they leave their dispatchers. -/
namespace UnionBridge

open Loading

variable {w w' v : World} {home k : Nat} {name : String} {x : Value} {b : Bridge} {bs : List Bridge} {u : Unit}
  {es : List (String × Value)}

namespace Bridge

/-- The functions that a bridge defines, in order. -/
def definitions (home : Nat) (b : Bridge) : List (String × Value) :=
  (b.conversions.map fun c => (c.name, .function (.conversion home c))) ++
    [(b.dispatcher.name, .function (.dispatcher home b.dispatcher))]

theorem mem_definitions {e : String × Value} :
    e ∈ b.definitions home ↔ (∃ c ∈ b.conversions, e = (c.name, .function (.conversion home c))) ∨
      e = (b.dispatcher.name, .function (.dispatcher home b.dispatcher)) := by
  simp only [definitions, List.mem_append, List.mem_map, List.mem_singleton]
  constructor
  · rintro (⟨c, hc, rfl⟩ | rfl)
    · exact Or.inl ⟨c, hc, rfl⟩
    · exact Or.inr rfl
  · rintro (⟨c, hc, rfl⟩ | rfl)
    · exact Or.inl ⟨c, hc, rfl⟩
    · exact Or.inr rfl

theorem exists_of_checkContainer {d : DottedName} (h : Gives (checkContainer home d) w u w') :
    ∃ as, w.FromOutside as ∧ w' = w.addAll as := by
  obtain ⟨_, _, h⟩ := gives_bind_globalPath.mp h
  obtain ⟨_, _, h⟩ := gives_bind_globalPath.mp h
  obtain ⟨_, _, h⟩ := gives_bind_call.mp h
  exact ⟨_, World.fromOutside_calling (by simp [Supplied.of]), (gives_pure.mp h).2⟩

/-- Checking what may be a container changes nothing, but for what is called instead. -/
theorem exists_of_checks {container : Option DottedName} (h : Gives (container.forM (checkContainer home)) w u w') :
    ∃ as, w.FromOutside as ∧ w' = w.addAll as := by
  cases container with
  | none => exact ⟨[], World.fromOutside_nil, (gives_pure.mp h).2⟩
  | some d => exact exists_of_checkContainer h

theorem gives_forM_name {α : Type} {key : α → String} {value : α → Value} {l : List α} :
    Gives (l.forM fun a => Loading.bind home (key a) (value a)) w u w' ↔
      w' = w.setGlobals home (l.map fun a => (key a, value a)) := by
  induction l generalizing w with
  | nil => rw [gives_forM_nil, List.map_nil, World.setGlobals_nil]
  | cons a l ih =>
    rw [gives_forM_cons, List.map_cons]
    constructor
    · rintro ⟨w₁, ha, hl⟩
      obtain rfl := gives_name.mp ha
      rw [ih.mp hl, World.setGlobal_eq, World.setGlobals_setGlobals]
      rfl
    · rintro rfl
      refine ⟨_, gives_name.mpr rfl, ih.mpr ?_⟩
      rw [World.setGlobal_eq, World.setGlobals_setGlobals]
      rfl

/-- What a bridge does: it binds its functions and gives its dispatcher to what the name of its destination stands for
then, a class or one of the functions. What its calls register comes from outside. -/
theorem gives_execute (h : Gives (b.execute home) w u w') :
    ∃ as as' y detach g f target, w.FromOutside as ∧ w.FromOutside as' ∧
      y = (w.setGlobals home (b.definitions home)).addAll as ∧ y.global home "staticmethod" = .ok detach ∧
      y.global home b.dispatcher.name = .ok g ∧ y.call detach (.of [g]) = .ok f ∧ y.global home b.dest = .ok target ∧
      ((∃ id, target = .cls (.declared id) ∧ w' = (y.addAll as').setAttribute id "from_source" f) ∨
        ∃ d, target = .function d ∧ w' = { y.addAll as' with misplaced := (y.addAll as').misplaced.insert d f }) := by
  obtain ⟨_, w₁, hcontainer, h⟩ := gives_bind.mp h
  obtain ⟨as, has, rfl⟩ := exists_of_checks hcontainer
  obtain ⟨_, w₁, hconversions, h⟩ := gives_bind.mp h
  obtain rfl := gives_forM_name.mp hconversions
  have hnamed : ((w.addAll as).setGlobals home (b.conversions.map fun c => (c.name, .function (.conversion home c)))).setGlobal
      home b.dispatcher.name (.function (.dispatcher home b.dispatcher)) =
        (w.setGlobals home (b.definitions home)).addAll as := by
    rw [World.setGlobal_eq, World.setGlobals_setGlobals, World.setGlobals_addAll]
    rfl
  have hinstall := gives_bind_name.mp h
  rw [hnamed] at hinstall
  obtain ⟨detach, hdetach, h⟩ := gives_bind_global.mp hinstall
  obtain ⟨g, hg, h⟩ := gives_bind_global.mp h
  obtain ⟨f, hf, h⟩ := gives_bind_call.mp h
  obtain ⟨target, htarget, h⟩ := gives_bind_global.mp h
  have hone : (Supplied.of [g]).positional.length ≠ 3 := by simp [Supplied.of]
  have houtside := World.fromOutside_calling (w := (w.setGlobals home (b.definitions home)).addAll as) (f := detach) hone
  rw [World.FromOutside, World.outside_addAll] at houtside
  refine ⟨as, _, _, detach, g, f, target, has, houtside, rfl, hdetach, hg, (World.call_of_calling hone).symm.trans hf,
    World.global_addAll.symm.trans htarget, ?_⟩
  split at h
  · exact Or.inl ⟨_, rfl, gives_modify.mp h⟩
  · exact Or.inr ⟨_, rfl, gives_modify.mp h⟩
  · obtain ⟨_, _, _, h⟩ := gives_bind.mp h
    exact absurd h not_gives_throw

/-- Bridges change no names but those that they define. -/
theorem modules_execute (h : Gives (b.execute home) w u w') :
    w'.modules = (w.setGlobals home (b.definitions home)).modules := by
  obtain ⟨as, as', _, _, _, _, _, _, _, rfl, _, _, _, _, ⟨id, _, rfl⟩ | ⟨d, _, rfl⟩⟩ := gives_execute h
  all_goals simp only [World.setAttribute, World.setClass, World.modules_addAll]

theorem modules_forM (h : Gives (bs.forM (·.execute home)) w u w') :
    w'.modules = (w.setGlobals home (bs.flatMap (definitions home))).modules := by
  induction bs generalizing w with
  | nil =>
    obtain rfl := gives_forM_nil.mp h
    rw [List.flatMap_nil, World.setGlobals_nil]
  | cons b bs ih =>
    obtain ⟨w₁, hb, hbs⟩ := gives_forM_cons.mp h
    have hmodules := modules_execute hb
    rw [List.flatMap_cons, ← World.setGlobals_setGlobals, ih hbs]
    simp only [World.setGlobals, hmodules]

/-! ### Dispatchers -/

/-- What bridges bind are functions of the module. -/
theorem ne_of_mem_definitions {c : ClassRef} {f : BuiltinFunction} {e : String × Value} (he : e ∈ b.definitions home) :
    e.2 ≠ .cls c ∧ e.2 ≠ .function (.builtin f) := by
  rcases mem_definitions.mp he with ⟨c, _, rfl⟩ | rfl <;> simp

theorem global_dispatcher (hh : home < w.modules.length) :
    (w.setGlobals home (b.definitions home)).global home b.dispatcher.name =
      .ok (.function (.dispatcher home b.dispatcher)) := by
  apply World.global_of_get? (Naming.constant?_of_saysFrom (Naming.saysFrom_dispatcherName b.dest))
  rw [World.globals_setGlobals hh, definitions, Table.insertAll_append, Table.insertAll_cons]
  exact Table.get?_insert_self ..

/-- A destination that stands for a class gets its dispatcher there. -/
theorem class?_execute (h : Gives (b.execute home) w u w') (hh : home < w.modules.length)
    (hd : w'.global home b.dest = .ok (.cls (.declared k)))
    (hdetach : w'.global home "staticmethod" = .ok (.function (.builtin .detach))) :
    ∃ as, w' = ((w.setGlobals home (b.definitions home)).addAll as).setAttribute k "from_source"
      (.function (.dispatcher home b.dispatcher)) := by
  rw [World.global_of_modules_eq (modules_execute h)] at hd hdetach
  obtain ⟨as, as', _, detach, g, f, target, _, _, rfl, hdetach', hg, hf, htarget, hleft⟩ := gives_execute h
  rw [World.global_addAll] at hdetach' hg htarget
  rw [hdetach] at hdetach'
  obtain rfl := Except.ok.inj hdetach'
  rw [global_dispatcher hh] at hg
  obtain rfl := Except.ok.inj hg
  obtain rfl : _ = f := Except.ok.inj hf
  rw [hd] at htarget
  obtain rfl := Except.ok.inj htarget
  rcases hleft with ⟨id, hid, rfl⟩ | ⟨d, hd', _⟩
  · obtain rfl : k = id := by simpa using hid
    exact ⟨as ++ as', by rw [World.addAll_addAll]⟩
  · cases hd'

/-- What a name stands for after some bridges it stood for before, unless it is a function that they define. -/
theorem global_of_forM (h : Gives (bs.forM (·.execute home)) w u w') (hx : w'.global home name = .ok x)
    (hne : ∀ b ∈ bs, ∀ e ∈ b.definitions home, e.2 ≠ x) : w.global home name = .ok x := by
  rw [World.global_of_modules_eq (modules_forM h)] at hx
  apply World.global_of_setGlobals hx
  intro e he
  obtain ⟨b, hb, he⟩ := List.mem_flatMap.mp he
  exact hne b hb e he

/-- A class that no destination stands for is left as it is. -/
theorem class?_forM (h : Gives (bs.forM (·.execute home)) w u w')
    (hd : ∀ b ∈ bs, w.global home b.dest ≠ .ok (.cls (.declared k))) :
    w'.class? (.declared k) = w.class? (.declared k) := by
  induction bs generalizing w with
  | nil => rw [gives_forM_nil.mp h]
  | cons b bs ih =>
    obtain ⟨w₁, hb, hbs⟩ := gives_forM_cons.mp h
    have hne : ∀ e ∈ b.definitions home, e.2 ≠ .cls (.declared k) := fun e he =>
      (ne_of_mem_definitions (f := .detach) he).1
    rw [ih hbs fun b' hb' hdest => ?_]
    · obtain ⟨_, _, _, _, _, _, _, _, _, rfl, _, _, _, htarget, ⟨id, rfl, rfl⟩ | ⟨d, rfl, rfl⟩⟩ := gives_execute hb
      · rw [World.global_addAll] at htarget
        have hid : id ≠ k := fun heq => hd b List.mem_cons_self (heq ▸ World.global_of_setGlobals htarget (heq ▸ hne))
        simp [World.setAttribute, World.setClass, World.class?, World.setGlobals, List.getElem?_modify_ne _ _ hid]
      · simp [World.class?, World.setGlobals]
    · rw [World.global_of_modules_eq (modules_execute hb)] at hdest
      exact hd b' (List.mem_cons_of_mem _ hb') (World.global_of_setGlobals hdest hne)

/-- What holds of a class, whatever dispatcher it gets, holds of it when some bridges are there. -/
theorem class_forM {Q : DeclaredClass → Prop} (h : Gives (bs.forM (·.execute home)) w u w')
    (hQ : ∀ d f, Q d → Q { d with attributes := d.attributes.insert "from_source" f })
    (hk : ∃ d, w.class? (.declared k) = some d ∧ Q d) : ∃ d, w'.class? (.declared k) = some d ∧ Q d := by
  refine preserved_of_forM (P := fun w => ∃ d, w.class? (.declared k) = some d ∧ Q d) hk h ?_
  rintro b _ w₁ w₂ ⟨d, hd, hQd⟩ hb
  obtain ⟨_, _, _, _, _, f, _, _, _, rfl, _, _, _, _, ⟨id, _, rfl⟩ | ⟨_, _, rfl⟩⟩ := gives_execute hb
  · by_cases hid : id = k
    · subst id
      refine ⟨_, ?_, hQ d f hQd⟩
      simp only [World.class?] at hd
      simp [World.setAttribute, World.setClass, World.class?, World.setGlobals, hd]
    · refine ⟨d, ?_, hQd⟩
      simp only [World.class?] at hd
      simp [World.setAttribute, World.setClass, World.class?, World.setGlobals, List.getElem?_modify_ne _ _ hid, hd]
  · exact ⟨d, by simpa [World.class?, World.setGlobals] using hd, hQd⟩

theorem length_modules_forM (h : Gives (bs.forM (·.execute home)) w u w') : w'.modules.length = w.modules.length := by
  rw [modules_forM h, World.length_setGlobals]

/-- In the end a destination has its own dispatcher, if no later destination stands for the same class. -/
theorem dispatcher_forM {pre post : List Bridge} (h : Gives ((pre ++ b :: post).forM (·.execute home)) w u w')
    (hh : home < w.modules.length) (hd : w'.global home b.dest = .ok (.cls (.declared k)))
    (hdetach : w'.global home "staticmethod" = .ok (.function (.builtin .detach)))
    (hpost : ∀ b' ∈ post, w.global home b'.dest ≠ .ok (.cls (.declared k))) {cls : DeclaredClass}
    (hcls : w'.class? (.declared k) = some cls) :
    cls.attributes.get? "from_source" = some (.function (.dispatcher home b.dispatcher)) := by
  obtain ⟨w₁, hpre, hrest⟩ := gives_forM_append.mp h
  obtain ⟨w₂, hb, hpost'⟩ := gives_forM_cons.mp hrest
  have hdest := global_of_forM hpost' hd fun b' _ e he => (ne_of_mem_definitions (f := .detach) he).1
  have hstatic := global_of_forM hpost' hdetach fun b' _ e he => (ne_of_mem_definitions (c := .declared 0) he).2
  obtain ⟨as, hw₂⟩ := class?_execute hb (by rwa [length_modules_forM hpre]) hdest hstatic
  have hupto : Gives ((pre ++ [b]).forM (·.execute home)) w () w₂ :=
    gives_forM_append.mpr ⟨w₁, hpre, gives_forM_cons.mpr ⟨w₂, hb, gives_forM_nil.mpr rfl⟩⟩
  have hlater : ∀ b' ∈ post, w₂.global home b'.dest ≠ .ok (.cls (.declared k)) := fun b' hb' hdest' =>
    hpost b' hb' (global_of_forM hupto hdest' fun b' _ e he => (ne_of_mem_definitions (f := .detach) he).1)
  rw [class?_forM hpost' hlater, hw₂, World.class?, World.setAttribute, World.setClass, List.getElem?_modify_eq,
    Option.map_eq_map, Option.map_eq_some_iff] at hcls
  obtain ⟨before, _, rfl⟩ := hcls
  exact Table.get?_insert_self ..

end Bridge

/-! ### Conversions -/

/-- Whether the name of a conversion stays its own: no dispatcher has it, from that of its own destination on. -/
def Module.keeps (m : Module) (conv : Conversion) : Bool :=
  (m.bridges.dropWhile fun b => conv ∉ b.conversions).all fun b => b.dispatcher.name ≠ conv.name

namespace Module

variable {m : Module} {conv : Conversion}

/-- The bridge that a conversion is first found in. -/
theorem exists_bridge (h : conv ∈ m.conversions) : ∃ pre b post, m.bridges = pre ++ b :: post ∧
    conv ∈ b.conversions ∧ (m.bridges.dropWhile fun b => conv ∉ b.conversions) = b :: post := by
  have happend := List.takeWhile_append_dropWhile (p := fun b : Bridge => conv ∉ b.conversions) (l := m.bridges)
  cases hdrop : m.bridges.dropWhile fun b => conv ∉ b.conversions with
  | nil =>
    obtain ⟨b, hb, hconv⟩ := List.mem_flatMap.mp h
    have hall := List.dropWhile_eq_nil_iff.mp hdrop b hb
    simp [hconv] at hall
  | cons b post =>
    rw [hdrop] at happend
    have hhead := List.head?_dropWhile_not (fun b : Bridge => conv ∉ b.conversions) m.bridges
    rw [hdrop] at hhead
    exact ⟨_, b, post, happend.symm, by simpa using hhead, rfl⟩

theorem keeps_iff {b : Bridge} {post : List Bridge}
    (h : (m.bridges.dropWhile fun b => conv ∉ b.conversions) = b :: post) :
    m.keeps conv ↔ ∀ b' ∈ b :: post, b'.dispatcher.name ≠ conv.name := by
  rw [keeps, h, List.all_eq_true]
  simp only [decide_eq_true_eq]

/-- What the bridges of a module define. -/
def definitions (home : Nat) (m : Module) : List (String × Value) := m.bridges.flatMap (Bridge.definitions home)

/-- The conversions and the dispatchers that come after a conversion. -/
theorem mem_later {b : Bridge} {post : List Bridge} {after : List Conversion} {e : String × Value} :
    e ∈ (after.map fun c => (c.name, Value.function (.conversion home c))) ++
        (b.dispatcher.name, .function (.dispatcher home b.dispatcher)) :: post.flatMap (Bridge.definitions home) ↔
      (∃ c ∈ after ++ post.flatMap (·.conversions), e = (c.name, .function (.conversion home c))) ∨
        ∃ b' ∈ b :: post, e = (b'.dispatcher.name, .function (.dispatcher home b'.dispatcher)) := by
  simp only [List.mem_append, List.mem_map, List.mem_cons, List.mem_flatMap, Bridge.mem_definitions]
  constructor
  · rintro (⟨c, hc, rfl⟩ | rfl | ⟨b', hb', ⟨c, hc, rfl⟩ | rfl⟩)
    · exact Or.inl ⟨c, Or.inl hc, rfl⟩
    · exact Or.inr ⟨b, Or.inl rfl, rfl⟩
    · exact Or.inl ⟨c, Or.inr ⟨b', hb', hc⟩, rfl⟩
    · exact Or.inr ⟨b', Or.inr hb', rfl⟩
  · rintro (⟨c, hc | ⟨b', hb', hc⟩, rfl⟩ | ⟨b', rfl | hb', rfl⟩)
    · exact Or.inl ⟨c, hc, rfl⟩
    · exact Or.inr (Or.inr ⟨b', hb', Or.inl ⟨c, hc, rfl⟩⟩)
    · exact Or.inr (Or.inl rfl)
    · exact Or.inr (Or.inr ⟨b', hb', Or.inr rfl⟩)

/-- Once all bridges are there, the name of a conversion means the conversion exactly if it stays its own. -/
theorem global_conversion_iff (hn : (m.conversions.map (·.name)).Nodup) (hs : Naming.SaysFrom conv.name)
    (hc : conv ∈ m.conversions) (hh : home < w.modules.length) :
    (w.setGlobals home (m.definitions home)).global home conv.name = .ok (.function (.conversion home conv)) ↔
      m.keeps conv := by
  obtain ⟨pre, b, post, hbridges, hconv, hdrop⟩ := exists_bridge hc
  obtain ⟨before, after, hconversions⟩ := List.append_of_mem hconv
  have hdefinitions : m.definitions home = (pre.flatMap (Bridge.definitions home) ++
      before.map fun c => (c.name, .function (.conversion home c))) ++
        (conv.name, .function (.conversion home conv)) ::
          ((after.map fun c => (c.name, .function (.conversion home c))) ++
            (b.dispatcher.name, .function (.dispatcher home b.dispatcher)) ::
              post.flatMap (Bridge.definitions home)) := by
    simp [definitions, hbridges, Bridge.definitions, hconversions]
  have hlater : ∀ c ∈ after ++ post.flatMap (·.conversions), c.name ≠ conv.name := by
    intro c hc heq
    have hsplit : m.conversions = (pre.flatMap (·.conversions) ++ before) ++
        conv :: (after ++ post.flatMap (·.conversions)) := by
      simp [conversions, hbridges, hconversions]
    rw [hsplit, List.map_append, List.map_cons] at hn
    exact (List.nodup_cons.mp (List.nodup_append.mp hn).2.1).1 (heq ▸ List.mem_map_of_mem hc)
  rw [World.global_eq_ok_iff (Naming.constant?_of_saysFrom hs) (Naming.builtinName?_of_saysFrom hs),
    World.globals_setGlobals hh, hdefinitions, Table.insertAll_append, Table.get?_insertAll_cons_iff, keeps_iff hdrop]
  · constructor
    · intro h b' hb' heq
      exact h (List.mem_map.mpr ⟨_, mem_later.mpr (Or.inr ⟨b', hb', rfl⟩), heq⟩)
    · intro h hmem
      obtain ⟨e, he, hname⟩ := List.mem_map.mp hmem
      rcases mem_later.mp he with ⟨c, hc, rfl⟩ | ⟨b', hb', rfl⟩
      · exact hlater c hc hname
      · exact h b' hb' hname
  · intro v hv
    rcases mem_later.mp hv with ⟨c, hc, heq⟩ | ⟨b', _, heq⟩
    · exact absurd (congrArg Prod.fst heq).symm (hlater c hc)
    · rw [(Prod.mk.inj heq).2]
      simp

end Module

end UnionBridge
