import UnionBridge.Proofs.Execution.Containers
import UnionBridge.Proofs.Execution.Loaded

/-! What comes of converting a value whose fields may themselves be values of unions: a tree that has a leaf for each
conversion to a type that is no destination. -/
namespace UnionBridge

/-- The outcome of a conversion: a value with its effects, or a variant with an outcome for each of its attributes. -/
inductive Outcome
  | leaf (value : Value) (effects : List Value)
  | node (variant : Nat) (attrs : List String) (fields : List Outcome)

namespace Outcome

mutual

/-- The destination value. -/
def value : Outcome → Value
  | leaf v _ => v
  | node variant attrs fields => .record variant (attrs.zip (values fields))

def values : List Outcome → List Value
  | [] => []
  | t :: ts => value t :: values ts

end

mutual

/-- The leaves in depth-first order: those of an attribute come before those of later ones. -/
def leaves : Outcome → List (Value × List Value)
  | leaf v es => [(v, es)]
  | node _ _ fields => leavesOf fields

def leavesOf : List Outcome → List (Value × List Value)
  | [] => []
  | t :: ts => leaves t ++ leavesOf ts

end

/-- The effects of all leaves. -/
def effects (t : Outcome) : List Value := t.leaves.flatMap Prod.snd

variable {t : Outcome} {ts : List Outcome} {variant : Nat} {attrs : List String}

theorem values_eq_map (ts : List Outcome) : values ts = ts.map value := by
  induction ts with
  | nil => rfl
  | cons t ts ih => rw [values, ih, List.map_cons]

theorem leavesOf_eq_flatMap (ts : List Outcome) : leavesOf ts = ts.flatMap leaves := by
  induction ts with
  | nil => rfl
  | cons t ts ih => rw [leavesOf, ih, List.flatMap_cons]

@[simp]
theorem value_node : (node variant attrs ts).value = .record variant (attrs.zip (ts.map value)) := by
  rw [value, values_eq_map]

@[simp]
theorem effects_leaf (v : Value) (es : List Value) : (leaf v es).effects = es := by
  simp [effects, leaves]

/-- The effects of a variant are those of its attributes, one after the other. -/
@[simp]
theorem effects_node : (node variant attrs ts).effects = (ts.map effects).flatten := by
  rw [effects, leaves, leavesOf_eq_flatMap, List.flatMap_assoc, List.flatMap]
  rfl

end Outcome

/-! ### Conversions by the tables of a schema -/

/-- What the names in a module stand for. -/
structure Meaning where
  registry : String
  container : ClassRef
  type : DottedName → Value
  source : DottedName → ClassRef
  /-- The class of each destination, by its name. -/
  dest : String → Nat
  /-- The class of each case of a source. -/
  case : DottedName → String → ClassRef
  /-- The class of each variant of a destination. -/
  variant : String → String → Nat

namespace Meaning

variable (μ : Meaning)

/-- What the names in the functions of a destination stand for. -/
def sense (dest : String) : Sense where
  registry := μ.registry
  type := μ.type
  container := some (.cls μ.container)
  variant := μ.variant dest

/-- The source of a plan that a value is of. The nearest class above the value that is a source decides. -/
def nearest? (w : World) (p : Plan) (x : Value) : Option DottedName :=
  (w.chain x.classOf).findSome? fun a => p.table.keys.find? fun S => μ.source S = a

end Meaning

/-- A value is converted to a type through the registry, with these effects. -/
def World.Reaches (w : World) (home : Nat) (μ : Meaning) (y type v : Value) (es : List Value) : Prop :=
  ∃ depth q, w.into (w.callWithin depth) (w.registry μ.registry) y type = .ok q ∧
    (w.frame home [] depth).Yields μ.container q v es

mutual

/-- A value of a source becomes the variant that a plan has for its case, with what comes of the fields of that. -/
inductive Converts (w : World) (home : Nat) (μ : Meaning) (plans : List Plan) :
    Plan → DottedName → Value → Outcome → Prop
  | node {p : Plan} {S : DottedName} {byCase : Table String (List Candidate)} {C : String} {c : Candidate} {x : Value}
      {ts : List Outcome} (hp : p ∈ plans) (hS : p.table.get? S = some byCase) (hC : byCase.get? C = some [c])
      (hx : w.isInstance x (μ.case S C)) (hts : ConvertsFields w home μ plans x c.target.fields ts) :
      Converts w home μ plans p S x (.node (μ.variant p.dest c.target.name) c.target.body.attrs ts)

/-- Each field is made from the attribute of its name, in the order in which the variant declares them. -/
inductive ConvertsFields (w : World) (home : Nat) (μ : Meaning) (plans : List Plan) :
    Value → List Field → List Outcome → Prop
  | nil {x : Value} : ConvertsFields w home μ plans x [] []
  | cons {x y : Value} {f : Field} {fs : List Field} {t : Outcome} {ts : List Outcome} (hy : w.member x f.attr = .ok y)
      (ht : ConvertsTo w home μ plans (μ.type f.type) y t) (hts : ConvertsFields w home μ plans x fs ts) :
      ConvertsFields w home μ plans x (f :: fs) (t :: ts)

/-- A value of a source of a destination is converted as that; what any other type makes of a value is a leaf. -/
inductive ConvertsTo (w : World) (home : Nat) (μ : Meaning) (plans : List Plan) : Value → Value → Outcome → Prop
  | nested {p : Plan} {S : DottedName} {y : Value} {t : Outcome} (hp : p ∈ plans) (hS : μ.nearest? w p y = some S)
      (ht : Converts w home μ plans p S y t) : ConvertsTo w home μ plans (.cls (.declared (μ.dest p.dest))) y t
  | leaf {type y v : Value} {es : List Value}
      (hfar : ∀ p ∈ plans, type = .cls (.declared (μ.dest p.dest)) → μ.nearest? w p y = none)
      (hv : w.Reaches home μ y type v es) : ConvertsTo w home μ plans type y (.leaf v es)

end

/-- Where every field has an outcome with some value and effects, the fields together have these. -/
theorem exists_convertsFields {w : World} {home : Nat} {μ : Meaning} {plans : List Plan} {x : Value} {fs : List Field}
    {α : Type} {parts : Field → α → Prop} {spread : α → List Value → Prop} {value : α → Value} {rs : List α}
    {ess : List (List Value)}
    (h : ∀ f r es, parts f r → spread r es → ∃ y t, w.member x f.attr = .ok y ∧
      ConvertsTo w home μ plans (μ.type f.type) y t ∧ t.value = value r ∧ t.effects = es)
    (hrs : List.Forall₂ parts fs rs) (hess : List.Forall₂ spread rs ess) :
    ∃ ts, ConvertsFields w home μ plans x fs ts ∧ ts.map Outcome.value = rs.map value ∧
      ts.map Outcome.effects = ess := by
  induction hrs generalizing ess with
  | nil =>
    cases hess
    exact ⟨[], .nil, rfl, rfl⟩
  | cons hf _ ih =>
    cases hess with
    | cons hes hess =>
      obtain ⟨y, t, hy, ht, hv, he⟩ := h _ _ _ hf hes
      obtain ⟨ts, hts, hvs, hes⟩ := ih hess
      exact ⟨t :: ts, .cons hy ht hts, by rw [List.map_cons, List.map_cons, hv, hvs], by rw [List.map_cons, he, hes]⟩

end UnionBridge
