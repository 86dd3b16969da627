import Mathlib
import UnionBridge.Execution.Function

/-! Numbers, texts and sequences. They have no operation that takes a container apart. -/
namespace UnionBridge

/-- Values of built-in classes that are neither classes nor containers, nor anything to be called. -/
inductive Value.Plain : Value → Prop
  | none : Plain .none
  | bool (b : Bool) : Plain (.bool b)
  | int (n : Int) : Plain (.int n)
  | float (x : Float) : Plain (.float x)
  | writtenInt (cls : String) (n : Int) : Plain (.writtenInt cls n)
  | text (s : String) : Plain (.text s)
  | writtenText (cls s : String) : Plain (.writtenText cls s)
  | tuple (items : List Value) : Plain (.tuple items)
  | list (items : List Value) : Plain (.list items)
  | iterator (ofList : Bool) (items : List Value) : Plain (.iterator ofList items)

namespace World

variable {w : World} {run : FunctionRef → Supplied → Except Failure Value} {v : Value} {b : Builtin} {es : List Value}

/-- What can be written out item by item is plain. -/
theorem plain_of_spread (h : w.spread v = .ok es) : v.Plain := by
  simp only [spread, items?, bind, Except.bind] at h
  cases ho : w.overridden? v "__iter__" [] with
  | some r =>
    rw [ho] at h
    cases r <;> cases h
  | none =>
    rw [ho] at h
    cases v <;> first | constructor | cases h

/-- The classes of plain values, and those above them. -/
inductive PlainClass : Builtin → Prop
  | object : PlainClass .object
  | noneType : PlainClass .noneType
  | bool : PlainClass .bool
  | int : PlainClass .int
  | float : PlainClass .float
  | writtenInt (name : String) : PlainClass (.writtenInt name)
  | str : PlainClass .str
  | writtenText (name : String) : PlainClass (.writtenText name)
  | tuple : PlainClass .tuple
  | list : PlainClass .list
  | iterator (ofList : Bool) : PlainClass (.iterator ofList)

theorem plainClass_of_mem_chain (hv : v.Plain) : ∀ c ∈ w.chain v.classOf, ∃ b, PlainClass b ∧ c = .builtin b := by
  cases hv with
  | none => simpa [chain, Value.classOf, Builtin.chain, Builtin.parent?] using ⟨.noneType, .object⟩
  | bool => simpa [chain, Value.classOf, Builtin.chain, Builtin.parent?] using ⟨.bool, .int, .object⟩
  | int => simpa [chain, Value.classOf, Builtin.chain, Builtin.parent?] using ⟨.int, .object⟩
  | float => simpa [chain, Value.classOf, Builtin.chain, Builtin.parent?] using ⟨.float, .object⟩
  | writtenInt cls =>
    simpa [chain, Value.classOf, Builtin.chain, Builtin.parent?] using ⟨.writtenInt cls, .int, .object⟩
  | text => simpa [chain, Value.classOf, Builtin.chain, Builtin.parent?] using ⟨.str, .object⟩
  | writtenText cls =>
    simpa [chain, Value.classOf, Builtin.chain, Builtin.parent?] using ⟨.writtenText cls, .str, .object⟩
  | tuple => simpa [chain, Value.classOf, Builtin.chain, Builtin.parent?] using ⟨.tuple, .object⟩
  | list => simpa [chain, Value.classOf, Builtin.chain, Builtin.parent?] using ⟨.list, .object⟩
  | iterator ofList => simpa [chain, Value.classOf, Builtin.chain, Builtin.parent?] using ⟨.iterator ofList, .object⟩

theorem ownAttribute?_plain {reader : String} (hb : PlainClass b) :
    w.ownAttribute? reader "into_value_and_effects" (.builtin b) = none ∧
      b.operation? "into_value_and_effects" = none ∧ b.provision? "into_value_and_effects" = none := by
  have hoperation : b.operation? "into_value_and_effects" = none := by cases hb <;> rfl
  have hprovision : b.provision? "into_value_and_effects" = none := by
    cases hb with
    | writtenInt name => rfl
    | writtenText name => rfl
    | iterator ofList => rfl
    | _ => decide +kernel
  refine ⟨?_, hoperation, hprovision⟩
  simp only [ownAttribute?, hoperation, hprovision]
  cases hb <;> rfl

/-- A plain value has nothing from its class under the name of the operation. -/
theorem fromClass?_split (hv : v.Plain) : w.fromClass? v "into_value_and_effects" = none := by
  refine List.findSome?_eq_none_iff.mpr fun c hc => ?_
  obtain ⟨b, hb, rfl⟩ := plainClass_of_mem_chain hv c hc
  obtain ⟨hown, hoperation, hprovision⟩ := ownAttribute?_plain (w := w) hb
  simp only [hoperation, hprovision]
  exact hown

theorem member?_split (hv : v.Plain) :
    w.member? v "into_value_and_effects" = w.fromClass? v "into_value_and_effects" := by
  have hdata : w.instanceData? v "into_value_and_effects" = none := by cases hv <;> rfl
  have hown : w.ownValue? v "into_value_and_effects" = none := by cases hv <;> rfl
  have hmember : w.member? v "into_value_and_effects" = (w.instanceData? v "into_value_and_effects" <|>
      w.ownValue? v "into_value_and_effects" <|> w.fromClass? v "into_value_and_effects") := by
    cases hv <;> rfl
  rw [hmember, hdata, hown]
  rfl

theorem invoke_split (hv : v.Plain) (call : Caller) :
    w.invoke call v "into_value_and_effects" [] =
      w.member v "into_value_and_effects" >>= fun operation => call operation (.of []) := by
  cases hv <;> rfl

/-- A plain value does not come apart. -/
theorem invoke_split_error (hv : v.Plain) :
    ∃ e, w.invoke (w.callBy run) v "into_value_and_effects" [] = .error e := by
  have ho (operation : String) (args : List Value) : w.overridden? v operation args = none := by
    cases hv <;> rfl
  have hmember : ∃ e, w.member v "into_value_and_effects" = .error e := by
    simp only [member, ho, member?_split hv, fromClass?_split hv]
    cases hv <;> exact ⟨_, rfl⟩
  obtain ⟨e, he⟩ := hmember
  exact ⟨e, by rw [invoke_split hv, he]; rfl⟩

end World

end UnionBridge
