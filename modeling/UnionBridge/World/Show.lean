import UnionBridge.Module.Feature
import UnionBridge.Module.Text
import UnionBridge.Number.Literal
import UnionBridge.Number.Shortest
import UnionBridge.Text.Quoted
import UnionBridge.World.Basic

/-! Values as text. -/
namespace UnionBridge

namespace CarrierOp

def name : CarrierOp → String
  | .new => "new"
  | .compose => "compose_from"
  | .split => "into_value_and_effects"

end CarrierOp

namespace BuiltinFunction

def name : BuiltinFunction → String
  | .classTest => "isinstance"
  | .detach => "staticmethod"
  | .recordClass => "dataclass"
  | .attachVariant => "attach_variant"
  | .variantsOf => "variants_of"
  | .requireContainer => "require_effect_container"
  | .notAVariant => "not_a_variant"
  | .converter => "converter"
  | .carrier _ op | .abstract _ op => op.name

/-- The name with that of the class which it belongs to, if it does. -/
def qualifiedName : BuiltinFunction → String
  | .carrier k op => s!"{(Builtin.carrier k).name}.{op.name}"
  | .abstract b op => s!"{b.name}.{op.name}"
  | f => f.name

end BuiltinFunction

namespace FunctionRef

def name : FunctionRef → String
  | .builtin f => f.name
  | .conversion _ c => c.name
  | .dispatcher _ d => d.name
  | .registrar _ _ => Module.registrar

def qualifiedName : FunctionRef → String
  | .builtin f => f.qualifiedName
  | f => f.name

/-- What a function says about itself. -/
def doc? : FunctionRef → Option String
  | .builtin _ => none
  | .conversion _ c => some c.docText
  | .dispatcher _ d => some d.docText
  | .registrar _ _ => some Module.registrarDoc

end FunctionRef

/-- A number has more digits than can be written. -/
def Failure.tooLong : Failure :=
  .error .valueError (s!"Exceeds the limit ({Literal.digitLimit} digits) for integer string conversion; " ++
    "use sys.set_int_max_str_digits() to increase the limit")

namespace Value

mutual

/-- Whether a number that is displayed with a value has too many digits. -/
def hasLongInt : Value → Bool
  | .int n => Nat.pow 10 Literal.digitLimit ≤ n.natAbs
  | .box _ v => hasLongInt v
  | .carrier .effectful v es => hasLongInt v || anyLongInt es
  | .record _ fields => anyFieldLongInt fields
  | .tuple items => anyLongInt items
  | .list items => anyLongInt items
  | _ => false

def anyLongInt : List Value → Bool
  | [] => false
  | v :: rest => hasLongInt v || anyLongInt rest

def anyFieldLongInt : List (String × Value) → Bool
  | [] => false
  | (_, v) :: rest => hasLongInt v || anyFieldLongInt rest

end

end Value

namespace World

variable (w : World)

/-- A class inside a message: with the module that it says it is from, unless that is the one of the language. -/
def classText (c : ClassRef) : String :=
  let home := match w.class? c with
    | none => match c with
      | .builtin b => some b.home
      | .declared _ => none
    | some d => (d.attributes.get? "__module__").bind Value.asText?
  match home.filter (· ≠ "builtins") with
  | some home => s!"<class '{home}.{w.qualifiedName c}'>"
  | none => s!"<class '{w.className c}'>"

/-- Something without a text of its own. -/
def opaqueText (what : String) : String := s!"<{what} object>"

def tupleText : List String → String
  | [item] => s!"({item},)"
  | items => "(" ++ ", ".intercalate items ++ ")"

/-- What a module is called: its own name, unless that is no text. -/
def moduleLabel? : ModuleRef → Option String
  | .library path => some path
  | .loaded id => ((w.globals id).get? "__name__").bind Value.asText?

/-- The file that a module says it comes from. -/
def moduleFile? : ModuleRef → Option String
  | .library _ => none
  | .loaded id => ((w.globals id).get? "__file__").bind Value.asText?

def moduleText (m : ModuleRef) : String :=
  let name := Text.quoted ((w.moduleLabel? m).getD "")
  match w.moduleFile? m with
  | some file => s!"<module {name} from {Text.quoted file}>"
  | none => s!"<module {name}>"

mutual

/-- The text of a value inside a message. -/
def display : Value → String
  | .none => "None"
  | .bool b => if b then "True" else "False"
  | .int n => toString n
  | .float x => Shortest.text x
  | .text s => Text.quoted s
  | .writtenInt _ n => toString n
  | .writtenText _ s => Text.quoted s
  | .box c v => c ++ "(value=" ++ display v ++ ")"
  | .carrier .effectful v es =>
    "Effectful(value=" ++ display v ++ ", effects=" ++ tupleText (displayList es) ++ ")"
  | .carrier k _ _ => opaqueText (Builtin.carrier k).name
  | .record id fields => w.qualifiedName (.declared id) ++ "(" ++ ", ".intercalate (displayFields fields) ++ ")"
  | .bare id => opaqueText (w.qualifiedName (.declared id))
  | .cls c => w.classText c
  | .function f => s!"<function {f.name}>"
  | .module m => w.moduleText m
  | .registry _ => opaqueText Builtin.registry.name
  | .tuple items => tupleText (displayList items)
  | .list items => "[" ++ ", ".intercalate (displayList items) ++ "]"
  | .iterator ofList _ => opaqueText (Builtin.iterator ofList).name
  | .feature name => Feature.text name
  | .intrinsic i => i.text

def displayList : List Value → List String
  | [] => []
  | v :: rest => display v :: displayList rest

def displayFields : List (String × Value) → List String
  | [] => []
  | (name, v) :: rest => (name ++ "=" ++ display v) :: displayFields rest

end

/-- A value as text, unless a number in it is too long to be written. -/
def displayed (v : Value) : Except Failure String := if v.hasLongInt then .error .tooLong else .ok (w.display v)

/-- The name of a conversion target inside a message. -/
def targetName : Value → String
  | .cls c => w.qualifiedName c
  | .function f => f.qualifiedName
  | .intrinsic i => i.label.getD i.text
  | v => w.display v

end World

namespace Failure

/-- The failure of a conversion that rejects its value. An empty reason is kept but not told. What cannot be written
cannot be told either. -/
def rejection (w : World) (value target : Value) (reason : Option String) (cause : Option ErrorKind) : Failure :=
  if value.hasLongInt || target.hasLongInt then .tooLong else
  let message := s!"cannot convert {w.display value} to {w.targetName target}"
  let told := (reason.filter (· ≠ "")).elim message fun r => s!"{message}: {r}"
  .rejected value target reason cause told

/-- The failure of a case whose candidates have all been tried. -/
def exhaustion (w : World) (value : Value) (dest case : String) (tried : List String) : Failure :=
  if value.hasLongInt then .tooLong else
  let message := s!"no variant of {dest} accepts {w.display value} ({case})"
  let told := if tried.isEmpty then message else message ++ "; tried " ++ ", ".intercalate tried
  .exhausted value dest case tried told

/-- The failure of a function that was given a value of another union. -/
def foreign (w : World) (value : Value) (union : String) : Failure :=
  .error .typeError s!"expected a variant of {union}, got {w.qualifiedName value.classOf}"

end Failure

end UnionBridge
