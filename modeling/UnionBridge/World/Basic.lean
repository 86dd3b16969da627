import UnionBridge.Table
import UnionBridge.Value.Failure
import UnionBridge.Value.Number
import UnionBridge.World.Intrinsic

/-! All that a running program has declared, loaded and registered. A world is what generated modules can tell of the
interpreter they run in. Things that no module declares and the library does not define are outside: a module can name,
pass and call them, and what comes of that is a parameter. Classes among them have none but `object` above them, and
looking something up runs no code. Values are not shared: what changes are modules, classes and registries. Nothing runs
out of memory or time. -/
namespace UnionBridge

/-- What a call passes. -/
structure Supplied where
  positional : List Value
  keyword : List (String × Value)

def Supplied.of (values : List Value) : Supplied := ⟨values, []⟩

def Supplied.isEmpty (s : Supplied) : Bool := s.positional.isEmpty && s.keyword.isEmpty

/-- A parameter of a constructor. -/
structure Parameter where
  name : String
  /-- What it is if a call does not pass it. -/
  default : Option Value
  deriving Inhabited

/-- A class that the program declared. -/
structure DeclaredClass where
  /-- The name under which it was created. -/
  givenName : String
  name : String
  qualname : String
  bases : List ClassRef
  /-- Itself and the classes above it, nearest first. -/
  chain : List ClassRef
  attributes : Table String Value
  /-- The fields that its constructor sets, if it has a constructor of its own. -/
  fields : Option (List Parameter)

structure LoadedModule where
  name : String
  globals : Table String Value
  deriving Inhabited

/-- What a converter that is not a function of a module does with a value. Those that look at no more than the value are
all among the first kind; the others ask the world they run in what a class makes of it. -/
inductive Behaviour
  /-- Anything that depends on the value alone. -/
  | pure (f : Value → Except Failure Value)
  | constant (result : Value)
  | add (amount : Value)
  | make (target : Value)
  /-- Rejects what is greater than the limit. -/
  | atMost (limit target : Value) (reason : Option String)
  | reject (target : Value) (reason : Option String)
  | raise (kind : ErrorKind) (text : String)
  /-- Puts the value, or what a target makes of it, into a container; effects may mention the value. -/
  | withEffects (container : Value) (target : Option Value) (effects : List String)

inductive Converter
  | callable (f : Value)
  | custom (label : String) (behaviour : Behaviour)

/-- What a converter is registered for. -/
structure ConverterKey where
  source : Value
  target : Value
  fallible : Bool

def ConverterKey.same (k l : ConverterKey) : Bool :=
  k.source.equal l.source && k.target.equal l.target && k.fallible = l.fallible

/-- Converters by key, in the order in which the keys were first registered. -/
structure Registry where
  entries : List (ConverterKey × Converter)
  deriving Inhabited

namespace Registry

instance : EmptyCollection Registry := ⟨⟨[]⟩⟩

def get? (r : Registry) (k : ConverterKey) : Option Converter :=
  (r.entries.find? fun e => e.1.same k).map Prod.snd

def setEntry (k : ConverterKey) (c : Converter) : List (ConverterKey × Converter) → List (ConverterKey × Converter)
  | [] => [(k, c)]
  | e :: rest => if e.1.same k then (e.1, c) :: rest else e :: setEntry k c rest

/-- The last registration for a key wins. -/
def register (r : Registry) (k : ConverterKey) (c : Converter) : Registry := ⟨setEntry k c r.entries⟩

/-- The converter for the nearest class of a chain that has one. -/
def lookup (r : Registry) (chain : List ClassRef) (target : Value) (fallible : Bool) : Option Converter :=
  chain.findSome? fun c => r.get? ⟨.cls c, target, fallible⟩

end Registry

/-- A converter that is put into a registry, which is given by name. -/
abbrev Addition := String × ConverterKey × Converter

/-- What neither the program nor its library defines: functions and classes of the language and of other libraries, and
functions that whoever uses the program writes. A world has any of these for a parameter: what holds of a world holds
whatever they are, unless a hypothesis limits them. -/
structure Outside where
  /-- An attribute of something outside. -/
  attribute? : Value → String → Option Value
  /-- What comes of a call, where the values that it passes settle that. -/
  answer? : Value → Supplied → Option (Except Failure Value)
  /-- What a call registers that a module makes while it is executed. -/
  registers : Value → Supplied → List Addition
  /-- With what a written class refuses a value that it would hold. -/
  refusal? : Builtin → Value → Option (ErrorKind × String)

namespace Outside

/-- Nothing is known. -/
def unknown : Outside := ⟨fun _ _ => none, fun _ _ => none, fun _ _ => [], fun _ _ => none⟩

instance : Inhabited Outside := ⟨unknown⟩

/-- Calls something outside. Where the values do not settle what comes of it, that is left open. -/
def call (o : Outside) (f : Value) (s : Supplied) : Except Failure Value :=
  (o.answer? f s).getD (Failure.undetermined "what comes of a call is left open")

end Outside

structure World where
  classes : List DeclaredClass
  modules : List LoadedModule
  registries : Table String Registry
  /-- The modules that imports find, by name. -/
  importable : Table String ModuleRef
  /-- Dispatchers of destinations under whose names a function has taken the place of the class. -/
  misplaced : Table FunctionRef Value
  /-- What the first import of a module registers, for modules that were not imported so far. -/
  dormant : Table String (List Addition) := ∅
  outside : Outside := .unknown
  deriving Inhabited

namespace Value

mutual

/-- The name of the class of something in a value because of which it cannot be part of a key. -/
def unhashable? : Value → Option String
  | .list _ => some "list"
  | .intrinsic i => if i.isKey then Option.none else some i.cls
  | .tuple items => unhashableList? items
  | .box _ v => unhashable? v
  | .carrier .effectful v es => (unhashable? v) <|> unhashableList? es
  | .record _ fields => unhashableFields? fields
  | _ => Option.none

def unhashableList? : List Value → Option String
  | [] => Option.none
  | v :: rest => (unhashable? v) <|> unhashableList? rest

def unhashableFields? : List (String × Value) → Option String
  | [] => Option.none
  | (_, v) :: rest => (unhashable? v) <|> unhashableFields? rest

end

def classOf : Value → ClassRef
  | .none => .builtin .noneType
  | .bool _ => .builtin .bool
  | .int _ => .builtin .int
  | .float _ => .builtin .float
  | .text _ => .builtin .str
  | .writtenInt c _ => .builtin (.writtenInt c)
  | .writtenText c _ => .builtin (.writtenText c)
  | .box c _ => .builtin (.box c)
  | .carrier k _ _ => .builtin (.carrier k)
  | .record c _ | .bare c => .declared c
  | .cls (.builtin b) => .builtin b.metaclass
  | .cls (.declared _) => .builtin .type
  | .function (.builtin f) => .builtin f.cls
  | .function _ => .builtin .function
  | .module _ => .builtin .module
  | .registry _ => .builtin .registry
  | .tuple _ => .builtin .tuple
  | .list _ => .builtin .list
  | .iterator ofList _ => .builtin (.iterator ofList)
  | .feature _ => .builtin .feature
  | .intrinsic i => .builtin (.internal i.cls)

/-- Whether a call of a value is a matter of what is outside of the program. -/
def isOutside : Value → Bool
  | .intrinsic i => i.reaction = .outside
  | .cls (.builtin (.internal _)) => true
  | _ => false

end Value

namespace World

variable (w : World)

def class? : ClassRef → Option DeclaredClass
  | .builtin _ => none
  | .declared id => w.classes[id]?

/-- A class and the classes above it, nearest first. -/
def chain : ClassRef → List ClassRef
  | .builtin b => b.chain.map .builtin
  | .declared id => (w.class? (.declared id)).elim [] (·.chain)

def className : ClassRef → String
  | .builtin b => b.name
  | .declared id => (w.class? (.declared id)).elim "" (·.name)

def qualifiedName : ClassRef → String
  | .builtin b => b.name
  | .declared id => (w.class? (.declared id)).elim "" (·.qualname)

def isSubclass (c d : ClassRef) : Bool := (w.chain c).contains d

def isInstance (v : Value) (c : ClassRef) : Bool := w.isSubclass v.classOf c

/-- The name of the class of a value. -/
def typeName (v : Value) : String := w.className v.classOf

def module? (id : Nat) : Option LoadedModule := w.modules[id]?

def globals (home : Nat) : Table String Value := (w.module? home).elim ∅ (·.globals)

/-- A registry; one that was never used is empty. -/
def registry (name : String) : Registry := (w.registries.get? name).getD ∅

def setClass (id : Nat) (f : DeclaredClass → DeclaredClass) : World := { w with classes := w.classes.modify id f }

def setGlobal (home : Nat) (name : String) (v : Value) : World :=
  { w with modules := w.modules.modify home fun m => { m with globals := m.globals.insert name v } }

def register (registry : String) (k : ConverterKey) (c : Converter) : World :=
  { w with registries := w.registries.alter registry fun r => (r.getD ∅).register k c }

/-- Puts converters into registries, one after the other. -/
def addAll (additions : List Addition) : World :=
  additions.foldl (fun w a => w.register a.1 a.2.1 a.2.2) w

/-- Adds a class and gives its number. -/
def addClass (c : ClassRef → DeclaredClass) : Nat × World :=
  (w.classes.length, { w with classes := w.classes ++ [c (.declared w.classes.length)] })

/-- Adds a module and gives its number. -/
def addModule (m : LoadedModule) : Nat × World := (w.modules.length, { w with modules := w.modules ++ [m] })

end World

end UnionBridge
