import UnionBridge.World.Into

/-! Names inside the functions of a module. -/
namespace UnionBridge

/-- The variables of a running function. -/
abbrev Locals := Table String Value

/-- Part of the body of a function. Variables that were set before a failure stay set. -/
abbrev Action := ExceptT Failure (StateM Locals)

/-- Words that are values and not names. -/
def constant? : String → Option Value
  | "None" => some .none
  | "True" | "__debug__" => some (.bool true)
  | "False" => some (.bool false)
  | _ => none

/-- Functions of the language that the library has no use for. -/
def foreignFunctions : List String :=
  ["abs", "aiter", "all", "anext", "any", "ascii", "bin", "breakpoint", "callable", "chr", "compile", "delattr", "dir",
    "divmod", "eval", "exec", "exit", "format", "getattr", "globals", "hasattr", "hash", "help", "hex", "id", "input",
    "issubclass", "iter", "len", "locals", "max", "min", "next", "oct", "open", "ord", "pow", "print", "quit", "repr",
    "round", "setattr", "sorted", "sum", "vars", "__build_class__", "__import__"]

/-- Classes of the language that the library has no use for. -/
def foreignClasses : List String :=
  ["bytearray", "bytes", "classmethod", "complex", "dict", "enumerate", "filter", "frozenset", "map", "memoryview",
    "property", "range", "reversed", "set", "slice", "super", "zip", "ArithmeticError", "AssertionError",
    "AttributeError", "BaseException", "BaseExceptionGroup", "BlockingIOError", "BrokenPipeError", "BufferError",
    "BytesWarning", "ChildProcessError", "ConnectionAbortedError", "ConnectionError", "ConnectionRefusedError",
    "ConnectionResetError", "DeprecationWarning", "EOFError", "EncodingWarning", "EnvironmentError", "Exception",
    "ExceptionGroup", "FileExistsError", "FileNotFoundError", "FloatingPointError", "FutureWarning", "GeneratorExit",
    "IOError", "ImportError", "ImportWarning", "IndentationError", "IndexError", "InterruptedError",
    "IsADirectoryError", "KeyError", "KeyboardInterrupt", "LookupError", "MemoryError", "ModuleNotFoundError",
    "NameError", "NotADirectoryError", "NotImplementedError", "OSError", "OverflowError", "PendingDeprecationWarning",
    "PermissionError", "ProcessLookupError", "RecursionError", "ReferenceError", "ResourceWarning", "RuntimeError",
    "RuntimeWarning", "StopAsyncIteration", "StopIteration", "SyntaxError", "SyntaxWarning", "SystemError",
    "SystemExit", "TabError", "TimeoutError", "TypeError", "UnboundLocalError", "UnicodeDecodeError",
    "UnicodeEncodeError", "UnicodeError", "UnicodeTranslateError", "UnicodeWarning", "UserWarning", "ValueError",
    "Warning", "ZeroDivisionError"]

/-- What a name of the language is that the library has no use for. -/
def foreignName? (name : String) : Option Value :=
  if foreignFunctions.contains name then
    some (.intrinsic {
      cls := "builtin_function_or_method"
      text := s!"<built-in function {name}>"
      label := some name
      reaction := .outside })
  else if foreignClasses.contains name then some (.cls (.builtin (.internal name)))
  else if name = "Ellipsis" then some (.intrinsic { cls := "ellipsis", text := name })
  else if name = "NotImplemented" then some (.intrinsic { cls := "NotImplementedType", text := name })
  else none

/-- The names that every module has. -/
def builtinName? : String → Option Value
  | "int" => some (.cls (.builtin .int))
  | "str" => some (.cls (.builtin .str))
  | "float" => some (.cls (.builtin .float))
  | "bool" => some (.cls (.builtin .bool))
  | "object" => some (.cls (.builtin .object))
  | "type" => some (.cls (.builtin .type))
  | "tuple" => some (.cls (.builtin .tuple))
  | "list" => some (.cls (.builtin .list))
  | "isinstance" => some (.function (.builtin .classTest))
  | "staticmethod" => some (.function (.builtin .detach))
  | name => foreignName? name

namespace World

variable (w : World)

/-- What a name means in a module, outside its functions. -/
def global (home : Nat) (name : String) : Except Failure Value :=
  match constant? name <|> (w.globals home).get? name <|> builtinName? name with
  | some v => .ok v
  | none => .error (.error .nameError s!"name '{name}' is not defined")

def globalPath (home : Nat) (d : DottedName) : Except Failure Value := do
  w.memberPath (← w.global home d.head) d.rest

end World

/-- Where the body of a function looks names up, whom it calls, and which registries it asks. -/
structure Scope where
  world : World
  home : Nat
  call : Caller
  answer : Answerer
  /-- The names that are variables of the function, set or not. -/
  own : List String

namespace Scope

variable (s : Scope)

/-- What a name means in a function. A variable of the function hides everything else of its name, even before it is
set. -/
def name (locals : Locals) (name : String) : Except Failure Value :=
  if (constant? name).isNone && s.own.contains name then
    match locals.get? name with
    | some v => .ok v
    | none =>
      .error (.error .unboundLocal
        s!"cannot access local variable '{name}' where it is not associated with a value")
  else s.world.global s.home name

def path (locals : Locals) (d : DottedName) : Except Failure Value := do
  s.world.memberPath (← s.name locals d.head) d.rest

def fetch (name : String) : Action Value := do s.name (← get) name

def fetchPath (d : DottedName) : Action Value := do s.path (← get) d

def assign (name : String) (v : Value) : Action Unit := modify fun locals => locals.insert name v

/-- Whether a value is an instance of a class, by whatever the module takes for the test. -/
def isInstance (subject : String) (d : DottedName) : Action Bool := do
  let test ← s.fetch "isinstance"
  let v ← s.fetch subject
  let c ← s.fetchPath d
  let result : Value ← liftM (s.call test (.of [v, c]))
  liftM (s.world.truth result)

/-- A helper of the library. -/
def helper (name : String) : Action Value := s.fetchPath ⟨"_rt", [name]⟩

/-- Raises what a helper makes of some arguments. -/
def raiseBy (helper : Value) (args : List Value) : Action Value :=
  match helper, args with
  | .function (.builtin .notAVariant), [v, .text union] => throw (.foreign s.world v union)
  | .cls (.builtin .exhausted), [v, .text dest, .text case, .tuple tried] =>
    throw (.exhaustion s.world v dest case (tried.filterMap Value.asText?))
  | _, _ => do
    match ← liftM (s.call helper (.of args)) with
    | .intrinsic _ | .cls (.builtin (.internal _)) => throw (.error .undetermined "what is raised is left open")
    | _ => throw (.error .typeError "exceptions must derive from BaseException")

/-- Whether an attempt takes a failure as its own. What is left open stays so. -/
def catches (f : Failure) : Action Bool := do
  if f.isUndetermined then return false
  match ← s.helper "ConversionFailed" with
  | .cls (.builtin .conversionFailed) => return f.isRejection
  | .cls (.builtin .exhausted) => return f.isExhaustion
  | .cls (.builtin (.internal _)) | .tuple _ => throw (.error .undetermined "what is caught is left open")
  | _ => throw (.error .typeError "catching classes that do not inherit from BaseException is not allowed")

end Scope

end UnionBridge
