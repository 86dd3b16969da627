import UnionBridge.Value.Basic

/-! Failures of a running program. -/
namespace UnionBridge

inductive ErrorKind
  | typeError
  | valueError
  | unicodeError
  | arithmeticError
  | zeroDivision
  | floatingPoint
  | overflow
  | lookupError
  | keyError
  | attributeError
  | nameError
  | unboundLocal
  | runtimeError
  | recursion
  | assertionError
  | importError
  | moduleNotFound
  /-- Not an error: it is left open what happens. -/
  | undetermined
  /-- Any other error; none of these is about a value. -/
  | other (name : String)
  deriving DecidableEq, Repr

namespace ErrorKind

def name : ErrorKind → String
  | .typeError => "TypeError"
  | .valueError => "ValueError"
  | .unicodeError => "UnicodeError"
  | .arithmeticError => "ArithmeticError"
  | .zeroDivision => "ZeroDivisionError"
  | .floatingPoint => "FloatingPointError"
  | .overflow => "OverflowError"
  | .lookupError => "LookupError"
  | .keyError => "KeyError"
  | .attributeError => "AttributeError"
  | .nameError => "NameError"
  | .unboundLocal => "UnboundLocalError"
  | .runtimeError => "RuntimeError"
  | .recursion => "RecursionError"
  | .assertionError => "AssertionError"
  | .importError => "ImportError"
  | .moduleNotFound => "ModuleNotFoundError"
  | .undetermined => ""
  | .other name => name

/-- The kinds that mean that a value does not fit a target. -/
def meansMisfit : ErrorKind → Bool
  | .typeError | .valueError | .unicodeError | .arithmeticError | .zeroDivision | .floatingPoint | .overflow => true
  | _ => false

end ErrorKind

inductive Failure
  | error (kind : ErrorKind) (message : String)
  /-- A conversion that rejects its value, and the kind of error that made it do so. -/
  | rejected (value target : Value) (reason : Option String) (cause : Option ErrorKind) (message : String)
  /-- No candidate accepted a value. -/
  | exhausted (value : Value) (dest case : String) (tried : List String) (message : String)

namespace Failure

def message : Failure → String
  | .error _ message | .rejected _ _ _ _ message | .exhausted _ _ _ _ message => message

def isRejection : Failure → Bool
  | .rejected .. => true
  | _ => false

def isExhaustion : Failure → Bool
  | .exhausted .. => true
  | _ => false

/-- Whether it is left open what happens. -/
def isUndetermined : Failure → Bool
  | .error kind _ => kind = .undetermined
  | _ => false

def undetermined {α : Type} (message : String) : Except Failure α := .error (.error .undetermined message)

def typeError {α : Type} (message : String) : Except Failure α := .error (.error .typeError message)

def attributeError {α : Type} (message : String) : Except Failure α := .error (.error .attributeError message)

end Failure

end UnionBridge
