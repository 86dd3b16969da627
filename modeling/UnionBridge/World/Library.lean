import UnionBridge.Module.Feature
import UnionBridge.World.Basic

/-! The modules that exist before anything is loaded. -/
namespace UnionBridge.Library

/-- The registry that modules use unless they are given another. -/
def registryName : String := "default"

def conversionNames : List (String × Value) :=
  [("ConversionFailed", .cls (.builtin .conversionFailed)), ("ConverterRegistry", .cls (.builtin .registry)),
    ("ExhaustedCandidatesError", .cls (.builtin .exhausted)), ("converter", .function (.builtin .converter)),
    ("default_registry", .registry registryName), ("not_a_variant", .function (.builtin .notAVariant))]

def effectNames : List (String × Value) :=
  [("Effectful", .cls (.builtin (.carrier .effectful))), ("WithEffects", .cls (.builtin .withEffects)),
    ("require_effect_container", .function (.builtin .requireContainer))]

def unionNames : List (String × Value) :=
  [("attach_variant", .function (.builtin .attachVariant)), ("variants_of", .function (.builtin .variantsOf))]

def submodule (path : String) : Value := .module (.library path)

/-- Every module by its path, with its names. -/
def modules : List (String × List (String × Value)) :=
  [("casemap", [("__version__", .text Module.version), ("runtime", submodule "casemap.runtime")]),
    ("casemap.runtime",
      conversionNames ++ effectNames ++ unionNames ++
        [("convert", submodule "casemap.runtime.convert"), ("effects", submodule "casemap.runtime.effects"),
          ("unions", submodule "casemap.runtime.unions")]),
    ("casemap.runtime.convert", conversionNames),
    ("casemap.runtime.effects", effectNames),
    ("casemap.runtime.unions", unionNames),
    ("dataclasses", [("dataclass", .function (.builtin .recordClass))]),
    ("__future__", Feature.names.map fun name => (name, .feature name))]

/-- The modules that can hold others. -/
def packages : List String := ["casemap", "casemap.runtime"]

/-- What every module of the library has. -/
def commonAttribute? (path : String) : String → Option Value
  | "__name__" => some (.text path)
  | "__doc__" | "__file__" | "__cached__" => some (.text "")
  | "__package__" =>
    some (.text (if packages.contains path then path else ".".intercalate (path.splitOn ".").dropLast))
  | "__path__" => if packages.contains path then some (.list [.text ""]) else none
  | "__builtins__" => some (.intrinsic (.dictionary "\x7b...\x7d" true))
  | "__spec__" => some (.intrinsic { cls := "ModuleSpec", text := s!"ModuleSpec(name='{path}')" })
  | "__loader__" => some (.intrinsic { cls := "SourceFileLoader", text := "<SourceFileLoader object>" })
  | _ => none

/-- The names that a module offers to whoever wants all of them. -/
def offered : String → List String
  | "casemap" => ["core", "parser", "runtime"]
  | "casemap.runtime" => (conversionNames ++ effectNames ++ unionNames).map Prod.fst
  | "casemap.runtime.convert" => conversionNames.map Prod.fst
  | "casemap.runtime.effects" => ["WithEffects", "Effectful", "require_effect_container"]
  | "casemap.runtime.unions" => unionNames.map Prod.fst
  | _ => []

def attribute? (path name : String) : Option Value :=
  match (modules.find? (·.1 = path)).bind fun m => (m.2.find? (·.1 = name)).map Prod.snd with
  | some v => some v
  | none => if name = "__all__" then some (.list ((offered path).map .text)) else commonAttribute? path name

/-- The state before anything is loaded. -/
def world : World where
  classes := []
  modules := []
  registries := ∅
  importable := ⟨modules.map fun (path, _) => (path, .library path)⟩
  misplaced := ∅

end UnionBridge.Library
