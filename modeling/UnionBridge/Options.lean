import UnionBridge.CommandLine.Path
import UnionBridge.Text.Blank
import UnionBridge.Text.Raw

/-! Options of a compilation. -/
namespace UnionBridge

structure Options where
  /-- Where a second copy of the generated module goes. -/
  dump : Option Path := none
  docstring : Option Raw := none
  deriving DecidableEq, Repr

namespace Options

def dumpVariable : String := "CASEMAP_DUMP"

def dumpFile : String := "casemap_output.py"

/-- Whether the value of an environment variable turns something on. -/
def isOn (value : String) : Bool :=
  let word := String.ofList ((Text.strip value.toList).map Char.toLower)
  ["1", "true", "yes", "on"].contains word

/-- The options of an environment. A dump path that is given, even as none, wins over the variable. -/
def ofEnvironment (directory : Path) (value : Option String) (dump : Option (Option Path))
    (docstring : Option Raw) : Options where
  dump := dump.getD (if (value.map isOn).getD false then some (directory.child dumpFile) else none)
  docstring

end Options

end UnionBridge
