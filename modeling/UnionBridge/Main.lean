import UnionBridge.CommandLine.Report

/-! The command-line program. -/
namespace UnionBridge

def faultOfError (e : IO.Error) : Option FileFault :=
  match e with
  | .noFileOrDirectory .. => some .missing
  | .inappropriateType _ code _ => some (if code = 20 then .notDirectory else .isDirectory)
  | _ => none

/-- Reads a schema file. -/
def readSchema (p : Path) : IO (Except ReadFault String) := do
  try
    let bytes ← IO.FS.readBinFile p.text
    match Text.decodeUtf8 bytes.toList with
    | .ok cs => return .ok (String.ofList (Text.unifyLineEnds cs))
    | .error e => return .error (.encoding e)
  catch e =>
    match faultOfError e with
    | some f => return .error (.file f)
    | none => throw e

def encoded (text : Raw) : IO ByteArray :=
  match text.encode with
  | .ok bytes => return ⟨bytes.toArray⟩
  | .error e => throw (IO.userError e.message)

/-- Does what an effect says. Stray bytes show as escapes in messages, and nowhere else. -/
def perform (e : Effect) : IO Unit :=
  match e with
  | .out text => do (← IO.getStdout).write (← encoded text)
  | .err text => do (← IO.getStderr).putStr text.escaped
  | .write p text => do
    IO.FS.writeFile p.text ""
    IO.FS.writeBinFile p.text (← encoded text)

def finish (e : Ending) : IO UInt32 :=
  match e with
  | .exit code => return UInt32.ofNat code
  | .undecodable e => do
    IO.eprintln e.message
    return 1
  | .badName => do
    IO.eprintln "embedded null byte"
    return 1
  | .unsettled => do
    IO.eprintln "a file name that is no text"
    return 1

end UnionBridge

open UnionBridge in
def main (arguments : List String) : IO UInt32 := do
  let texts := arguments.map Raw.ofString
  let directory := Path.ofString (toString (← IO.currentDir))
  let dump ← IO.getEnv Options.dumpVariable
  let source ← match Arguments.parse texts with
    | .ok (.compile a) => readSchema a.source
    | _ => pure (.error .badName)
  let report := Report.ofCommandLine texts directory dump fun _ => source
  report.effects.forM perform
  finish report.ending
