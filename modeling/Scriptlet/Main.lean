import Scriptlet.Command

/-!
Contract: the executable.  It reads arguments, files and standard input, draws a
seed, and writes what the command leaves behind.
-/

namespace Scriptlet

/-- The failure that a system error is. -/
def ReadError.ofSystem : IO.Error → ReadError
  | .noFileOrDirectory .. => .notFound
  | .noSuchThing .. => .notFound
  | .inappropriateType _ code _ => if code = 20 then .notDirectory else .isDirectory
  | error => .other (toString error)

/-- Reads the bytes of a source. -/
def InputSource.readBytes : InputSource → IO ByteArray
  | .file path => IO.FS.readBinFile path
  | .standardInput => do (← IO.getStdin).readBinToEnd

/-- Reads the text of a source. -/
def InputSource.readText (source : InputSource) : IO (Except ReadError String) := do
  match ← source.readBytes.toBaseIO with
  | .ok bytes => return Command.decodeText bytes
  | .error error => return .error (.ofSystem error)

/-- Runs an invocation. -/
def Invocation.perform (invocation : Invocation) : IO (Except CommandError State) := do
  let seed ← IO.rand 0 (UInt64.size - 1)
  let source ← invocation.source.readText
  return invocation.execute (.ofSeed (UInt64.ofNat seed)) source

end Scriptlet

open Scriptlet in
def main (arguments : List String) : IO UInt32 := do
  let result ← match Invocation.ofArguments arguments with
    | .error error => pure (CommandResult.ofState (.error error))
    | .ok invocation => CommandResult.ofState <$> invocation.perform
  (← IO.getStdout).putStr result.output
  (← IO.getStderr).putStr result.errors
  return result.code
