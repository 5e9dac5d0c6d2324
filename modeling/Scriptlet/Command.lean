import Scriptlet.Command.StepCount
import Scriptlet.Command.Table
import Scriptlet.Program.Run

/-!
Contract: the command line.

Owns:
- reading arguments: step counts first, then at most one input file;
- compiling and running the input with every feature, from the empty state;
- the text and exit code of every outcome.

Does not own: reading files and standard input.
-/

namespace Scriptlet

/-- Where the source text comes from. -/
inductive InputSource where
  | file (path : String)
  | standardInput
deriving DecidableEq, Repr

namespace InputSource

/-- The name of a source in failures to read it. -/
def describe : InputSource → String
  | .file path => path
  | .standardInput => "stdin"

end InputSource

/-- A failure to read the source text. -/
inductive ReadError where
  | notFound
  | isDirectory
  | notDirectory
  | invalidText
  | other (message : String)
deriving DecidableEq, Repr

namespace ReadError

def message : ReadError → String
  | .notFound => "No such file or directory (os error 2)"
  | .isDirectory => "Is a directory (os error 21)"
  | .notDirectory => "Not a directory (os error 20)"
  | .invalidText => "stream did not contain valid UTF-8"
  | .other message => message

end ReadError

/-- A failure of the command. -/
inductive CommandError where
  | missingStepCount
  | invalidStepCount (text : String) (cause : StepCountError)
  | severalFiles
  | reading (source : InputSource) (cause : ReadError)
  | compiling (cause : ParseError)
  | running (cause : RunError)
  /-- The run was nested deeper than its fuel. -/
  | outOfFuel
deriving DecidableEq

namespace CommandError

/-- What failed. -/
def summary : CommandError → String
  | .missingStepCount => "Missing step count after --max-steps"
  | .invalidStepCount text _ => "Invalid step count '" ++ text ++ "'"
  | .severalFiles => "Only one input file is supported"
  | .reading source _ => "Reading " ++ source.describe
  | .compiling _ => "Compiling program"
  | .running _ => "Running program"
  | .outOfFuel => "Program did not end"

/-- Why it failed, where there is more to say. -/
def cause? : CommandError → Option String
  | .invalidStepCount _ cause => some cause.message
  | .reading _ cause => some cause.message
  | .compiling cause => some cause.message
  | .running cause => some cause.message
  | _ => none

/-- Text of a failure as the command writes it. -/
def render (error : CommandError) : String :=
  match error.cause? with
  | none => "Error: " ++ error.summary ++ "\n"
  | some cause => "Error: " ++ error.summary ++ "\n\nCaused by:\n    " ++ cause ++ "\n"

end CommandError

/-- What the arguments ask for. -/
structure Invocation where
  limits : Limits
  source : InputSource
deriving DecidableEq, Repr

namespace Invocation

/-- Reads arguments, with the limits given so far. -/
def ofArgumentsFrom (limits : Limits) : List String → Except CommandError Invocation
  | [] => .ok ⟨limits, .standardInput⟩
  | ["--max-steps"] => .error .missingStepCount
  | "--max-steps" :: text :: rest =>
      match StepCount.parse text with
      | .error cause => .error (.invalidStepCount text cause)
      | .ok budget => ofArgumentsFrom (.withBudget budget) rest
  | [path] => .ok ⟨limits, .file path⟩
  | _ => .error .severalFiles

/-- Reads arguments. -/
def ofArguments (arguments : List String) : Except CommandError Invocation :=
  ofArgumentsFrom .default arguments

/-- Compiles and runs the source text that was read, and gives the final state. -/
def execute (invocation : Invocation) (random : RandomSource)
    (source : Except ReadError String) : Except CommandError State := do
  let text ← source.mapError (.reading invocation.source)
  let program ← (Program.compile .all text).mapError .compiling
  match (program.run ∅ invocation.limits random).ending with
  | .finished state _ => .ok state
  | .failed error => .error (.running error)
  | .outOfFuel => .error .outOfFuel

end Invocation

/-- What the command leaves behind. -/
structure CommandResult where
  code : UInt32
  output : String
  errors : String
deriving DecidableEq, Repr

namespace CommandResult

/-- The table of the final state, or the failure. -/
def ofState : Except CommandError State → CommandResult
  | .ok state => ⟨0, state.table, ""⟩
  | .error error => ⟨1, "", error.render⟩

end CommandResult

namespace Command

/-- Text of bytes that were read. -/
def decodeText (bytes : ByteArray) : Except ReadError String :=
  match String.fromUTF8? bytes with
  | some text => .ok text
  | none => .error .invalidText

/-- Runs the command on arguments, where `read` tells what a source holds. -/
def run (arguments : List String) (read : InputSource → Except ReadError String)
    (random : RandomSource) : CommandResult :=
  .ofState do
    let invocation ← Invocation.ofArguments arguments
    invocation.execute random (read invocation.source)

end Command

end Scriptlet
