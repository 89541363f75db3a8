import ChangeCoverage.Command.Execution
import ChangeCoverage.CommandLine.Reader
import ChangeCoverage.World.Transcript

/-!
The command line program.  It carries its arguments out in a recorded world,
which is read from standard input.
-/

namespace ChangeCoverage.Program

def usage : String :=
  "Usage: diffcov [-C PATH] [-v] files OLD NEW\n" ++
  "       diffcov [-C PATH] [-v] side-by-side OLD NEW PATH [--format text|json] [--width N]\n" ++
  "       diffcov [-C PATH] [-v] cases OLD NEW [PATH]... [--format text|json]\n"

def versionLine : String :=
  "diffcov 0.1.0"

partial def readAll (stream : IO.FS.Stream) (before : String) : IO String := do
  let line ← stream.getLine
  if line.isEmpty then return before else readAll stream (before ++ line)

def explain (refusal : CommandLine.Refusal) : IO Unit :=
  match refusal with
  | .help => IO.print usage
  | .version => IO.println versionLine
  | .nothingAsked => IO.eprint usage
  | .missingOperand => IO.eprintln "error: a required argument was not provided"
  | .missingCommand => IO.eprintln "error: a command is required"
  | .unknownCommand => IO.eprintln "error: unrecognized command"
  | .unknownOption => IO.eprintln "error: unexpected argument"
  | .invalidValue => IO.eprintln "error: an option has a missing or impossible value"
  | .unreadableValue => IO.eprintln "error: an option has an unreadable value"
  | .unexpectedValue => IO.eprintln "error: an option takes no value"
  | .repeatedOption => IO.eprintln "error: an option was given twice"

def carryOut (request : Request) (recording : Recording) : IO UInt32 := do
  let run := request.run recording.world
  IO.print (String.ofList run.printed)
  match run.outcome with
  | .ok () => return 0
  | .error (.panic cause) =>
      IO.eprintln ("Panic: " ++ String.ofList cause.message)
      return (Failure.panic cause).exitCode.toUInt32
  | .error failure =>
      IO.eprintln ("Error: " ++ String.ofList failure.message)
      return failure.exitCode.toUInt32

end ChangeCoverage.Program

open ChangeCoverage

def main (arguments : List String) : IO UInt32 := do
  match CommandLine.read (arguments.map String.toList) with
  | .error refusal =>
      Program.explain refusal
      return refusal.exitCode.toUInt32
  | .ok request =>
      let transcript ← Program.readAll (← IO.getStdin) ""
      match Recording.parse? transcript.toList with
      | some recording => Program.carryOut request recording
      | none =>
          IO.eprintln "Error: the recorded world cannot be read"
          return 1
