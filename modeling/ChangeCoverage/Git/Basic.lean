import ChangeCoverage.Text.Number
import ChangeCoverage.World.Run

/-!
Calls of git and what is made of their replies.
-/

namespace ChangeCoverage.Git

namespace Reply

def succeeded (reply : Reply) : Bool :=
  reply.exitCode = some 0

def output (reply : Reply) : Text :=
  Text.trim (Text.decodeLossy reply.stdout)

def complaint (reply : Reply) : Text :=
  Text.trim (Text.decodeLossy reply.stderr)

/-- What the command says about its failure: its error output or else its output. -/
def explanation (reply : Reply) : Text :=
  if reply.complaint.isEmpty then reply.output else reply.complaint

def failure (reply : Reply) (arguments : List Text) : Failure :=
  .git ("git ".toList ++ arguments.head?.getD [] ++ " failed (exit code ".toList ++
    (reply.exitCode.map Text.decimal).getD "-1".toList ++ "): ".toList ++ reply.explanation)

end Reply

def call (world : World) (directory : Text) (arguments : List Text) :
    Run (Except Obstacle Reply) :=
  match world.git directory arguments with
  | .error obstacle => pure (.error obstacle)
  | .ok reply => { outcome := .ok (.ok reply), calls := [{ directory, arguments }] }

def reply (world : World) (directory : Text) (arguments : List Text) : Run Reply := do
  match ← call world directory arguments with
  | .ok reply => pure reply
  | .error obstacle =>
      Run.fail (.git ("failed to execute git ".toList ++ arguments.head?.getD [] ++
        ": ".toList ++ obstacle.message))

def successfulReply (world : World) (directory : Text) (arguments : List Text) : Run Reply := do
  let reply ← reply world directory arguments
  if reply.succeeded then pure reply else Run.fail (reply.failure arguments)

def rawOutput (world : World) (directory : Text) (arguments : List Text) : Run Text := do
  return Text.decodeLossy (← successfulReply world directory arguments).stdout

def succeeds (world : World) (directory : Text) (arguments : List Text) : Run Bool := do
  return (← reply world directory arguments).succeeded

end ChangeCoverage.Git
