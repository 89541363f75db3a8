import ChangeCoverage.Command.Request
import ChangeCoverage.Config.Load
import ChangeCoverage.Git.Query
import ChangeCoverage.Output.Json
import ChangeCoverage.Patch.Section

/-!
What every command needs before it looks at revisions: the root of the repository,
its configuration, and the certainty that both revisions exist.
-/

namespace ChangeCoverage

structure Session where
  root : Text
  config : Config
  deriving DecidableEq, Repr

namespace Session

def locateRoot (world : World) (directory : Option Text) : Run Text :=
  let directory := directory.getD world.workingDirectory
  if world.isDirectory directory then Git.rootOf world directory
  else
    Run.fail (.user
      ("repository path '".toList ++ directory ++ "' is not a directory".toList))

def openFor (world : World) (directory : Option Text) (revisions : Revisions) : Run Session := do
  let root ← locateRoot world directory
  let config ← Run.ofOutcome (Config.loadOrDefault world root)
  let _ ← Git.commitOf world root revisions.old
  let _ ← Git.commitOf world root revisions.new
  return { root, config }

def changedFiles (session : Session) (world : World) (detectRenames : Bool)
    (revisions : Revisions) : Run (List ChangedFile) :=
  Git.changedFiles world session.root detectRenames revisions.old revisions.new

def diff (session : Session) (world : World) (revisions : Revisions) (previous : Option Text)
    (path : Text) : Run (List Patch.Line) := do
  let patch ← Git.diff world session.root session.config.contextLines revisions.old revisions.new
    (previous.toList ++ [path])
  Run.orPanic .overflow (Patch.diffFor? patch path)

end Session

def Run.printJson (value : Output.Json) : Run Unit :=
  printLines [value.render 0]

end ChangeCoverage
