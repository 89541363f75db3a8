import ChangeCoverage.ChangedFile
import ChangeCoverage.Git.Basic

/-!
Questions about a repository that git answers.
-/

namespace ChangeCoverage.Git

/-- Why no root is known, after git was not successful in finding one. -/
def rootFailure (reply : Reply) : Failure :=
  if Text.contains reply.complaint "not a git repository".toList ||
      Text.contains reply.complaint "fatal:".toList then
    .user ("not inside a git repository. Run this command from within a git repository, " ++
      "or pass --repo <path>.").toList
  else .user ("git command failed: ".toList ++ reply.explanation)

def rootOf (world : World) (directory : Text) : Run Text := do
  match ← call world directory ["rev-parse".toList, "--show-toplevel".toList] with
  | .error obstacle =>
      Run.fail (.user ("failed to execute git: ".toList ++ obstacle.message ++
        " (is git installed?)".toList))
  | .ok reply => if reply.succeeded then pure reply.output else Run.fail (rootFailure reply)

def revisionArguments (revision : Text) : List Text :=
  ["rev-parse".toList, "--verify".toList, "--quiet".toList,
    revision ++ ['^', '{'] ++ "commit".toList ++ ['}']]

def commitOf (world : World) (directory revision : Text) : Run Text := do
  let reply ← reply world directory (revisionArguments revision)
  if reply.succeeded then pure reply.output
  else
    Run.fail (.user ("unknown revision '".toList ++ revision ++
      ("'.\n\nPass a branch name, tag, or commit SHA that exists in this " ++
        "repository.").toList))

/-- The arguments that ask for the files that differ between two revisions. -/
def listingArguments (detectRenames : Bool) (old new : Text) : List Text :=
  ["diff".toList, "--name-status".toList, "--no-color".toList,
    if detectRenames then "-M".toList else "--no-renames".toList, old, new]

def changedFiles (world : World) (directory : Text) (detectRenames : Bool) (old new : Text) :
    Run (List ChangedFile) := do
  let reply ← successfulReply world directory (listingArguments detectRenames old new)
  return ChangedFile.parseListing reply.output

/-- The arguments that ask for the diff of some paths between two revisions. -/
def diffArguments (contextLines : Nat) (old new : Text) (paths : List Text) : List Text :=
  ["diff".toList, "--no-color".toList, "--no-ext-diff".toList, "-M".toList,
    "-U".toList ++ Text.decimal contextLines, old, new, "--".toList] ++ paths

def diff (world : World) (directory : Text) (contextLines : Nat) (old new : Text)
    (paths : List Text) : Run Text :=
  rawOutput world directory (diffArguments contextLines old new paths)

def content? (world : World) (directory revision path : Text) : Run (Option Text) := do
  let object := revision ++ ':' :: path
  if ← succeeds world directory ["cat-file".toList, "-e".toList, object] then
    return some (← rawOutput world directory ["show".toList, object])
  else return none

def lines? (world : World) (directory revision path : Text) : Run (Option (List Text)) := do
  return (← content? world directory revision path).map Text.cleanLines

end ChangeCoverage.Git
