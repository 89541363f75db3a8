import ChangeCoverage.Case.Table
import ChangeCoverage.Command.Session

/-!
The cases of changed branches, file by file.  Deleted files have no content at
the new revision and are left out.
-/

namespace ChangeCoverage

structure FileCases where
  path : Text
  cases : List Case
  deriving DecidableEq, Repr

structure CaseReport where
  time : Text
  revisions : Revisions
  files : List FileCases
  deriving DecidableEq, Repr

namespace CaseReport

def caseCount (report : CaseReport) : Nat :=
  (report.files.flatMap (·.cases)).length

/-- Chooses among the files that differ: the named ones, in the order of the
names, or else those that the configuration selects. -/
def choose (config : Config) (changed : List ChangedFile) (paths : List Text) :
    Except Failure (List ChangedFile) :=
  if paths.isEmpty then
    config.fileFilter.map fun filter => changed.filter fun file => filter.accepts file.path
  else
    .ok (paths.filterMap fun path =>
      changed.find? fun file => file.path = Text.forwardSlashes path)

/-- The numbers of the changed lines of a file with some lines; all lines of an
added file are new. -/
def changedLines (world : World) (session : Session) (revisions : Revisions)
    (file : ChangedFile) (lineCount : Nat) : Run (List Nat) :=
  if file.status = .added then pure (Text.lineNumbers lineCount)
  else Patch.changedLines <$> session.diff world revisions file.status.previousPath? file.path

def fileCases? (world : World) (session : Session) (revisions : Revisions)
    (file : ChangedFile) : Run (Option FileCases) := do
  if file.status = .deleted then return none
  else
    match ← Git.lines? world session.root revisions.new file.path with
    | none => return none
    | some lines =>
        let changed ← changedLines world session revisions file lines.length
        return some { path := file.path, cases := Case.ofSource (Text.joinLines lines) changed }

def allFileCases (world : World) (session : Session) (revisions : Revisions) :
    List ChangedFile → Run (List FileCases)
  | [] => pure []
  | file :: rest => do
      let found ← fileCases? world session revisions file
      let others ← allFileCases world session revisions rest
      return found.toList ++ others

def collect (world : World) (session : Session) (revisions : Revisions) (paths : List Text) :
    Run CaseReport := do
  let changed ← session.changedFiles world session.config.detectRenames revisions
  let chosen ← Run.ofOutcome (choose session.config changed paths)
  let files ← allFileCases world session revisions chosen
  return { time := world.time, revisions, files }

end CaseReport

def Case.json (case : Case) : Output.Json :=
  .object [
    ("class_name".toList, .ofOption .text case.scope.typeName),
    ("method_name".toList, .ofOption .text case.scope.methodName),
    ("branch_condition".toList, .text case.condition)]

def FileCases.json (file : FileCases) : Output.Json :=
  .object [
    ("path".toList, .text file.path),
    ("cases".toList, .list (file.cases.map Case.json))]

def FileCases.textLines (file : FileCases) : List Text :=
  let heading := file.path ++ " (".toList ++ Text.decimal file.cases.length ++ " cases)".toList
  let remark := if file.cases.isEmpty then ["  no changed branches".toList] else []
  heading :: remark ++ (Case.rows file.cases).map ("  ".toList ++ ·) ++ [[]]

namespace CaseReport

def json (report : CaseReport) : Output.Json :=
  .object [
    ("generated_at".toList, .text report.time),
    ("old_revision".toList, .text report.revisions.old),
    ("new_revision".toList, .text report.revisions.new),
    ("files".toList, .list (report.files.map FileCases.json))]

def textLines (report : CaseReport) : List Text :=
  if report.files.isEmpty then
    ["No matching files changed between ".toList ++ report.revisions.old ++ " and ".toList ++
      report.revisions.new ++ ['.']]
  else
    report.files.flatMap FileCases.textLines ++
      ["Total: ".toList ++ Text.decimal report.caseCount ++ " cases".toList]

def run (world : World) (directory : Option Text) (revisions : Revisions) (paths : List Text)
    (format : Option OutputFormat) : Run Unit := do
  let session ← Session.openFor world directory revisions
  let report ← collect world session revisions paths
  match format.getD session.config.outputFormat with
  | .json => Run.printJson report.json
  | .text => Run.printLines report.textLines

end CaseReport

end ChangeCoverage
