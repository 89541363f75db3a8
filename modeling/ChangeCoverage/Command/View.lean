import ChangeCoverage.Alignment.Build
import ChangeCoverage.Command.Session

/-!
One file at two revisions, side by side.
-/

namespace ChangeCoverage

namespace Alignment

def SideKind.name : SideKind → Text
  | context => "context".toList
  | added => "added".toList
  | deleted => "deleted".toList
  | placeholder => "placeholder".toList

def Row.json (row : Row) : Output.Json :=
  .object [
    ("left_line_number".toList, .ofOption .number row.left.number),
    ("left_content".toList, .text row.left.content),
    ("left_kind".toList, .text row.left.kind.name),
    ("right_line_number".toList, .ofOption .number row.right.number),
    ("right_content".toList, .text row.right.content),
    ("right_kind".toList, .text row.right.kind.name)]

end Alignment

structure View where
  revisions : Revisions
  oldPath : Text
  path : Text
  rows : List Alignment.Row

namespace View

/-- The path that a file had before, if a listing shows it with another one. -/
def previousPath? (files : List ChangedFile) (path : Text) : Option Text :=
  (files.find? (·.path = path)).bind (·.status.previousPath?)

/-- Builds the view of a file, which has to exist at one of the revisions. -/
def build (world : World) (session : Session) (revisions : Revisions) (path : Text) :
    Run View := do
  let path := Text.forwardSlashes path
  let files ← session.changedFiles world true revisions
  let oldPath := (previousPath? files path).getD path
  let old ← Git.lines? world session.root revisions.old oldPath
  let new ← Git.lines? world session.root revisions.new path
  if old.isNone && new.isNone then
    Run.fail (.user ('\'' :: path ++ "' does not exist at ".toList ++ revisions.old ++
      " or ".toList ++ revisions.new))
  else
    let previous := if oldPath = path then none else some oldPath
    let diff ← session.diff world revisions previous path
    let rows ← Run.orPanic .overflow
      (Alignment.align? { old := old.getD [], new := new.getD [] } diff)
    return { revisions, oldPath, path, rows }

def json (view : View) : Output.Json :=
  .object [
    ("old_revision".toList, .text view.revisions.old),
    ("new_revision".toList, .text view.revisions.new),
    ("old_path".toList, .text view.oldPath),
    ("path".toList, .text view.path),
    ("rows".toList, .list (view.rows.map Alignment.Row.json))]

def heading (view : View) : Text :=
  view.oldPath ++ " (".toList ++ view.revisions.old ++ ") -> ".toList ++ view.path ++
    " (".toList ++ view.revisions.new ++ [')']

/-- Prints a view as text.  Its heading comes before any row is rendered. -/
def printText (view : View) (width : Nat) : Run Unit := do
  Run.printLines [view.heading]
  let rendered ← Run.orPanic .wideColumn (view.rows.mapM (·.render? width))
  Run.printLines rendered

def run (world : World) (directory : Option Text) (revisions : Revisions) (path : Text)
    (format : Option OutputFormat) (width : Option Nat) : Run Unit := do
  let session ← Session.openFor world directory revisions
  let width := width.getD session.config.columnWidth
  if width < Config.minimumWidth then
    Run.fail (.user ("--width must be at least ".toList ++ Text.decimal Config.minimumWidth ++
      " (found ".toList ++ Text.decimal width ++ [')']))
  else
    let view ← build world session revisions path
    match format.getD session.config.outputFormat with
    | .json => Run.printJson view.json
    | .text => view.printText width

end View

end ChangeCoverage
