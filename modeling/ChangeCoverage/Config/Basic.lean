import ChangeCoverage.Failure
import ChangeCoverage.Glob.Parse
import ChangeCoverage.Text.Number
import ChangeCoverage.Text.Search

/-!
Configuration of a repository, and the selection of files that it describes.
-/

namespace ChangeCoverage

inductive OutputFormat where
  | text
  | json
  deriving DecidableEq, Repr

structure Config where
  /-- Unchanged lines requested around each change of a diff. -/
  contextLines : Nat := 3
  detectRenames : Bool := true
  includeGlobs : List Text := ["**/*.cs".toList]
  excludeGlobs : List Text := []
  outputFormat : OutputFormat := .text
  columnWidth : Nat := 60
  deriving DecidableEq, Repr

namespace Config

def fileName : Text := ".diffcov.yaml".toList

def minimumWidth : Nat := 10

end Config

structure FileFilter where
  included : List Glob
  excluded : List Glob

namespace FileFilter

/-- Reads globs, of which the first faulty one is reported with its setting. -/
def readGlobs (setting : String) (globs : List Text) : Except Failure (List Glob) :=
  globs.mapM fun written =>
    match Glob.parse (Text.forwardSlashes written) with
    | .ok glob => .ok glob
    | .error fault =>
        .error (.configuration
          ("invalid glob pattern in ".toList ++ setting.toList ++ ": '".toList ++ written ++
            "' - error parsing glob '".toList ++ Text.forwardSlashes written ++ "': ".toList ++
            fault.message))

/-- What makes globs unusable: the expression of one, or its number among the
globs that are nothing but an expression. -/
def unusable? (globs : List Glob) : Option Text :=
  let among (comparison : Glob.Comparison) : List Glob.Expression :=
    (globs.filter (·.comparison = comparison)).map Glob.expression
  let inExtension := ((among .extension).find? (!·.isUsable)).map fun expression =>
    "error parsing glob '".toList ++ expression.writtenWhole ++
      "': error parsing pattern 0".toList
  let alone := ((among .expression).findIdx? (!·.isUsable)).map fun number =>
    "error parsing pattern ".toList ++ Text.decimal number
  inExtension <|> alone

def usableGlobs (setting : String) (globs : List Text) : Except Failure (List Glob) := do
  let globs ← readGlobs setting globs
  match unusable? globs with
  | none => .ok globs
  | some reason =>
      .error (.configuration
        ("failed to compile ".toList ++ setting.toList ++ " globs: ".toList ++ reason))

def ofGlobs (included excluded : List Text) : Except Failure FileFilter := do
  let included ← usableGlobs "include_globs" included
  let excluded ← usableGlobs "exclude_globs" excluded
  .ok { included, excluded }

def accepts (filter : FileFilter) (path : Text) : Bool :=
  let path := Text.forwardSlashes path
  filter.included.any (·.accepts path) && !filter.excluded.any (·.accepts path)

end FileFilter

namespace Config

def fileFilter (config : Config) : Except Failure FileFilter :=
  FileFilter.ofGlobs config.includeGlobs config.excludeGlobs

/-- A configuration with usable values: some included globs, a sufficient
column width, and no faulty glob. -/
def validate (config : Config) : Except Failure Config :=
  if config.includeGlobs.isEmpty then
    .error (.configuration "include_globs must contain at least one pattern".toList)
  else if config.columnWidth < minimumWidth then
    .error (.configuration
      ("column_width must be at least ".toList ++ Text.decimal minimumWidth ++
        " (found ".toList ++ Text.decimal config.columnWidth ++ [')']))
  else config.fileFilter.map fun _ => config

end Config

end ChangeCoverage
