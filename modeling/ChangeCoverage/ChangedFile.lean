import ChangeCoverage.Text.Lines
import ChangeCoverage.Text.Search

/-!
Files that differ between two revisions, as git lists them: one file a line,
its status letter and its paths separated by tabs.
-/

namespace ChangeCoverage

inductive FileStatus where
  | added
  | modified
  | deleted
  /-- The file had another path at the old revision. -/
  | renamed (source : Text)
  | copied (source : Text)
  | other (code : Text)
  deriving DecidableEq, Repr

namespace FileStatus

def letter : FileStatus → Text
  | added => ['A']
  | modified => ['M']
  | deleted => ['D']
  | renamed _ => ['R']
  | copied _ => ['C']
  | other code => code

def previousPath? : FileStatus → Option Text
  | renamed source => some source
  | copied source => some source
  | _ => none

end FileStatus

structure ChangedFile where
  path : Text
  status : FileStatus
  deriving DecidableEq, Repr

namespace ChangedFile

/-- Reads the fields of one line of a listing.  A rename and a copy have two
paths and any other status has one. -/
def ofFields? : List Text → Option ChangedFile
  | [code, path] =>
      let status? : Option FileStatus := match code with
        | [] => none
        | 'A' :: _ => some .added
        | 'M' :: _ => some .modified
        | 'D' :: _ => some .deleted
        | _ => some (.other code)
      status?.map fun status => { path := Text.forwardSlashes path, status }
  | ['R' :: _, source, path] =>
      some { path := Text.forwardSlashes path, status := .renamed (Text.forwardSlashes source) }
  | ['C' :: _, source, path] =>
      some { path := Text.forwardSlashes path, status := .copied (Text.forwardSlashes source) }
  | _ => none

def parseListing (listing : Text) : List ChangedFile :=
  (Text.lines listing).filterMap fun line => ofFields? (line.splitOn '\t')

def render (file : ChangedFile) : Text :=
  let path := match file.status.previousPath? with
    | some source => source ++ " -> ".toList ++ file.path
    | none => file.path
  Text.padRight 2 file.status.letter ++ ' ' :: path

end ChangedFile

end ChangeCoverage
