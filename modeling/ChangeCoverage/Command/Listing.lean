import ChangeCoverage.Command.Session

/-!
The list of files that differ between two revisions.
-/

namespace ChangeCoverage

def FileStatus.jsonMembers (status : FileStatus) : List (Text × Output.Json) :=
  let (name, more) : String × List (String × Text) := match status with
    | added => ("added", [])
    | modified => ("modified", [])
    | deleted => ("deleted", [])
    | renamed source => ("renamed", [("from", source)])
    | copied source => ("copied", [("from", source)])
    | other code => ("other", [("code", code)])
  ("status".toList, .text name.toList) ::
    more.map fun member => (member.1.toList, .text member.2)

def ChangedFile.json (file : ChangedFile) : Output.Json :=
  .object (("path".toList, .text file.path) :: file.status.jsonMembers)

namespace Listing

def textLines (revisions : Revisions) (files : List ChangedFile) : List Text :=
  if files.isEmpty then
    ["No files changed between ".toList ++ revisions.old ++ " and ".toList ++ revisions.new ++
      ['.']]
  else files.map ChangedFile.render

def run (world : World) (directory : Option Text) (revisions : Revisions) : Run Unit := do
  let session ← Session.openFor world directory revisions
  let files ← session.changedFiles world session.config.detectRenames revisions
  match session.config.outputFormat with
  | .json => Run.printJson (.list (files.map ChangedFile.json))
  | .text => Run.printLines (textLines revisions files)

end Listing

end ChangeCoverage
