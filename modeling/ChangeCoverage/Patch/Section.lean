import ChangeCoverage.Patch.Hunks

/-!
Patches of several files.  A section starts at each `diff --git ` line, and
what stands before the first such line belongs to no section.
-/

namespace ChangeCoverage.Patch

def sectionMarker : Text := "diff --git ".toList

def nullPath : Text := "/dev/null".toList

structure FilePatch where
  /-- The file's path on the old side, unless the file is new there. -/
  oldPath : Option Text
  /-- The file's path on the new side, unless the file is gone there. -/
  newPath : Option Text
  /-- The lines of the section, each ended by a newline. -/
  text : Text
  deriving DecidableEq, Repr

structure Paths where
  old : Option Text
  new : Option Text
  deriving DecidableEq, Repr

/-- Both paths as the first line of a section names them after its marker:
the last occurrence of ` b/` separates them. -/
def namedPaths (rest : Text) : Paths :=
  match Text.splitLast? " b/".toList rest with
  | some (old, new) =>
      { old := some (Text.forwardSlashes ((Text.after? "a/".toList old).getD old)),
        new := some (Text.forwardSlashes new) }
  | none => { old := none, new := none }

def markedPath? (rest : Text) : Option Text :=
  let path := Text.trimEnd (rest.takeWhile (· ≠ '\t'))
  if path = nullPath then none
  else
    let named := (Text.after? "a/".toList path).or (Text.after? "b/".toList path)
    some (Text.forwardSlashes (named.getD path))

def Paths.refine (paths : Paths) (line : Text) : Paths :=
  match Text.after? "--- ".toList line with
  | some rest => { paths with old := markedPath? rest }
  | none =>
      match Text.after? "+++ ".toList line with
      | some rest => { paths with new := markedPath? rest }
      | none => paths

/-- The paths of a section: its first line names them and the lines above its
first hunk refine them. -/
def sectionPaths : List Text → Paths
  | [] => { old := none, new := none }
  | first :: rest =>
      let named := namedPaths ((Text.after? sectionMarker first).getD [])
      (rest.takeWhile fun line => !Header.marker.isPrefixOf line).foldl Paths.refine named

def joinEnded (sectionLines : List Text) : Text :=
  sectionLines.flatMap (· ++ ['\n'])

def FilePatch.ofLines (sectionLines : List Text) : FilePatch :=
  let paths := sectionPaths sectionLines
  { oldPath := paths.old, newPath := paths.new, text := joinEnded sectionLines }

def splitSections : List Text → List Text × List (List Text)
  | [] => ([], [])
  | line :: rest =>
      let (leading, later) := splitSections rest
      if sectionMarker.isPrefixOf line then ([], (line :: leading) :: later)
      else (line :: leading, later)

def filePatches (patch : Text) : List FilePatch :=
  (splitSections (Text.cleanLines patch)).2.map FilePatch.ofLines

/-- The section of a file: one with its path on the new side, else one with its
path on the old side, else the first one. -/
def sectionFor? (sections : List FilePatch) (path : Text) : Option FilePatch :=
  ((sections.find? (·.newPath = some path)).or
    (sections.find? (·.oldPath = some path))).or sections.head?

/-- The diff of a file in a patch, which may also be one section without a
first line. -/
def diffFor? (patch path : Text) : Option (List Line) :=
  match sectionFor? (filePatches patch) path with
  | some fileSection => parse? fileSection.text
  | none => parse? patch

end ChangeCoverage.Patch
