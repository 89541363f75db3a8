import ChangeCoverage.Text.Offset
import ChangeCoverage.World.Basic

/-!
Recorded worlds: a tree of files together with the replies of git to be played
back.  Paths are followed name by name, as a file system does it.
-/

namespace ChangeCoverage

abbrev Place := List Text

namespace Place

def path : Place → Text
  | [] => ['/']
  | place => place.flatMap fun name => '/' :: name

end Place

/-- The names of a path.  A slash at its end asks for a directory, as a dot
after it would. -/
def namesOf (path : Text) : List Text :=
  let names := path.splitOn '/'
  names.filter (!·.isEmpty) ++ (if names.getLast?.any List.isEmpty then [['.']] else [])

structure Tree where
  entries : List (Place × Entry)

namespace Tree

def entry? (tree : Tree) (place : Place) : Option Entry :=
  (tree.entries.lookup place).or
    (if place.isEmpty || tree.entries.any fun entry => place.isPrefixOf entry.1 then
      some .directory
    else none)

def find (tree : Tree) (place : Place) : Except Obstacle Entry :=
  match tree.entry? place with
  | some entry => .ok entry
  | none => .error .missing

def longestName : Nat := 255

def longestPath : Nat := 4095

/-- Follows names from a place.  Each step starts in a directory, also one that
stays there or goes up. -/
def follow (tree : Tree) (place : Place) : List Text → Except Obstacle Place
  | [] => .ok place
  | name :: rest => do
      match ← tree.find place with
      | .file _ => .error .notDirectory
      | .directory =>
          if name = ['.'] then tree.follow place rest
          else if name = ['.', '.'] then tree.follow place.dropLast rest
          else if longestName < Text.byteSize name then .error .nameTooLong
          else tree.follow (place ++ [name]) rest

def locate (tree : Tree) (workingDirectory : Place) (path : Text) : Except Obstacle Place :=
  if path.isEmpty then .error .missing
  else if path.any (·.toNat = 0) then .error .unusablePath
  else if longestPath < Text.byteSize path then .error .nameTooLong
  else tree.follow (if path.head? = some '/' then [] else workingDirectory) (namesOf path)

end Tree

structure Recording where
  tree : Tree
  workingDirectory : Place
  time : Text
  /-- The replies of git, unless there is no git. -/
  git? : Option (List Text → Git.Reply)

namespace Recording

def absolute (recording : Recording) (path : Text) : Text :=
  match recording.tree.locate recording.workingDirectory path with
  | .ok place => place.path
  | .error _ => path

/-- Plays git back.  It starts in a directory only, and then has to exist. -/
def runGit (recording : Recording) (directory : Text) (arguments : List Text) :
    Except Obstacle Git.Reply := do
  if (directory :: arguments).any (List.any · (·.toNat = 0)) then .error .unusableCommand
  else
    let place ← recording.tree.locate recording.workingDirectory directory
    match ← recording.tree.find place with
    | .file _ => .error .notDirectory
    | .directory =>
        match recording.git? with
        | none => .error .missing
        | some reply => .ok (reply arguments)

def world (recording : Recording) : World where
  workingDirectory := recording.workingDirectory.path
  time := recording.time
  entry path := do
    recording.tree.find (← recording.tree.locate recording.workingDirectory path)
  git := recording.runGit

end Recording

end ChangeCoverage
