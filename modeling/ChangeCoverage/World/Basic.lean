import ChangeCoverage.Failure
import ChangeCoverage.Text.Encoding

/-!
The world around the program: the files it can read, git, and a clock.
-/

namespace ChangeCoverage

inductive Obstacle where
  | missing
  | notDirectory
  | isDirectory
  | nameTooLong
  | unusablePath
  | unusableCommand
  | notText
  deriving DecidableEq, Repr

def Obstacle.message : Obstacle → Text
  | missing => "No such file or directory (os error 2)".toList
  | notDirectory => "Not a directory (os error 20)".toList
  | isDirectory => "Is a directory (os error 21)".toList
  | nameTooLong => "File name too long (os error 36)".toList
  | unusablePath => "file name contained an unexpected NUL byte".toList
  | unusableCommand => "nul byte found in provided data".toList
  | notText => "stream did not contain valid UTF-8".toList

inductive Entry where
  | directory
  | file (content : List UInt8)
  deriving DecidableEq

namespace Git

structure Call where
  directory : Text
  arguments : List Text
  deriving DecidableEq, Repr

structure Reply where
  stdout : List UInt8 := []
  stderr : List UInt8 := []
  /-- The exit code; a command that was killed has none. -/
  exitCode : Option Nat := some 0
  deriving DecidableEq

end Git

structure World where
  /-- The directory in which the program was started. -/
  workingDirectory : Text
  time : Text
  /-- What a path leads to; relative paths start at the working directory. -/
  entry : Text → Except Obstacle Entry
  /-- Runs git in a directory with some arguments. -/
  git : Text → List Text → Except Obstacle Git.Reply

namespace World

def isDirectory (world : World) (path : Text) : Bool :=
  match world.entry path with
  | .ok .directory => true
  | _ => false

def isFile (world : World) (path : Text) : Bool :=
  match world.entry path with
  | .ok (.file _) => true
  | _ => false

def readText (world : World) (path : Text) : Except Obstacle Text :=
  match world.entry path with
  | .error obstacle => .error obstacle
  | .ok .directory => .error .isDirectory
  | .ok (.file content) =>
      match Text.decode? content with
      | some text => .ok text
      | none => .error .notText

end World

end ChangeCoverage
