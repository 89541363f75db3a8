import ChangeCoverage.Config.Read
import ChangeCoverage.World.Basic

/-!
The configuration in a repository's root.
-/

namespace ChangeCoverage

namespace Text

def inDirectory (directory name : Text) : Text :=
  if directory.isEmpty || directory.getLast? = some '/' then directory ++ name
  else directory ++ '/' :: name

end Text

namespace Config

def load (world : World) (path : Text) : Except Failure Config :=
  match world.readText path with
  | .ok yaml => parse yaml
  | .error obstacle =>
      .error (.configuration ("failed to read config file '".toList ++ path ++
        "': ".toList ++ obstacle.message))

def pathIn (root : Text) : Text :=
  Text.inDirectory root fileName

def loadOrDefault (world : World) (root : Text) : Except Failure Config :=
  if world.isFile (pathIn root) then load world (pathIn root) else .ok {}

end Config

end ChangeCoverage
