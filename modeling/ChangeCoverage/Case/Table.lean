import ChangeCoverage.Case.Basic

/-!
Cases as rows of a table.  A type or method that repeats the row above is left
blank, and a missing one is a dash.
-/

namespace ChangeCoverage.Case

def nameOrDash (name : Option Text) : Text :=
  name.getD ['-']

def row (above : Option Case) (case : Case) : Text :=
  let sameType := above.any fun other => other.scope.typeName = case.scope.typeName
  let sameMethod :=
    sameType && above.any fun other => other.scope.methodName = case.scope.methodName
  let typeColumn := if sameType then [] else nameOrDash case.scope.typeName
  let methodColumn := if sameMethod then [] else nameOrDash case.scope.methodName
  Text.trimEnd
    (Text.padRight 20 typeColumn ++ ' ' :: Text.padRight 20 methodColumn ++ ' ' :: case.condition)

def rowsBelow (above : Option Case) : List Case → List Text
  | [] => []
  | case :: rest => row above case :: rowsBelow (some case) rest

def rows (cases : List Case) : List Text :=
  rowsBelow none cases

end ChangeCoverage.Case
