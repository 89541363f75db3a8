import ChangeCoverage.Branch.Extract

/-!
Test cases: the outcomes of the branches that a change touches.
-/

namespace ChangeCoverage

structure Case where
  scope : Source.ScopeEntry
  /-- The outcome, such as `if (x > 0) → true` or `case 1:`. -/
  condition : Text
  deriving DecidableEq, Repr

namespace Case

/-- The conditions of a branch's cases.  A condition holds or fails, a bare
`else` is covered by its `if`, and a label is one case. -/
def conditions (branch : Branch) : List Text :=
  match branch.kind with
  | .ifHeader | .elseIfHeader =>
      [branch.condition ++ " → true".toList, branch.condition ++ " → false".toList]
  | .elseHeader => []
  | .switchHeader | .caseLabel | .defaultLabel => [branch.condition]

def ofBranch (branch : Branch) : List Case :=
  (conditions branch).map fun condition => { scope := branch.scope, condition }

def ofBranches (branches : List Branch) : List Case :=
  (branches.flatMap ofBranch).eraseDups

def ofSource (source : Text) (changed : List Nat) : List Case :=
  let sourceLines := Text.cleanLines source
  ofBranches (Branch.extract sourceLines (Source.scopeEntries sourceLines) changed)

end Case

end ChangeCoverage
