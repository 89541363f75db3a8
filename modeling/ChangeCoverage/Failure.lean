import ChangeCoverage.Text.Blank

/-!
Failures: what went wrong, how it is reported, and the exit code it leads to.
-/

namespace ChangeCoverage

/-- What makes the program panic. -/
inductive Panic where
  /-- A line number takes more than 64 bits. -/
  | overflow
  /-- A column is wider than text can be filled to. -/
  | wideColumn
  deriving DecidableEq, Repr

def Panic.message : Panic → Text
  | overflow => "attempt to add with overflow".toList
  | wideColumn => "Formatting argument out of range".toList

inductive Failure where
  /-- The request or the state of the repository does not allow the operation. -/
  | user (detail : Text)
  /-- A git command could not run or was not successful. -/
  | git (detail : Text)
  /-- The configuration cannot be read or holds an unusable value. -/
  | configuration (detail : Text)
  /-- The ranges of a hunk header cannot be read. -/
  | malformedHunkHeader (line : Text)
  /-- A condition's parenthesis is not closed on its line. -/
  | unbalancedParenthesis (line : Text)
  /-- The program stops in the middle of a computation, without a report of its own. -/
  | panic (cause : Panic)
  deriving DecidableEq, Repr

namespace Failure

def message : Failure → Text
  | user detail => detail
  | git detail => "Git operation failed: ".toList ++ detail
  | configuration detail => "Invalid configuration: ".toList ++ detail
  | malformedHunkHeader line => "malformed hunk header: ".toList ++ line
  | unbalancedParenthesis line =>
      "unbalanced parenthesis in branch condition: ".toList ++ line
  | panic cause => cause.message

def exitCode : Failure → Nat
  | git _ => 2
  | panic _ => 101
  | _ => 1

theorem exitCode_eq_two_iff (failure : Failure) :
    failure.exitCode = 2 ↔ ∃ detail, failure = git detail := by
  cases failure <;> simp [exitCode]

end Failure

def diagnosticLevel : Nat → Text
  | 0 => "warn".toList
  | 1 => "info".toList
  | 2 => "debug".toList
  | _ => "trace".toList

end ChangeCoverage
