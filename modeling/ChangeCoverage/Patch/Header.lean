import ChangeCoverage.Failure
import ChangeCoverage.Patch.Line
import ChangeCoverage.Text.Number

/-!
Hunk headers: `@@ -start,length +start,length @@`, where a length of one may be
left out and any text may follow the second marker.
-/

namespace ChangeCoverage.Patch

structure Header where
  oldStart : Nat
  oldLength : Nat
  newStart : Nat
  newLength : Nat
  deriving DecidableEq, Repr

namespace Header

/-- What every header starts with, followed by a blank in a well-formed one. -/
def marker : Text := ['@', '@']

def range? (text : Text) : Option (Nat × Nat) :=
  match Text.splitFirst? [','] text with
  | some (start, length) => do
      let startNumber ← Text.number? Text.limit64 start
      let lengthNumber ← Text.number? Text.limit64 length
      some (startNumber, lengthNumber)
  | none => (Text.number? Text.limit64 text).map fun start => (start, 1)

def parse? (line : Text) : Option Header := do
  let rest ← Text.after? (marker ++ [' ']) line
  let (ranges, _) ← Text.splitFirst? (' ' :: marker) rest
  match Text.words ranges with
  | [old, new] => do
      let oldRange ← Text.after? ['-'] old
      let newRange ← Text.after? ['+'] new
      let (oldStart, oldLength) ← range? oldRange
      let (newStart, newLength) ← range? newRange
      some { oldStart, oldLength, newStart, newLength }
  | _ => none

def parse (line : Text) : Except Failure Header :=
  match parse? line with
  | some header => .ok header
  | none => .error (.malformedHunkHeader line)

end Header

end ChangeCoverage.Patch
