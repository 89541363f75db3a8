import ChangeCoverage.Text.Number

/-!
Lines of a unified diff of one file.
-/

namespace ChangeCoverage.Patch

/-- The line number after another one, if it is a 64-bit number. -/
def nextNumber? (number : Nat) : Option Nat :=
  if number + 1 < Text.limit64 then some (number + 1) else none

inductive LineKind where
  | context
  | added
  | deleted
  | hunk
  deriving DecidableEq, Repr

def LineKind.marker : LineKind → Text
  | context => [' ']
  | added => ['+']
  | deleted => ['-']
  | hunk => []

structure Line where
  kind : LineKind
  /-- The line's number in the old file, if it is there. -/
  oldNumber : Option Nat
  /-- The line's number in the new file, if it is there. -/
  newNumber : Option Nat
  content : Text
  deriving DecidableEq, Repr

namespace Line

def context (oldNumber newNumber : Nat) (content : Text) : Line :=
  { kind := .context, oldNumber := some oldNumber, newNumber := some newNumber, content }

def added (newNumber : Nat) (content : Text) : Line :=
  { kind := .added, oldNumber := none, newNumber := some newNumber, content }

def deleted (oldNumber : Nat) (content : Text) : Line :=
  { kind := .deleted, oldNumber := some oldNumber, newNumber := none, content }

def hunk (header : Text) : Line :=
  { kind := .hunk, oldNumber := none, newNumber := none, content := header }

def render (line : Line) : Text :=
  line.kind.marker ++ line.content

end Line

end ChangeCoverage.Patch
