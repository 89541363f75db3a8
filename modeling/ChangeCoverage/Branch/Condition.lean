import ChangeCoverage.Failure
import ChangeCoverage.Text.Offset
import ChangeCoverage.Text.Search

/-!
Conditions and labels of branch headers.  Where they end is decided on the
masked line, and their text is taken from the raw line at the same offsets.
-/

namespace ChangeCoverage.Branch

/-- The offset of the parenthesis that brings the nesting depth back to zero. -/
def closingFrom (depth offset : Nat) : Text → Option Nat
  | [] => none
  | character :: rest =>
      if character = '(' then closingFrom (depth + 1) (offset + character.utf8Size) rest
      else if character = ')' then
        if depth - 1 = 0 then some offset
        else closingFrom (depth - 1) (offset + character.utf8Size) rest
      else closingFrom depth (offset + character.utf8Size) rest

/-- The text between the parenthesis at an offset and the one that closes it,
and the offset of the latter. -/
def readCondition? (masked raw : Text) (opening : Nat) : Option (Text × Nat) := do
  let rest ← Text.dropBytes? opening masked
  if rest.head? = some '(' ∧ Text.byteSize masked = Text.byteSize raw then
    let closing ← closingFrom 0 opening rest
    let inner ← Text.slice? (opening + 1) closing raw
    some (Text.trim inner, closing)
  else none

def readCondition (masked raw : Text) (opening : Nat) : Except Failure (Text × Nat) :=
  match readCondition? masked raw opening with
  | some found => .ok found
  | none => .error (.unbalancedParenthesis (Text.trim raw))

/-- The offset of the first colon that is not one of two adjacent ones. -/
def colonFrom (offset : Nat) : Text → Option Nat
  | [] => none
  | ':' :: ':' :: rest => colonFrom (offset + 2) rest
  | ':' :: _ => some offset
  | character :: rest => colonFrom (offset + character.utf8Size) rest

/-- The label that starts at an offset, up to its colon or to the end of the line. -/
def readLabel (masked raw : Text) (start : Nat) : Text :=
  let (beyond, rest) := Text.dropTo start masked
  let found := match colonFrom (start + beyond) rest with
    | some colon => Text.slice? start (colon + 1) raw
    | none => Text.dropBytes? start raw
  Text.trim (found.getD raw)

end ChangeCoverage.Branch
