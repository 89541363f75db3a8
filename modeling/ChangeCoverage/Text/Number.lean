import ChangeCoverage.Text.Search

/-!
Decimal numbers in texts.
-/

namespace ChangeCoverage.Text

def decimal (number : Nat) : Text :=
  Nat.toDigits 10 number

/-- The numbers below this one, the 32nd power of two, fit into 32 bits. -/
def limit32 : Nat := 4294967296

/-- The numbers below this one, the 64th power of two, fit into 64 bits. -/
def limit64 : Nat := 18446744073709551616

/-- Reads a non-empty run of digits, with at most one plus sign before it, as a
number below the limit. -/
def number? (limit : Nat) (text : Text) : Option Nat :=
  let digits := (after? ['+'] text).getD text
  if digits.isEmpty || !digits.all Char.isDigit then none
  else
    let value := Nat.ofDigitChars 10 digits 0
    if value < limit then some value else none

theorem number?_lt {limit value : Nat} {text : Text}
    (read : number? limit text = some value) : value < limit := by
  simp only [number?] at read
  split at read
  · simp at read
  · split at read
    · simp_all
    · simp at read

end ChangeCoverage.Text
