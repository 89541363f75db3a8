import ChangeCoverage.Case.Basic
import ChangeCoverage.ChangedFile
import ChangeCoverage.Patch.Section
import ChangeCoverage.Proofs.Text.Lines
import Mathlib.Data.List.Basic

/-!
Line ends.  A newline may be written with a carriage return before it, also at some
line ends of a text and not at others.  Whatever is read from the lines of a text does
not depend on it.
-/

namespace ChangeCoverage.Text

/-- Whether a text arises from another one by writing a carriage return before some of
its newlines. -/
inductive AddsReturns : Text → Text → Prop where
  | nil : AddsReturns [] []
  | keep (character : Char) {text returned : Text} (later : AddsReturns text returned) :
      AddsReturns (character :: text) (character :: returned)
  | turn {text returned : Text} (later : AddsReturns text returned) :
      AddsReturns ('\n' :: text) ('\r' :: '\n' :: returned)

/-- The lines of a text without carriage returns are what stands between its newlines. -/
theorem cleanLines_eq_splitOn {text : Text} (noReturn : '\r' ∉ text) :
    cleanLines text = withoutEmptyEnd (text.splitOn '\n') := by
  induction text using line_induction with
  | last line unbroken =>
      have isLine : IsLine line :=
        ⟨unbroken, fun ended => noReturn (List.mem_of_getLast? ended)⟩
      rw [cleanLines_last isLine, List.splitOn_eq_singleton unbroken]
      cases line <;> rfl
  | newline line rest unbroken inductionHypothesis =>
      rw [List.mem_append, List.mem_cons, not_or, not_or] at noReturn
      obtain ⟨lineNoReturn, -, restNoReturn⟩ := noReturn
      have isLine : IsLine line :=
        ⟨unbroken, fun ended => lineNoReturn (List.mem_of_getLast? ended)⟩
      rw [cleanLines_newline isLine, inductionHypothesis restNoReturn,
        List.splitOn_append_cons_self_of_not_mem unbroken]
      obtain ⟨first, others, split⟩ := List.exists_cons_of_ne_nil (List.splitOn_ne_nil '\n' rest)
      rw [split, withoutEmptyEnd, withoutEmptyEnd, List.getLast?_cons_cons]
      split <;> rfl

theorem linesFrom_return (line rest : Text) :
    linesFrom line ('\r' :: '\n' :: rest) = line.reverse :: linesFrom [] rest := rfl

namespace AddsReturns

variable {text returned : Text}

/-- A carriage return that is written before a newline is taken for part of the line
end, as long as the line does not end in one already. -/
theorem linesFrom_eq (adds : AddsReturns text returned) (noReturn : '\r' ∉ text) {line : Text}
    (unended : line.head? ≠ some '\r') : linesFrom line returned = linesFrom line text := by
  induction adds generalizing line with
  | nil => rfl
  | keep character _ inductionHypothesis =>
      rw [List.mem_cons, not_or] at noReturn
      obtain ⟨isOther, restNoReturn⟩ := noReturn
      rw [linesFrom, linesFrom, inductionHypothesis restNoReturn (by simp),
        inductionHypothesis restNoReturn (by simpa using Ne.symm isOther)]
  | turn _ inductionHypothesis =>
      rw [List.mem_cons, not_or] at noReturn
      have restNoReturn := noReturn.2
      rw [linesFrom_return, inductionHypothesis restNoReturn (by simp), linesFrom, if_pos rfl,
        if_neg unended]

theorem lines_eq (adds : AddsReturns text returned) (noReturn : '\r' ∉ text) :
    lines returned = lines text :=
  adds.linesFrom_eq noReturn (by simp)

theorem cleanLines_eq (adds : AddsReturns text returned) (noReturn : '\r' ∉ text) :
    cleanLines returned = cleanLines text := by
  rw [cleanLines, cleanLines, adds.lines_eq noReturn]

/-- What is read from a text without carriage returns is read alike from a text in which
some of its lines end in one: its lines, a diff, the sections of a patch, a listing of
files, and the cases of a source. -/
theorem readings_eq (adds : AddsReturns text returned) (noReturn : '\r' ∉ text)
    (changed : List Nat) :
    cleanLines returned = cleanLines text ∧
      cleanLines returned = withoutEmptyEnd (text.splitOn '\n') ∧
      Patch.parse? returned = Patch.parse? text ∧
      Patch.filePatches returned = Patch.filePatches text ∧
      ChangedFile.parseListing returned = ChangedFile.parseListing text ∧
      Case.ofSource returned changed = Case.ofSource text changed := by
  have sameLines := adds.cleanLines_eq noReturn
  refine ⟨sameLines, ?_, ?_, ?_, ?_, ?_⟩
  · rw [sameLines, cleanLines_eq_splitOn noReturn]
  · rw [Patch.parse?, Patch.parse?, sameLines]
  · rw [Patch.filePatches, Patch.filePatches, sameLines]
  · rw [ChangedFile.parseListing, ChangedFile.parseListing, adds.lines_eq noReturn]
  · rw [Case.ofSource, Case.ofSource, sameLines]

section Sample

def listing : Text := ['M', '\t', 'a', '\n', '\n', 'A', '\t', 'b', '\n']

/-- The same listing with a carriage return at the end of its first two lines. -/
def returnedListing : Text :=
  ['M', '\t', 'a', '\r', '\n', '\r', '\n', 'A', '\t', 'b', '\n']

theorem addsReturns_listing : AddsReturns listing returnedListing :=
  .keep 'M' (.keep '\t' (.keep 'a' (.turn (.turn (.keep 'A' (.keep '\t' (.keep 'b'
    (.keep '\n' .nil))))))))

end Sample

theorem readings_eq_listing :
    AddsReturns listing returnedListing ∧ '\r' ∉ listing ∧
      cleanLines returnedListing = [['M', '\t', 'a'], [], ['A', '\t', 'b']] ∧
      ChangedFile.parseListing returnedListing =
        [{ path := ['a'], status := .modified }, { path := ['b'], status := .added }] := by
  have noReturn : '\r' ∉ listing := by decide
  obtain ⟨-, split, -, -, listed, -⟩ := addsReturns_listing.readings_eq noReturn []
  refine ⟨addsReturns_listing, noReturn, ?_, ?_⟩
  · rw [split]
    decide
  · rw [listed]
    decide

end AddsReturns

end ChangeCoverage.Text
