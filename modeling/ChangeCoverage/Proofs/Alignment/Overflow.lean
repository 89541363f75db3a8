import ChangeCoverage.Proofs.Alignment.Counting
import ChangeCoverage.Proofs.Patch.Overflow

/-!
Where reading a patch or aligning files along it stops because a line number takes more
than 64 bits.  A single header is enough for that.
-/

namespace ChangeCoverage.Alignment

open Patch (EachHunk HunksHaveRoom)

/-- A patch is read just if each of its headers leaves room for the lines under it, and
files are aligned along it just if both files and the empty ranges leave room for one
more line.  Nothing else is needed, and the diff and the rows are then the same as those
of counters without bound. -/
theorem parse?_align?_givesIf (files : Files) (patch : Text) :
    GivesIf (HunksHaveRoom (Patch.parse patch)) (Patch.parse patch) (Patch.parse? patch) ∧
      GivesIf (files.Fit ∧
          EachHunk (fun header _ => EmptyRangesFit header) (Patch.parse patch))
        (align files (Patch.parse patch)) (align? files (Patch.parse patch)) :=
  ⟨Patch.parse?_givesIf patch, align?_givesIf files (Patch.parse patch)⟩

section Sample

/-- Two lines are deleted from the greatest line number on. -/
def deletionAtLimit : Text :=
  "@@ -18446744073709551615,2 +2 @@\n-a\n-b\n".toList

/-- A line is added behind an empty range of the old file at the greatest line number. -/
def insertionAtLimit : Text :=
  "@@ -18446744073709551615,0 +1 @@\n".toList

/-- The header of a hunk can make the parser and the alignment count past the greatest
line number, although it can be read itself. -/
theorem parse?_align?_at_limit :
    Patch.Header.parse? "@@ -18446744073709551615,2 +2 @@".toList ≠ none ∧
      Patch.parse? deletionAtLimit = none ∧
      ∃ diff, Patch.parse? insertionAtLimit = some diff ∧
        align? { old := [], new := [] } diff = none := by
  refine ⟨by decide +kernel, by decide +kernel, ?_⟩
  exact ⟨[.hunk "@@ -18446744073709551615,0 +1 @@".toList], by decide +kernel,
    by decide +kernel⟩

end Sample

end ChangeCoverage.Alignment
