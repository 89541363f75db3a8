import ChangeCoverage.Proofs.Branch.Cut
import ChangeCoverage.Proofs.Branch.Depth
import ChangeCoverage.Proofs.Source.DeclaredName

/-!
The texts that are shown for headers.  A condition ends in its parenthesis and a label
keeps the first letter of its keyword, so that no header is shown without a text, or by
one that ends in a blank.
-/

namespace ChangeCoverage.Branch

open Source (Hides IsShown LexState)

section Header

variable {masked raw front lead behind : Text} {start : Nat} {found : Occurrence}

theorem endsSolid_readLabel {first : Char} (solid : Text.isBlank first = false)
    (hides : Hides masked raw) (held : Text.HasAt first masked start) :
    Text.EndsSolid (readLabel masked raw start) := by
  have notSpace : first ≠ ' ' := (Text.ne_of_isBlank (by decide) solid).symm
  have shown : IsShown first masked raw start := hides.isShown notSpace held
  have trimmed {label : Text} (starts : ∃ rest, label = first :: rest)
      (read : readLabel masked raw start = Text.trim label) :
      Text.EndsSolid (readLabel masked raw start) := by
    obtain ⟨rest, rfl⟩ := starts
    rw [read]
    exact Text.endsSolid_trim solid rest
  cases cutsLabel_of_hides hides shown.isCut with
  | throughColon dropped found _ cut read =>
      obtain ⟨before, _, -, rfl⟩ := colonFrom_sound found
      have longer : start < start + Text.byteSize before + 1 :=
        Nat.lt_succ_of_le (Nat.le_add_right _ _)
      exact trimmed (shown.raw.eq_cons_of_slice? longer cut) read
  | throughEnd _ _ cut read => exact trimmed (shown.raw.eq_cons_of_dropBytes? cut) read

theorem endsSolid_placeholder (kind : Kind) : Text.EndsSolid kind.placeholder := by
  cases kind <;> decide

theorem Occurrence.StandsAt.endsSolid (stands : found.StandsAt front lead behind)
    (maskedEq : masked = front ++ (lead ++ behind)) (hides : Hides masked raw) :
    Text.EndsSolid (Header.ofOccurrence masked raw found).condition := by
  unfold Header.ofOccurrence
  split
  next keyword _ =>
    split
    next inner _ _ =>
      have closes : Text.EndsSolid [')'] := by decide
      exact closes.append (keyword ++ " (".toList ++ inner)
    next => exact endsSolid_placeholder found.kind
  next =>
    split
    next isCase =>
      have isLead := stands.isLead
      rw [isCase] at isLead
      obtain rfl : lead = "case".toList := isLead
      have held : Text.HasAt 'c' masked found.column :=
        ⟨front, "ase".toList ++ behind, maskedEq, stands.column_eq.symm⟩
      exact endsSolid_readLabel (by decide) hides held
    next => exact endsSolid_placeholder found.kind

theorem endsSolid_of_mem_headers {line : Text} {state : LexState} {header : Header}
    (membership : header ∈ headers (Source.maskLine line state).1 line) :
    Text.EndsSolid header.condition := by
  obtain ⟨found, inLine, rfl⟩ := List.mem_map.mp membership
  obtain ⟨front, lead, behind, maskedEq, stands⟩ := mem_occurrences_iff.mp inLine
  exact stands.endsSolid maskedEq (Source.hides_maskLine line state)

end Header

/-- A branch belongs to what is named by identifiers, if to anything, and is shown by a
text that does not end in a blank. -/
theorem named_and_endsSolid_of_mem_extract {fileLines : List Text} {changed : List Nat}
    {branch : Branch}
    (membership : branch ∈ extract fileLines (Source.scopeEntries fileLines) changed) :
    branch.scope.Named ∧ Text.EndsSolid branch.condition := by
  have isSited := (extract_subperm fileLines (Source.scopeEntries fileLines) changed).subset
    membership
  obtain ⟨site, isSite, rfl⟩ := List.mem_map.mp isSited
  obtain ⟨front, raw, back, before, behind, -, isHeader, -, -, branchEq⟩ :=
    branch_of_mem_sites isSite
  rw [branchEq]
  refine ⟨?_, endsSolid_of_mem_headers isHeader⟩
  cases found : (Source.scopeEntries fileLines)[front.length]? with
  | none => exact Source.named_nothing
  | some entry => exact Source.named_of_mem_scopeEntries (List.mem_of_getElem? found)

end ChangeCoverage.Branch
