import ChangeCoverage.Proofs.Branch.Keyword
import ChangeCoverage.Proofs.Branch.Parenthesis

/-!
Offsets found on a masked line, used to cut the line itself.  The keywords, marks,
parentheses and colons of headers are seen on the masked line, so the line has the
same characters at the same offsets, and each cut that reading a header asks for
can be made.
-/

namespace ChangeCoverage.Branch

open Source (Aligned Hides IsCut IsShown LexState)

section Offsets

variable {masked raw rest : Text} {opening start : Nat}

theorem hasAt_of_closingFrom {depth closing : Nat}
    (dropped : Text.dropBytes? start masked = some rest)
    (closes : closingFrom depth start rest = some closing) : Text.HasAt ')' masked closing := by
  obtain ⟨middle, back, rfl, rfl⟩ := closingFrom_sound closes
  exact Text.hasAt_of_dropBytes? dropped

theorem colonFrom_sound {offset colon : Nat} {text : Text}
    (found : colonFrom offset text = some colon) :
    ∃ front back, text = front ++ ':' :: back ∧ colon = offset + Text.byteSize front := by
  fun_induction colonFrom offset text with
  | case1 => exact absurd found.symm (Option.some_ne_none colon)
  | case2 offset rest inductionHypothesis =>
      obtain ⟨front, back, rfl, rfl⟩ := inductionHypothesis found
      refine ⟨':' :: ':' :: front, back, rfl, ?_⟩
      have size : (':' : Char).utf8Size = 1 := by decide
      rw [Text.byteSize_cons, Text.byteSize_cons, size]
      omega
  | case3 offset rest => exact ⟨[], rest, rfl, (Option.some.inj found).symm⟩
  | case4 offset character rest _ _ inductionHypothesis =>
      obtain ⟨front, back, rfl, rfl⟩ := inductionHypothesis found
      refine ⟨character :: front, back, rfl, ?_⟩
      rw [Text.byteSize_cons, Nat.add_assoc]

theorem hasAt_of_colonFrom {colon : Nat} (dropped : Text.dropBytes? start masked = some rest)
    (found : colonFrom start rest = some colon) : Text.HasAt ':' masked colon := by
  obtain ⟨middle, back, rfl, rfl⟩ := colonFrom_sound found
  exact Text.hasAt_of_dropBytes? dropped

end Offsets

/-- What is cut from a line for the condition that starts at an offset. -/
structure CutsCondition (masked raw : Text) (opening : Nat) : Prop where
  opened : IsShown '(' masked raw opening
  closed : ∀ closing, ClosesAt masked opening closing →
    IsShown ')' masked raw closing ∧
      ∃ inner, Text.slice? (opening + 1) closing raw = some inner ∧
        readCondition masked raw opening = .ok (Text.trim inner, closing)

/-- What is cut from a line for the label that starts at an offset. -/
inductive CutsLabel (masked raw : Text) (start : Nat) : Prop where
  | throughColon {rest label : Text} {colon : Nat} :
      Text.dropBytes? start masked = some rest → colonFrom start rest = some colon →
      IsShown ':' masked raw colon → Text.slice? start (colon + 1) raw = some label →
      readLabel masked raw start = Text.trim label → CutsLabel masked raw start
  | throughEnd {rest label : Text} :
      Text.dropBytes? start masked = some rest → colonFrom start rest = none →
      Text.dropBytes? start raw = some label →
      readLabel masked raw start = Text.trim label → CutsLabel masked raw start

/-- The offsets of a header at which its line is cut. -/
structure Occurrence.Cuts (masked raw : Text) (found : Occurrence) : Prop where
  column : IsCut masked raw found.column
  body : ∀ start ∈ (Header.ofOccurrence masked raw found).bodyStart,
    IsCut masked raw start ∧ ∃ body, Text.dropBytes? start masked = some body
  condition : found.kind.conditionKeyword?.isSome → CutsCondition masked raw (found.stop - 1)
  label : found.kind = .caseLabel → CutsLabel masked raw found.column
  mark : found.kind = .defaultLabel → IsShown ':' masked raw (found.stop - 1)

section Cuts

variable {masked raw front lead behind : Text} {opening start : Nat} {kind : Kind}
  {found : Occurrence}

theorem cutsCondition_of_hides (hides : Hides masked raw)
    (held : Text.HasAt '(' masked opening) : CutsCondition masked raw opening where
  opened := hides.isShown (by decide) held
  closed closing closes := by
    obtain ⟨front, rest, parts⟩ := held
    have opens := Text.dropBytes?_eq_some_iff.mpr ⟨front, parts⟩
    have found := (closingFrom_eq_some_iff_closesAt opens).mpr closes
    exact ⟨hides.isShown (by decide) (hasAt_of_closingFrom opens found),
      readCondition_of_closingFrom hides opens found⟩

theorem cutsLabel_of_hides (hides : Hides masked raw) (isCut : IsCut masked raw start) :
    CutsLabel masked raw start := by
  obtain ⟨rest, dropped⟩ := Text.isPosition_iff.mp isCut.masked
  cases colonEq : colonFrom start rest with
  | none =>
      obtain ⟨label, cut⟩ := Text.isPosition_iff.mp isCut.raw
      apply CutsLabel.throughEnd dropped colonEq cut
      simp [readLabel, Text.dropTo_of_dropBytes? dropped, colonEq, cut]
  | some colon =>
      have shown := hides.isShown (by decide) (hasAt_of_colonFrom dropped colonEq)
      have behindColon : IsCut masked raw (colon + 1) := shown.isCut_behind
      have ordered : start ≤ colon + 1 := by
        obtain ⟨middle, back, -, rfl⟩ := colonFrom_sound colonEq
        omega
      obtain ⟨label, cut⟩ := isCut.raw.exists_slice? behindColon.raw ordered
      apply CutsLabel.throughColon dropped colonEq shown cut
      simp [readLabel, Text.dropTo_of_dropBytes? dropped, colonEq, cut]

theorem utf8Size_lastCharacter (kind : Kind) : kind.lastCharacter.utf8Size = 1 := by
  cases kind <;> decide

theorem lastCharacter_ne_space (kind : Kind) : kind.lastCharacter ≠ ' ' := by
  cases kind <;> decide

theorem lastCharacter_of_conditional (conditional : kind.conditionKeyword?.isSome) :
    kind.lastCharacter = '(' := by
  cases kind with
  | ifHeader | elseIfHeader | switchHeader => rfl
  | elseHeader | caseLabel | defaultLabel => cases conditional

theorem Occurrence.StandsAt.isLead (stands : found.StandsAt front lead behind) :
    found.kind.IsLead lead := by
  obtain ⟨-, _, isLead, leadEq⟩ := opens_of_headerAt? stands.reads
  rwa [List.append_cancel_right leadEq]

theorem Occurrence.StandsAt.isCut_column (stands : found.StandsAt front lead behind)
    (maskedEq : masked = front ++ (lead ++ behind)) (hides : Hides masked raw) :
    IsCut masked raw found.column := by
  obtain ⟨first, middle, rfl, solid⟩ := stands.isLead.ends
  have held : Text.HasAt first masked found.column :=
    ⟨front, _, maskedEq, stands.column_eq.symm⟩
  exact (hides.isShown solid held).isCut

theorem Occurrence.StandsAt.isShown_last (stands : found.StandsAt front lead behind)
    (maskedEq : masked = front ++ (lead ++ behind)) (hides : Hides masked raw) :
    0 < found.stop ∧ IsShown found.kind.lastCharacter masked raw (found.stop - 1) := by
  obtain ⟨first, middle, rfl, -⟩ := stands.isLead.ends
  have stopEq : found.stop = Text.byteSize (front ++ first :: middle) + 1 := by
    simp [stands.stop_eq, utf8Size_lastCharacter, Nat.add_assoc]
  rw [stopEq]
  refine ⟨Nat.succ_pos _, hides.isShown (lastCharacter_ne_space _) ?_⟩
  exact ⟨front ++ first :: middle, behind, by simp [maskedEq], rfl⟩

/-- A body starts behind the parenthesis that closes a condition, or behind the header. -/
theorem bodyStart_ofOccurrence (hides : Hides masked raw)
    (isStart : start ∈ (Header.ofOccurrence masked raw found).bodyStart) :
    (∃ closing, Text.HasAt ')' masked closing ∧ start = closing + 1) ∨ start = found.stop := by
  have isBody : start ∈ (Header.ofOccurrence masked raw found).withoutCondition.bodyStart := isStart
  rw [withoutCondition_ofOccurrence hides] at isBody
  split at isBody
  next =>
    obtain ⟨closing, closes, rfl⟩ := Option.map_eq_some_iff.mp isBody
    obtain ⟨rest, dropped, scanned⟩ := Option.bind_eq_some_iff.mp closes
    split at scanned
    next => exact .inl ⟨closing, hasAt_of_closingFrom dropped scanned, rfl⟩
    next => cases scanned
  next => exact .inr (Option.some.inj isBody).symm

theorem Occurrence.StandsAt.cuts (stands : found.StandsAt front lead behind)
    (maskedEq : masked = front ++ (lead ++ behind)) (hides : Hides masked raw) :
    found.Cuts masked raw := by
  have isColumn := stands.isCut_column maskedEq hides
  obtain ⟨positive, shown⟩ := stands.isShown_last maskedEq hides
  constructor
  · exact isColumn
  · intro start isStart
    have isCut : IsCut masked raw start := by
      rcases bodyStart_ofOccurrence hides isStart with ⟨closing, held, rfl⟩ | rfl
      · exact (hides.isShown (by decide) held).isCut_behind
      · have behindLast := shown.isCut_behind
        rwa [utf8Size_lastCharacter, Nat.sub_add_cancel positive] at behindLast
    exact ⟨isCut, Text.isPosition_iff.mp isCut.masked⟩
  · intro conditional
    rw [lastCharacter_of_conditional conditional] at shown
    exact cutsCondition_of_hides hides shown.masked
  · intro _
    exact cutsLabel_of_hides hides isColumn
  · intro isDefault
    rwa [isDefault] at shown

end Cuts

/-- A masked line shows its line byte for byte or by spaces, and wherever its headers
ask for a cut the line can be cut. -/
theorem aligned_and_cuts_headers (line : Text) (state : LexState) :
    Aligned (Source.maskLine line state).1 line ∧
      (headers (Source.maskLine line state).1 line).Pairwise (·.column < ·.column) ∧
      ∀ header ∈ headers (Source.maskLine line state).1 line,
        ∃ found ∈ occurrences (Source.maskLine line state).1,
          header = Header.ofOccurrence (Source.maskLine line state).1 line found ∧
            found.Cuts (Source.maskLine line state).1 line := by
  have hides := Source.hides_maskLine line state
  refine ⟨hides.aligned, (placed_headers _ line).pairwise, ?_⟩
  intro header membership
  obtain ⟨found, inLine, rfl⟩ := List.mem_map.mp membership
  obtain ⟨front, lead, behind, maskedEq, stands⟩ := mem_occurrences_iff.mp inLine
  exact ⟨found, inLine, rfl, stands.cuts maskedEq hides⟩

section Sample

/-- A line with a letter of two bytes before a condition and one in it. -/
def accentedLine : Text :=
  "é(); if (f(\"é)\")) g();".toList

def accentedHeader : Header where
  column := 6
  bodyStart := some 19
  kind := .ifHeader
  condition := "if (f(\"é)\"))".toList

end Sample

/-- The line is cut at offsets that count the bytes of both letters. -/
theorem aligned_and_cuts_headers_accented :
    accentedHeader ∈ headers (Source.maskLine accentedLine .code).1 accentedLine ∧
      ∃ found,
        accentedHeader =
            Header.ofOccurrence (Source.maskLine accentedLine .code).1 accentedLine found ∧
          found.Cuts (Source.maskLine accentedLine .code).1 accentedLine := by
  have isHeader : accentedHeader ∈
      headers (Source.maskLine accentedLine .code).1 accentedLine := by decide +kernel
  obtain ⟨-, -, allCut⟩ := aligned_and_cuts_headers accentedLine .code
  obtain ⟨found, -, headerEq, cuts⟩ := allCut accentedHeader isHeader
  exact ⟨isHeader, found, headerEq, cuts⟩

end ChangeCoverage.Branch
