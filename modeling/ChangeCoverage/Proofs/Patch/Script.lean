import ChangeCoverage.Proofs.Patch.Counting
import ChangeCoverage.Proofs.Patch.Header
import ChangeCoverage.Proofs.Text.Lines

/-!
Edit scripts and the patches that describe them.  A script alternates between
lines that both files share and hunks of operations.  Its patch leaves the
shared lines out and numbers the hunks: a range starts at its first line, or,
when it has no line, at the line before it.
-/

namespace ChangeCoverage.Patch

abbrev FileLine := { text : Text // Text.IsLine text }

/-- One operation of an edit script. -/
inductive Edit where
  | keep (line : FileLine)
  | delete (line : FileLine)
  | insert (line : FileLine)

def oldTexts : List Edit → List Text
  | [] => []
  | .keep line :: rest => line.val :: oldTexts rest
  | .delete line :: rest => line.val :: oldTexts rest
  | .insert _ :: rest => oldTexts rest

def newTexts : List Edit → List Text
  | [] => []
  | .keep line :: rest => line.val :: newTexts rest
  | .delete _ :: rest => newTexts rest
  | .insert line :: rest => line.val :: newTexts rest

/-- A hunk and the shared lines after it. -/
structure Hunk where
  edits : List Edit
  gap : List FileLine
  heading : FileLine
  brief : Bool

namespace Hunk

def gapTexts (hunk : Hunk) : List Text := hunk.gap.map (·.val)

def oldSpan (hunk : Hunk) : List Text := oldTexts hunk.edits ++ hunk.gapTexts

def newSpan (hunk : Hunk) : List Text := newTexts hunk.edits ++ hunk.gapTexts

end Hunk

/-- The start of a range whose first line would be the given one. -/
def rangeStart (first length : Nat) : Nat :=
  if length = 0 then first - 1 else first

/-- The header of a hunk that starts at the given lines of the two files. -/
def Hunk.header (hunk : Hunk) (old new : Nat) : Header where
  oldStart := rangeStart old (oldTexts hunk.edits).length
  oldLength := (oldTexts hunk.edits).length
  newStart := rangeStart new (newTexts hunk.edits).length
  newLength := (newTexts hunk.edits).length

def Edit.render : Edit → Text
  | keep line => ' ' :: line.val
  | delete line => '-' :: line.val
  | insert line => '+' :: line.val

/-- The patch lines of hunks, the first of which starts at the given lines. -/
def renderHunks (old new : Nat) : List Hunk → List Text
  | [] => []
  | hunk :: rest =>
      (hunk.header old new).render hunk.brief hunk.heading.val :: hunk.edits.map Edit.render ++
        renderHunks (old + hunk.oldSpan.length) (new + hunk.newSpan.length) rest

/-- Two files as shared lines and hunks between them. -/
structure Script where
  gap : List FileLine
  hunks : List Hunk

namespace Script

def gapTexts (script : Script) : List Text := script.gap.map (·.val)

def old (script : Script) : List Text :=
  script.gapTexts ++ script.hunks.flatMap Hunk.oldSpan

def new (script : Script) : List Text :=
  script.gapTexts ++ script.hunks.flatMap Hunk.newSpan

def patch (script : Script) : Text :=
  Text.terminate (renderHunks (script.gap.length + 1) (script.gap.length + 1) script.hunks)

end Script

/-- The diff lines of operations that start at the given lines. -/
def editLines (old new : Nat) : List Edit → List Line
  | [] => []
  | .keep line :: rest => .context old new line.val :: editLines (old + 1) (new + 1) rest
  | .delete line :: rest => .deleted old line.val :: editLines (old + 1) new rest
  | .insert line :: rest => .added new line.val :: editLines old (new + 1) rest

/-- The diff lines of hunks, the first of which starts at the given lines. -/
def hunkLines (old new : Nat) : List Hunk → List Line
  | [] => []
  | hunk :: rest =>
      .hunk ((hunk.header old new).render hunk.brief hunk.heading.val) ::
        editLines old new hunk.edits ++
          hunkLines (old + hunk.oldSpan.length) (new + hunk.newSpan.length) rest

theorem isLine_append {front back : Text} (frontIsLine : Text.IsLine front)
    (backIsLine : Text.IsLine back) : Text.IsLine (front ++ back) := by
  refine ⟨by simp [frontIsLine.1, backIsLine.1], ?_⟩
  rw [List.getLast?_append]
  cases last : back.getLast? with
  | none => simpa using frontIsLine.2
  | some character =>
      have unended := backIsLine.2
      rw [last] at unended
      simpa using unended

theorem isLine_cons (first : Char) {text : Text} (firstIsLine : Text.IsLine [first])
    (isLine : Text.IsLine text) : Text.IsLine (first :: text) :=
  isLine_append firstIsLine isLine

theorem Edit.render_isLine (edit : Edit) : Text.IsLine edit.render := by
  cases edit with
  | keep line => exact isLine_cons ' ' (by decide) line.property
  | delete line => exact isLine_cons '-' (by decide) line.property
  | insert line => exact isLine_cons '+' (by decide) line.property

theorem rangeText_isLine (brief : Bool) (start length : Nat) :
    Text.IsLine (rangeText brief start length) := by
  refine ⟨Header.not_mem_rangeText (by decide) (by decide), fun ended => ?_⟩
  have membership := List.mem_of_getLast? ended
  exact Header.not_mem_rangeText (by decide) (by decide) membership

theorem Header.render_isLine (brief : Bool) (header : Header) (heading : FileLine) :
    Text.IsLine (header.render brief heading.val) :=
  isLine_append (isLine_append (isLine_append (isLine_append (isLine_append
    (by decide) (rangeText_isLine ..)) (by decide)) (rangeText_isLine ..)) (by decide))
    heading.property

theorem renderHunks_areLines (old new : Nat) (hunks : List Hunk) :
    ∀ line ∈ renderHunks old new hunks, Text.IsLine line := by
  induction hunks generalizing old new with
  | nil => simp [renderHunks]
  | cons hunk rest inductionHypothesis =>
      intro line membership
      simp only [renderHunks, List.cons_append, List.mem_cons, List.mem_append,
        List.mem_map] at membership
      rcases membership with rfl | ⟨edit, _, rfl⟩ | later
      · exact Header.render_isLine ..
      · exact edit.render_isLine
      · exact inductionHypothesis _ _ line later

theorem readLines_header (cursor : Option Cursor) (brief : Bool) {header : Header}
    (fits : header.Fits) (heading : Text) (rest : List Text) :
    readLines cursor (header.render brief heading :: rest) =
      .hunk (header.render brief heading) :: readLines (some (.ofHeader header)) rest := by
  have marked : Header.marker.isPrefixOf (header.render brief heading) = true := by
    simp [Header.marker, Header.render]
  simp [readLines, readLine, marked, Header.parse?_render brief fits]

theorem readLines_edits (cursor : Cursor) (edits : List Edit) (rest : List Text) :
    ∃ next, readLines (some cursor) (edits.map Edit.render ++ rest) =
      editLines cursor.oldNumber cursor.newNumber edits ++ readLines next rest := by
  induction edits generalizing cursor with
  | nil => exact ⟨some cursor, rfl⟩
  | cons edit later inductionHypothesis =>
      cases edit with
      | keep line =>
          obtain ⟨next, tail⟩ := inductionHypothesis cursor.passOld.passNew
          exact ⟨next, congrArg (Line.context _ _ _ :: ·) tail⟩
      | delete line =>
          obtain ⟨next, tail⟩ := inductionHypothesis cursor.passOld
          exact ⟨next, congrArg (Line.deleted _ _ :: ·) tail⟩
      | insert line =>
          obtain ⟨next, tail⟩ := inductionHypothesis cursor.passNew
          exact ⟨next, congrArg (Line.added _ _ :: ·) tail⟩

theorem editLines_congr {old new other : Nat} {edits : List Edit} :
    (oldTexts edits = [] → editLines old new edits = editLines other new edits) ∧
      (newTexts edits = [] → editLines old new edits = editLines old other edits) := by
  induction edits generalizing old new other with
  | nil => exact ⟨fun _ => rfl, fun _ => rfl⟩
  | cons edit later inductionHypothesis =>
      cases edit with
      | keep line => simp [oldTexts, newTexts]
      | delete line =>
          refine ⟨by simp [oldTexts], fun untouched => ?_⟩
          exact congrArg (Line.deleted old line.val :: ·) (inductionHypothesis.2 untouched)
      | insert line =>
          refine ⟨fun untouched => ?_, by simp [newTexts]⟩
          exact congrArg (Line.added new line.val :: ·) (inductionHypothesis.1 untouched)

theorem editLines_rangeStart (old new : Nat) (edits : List Edit) :
    editLines (rangeStart old (oldTexts edits).length)
      (rangeStart new (newTexts edits).length) edits = editLines old new edits := by
  have oldSame : editLines (rangeStart old (oldTexts edits).length)
      (rangeStart new (newTexts edits).length) edits =
        editLines old (rangeStart new (newTexts edits).length) edits := by
    unfold rangeStart
    split
    next untouched => exact editLines_congr.1 (List.length_eq_zero_iff.mp untouched)
    next => rfl
  have newSame : editLines old (rangeStart new (newTexts edits).length) edits =
      editLines old new edits := by
    unfold rangeStart
    split
    next untouched => exact editLines_congr.2 (List.length_eq_zero_iff.mp untouched)
    next => rfl
  rw [oldSame, newSame]

theorem rangeStart_le (first length : Nat) : rangeStart first length ≤ first := by
  unfold rangeStart
  split <;> omega

/-- The diff lines of rendered hunks are those of their operations. -/
theorem readLines_renderHunks (cursor : Option Cursor) {old new : Nat} (hunks : List Hunk)
    (oldFits : old + (hunks.flatMap Hunk.oldSpan).length < Text.limit64)
    (newFits : new + (hunks.flatMap Hunk.newSpan).length < Text.limit64) :
    readLines cursor (renderHunks old new hunks) = hunkLines old new hunks := by
  induction hunks generalizing cursor old new with
  | nil => rfl
  | cons hunk rest inductionHypothesis =>
      simp only [List.flatMap_cons, List.length_append] at oldFits newFits
      have oldSpan : (oldTexts hunk.edits).length ≤ hunk.oldSpan.length := by simp [Hunk.oldSpan]
      have newSpan : (newTexts hunk.edits).length ≤ hunk.newSpan.length := by simp [Hunk.newSpan]
      have oldStart := rangeStart_le old (oldTexts hunk.edits).length
      have newStart := rangeStart_le new (newTexts hunk.edits).length
      have fits : (hunk.header old new).Fits := by
        constructor <;> simp only [Hunk.header] <;> omega
      simp only [renderHunks, List.cons_append]
      rw [readLines_header cursor hunk.brief fits]
      obtain ⟨next, read⟩ := readLines_edits (.ofHeader (hunk.header old new)) hunk.edits
        (renderHunks (old + hunk.oldSpan.length) (new + hunk.newSpan.length) rest)
      rw [read, inductionHypothesis next (by omega) (by omega)]
      simp only [Cursor.ofHeader, Hunk.header, editLines_rangeStart, hunkLines, List.cons_append]

theorem parse_patch {script : Script} (oldFits : script.old.length + 1 < Text.limit64)
    (newFits : script.new.length + 1 < Text.limit64) :
    parse script.patch =
      hunkLines (script.gap.length + 1) (script.gap.length + 1) script.hunks := by
  simp only [Script.old, Script.new, Script.gapTexts, List.length_append, List.length_map]
    at oldFits newFits
  rw [parse, Script.patch, Text.cleanLines_terminate (renderHunks_areLines _ _ _)]
  exact readLines_renderHunks none script.hunks (by omega) (by omega)

end ChangeCoverage.Patch
