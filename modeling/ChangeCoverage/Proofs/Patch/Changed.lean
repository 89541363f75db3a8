import ChangeCoverage.Proofs.Patch.Overflow

/-!
The changed lines of an edit script.  The numbers that are read from its patch are
those of the inserted lines in the new file, wherever its hunks stand and whatever
context they show.
-/

namespace ChangeCoverage.Patch

/-- A line of the new file of a script. -/
structure NewLine where
  text : Text
  isInserted : Bool

def editedLines : List Edit → List NewLine
  | [] => []
  | .keep line :: rest => { text := line.val, isInserted := false } :: editedLines rest
  | .delete _ :: rest => editedLines rest
  | .insert line :: rest => { text := line.val, isInserted := true } :: editedLines rest

def sharedLines (gap : List FileLine) : List NewLine :=
  gap.map fun line => { text := line.val, isInserted := false }

def Hunk.newLines (hunk : Hunk) : List NewLine :=
  editedLines hunk.edits ++ sharedLines hunk.gap

def Script.newLines (script : Script) : List NewLine :=
  sharedLines script.gap ++ script.hunks.flatMap Hunk.newLines

/-- The numbers of the inserted lines among lines that are counted from the given number. -/
def insertedNumbers (first : Nat) (fileLines : List NewLine) : List Nat :=
  ((fileLines.zipIdx first).filter (·.1.isInserted)).map (·.2)

def addedNumbers (diff : List Line) : List Nat :=
  (diff.filter (·.kind = .added)).filterMap (·.newNumber)

section Texts

theorem texts_sharedLines (gap : List FileLine) :
    (sharedLines gap).map (·.text) = gap.map (·.val) := by
  rw [sharedLines, List.map_map]
  rfl

theorem texts_editedLines (edits : List Edit) :
    (editedLines edits).map (·.text) = newTexts edits := by
  induction edits with
  | nil => rfl
  | cons edit rest inductionHypothesis =>
      cases edit with
      | keep line => exact congrArg (line.val :: ·) inductionHypothesis
      | delete line => exact inductionHypothesis
      | insert line => exact congrArg (line.val :: ·) inductionHypothesis

theorem Hunk.texts_newLines (hunk : Hunk) : hunk.newLines.map (·.text) = hunk.newSpan := by
  rw [newLines, List.map_append, texts_editedLines, texts_sharedLines]
  rfl

theorem Script.texts_newLines (script : Script) : script.newLines.map (·.text) = script.new := by
  rw [newLines, List.map_append, texts_sharedLines, List.map_flatMap]
  simp only [Hunk.texts_newLines]
  rfl

end Texts

section Numbers

variable {first number : Nat} {fileLines : List NewLine}

theorem insertedNumbers_append (first : Nat) (front back : List NewLine) :
    insertedNumbers first (front ++ back) =
      insertedNumbers first front ++ insertedNumbers (first + front.length) back := by
  simp [insertedNumbers, List.zipIdx_append]

theorem insertedNumbers_cons (first : Nat) (line : NewLine) (rest : List NewLine) :
    insertedNumbers first (line :: rest) =
      if line.isInserted then first :: insertedNumbers (first + 1) rest
      else insertedNumbers (first + 1) rest := by
  by_cases isInserted : line.isInserted <;> simp [insertedNumbers, isInserted]

theorem insertedNumbers_sharedLines (first : Nat) (gap : List FileLine) :
    insertedNumbers first (sharedLines gap) = [] := by
  induction gap generalizing first with
  | nil => rfl
  | cons line rest inductionHypothesis =>
      have later := inductionHypothesis (first + 1)
      rw [sharedLines] at later ⊢
      rw [List.map_cons, insertedNumbers_cons, if_neg Bool.false_ne_true, later]

theorem mem_insertedNumbers_iff :
    number ∈ insertedNumbers first fileLines ↔
      ∃ index line, number = first + index ∧ fileLines[index]? = some line ∧
        line.isInserted = true := by
  simp only [insertedNumbers, List.mem_map, List.mem_filter, Prod.exists,
    List.mk_mem_zipIdx_iff_le_and_getElem?_sub]
  constructor
  · rintro ⟨line, other, ⟨⟨counted, found⟩, isInserted⟩, rfl⟩
    refine ⟨other - first, line, ?_, found, isInserted⟩
    omega
  · rintro ⟨index, line, rfl, found, isInserted⟩
    refine ⟨line, first + index, ⟨⟨Nat.le_add_right _ _, ?_⟩, isInserted⟩, rfl⟩
    rwa [Nat.add_sub_cancel_left]

theorem pairwise_insertedNumbers (first : Nat) (fileLines : List NewLine) :
    (insertedNumbers first fileLines).Pairwise (· < ·) := by
  have ascending : ((fileLines.zipIdx first).map (·.2)).Pairwise (· < ·) := by
    rw [List.zipIdx_map_snd]
    exact List.pairwise_lt_range'
  apply List.Pairwise.sublist _ ascending
  exact List.filter_sublist.map _

/-- Ascending numbers are inserted in front of each other. -/
theorem foldr_insertNumber {numbers : List Nat} (ascending : numbers.Pairwise (· < ·)) :
    numbers.foldr insertNumber [] = numbers := by
  induction ascending with
  | nil => rfl
  | @cons number rest below _ inductionHypothesis =>
      rw [List.foldr_cons, inductionHypothesis]
      cases rest with
      | nil => rfl
      | cons next others => rw [insertNumber, if_pos (below next List.mem_cons_self)]

end Numbers

section Diff

theorem addedNumbers_append (front back : List Line) :
    addedNumbers (front ++ back) = addedNumbers front ++ addedNumbers back := by
  simp [addedNumbers]

theorem addedNumbers_editLines (old new : Nat) (edits : List Edit) :
    addedNumbers (editLines old new edits) =
      insertedNumbers new (editedLines edits) := by
  induction edits generalizing old new with
  | nil => rfl
  | cons edit rest inductionHypothesis =>
      cases edit with
      | keep line =>
          rw [editedLines, insertedNumbers_cons, if_neg Bool.false_ne_true]
          exact inductionHypothesis (old + 1) (new + 1)
      | delete line => exact inductionHypothesis (old + 1) new
      | insert line =>
          rw [editedLines, insertedNumbers_cons, if_pos rfl]
          exact congrArg (new :: ·) (inductionHypothesis old (new + 1))

/-- A hunk's header names no line of the new file. -/
theorem addedNumbers_hunkLines (old new : Nat) (hunks : List Hunk) :
    addedNumbers (hunkLines old new hunks) = insertedNumbers new (hunks.flatMap Hunk.newLines) := by
  induction hunks generalizing old new with
  | nil => rfl
  | cons hunk rest inductionHypothesis =>
      have length : hunk.newLines.length = hunk.newSpan.length := by
        rw [← hunk.texts_newLines, List.length_map]
      have headed (text : Text) (diff : List Line) :
          addedNumbers (.hunk text :: diff) = addedNumbers diff := rfl
      rw [hunkLines, List.cons_append, headed, addedNumbers_append, addedNumbers_editLines,
        inductionHypothesis, List.flatMap_cons, insertedNumbers_append, length, Hunk.newLines,
        insertedNumbers_append, insertedNumbers_sharedLines, List.append_nil]

end Diff

section Script

variable {script : Script}

theorem changedLines_hunkLines (script : Script) :
    changedLines (hunkLines (script.gap.length + 1) (script.gap.length + 1) script.hunks) =
      insertedNumbers 1 script.newLines := by
  have inserted : addedNumbers
      (hunkLines (script.gap.length + 1) (script.gap.length + 1) script.hunks) =
        insertedNumbers 1 script.newLines := by
    rw [addedNumbers_hunkLines, Script.newLines, insertedNumbers_append,
      insertedNumbers_sharedLines, List.nil_append]
    simp [sharedLines, Nat.add_comm]
  change (addedNumbers _).foldr insertNumber [] = _
  rw [inserted]
  exact foldr_insertNumber (pairwise_insertedNumbers 1 script.newLines)

/-- The patch of a script is read, and its changed lines are the inserted lines of the new
file, in ascending order: a line of that file is among them just if it was inserted, and
nothing else is. -/
theorem changedLines_patch (oldFits : script.old.length + 1 < Text.limit64)
    (newFits : script.new.length + 1 < Text.limit64) :
    script.newLines.map (·.text) = script.new ∧
      ∃ diff, parse? script.patch = some diff ∧
        changedLines diff = insertedNumbers 1 script.newLines ∧
        (∀ index line, script.newLines[index]? = some line →
          (index + 1 ∈ changedLines diff ↔ line.isInserted = true)) ∧
        ∀ number ∈ changedLines diff, 1 ≤ number ∧ number ≤ script.new.length := by
  have changed := changedLines_hunkLines script
  refine ⟨script.texts_newLines, _, parse?_patch oldFits newFits, changed, ?_, ?_⟩
  · intro index line isLine
    rw [changed, mem_insertedNumbers_iff]
    constructor
    · rintro ⟨other, found, same, isFound, isInserted⟩
      obtain rfl : index = other := by omega
      rw [isLine] at isFound
      exact Option.some.inj isFound ▸ isInserted
    · intro isInserted
      exact ⟨index, line, Nat.add_comm index 1, isLine, isInserted⟩
  · intro number membership
    rw [changed, mem_insertedNumbers_iff] at membership
    obtain ⟨index, line, rfl, isLine, -⟩ := membership
    obtain ⟨within, -⟩ := List.getElem?_eq_some_iff.mp isLine
    rw [← script.texts_newLines, List.length_map]
    omega

end Script

/-- Insertions without context, and between them a line behind a deletion. -/
def sampleInsertions : Script where
  gap := [⟨['p'], by decide⟩]
  hunks :=
    [{ edits := [.insert ⟨['q'], by decide⟩], gap := [⟨['r'], by decide⟩],
       heading := ⟨[' ', 'h'], by decide⟩, brief := true },
     { edits := [.delete ⟨['s'], by decide⟩, .keep ⟨['t'], by decide⟩,
         .delete ⟨['u'], by decide⟩, .insert ⟨['\t'], by decide⟩],
       gap := [], heading := ⟨[' '], by decide⟩, brief := false }]

theorem changedLines_patch_sample :
    sampleInsertions.old.length + 1 < Text.limit64 ∧
      sampleInsertions.new.length + 1 < Text.limit64 ∧
      sampleInsertions.new = [['p'], ['q'], ['r'], ['t'], ['\t']] ∧
      (parse? sampleInsertions.patch).map changedLines = some [2, 5] := by
  have oldFits : sampleInsertions.old.length + 1 < Text.limit64 := by decide
  have newFits : sampleInsertions.new.length + 1 < Text.limit64 := by decide
  obtain ⟨-, diff, read, changed, -, -⟩ := changedLines_patch oldFits newFits
  refine ⟨oldFits, newFits, rfl, ?_⟩
  rw [read, Option.map_some, changed]
  rfl

end ChangeCoverage.Patch
