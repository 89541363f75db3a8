import ChangeCoverage.Proofs.Alignment.Coverage
import ChangeCoverage.Proofs.Patch.Overflow

/-!
The alignment that an edit script asks for, and the proof that aligning its
files along its patch gives these rows.
-/

namespace ChangeCoverage.Alignment

open Patch (Edit Hunk Script FileLine)

def contextRow (old new : Nat) (content : Text) : Row :=
  { left := .ofLine .context old content, right := .ofLine .context new content }

/-- The rows of shared lines that start at the given numbers. -/
def contextRows (old new : Nat) : List Text → List Row
  | [] => []
  | content :: rest => contextRow old new content :: contextRows (old + 1) (new + 1) rest

/-- The line with an index in a run that starts at a number, or nothing. -/
def runSide (kind : SideKind) (first : Nat) (run : List Text) (index : Nat) : Side :=
  match run[index]? with
  | some content => .ofLine kind (first + index) content
  | none => .empty

/-- The rows of a deleted and an added run, paired index by index. -/
def changeRows (old new : Nat) (deleted added : List Text) : List Row :=
  (List.range (max deleted.length added.length)).map fun index =>
    { left := runSide .deleted old deleted index, right := runSide .added new added index }

def deletedRun : List Edit → List Text
  | .delete line :: rest => line.val :: deletedRun rest
  | _ => []

def insertedRun : List Edit → List Text
  | .insert line :: rest => line.val :: insertedRun rest
  | _ => []

/-- The insertions directly behind the deletions that operations start with. -/
def insertedBehind (edits : List Edit) : List Text :=
  insertedRun (edits.drop (deletedRun edits).length)

def behindRuns (edits : List Edit) : List Edit :=
  (edits.drop (deletedRun edits).length).drop (insertedBehind edits).length

theorem length_behindRuns_delete (line : FileLine) (rest : List Edit) :
    (behindRuns (.delete line :: rest)).length < rest.length + 1 := by
  simp only [behindRuns, deletedRun, List.length_drop, List.length_cons]
  omega

theorem length_behindRuns_insert (line : FileLine) (rest : List Edit) :
    (behindRuns (.insert line :: rest)).length < rest.length + 1 := by
  simp only [behindRuns, insertedBehind, deletedRun, insertedRun, List.length_nil, List.drop_zero,
    List.length_drop, List.length_cons]
  omega

/-- The rows of operations that start at the given lines.  A maximal run of
deletions is shown beside the insertions directly behind it. -/
def editRows (old new : Nat) : List Edit → List Row
  | [] => []
  | .keep line :: rest => contextRow old new line.val :: editRows (old + 1) (new + 1) rest
  | .delete line :: rest =>
      let deleted := deletedRun (.delete line :: rest)
      let inserted := insertedBehind (.delete line :: rest)
      changeRows old new deleted inserted ++
        editRows (old + deleted.length) (new + inserted.length) (behindRuns (.delete line :: rest))
  | .insert line :: rest =>
      let inserted := insertedBehind (.insert line :: rest)
      changeRows old new [] inserted ++
        editRows old (new + inserted.length) (behindRuns (.insert line :: rest))
termination_by edits => edits.length
decreasing_by
  · simp
  · exact length_behindRuns_delete line rest
  · exact length_behindRuns_insert line rest

def hunkRows (old new : Nat) : List Hunk → List Row
  | [] => []
  | hunk :: rest =>
      editRows old new hunk.edits ++
        contextRows (old + (Patch.oldTexts hunk.edits).length)
          (new + (Patch.newTexts hunk.edits).length) hunk.gapTexts ++
        hunkRows (old + hunk.oldSpan.length) (new + hunk.newSpan.length) rest

def scriptRows (script : Script) : List Row :=
  contextRows 1 1 script.gapTexts ++
    hunkRows (script.gap.length + 1) (script.gap.length + 1) script.hunks

def runSides (kind : SideKind) (first : Nat) (run : List Text) : List (Option Side) :=
  (run.zipIdx first).map fun line => some (.ofLine kind line.2 line.1)

theorem runSides_cons (kind : SideKind) (first : Nat) (content : Text) (rest : List Text) :
    runSides kind first (content :: rest) =
      some (.ofLine kind first content) :: runSides kind (first + 1) rest := rfl

theorem runSide_succ (kind : SideKind) (first : Nat) (run : List Text) (index : Nat) :
    runSide kind first run (index + 1) = runSide kind (first + 1) run.tail index := by
  have shifted : first + (index + 1) = first + 1 + index := by omega
  simp [runSide, shifted]

theorem changeRows_step (old new : Nat) {deleted added : List Text}
    (nonempty : 0 < max deleted.length added.length) :
    changeRows old new deleted added =
      { left := runSide .deleted old deleted 0, right := runSide .added new added 0 } ::
        changeRows (old + 1) (new + 1) deleted.tail added.tail := by
  obtain ⟨count, total⟩ : ∃ count, max deleted.length added.length = count + 1 :=
    ⟨max deleted.length added.length - 1, by omega⟩
  have shorter : max deleted.tail.length added.tail.length = count := by
    simp only [List.length_tail]
    omega
  rw [changeRows, changeRows, total, shorter, List.range_succ_eq_map, List.map_cons, List.map_map]
  simp only [Function.comp_def, Nat.succ_eq_add_one, runSide_succ]

theorem zipSides_runSides (old new : Nat) (deleted added : List Text) :
    zipSides (runSides .deleted old deleted) (runSides .added new added) =
      changeRows old new deleted added := by
  induction deleted generalizing old new added with
  | nil =>
      induction added generalizing old new with
      | nil => rfl
      | cons content rest inductionHypothesis =>
          have later := inductionHypothesis (old + 1) (new + 1)
          rw [changeRows_step old new (by simp), runSides_cons]
          change zipSides [] _ = _ at later ⊢
          rw [zipSides_nil_cons]
          simp [later, Row.ofSides?, runSide]
  | cons content rest inductionHypothesis =>
      have later := inductionHypothesis (old + 1) (new + 1) added.tail
      have nonempty : 0 < max (content :: rest).length added.length := by
        rw [List.length_cons]
        omega
      rw [changeRows_step old new nonempty, runSides_cons, zipSides]
      cases added with
      | nil => simpa [Row.ofSides?, runSide, runSides] using later
      | cons first following => simpa [Row.ofSides?, runSide, runSides_cons] using later

/-- A run that goes on at the next line of the file is shown in full. -/
theorem changeSides_ahead {fileLines : List Text} (kind : SideKind) (next : Nat)
    {run : List Text} (inFile : next + run.length ≤ fileLines.length + 1) :
    changeSides fileLines kind next ((run.zipIdx next).map fun line => (some line.2, line.1)) =
      (next + run.length, runSides kind next run) := by
  induction run generalizing next with
  | nil => rfl
  | cons content rest inductionHypothesis =>
      rw [List.length_cons] at inFile
      have ahead : isAhead fileLines next next = true := isAhead_iff.mpr (by omega)
      have total : next + 1 + rest.length = next + (rest.length + 1) := by omega
      simp [changeSides, ahead, inductionHypothesis (next + 1) (by omega), runSides, total]

theorem zipSides_contextSides (old new : Nat) (gap : List Text) :
    zipSides (contextSides (gap.zipIdx old)) (contextSides (gap.zipIdx new)) =
      contextRows old new gap := by
  induction gap generalizing old new with
  | nil => rfl
  | cons content rest inductionHypothesis =>
      have later := inductionHypothesis (old + 1) (new + 1)
      simp only [contextSides] at later
      simp [contextSides, zipSides, Row.ofSides?, contextRows, contextRow, later]

def headKind? (diff : List Patch.Line) : Option Patch.LineKind :=
  diff.head?.map (·.kind)

/-- A change at the front starts with a line of the first run that is not empty. -/
theorem headKind?_of_change {diff : List Patch.Line} {deleted added : List Patch.Line}
    {later : List Block} (found : blocks diff = .change deleted added :: later) :
    headKind? diff = some (if deleted.isEmpty then .added else .deleted) := by
  cases diff with
  | nil => simp [blocks] at found
  | cons line rest =>
      cases kind : line.kind with
      | hunk => simp [blocks, kind] at found
      | context => simp [blocks, kind] at found
      | deleted =>
          rcases blocks_deleted line kind rest with ⟨_, _, _, _, whole⟩ | ⟨_, whole⟩ <;>
          · rw [whole] at found
            cases found
            simp [headKind?, kind]
      | added =>
          rcases blocks_added line kind rest with ⟨_, _, _, whole⟩ | ⟨_, whole⟩ <;>
          · rw [whole] at found
            cases found
            simp [headKind?, kind]

theorem blocks_addedRun {added tail : List Patch.Line} (nonempty : added ≠ [])
    (areAdded : ∀ line ∈ added, line.kind = .added) (stops : headKind? tail ≠ some .added) :
    blocks (added ++ tail) = .change [] added :: blocks tail := by
  induction added with
  | nil => exact absurd rfl nonempty
  | cons line rest inductionHypothesis =>
      have isAdded := areAdded line (by simp)
      cases rest with
      | nil =>
          rcases blocks_added line isAdded tail with ⟨added, later, found, _⟩ | ⟨_, whole⟩
          · exact absurd (headKind?_of_change found) stops
          · exact whole
      | cons second following =>
          have front := inductionHypothesis (by simp) fun other membership =>
            areAdded other (List.mem_cons_of_mem _ membership)
          rcases blocks_added line isAdded (second :: following ++ tail) with
            ⟨added, later, found, whole⟩ | ⟨separate, _⟩
          · rw [front] at found
            cases found
            exact whole
          · exact absurd front (separate _ _)

/-- A run of deleted lines and the run of added lines behind it are one change. -/
theorem blocks_run (deleted added tail : List Patch.Line) (nonempty : deleted ++ added ≠ [])
    (areDeleted : ∀ line ∈ deleted, line.kind = .deleted)
    (areAdded : ∀ line ∈ added, line.kind = .added) (stops : headKind? tail ≠ some .added)
    (ends : added = [] → headKind? tail ≠ some .deleted) :
    blocks (deleted ++ added ++ tail) = .change deleted added :: blocks tail := by
  induction deleted with
  | nil => exact blocks_addedRun nonempty areAdded stops
  | cons line rest inductionHypothesis =>
      have isDeleted := areDeleted line (by simp)
      have front := fun nonempty => inductionHypothesis nonempty fun other membership =>
        areDeleted other (List.mem_cons_of_mem _ membership)
      rcases blocks_deleted line isDeleted (rest ++ added ++ tail) with
        ⟨foundDeleted, foundAdded, later, found, whole⟩ | ⟨separate, whole⟩
      · by_cases alone : rest ++ added = []
        · obtain ⟨rfl, rfl⟩ := List.append_eq_nil_iff.mp alone
          have kind := headKind?_of_change found
          split at kind
          · exact absurd kind stops
          · exact absurd kind (ends rfl)
        · rw [front alone] at found
          cases found
          exact whole
      · by_cases alone : rest ++ added = []
        · obtain ⟨rfl, rfl⟩ := List.append_eq_nil_iff.mp alone
          exact whole
        · exact absurd (front alone) (separate _ _ _)

def deletedLines (first : Nat) (run : List Text) : List Patch.Line :=
  (run.zipIdx first).map fun line => .deleted line.2 line.1

def addedLines (first : Nat) (run : List Text) : List Patch.Line :=
  (run.zipIdx first).map fun line => .added line.2 line.1

theorem split_deletedRun (edits : List Edit) :
    let run := deletedRun edits
    let behind := edits.drop run.length
    deletedRun behind = [] ∧ Patch.oldTexts edits = run ++ Patch.oldTexts behind ∧
      Patch.newTexts edits = Patch.newTexts behind ∧
      ∀ old new, Patch.editLines old new edits =
        deletedLines old run ++ Patch.editLines (old + run.length) new behind := by
  fun_induction deletedRun edits with
  | case1 line rest inductionHypothesis =>
      obtain ⟨stops, old, new, diff⟩ := inductionHypothesis
      refine ⟨stops, congrArg (line.val :: ·) old, new, fun oldFirst newFirst => ?_⟩
      have total : oldFirst + 1 + (deletedRun rest).length =
          oldFirst + ((deletedRun rest).length + 1) := by omega
      simp [Patch.editLines, diff, deletedLines, total]
  | case2 edits other =>
      refine ⟨?_, rfl, rfl, fun _ _ => rfl⟩
      cases edits with
      | nil => rfl
      | cons edit rest =>
          cases edit with
          | delete line => exact absurd rfl (other line rest)
          | keep line => rfl
          | insert line => rfl

theorem split_insertedRun (edits : List Edit) :
    let run := insertedRun edits
    let behind := edits.drop run.length
    insertedRun behind = [] ∧ Patch.newTexts edits = run ++ Patch.newTexts behind ∧
      Patch.oldTexts edits = Patch.oldTexts behind ∧
      ∀ old new, Patch.editLines old new edits =
        addedLines new run ++ Patch.editLines old (new + run.length) behind := by
  fun_induction insertedRun edits with
  | case1 line rest inductionHypothesis =>
      obtain ⟨stops, new, old, diff⟩ := inductionHypothesis
      refine ⟨stops, congrArg (line.val :: ·) new, old, fun oldFirst newFirst => ?_⟩
      have total : newFirst + 1 + (insertedRun rest).length =
          newFirst + ((insertedRun rest).length + 1) := by omega
      simp [Patch.editLines, diff, addedLines, total]
  | case2 edits other =>
      refine ⟨?_, rfl, rfl, fun _ _ => rfl⟩
      cases edits with
      | nil => rfl
      | cons edit rest =>
          cases edit with
          | insert line => exact absurd rfl (other line rest)
          | keep line => rfl
          | delete line => rfl

/-- What follows the operations of a hunk in a diff: nothing or a header. -/
def EndsHunk (later : List Patch.Line) : Prop :=
  headKind? later = none ∨ headKind? later = some .hunk

theorem headKind?_editLines (old new : Nat) (edits : List Edit) {later : List Patch.Line}
    (ends : EndsHunk later) :
    (insertedRun edits = [] → headKind? (Patch.editLines old new edits ++ later) ≠ some .added) ∧
    (deletedRun edits = [] →
      headKind? (Patch.editLines old new edits ++ later) ≠ some .deleted) := by
  cases edits with
  | nil =>
      rcases ends with none | hunk
      · simp [Patch.editLines, none]
      · simp [Patch.editLines, hunk]
  | cons edit rest =>
      cases edit <;>
        simp [Patch.editLines, headKind?, insertedRun, deletedRun, Patch.Line.context,
          Patch.Line.added, Patch.Line.deleted]

theorem fill_self (files : Files) (position : Position) :
    fill files position position = (position, []) := by
  have stays (fileLines : List Text) (next : Nat) : filledTo fileLines next next = next := by
    unfold filledTo
    omega
  simp [fill, stays, linesBetween, contextSides, zipSides]

/-- The number at which a run starts, or the next line when it is empty. -/
theorem deletedLines_head (first : Nat) (run : List Text) :
    ((deletedLines first run).head?.bind (·.oldNumber)).getD first = first := by
  cases run <;> simp [deletedLines, Patch.Line.deleted]

theorem addedLines_head (first : Nat) (run : List Text) :
    ((addedLines first run).head?.bind (·.newNumber)).getD first = first := by
  cases run <;> simp [addedLines, Patch.Line.added]

/-- A change at the next lines of the files is shown as its two runs. -/
theorem alignBlock_change (files : Files) {old new : Nat} {deleted added : List Text}
    (oldInFile : old + deleted.length ≤ files.old.length + 1)
    (newInFile : new + added.length ≤ files.new.length + 1) :
    alignBlock files { old, new } (.change (deletedLines old deleted) (addedLines new added)) =
      ({ old := old + deleted.length, new := new + added.length },
        changeRows old new deleted added) := by
  have lefts := changeSides_ahead .deleted old oldInFile
  have rights := changeSides_ahead .added new newInFile
  have leftRun : (deletedLines old deleted).map (fun line => (line.oldNumber, line.content)) =
      (deleted.zipIdx old).map fun line => (some line.2, line.1) := by
    simp [deletedLines, Patch.Line.deleted]
  have rightRun : (addedLines new added).map (fun line => (line.newNumber, line.content)) =
      (added.zipIdx new).map fun line => (some line.2, line.1) := by
    simp [addedLines, Patch.Line.added]
  simp only [alignBlock, deletedLines_head, addedLines_head, fill_self, leftRun, rightRun,
    lefts, rights, zipSides_runSides, List.nil_append]

/-- A context line at the next lines of the files is shown as one row. -/
theorem alignBlock_context (files : Files) {old new : Nat} (content : Text)
    (oldInFile : old ≤ files.old.length) (newInFile : new ≤ files.new.length) :
    alignBlock files { old, new } (.context (.context old new content)) =
      ({ old := old + 1, new := new + 1 }, [contextRow old new content]) := by
  have oldAhead : isAhead files.old old old = true := isAhead_iff.mpr (by omega)
  have newAhead : isAhead files.new new new = true := isAhead_iff.mpr (by omega)
  simp [alignBlock, Patch.Line.context, oldAhead, newAhead, fill_self, contextRow]

/-- A change made of two runs, one of them not empty, and the diff behind it. -/
theorem alignBlocks_runs (files : Files) {old new : Nat} {deleted added : List Text}
    {tail : List Patch.Line} (nonempty : deleted ≠ [] ∨ added ≠ [])
    (stops : headKind? tail ≠ some .added)
    (ends : added = [] → headKind? tail ≠ some .deleted)
    (oldInFile : old + deleted.length ≤ files.old.length + 1)
    (newInFile : new + added.length ≤ files.new.length + 1) :
    alignBlocks files { old, new }
        (blocks (deletedLines old deleted ++ addedLines new added ++ tail)) =
      changeRows old new deleted added ++
        alignBlocks files { old := old + deleted.length, new := new + added.length }
          (blocks tail) := by
  have whole := blocks_run (deletedLines old deleted) (addedLines new added) tail
    (by rcases nonempty with nonempty | nonempty <;> simp [deletedLines, addedLines, nonempty])
    (by
      intro line membership
      obtain ⟨_, _, rfl⟩ := List.mem_map.mp membership
      rfl)
    (by
      intro line membership
      obtain ⟨_, _, rfl⟩ := List.mem_map.mp membership
      rfl)
    stops (fun empty => ends (by simpa [addedLines] using empty))
  rw [whole, alignBlocks_cons, alignBlock_change files oldInFile newInFile]

/-- Operations that start with a change show it, and then what is behind it. -/
theorem alignBlocks_behindRuns (files : Files) (edits : List Edit) {later : List Patch.Line}
    (ends : EndsHunk later) (old new : Nat)
    (nonempty : deletedRun edits ≠ [] ∨ insertedBehind edits ≠ [])
    (oldInFile : old + (deletedRun edits).length ≤ files.old.length + 1)
    (newInFile : new + (insertedBehind edits).length ≤ files.new.length + 1) :
    alignBlocks files { old, new } (blocks (Patch.editLines old new edits ++ later)) =
      changeRows old new (deletedRun edits) (insertedBehind edits) ++
        alignBlocks files
          { old := old + (deletedRun edits).length, new := new + (insertedBehind edits).length }
          (blocks (Patch.editLines (old + (deletedRun edits).length)
            (new + (insertedBehind edits).length) (behindRuns edits) ++ later)) := by
  obtain ⟨deletedStops, _, _, deletedDiff⟩ := split_deletedRun edits
  obtain ⟨insertedStops, _, _, insertedDiff⟩ :=
    split_insertedRun (edits.drop (deletedRun edits).length)
  have heads := headKind?_editLines (old + (deletedRun edits).length)
    (new + (insertedBehind edits).length) (behindRuns edits) ends
  rw [deletedDiff, insertedDiff, ← List.append_assoc, List.append_assoc]
  refine alignBlocks_runs files nonempty (heads.1 insertedStops) (fun empty => heads.2 ?_)
    oldInFile newInFile
  -- no insertion is taken away, so the deletions have stopped here already
  have empty : insertedBehind edits = [] := empty
  rw [behindRuns, empty, List.length_nil, List.drop_zero]
  exact deletedStops

theorem length_oldTexts (edits : List Edit) :
    (Patch.oldTexts edits).length =
      (deletedRun edits).length + (Patch.oldTexts (behindRuns edits)).length := by
  obtain ⟨_, oldSplit, _, _⟩ := split_deletedRun edits
  obtain ⟨_, _, oldSame, _⟩ := split_insertedRun (edits.drop (deletedRun edits).length)
  rw [oldSplit, oldSame, List.length_append]
  rfl

theorem length_newTexts (edits : List Edit) :
    (Patch.newTexts edits).length =
      (insertedBehind edits).length + (Patch.newTexts (behindRuns edits)).length := by
  obtain ⟨_, _, newSame, _⟩ := split_deletedRun edits
  obtain ⟨_, newSplit, _, _⟩ := split_insertedRun (edits.drop (deletedRun edits).length)
  rw [newSame, newSplit, List.length_append]
  rfl

/-- The operations of a hunk are shown row by row when the alignment has
reached their first lines. -/
theorem alignBlocks_editLines (files : Files) (edits : List Edit) {later : List Patch.Line}
    (ends : EndsHunk later) (old new : Nat)
    (oldInFile : old + (Patch.oldTexts edits).length ≤ files.old.length + 1)
    (newInFile : new + (Patch.newTexts edits).length ≤ files.new.length + 1) :
    alignBlocks files { old, new } (blocks (Patch.editLines old new edits ++ later)) =
      editRows old new edits ++
        alignBlocks files
          { old := old + (Patch.oldTexts edits).length,
            new := new + (Patch.newTexts edits).length } (blocks later) := by
  fun_induction editRows old new edits with
  | case1 old new => rfl
  | case2 old new line rest inductionHypothesis =>
      simp only [Patch.oldTexts, Patch.newTexts, List.length_cons] at oldInFile newInFile ⊢
      have later := inductionHypothesis (by omega) (by omega)
      have oldTotal : old + 1 + (Patch.oldTexts rest).length =
          old + ((Patch.oldTexts rest).length + 1) := by omega
      have newTotal : new + 1 + (Patch.newTexts rest).length =
          new + ((Patch.newTexts rest).length + 1) := by omega
      rw [oldTotal, newTotal] at later
      rw [Patch.editLines, List.cons_append, List.cons_append, ← later, blocks_context,
        alignBlocks_cons, alignBlock_context files _ (by omega) (by omega)]
      rfl
  | case3 old new line rest deleted inserted inductionHypothesis =>
      have oldLength := length_oldTexts (.delete line :: rest)
      have newLength := length_newTexts (.delete line :: rest)
      simp only [deleted, inserted] at inductionHypothesis ⊢
      rw [alignBlocks_behindRuns files _ ends old new (.inl (by simp [deletedRun]))
          (by omega) (by omega),
        inductionHypothesis (by omega) (by omega), ← List.append_assoc, oldLength, newLength,
        Nat.add_assoc, Nat.add_assoc]
  | case4 old new line rest inserted inductionHypothesis =>
      have oldLength := length_oldTexts (.insert line :: rest)
      have newLength := length_newTexts (.insert line :: rest)
      have shown := alignBlocks_behindRuns files (.insert line :: rest) ends old new
        (.inr (by simp [insertedBehind, deletedRun, insertedRun])) (by omega) (by omega)
      simp only [inserted, deletedRun, List.length_nil, Nat.add_zero, Nat.zero_add]
        at inductionHypothesis oldLength shown ⊢
      rw [shown, inductionHypothesis (by omega) (by omega), ← List.append_assoc, oldLength,
        newLength, Nat.add_assoc]

structure Remaining (files : Files) (position : Position) (old new : List Text) : Prop where
  within : position.Within files
  old_eq : files.old.drop (position.old - 1) = old
  new_eq : files.new.drop (position.new - 1) = new

theorem Remaining.lengths {files : Files} {position : Position} {old new : List Text}
    (remaining : Remaining files position old new) :
    position.old + old.length = files.old.length + 1 ∧
      position.new + new.length = files.new.length + 1 := by
  obtain ⟨within, rfl, rfl⟩ := remaining
  have := within.old_counted
  have := within.new_counted
  have := within.old_bounded
  have := within.new_bounded
  simp only [List.length_drop]
  omega

theorem Remaining.pass {files : Files} {position : Position}
    {oldFront newFront old new : List Text}
    (remaining : Remaining files position (oldFront ++ old) (newFront ++ new)) :
    Remaining files
      { old := position.old + oldFront.length, new := position.new + newFront.length }
      old new := by
  obtain ⟨oldLength, newLength⟩ := remaining.lengths
  obtain ⟨within, oldLeft, newLeft⟩ := remaining
  have oldCounted := within.old_counted
  have newCounted := within.new_counted
  simp only [List.length_append] at oldLength newLength
  refine ⟨⟨by simp only; omega, by simp only; omega, by simp only; omega, by simp only; omega⟩,
    ?_, ?_⟩
  · have shifted : position.old + oldFront.length - 1 = position.old - 1 + oldFront.length := by
      omega
    simp only
    rw [shifted, ← List.drop_drop, oldLeft, List.drop_left]
  · have shifted : position.new + newFront.length - 1 = position.new - 1 + newFront.length := by
      omega
    simp only
    rw [shifted, ← List.drop_drop, newLeft, List.drop_left]

theorem fill_gap {files : Files} {position : Position} {gap old new : List Text}
    (remaining : Remaining files position (gap ++ old) (gap ++ new)) :
    fill files position
        { old := position.old + gap.length, new := position.new + gap.length } =
      ({ old := position.old + gap.length, new := position.new + gap.length },
        contextRows position.old position.new gap) := by
  obtain ⟨oldLength, newLength⟩ := remaining.lengths
  simp only [List.length_append] at oldLength newLength
  have oldLines : linesBetween files.old position.old (position.old + gap.length) =
      gap.zipIdx position.old := by
    rw [linesBetween, remaining.old_eq, Nat.add_sub_cancel_left, List.take_left]
  have newLines : linesBetween files.new position.new (position.new + gap.length) =
      gap.zipIdx position.new := by
    rw [linesBetween, remaining.new_eq, Nat.add_sub_cancel_left, List.take_left]
  have oldReached : filledTo files.old position.old (position.old + gap.length) =
      position.old + gap.length := by
    unfold filledTo
    omega
  have newReached : filledTo files.new position.new (position.new + gap.length) =
      position.new + gap.length := by
    unfold filledTo
    omega
  simp only [fill, oldLines, newLines, oldReached, newReached, zipSides_contextSides]

/-- The target of a range is its first line, also when it has none. -/
theorem rangeTarget_rangeStart {first : Nat} (length : Nat) (counted : 1 ≤ first) :
    rangeTarget (Patch.rangeStart first length) length = first := by
  unfold rangeTarget Patch.rangeStart
  split
  · exact Nat.sub_add_cancel counted
  · rfl

theorem endsHunk_hunkLines (old new : Nat) (hunks : List Hunk) :
    EndsHunk (Patch.hunkLines old new hunks) := by
  cases hunks with
  | nil => exact .inl rfl
  | cons hunk rest => exact .inr rfl

/-- The header of a hunk shows the shared lines in front of the hunk. -/
theorem alignBlock_header {files : Files} (fit : files.Fit) {position : Position}
    {gap old new : List Text}
    (remaining : Remaining files position (gap ++ old) (gap ++ new)) (hunk : Hunk)
    (oldFits : (Patch.oldTexts hunk.edits).length ≤ old.length)
    (newFits : (Patch.newTexts hunk.edits).length ≤ new.length) :
    alignBlock files position (.hunk
        ((hunk.header (position.old + gap.length) (position.new + gap.length)).render
          hunk.brief hunk.heading.val)) =
      ({ old := position.old + gap.length, new := position.new + gap.length },
        contextRows position.old position.new gap) := by
  obtain ⟨oldLength, newLength⟩ := remaining.lengths
  simp only [List.length_append] at oldLength newLength
  have oldCounted := remaining.within.old_counted
  have newCounted := remaining.within.new_counted
  have oldLimit := fit.old
  have newLimit := fit.new
  have oldStart := Patch.rangeStart_le (position.old + gap.length)
    (Patch.oldTexts hunk.edits).length
  have newStart := Patch.rangeStart_le (position.new + gap.length)
    (Patch.newTexts hunk.edits).length
  have fits :
      (hunk.header (position.old + gap.length) (position.new + gap.length)).Fits := by
    constructor <;> simp only [Hunk.header] <;> omega
  simp only [alignBlock, Patch.Header.parse?_render hunk.brief fits]
  simp only [Hunk.header]
  rw [rangeTarget_rangeStart _ (by omega), rangeTarget_rangeStart _ (by omega),
    fill_gap remaining]

theorem alignBlocks_hunkLines {files : Files} (fit : files.Fit) (hunks : List Hunk)
    {position : Position} {gap : List Text}
    (remaining : Remaining files position (gap ++ hunks.flatMap Hunk.oldSpan)
      (gap ++ hunks.flatMap Hunk.newSpan)) :
    alignBlocks files position
        (blocks (Patch.hunkLines (position.old + gap.length) (position.new + gap.length) hunks)) =
      contextRows position.old position.new gap ++
        hunkRows (position.old + gap.length) (position.new + gap.length) hunks := by
  induction hunks generalizing position gap with
  | nil =>
      obtain ⟨oldLength, newLength⟩ := remaining.lengths
      simp only [List.flatMap_nil, List.append_nil] at oldLength newLength
      have filled := fill_gap remaining
      rw [oldLength, newLength] at filled
      simp [Patch.hunkLines, blocks, alignBlocks, filled, hunkRows]
  | cons hunk rest inductionHypothesis =>
      simp only [List.flatMap_cons, Hunk.oldSpan, Hunk.newSpan, List.append_assoc] at remaining
      have shown := alignBlock_header fit remaining hunk (by simp) (by simp)
      have reached := remaining.pass
      obtain ⟨oldLength, newLength⟩ := reached.lengths
      simp only [List.length_append] at oldLength newLength
      have ends := endsHunk_hunkLines
        (position.old + gap.length + hunk.oldSpan.length)
        (position.new + gap.length + hunk.newSpan.length) rest
      have edits := alignBlocks_editLines files hunk.edits ends (position.old + gap.length)
        (position.new + gap.length) (by omega) (by omega)
      have later := inductionHypothesis reached.pass
      have oldSpan : position.old + gap.length + hunk.oldSpan.length =
          position.old + gap.length + (Patch.oldTexts hunk.edits).length +
            hunk.gapTexts.length := by
        simp [Hunk.oldSpan, Nat.add_assoc]
      have newSpan : position.new + gap.length + hunk.newSpan.length =
          position.new + gap.length + (Patch.newTexts hunk.edits).length +
            hunk.gapTexts.length := by
        simp [Hunk.newSpan, Nat.add_assoc]
      rw [Patch.hunkLines, List.cons_append, blocks_hunk, alignBlocks_cons, shown]
      simp only
      rw [edits, hunkRows, oldSpan, newSpan, later, List.append_assoc]

/-- An empty range of a script starts one line before the place where the file goes on. -/
theorem emptyRangesFit_hunkLines {old new : Nat} {hunks : List Hunk}
    (oldFits : old + (hunks.flatMap Hunk.oldSpan).length < Text.limit64)
    (newFits : new + (hunks.flatMap Hunk.newSpan).length < Text.limit64) :
    Patch.EachHunk (fun header _ => EmptyRangesFit header) (Patch.hunkLines old new hunks) := by
  refine Patch.eachHunk_hunkLines (fun hunk old new oldEnds newEnds => ?_) oldFits newFits
  have behind {first length : Nat} (ends : first + length < Text.limit64)
      (empty : length = 0) : Patch.rangeStart first length + 1 < Text.limit64 := by
    have positive : 1 < Text.limit64 := by decide
    rw [Patch.rangeStart, if_pos empty]
    omega
  exact ⟨behind oldEnds, behind newEnds⟩

/-- Aligning the files of a script along its patch shows shared lines and kept
lines side by side and every change as its deletions beside its insertions. -/
theorem align_patch {script : Script}
    (fit : Files.Fit { old := script.old, new := script.new }) :
    (Patch.parse? script.patch).bind (align? { old := script.old, new := script.new }) =
      some (scriptRows script) := by
  have remaining : Remaining { old := script.old, new := script.new } .start
      (script.gapTexts ++ script.hunks.flatMap Hunk.oldSpan)
      (script.gapTexts ++ script.hunks.flatMap Hunk.newSpan) :=
    ⟨Position.start_within _, rfl, rfl⟩
  have shown : align { old := script.old, new := script.new }
      (Patch.hunkLines (script.gap.length + 1) (script.gap.length + 1) script.hunks) =
        scriptRows script := by
    have rows := alignBlocks_hunkLines fit script.hunks remaining
    simpa [align, Position.start, Script.gapTexts, scriptRows, Nat.add_comm] using rows
  have oldEnds := fit.old
  have newEnds := fit.new
  simp only [Script.old, Script.new, Script.gapTexts, List.length_append, List.length_map]
    at oldEnds newEnds
  have ranges := @emptyRangesFit_hunkLines (script.gap.length + 1) (script.gap.length + 1)
    script.hunks (by omega) (by omega)
  rw [Patch.parse?_patch fit.old fit.new, Option.bind_some, ← shown]
  exact (align?_givesIf _ _).eq_some ⟨fit, ranges⟩

/-- A script without context: an insertion after the first shared line, and
after the second one a change whose deletions outnumber its insertions. -/
def sampleScript : Script where
  gap := [⟨['a'], by decide⟩]
  hunks :=
    [{ edits := [.insert ⟨['n'], by decide⟩], gap := [⟨['b'], by decide⟩],
       heading := ⟨[], by decide⟩, brief := true },
     { edits := [.delete ⟨['x'], by decide⟩, .delete ⟨[], by decide⟩, .insert ⟨['y'], by decide⟩],
       gap := [], heading := ⟨[' ', 'f'], by decide⟩, brief := false }]

theorem align_patch_sample :
    Files.Fit { old := sampleScript.old, new := sampleScript.new } ∧
      (Patch.parse? sampleScript.patch).bind
          (align? { old := sampleScript.old, new := sampleScript.new }) =
        some [contextRow 1 1 ['a'],
         { left := .empty, right := .ofLine .added 2 ['n'] },
         contextRow 2 3 ['b'],
         { left := .ofLine .deleted 3 ['x'], right := .ofLine .added 4 ['y'] },
         { left := .ofLine .deleted 4 [], right := .empty }] := by
  have fit : Files.Fit { old := sampleScript.old, new := sampleScript.new } :=
    ⟨by decide, by decide⟩
  refine ⟨fit, (align_patch fit).trans ?_⟩
  simp [sampleScript, scriptRows, Script.gapTexts, contextRows, hunkRows, editRows, deletedRun,
    insertedBehind, insertedRun, behindRuns, changeRows, runSide, Patch.oldTexts, Patch.newTexts,
    Hunk.gapTexts, Hunk.oldSpan, Hunk.newSpan, List.range_succ]

end ChangeCoverage.Alignment
