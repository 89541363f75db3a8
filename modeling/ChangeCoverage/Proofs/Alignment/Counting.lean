import ChangeCoverage.Proofs.Alignment.Run

/-!
Positions without bound.  Along any diff they come to rows, and the alignment comes to
the same ones unless a line number takes more than 64 bits.  Inside the files none does:
only the line after an empty range can be beyond all numbers, and that is so for a range
that starts at the greatest of them.
-/

namespace ChangeCoverage.Alignment

open Patch (Header nextNumber? nextNumber?_eq nextNumber?_givesIf EachHunk CountersFit)

def linesBetween (fileLines : List Text) (start stop : Nat) : List (Text × Nat) :=
  ((fileLines.drop (start - 1)).take (stop - start)).zipIdx start

def filledTo (fileLines : List Text) (next target : Nat) : Nat :=
  max next (min target (fileLines.length + 1))

def fill (files : Files) (position target : Position) : Position × List Row :=
  ({ old := filledTo files.old position.old target.old,
     new := filledTo files.new position.new target.new },
   zipSides
    (contextSides (linesBetween files.old position.old target.old))
    (contextSides (linesBetween files.new position.new target.new)))

def changeSides (fileLines : List Text) (kind : SideKind) (next : Nat) :
    List (Option Nat × Text) → Nat × List (Option Side)
  | [] => (next, [])
  | (some number, content) :: rest =>
      if isAhead fileLines next number then
        let (reached, sides) := changeSides fileLines kind (number + 1) rest
        (reached, some (.ofLine kind number content) :: sides)
      else
        let (reached, sides) := changeSides fileLines kind next rest
        (reached, none :: sides)
  | (none, _) :: rest =>
      let (reached, sides) := changeSides fileLines kind next rest
      (reached, none :: sides)

def rangeTarget (start length : Nat) : Nat :=
  if length = 0 then start + 1 else start

def alignBlock (files : Files) (position : Position) : Block → Position × List Row
  | .hunk line =>
      match Header.parse? line with
      | none => (position, [])
      | some header =>
          fill files position
            { old := rangeTarget header.oldStart header.oldLength,
              new := rangeTarget header.newStart header.newLength }
  | .context line =>
      match line.oldNumber, line.newNumber with
      | some old, some new =>
          if isAhead files.old position.old old && isAhead files.new position.new new then
            let (_, filled) := fill files position { old, new }
            let row : Row :=
              { left := .ofLine .context old line.content,
                right := .ofLine .context new line.content }
            ({ old := old + 1, new := new + 1 }, filled ++ [row])
          else (position, [])
      | _, _ => (position, [])
  | .change deleted added =>
      let target : Position :=
        { old := (deleted.head?.bind (·.oldNumber)).getD position.old,
          new := (added.head?.bind (·.newNumber)).getD position.new }
      let (reached, filled) := fill files position target
      let (old, lefts) := changeSides files.old .deleted reached.old
        (deleted.map fun line => (line.oldNumber, line.content))
      let (new, rights) := changeSides files.new .added reached.new
        (added.map fun line => (line.newNumber, line.content))
      ({ old, new }, filled ++ zipSides lefts rights)

def alignBlocks (files : Files) (position : Position) : List Block → List Row
  | [] =>
      (fill files position { old := files.old.length + 1, new := files.new.length + 1 }).2
  | block :: rest =>
      let (reached, rows) := alignBlock files position block
      rows ++ alignBlocks files reached rest

/-- The rows that positions without bound come to along a diff. -/
def align (files : Files) (diff : List Patch.Line) : List Row :=
  alignBlocks files .start (blocks diff)

/-- Whether the line numbers of both files, and the ones behind their last
lines, are 64-bit words. -/
structure Files.Fit (files : Files) : Prop where
  old : files.old.length + 1 < Text.limit64
  new : files.new.length + 1 < Text.limit64

/-- There is a number for the line after the one that an empty range names. -/
def EmptyRangesFit (header : Header) : Prop :=
  (header.oldLength = 0 → header.oldStart + 1 < Text.limit64) ∧
    (header.newLength = 0 → header.newStart + 1 < Text.limit64)

def Block.RangesFit : Block → Prop
  | .hunk line => ∀ header ∈ Header.parse? line, EmptyRangesFit header
  | _ => True

/-- Positions count from one. -/
structure Position.Counted (position : Position) : Prop where
  old : 1 ≤ position.old
  new : 1 ≤ position.new

theorem le_filledTo (fileLines : List Text) (next target : Nat) :
    next ≤ filledTo fileLines next target :=
  Nat.le_max_left _ _

theorem isAhead_iff {fileLines : List Text} {next number : Nat} :
    isAhead fileLines next number = true ↔ next ≤ number ∧ number ≤ fileLines.length := by
  simp [isAhead]

theorem step?_eq_some (next : Nat) {lines : List Text}
    (fits : lines = [] ∨ next + lines.length < Text.limit64) :
    step? next lines = some (next + lines.length, lines.zipIdx next) := by
  induction lines generalizing next with
  | nil => rfl
  | cons content rest inductionHypothesis =>
      have room : next + (rest.length + 1) < Text.limit64 := by simpa using fits
      have onward := inductionHypothesis (next + 1) (.inr (by omega))
      rw [step?, nextNumber?_eq (by omega), Option.bind_some, onward, Option.map_some]
      simp [List.zipIdx_cons]
      omega

section Run

variable {fileLines : List Text}

/-- A walk through a file goes no further than to the line behind its last one. -/
theorem walk?_givesIf {next : Nat} (counted : 1 ≤ next) (target : Nat) :
    GivesIf (fileLines.length + 1 < Text.limit64)
      (filledTo fileLines next target, linesBetween fileLines next target)
      (walk? fileLines next target) := by
  have walked (fits : fileLines.length + 1 < Text.limit64) :
      step? next ((fileLines.drop (next - 1)).take (min target (fileLines.length + 1) - next)) =
        some (filledTo fileLines next target, linesBetween fileLines next target) := by
    have same : (fileLines.drop (next - 1)).take (min target (fileLines.length + 1) - next) =
        (fileLines.drop (next - 1)).take (target - next) := by
      rw [List.take_eq_take_iff, List.length_drop]
      omega
    have steps : ((fileLines.drop (next - 1)).take (target - next)).length =
        filledTo fileLines next target - next := by
      rw [List.length_take, List.length_drop, filledTo]
      omega
    have reached := le_filledTo fileLines next target
    rw [same, step?_eq_some, steps, Nat.add_sub_cancel' reached, linesBetween]
    rw [← List.length_eq_zero_iff, steps, filledTo]
    omega
  exact ((nextNumber?_givesIf _).bind fun fits => .of_eq (walked fits)).congr
    (Iff.of_eq (and_true _).symm)

theorem changeSides?_eq (fits : fileLines.length + 1 < Text.limit64) (kind : SideKind)
    (next : Nat) (run : List (Option Nat × Text)) :
    changeSides? fileLines kind next run = some (changeSides fileLines kind next run) := by
  induction run generalizing next with
  | nil => rfl
  | cons line rest inductionHypothesis =>
      obtain ⟨_ | number, content⟩ := line
      · simp [changeSides?, changeSides, inductionHypothesis]
      · by_cases ahead : isAhead fileLines next number = true
        · have inFile := (isAhead_iff.mp ahead).2
          have onward : nextNumber? number = some (number + 1) :=
            nextNumber?_eq (by omega)
          simp [changeSides?, changeSides, ahead, onward, inductionHypothesis]
        · simp [changeSides?, changeSides, ahead, inductionHypothesis]

theorem le_changeSides (kind : SideKind) (next : Nat) (run : List (Option Nat × Text)) :
    next ≤ (changeSides fileLines kind next run).1 := by
  induction run generalizing next with
  | nil => exact Nat.le_refl next
  | cons line rest inductionHypothesis =>
      obtain ⟨_ | number, content⟩ := line
      · exact inductionHypothesis next
      · rw [changeSides]
        split
        next ahead =>
          have reached := (isAhead_iff.mp ahead).1
          exact Nat.le_trans (by omega) (inductionHypothesis (number + 1))
        next => exact inductionHypothesis next

end Run

theorem rangeTarget?_givesIf (start length : Nat) :
    GivesIf (length = 0 → start + 1 < Text.limit64) (rangeTarget start length)
      (rangeTarget? start length) := by
  unfold rangeTarget rangeTarget?
  split
  next empty => exact (nextNumber?_givesIf start).congr (forall_prop_of_true empty)
  next filled => exact (GivesIf.always start).congr (by simp [filled])

section Position

variable {files : Files} {position : Position}

theorem Files.fit_iff (files : Files) :
    files.Fit ↔ files.old.length + 1 < Text.limit64 ∧ files.new.length + 1 < Text.limit64 :=
  ⟨fun fits => ⟨fits.old, fits.new⟩, fun fits => ⟨fits.1, fits.2⟩⟩

theorem fill_counted (counted : position.Counted) (target : Position) :
    (fill files position target).1.Counted :=
  ⟨Nat.le_trans counted.old (le_filledTo ..), Nat.le_trans counted.new (le_filledTo ..)⟩

theorem fill?_givesIf (counted : position.Counted) (target : Position) :
    GivesIf files.Fit (fill files position target) (fill? files position target) :=
  ((walk?_givesIf counted.old target.old).bind fun _ =>
    (walk?_givesIf counted.new target.new).map _).congr files.fit_iff

theorem alignBlock_counted (counted : position.Counted) (block : Block) :
    (alignBlock files position block).1.Counted := by
  cases block with
  | hunk line =>
      simp only [alignBlock]
      split
      next => exact counted
      next => exact fill_counted counted _
  | context line =>
      simp only [alignBlock]
      split
      next old new _ _ =>
        split
        next => exact ⟨Nat.le_add_left 1 old, Nat.le_add_left 1 new⟩
        next => exact counted
      next => exact counted
  | change deleted added =>
      exact ⟨Nat.le_trans (fill_counted counted _).old (le_changeSides ..),
        Nat.le_trans (fill_counted counted _).new (le_changeSides ..)⟩

/-- In files that fit, a block is aligned unless it starts behind all line numbers. -/
theorem alignBlock?_givesIf (fits : files.Fit) (counted : position.Counted) (block : Block) :
    GivesIf block.RangesFit (alignBlock files position block)
      (alignBlock? files position block) := by
  cases block with
  | hunk line =>
      simp only [alignBlock, alignBlock?]
      cases parsed : Header.parse? line with
      | none => exact (GivesIf.always _).congr (by simp [Block.RangesFit, parsed])
      | some header =>
          refine ((rangeTarget?_givesIf _ _).bind fun _ =>
            (rangeTarget?_givesIf _ _).bind fun _ => fill?_givesIf counted _).congr ?_
          simp [Block.RangesFit, parsed, EmptyRangesFit, fits]
  | context line =>
      simp only [alignBlock, alignBlock?]
      cases line.oldNumber with
      | none => exact .always _
      | some old =>
          cases line.newNumber with
          | none => exact .always _
          | some new =>
              simp only
              by_cases ahead : (isAhead files.old position.old old &&
                  isAhead files.new position.new new) = true
              · rw [if_pos ahead, if_pos ahead]
                rw [Bool.and_eq_true, isAhead_iff, isAhead_iff] at ahead
                have oldFits : old + 1 < Text.limit64 := by have := fits.old; omega
                have newFits : new + 1 < Text.limit64 := by have := fits.new; omega
                refine ((fill?_givesIf counted { old, new }).bind fun _ =>
                  (nextNumber?_givesIf old).bind fun _ =>
                    (nextNumber?_givesIf new).map fun _ => _).congr ?_
                simp [Block.RangesFit, fits, oldFits, newFits]
              · rw [if_neg ahead, if_neg ahead]
                exact .always _
  | change deleted added =>
      simp only [alignBlock, alignBlock?]
      refine ((fill?_givesIf counted _).bind fun _ =>
        (GivesIf.of_eq (changeSides?_eq fits.old _ _ _)).bind fun _ =>
          (GivesIf.of_eq (changeSides?_eq fits.new _ _ _)).map _).congr ?_
      simp [Block.RangesFit, fits]

theorem alignBlocks?_nil_givesIf (counted : position.Counted) :
    GivesIf files.Fit (alignBlocks files position []) (alignBlocks? files position []) := by
  refine ((nextNumber?_givesIf _).bind fun _ => (nextNumber?_givesIf _).bind fun _ =>
    (fill?_givesIf counted _).map _).congr ?_
  exact ⟨fun fits => ⟨fits.old, fits.new, fits⟩, fun given => given.2.2⟩

/-- The end of the files is gone over in any case. -/
theorem alignBlocks?_eq_none (unfit : ¬ files.Fit) (position : Position)
    (diff : List Block) : alignBlocks? files position diff = none := by
  induction diff generalizing position with
  | nil =>
      by_cases old : files.old.length + 1 < Text.limit64
      · have new : ¬ files.new.length + 1 < Text.limit64 := fun new => unfit ⟨old, new⟩
        simp [alignBlocks?, nextNumber?, new]
      · simp [alignBlocks?, nextNumber?, old]
  | cons block rest inductionHypothesis =>
      simp [alignBlocks?, inductionHypothesis]

theorem alignBlocks?_givesIf (counted : position.Counted) (diff : List Block) :
    GivesIf (files.Fit ∧ ∀ block ∈ diff, block.RangesFit) (alignBlocks files position diff)
      (alignBlocks? files position diff) := by
  by_cases fits : files.Fit
  · rw [and_iff_right fits]
    induction diff generalizing position with
    | nil => exact (alignBlocks?_nil_givesIf counted).congr (by simp [fits])
    | cons block rest inductionHypothesis =>
        exact ((alignBlock?_givesIf fits counted block).bind fun _ =>
          (inductionHypothesis (alignBlock_counted counted block)).map _).congr
            List.forall_mem_cons
  · intro rows
    simp [alignBlocks?_eq_none fits, fits]

end Position

theorem rangesFit_blocks_iff (diff : List Patch.Line) :
    (∀ block ∈ blocks diff, block.RangesFit) ↔
      EachHunk (fun header _ => EmptyRangesFit header) diff := by
  induction diff with
  | nil => simp [blocks, EachHunk]
  | cons line rest inductionHypothesis =>
      rw [EachHunk, ← inductionHypothesis]
      cases isKind : line.kind with
      | hunk => simp [blocks, isKind, Block.RangesFit]
      | context => simp [blocks, isKind, Block.RangesFit]
      | deleted =>
          rcases blocks_deleted line isKind rest with
            ⟨deleted, added, later, found, extended⟩ | ⟨-, separate⟩
          · simp [found, extended, Block.RangesFit]
          · simp [separate, Block.RangesFit]
      | added =>
          rcases blocks_added line isKind rest with
            ⟨added, later, found, extended⟩ | ⟨-, separate⟩
          · simp [found, extended, Block.RangesFit]
          · simp [separate, Block.RangesFit]

theorem align?_givesIf (files : Files) (diff : List Patch.Line) :
    GivesIf (files.Fit ∧ EachHunk (fun header _ => EmptyRangesFit header) diff)
      (align files diff) (align? files diff) := by
  rw [← rangesFit_blocks_iff]
  exact alignBlocks?_givesIf ⟨Nat.le_refl 1, Nat.le_refl 1⟩ (blocks diff)

/-- No counter leaves the 64-bit numbers: neither on the lines of a diff, nor in the files,
nor behind an empty range. -/
structure CountersStay (files : Files) (diff : List Patch.Line) : Prop where
  linesFit : CountersFit diff
  filesFit : files.Fit
  rangesFit : EachHunk (fun header _ => EmptyRangesFit header) diff

theorem countersStay_iff {files : Files} {diff : List Patch.Line} :
    CountersStay files diff ↔ CountersFit diff ∧ files.Fit ∧
      EachHunk (fun header _ => EmptyRangesFit header) diff :=
  ⟨fun stay => ⟨stay.linesFit, stay.filesFit, stay.rangesFit⟩,
    fun stay => ⟨stay.1, stay.2.1, stay.2.2⟩⟩

/-- A patch is read and the files are aligned along it just if all counters stay in range. -/
theorem align?_parse?_givesIf (files : Files) (patch : Text) :
    GivesIf (CountersStay files (Patch.parse patch)) (align files (Patch.parse patch))
      ((Patch.parse? patch).bind (align? files)) :=
  ((Patch.parse?_givesIf_countersFit patch).bind fun _ =>
    align?_givesIf files (Patch.parse patch)).congr countersStay_iff

end ChangeCoverage.Alignment
