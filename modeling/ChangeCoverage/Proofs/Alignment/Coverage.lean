import ChangeCoverage.Proofs.Alignment.Counting

/-!
Rows cover both files.  Whatever a patch says, each step of the alignment shows
the lines between the position before it and the position after it, so that
the rows for a whole patch show every line of both files once and in order.
-/

namespace ChangeCoverage.Alignment

def sideNumbers (sides : List (Option Side)) : List Nat :=
  sides.filterMap fun side => side.bind (·.number)

/-- The line numbers on the left of some rows, placeholders skipped. -/
def leftNumbers (rows : List Row) : List Nat :=
  rows.filterMap (·.left.number)

/-- The line numbers on the right of some rows, placeholders skipped. -/
def rightNumbers (rows : List Row) : List Nat :=
  rows.filterMap (·.right.number)

@[simp]
theorem leftNumbers_append (first second : List Row) :
    leftNumbers (first ++ second) = leftNumbers first ++ leftNumbers second :=
  List.filterMap_append

@[simp]
theorem rightNumbers_append (first second : List Row) :
    rightNumbers (first ++ second) = rightNumbers first ++ rightNumbers second :=
  List.filterMap_append

@[simp]
theorem sideNumbers_nil : sideNumbers [] = [] := rfl

@[simp]
theorem sideNumbers_cons (side : Option Side) (rest : List (Option Side)) :
    sideNumbers (side :: rest) = (side.bind (·.number)).toList ++ sideNumbers rest := by
  cases shown : side.bind (·.number) <;> simp [sideNumbers, shown]

theorem leftNumbers_ofSides? (left right : Option Side) :
    leftNumbers (Row.ofSides? left right).toList = (left.bind (·.number)).toList := by
  rcases left with _ | ⟨_ | _, _, _⟩ <;> rcases right with _ | right <;> rfl

theorem rightNumbers_ofSides? (left right : Option Side) :
    rightNumbers (Row.ofSides? left right).toList = (right.bind (·.number)).toList := by
  rcases left with _ | left <;> rcases right with _ | ⟨_ | _, _, _⟩ <;> rfl

theorem zipSides_nil_cons (right : Option Side) (rest : List (Option Side)) :
    zipSides [] (right :: rest) = (Row.ofSides? none right).toList ++ zipSides [] rest := by
  cases row : Row.ofSides? none right <;> simp [zipSides, row]

@[simp]
theorem leftNumbers_zipSides (lefts rights : List (Option Side)) :
    leftNumbers (zipSides lefts rights) = sideNumbers lefts := by
  induction lefts generalizing rights with
  | nil =>
      induction rights with
      | nil => rfl
      | cons right rest inductionHypothesis =>
          rw [zipSides_nil_cons, leftNumbers_append, leftNumbers_ofSides?, inductionHypothesis]
          rfl
  | cons left rest inductionHypothesis =>
      rw [zipSides, leftNumbers_append, leftNumbers_ofSides?, inductionHypothesis,
        sideNumbers_cons]

@[simp]
theorem rightNumbers_zipSides (lefts rights : List (Option Side)) :
    rightNumbers (zipSides lefts rights) = sideNumbers rights := by
  induction lefts generalizing rights with
  | nil =>
      induction rights with
      | nil => rfl
      | cons right rest inductionHypothesis =>
          rw [zipSides_nil_cons, rightNumbers_append, rightNumbers_ofSides?,
            inductionHypothesis, sideNumbers_cons]
  | cons left rest inductionHypothesis =>
      rw [zipSides, rightNumbers_append, rightNumbers_ofSides?, inductionHypothesis]
      cases rights with
      | nil => rfl
      | cons right later => rw [sideNumbers_cons]; rfl

def numbersBetween (start stop : Nat) : List Nat :=
  List.range' start (stop - start)

theorem numbersBetween_append {start middle stop : Nat} (first : start ≤ middle)
    (second : middle ≤ stop) :
    numbersBetween start middle ++ numbersBetween middle stop = numbersBetween start stop := by
  have joined :
      List.range' start (middle - start) ++
          List.range' (start + 1 * (middle - start)) (stop - middle) =
        List.range' start (middle - start + (stop - middle)) := List.range'_append
  have reached : start + 1 * (middle - start) = middle := by omega
  have total : middle - start + (stop - middle) = stop - start := by omega
  rw [reached, total] at joined
  exact joined

@[simp]
theorem numbersBetween_self (number : Nat) : numbersBetween number number = [] := by
  simp [numbersBetween]

theorem numbersBetween_succ (number : Nat) : numbersBetween number (number + 1) = [number] := by
  simp [numbersBetween]

theorem sideNumbers_contextSides (numbered : List (Text × Nat)) :
    sideNumbers (contextSides numbered) = numbered.map (·.2) := by
  induction numbered with
  | nil => rfl
  | cons line rest inductionHypothesis =>
      exact congrArg (line.2 :: ·) inductionHypothesis

theorem sideNumbers_linesBetween (fileLines : List Text) {start : Nat} (stop : Nat)
    (counted : 1 ≤ start) :
    sideNumbers (contextSides (linesBetween fileLines start stop)) =
      numbersBetween start (filledTo fileLines start stop) := by
  rw [sideNumbers_contextSides, linesBetween, List.zipIdx_map_snd]
  unfold numbersBetween filledTo
  congr 1
  simp only [List.length_take, List.length_drop]
  omega

/-- A position inside the files or just behind their last lines. -/
structure Position.Within (files : Files) (position : Position) : Prop where
  old_counted : 1 ≤ position.old
  new_counted : 1 ≤ position.new
  old_bounded : position.old ≤ files.old.length + 1
  new_bounded : position.new ≤ files.new.length + 1

/-- The rows show exactly the lines between two positions, in order. -/
structure Shows (start stop : Position) (rows : List Row) : Prop where
  old_le : start.old ≤ stop.old
  new_le : start.new ≤ stop.new
  left : leftNumbers rows = numbersBetween start.old stop.old
  right : rightNumbers rows = numbersBetween start.new stop.new

theorem Shows.nil (position : Position) : Shows position position [] :=
  ⟨Nat.le_refl _, Nat.le_refl _, by simp [leftNumbers], by simp [rightNumbers]⟩

theorem Shows.append {start middle stop : Position} {first second : List Row}
    (before : Shows start middle first) (after : Shows middle stop second) :
    Shows start stop (first ++ second) where
  old_le := Nat.le_trans before.old_le after.old_le
  new_le := Nat.le_trans before.new_le after.new_le
  left := by
    rw [leftNumbers_append, before.left, after.left,
      numbersBetween_append before.old_le after.old_le]
  right := by
    rw [rightNumbers_append, before.right, after.right,
      numbersBetween_append before.new_le after.new_le]

theorem Shows.zipSides {start stop : Position} {lefts rights : List (Option Side)}
    (old_le : start.old ≤ stop.old) (new_le : start.new ≤ stop.new)
    (left : sideNumbers lefts = numbersBetween start.old stop.old)
    (right : sideNumbers rights = numbersBetween start.new stop.new) :
    Shows start stop (zipSides lefts rights) :=
  ⟨old_le, new_le, by rw [leftNumbers_zipSides, left], by rw [rightNumbers_zipSides, right]⟩

theorem filledTo_bounded {fileLines : List Text} {next : Nat} (target : Nat)
    (bounded : next ≤ fileLines.length + 1) :
    filledTo fileLines next target ≤ fileLines.length + 1 := by
  unfold filledTo
  omega

variable {files : Files} {position : Position}

theorem fill_shows (within : position.Within files) (target : Position) :
    Shows position (fill files position target).1 (fill files position target).2 :=
  .zipSides (le_filledTo ..) (le_filledTo ..)
    (sideNumbers_linesBetween _ _ within.old_counted)
    (sideNumbers_linesBetween _ _ within.new_counted)

theorem fill_within (within : position.Within files) (target : Position) :
    (fill files position target).1.Within files where
  old_counted := Nat.le_trans within.old_counted (le_filledTo ..)
  new_counted := Nat.le_trans within.new_counted (le_filledTo ..)
  old_bounded := filledTo_bounded _ within.old_bounded
  new_bounded := filledTo_bounded _ within.new_bounded

structure RunShows (fileLines : List Text) (next : Nat)
    (result : Nat × List (Option Side)) : Prop where
  next_le : next ≤ result.1
  bounded : next ≤ fileLines.length + 1 → result.1 ≤ fileLines.length + 1
  numbers : sideNumbers result.2 = numbersBetween next result.1

/-- A run without gaps shows consecutive lines, provided that it starts no
later than the next line or that no line is left.  Once a line is passed over
the lines after it keep this up. -/
theorem changeSides_shows (fileLines : List Text) (kind : SideKind) (next number : Nat)
    {run : List (Option Nat × Text)} (counts : CountsFrom number (run.map (·.1)))
    (early : number ≤ next ∨ fileLines.length < next) :
    RunShows fileLines next (changeSides fileLines kind next run) := by
  induction run generalizing next number with
  | nil => exact ⟨Nat.le_refl _, id, by simp [changeSides]⟩
  | cons line rest inductionHypothesis =>
      obtain ⟨found, content⟩ := line
      simp only [List.map_cons, countsFrom_cons] at counts
      obtain ⟨rfl, laterCounts⟩ := counts
      simp only [changeSides]
      split
      next ahead =>
        obtain ⟨reached, inFile⟩ := isAhead_iff.mp ahead
        have same : number = next := by omega
        subst same
        have later := inductionHypothesis (number + 1) _ laterCounts (.inl (Nat.le_refl _))
        refine ⟨by have := later.next_le; simp only; omega, fun _ => later.bounded (by omega), ?_⟩
        have joined := numbersBetween_append (Nat.le_succ number) later.next_le
        rw [numbersBetween_succ] at joined
        simpa [Side.ofLine, later.numbers] using joined
      next behind =>
        rw [isAhead_iff] at behind
        have later := inductionHypothesis next _ laterCounts (by omega)
        exact ⟨later.next_le, later.bounded, by simpa using later.numbers⟩

/-- After filling up to its first number a run without gaps shows consecutive lines. -/
theorem filled_run_shows (fileLines : List Text) (kind : SideKind) (next : Nat)
    (number : Patch.Line → Option Nat) {first : Nat} {run : List Patch.Line}
    (counts : CountsFrom first (run.map number)) :
    let reached := filledTo fileLines next ((run.head?.bind number).getD next)
    RunShows fileLines reached
      (changeSides fileLines kind reached (run.map fun line => (number line, line.content))) := by
  intro reached
  cases run with
  | nil => exact changeSides_shows fileLines kind reached reached trivial (.inl (Nat.le_refl _))
  | cons line rest =>
      have found : number line = some first := counts.1
      apply changeSides_shows fileLines kind reached first
      · rw [List.map_map]
        exact counts
      · simp only [reached, filledTo, List.head?_cons, Option.bind_some, found, Option.getD_some]
        omega

/-- One block shows the lines between the positions before and after it. -/
theorem alignBlock_shows (within : position.Within files) {block : Block}
    (gapless : block.Gapless) :
    Shows position (alignBlock files position block).1 (alignBlock files position block).2 ∧
      (alignBlock files position block).1.Within files := by
  cases block with
  | hunk line =>
      simp only [alignBlock]
      split
      · exact ⟨.nil position, within⟩
      · exact ⟨fill_shows within _, fill_within within _⟩
  | context line =>
      simp only [alignBlock]
      split
      next old new _ _ =>
        split
        next ahead =>
          rw [Bool.and_eq_true, isAhead_iff, isAhead_iff] at ahead
          obtain ⟨⟨oldAhead, oldInFile⟩, newAhead, newInFile⟩ := ahead
          have filled := fill_shows within { old, new }
          have reached : (fill files position { old, new }).1 = { old, new } := by
            simp only [fill, filledTo, Position.mk.injEq]
            omega
          rw [reached] at filled
          have row : Shows { old, new } { old := old + 1, new := new + 1 }
              [{ left := .ofLine .context old line.content,
                 right := .ofLine .context new line.content }] := by
            refine ⟨Nat.le_succ old, Nat.le_succ new, ?_, ?_⟩
            · simp [leftNumbers, numbersBetween_succ, Side.ofLine]
            · simp [rightNumbers, numbersBetween_succ, Side.ofLine]
          refine ⟨filled.append row, ?_⟩
          · exact ⟨by simp, by simp, by simp only; omega, by simp only; omega⟩
        next => exact ⟨.nil position, within⟩
      next => exact ⟨.nil position, within⟩
  | change deleted added =>
      obtain ⟨oldFirst, newFirst, oldCounts, newCounts⟩ := gapless
      have filledWithin := fill_within within
        { old := (deleted.head?.bind (·.oldNumber)).getD position.old,
          new := (added.head?.bind (·.newNumber)).getD position.new }
      have old := filled_run_shows files.old .deleted position.old (·.oldNumber) oldCounts
      have new := filled_run_shows files.new .added position.new (·.newNumber) newCounts
      simp only [alignBlock]
      refine ⟨(fill_shows within _).append
        (.zipSides old.next_le new.next_le old.numbers new.numbers), ?_⟩
      exact ⟨Nat.le_trans filledWithin.old_counted old.next_le,
        Nat.le_trans filledWithin.new_counted new.next_le,
        old.bounded filledWithin.old_bounded, new.bounded filledWithin.new_bounded⟩

theorem alignBlocks_cons (files : Files) (position : Position) (block : Block)
    (rest : List Block) :
    alignBlocks files position (block :: rest) =
      (alignBlock files position block).2 ++
        alignBlocks files (alignBlock files position block).1 rest := rfl

def Position.finish (files : Files) : Position :=
  { old := files.old.length + 1, new := files.new.length + 1 }

/-- The rows from a position on show all lines from there on. -/
theorem alignBlocks_shows (within : position.Within files) {diff : List Block}
    (gapless : ∀ block ∈ diff, block.Gapless) :
    Shows position (.finish files) (alignBlocks files position diff) := by
  induction diff generalizing position with
  | nil =>
      have filled := fill_shows within (.finish files)
      have reached : (fill files position (.finish files)).1 = .finish files := by
        have := within.old_bounded
        have := within.new_bounded
        simp only [fill, filledTo, Position.finish, Position.mk.injEq]
        omega
      rw [reached] at filled
      exact filled
  | cons block rest inductionHypothesis =>
      obtain ⟨shown, reachedWithin⟩ := alignBlock_shows within (gapless block (by simp))
      exact shown.append (inductionHypothesis reachedWithin fun later membership =>
        gapless later (List.mem_cons_of_mem _ membership))

theorem Position.start_within (files : Files) : Position.start.Within files := by
  constructor <;> simp [Position.start]

/-- Along any patch, also one that has nothing to do with the files, the rows show
every line of each file once and in order.  There are rows just if all counters stay
in range. -/
theorem numbers_align_parse (files : Files) (patch : Text) :
    ∃ rows, GivesIf (CountersStay files (Patch.parse patch)) rows
        ((Patch.parse? patch).bind (align? files)) ∧
      leftNumbers rows = Text.lineNumbers files.old.length ∧
      rightNumbers rows = Text.lineNumbers files.new.length := by
  have read := readFrom_readLines none (Text.cleanLines patch)
  have shown := alignBlocks_shows (Position.start_within files) read.gapless
  exact ⟨align files (Patch.parse patch), align?_parse?_givesIf files patch, shown.left,
    shown.right⟩

end ChangeCoverage.Alignment
