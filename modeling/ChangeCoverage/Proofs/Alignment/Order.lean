import ChangeCoverage.Proofs.Alignment.Coverage

/-!
Rows along any lines of a diff, wherever they come from.  Whatever numbers the lines
carry, the alignment looks up only lines that the files have, the numbers on either
side of its rows go up, and every row shows a line on at least one side.
-/

namespace ChangeCoverage.Alignment

open Patch (Header)

/-!
Aligning with every line of a file looked up by its number: an alignment that ends
without rows once a file has no line with the number.
-/

namespace ByNumber

def line? (fileLines : List Text) (number : Nat) : Option Text :=
  if number = 0 then none else fileLines[number - 1]?

/-- Some lines from a number on. -/
def lines? (fileLines : List Text) (next : Nat) : Nat → Option (List (Text × Nat))
  | 0 => some []
  | count + 1 =>
      (line? fileLines next).bind fun content =>
        (lines? fileLines (next + 1) count).map ((content, next) :: ·)

/-- The lines before a target that are not behind the end of the file. -/
def linesBefore? (fileLines : List Text) (next target : Nat) : Option (List (Text × Nat)) :=
  lines? fileLines next (min target (fileLines.length + 1) - next)

def fill? (files : Files) (position target : Position) : Option (Position × List Row) :=
  (linesBefore? files.old position.old target.old).bind fun old =>
    (linesBefore? files.new position.new target.new).map fun new =>
      ({ old := position.old + old.length, new := position.new + new.length },
        zipSides (contextSides old) (contextSides new))

def alignBlock? (files : Files) (position : Position) : Block → Option (Position × List Row)
  | .hunk line =>
      match Header.parse? line with
      | none => some (position, [])
      | some header =>
          fill? files position
            { old := rangeTarget header.oldStart header.oldLength,
              new := rangeTarget header.newStart header.newLength }
  | .context line =>
      match line.oldNumber, line.newNumber with
      | some old, some new =>
          if isAhead files.old position.old old && isAhead files.new position.new new then
            (fill? files position { old, new }).map fun filled =>
              let row : Row :=
                { left := .ofLine .context old line.content,
                  right := .ofLine .context new line.content }
              ({ old := old + 1, new := new + 1 }, filled.2 ++ [row])
          else some (position, [])
      | _, _ => some (position, [])
  | .change deleted added =>
      let target : Position :=
        { old := (deleted.head?.bind (·.oldNumber)).getD position.old,
          new := (added.head?.bind (·.newNumber)).getD position.new }
      (fill? files position target).map fun filled =>
        let lefts := changeSides files.old .deleted filled.1.old
          (deleted.map fun line => (line.oldNumber, line.content))
        let rights := changeSides files.new .added filled.1.new
          (added.map fun line => (line.newNumber, line.content))
        ({ old := lefts.1, new := rights.1 }, filled.2 ++ zipSides lefts.2 rights.2)

def alignBlocks? (files : Files) (position : Position) : List Block → Option (List Row)
  | [] =>
      (fill? files position
        { old := files.old.length + 1, new := files.new.length + 1 }).map (·.2)
  | block :: rest =>
      (alignBlock? files position block).bind fun aligned =>
        (alignBlocks? files aligned.1 rest).map (aligned.2 ++ ·)

def align? (files : Files) (diff : List Patch.Line) : Option (List Row) :=
  alignBlocks? files .start (blocks diff)

end ByNumber

section Lookup

variable {fileLines : List Text} {files : Files} {position : Position}

/-- Lines of the file are found one by one. -/
theorem ByNumber.lines?_eq_some {next count : Nat} (counted : 1 ≤ next)
    (inFile : next - 1 + count ≤ fileLines.length) :
    lines? fileLines next count =
      some (((fileLines.drop (next - 1)).take count).zipIdx next) := by
  induction count generalizing next with
  | zero => rfl
  | succ count inductionHypothesis =>
      have present : next - 1 < fileLines.length := by omega
      have found : line? fileLines next = some fileLines[next - 1] := by
        rw [line?, if_neg (by omega), List.getElem?_eq_getElem present]
      have onward : next + 1 - 1 = next - 1 + 1 := by omega
      have later := @inductionHypothesis (next + 1) (by omega) (by omega)
      rw [onward] at later
      rw [lines?, found, Option.bind_some, later, List.drop_eq_getElem_cons present,
        List.take_succ_cons, List.zipIdx_cons]
      rfl

/-- Filling up never looks for a line behind the end of the file. -/
theorem ByNumber.linesBefore?_eq {next : Nat} (counted : 1 ≤ next) (target : Nat) :
    linesBefore? fileLines next target = some (linesBetween fileLines next target) := by
  have same : (fileLines.drop (next - 1)).take (min target (fileLines.length + 1) - next) =
      (fileLines.drop (next - 1)).take (target - next) := by
    rw [List.take_eq_take_iff, List.length_drop]
    omega
  by_cases reached : min target (fileLines.length + 1) ≤ next
  · have nothing : min target (fileLines.length + 1) - next = 0 := by omega
    rw [linesBetween, ← same, linesBefore?, nothing]
    rfl
  · rw [linesBefore?, lines?_eq_some counted (by omega), same, linesBetween]

theorem ByNumber.fill?_eq (within : position.Within files) (target : Position) :
    fill? files position target = some (fill files position target) := by
  have length {fileLines : List Text} {next : Nat} (counted : 1 ≤ next) (target : Nat) :
      next + (linesBetween fileLines next target).length = filledTo fileLines next target := by
    simp only [linesBetween, List.length_zipIdx, List.length_take, List.length_drop, filledTo]
    omega
  rw [fill?, linesBefore?_eq within.old_counted, linesBefore?_eq within.new_counted,
    Option.bind_some, Option.map_some, length within.old_counted, length within.new_counted]
  rfl

theorem ByNumber.alignBlock?_eq (within : position.Within files) (block : Block) :
    alignBlock? files position block = some (alignBlock files position block) := by
  cases block with
  | hunk line =>
      rw [alignBlock?, alignBlock]
      cases Header.parse? line with
      | none => rfl
      | some header => exact fill?_eq within _
  | context line =>
      rw [alignBlock?, alignBlock]
      cases line.oldNumber with
      | none => rfl
      | some old =>
          cases line.newNumber with
          | none => rfl
          | some new =>
              dsimp only
              by_cases ahead : (isAhead files.old position.old old &&
                  isAhead files.new position.new new) = true
              · rw [if_pos ahead, if_pos ahead, fill?_eq within, Option.map_some]
              · rw [if_neg ahead, if_neg ahead]
  | change deleted added =>
      rw [alignBlock?, alignBlock]
      simp only [fill?_eq within, Option.map_some]

end Lookup

section Increasing

/-- Numbers that go up from a start and stay below a stop. -/
structure Increasing (start stop : Nat) (numbers : List Nat) : Prop where
  le : start ≤ stop
  sorted : numbers.Pairwise (· < ·)
  bounded : ∀ number ∈ numbers, start ≤ number ∧ number < stop

variable {start middle stop : Nat}

theorem Increasing.nil (le : start ≤ stop) : Increasing start stop [] :=
  ⟨le, .nil, fun _ membership => absurd membership List.not_mem_nil⟩

theorem Increasing.append {first second : List Nat} (before : Increasing start middle first)
    (after : Increasing middle stop second) : Increasing start stop (first ++ second) where
  le := Nat.le_trans before.le after.le
  sorted := by
    apply List.pairwise_append.mpr
    refine ⟨before.sorted, after.sorted, ?_⟩
    intro early inFirst late inSecond
    exact Nat.lt_of_lt_of_le (before.bounded early inFirst).2 (after.bounded late inSecond).1
  bounded := by
    intro number membership
    rcases List.mem_append.mp membership with early | late
    · obtain ⟨reached, below⟩ := before.bounded number early
      exact ⟨reached, Nat.lt_of_lt_of_le below after.le⟩
    · obtain ⟨reached, below⟩ := after.bounded number late
      exact ⟨Nat.le_trans before.le reached, below⟩

theorem Increasing.cons {number : Nat} {later : List Nat} (reached : start ≤ number)
    (after : Increasing (number + 1) stop later) : Increasing start stop (number :: later) := by
  have alone : Increasing start (number + 1) [number] := by
    refine ⟨Nat.le_succ_of_le reached, List.pairwise_singleton _ _, ?_⟩
    intro other membership
    rw [List.mem_singleton.mp membership]
    exact ⟨reached, Nat.lt_succ_self number⟩
  exact alone.append after

theorem increasing_numbersBetween (le : start ≤ stop) :
    Increasing start stop (numbersBetween start stop) := by
  refine ⟨le, List.pairwise_lt_range', ?_⟩
  intro number membership
  rw [numbersBetween, List.mem_range'_1] at membership
  omega

/-- Whatever numbers a run of changed lines carries, those that are shown go up. -/
theorem increasing_changeSides (fileLines : List Text) (kind : SideKind) (next : Nat)
    (run : List (Option Nat × Text)) :
    Increasing next (changeSides fileLines kind next run).1
        (sideNumbers (changeSides fileLines kind next run).2) ∧
      (next ≤ fileLines.length + 1 →
        (changeSides fileLines kind next run).1 ≤ fileLines.length + 1) := by
  induction run generalizing next with
  | nil => exact ⟨.nil (Nat.le_refl next), id⟩
  | cons line rest inductionHypothesis =>
      obtain ⟨_ | number, content⟩ := line
      · exact inductionHypothesis next
      · rw [changeSides]
        by_cases ahead : isAhead fileLines next number = true
        · rw [if_pos ahead]
          obtain ⟨reached, inFile⟩ := isAhead_iff.mp ahead
          obtain ⟨later, bounded⟩ := inductionHypothesis (number + 1)
          exact ⟨later.cons reached, fun _ => bounded (Nat.succ_le_succ inFile)⟩
        · rw [if_neg ahead]
          exact inductionHypothesis next

/-- The numbers on either side of some rows go up from one position to another. -/
structure Rises (start stop : Position) (rows : List Row) : Prop where
  left : Increasing start.old stop.old (leftNumbers rows)
  right : Increasing start.new stop.new (rightNumbers rows)

theorem Shows.rises {start stop : Position} {rows : List Row} (shows : Shows start stop rows) :
    Rises start stop rows where
  left := shows.left ▸ increasing_numbersBetween shows.old_le
  right := shows.right ▸ increasing_numbersBetween shows.new_le

theorem Rises.append {start middle stop : Position} {first second : List Row}
    (before : Rises start middle first) (after : Rises middle stop second) :
    Rises start stop (first ++ second) where
  left := leftNumbers_append first second ▸ before.left.append after.left
  right := rightNumbers_append first second ▸ before.right.append after.right

theorem alignBlock_rises {files : Files} {position : Position} (within : position.Within files)
    (block : Block) :
    Rises position (alignBlock files position block).1 (alignBlock files position block).2 ∧
      (alignBlock files position block).1.Within files := by
  cases block with
  | hunk line =>
      have gapless : (Block.hunk line).Gapless := trivial
      obtain ⟨shown, reached⟩ := alignBlock_shows within gapless
      exact ⟨shown.rises, reached⟩
  | context line =>
      have gapless : (Block.context line).Gapless := trivial
      obtain ⟨shown, reached⟩ := alignBlock_shows within gapless
      exact ⟨shown.rises, reached⟩
  | change deleted added =>
      rw [alignBlock]
      dsimp only
      generalize targetEq : Position.mk
        ((deleted.head?.bind (·.oldNumber)).getD position.old)
        ((added.head?.bind (·.newNumber)).getD position.new) = target
      have filled := (fill_shows within target).rises
      have filledWithin := fill_within within target
      obtain ⟨old, oldBounded⟩ := increasing_changeSides files.old .deleted
        (fill files position target).1.old (deleted.map fun line => (line.oldNumber, line.content))
      obtain ⟨new, newBounded⟩ := increasing_changeSides files.new .added
        (fill files position target).1.new (added.map fun line => (line.newNumber, line.content))
      constructor
      · apply filled.append
        constructor
        · rw [leftNumbers_zipSides]
          exact old
        · rw [rightNumbers_zipSides]
          exact new
      · exact ⟨Nat.le_trans filledWithin.old_counted old.le,
          Nat.le_trans filledWithin.new_counted new.le,
          oldBounded filledWithin.old_bounded, newBounded filledWithin.new_bounded⟩

end Increasing

section Sides

/-- A side that shows a line: it has a number and is no placeholder. -/
structure Side.ShowsLine (side : Side) : Prop where
  number_ne : side.number ≠ none
  kind_ne : side.kind ≠ .placeholder

/-- A side has no number just if it is a placeholder, which is empty. -/
structure Side.WellFormed (side : Side) : Prop where
  number_iff : side.number = none ↔ side.kind = .placeholder
  content_eq : side.kind = .placeholder → side.content = []

/-- A row of well-formed sides, of which one is no placeholder. -/
structure Row.WellFormed (row : Row) : Prop where
  left : row.left.WellFormed
  right : row.right.WellFormed
  shown : ¬(row.left.kind = .placeholder ∧ row.right.kind = .placeholder)

theorem Side.showsLine_ofLine {kind : SideKind} (isKind : kind ≠ .placeholder) (number : Nat)
    (content : Text) : (Side.ofLine kind number content).ShowsLine where
  number_ne := Option.some_ne_none number
  kind_ne := isKind

theorem Side.ShowsLine.wellFormed {side : Side} (showsLine : side.ShowsLine) :
    side.WellFormed where
  number_iff := iff_of_false showsLine.number_ne showsLine.kind_ne
  content_eq isPlaceholder := absurd isPlaceholder showsLine.kind_ne

theorem Side.wellFormed_empty : Side.empty.WellFormed :=
  ⟨iff_of_true rfl rfl, fun _ => rfl⟩

theorem Side.wellFormed_getD {side : Option Side} (shown : ∀ line ∈ side, line.ShowsLine) :
    (side.getD .empty).WellFormed := by
  cases side with
  | none => exact wellFormed_empty
  | some line => exact (shown line rfl).wellFormed

/-- Whether each of some sides that is there shows a line. -/
def ShowLines (sides : List (Option Side)) : Prop :=
  ∀ side ∈ sides, ∀ line ∈ side, line.ShowsLine

theorem showLines_cons {side : Option Side} {rest : List (Option Side)} :
    ShowLines (side :: rest) ↔ (∀ line ∈ side, line.ShowsLine) ∧ ShowLines rest :=
  List.forall_mem_cons

theorem Row.wellFormed_ofSides? {left right : Option Side} {row : Row}
    (leftShown : ∀ line ∈ left, line.ShowsLine) (rightShown : ∀ line ∈ right, line.ShowsLine)
    (made : row ∈ Row.ofSides? left right) : row.WellFormed := by
  have leftWellFormed := Side.wellFormed_getD leftShown
  have rightWellFormed := Side.wellFormed_getD rightShown
  cases left with
  | some line =>
      cases made
      exact ⟨leftWellFormed, rightWellFormed, fun both => (leftShown line rfl).kind_ne both.1⟩
  | none =>
      cases right with
      | none => cases made
      | some line =>
          cases made
          exact ⟨leftWellFormed, rightWellFormed, fun both => (rightShown line rfl).kind_ne both.2⟩

theorem wellFormed_of_mem_zipSides {lefts rights : List (Option Side)} (leftShown : ShowLines lefts)
    (rightShown : ShowLines rights) {row : Row} (membership : row ∈ zipSides lefts rights) :
    row.WellFormed := by
  induction lefts generalizing rights with
  | nil =>
      obtain ⟨right, inRights, made⟩ := List.mem_filterMap.mp membership
      exact Row.wellFormed_ofSides? (fun line isLeft => absurd isLeft (Option.not_mem_none line))
        (rightShown right inRights) made
  | cons left rest inductionHypothesis =>
      obtain ⟨leftHere, leftLater⟩ := showLines_cons.mp leftShown
      rcases List.mem_append.mp membership with here | later
      · refine Row.wellFormed_ofSides? leftHere ?_ (Option.mem_toList.mp here)
        intro line isRight
        have isHead : rights.head? = some (some line) := Option.join_eq_some_iff.mp isRight
        exact rightShown _ (List.mem_of_head? isHead) line rfl
      · refine inductionHypothesis leftLater ?_ later
        intro right inTail
        exact rightShown right (List.mem_of_mem_tail inTail)

theorem showLines_contextSides (numbered : List (Text × Nat)) :
    ShowLines (contextSides numbered) := by
  intro side membership line isLine
  obtain ⟨⟨content, number⟩, -, rfl⟩ := List.mem_map.mp membership
  cases isLine
  have isKind : SideKind.context ≠ .placeholder := by decide
  exact Side.showsLine_ofLine isKind number content

theorem showLines_changeSides (fileLines : List Text) {kind : SideKind}
    (isKind : kind ≠ .placeholder) (next : Nat) (run : List (Option Nat × Text)) :
    ShowLines (changeSides fileLines kind next run).2 := by
  have nothing {sides : List (Option Side)} (later : ShowLines sides) :
      ShowLines (none :: sides) :=
    showLines_cons.mpr ⟨fun line isLine => absurd isLine (Option.not_mem_none line), later⟩
  induction run generalizing next with
  | nil => exact fun side membership => absurd membership List.not_mem_nil
  | cons line rest inductionHypothesis =>
      obtain ⟨_ | number, content⟩ := line
      · exact nothing (inductionHypothesis next)
      · rw [changeSides]
        split
        · apply showLines_cons.mpr
          refine ⟨?_, inductionHypothesis (number + 1)⟩
          intro shown isShown
          cases isShown
          exact Side.showsLine_ofLine isKind _ _
        · exact nothing (inductionHypothesis next)

theorem wellFormed_of_mem_fill {files : Files} {position target : Position} {row : Row}
    (membership : row ∈ (fill files position target).2) : row.WellFormed :=
  wellFormed_of_mem_zipSides (showLines_contextSides _) (showLines_contextSides _) membership

theorem wellFormed_of_mem_alignBlock {files : Files} {position : Position} {block : Block}
    {row : Row} (membership : row ∈ (alignBlock files position block).2) : row.WellFormed := by
  cases block with
  | hunk line =>
      rw [alignBlock] at membership
      split at membership
      · exact absurd membership List.not_mem_nil
      · exact wellFormed_of_mem_fill membership
  | context line =>
      rw [alignBlock] at membership
      split at membership
      · split at membership
        · rcases List.mem_append.mp membership with filled | here
          · exact wellFormed_of_mem_fill filled
          · rw [List.mem_singleton.mp here]
            have shown (number : Nat) : (Side.ofLine .context number line.content).ShowsLine :=
              Side.showsLine_ofLine (by decide) number line.content
            exact ⟨(shown _).wellFormed, (shown _).wellFormed,
              fun both => (shown _).kind_ne both.1⟩
        · exact absurd membership List.not_mem_nil
      · exact absurd membership List.not_mem_nil
  | change deleted added =>
      rw [alignBlock] at membership
      rcases List.mem_append.mp membership with filled | changed
      · exact wellFormed_of_mem_fill filled
      · exact wellFormed_of_mem_zipSides (showLines_changeSides _ (by decide) _ _)
          (showLines_changeSides _ (by decide) _ _) changed

end Sides

section Blocks

variable {files : Files} {position : Position}

theorem ByNumber.alignBlocks?_eq (within : position.Within files) (diff : List Block) :
    alignBlocks? files position diff = some (alignBlocks files position diff) := by
  induction diff generalizing position with
  | nil =>
      rw [alignBlocks?, fill?_eq within]
      rfl
  | cons block rest inductionHypothesis =>
      obtain ⟨-, reached⟩ := alignBlock_rises within block
      rw [alignBlocks?, alignBlock?_eq within, Option.bind_some, inductionHypothesis reached]
      rfl

theorem alignBlocks_rises (within : position.Within files) (diff : List Block) :
    Rises position (.finish files) (alignBlocks files position diff) := by
  induction diff generalizing position with
  | nil =>
      have gapless : ∀ block ∈ ([] : List Block), block.Gapless :=
        fun block membership => absurd membership List.not_mem_nil
      exact (alignBlocks_shows within gapless).rises
  | cons block rest inductionHypothesis =>
      obtain ⟨rises, reached⟩ := alignBlock_rises within block
      exact rises.append (inductionHypothesis reached)

theorem wellFormed_of_mem_alignBlocks {diff : List Block} {row : Row}
    (membership : row ∈ alignBlocks files position diff) : row.WellFormed := by
  induction diff generalizing position with
  | nil => exact wellFormed_of_mem_fill membership
  | cons block rest inductionHypothesis =>
      rw [alignBlocks_cons] at membership
      rcases List.mem_append.mp membership with here | later
      · exact wellFormed_of_mem_alignBlock here
      · exact inductionHypothesis later

/-- Along any lines of a diff there are rows, unless an empty range or a file ends at the
greatest line number.  The alignment finds each line that it looks for in a file, the
numbers on either side of its rows go up within the file, and its rows are well-formed. -/
theorem align_of_any_diff (files : Files) (diff : List Patch.Line) :
    ∃ rows, GivesIf
        (files.Fit ∧ Patch.EachHunk (fun header _ => EmptyRangesFit header) diff) rows
        (align? files diff) ∧
      ByNumber.align? files diff = some rows ∧
      (leftNumbers rows).Pairwise (· < ·) ∧
      (∀ number ∈ leftNumbers rows, 1 ≤ number ∧ number ≤ files.old.length) ∧
      (rightNumbers rows).Pairwise (· < ·) ∧
      (∀ number ∈ rightNumbers rows, 1 ≤ number ∧ number ≤ files.new.length) ∧
      ∀ row ∈ rows, row.WellFormed := by
  have within := Position.start_within files
  obtain ⟨left, right⟩ := alignBlocks_rises within (blocks diff)
  refine ⟨align files diff, align?_givesIf files diff, ByNumber.alignBlocks?_eq within _,
    left.sorted, ?_, right.sorted, ?_, ?_⟩
  · intro number membership
    obtain ⟨counted, below⟩ := left.bounded number membership
    exact ⟨counted, Nat.le_of_lt_succ below⟩
  · intro number membership
    obtain ⟨counted, below⟩ := right.bounded number membership
    exact ⟨counted, Nat.le_of_lt_succ below⟩
  · intro row membership
    exact wellFormed_of_mem_alignBlocks membership

/-- A line that is deleted twice, and one beyond the files. -/
example : align? { old := [['a'], ['b']], new := [['c']] }
      [.deleted 2 ['b'], .deleted 2 ['b'], .context 7 9 ['x']] =
    some [{ left := .ofLine .context 1 ['a'], right := .empty },
     { left := .ofLine .deleted 2 ['b'], right := .empty },
     { left := .empty, right := .ofLine .context 1 ['c'] }] := by decide

end Blocks

end ChangeCoverage.Alignment
