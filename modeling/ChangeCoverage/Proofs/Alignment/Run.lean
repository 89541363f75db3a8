import ChangeCoverage.Alignment.Build
import ChangeCoverage.Proofs.Patch.Counting

/-!
Runs of a parsed diff.  The parser numbers the deleted lines of a change one
after the other, and its added lines likewise, so a run has no gap that could
make the alignment skip a line of a file.
-/

namespace ChangeCoverage.Alignment

open Patch (Cursor Header readLine readLines)

def CountsFrom (number : Nat) : List (Option Nat) → Prop
  | [] => True
  | found :: rest => found = some number ∧ CountsFrom (number + 1) rest

@[simp]
theorem countsFrom_nil (number : Nat) : CountsFrom number [] := trivial

@[simp]
theorem countsFrom_cons (number : Nat) (found : Option Nat) (rest : List (Option Nat)) :
    CountsFrom number (found :: rest) ↔
      found = some number ∧ CountsFrom (number + 1) rest := Iff.rfl

/-- A change whose deleted and added lines count up from the given numbers. -/
def ChangeCountsFrom (old new : Nat) (deleted added : List Patch.Line) : Prop :=
  CountsFrom old (deleted.map (·.oldNumber)) ∧ CountsFrom new (added.map (·.newNumber))

def Block.Gapless : Block → Prop
  | .change deleted added => ∃ old new, ChangeCountsFrom old new deleted added
  | _ => True

/-- A change at the front goes on from the cursor; outside a hunk there is none. -/
def GoesOn (cursor : Option Cursor) : List Block → Prop
  | .change deleted added :: _ =>
      match cursor with
      | some counters => ChangeCountsFrom counters.oldNumber counters.newNumber deleted added
      | none => False
  | _ => True

structure ReadFrom (cursor : Option Cursor) (found : List Block) : Prop where
  goesOn : GoesOn cursor found
  gapless : ∀ block ∈ found, block.Gapless

theorem ReadFrom.hunk {cursor next : Option Cursor} {found : List Block} (header : Text)
    (rest : ReadFrom next found) : ReadFrom cursor (.hunk header :: found) :=
  ⟨trivial, by simpa [Block.Gapless] using rest.gapless⟩

theorem ReadFrom.context {cursor next : Option Cursor} {found : List Block} (line : Patch.Line)
    (rest : ReadFrom next found) : ReadFrom cursor (.context line :: found) :=
  ⟨trivial, by simpa [Block.Gapless] using rest.gapless⟩

/-- A front change that goes on from the cursor makes the whole list well read. -/
theorem ReadFrom.change {counters : Cursor} {deleted added : List Patch.Line}
    {later : List Block}
    (counts : ChangeCountsFrom counters.oldNumber counters.newNumber deleted added)
    (gapless : ∀ block ∈ later, block.Gapless) :
    ReadFrom (some counters) (.change deleted added :: later) := by
  refine ⟨counts, ?_⟩
  intro block membership
  rcases List.mem_cons.mp membership with equality | inLater
  · subst equality
    exact ⟨_, _, counts⟩
  · exact gapless block inLater

theorem blocks_hunk (header : Text) (diff : List Patch.Line) :
    blocks (.hunk header :: diff) = .hunk header :: blocks diff := rfl

theorem blocks_context (old new : Nat) (content : Text) (diff : List Patch.Line) :
    blocks (.context old new content :: diff) =
      .context (.context old new content) :: blocks diff := rfl

/-- A deleted line joins the change behind it, or is a change of its own. -/
theorem blocks_deleted (line : Patch.Line) (isDeleted : line.kind = .deleted)
    (diff : List Patch.Line) :
    (∃ deleted added later, blocks diff = .change deleted added :: later ∧
      blocks (line :: diff) = .change (line :: deleted) added :: later) ∨
    ((∀ deleted added later, blocks diff ≠ .change deleted added :: later) ∧
      blocks (line :: diff) = .change [line] [] :: blocks diff) := by
  cases found : blocks diff with
  | nil => exact .inr (by simp [blocks, isDeleted, found])
  | cons block later =>
      cases block with
      | hunk header => exact .inr (by simp [blocks, isDeleted, found])
      | context line => exact .inr (by simp [blocks, isDeleted, found])
      | change deleted added =>
          exact .inl ⟨deleted, added, later, rfl, by simp [blocks, isDeleted, found]⟩

/-- An added line joins the added run behind it, or is a change of its own. -/
theorem blocks_added (line : Patch.Line) (isAdded : line.kind = .added)
    (diff : List Patch.Line) :
    (∃ added later, blocks diff = .change [] added :: later ∧
      blocks (line :: diff) = .change [] (line :: added) :: later) ∨
    ((∀ added later, blocks diff ≠ .change [] added :: later) ∧
      blocks (line :: diff) = .change [] [line] :: blocks diff) := by
  cases found : blocks diff with
  | nil => exact .inr (by simp [blocks, isAdded, found])
  | cons block later =>
      cases block with
      | hunk header => exact .inr (by simp [blocks, isAdded, found])
      | context line => exact .inr (by simp [blocks, isAdded, found])
      | change deleted added =>
          cases deleted with
          | nil => exact .inl ⟨added, later, rfl, by simp [blocks, isAdded, found]⟩
          | cons first rest => exact .inr (by simp [blocks, isAdded, found])

theorem ReadFrom.deleted {counters : Cursor} {diff : List Patch.Line} (content : Text)
    (rest : ReadFrom (some counters.passOld) (blocks diff)) :
    ReadFrom (some counters) (blocks (.deleted counters.oldNumber content :: diff)) := by
  rcases blocks_deleted (.deleted counters.oldNumber content) rfl diff with
    ⟨deleted, added, later, found, extended⟩ | ⟨_, separate⟩
  · rw [extended]
    rw [found] at rest
    obtain ⟨counts, gapless⟩ := rest
    refine .change ⟨?_, counts.2⟩ fun block membership =>
      gapless block (List.mem_cons_of_mem _ membership)
    exact ⟨rfl, counts.1⟩
  · rw [separate]
    exact .change ⟨⟨rfl, trivial⟩, trivial⟩ rest.gapless

theorem ReadFrom.added {counters : Cursor} {diff : List Patch.Line} (content : Text)
    (rest : ReadFrom (some counters.passNew) (blocks diff)) :
    ReadFrom (some counters) (blocks (.added counters.newNumber content :: diff)) := by
  rcases blocks_added (.added counters.newNumber content) rfl diff with
    ⟨added, later, found, extended⟩ | ⟨_, separate⟩
  · rw [extended]
    rw [found] at rest
    obtain ⟨counts, gapless⟩ := rest
    refine .change ⟨trivial, ?_⟩ fun block membership =>
      gapless block (List.mem_cons_of_mem _ membership)
    exact ⟨rfl, counts.2⟩
  · rw [separate]
    exact .change ⟨trivial, ⟨rfl, trivial⟩⟩ rest.gapless

/-- A line that is passed over leaves the blocks behind it as they are. -/
theorem ReadFrom.skip {cursor next : Option Cursor} {found : List Block}
    (kept : next = cursor ∨ next = none) (rest : ReadFrom next found) :
    ReadFrom cursor found := by
  rcases kept with rfl | rfl
  · exact rest
  · refine ⟨?_, rest.gapless⟩
    -- without a cursor no change is read
    rcases found with _ | ⟨_ | _ | _, later⟩
    · trivial
    · trivial
    · trivial
    · exact rest.goesOn.elim

/-- Reading a line under a cursor extends the blocks of the lines after it. -/
theorem ReadFrom.read (counters : Cursor) (line : Text) (diff : List Patch.Line)
    (rest : ReadFrom (some (counters.read line).1) (blocks diff)) :
    ReadFrom (some counters) (blocks ((counters.read line).2.toList ++ diff)) := by
  revert rest
  fun_cases Cursor.read counters line with
  | case1 content => exact .added content
  | case2 content => exact .deleted content
  | case3 content => exact .context _
  | case4 expected => exact .context _
  | case5 unexpected => exact id
  | case6 => exact id

/-- Reading a line of a patch extends the blocks of the lines after it. -/
theorem ReadFrom.readLine (cursor : Option Cursor) (line : Text) (diff : List Patch.Line)
    (rest : ReadFrom (readLine cursor line).1 (blocks diff)) :
    ReadFrom cursor (blocks ((Patch.readLine cursor line).2.toList ++ diff)) := by
  revert rest
  fun_cases Patch.readLine cursor line with
  | case1 isHeader header parsed => exact .hunk line
  | case2 isHeader malformed => exact .skip (.inr rfl)
  | case3 notHeader => exact id
  | case4 notHeader counters advanced found read =>
      have := ReadFrom.read counters line diff
      rwa [read] at this

theorem readFrom_readLines (cursor : Option Cursor) (patchLines : List Text) :
    ReadFrom cursor (blocks (readLines cursor patchLines)) := by
  induction patchLines generalizing cursor with
  | nil => exact ⟨trivial, by simp [readLines, blocks]⟩
  | cons line rest inductionHypothesis =>
      exact ReadFrom.readLine cursor line _ (inductionHypothesis _)

end ChangeCoverage.Alignment
