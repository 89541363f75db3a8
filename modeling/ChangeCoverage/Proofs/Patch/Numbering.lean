import ChangeCoverage.Proofs.Patch.Script

/-!
Well-numbered diffs: under each header the line numbers of both files count up
from where the header says.  Reading any patch gives such a diff, and each such
diff is read back from the patch lines that it is written as.
-/

namespace ChangeCoverage.Patch

/-- A line with a number in each of the files that it belongs to. -/
inductive Line.InHunk : Line → Prop where
  | context (oldNumber newNumber : Nat) (content : Text) :
      InHunk (.context oldNumber newNumber content)
  | added (newNumber : Nat) (content : Text) : InHunk (.added newNumber content)
  | deleted (oldNumber : Nat) (content : Text) : InHunk (.deleted oldNumber content)

def CountsUp (start : Nat) (numbers : List Nat) : Prop :=
  numbers = List.range' start numbers.length

/-- Lines under a header that starts at the given lines of the two files. -/
structure Counted (oldStart newStart : Nat) (body : List Line) : Prop where
  inHunk : ∀ line ∈ body, line.InHunk
  old : CountsUp oldStart (oldNumbers body)
  new : CountsUp newStart (newNumbers body)

/-- A sequence of hunks, each of them a readable header and lines that count up
from it. -/
inductive WellNumbered : List Line → Prop where
  | nil : WellNumbered []
  | hunk {text : Text} {header : Header} {body rest : List Line} :
      Header.parse? text = some header →
      Counted header.oldStart header.newStart body →
      WellNumbered rest →
      WellNumbered (.hunk text :: (body ++ rest))

instance (start : Nat) (numbers : List Nat) : Decidable (CountsUp start numbers) :=
  inferInstanceAs (Decidable (numbers = _))

theorem countsUp_cons {start number : Nat} {rest : List Nat} :
    CountsUp start (number :: rest) ↔ number = start ∧ CountsUp (start + 1) rest := by
  simp [CountsUp, List.range'_succ]

/-- What a line does to a counter: it leaves the counter alone or takes its
number. -/
def Takes (taken : Option Nat) (before after : Nat) : Prop :=
  (taken = none ∧ after = before) ∨ (taken = some before ∧ after = before + 1)

theorem Takes.countsUp {taken : Option Nat} {before after : Nat} {later : List Nat}
    (takes : Takes taken before after) (counts : CountsUp after later) :
    CountsUp before (taken.toList ++ later) := by
  rcases takes with ⟨rfl, rfl⟩ | ⟨rfl, rfl⟩
  · exact counts
  · exact countsUp_cons.mpr ⟨rfl, counts⟩

namespace Cursor

/-- What reading a line does to a cursor. -/
structure Reads (cursor next : Cursor) (line : Line) : Prop where
  inHunk : line.InHunk
  old : Takes line.oldNumber cursor.oldNumber next.oldNumber
  new : Takes line.newNumber cursor.newNumber next.newNumber

/-- A line that is read takes the numbers of the counters, and any other leaves
the counters as they are. -/
theorem read_cases (cursor : Cursor) (text : Text) :
    (∃ line, (cursor.read text).2 = some line ∧ Reads cursor (cursor.read text).1 line) ∨
      cursor.read text = (cursor, none) := by
  fun_cases Cursor.read cursor text with
  | case1 content => exact .inl ⟨_, rfl, .added .., .inl ⟨rfl, rfl⟩, .inr ⟨rfl, rfl⟩⟩
  | case2 content => exact .inl ⟨_, rfl, .deleted .., .inr ⟨rfl, rfl⟩, .inl ⟨rfl, rfl⟩⟩
  | case3 content => exact .inl ⟨_, rfl, .context .., .inr ⟨rfl, rfl⟩, .inr ⟨rfl, rfl⟩⟩
  | case4 expected => exact .inl ⟨_, rfl, .context .., .inr ⟨rfl, rfl⟩, .inr ⟨rfl, rfl⟩⟩
  | case5 unexpected => exact .inr rfl
  | case6 => exact .inr rfl

theorem cases_of_read {cursor next : Cursor} {text : Text} {found : Option Line}
    (read : cursor.read text = (next, found)) :
    (∃ line, found = some line ∧ Reads cursor next line) ∨ (next = cursor ∧ found = none) := by
  rcases cursor.read_cases text with ⟨line, isFound, reads⟩ | skipped
  · rw [read] at isFound reads
    exact .inl ⟨line, isFound, reads⟩
  · exact .inr (Prod.mk.inj (read.symm.trans skipped))

end Cursor

theorem Counted.cons {cursor next : Cursor} {line : Line} {body : List Line}
    (reads : cursor.Reads next line)
    (counted : Counted next.oldNumber next.newNumber body) :
    Counted cursor.oldNumber cursor.newNumber (line :: body) where
  inHunk := List.forall_mem_cons.mpr ⟨reads.inHunk, counted.inHunk⟩
  old := by
    rw [oldNumbers_cons]
    exact reads.old.countsUp counted.old
  new := by
    rw [newNumbers_cons]
    exact reads.new.countsUp counted.new

/-- What is read from a cursor on: lines that count up from it, and hunks.
Outside a hunk there are hunks only. -/
def NumberedFrom (cursor : Option Cursor) (diff : List Line) : Prop :=
  match cursor with
  | none => WellNumbered diff
  | some counters => ∃ body rest, diff = body ++ rest ∧
      Counted counters.oldNumber counters.newNumber body ∧ WellNumbered rest

theorem NumberedFrom.of_wellNumbered (cursor : Option Cursor) {diff : List Line}
    (wellNumbered : WellNumbered diff) : NumberedFrom cursor diff := by
  cases cursor with
  | none => exact wellNumbered
  | some counters => exact ⟨[], diff, rfl, ⟨by simp, rfl, rfl⟩, wellNumbered⟩

/-- Reading a line of a patch extends what is read from the lines after it. -/
theorem NumberedFrom.readLine (cursor : Option Cursor) (line : Text) {diff : List Line}
    (rest : NumberedFrom (readLine cursor line).1 diff) :
    NumberedFrom cursor ((Patch.readLine cursor line).2.toList ++ diff) := by
  revert rest
  fun_cases Patch.readLine cursor line with
  | case1 _ isHeader header parsed =>
      rintro ⟨body, later, rfl, counted, wellNumbered⟩
      have opened : WellNumbered (.hunk line :: (body ++ later)) :=
        .hunk parsed counted wellNumbered
      exact .of_wellNumbered cursor opened
  | case2 _ isHeader malformed => exact fun rest => .of_wellNumbered cursor rest
  | case3 notHeader => exact id
  | case4 notHeader counters advanced found read =>
      rintro ⟨body, later, rfl, counted, wellNumbered⟩
      rcases Cursor.cases_of_read read with ⟨taken, rfl, reads⟩ | ⟨rfl, rfl⟩
      · exact ⟨taken :: body, later, rfl, counted.cons reads, wellNumbered⟩
      · exact ⟨body, later, rfl, counted, wellNumbered⟩

/-- A counter is at the first of some numbers, if there is one. -/
def StandsAt (counter : Nat) (numbers : List Nat) : Prop :=
  ∀ first ∈ numbers.head?, counter = first

theorem isPrefixOf_of_parse? {text : Text} {header : Header}
    (parsed : Header.parse? text = some header) : Header.marker.isPrefixOf text = true := by
  rw [Header.parse?] at parsed
  obtain ⟨rest, opened, -⟩ := Option.bind_eq_some_iff.mp parsed
  rw [Text.after?_eq_some_iff] at opened
  simp [opened, Header.marker]

theorem Line.render_isLine {line : Line} (isLine : Text.IsLine line.content) :
    Text.IsLine line.render := by
  have marker : Text.IsLine line.kind.marker := by cases line.kind <;> decide
  exact isLine_append marker isLine

end ChangeCoverage.Patch
