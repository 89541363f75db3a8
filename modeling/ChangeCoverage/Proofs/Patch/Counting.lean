import ChangeCoverage.Patch.Hunks

/-!
Counting without bound.  The parser stops where a line number takes more than 64 bits.
Counters that go on there come to a diff for every patch, and the parser comes to the
same one just if each number that a line takes leaves room for another one after it.
-/

namespace ChangeCoverage

/-- A computation gives a value under a condition, and nothing otherwise. -/
def GivesIf {Value : Type} (condition : Prop) (value : Value)
    (computation : Option Value) : Prop :=
  ∀ result, computation = some result ↔ condition ∧ result = value

namespace GivesIf

variable {Value Result : Type} {condition other : Prop} {value : Value} {result : Result}
  {computation : Option Value}

theorem always (value : Value) : GivesIf True value (some value) := by
  intro result
  simp [eq_comm]

theorem of_eq (given : computation = some value) : GivesIf True value computation :=
  given ▸ always value

/-- Two computations that give the same value under the same condition are equal. -/
theorem eq {second : Option Value} (firstGives : GivesIf condition value computation)
    (secondGives : GivesIf condition value second) : computation = second := by
  ext result
  rw [firstGives, secondGives]

theorem eq_some (gives : GivesIf condition value computation) (holds : condition) :
    computation = some value :=
  (gives value).mpr ⟨holds, rfl⟩

theorem congr (same : other ↔ condition) (gives : GivesIf condition value computation) :
    GivesIf other value computation := by
  intro result
  rw [gives, same]

theorem bind {next : Value → Option Result} (gives : GivesIf condition value computation)
    (onward : condition → GivesIf other result (next value)) :
    GivesIf (condition ∧ other) result (computation.bind next) := by
  intro found
  rw [Option.bind_eq_some_iff]
  constructor
  · rintro ⟨middle, reached, given⟩
    obtain ⟨holds, rfl⟩ := (gives middle).mp reached
    obtain ⟨otherHolds, rfl⟩ := (onward holds found).mp given
    exact ⟨⟨holds, otherHolds⟩, rfl⟩
  · rintro ⟨⟨holds, otherHolds⟩, rfl⟩
    exact ⟨value, (gives value).mpr ⟨holds, rfl⟩, (onward holds _).mpr ⟨otherHolds, rfl⟩⟩

theorem map (change : Value → Result) (gives : GivesIf condition value computation) :
    GivesIf condition (change value) (computation.map change) := by
  have given : condition → GivesIf True (change value) ((some ∘ change) value) :=
    fun _ => always (change value)
  rw [Option.map_eq_bind]
  exact (gives.bind given).congr (Iff.of_eq (and_true condition).symm)

end GivesIf

end ChangeCoverage

namespace ChangeCoverage.Patch

namespace Cursor

def passOld (cursor : Cursor) : Cursor :=
  { cursor with oldNumber := cursor.oldNumber + 1, oldLeft := cursor.oldLeft - 1 }

def passNew (cursor : Cursor) : Cursor :=
  { cursor with newNumber := cursor.newNumber + 1, newLeft := cursor.newLeft - 1 }

/-- Reads a line under a header with counters that never stop. -/
def read (cursor : Cursor) : Text → Cursor × Option Line
  | '+' :: content => (cursor.passNew, some (.added cursor.newNumber content))
  | '-' :: content => (cursor.passOld, some (.deleted cursor.oldNumber content))
  | ' ' :: content => (cursor.passOld.passNew, some (cursor.contextLine content))
  | [] =>
      if cursor.expectsContext then (cursor.passOld.passNew, some (cursor.contextLine []))
      else (cursor, none)
  | _ => (cursor, none)

end Cursor

def readLine (cursor : Option Cursor) (line : Text) : Option Cursor × Option Line :=
  if Header.marker.isPrefixOf line then
    match Header.parse? line with
    | some header => (some (.ofHeader header), some (.hunk line))
    | none => (none, none)
  else
    match cursor with
    | none => (none, none)
    | some counters =>
        let (advanced, found) := counters.read line
        (some advanced, found)

def readLines (cursor : Option Cursor) : List Text → List Line
  | [] => []
  | line :: rest =>
      let (next, found) := readLine cursor line
      found.toList ++ readLines next rest

/-- The diff that counters without bound read from a patch. -/
def parse (patch : Text) : List Line :=
  readLines none (Text.cleanLines patch)

def oldNumbers (diff : List Line) : List Nat := diff.filterMap (·.oldNumber)

def newNumbers (diff : List Line) : List Nat := diff.filterMap (·.newNumber)

/-- All line numbers of a diff are below a limit. -/
structure NumbersBelow (limit : Nat) (diff : List Line) : Prop where
  old : ∀ number ∈ oldNumbers diff, number < limit
  new : ∀ number ∈ newNumbers diff, number < limit

/-- A counter goes on from each number that a line takes, and it stays below
the limit of 64-bit numbers all along. -/
def CountersFit (diff : List Line) : Prop :=
  NumbersBelow (Text.limit64 - 1) diff

instance (limit : Nat) (diff : List Line) : Decidable (NumbersBelow limit diff) :=
  decidable_of_iff ((∀ number ∈ oldNumbers diff, number < limit) ∧
      ∀ number ∈ newNumbers diff, number < limit)
    ⟨fun below => ⟨below.1, below.2⟩, fun below => ⟨below.old, below.new⟩⟩

instance (diff : List Line) : Decidable (CountersFit diff) :=
  inferInstanceAs (Decidable (NumbersBelow _ diff))

/-- The lines of a diff up to the next header. -/
def hunkBody (diff : List Line) : List Line :=
  diff.takeWhile (·.kind ≠ .hunk)

/-- Each header of a diff and the lines under it have a property. -/
def EachHunk (property : Header → List Line → Prop) : List Line → Prop
  | [] => True
  | line :: rest =>
      (line.kind = .hunk →
        ∀ header ∈ Header.parse? line.content, property header (hunkBody rest)) ∧
      EachHunk property rest

@[simp]
theorem oldNumbers_nil : oldNumbers [] = [] := rfl

@[simp]
theorem newNumbers_nil : newNumbers [] = [] := rfl

@[simp]
theorem oldNumbers_cons (line : Line) (rest : List Line) :
    oldNumbers (line :: rest) = line.oldNumber.toList ++ oldNumbers rest := by
  cases taken : line.oldNumber <;> simp [oldNumbers, taken]

@[simp]
theorem newNumbers_cons (line : Line) (rest : List Line) :
    newNumbers (line :: rest) = line.newNumber.toList ++ newNumbers rest := by
  cases taken : line.newNumber <;> simp [newNumbers, taken]

@[simp]
theorem oldNumbers_append (front back : List Line) :
    oldNumbers (front ++ back) = oldNumbers front ++ oldNumbers back :=
  List.filterMap_append

@[simp]
theorem newNumbers_append (front back : List Line) :
    newNumbers (front ++ back) = newNumbers front ++ newNumbers back :=
  List.filterMap_append

theorem NumbersBelow.append_iff {limit : Nat} {front back : List Line} :
    NumbersBelow limit (front ++ back) ↔ NumbersBelow limit front ∧ NumbersBelow limit back := by
  constructor
  · rintro ⟨old, new⟩
    rw [oldNumbers_append, List.forall_mem_append] at old
    rw [newNumbers_append, List.forall_mem_append] at new
    exact ⟨⟨old.1, new.1⟩, ⟨old.2, new.2⟩⟩
  · rintro ⟨first, second⟩
    exact ⟨by simpa using fun number => Or.rec (first.old number) (second.old number),
      by simpa using fun number => Or.rec (first.new number) (second.new number)⟩

theorem countersFit_cons {line : Line} {rest : List Line} :
    CountersFit (line :: rest) ↔ CountersFit [line] ∧ CountersFit rest := by
  change CountersFit ([line] ++ rest) ↔ _
  exact NumbersBelow.append_iff

theorem countersFit_singleton {line : Line} :
    CountersFit [line] ↔
      (∀ number ∈ line.oldNumber, number + 1 < Text.limit64) ∧
        ∀ number ∈ line.newNumber, number + 1 < Text.limit64 := by
  have room {number : Nat} : number < Text.limit64 - 1 ↔ number + 1 < Text.limit64 :=
    Nat.lt_sub_iff_add_lt
  constructor
  · rintro ⟨old, new⟩
    exact ⟨fun number taken => room.mp (old number (by simpa using taken)),
      fun number taken => room.mp (new number (by simpa using taken))⟩
  · rintro ⟨old, new⟩
    exact ⟨fun number taken => room.mpr (old number (by simpa using taken)),
      fun number taken => room.mpr (new number (by simpa using taken))⟩

@[simp]
theorem countersFit_nil : CountersFit [] :=
  ⟨nofun, nofun⟩

@[simp]
theorem countersFit_hunk (text : Text) : CountersFit [.hunk text] :=
  countersFit_singleton.mpr ⟨nofun, nofun⟩

theorem nextNumber?_givesIf (number : Nat) :
    GivesIf (number + 1 < Text.limit64) (number + 1) (nextNumber? number) := by
  intro result
  unfold nextNumber?
  split <;> simp [*, eq_comm]

theorem nextNumber?_eq {number : Nat} (fits : number + 1 < Text.limit64) :
    nextNumber? number = some (number + 1) :=
  if_pos fits

namespace Cursor

variable (cursor : Cursor)

theorem passOld?_givesIf :
    GivesIf (cursor.oldNumber + 1 < Text.limit64) cursor.passOld cursor.passOld? :=
  (nextNumber?_givesIf cursor.oldNumber).map _

theorem passNew?_givesIf :
    GivesIf (cursor.newNumber + 1 < Text.limit64) cursor.passNew cursor.passNew? :=
  (nextNumber?_givesIf cursor.newNumber).map _

theorem passBoth?_givesIf :
    GivesIf (cursor.oldNumber + 1 < Text.limit64 ∧ cursor.newNumber + 1 < Text.limit64)
      cursor.passOld.passNew cursor.passBoth? :=
  cursor.passOld?_givesIf.bind fun _ => cursor.passOld.passNew?_givesIf

/-- The counters go on after a line just if there is room after its numbers. -/
theorem read?_givesIf (text : Text) :
    GivesIf (CountersFit (cursor.read text).2.toList) (cursor.read text)
      (cursor.read? text) := by
  fun_cases Cursor.read cursor text with
  | case1 content =>
      exact (cursor.passNew?_givesIf.map _).congr (by simp [countersFit_singleton, Line.added])
  | case2 content =>
      exact (cursor.passOld?_givesIf.map _).congr (by simp [countersFit_singleton, Line.deleted])
  | case3 content =>
      refine (cursor.passBoth?_givesIf.map _).congr ?_
      simp [countersFit_singleton, contextLine, Line.context]
  | case4 expected =>
      rw [read?, if_pos expected]
      refine (cursor.passBoth?_givesIf.map _).congr ?_
      simp [countersFit_singleton, contextLine, Line.context]
  | case5 unexpected =>
      rw [read?, if_neg unexpected]
      exact (GivesIf.always _).congr (by simp)
  | case6 text noAdded noDeleted noContext noEmpty =>
      rw [read?] <;> try assumption
      exact (GivesIf.always _).congr (by simp)

end Cursor

theorem readLine?_givesIf (cursor : Option Cursor) (line : Text) :
    GivesIf (CountersFit (readLine cursor line).2.toList) (readLine cursor line)
      (readLine? cursor line) := by
  unfold readLine?
  fun_cases readLine cursor line with
  | case1 _ isHeader header parsed =>
      rw [if_pos isHeader, parsed]
      exact (GivesIf.always _).congr (by simp)
  | case2 _ isHeader malformed =>
      rw [if_pos isHeader, malformed]
      exact (GivesIf.always _).congr (by simp)
  | case3 notHeader =>
      rw [if_neg notHeader]
      exact (GivesIf.always _).congr (by simp)
  | case4 notHeader counters advanced found read =>
      rw [if_neg notHeader]
      have gives := (counters.read?_givesIf line).map fun read => (some read.1, read.2)
      rwa [read] at gives

theorem readLines?_givesIf (cursor : Option Cursor) (lines : List Text) :
    GivesIf (CountersFit (readLines cursor lines)) (readLines cursor lines)
      (readLines? cursor lines) := by
  induction lines generalizing cursor with
  | nil => exact (GivesIf.always _).congr (by simp [readLines])
  | cons line rest inductionHypothesis =>
      exact ((readLine?_givesIf cursor line).bind fun _ =>
        (inductionHypothesis _).map _).congr NumbersBelow.append_iff

/-- A patch is read just if its counters stay in range. -/
theorem parse?_givesIf_countersFit (patch : Text) :
    GivesIf (CountersFit (parse patch)) (parse patch) (parse? patch) :=
  readLines?_givesIf none (Text.cleanLines patch)

theorem parse?_congr {patch other : Text} (same : parse patch = parse other) :
    parse? patch = parse? other :=
  (parse?_givesIf_countersFit patch).eq (same ▸ parse?_givesIf_countersFit other)

end ChangeCoverage.Patch
