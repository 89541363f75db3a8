import ChangeCoverage.Proofs.Patch.Numbering

/-!
Where reading a patch stops because a line number takes more than 64 bits.  That is
exactly where a header leaves too little room for the lines under it, and no header is
refused for that.
-/

namespace ChangeCoverage.Patch

/-- Lines that are counted from the given numbers, with a 64-bit number left for the
line after them. -/
structure Room (oldStart newStart : Nat) (body : List Line) : Prop where
  old : oldStart + (oldNumbers body).length < Text.limit64
  new : newStart + (newNumbers body).length < Text.limit64

theorem room_iff_length {oldStart newStart : Nat} {body : List Line} :
    Room oldStart newStart body ↔
      oldStart + (oldNumbers body).length < Text.limit64 ∧
        newStart + (newNumbers body).length < Text.limit64 :=
  ⟨fun room => ⟨room.old, room.new⟩, fun room => ⟨room.1, room.2⟩⟩

/-- The lines that are read from a cursor on have room, up to the next header. -/
def RoomFrom (cursor : Option Cursor) (diff : List Line) : Prop :=
  ∀ counters ∈ cursor, Room counters.oldNumber counters.newNumber (hunkBody diff)

/-- Each header leaves room for the lines under it. -/
def HunksHaveRoom (diff : List Line) : Prop :=
  EachHunk (fun header body => Room header.oldStart header.newStart body) diff

theorem Takes.room_iff {taken : Option Nat} {before after : Nat} {later : List Nat}
    (takes : Takes taken before after) :
    before + (taken.toList ++ later).length < Text.limit64 ↔
      (∀ number ∈ taken, number + 1 < Text.limit64) ∧
        after + later.length < Text.limit64 := by
  rcases takes with ⟨rfl, rfl⟩ | ⟨rfl, rfl⟩
  · simp
  · simp only [Option.toList_some, List.length_append, List.length_singleton,
      Option.mem_some_iff, forall_eq']
    omega

/-- A line that is read leaves the room that the lines after it have. -/
theorem Cursor.Reads.room_iff {cursor next : Cursor} {line : Line} {body : List Line}
    (reads : cursor.Reads next line) :
    Room cursor.oldNumber cursor.newNumber (line :: body) ↔
      CountersFit [line] ∧ Room next.oldNumber next.newNumber body := by
  rw [room_iff_length, room_iff_length, oldNumbers_cons, newNumbers_cons, reads.old.room_iff,
    reads.new.room_iff, countersFit_singleton]
  exact and_and_and_comm

theorem Line.InHunk.kind_ne {line : Line} (inHunk : line.InHunk) : line.kind ≠ .hunk := by
  cases inHunk <;> nofun

theorem hunkBody_hunk (text : Text) (rest : List Line) :
    hunkBody (.hunk text :: rest) = [] := rfl

theorem hunkBody_cons {line : Line} (inHunk : line.InHunk) (rest : List Line) :
    hunkBody (line :: rest) = line :: hunkBody rest := by
  simp [hunkBody, inHunk.kind_ne]

theorem hunksHaveRoom_hunk {text : Text} {header : Header}
    (parsed : Header.parse? text = some header) {rest : List Line} :
    HunksHaveRoom (.hunk text :: rest) ↔
      RoomFrom (some (.ofHeader header)) rest ∧ HunksHaveRoom rest := by
  simp [HunksHaveRoom, EachHunk, RoomFrom, Line.hunk, Cursor.ofHeader, parsed]

theorem eachHunk_cons {property : Header → List Line → Prop} {line : Line}
    (inHunk : line.InHunk) {rest : List Line} :
    EachHunk property (line :: rest) ↔ EachHunk property rest :=
  and_iff_right fun isHunk => absurd isHunk inHunk.kind_ne

/-- Outside a hunk nothing is read before a header. -/
theorem hunkBody_readLines_none (lines : List Text) : hunkBody (readLines none lines) = [] := by
  induction lines with
  | nil => rfl
  | cons line rest inductionHypothesis =>
      by_cases isHeader : Header.marker.isPrefixOf line = true
      · cases parsed : Header.parse? line <;>
          simp [readLines, readLine, isHeader, parsed, hunkBody_hunk, inductionHypothesis]
      · simp [readLines, readLine, isHeader, inductionHypothesis]

/-- The counters are 64-bit numbers. -/
structure Cursor.Bounded (cursor : Cursor) : Prop where
  old : cursor.oldNumber < Text.limit64
  new : cursor.newNumber < Text.limit64

theorem roomFrom_none (diff : List Line) : RoomFrom none diff :=
  nofun

theorem roomFrom_of_hunkBody {cursor : Option Cursor} {diff : List Line}
    (bounded : ∀ counters ∈ cursor, counters.Bounded) (empty : hunkBody diff = []) :
    RoomFrom cursor diff := by
  intro counters isCursor
  rw [empty]
  exact ⟨(bounded counters isCursor).old, (bounded counters isCursor).new⟩

theorem Header.range?_bounded {text : Text} {range : Nat × Nat}
    (read : range? text = some range) : range.1 < Text.limit64 := by
  unfold range? at read
  split at read
  next start length _ =>
    obtain ⟨startNumber, isStart, lengthNumber, -, rfl⟩ := by
      simpa [Option.bind_eq_some_iff] using read
    exact Text.number?_lt isStart
  next =>
    obtain ⟨start, isStart, rfl⟩ := Option.map_eq_some_iff.mp read
    exact Text.number?_lt isStart

/-- Headers start at 64-bit numbers, and these may be as great as can be. -/
theorem Cursor.ofHeader_bounded {line : Text} {header : Header}
    (parsed : Header.parse? line = some header) : (Cursor.ofHeader header).Bounded := by
  simp only [Header.parse?, Option.bind_eq_bind, Option.bind_eq_some_iff] at parsed
  obtain ⟨rest, -, ranges, -, parsed⟩ := parsed
  split at parsed
  next old new _ =>
    simp only [Option.bind_eq_some_iff] at parsed
    obtain ⟨oldRange, -, newRange, -, oldStart, isOld, newStart, isNew, given⟩ := parsed
    obtain rfl := Option.some.inj given
    exact ⟨Header.range?_bounded isOld, Header.range?_bounded isNew⟩
  next => cases parsed

theorem Cursor.Reads.bounded {cursor next : Cursor} {line : Line}
    (reads : cursor.Reads next line) (fits : CountersFit [line]) (bounded : cursor.Bounded) :
    next.Bounded := by
  obtain ⟨oldFits, newFits⟩ := countersFit_singleton.mp fits
  have onward {taken : Option Nat} {before after : Nat} (takes : Takes taken before after)
      (takenFits : ∀ number ∈ taken, number + 1 < Text.limit64)
      (isBounded : before < Text.limit64) : after < Text.limit64 := by
    rcases takes with ⟨-, rfl⟩ | ⟨rfl, rfl⟩
    · exact isBounded
    · exact takenFits before rfl
  exact ⟨onward reads.old oldFits bounded.old, onward reads.new newFits bounded.new⟩

/-- Whether counters stay in range on lines that are read from a cursor on can be told
from the headers among them and the number of lines under each. -/
def RoomDecides (cursor : Option Cursor) (diff : List Line) : Prop :=
  CountersFit diff ↔ RoomFrom cursor diff ∧ HunksHaveRoom diff

theorem RoomDecides.of_hunkBody {cursor : Option Cursor} {diff : List Line}
    (bounded : ∀ counters ∈ cursor, counters.Bounded) (empty : hunkBody diff = [])
    (fits : CountersFit diff ↔ HunksHaveRoom diff) : RoomDecides cursor diff :=
  fits.trans (and_iff_right (roomFrom_of_hunkBody bounded empty)).symm

theorem RoomDecides.hunk {cursor : Option Cursor} {text : Text} {header : Header}
    {diff : List Line} (bounded : ∀ counters ∈ cursor, counters.Bounded)
    (parsed : Header.parse? text = some header)
    (onward : RoomDecides (some (.ofHeader header)) diff) :
    RoomDecides cursor (.hunk text :: diff) := by
  refine .of_hunkBody bounded rfl ?_
  rw [countersFit_cons, and_iff_right (countersFit_hunk text), hunksHaveRoom_hunk parsed]
  exact onward

theorem RoomDecides.read {counters next : Cursor} {line : Line} {diff : List Line}
    (reads : counters.Reads next line)
    (onward : CountersFit [line] → RoomDecides (some next) diff) :
    RoomDecides (some counters) (line :: diff) := by
  have room : RoomFrom (some counters) (line :: diff) ↔
      CountersFit [line] ∧ RoomFrom (some next) diff := by
    simp [RoomFrom, hunkBody_cons reads.inHunk, reads.room_iff]
  rw [RoomDecides, countersFit_cons, room, HunksHaveRoom, eachHunk_cons reads.inHunk, and_assoc]
  exact and_congr_right onward

theorem RoomDecides.readLine (cursor : Option Cursor) (line : Text) {diff : List Line}
    (bounded : ∀ counters ∈ cursor, counters.Bounded)
    (outside : (readLine cursor line).1 = none → hunkBody diff = [])
    (onward : CountersFit (readLine cursor line).2.toList →
      RoomDecides (readLine cursor line).1 diff) :
    RoomDecides cursor ((Patch.readLine cursor line).2.toList ++ diff) := by
  revert outside onward
  fun_cases Patch.readLine cursor line with
  | case1 _ isHeader header parsed =>
      exact fun _ onward => (onward (countersFit_hunk line)).hunk bounded parsed
  | case2 _ isHeader malformed =>
      intro outside onward
      exact .of_hunkBody bounded (outside rfl)
        ((onward countersFit_nil).trans (and_iff_right (roomFrom_none diff)))
  | case3 notHeader => exact fun _ onward => onward countersFit_nil
  | case4 notHeader counters advanced found read =>
      intro _ onward
      rcases Cursor.cases_of_read read with ⟨taken, rfl, reads⟩ | ⟨rfl, rfl⟩
      · exact .read reads onward
      · exact onward countersFit_nil

theorem bounded_readLine {cursor : Option Cursor} (line : Text)
    (bounded : ∀ counters ∈ cursor, counters.Bounded)
    (fits : CountersFit (readLine cursor line).2.toList) :
    ∀ counters ∈ (readLine cursor line).1, counters.Bounded := by
  revert fits
  fun_cases Patch.readLine cursor line with
  | case1 _ isHeader header parsed => simpa using Cursor.ofHeader_bounded parsed
  | case2 _ isHeader malformed => simp
  | case3 notHeader => simp
  | case4 notHeader counters advanced found read =>
      intro fits
      have before := bounded counters rfl
      rcases Cursor.cases_of_read read with ⟨taken, rfl, reads⟩ | ⟨rfl, -⟩
      · simpa using reads.bounded fits before
      · simpa using before

theorem roomDecides_readLines (cursor : Option Cursor)
    (bounded : ∀ counters ∈ cursor, counters.Bounded) (lines : List Text) :
    RoomDecides cursor (readLines cursor lines) := by
  -- the room that is left for the lines of the current hunk goes from line to line, and
  -- once a line has no number after its own there is no room on either side
  induction lines generalizing cursor with
  | nil =>
      refine .of_hunkBody bounded rfl ?_
      simp [readLines, HunksHaveRoom, EachHunk]
  | cons line rest inductionHypothesis =>
      have outside : (Patch.readLine cursor line).1 = none →
          hunkBody (readLines (Patch.readLine cursor line).1 rest) = [] := fun closed =>
        closed ▸ hunkBody_readLines_none rest
      exact .readLine cursor line bounded outside fun fits =>
        inductionHypothesis _ (bounded_readLine line bounded fits)

/-- A patch is read just if each header leaves room for its lines. -/
theorem parse?_givesIf (patch : Text) :
    GivesIf (HunksHaveRoom (parse patch)) (parse patch) (parse? patch) := by
  have decided := roomDecides_readLines none nofun (Text.cleanLines patch)
  exact (parse?_givesIf_countersFit patch).congr
    (decided.trans (and_iff_right (roomFrom_none _))).symm

section Script

theorem editLines_inHunk (old new : Nat) (edits : List Edit) :
    ∀ line ∈ editLines old new edits, line.InHunk := by
  induction edits generalizing old new with
  | nil => exact nofun
  | cons edit rest inductionHypothesis =>
      cases edit with
      | keep => exact List.forall_mem_cons.mpr ⟨.context .., inductionHypothesis _ _⟩
      | delete => exact List.forall_mem_cons.mpr ⟨.deleted .., inductionHypothesis _ _⟩
      | insert => exact List.forall_mem_cons.mpr ⟨.added .., inductionHypothesis _ _⟩

theorem length_numbers_editLines (old new : Nat) (edits : List Edit) :
    (oldNumbers (editLines old new edits)).length = (oldTexts edits).length ∧
      (newNumbers (editLines old new edits)).length = (newTexts edits).length := by
  induction edits generalizing old new with
  | nil => exact ⟨rfl, rfl⟩
  | cons edit rest inductionHypothesis =>
      cases edit <;>
        simp [editLines, oldTexts, newTexts, inductionHypothesis, Line.context, Line.deleted,
          Line.added]

theorem eachHunk_append {property : Header → List Line → Prop} {body rest : List Line}
    (inHunk : ∀ line ∈ body, line.InHunk) :
    EachHunk property (body ++ rest) ↔ EachHunk property rest := by
  induction body with
  | nil => exact Iff.rfl
  | cons line later inductionHypothesis =>
      obtain ⟨first, others⟩ := List.forall_mem_cons.mp inHunk
      exact (eachHunk_cons first).trans (inductionHypothesis others)

theorem hunkBody_append {body rest : List Line} (inHunk : ∀ line ∈ body, line.InHunk)
    (empty : hunkBody rest = []) : hunkBody (body ++ rest) = body := by
  induction body with
  | nil => exact empty
  | cons line later inductionHypothesis =>
      obtain ⟨first, others⟩ := List.forall_mem_cons.mp inHunk
      rw [List.cons_append, hunkBody_cons first, inductionHypothesis others]

theorem hunkBody_hunkLines (old new : Nat) (hunks : List Hunk) :
    hunkBody (hunkLines old new hunks) = [] := by
  cases hunks with
  | nil => rfl
  | cons hunk rest => exact hunkBody_hunk _ _

/-- What holds of each hunk that ends within the 64-bit numbers holds of the hunks of a
script. -/
theorem eachHunk_hunkLines {property : Header → List Line → Prop}
    (holds : ∀ (hunk : Hunk) (old new : Nat),
      old + (oldTexts hunk.edits).length < Text.limit64 →
      new + (newTexts hunk.edits).length < Text.limit64 →
      property (hunk.header old new) (editLines old new hunk.edits))
    {old new : Nat} {hunks : List Hunk}
    (oldFits : old + (hunks.flatMap Hunk.oldSpan).length < Text.limit64)
    (newFits : new + (hunks.flatMap Hunk.newSpan).length < Text.limit64) :
    EachHunk property (hunkLines old new hunks) := by
  induction hunks generalizing old new with
  | nil => exact trivial
  | cons hunk rest inductionHypothesis =>
      simp only [List.flatMap_cons, List.length_append] at oldFits newFits
      have oldSpan : (oldTexts hunk.edits).length ≤ hunk.oldSpan.length := by simp [Hunk.oldSpan]
      have newSpan : (newTexts hunk.edits).length ≤ hunk.newSpan.length := by simp [Hunk.newSpan]
      have oldStart := rangeStart_le old (oldTexts hunk.edits).length
      have newStart := rangeStart_le new (newTexts hunk.edits).length
      have fits : (hunk.header old new).Fits := by
        constructor <;> simp only [Hunk.header] <;> omega
      have inHunk := editLines_inHunk old new hunk.edits
      have body := hunkBody_append inHunk
        (hunkBody_hunkLines (old + hunk.oldSpan.length) (new + hunk.newSpan.length) rest)
      rw [hunkLines, List.cons_append, EachHunk, eachHunk_append inHunk, body]
      refine ⟨fun _ header isHeader => ?_, inductionHypothesis (by omega) (by omega)⟩
      have parsed := Header.parse?_render hunk.brief fits hunk.heading.val
      obtain rfl := Option.some.inj (parsed.symm.trans isHeader)
      exact holds hunk old new (by omega) (by omega)

/-- The headers of a script start where its files go on, and so leave enough room. -/
theorem hunksHaveRoom_hunkLines {old new : Nat} {hunks : List Hunk}
    (oldFits : old + (hunks.flatMap Hunk.oldSpan).length < Text.limit64)
    (newFits : new + (hunks.flatMap Hunk.newSpan).length < Text.limit64) :
    HunksHaveRoom (hunkLines old new hunks) := by
  refine eachHunk_hunkLines (fun hunk old new oldEnds newEnds => ?_) oldFits newFits
  obtain ⟨oldLength, newLength⟩ := length_numbers_editLines old new hunk.edits
  have oldStart := rangeStart_le old (oldTexts hunk.edits).length
  have newStart := rangeStart_le new (newTexts hunk.edits).length
  constructor <;> simp only [Hunk.header] <;> omega

theorem parse?_patch {script : Script} (oldFits : script.old.length + 1 < Text.limit64)
    (newFits : script.new.length + 1 < Text.limit64) :
    parse? script.patch =
      some (hunkLines (script.gap.length + 1) (script.gap.length + 1) script.hunks) := by
  have gives := parse?_givesIf script.patch
  rw [parse_patch oldFits newFits] at gives
  simp only [Script.old, Script.new, Script.gapTexts, List.length_append, List.length_map]
    at oldFits newFits
  exact gives.eq_some (hunksHaveRoom_hunkLines (by omega) (by omega))

end Script

end ChangeCoverage.Patch
