import Mathlib.Data.List.Forall2
import ChangeCoverage.Proofs.Patch.Overflow
import ChangeCoverage.Proofs.Patch.Recovery

/-!
Liberties that are taken with patches.  Where each header announces just the lines
under it, an empty context line may have lost its space, notes that begin with a
backslash may stand among the lines of a hunk and behind them, and empty lines may
follow the last one.  None of this changes the diff that is read, because a cursor
expects a context line exactly as long as one is still to come.
-/

namespace ChangeCoverage.Patch

/-- A hunk as it is written: its header and the lines under it. -/
structure WrittenHunk where
  first : Text
  body : List Text
  unbroken : ∀ line ∈ first :: body, '\n' ∉ line

/-- Lines that make up given numbers of lines of the old file and of the new one.
There may be notes among them. -/
inductive IsBody : Nat → Nat → List Text → Prop where
  | nil : IsBody 0 0 []
  | context {old new : Nat} {content : Text} {body : List Text} :
      IsBody old new body → IsBody (old + 1) (new + 1) ((' ' :: content) :: body)
  | deleted {old new : Nat} {content : Text} {body : List Text} :
      IsBody old new body → IsBody (old + 1) new (('-' :: content) :: body)
  | added {old new : Nat} {content : Text} {body : List Text} :
      IsBody old new body → IsBody old (new + 1) (('+' :: content) :: body)
  | note {old new : Nat} {content : Text} {body : List Text} :
      IsBody old new body → IsBody old new (('\\' :: content) :: body)

def IsNote (line : Text) : Prop :=
  line.head? = some '\\'

instance (line : Text) : Decidable (IsNote line) :=
  inferInstanceAs (Decidable (_ = _))

/-- The lines of a hunk and what they may be written as. -/
inductive Loosened : List Text → List Text → Prop where
  | ended {trailing : List Text} :
      (∀ line ∈ trailing, Text.cleaned line = [] ∨ IsNote line) → Loosened [] trailing
  | kept {line : Text} {body loose : List Text} :
      Loosened body loose → Loosened (line :: body) (line :: loose)
  | stripped {emptied : Text} {body loose : List Text} :
      Text.cleaned emptied = [] → Loosened body loose →
        Loosened ((' ' :: emptied) :: body) (emptied :: loose)
  | noted {note : Text} {body loose : List Text} :
      IsNote note → Loosened body loose → Loosened body (note :: loose)

namespace WrittenHunk

def lines (hunk : WrittenHunk) : List Text :=
  hunk.first :: hunk.body

/-- The header can be read and announces as many lines as there are. -/
def Exact (hunk : WrittenHunk) : Prop :=
  ∃ header, Header.parse? hunk.first = some header ∧
    IsBody header.oldLength header.newLength hunk.body

/-- The ranges of the header end within the 64-bit numbers. -/
def EndsInRange (hunk : WrittenHunk) : Prop :=
  ∀ header ∈ Header.parse? hunk.first,
    header.oldStart + header.oldLength < Text.limit64 ∧
      header.newStart + header.newLength < Text.limit64

def LoosenedTo (hunk loose : WrittenHunk) : Prop :=
  loose.first = hunk.first ∧ Loosened hunk.body loose.body

/-- The lines of a hunk that stand for lines of the diff. -/
def diffTexts (hunk : WrittenHunk) : List Text :=
  (hunk.lines.filter fun line => ¬IsNote line).map Text.cleaned

/-- The diff of a hunk that stands alone. -/
def diff (hunk : WrittenHunk) : List Line :=
  readLines none (hunk.lines.map Text.cleaned)

end WrittenHunk

def writeHunks (hunks : List WrittenHunk) : Text :=
  Text.terminate (hunks.flatMap WrittenHunk.lines)

section Body

variable {cursor : Cursor} {line : Text} {body loose : List Text}

theorem readLine_note (isNote : IsNote line) :
    readLine (some cursor) (Text.cleaned line) = (some cursor, none) := by
  obtain ⟨content, rfl⟩ := List.head?_eq_some_iff.mp isNote
  rw [Text.cleaned_cons (by decide)]
  rfl

/-- Reading a line that belongs to a hunk leaves the cursor with the lines behind it. -/
theorem IsBody.readLine {old new : Nat} (isBody : IsBody old new (line :: body))
    (oldLeft : cursor.oldLeft = old) (newLeft : cursor.newLeft = new) :
    ∃ next found, Patch.readLine (some cursor) (Text.cleaned line) = (some next, found) ∧
      IsBody next.oldLeft next.newLeft body ∧
      found.toList.map Line.render = if IsNote line then [] else [Text.cleaned line] := by
  cases isBody with
  | context behind =>
      rw [Text.cleaned_cons (by decide)]
      refine ⟨cursor.passOld.passNew, _, rfl, ?_, rfl⟩
      simpa [Cursor.passOld, Cursor.passNew, oldLeft, newLeft] using behind
  | deleted behind =>
      rw [Text.cleaned_cons (by decide)]
      refine ⟨cursor.passOld, _, rfl, ?_, rfl⟩
      simpa [Cursor.passOld, oldLeft, newLeft] using behind
  | added behind =>
      rw [Text.cleaned_cons (by decide)]
      refine ⟨cursor.passNew, _, rfl, ?_, rfl⟩
      simpa [Cursor.passNew, oldLeft, newLeft] using behind
  | note behind =>
      refine ⟨cursor, none, readLine_note rfl, ?_, rfl⟩
      rwa [oldLeft, newLeft]

theorem IsBody.not_expectsContext (isBody : IsBody cursor.oldLeft cursor.newLeft []) :
    cursor.expectsContext = false := by
  generalize oldLeft : cursor.oldLeft = old at isBody
  generalize newLeft : cursor.newLeft = new at isBody
  cases isBody
  simp [Cursor.expectsContext, oldLeft]

theorem IsBody.expectsContext {content : Text}
    (isBody : IsBody cursor.oldLeft cursor.newLeft ((' ' :: content) :: body)) :
    cursor.expectsContext = true := by
  generalize oldLeft : cursor.oldLeft = old at isBody
  generalize newLeft : cursor.newLeft = new at isBody
  cases isBody
  simp [Cursor.expectsContext, oldLeft, newLeft]

/-- While a context line is expected, an empty line is read as an empty one. -/
theorem readLine_empty (expects : cursor.expectsContext = true) :
    readLine (some cursor) [] = readLine (some cursor) [' '] := by
  have read : cursor.read [] = (cursor.passOld.passNew, some (cursor.contextLine [])) := by
    rw [Cursor.read, if_pos expects]
  change (some (cursor.read []).1, (cursor.read []).2) = _
  rw [read]
  rfl

/-- Behind the last line of a hunk, empty lines and notes are passed over. -/
theorem readLines_trailing (spent : cursor.expectsContext = false) {trailing : List Text}
    (ignored : ∀ line ∈ trailing, Text.cleaned line = [] ∨ IsNote line) :
    readLines (some cursor) (trailing.map Text.cleaned) = [] := by
  induction trailing with
  | nil => rfl
  | cons line rest inductionHypothesis =>
      obtain ⟨here, behind⟩ := List.forall_mem_cons.mp ignored
      have passed : readLine (some cursor) (Text.cleaned line) = (some cursor, none) := by
        rcases here with isEmpty | isNote
        · have read : cursor.read [] = (cursor, none) := by
            rw [Cursor.read, if_neg (by simp [spent])]
          rw [isEmpty]
          change (some (cursor.read []).1, (cursor.read []).2) = _
          rw [read]
        · exact readLine_note isNote
      rw [List.map_cons, readLines, passed]
      exact inductionHypothesis behind

/-- The invariant is that the cursor expects as many lines as the rest of the body has,
so that an empty line is read in the place of an empty context line and nowhere else. -/
theorem readLines_loosened (loosened : Loosened body loose)
    (isBody : IsBody cursor.oldLeft cursor.newLeft body) :
    readLines (some cursor) (loose.map Text.cleaned) =
      readLines (some cursor) (body.map Text.cleaned) := by
  induction loosened generalizing cursor with
  | ended ignored => exact readLines_trailing isBody.not_expectsContext ignored
  | kept _ inductionHypothesis =>
      obtain ⟨next, found, read, behind, -⟩ := isBody.readLine rfl rfl
      simp only [List.map_cons, readLines, read]
      rw [inductionHypothesis behind]
  | stripped isEmptied _ inductionHypothesis =>
      have expects := isBody.expectsContext
      obtain ⟨next, found, read, behind, -⟩ := isBody.readLine rfl rfl
      rw [Text.cleaned_cons (by decide), isEmptied] at read
      simp only [List.map_cons, Text.cleaned_cons (by decide : ' ' ≠ '\r'), isEmptied, readLines,
        readLine_empty expects, read]
      rw [inductionHypothesis behind]
  | noted isNote _ inductionHypothesis =>
      simp only [List.map_cons, readLines, readLine_note isNote]
      exact inductionHypothesis isBody

/-- Each line that is read from a body is written back as it stands there. -/
theorem map_render_readLines (isBody : IsBody cursor.oldLeft cursor.newLeft body) :
    (readLines (some cursor) (body.map Text.cleaned)).map Line.render =
      (body.filter fun line => ¬IsNote line).map Text.cleaned := by
  induction body generalizing cursor with
  | nil => rfl
  | cons line rest inductionHypothesis =>
      obtain ⟨next, found, read, behind, rendered⟩ := isBody.readLine rfl rfl
      simp only [List.map_cons, readLines, read, List.map_append, rendered]
      rw [inductionHypothesis behind]
      by_cases isNote : IsNote line
      · simp [isNote]
      · simp [isNote]

/-- Lines that are read from a body have as many numbers as the cursor announces. -/
theorem IsBody.numbered (isBody : IsBody cursor.oldLeft cursor.newLeft body) :
    let diff := readLines (some cursor) (body.map Text.cleaned)
    (∀ line ∈ diff, line.InHunk) ∧ (oldNumbers diff).length = cursor.oldLeft ∧
      (newNumbers diff).length = cursor.newLeft := by
  generalize oldLeft : cursor.oldLeft = old at isBody ⊢
  generalize newLeft : cursor.newLeft = new at isBody ⊢
  induction isBody generalizing cursor with
  | nil => exact ⟨nofun, rfl, rfl⟩
  | context _ inductionHypothesis =>
      rw [List.map_cons, Text.cleaned_cons (by decide)]
      have behind := @inductionHypothesis cursor.passOld.passNew
        (by simp [Cursor.passOld, Cursor.passNew, oldLeft])
        (by simp [Cursor.passOld, Cursor.passNew, newLeft])
      exact ⟨List.forall_mem_cons.mpr ⟨.context .., behind.1⟩,
        congrArg (· + 1) behind.2.1, congrArg (· + 1) behind.2.2⟩
  | deleted _ inductionHypothesis =>
      rw [List.map_cons, Text.cleaned_cons (by decide)]
      have behind := @inductionHypothesis cursor.passOld (by simp [Cursor.passOld, oldLeft]) newLeft
      exact ⟨List.forall_mem_cons.mpr ⟨.deleted .., behind.1⟩,
        congrArg (· + 1) behind.2.1, behind.2.2⟩
  | added _ inductionHypothesis =>
      rw [List.map_cons, Text.cleaned_cons (by decide)]
      have behind := @inductionHypothesis cursor.passNew oldLeft (by simp [Cursor.passNew, newLeft])
      exact ⟨List.forall_mem_cons.mpr ⟨.added .., behind.1⟩, behind.2.1,
        congrArg (· + 1) behind.2.2⟩
  | @note _ _ content _ _ inductionHypothesis =>
      have isNote : IsNote ('\\' :: content) := rfl
      rw [List.map_cons, readLines, readLine_note isNote]
      exact inductionHypothesis oldLeft newLeft

end Body

namespace WrittenHunk

variable {hunk loose : WrittenHunk}

theorem Exact.headed (exact : hunk.Exact) : Header.marker <+: hunk.first := by
  obtain ⟨header, parsed, -⟩ := exact
  exact List.isPrefixOf_iff_prefix.mp (isPrefixOf_of_parse? parsed)

theorem diff_eq {header : Header} (parsed : Header.parse? hunk.first = some header) :
    hunk.diff = .hunk (Text.cleaned hunk.first) ::
      readLines (some (.ofHeader header)) (hunk.body.map Text.cleaned) := by
  have cleanParsed : Header.parse? (Text.cleaned hunk.first) = some header := by
    rw [Header.parse?_cleaned, parsed]
  have read : Patch.readLine none (Text.cleaned hunk.first) =
      (some (.ofHeader header), some (.hunk (Text.cleaned hunk.first))) := by
    simp only [readLine, isPrefixOf_of_parse? cleanParsed, if_true, cleanParsed]
  rw [diff, lines, List.map_cons, readLines, read]
  rfl

theorem LoosenedTo.diff_eq (exact : hunk.Exact) (loosened : hunk.LoosenedTo loose) :
    loose.diff = hunk.diff := by
  obtain ⟨header, parsed, isBody⟩ := exact
  obtain ⟨sameFirst, loosened⟩ := loosened
  have looseParsed : Header.parse? loose.first = some header := by rw [sameFirst, parsed]
  rw [WrittenHunk.diff_eq parsed, WrittenHunk.diff_eq looseParsed, sameFirst,
    readLines_loosened loosened isBody]

theorem map_render_diff (exact : hunk.Exact) : hunk.diff.map Line.render = hunk.diffTexts := by
  have headed := exact.headed
  obtain ⟨header, parsed, isBody⟩ := exact
  have noNote : ¬IsNote hunk.first := by
    obtain ⟨rest, whole⟩ := headed
    rw [← whole]
    simp [IsNote, Header.marker]
  rw [diff_eq parsed, List.map_cons, map_render_readLines isBody, diffTexts, lines,
    List.filter_cons_of_pos (by simpa using noNote)]
  rfl

theorem hunkBody_flatMap_diff {hunks : List WrittenHunk} (exact : ∀ hunk ∈ hunks, hunk.Exact) :
    hunkBody (hunks.flatMap diff) = [] := by
  cases hunks with
  | nil => rfl
  | cons hunk rest =>
      obtain ⟨header, parsed, -⟩ := exact hunk List.mem_cons_self
      rw [List.flatMap_cons, diff_eq parsed]
      exact hunkBody_hunk _ _

/-- A header that announces just the lines under it leaves room for them if its ranges end
in range. -/
theorem hunksHaveRoom_flatMap_diff {hunks : List WrittenHunk}
    (exact : ∀ hunk ∈ hunks, hunk.Exact) :
    HunksHaveRoom (hunks.flatMap diff) ↔ ∀ hunk ∈ hunks, hunk.EndsInRange := by
  induction hunks with
  | nil => exact iff_of_true trivial nofun
  | cons hunk rest inductionHypothesis =>
      obtain ⟨here, behind⟩ := List.forall_mem_cons.mp exact
      obtain ⟨header, parsed, isBody⟩ := here
      have cleanParsed : Header.parse? (Text.cleaned hunk.first) = some header := by
        rw [Header.parse?_cleaned, parsed]
      obtain ⟨inHunk, oldLength, newLength⟩ :=
        @IsBody.numbered (.ofHeader header) _ isBody
      rw [List.forall_mem_cons, ← inductionHypothesis behind, List.flatMap_cons, diff_eq parsed,
        List.cons_append, hunksHaveRoom_hunk cleanParsed]
      refine and_congr ?_ (eachHunk_append inHunk)
      simp only [RoomFrom, Option.mem_some_iff, forall_eq', EndsInRange, parsed,
        hunkBody_append inHunk (hunkBody_flatMap_diff behind), room_iff_length, oldLength,
        newLength]
      rfl

end WrittenHunk

/-- Hunks are read one by one, each from its own header. -/
theorem parse_writeHunks {hunks : List WrittenHunk}
    (headed : ∀ hunk ∈ hunks, Header.marker <+: hunk.first) :
    parse (writeHunks hunks) = hunks.flatMap WrittenHunk.diff := by
  have unbroken : ∀ line ∈ hunks.flatMap WrittenHunk.lines, '\n' ∉ line := by
    intro line membership
    obtain ⟨hunk, -, isLine⟩ := List.mem_flatMap.mp membership
    exact hunk.unbroken line isLine
  rw [parse, writeHunks, Text.cleanLines_terminate_unbroken unbroken]
  clear unbroken
  induction hunks with
  | nil => rfl
  | cons hunk rest inductionHypothesis =>
      obtain ⟨-, behind⟩ := List.forall_mem_cons.mp headed
      have restHeaded : ∀ first ∈ ((rest.flatMap WrittenHunk.lines).map Text.cleaned).head?,
          Header.marker <+: first := by
        intro first isFirst
        cases rest with
        | nil => cases isFirst
        | cons next later =>
            obtain rfl := Option.some.inj isFirst
            exact (prefix_cleaned (by decide)).mpr (behind next List.mem_cons_self)
      rw [List.flatMap_cons, List.map_append, readLines_append none _ restHeaded,
        inductionHypothesis behind, List.flatMap_cons]
      rfl

section Hunks

variable {hunks loosened : List WrittenHunk}

theorem headed_of_loosened (headed : ∀ hunk ∈ hunks, Header.marker <+: hunk.first)
    (loosens : List.Forall₂ WrittenHunk.LoosenedTo hunks loosened) :
    ∀ loose ∈ loosened, Header.marker <+: loose.first := by
  induction loosens with
  | nil => exact nofun
  | cons here _ inductionHypothesis =>
      obtain ⟨hunkHeaded, behind⟩ := List.forall_mem_cons.mp headed
      rw [List.forall_mem_cons, here.1]
      exact ⟨hunkHeaded, inductionHypothesis behind⟩

theorem flatMap_diff_loosened (exact : ∀ hunk ∈ hunks, hunk.Exact)
    (loosens : List.Forall₂ WrittenHunk.LoosenedTo hunks loosened) :
    loosened.flatMap WrittenHunk.diff = hunks.flatMap WrittenHunk.diff := by
  induction loosens with
  | nil => rfl
  | cons here _ inductionHypothesis =>
      obtain ⟨hunkExact, behind⟩ := List.forall_mem_cons.mp exact
      rw [List.flatMap_cons, List.flatMap_cons, here.diff_eq hunkExact,
        inductionHypothesis behind]

/-- Liberties with a patch do not change what is read from it.  That is a diff which holds
the lines of its hunks, just if these end within the 64-bit numbers. -/
theorem parse_loosened_and_map_render (exact : ∀ hunk ∈ hunks, hunk.Exact)
    (loosens : List.Forall₂ WrittenHunk.LoosenedTo hunks loosened) :
    parse? (writeHunks loosened) = parse? (writeHunks hunks) ∧
      ∃ diff, diff.map Line.render = hunks.flatMap WrittenHunk.diffTexts ∧
        GivesIf (∀ hunk ∈ hunks, hunk.EndsInRange) diff (parse? (writeHunks hunks)) := by
  have headed : ∀ hunk ∈ hunks, Header.marker <+: hunk.first := fun hunk isHunk =>
    (exact hunk isHunk).headed
  have read := parse_writeHunks headed
  constructor
  · apply parse?_congr
    rw [read, parse_writeHunks (headed_of_loosened headed loosens)]
    exact flatMap_diff_loosened exact loosens
  · refine ⟨hunks.flatMap WrittenHunk.diff, ?_, ?_⟩
    · rw [List.map_flatMap]
      apply List.flatMap_congr
      intro hunk isHunk
      exact WrittenHunk.map_render_diff (exact hunk isHunk)
    · have gives := parse?_givesIf (writeHunks hunks)
      rw [read] at gives
      exact gives.congr (WrittenHunk.hunksHaveRoom_flatMap_diff exact).symm

end Hunks

section Sample

/-- A hunk with an empty context line between others. -/
def sampleBlank : WrittenHunk where
  first := "@@ -1,3 +1,3 @@".toList
  body := [" a".toList, " ".toList, "-b".toList, "+c".toList]
  unbroken := by decide +kernel

/-- A hunk whose first line is an empty context line, with carriage returns. -/
def sampleReturns : WrittenHunk where
  first := "@@ -5,2 +5,2 @@\r".toList
  body := [" \r".toList, " x\r".toList]
  unbroken := by decide +kernel

def sampleBlankLoose : WrittenHunk where
  first := "@@ -1,3 +1,3 @@".toList
  body := [" a".toList, [], "-b".toList, "\\ No newline".toList, "+c".toList, [], "\\".toList, []]
  unbroken := by decide +kernel

def sampleReturnsLoose : WrittenHunk where
  first := "@@ -5,2 +5,2 @@\r".toList
  body := ["\\ here".toList, "\r".toList, " x\r".toList, "\r".toList]
  unbroken := by decide +kernel

theorem parse_loosened_and_map_render_sample :
    (∀ hunk ∈ [sampleBlank, sampleReturns], hunk.Exact) ∧
      List.Forall₂ WrittenHunk.LoosenedTo [sampleBlank, sampleReturns]
        [sampleBlankLoose, sampleReturnsLoose] ∧
      parse? (writeHunks [sampleBlankLoose, sampleReturnsLoose]) =
        some [.hunk "@@ -1,3 +1,3 @@".toList, .context 1 1 ['a'], .context 2 2 [], .deleted 3 ['b'],
          .added 3 ['c'], .hunk "@@ -5,2 +5,2 @@".toList, .context 5 5 [], .context 6 6 ['x']] := by
  have exact : ∀ hunk ∈ [sampleBlank, sampleReturns], hunk.Exact := by
    simp only [List.forall_mem_cons]
    refine ⟨⟨⟨1, 3, 1, 3⟩, by decide +kernel, ?_⟩, ⟨⟨5, 2, 5, 2⟩, by decide +kernel, ?_⟩, nofun⟩
    · exact .context (.context (.deleted (.added .nil)))
    · exact .context (.context .nil)
  have blankLoosened : sampleBlank.LoosenedTo sampleBlankLoose :=
    ⟨rfl, .kept (.stripped rfl (.kept (.noted rfl (.kept (.ended (by decide +kernel))))))⟩
  have returnsLoosened : sampleReturns.LoosenedTo sampleReturnsLoose :=
    ⟨rfl, .noted rfl (.stripped rfl (.kept (.ended (by decide +kernel))))⟩
  have loosens : List.Forall₂ WrittenHunk.LoosenedTo [sampleBlank, sampleReturns]
      [sampleBlankLoose, sampleReturnsLoose] := .cons blankLoosened (.cons returnsLoosened .nil)
  refine ⟨exact, loosens, ?_⟩
  rw [(parse_loosened_and_map_render exact loosens).1]
  decide +kernel

end Sample

end ChangeCoverage.Patch
