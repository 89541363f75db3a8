import ChangeCoverage.Proofs.Patch.Section

/-!
Malformed hunks.  A line that looks like a header sets the counters anew, or
leaves none if it cannot be read, so that nothing of what stands above it reaches
the lines below.  A patch is therefore read piece by piece, and a hunk with a
header that cannot be read is left out with its own lines alone.
-/

namespace ChangeCoverage.Text

section Concat

variable {marker : Text} {last : Char}

/-- A character behind a text completes no marker that does not hold it. -/
theorem after?_concat (absent : last ∉ marker) (text : Text) :
    after? marker (text ++ [last]) = (after? marker text).map (· ++ [last]) := by
  fun_induction after? marker text with
  | case1 text => rfl
  | case2 expected marker =>
      have differs : expected ≠ last := fun same => absent (same ▸ List.mem_cons_self)
      rw [List.nil_append, after?, if_neg differs]
      rfl
  | case3 marker expected rest inductionHypothesis =>
      rw [List.cons_append, after?, if_pos rfl]
      exact inductionHypothesis fun within => absent (List.mem_cons_of_mem _ within)
  | case4 expected marker character rest differs =>
      rw [List.cons_append, after?, if_neg differs]
      rfl

theorem splitFirst?_concat (filled : marker ≠ []) (absent : last ∉ marker) (text : Text) :
    splitFirst? marker (text ++ [last]) =
      (splitFirst? marker text).map fun parts => (parts.1, parts.2 ++ [last]) := by
  have unsplit : splitFirst? marker [] = none := by
    rw [splitFirst?, if_neg (by simpa using filled)]
  induction text with
  | nil =>
      have nowhere : after? marker [] = none := by
        apply Option.eq_none_iff_forall_ne_some.mpr
        intro following found
        exact filled (List.append_eq_nil_iff.mp (after?_eq_some_iff.mp found).symm).1
      have behind : after? marker [last] = none := by
        rw [← List.nil_append [last], after?_concat absent, nowhere]
        rfl
      rw [unsplit, List.nil_append, splitFirst?, behind]
      simp [unsplit]
  | cons character rest inductionHypothesis =>
      have here := after?_concat absent (character :: rest)
      rw [List.cons_append] at here ⊢
      rw [splitFirst?, splitFirst?, here]
      cases after? marker (character :: rest) with
      | some following => rfl
      | none =>
          simp only [Option.map_none, inductionHypothesis, Option.map_map]
          rfl

end Concat

end ChangeCoverage.Text

namespace ChangeCoverage.Patch

/-- A carriage return at the end of a line stands behind all that a header is read from. -/
theorem Header.parse?_dropReturn (line : Text) : parse? (Text.dropReturn line) = parse? line := by
  unfold Text.dropReturn
  split
  next isReturn =>
    obtain ⟨front, rfl⟩ := List.getLast?_eq_some_iff.mp isReturn
    have filled : ' ' :: marker ≠ [] := List.cons_ne_nil _ _
    have absent : '\r' ∉ ' ' :: marker := by decide
    rw [List.dropLast_concat, parse?, parse?, Text.after?_concat (by decide)]
    cases Text.after? (marker ++ [' ']) front with
    | none => rfl
    | some rest =>
        simp only [Option.map_some, Option.bind_eq_bind, Option.bind_some,
          Text.splitFirst?_concat filled absent rest]
        cases Text.splitFirst? (' ' :: marker) rest <;> rfl
  next => rfl

theorem Header.parse?_cleaned (line : Text) : parse? (Text.cleaned line) = parse? line := by
  rw [Text.cleaned, parse?_dropReturn, parse?_dropReturn]

/-- A text that is empty or begins with what looks like a header. -/
def StartsHeaded (text : Text) : Prop :=
  text = [] ∨ Header.marker <+: text

instance (text : Text) : Decidable (StartsHeaded text) :=
  inferInstanceAs (Decidable (_ ∨ _))

section Cursor

variable {cursor : Option Cursor} {line : Text}

/-- What looks like a header is read without regard to the counters before it. -/
theorem readLine_headed (headed : Header.marker <+: line) :
    readLine cursor line = readLine none line := by
  simp only [readLine, List.isPrefixOf_iff_prefix.mpr headed, if_true]

/-- A header that cannot be read leaves no counters and no line. -/
theorem readLine_malformed (headed : Header.marker <+: line)
    (malformed : Header.parse? line = none) : readLine cursor line = (none, none) := by
  simp only [readLine, List.isPrefixOf_iff_prefix.mpr headed, if_true, malformed]

theorem readLines_headed {patchLines : List Text}
    (headed : ∀ first ∈ patchLines.head?, Header.marker <+: first) :
    readLines cursor patchLines = readLines none patchLines := by
  cases patchLines with
  | nil => rfl
  | cons first rest => rw [readLines, readLines, readLine_headed (headed first rfl)]

/-- Lines below others are read from the counters that these leave, or from none
if a header comes first. -/
theorem readLines_append (cursor : Option Cursor) (front : List Text) {back : List Text}
    (headed : ∀ first ∈ back.head?, Header.marker <+: first) :
    readLines cursor (front ++ back) = readLines cursor front ++ readLines none back := by
  induction front generalizing cursor with
  | nil => exact readLines_headed headed
  | cons line rest inductionHypothesis =>
      simp only [List.cons_append, readLines, inductionHypothesis, List.append_assoc]

end Cursor

theorem prefix_marker_append {line rest : Text}
    (headed : Header.marker <+: line ++ '\n' :: rest) : Header.marker <+: line := by
  obtain ⟨back, whole⟩ := headed
  rcases List.append_eq_append_iff.mp whole with ⟨more, lineEq, -⟩ | ⟨beyond, markerEq, restEq⟩
  · exact ⟨more, lineEq.symm⟩
  · -- The marker does not reach into the line end.
    cases beyond with
    | nil => exact ⟨[], by rw [markerEq, List.append_nil, List.append_nil]⟩
    | cons first others =>
        obtain ⟨rfl, -⟩ := List.cons.inj restEq
        have broken : '\n' ∈ Header.marker := markerEq ▸ by simp
        exact absurd broken (by decide)

theorem headed_cleanLines {text : Text} (starts : StartsHeaded text) :
    ∀ first ∈ (Text.cleanLines text).head?, Header.marker <+: first := by
  rcases starts with rfl | headed
  · intro first isFirst
    cases isFirst
  · induction text using Text.line_induction with
    | last line unbroken =>
        have filled : line.isEmpty = false := by
          cases line with
          | nil => exact absurd (List.prefix_nil.mp headed) (by decide)
          | cons first rest => rfl
        rw [Text.cleanLines, Text.lines_last unbroken, filled, if_neg Bool.false_ne_true]
        intro first isFirst
        obtain rfl := Option.some.inj isFirst
        exact (prefix_dropReturn (by decide)).mpr headed
    | newline line rest unbroken =>
        rw [Text.cleanLines_unbroken unbroken]
        intro first isFirst
        obtain rfl := Option.some.inj isFirst
        exact (prefix_cleaned (by decide)).mpr (prefix_marker_append headed)

/-- Outside a hunk, lines that do not look like headers are passed over. -/
theorem readLines_skipped {skipped : List Text}
    (unheaded : ∀ line ∈ skipped, '\n' ∉ line ∧ ¬Header.marker <+: line) (back : Text) :
    readLines none (Text.cleanLines (Text.terminate skipped ++ back)) =
      readLines none (Text.cleanLines back) := by
  induction skipped with
  | nil => rfl
  | cons line later inductionHypothesis =>
      obtain ⟨⟨unbroken, differs⟩, behind⟩ := List.forall_mem_cons.mp unheaded
      have passed : ∀ clean ∈ [Text.cleaned line], ¬Header.marker <+: clean := by
        intro clean isClean
        rw [List.mem_singleton.mp isClean, prefix_cleaned (by decide)]
        exact differs
      rw [Text.terminate_cons, List.append_assoc, List.cons_append,
        Text.cleanLines_unbroken unbroken, ← List.singleton_append, readLines_unheaded passed,
        inductionHypothesis behind]

/-- Texts that each begin with what looks like a header are read one by one. -/
theorem parse_append {front back : Text} (ends : Text.EndsLine front)
    (starts : StartsHeaded back) : parse (front ++ back) = parse front ++ parse back := by
  rw [parse, Text.cleanLines_append ends, readLines_append none _ (headed_cleanLines starts)]
  rfl

/-- A hunk with a header that cannot be read gives no lines, whatever follows it. -/
theorem parse_malformed {malformed : Text} {skipped : List Text} (unbroken : '\n' ∉ malformed)
    (headed : Header.marker <+: malformed) (unreadable : Header.parse? malformed = none)
    (unheaded : ∀ line ∈ skipped, '\n' ∉ line ∧ ¬Header.marker <+: line) (back : Text) :
    parse (malformed ++ '\n' :: (Text.terminate skipped ++ back)) = parse back := by
  have cleanHeaded : Header.marker <+: Text.cleaned malformed :=
    (prefix_cleaned (by decide)).mpr headed
  have cleanUnreadable : Header.parse? (Text.cleaned malformed) = none := by
    rw [Header.parse?_cleaned, unreadable]
  rw [parse, Text.cleanLines_unbroken unbroken, readLines,
    readLine_malformed cleanHeaded cleanUnreadable]
  exact readLines_skipped unheaded back

/-- The counters of a diff that is put together stay in range just if those of both of its
parts do. -/
theorem parse?_eq_bind {whole front back : Text}
    (joined : parse whole = parse front ++ parse back) :
    parse? whole = (parse? front).bind fun above => (parse? back).map (above ++ ·) := by
  have gives := parse?_givesIf_countersFit whole
  rw [joined] at gives
  refine gives.eq (GivesIf.congr NumbersBelow.append_iff ?_)
  exact (parse?_givesIf_countersFit front).bind fun _ =>
    (parse?_givesIf_countersFit back).map (parse front ++ ·)

/-- A hunk with a header that cannot be read costs its own lines: what stands above
it is read as if the text ended there, and what begins with a header below it as if
the text began there. -/
theorem parse_malformed_and_append {front malformed back : Text} {skipped : List Text}
    {failure : Failure} (ends : Text.EndsLine front) (unbroken : '\n' ∉ malformed)
    (headed : Header.marker <+: malformed) (fails : Header.parse malformed = .error failure)
    (unheaded : ∀ line ∈ skipped, '\n' ∉ line ∧ ¬Header.marker <+: line)
    (starts : StartsHeaded back) :
    let both := (parse? front).bind fun above => (parse? back).map (above ++ ·)
    parse? (front ++ (malformed ++ '\n' :: (Text.terminate skipped ++ back))) = both ∧
      parse? (front ++ back) = both := by
  have unreadable : Header.parse? malformed = none := by
    unfold Header.parse at fails
    split at fails
    next => cases fails
    next missing => exact missing
  have startsMalformed :
      StartsHeaded (malformed ++ '\n' :: (Text.terminate skipped ++ back)) :=
    .inr (headed.trans (List.prefix_append malformed _))
  constructor
  · apply parse?_eq_bind
    rw [parse_append ends startsMalformed, parse_malformed unbroken headed unreadable unheaded]
  · exact parse?_eq_bind (parse_append ends starts)

section Sample

/-- A header without a number, with a carriage return at the end of its line. -/
def numberless : Text :=
  "@@ -x +9 @@\r".toList

/-- What stands under it: some lines look like those of a hunk, and one is empty. -/
def leftover : List Text :=
  ["+lost".toList, "-lost".toList, [], "--- a".toList]

def hunkAbove : Text := "@@ -1 +1 @@\n-a\n".toList

def hunkBelow : Text := "@@ -9 +9 @@\n+z".toList

end Sample

/-- Between two hunks a third one is left out, and the lines of the hunk below it are
numbered from their own header. -/
theorem parse_malformed_and_append_numberless :
    Header.parse numberless = .error (.malformedHunkHeader numberless) ∧
      parse? (hunkAbove ++ (numberless ++ '\n' :: (Text.terminate leftover ++ hunkBelow))) =
        some [.hunk "@@ -1 +1 @@".toList, .deleted 1 ['a'],
          .hunk "@@ -9 +9 @@".toList, .added 9 ['z']] := by
  have fails : Header.parse numberless = .error (.malformedHunkHeader numberless) := by
    decide +kernel
  have ends : Text.EndsLine hunkAbove := by decide
  have unheaded : ∀ line ∈ leftover, '\n' ∉ line ∧ ¬Header.marker <+: line := by decide
  have starts : StartsHeaded hunkBelow := by decide
  obtain ⟨recovered, -⟩ :=
    parse_malformed_and_append ends (by decide) (by decide) fails unheaded starts
  refine ⟨fails, ?_⟩
  rw [recovered]
  decide +kernel

end ChangeCoverage.Patch
