import ChangeCoverage.Text.Lines

/-!
Writing lines and reading them back.  A line can hold anything but a newline,
and a carriage return at its end would be taken for part of the line end.
-/

namespace ChangeCoverage.Text

def IsLine (text : Text) : Prop :=
  '\n' ∉ text ∧ text.getLast? ≠ some '\r'

instance (text : Text) : Decidable (IsLine text) :=
  inferInstanceAs (Decidable (_ ∧ _))

def terminate (fileLines : List Text) : Text :=
  fileLines.flatMap fun line => line ++ ['\n']

@[simp]
theorem terminate_nil : terminate [] = [] := rfl

@[simp]
theorem terminate_cons (line : Text) (rest : List Text) :
    terminate (line :: rest) = line ++ '\n' :: terminate rest := by
  simp [terminate]

/-- The characters before a newline are collected into the current line. -/
theorem linesFrom_append {line : Text} (unbroken : '\n' ∉ line) (front rest : Text) :
    linesFrom front (line ++ rest) = linesFrom (line.reverse ++ front) rest := by
  induction line generalizing front with
  | nil => rfl
  | cons character following inductionHypothesis =>
      simp only [List.mem_cons, not_or] at unbroken
      have differs : character ≠ '\n' := Ne.symm unbroken.1
      simp [linesFrom, differs, inductionHypothesis unbroken.2]

theorem dropReturn_line {line : Text} (isLine : IsLine line) : dropReturn line = line :=
  if_neg isLine.2

theorem dropReturn_prefix (line : Text) : dropReturn line <+: line := by
  unfold dropReturn
  split
  · exact List.dropLast_prefix line
  · exact List.prefix_rfl

/-- Only what a line ends with can be dropped. -/
theorem dropReturn_append {front : Text} (unended : front.getLast? ≠ some '\r') (back : Text) :
    dropReturn (front ++ back) = front ++ dropReturn back := by
  rcases List.eq_nil_or_concat back with rfl | ⟨middle, last, rfl⟩
  · simp [dropReturn, unended]
  · by_cases isReturn : last = '\r'
    · simp [dropReturn, isReturn, ← List.append_assoc]
    · simp [dropReturn, isReturn, ← List.append_assoc]

/-- A line as it is read: a carriage return that belongs to the line end is dropped,
and so is one left before it. -/
def cleaned (line : Text) : Text :=
  dropReturn (dropReturn line)

theorem cleaned_cons {first : Char} (solid : first ≠ '\r') (rest : Text) :
    cleaned (first :: rest) = first :: cleaned rest := by
  have unended : [first].getLast? ≠ some '\r' := by simpa using solid
  rw [cleaned, cleaned, ← List.singleton_append, dropReturn_append unended,
    dropReturn_append unended]
  rfl

theorem lines_newline {line : Text} (unbroken : '\n' ∉ line) (rest : Text) :
    lines (line ++ '\n' :: rest) = dropReturn line :: lines rest := by
  rw [lines, linesFrom_append unbroken]
  simp only [linesFrom, List.append_nil, List.head?_reverse, if_true, dropReturn, lines]
  split <;> simp

/-- Text without a newline that ends with at most one carriage return. -/
structure IsEnded (line : Text) : Prop where
  unbroken : '\n' ∉ line
  isLine : IsLine (dropReturn line)

theorem IsLine.isEnded {line : Text} (isLine : IsLine line) : IsEnded line :=
  ⟨isLine.1, (dropReturn_line isLine).symm ▸ isLine⟩

theorem IsEnded.cleaned_eq {line : Text} (isEnded : IsEnded line) :
    cleaned line = dropReturn line :=
  dropReturn_line isEnded.isLine

theorem cleanLines_unbroken {line : Text} (unbroken : '\n' ∉ line) (rest : Text) :
    cleanLines (line ++ '\n' :: rest) = cleaned line :: cleanLines rest := by
  rw [cleanLines, lines_newline unbroken, List.map_cons, cleaned, cleanLines]

theorem cleanLines_terminate_unbroken {fileLines : List Text}
    (unbroken : ∀ line ∈ fileLines, '\n' ∉ line) :
    cleanLines (terminate fileLines) = fileLines.map cleaned := by
  induction fileLines with
  | nil => rfl
  | cons line rest inductionHypothesis =>
      obtain ⟨here, behind⟩ := List.forall_mem_cons.mp unbroken
      rw [terminate_cons, cleanLines_unbroken here, inductionHypothesis behind, List.map_cons]

/-- Reading terminated lines frees each of them of a carriage return at its end. -/
theorem cleanLines_terminate_map {fileLines : List Text}
    (areEnded : ∀ line ∈ fileLines, IsEnded line) :
    cleanLines (terminate fileLines) = fileLines.map dropReturn := by
  rw [cleanLines_terminate_unbroken fun line membership => (areEnded line membership).unbroken]
  apply List.map_congr_left
  intro line membership
  exact (areEnded line membership).cleaned_eq

theorem cleanLines_terminate {fileLines : List Text}
    (areLines : ∀ line ∈ fileLines, IsLine line) :
    cleanLines (terminate fileLines) = fileLines := by
  rw [cleanLines_terminate_map fun line membership => (areLines line membership).isEnded]
  exact (List.map_congr_left fun line membership =>
    dropReturn_line (areLines line membership)).trans (List.map_id fileLines)

theorem cleanLines_newline {line : Text} (isLine : IsLine line) (rest : Text) :
    cleanLines (line ++ '\n' :: rest) = line :: cleanLines rest := by
  rw [cleanLines_unbroken isLine.1, isLine.isEnded.cleaned_eq, dropReturn_line isLine]

theorem lines_last {line : Text} (unbroken : '\n' ∉ line) :
    lines line = if line.isEmpty then [] else [line] := by
  have unread := linesFrom_append unbroken [] []
  rw [List.append_nil] at unread
  rw [lines, unread]
  cases line <;> simp [linesFrom]

theorem cleanLines_last {line : Text} (isLine : IsLine line) :
    cleanLines line = if line.isEmpty then [] else [line] := by
  rw [cleanLines, lines_last isLine.1]
  cases line <;> simp [dropReturn_line isLine]

theorem lines_terminate_append {fileLines : List Text}
    (areLines : ∀ line ∈ fileLines, IsLine line) (rest : Text) :
    lines (terminate fileLines ++ rest) = fileLines ++ lines rest := by
  induction fileLines with
  | nil => rfl
  | cons line later inductionHypothesis =>
      obtain ⟨isLine, laterLines⟩ := List.forall_mem_cons.mp areLines
      rw [terminate_cons, List.append_assoc, List.cons_append, lines_newline isLine.1,
        dropReturn_line isLine, inductionHypothesis laterLines, List.cons_append]

/-- A text is a line without an end, or it goes on after its first newline. -/
@[elab_as_elim]
theorem line_induction {motive : Text → Prop}
    (last : ∀ line, '\n' ∉ line → motive line)
    (newline : ∀ line rest, '\n' ∉ line → motive rest → motive (line ++ '\n' :: rest))
    (text : Text) : motive text := by
  have behind (text front : Text) (unbroken : '\n' ∉ front) : motive (front ++ text) := by
    induction text generalizing front with
    | nil => exact (List.append_nil front).symm ▸ last front unbroken
    | cons character rest inductionHypothesis =>
        by_cases isNewline : character = '\n'
        · subst isNewline
          exact newline front rest unbroken (inductionHypothesis [] (by simp))
        · have longer := inductionHypothesis (front ++ [character])
            (by simp [unbroken, Ne.symm isNewline])
          rwa [List.append_assoc] at longer
  exact behind text [] (by simp)

/-- A text behind which a new line starts. -/
def EndsLine (text : Text) : Prop :=
  text = [] ∨ text.getLast? = some '\n'

instance (text : Text) : Decidable (EndsLine text) :=
  inferInstanceAs (Decidable (_ ∨ _))

/-- Lines are read alike in front of others and behind them. -/
theorem cleanLines_append {front : Text} (ends : EndsLine front) (back : Text) :
    cleanLines (front ++ back) = cleanLines front ++ cleanLines back := by
  induction front using line_induction with
  | last line unbroken =>
      rcases ends with rfl | ended
      · rfl
      · exact absurd (List.mem_of_getLast? ended) unbroken
  | newline line rest unbroken inductionHypothesis =>
      have restEnds : EndsLine rest := by
        rcases List.eq_nil_or_concat rest with empty | ⟨middle, last, rfl⟩
        · exact .inl empty
        · right
          simpa [EndsLine, List.getLast?_append, List.getLast?_cons] using ends
      rw [List.append_assoc, List.cons_append, cleanLines_unbroken unbroken,
        cleanLines_unbroken unbroken, inductionHypothesis restEnds, List.cons_append]

theorem unbroken_of_mem_cleanLines {text line : Text} (membership : line ∈ cleanLines text) :
    '\n' ∉ line := by
  have shorter {whole : Text} (unbroken : '\n' ∉ whole) : '\n' ∉ dropReturn whole := by
    have within := dropReturn_prefix whole
    exact fun broken => unbroken (within.subset broken)
  induction text using line_induction with
  | last whole unbroken =>
      rw [cleanLines, lines_last unbroken] at membership
      split at membership
      · cases membership
      · rw [List.mem_singleton.mp membership]
        exact shorter unbroken
  | newline whole rest unbroken inductionHypothesis =>
      rw [cleanLines_unbroken unbroken] at membership
      rcases List.mem_cons.mp membership with rfl | behind
      · exact shorter (shorter unbroken)
      · exact inductionHypothesis behind

/-- The lines of a text without carriage returns hold neither part of a line end. -/
theorem isLine_of_mem_cleanLines {text : Text} (noReturn : '\r' ∉ text) :
    ∀ line ∈ cleanLines text, IsLine line := by
  induction text using line_induction with
  | last line unbroken =>
      have isLine : IsLine line :=
        ⟨unbroken, fun ended => noReturn (List.mem_of_getLast? ended)⟩
      intro found membership
      rw [cleanLines_last isLine] at membership
      split at membership
      · exact absurd membership List.not_mem_nil
      · exact List.mem_singleton.mp membership ▸ isLine
  | newline line rest unbroken inductionHypothesis =>
      rw [List.mem_append, List.mem_cons, not_or, not_or] at noReturn
      obtain ⟨lineNoReturn, -, restNoReturn⟩ := noReturn
      have isLine : IsLine line :=
        ⟨unbroken, fun ended => lineNoReturn (List.mem_of_getLast? ended)⟩
      rw [cleanLines_newline isLine]
      exact List.forall_mem_cons.mpr ⟨isLine, inductionHypothesis restNoReturn⟩

/-- The lines that are read back when lines have been joined by newlines: an
empty line at the end is taken for the end of the line before it. -/
def withoutEmptyEnd (fileLines : List Text) : List Text :=
  if fileLines.getLast? = some [] then fileLines.dropLast else fileLines

theorem cleanLines_joinLines {fileLines : List Text}
    (areLines : ∀ line ∈ fileLines, IsLine line) :
    cleanLines (joinLines fileLines) = withoutEmptyEnd fileLines := by
  induction fileLines with
  | nil => rfl
  | cons line rest inductionHypothesis =>
      obtain ⟨isLine, restLines⟩ := List.forall_mem_cons.mp areLines
      cases rest with
      | nil =>
          have alone : joinLines [line] = line := by simp [joinLines]
          rw [alone, cleanLines_last isLine]
          cases line <;> rfl
      | cons second others =>
          have joined : joinLines (line :: second :: others) =
              line ++ '\n' :: joinLines (second :: others) := by
            simp [joinLines, List.intercalate]
          have sameEnd : (line :: second :: others).getLast? = (second :: others).getLast? :=
            List.getLast?_cons_cons
          rw [joined, cleanLines_newline isLine, inductionHypothesis restLines, withoutEmptyEnd,
            withoutEmptyEnd, sameEnd]
          split <;> rfl

end ChangeCoverage.Text
