import ChangeCoverage.Proofs.Branch.Sweep
import ChangeCoverage.Proofs.Source.Nesting

/-!
The events along a line are its marks: headers are found at characters of the
line, from left to right, so that cutting the line at their offsets keeps all
braces and puts each header before the braces behind it.
-/

namespace ChangeCoverage.Branch

open Source (Brace ScopeEntry LexState)

/-- Headers that stand at characters of a text, each at another one and from
left to right. -/
inductive Placed : Nat → Text → List Header → Prop where
  | none (offset : Nat) (text : Text) : Placed offset text []
  | skip {offset : Nat} {character : Char} {rest : Text} {found : List Header} :
      Placed (offset + character.utf8Size) rest found → Placed offset (character :: rest) found
  | here {offset : Nat} {character : Char} {rest : Text} {header : Header} {later : List Header} :
      header.column = offset → Placed (offset + character.utf8Size) rest later →
        Placed offset (character :: rest) (header :: later)

theorem Placed.le_column {offset : Nat} {text : Text} {found : List Header}
    (placed : Placed offset text found) : ∀ header ∈ found, offset ≤ header.column := by
  induction placed with
  | none => simp
  | skip _ inductionHypothesis =>
      intro header membership
      exact Nat.le_trans (Nat.le_add_right _ _) (inductionHypothesis header membership)
  | here atOffset _ inductionHypothesis =>
      intro header membership
      rcases List.mem_cons.mp membership with equality | later
      · exact equality ▸ Nat.le_of_eq atOffset.symm
      · exact Nat.le_trans (Nat.le_add_right _ _) (inductionHypothesis header later)

theorem Placed.pairwise {offset : Nat} {text : Text} {found : List Header}
    (placed : Placed offset text found) : found.Pairwise (·.column < ·.column) := by
  induction placed with
  | none => exact .nil
  | skip _ inductionHypothesis => exact inductionHypothesis
  | @here offset character rest header later atOffset placed inductionHypothesis =>
      refine .cons ?_ inductionHypothesis
      intro other membership
      have behind := placed.le_column other membership
      have size := character.utf8Size_pos
      omega

theorem placed_occurrencesFrom (complete : Occurrence → Header)
    (sameColumn : ∀ found, (complete found).column = found.column)
    (offset : Nat) (afterWord : Bool) (further : Nat) (text : Text) :
    Placed offset text ((occurrencesFrom offset afterWord further text).map complete) := by
  induction text generalizing offset afterWord further with
  | nil =>
      cases further <;> exact .none offset []
  | cons character rest inductionHypothesis =>
      cases further with
      | succ further => exact .skip (inductionHypothesis _ _ _)
      | zero =>
          rw [occurrencesFrom]
          cases (if afterWord then none else headerAt? (character :: rest)) with
          | none => exact .skip (inductionHypothesis _ _ _)
          | some found => exact .here (sameColumn _) (inductionHypothesis _ _ _)

theorem column_ofOccurrence (masked raw : Text) (found : Occurrence) :
    (Header.ofOccurrence masked raw found).column = found.column := by
  unfold Header.ofOccurrence
  split
  · split <;> rfl
  · rfl

theorem placed_headers (masked raw : Text) : Placed 0 masked (headers masked raw) :=
  placed_occurrencesFrom _ (column_ofOccurrence masked raw) 0 false 0 masked

/-- No header is at a character that all headers stand behind. -/
theorem eventsFrom_cons (offset : Nat) (character : Char) (rest : Text) (found : List Header)
    (behind : ∀ header ∈ found, offset + character.utf8Size ≤ header.column) :
    eventsFrom offset (character :: rest) found =
      (Source.braces [character]).map .brace ++
        eventsFrom (offset + character.utf8Size) rest found := by
  cases found with
  | nil =>
      simp only [eventsFrom]
      rw [Source.braces_cons, List.map_append]
  | cons header later =>
      have far := behind header List.mem_cons_self
      have size := character.utf8Size_pos
      obtain ⟨distance, distanceEq⟩ :
          ∃ distance, header.column - offset = distance + 1 :=
        ⟨header.column - offset - 1, by omega⟩
      have cut : Text.splitAt? (header.column - offset) (character :: rest) =
          (Text.splitAt? (header.column - (offset + character.utf8Size)) rest).map fun parts =>
            (character :: parts.1, parts.2) := by
        rw [distanceEq, Text.splitAt?, if_pos (by omega)]
        congr 2
        omega
      simp only [eventsFrom, cut]
      cases Text.splitAt? (header.column - (offset + character.utf8Size)) rest with
      | none =>
          simp only [Option.map_none, Option.getD_none]
          rw [Source.braces_cons, List.map_append, List.append_assoc]
      | some parts =>
          simp only [Option.map_some, Option.getD_some]
          rw [Source.braces_cons, List.map_append, List.append_assoc]

def Event.mark (line : SourceLine) : Event → Mark
  | .brace met => .brace line.number met
  | .header found => .header line found

theorem marksFrom_cons (line : SourceLine) (header : Header) (later : List Header)
    {offset : Nat} (text : Text) (before : header.column < offset) :
    marksFrom line (header :: later) offset text = marksFrom line later offset text := by
  induction text generalizing offset with
  | nil => rfl
  | cons character rest inductionHypothesis =>
      rw [marksFrom, marksFrom, inductionHypothesis (by omega),
        List.filter_cons_of_neg (by simpa using Nat.ne_of_lt before)]

/-- No mark of a header comes from a character that all headers stand behind. -/
theorem marksFrom_skip (line : SourceLine) {offset : Nat} {character : Char} (rest : Text)
    {found : List Header}
    (behind : ∀ header ∈ found, offset + character.utf8Size ≤ header.column) :
    marksFrom line found offset (character :: rest) =
      (Source.braces [character]).map (.brace line.number) ++
        marksFrom line found (offset + character.utf8Size) rest := by
  have nothing : found.filter (·.column = offset) = [] :=
    List.filter_eq_nil_iff.mpr fun header membership => by
      have far := behind header membership
      have size := character.utf8Size_pos
      simp only [decide_eq_true_eq]
      omega
  rw [marksFrom, nothing]
  rfl

/-- The first header comes before the brace at its own character. -/
theorem marksFrom_here (line : SourceLine) {offset : Nat} {character : Char} (rest : Text)
    {header : Header} {later : List Header} (atOffset : header.column = offset)
    (behind : ∀ other ∈ later, offset + character.utf8Size ≤ other.column) :
    marksFrom line (header :: later) offset (character :: rest) =
      .header line header :: ((Source.braces [character]).map (.brace line.number) ++
        marksFrom line later (offset + character.utf8Size) rest) := by
  have size := character.utf8Size_pos
  have only : (header :: later).filter (·.column = offset) = [header] := by
    rw [List.filter_cons_of_pos (by simpa using atOffset)]
    congr 1
    apply List.filter_eq_nil_iff.mpr
    intro other membership
    have far := behind other membership
    simp only [decide_eq_true_eq]
    omega
  rw [marksFrom, only, marksFrom_cons line header later rest (by omega)]
  rfl

theorem map_mark_eventsFrom (line : SourceLine) {offset : Nat} {text : Text}
    {found : List Header} (placed : Placed offset text found) :
    (eventsFrom offset text found).map (Event.mark line) = marksFrom line found offset text := by
  induction placed with
  | none offset text =>
      induction text generalizing offset with
      | nil => rfl
      | cons character rest inductionHypothesis =>
          rw [eventsFrom_cons offset character rest [] (by simp),
            marksFrom_skip line rest (by simp), List.map_append, inductionHypothesis]
          simp [Event.mark]
  | @skip offset character rest found placed inductionHypothesis =>
      rw [eventsFrom_cons offset character rest found placed.le_column,
        marksFrom_skip line rest placed.le_column, List.map_append, inductionHypothesis]
      simp [Event.mark]
  | @here offset character rest header later atOffset placed inductionHypothesis =>
      have cut : eventsFrom offset (character :: rest) (header :: later) =
          .header header :: eventsFrom offset (character :: rest) later := by
        simp [eventsFrom, atOffset, Text.splitAt?, Source.braces]
      rw [cut, eventsFrom_cons offset character rest later placed.le_column,
        marksFrom_here line rest atOffset placed.le_column, List.map_cons, List.map_append,
        inductionHypothesis]
      simp [Event.mark]

theorem header_of_mem_marksFrom {line other : SourceLine} {found : List Header} {header : Header}
    {offset : Nat} {text : Text}
    (membership : .header other header ∈ marksFrom line found offset text) :
    other = line ∧ header ∈ found := by
  induction text generalizing offset with
  | nil => exact absurd membership List.not_mem_nil
  | cons character rest inductionHypothesis =>
      simp only [marksFrom, List.mem_append, List.mem_map, List.mem_filter, Mark.header.injEq,
        reduceCtorEq, and_false, exists_false, or_false] at membership
      rcases membership with ⟨_, ⟨isFound, _⟩, same, rfl⟩ | later
      · exact ⟨same.symm, isFound⟩
      · exact inductionHypothesis later

theorem header_of_mem_lineMarks {hot : Bool} {line other : SourceLine} {header : Header}
    (membership : .header other header ∈ lineMarks hot line) :
    other = line ∧ header ∈ headers line.masked line.raw := by
  rcases List.mem_append.mp membership with inLine | atEnd
  · obtain ⟨same, isFound⟩ := header_of_mem_marksFrom inLine
    cases hot with
    | true => exact ⟨same, isFound⟩
    | false => exact absurd isFound List.not_mem_nil
  · simp at atEnd

theorem header_of_mem_fileMarks {fileLines : List Text} {scopes : List ScopeEntry}
    {changed : List Nat} {line : SourceLine} {header : Header}
    (membership : .header line header ∈ fileMarks fileLines scopes changed) :
    line ∈ sourceLines 1 .code fileLines scopes ∧ header ∈ headers line.masked line.raw := by
  obtain ⟨found, isLine, isMark⟩ := List.mem_flatMap.mp membership
  obtain ⟨rfl, isFound⟩ := header_of_mem_lineMarks isMark
  exact ⟨isLine, isFound⟩

end ChangeCoverage.Branch
