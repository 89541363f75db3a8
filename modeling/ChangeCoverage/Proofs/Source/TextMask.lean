import ChangeCoverage.Proofs.Text.Lines
import ChangeCoverage.Source.Mask

/-!
Masking a text as a whole.  A newline is kept and ends what cannot span lines;
apart from that the text is masked character by character like a line, and its
lines come out as if they had been masked one after the other.
-/

namespace ChangeCoverage.Source

/-- A masked text with more masked text before it. -/
def prepend (front : Text) (result : Text × LexState) : Text × LexState :=
  (front ++ result.1, result.2)

@[simp]
theorem prepend_prepend (front middle : Text) (result : Text × LexState) :
    prepend front (prepend middle result) = prepend (front ++ middle) result := by
  simp [prepend]

/-- Masks the rest of a text, as `maskFrom` does for a line. -/
def maskText (state : LexState) (lead : Lead) : Nat → Text → Text × LexState
  | _, [] => ([], state)
  | further + 1, character :: rest =>
      if character = '\n' then prepend ['\n'] (maskText state.atLineEnd .plain 0 rest)
      else prepend (blank character) (maskText state (lead.next character) further rest)
  | 0, character :: rest =>
      if character = '\n' then prepend ['\n'] (maskText state.atLineEnd .plain 0 rest)
      else
        let step := state.step lead character rest
        prepend (if step.masked then blank character else [character])
          (maskText step.state (lead.next character) step.further rest)

variable {state : LexState} {lead : Lead} {further : Nat} {character : Char}

theorem maskText_newline (rest : Text) :
    maskText state lead further ('\n' :: rest) =
      prepend ['\n'] (maskText state.atLineEnd .plain 0 rest) := by
  cases further <;> rw [maskText, if_pos rfl]

theorem maskText_further (noBreak : character ≠ '\n') (rest : Text) :
    maskText state lead (further + 1) (character :: rest) =
      prepend (blank character) (maskText state (lead.next character) further rest) := by
  rw [maskText, if_neg noBreak]

theorem maskText_step (noBreak : character ≠ '\n') (rest : Text) :
    maskText state lead 0 (character :: rest) =
      let step := state.step lead character rest
      prepend (if step.masked then blank character else [character])
        (maskText step.state (lead.next character) step.further rest) := by
  rw [maskText, if_neg noBreak]

/-- Two characters that one token can take together. -/
def Joins (character next : Char) : Prop :=
  character = '"' ∧ next = '"' ∨ character = '/' ∧ (next = '/' ∨ next = '*') ∨
    character = '*' ∧ next = '/'

/-- Whether no token goes on over the border between two texts. -/
def Apart (front rest : Text) : Prop :=
  ∀ last ∈ front.getLast?, ∀ next ∈ rest.head?, ¬Joins last next

theorem Apart.tail {character : Char} {front rest : Text}
    (apart : Apart (character :: front) rest) : Apart front rest := by
  intro last isLast
  cases front with
  | nil => exact absurd isLast (Option.not_mem_none last)
  | cons second others => exact apart last isLast

/-- Quotes behind a quote are counted up to a border that no quote joins. -/
theorem quoteRun_append {front rest : Text} (apart : Apart ('"' :: front) rest) :
    quoteRun (front ++ rest) = quoteRun front := by
  unfold quoteRun
  rw [List.takeWhile_append]
  split
  next whole =>
    have allQuotes : front.takeWhile (· = '"') = front :=
      (List.takeWhile_prefix _).eq_of_length whole
    have ended : ('"' :: front).getLast? = some '"' := by
      cases found : front.getLast? with
      | none => simp [List.getLast?_cons, found]
      | some last =>
          have isQuote := List.all_eq_true.mp (allQuotes ▸ List.all_takeWhile) last
            (List.mem_of_getLast? found)
          simpa [List.getLast?_cons, found] using isQuote
    have stops : rest.takeWhile (· = '"') = [] := by
      cases rest with
      | nil => rfl
      | cons first others =>
          have differs : first ≠ '"' := fun isQuote => apart _ ended first rfl (.inl ⟨rfl, isQuote⟩)
          simp [differs]
    rw [stops, List.append_nil, allQuotes]
  next => rfl

/-- A token does not look ahead over a border that no token joins. -/
theorem step_append (state : LexState) (lead : Lead) {character : Char} {front rest : Text}
    (apart : Apart (character :: front) rest) :
    state.step lead character (front ++ rest) = state.step lead character front := by
  have same (expected mark : Char) (joins : Joins expected mark) :
      (character = expected ∧ (front ++ rest).head? = some mark) ↔
        (character = expected ∧ front.head? = some mark) := by
    apply and_congr_right
    rintro rfl
    cases front with
    | nil =>
        constructor
        · intro isMark
          exact absurd joins (apart character rfl mark isMark)
        · intro isMark
          exact absurd isMark (Option.not_mem_none mark)
    | cons first others => rfl
  have quotes := same '"' '"' (.inl ⟨rfl, rfl⟩)
  have lineOpens := same '/' '/' (.inr (.inl ⟨rfl, .inl rfl⟩))
  have blockOpens := same '/' '*' (.inr (.inl ⟨rfl, .inr rfl⟩))
  have blockCloses := same '*' '/' (.inr (.inr ⟨rfl, rfl⟩))
  by_cases isQuote : character = '"'
  · have run : quoteRun (front ++ rest) = quoteRun front := quoteRun_append (isQuote ▸ apart)
    cases state <;>
      simp only [LexState.step, codeStep, quotes, lineOpens, blockOpens, blockCloses, run]
  · cases state <;>
      simp only [LexState.step, codeStep, quotes, lineOpens, blockOpens, blockCloses,
        if_neg isQuote]

theorem apart_newline (front rest : Text) : Apart front ('\n' :: rest) := by
  intro last isLast next isNext
  cases isNext
  rintro (⟨-, isBreak⟩ | ⟨-, isBreak | isBreak⟩ | ⟨-, isBreak⟩) <;> revert isBreak <;> decide

theorem maskText_line {line : Text} (unbroken : '\n' ∉ line) (rest : Text) :
    maskText state lead further (line ++ '\n' :: rest) =
      prepend ((maskFrom state lead further line).1 ++ ['\n'])
        (maskText (maskFrom state lead further line).2.atLineEnd .plain 0 rest) := by
  induction line generalizing state lead further with
  | nil => rw [List.nil_append, maskText_newline]; cases further <;> rfl
  | cons character later inductionHypothesis =>
      rw [List.mem_cons, not_or] at unbroken
      obtain ⟨noBreak, laterUnbroken⟩ := unbroken
      rw [List.cons_append]
      cases further with
      | succ further =>
          rw [maskText_further (Ne.symm noBreak), inductionHypothesis laterUnbroken, maskFrom]
          simp
      | zero =>
          rw [maskText_step (Ne.symm noBreak), step_append _ _ (apart_newline _ _)]
          simp only [inductionHypothesis laterUnbroken, maskFrom]
          simp

theorem maskText_last {line : Text} (unbroken : '\n' ∉ line) :
    maskText state lead further line = maskFrom state lead further line := by
  induction line generalizing state lead further with
  | nil => cases further <;> rfl
  | cons character later inductionHypothesis =>
      rw [List.mem_cons, not_or] at unbroken
      obtain ⟨noBreak, laterUnbroken⟩ := unbroken
      cases further with
      | succ further =>
          rw [maskText_further (Ne.symm noBreak), inductionHypothesis laterUnbroken, maskFrom]
          rfl
      | zero =>
          rw [maskText_step (Ne.symm noBreak)]
          simp only [inductionHypothesis laterUnbroken, maskFrom]
          rfl

theorem mem_blank {space : Char} (membership : space ∈ blank character) : space = ' ' :=
  List.eq_of_mem_replicate membership

theorem mem_maskFrom {line : Text} {found : Char}
    (membership : found ∈ (maskFrom state lead further line).1) : found = ' ' ∨ found ∈ line := by
  induction line generalizing state lead further with
  | nil => cases further <;> simp [maskFrom] at membership
  | cons character later inductionHypothesis =>
      cases further with
      | succ further =>
          simp only [maskFrom, List.mem_append] at membership
          rcases membership with here | behind
          · exact .inl (mem_blank here)
          · exact (inductionHypothesis behind).imp_right (List.mem_cons_of_mem _)
      | zero =>
          simp only [maskFrom, List.mem_append] at membership
          rcases membership with here | behind
          · split at here
            · exact .inl (mem_blank here)
            · exact .inr (by simp_all)
          · exact (inductionHypothesis behind).imp_right (List.mem_cons_of_mem _)

theorem isLine_maskLine {line : Text} (isLine : Text.IsLine line) (noReturn : '\r' ∉ line)
    (state : LexState) : Text.IsLine (maskLine line state).1 := by
  have absent {found : Char} (other : found ≠ ' ') (unheld : found ∉ line) :
      found ∉ (maskLine line state).1 := fun membership =>
    (mem_maskFrom membership).elim other unheld
  exact ⟨absent (by decide) isLine.1, fun ended =>
    absent (by decide) noReturn (List.mem_of_getLast? ended)⟩

theorem isEmpty_maskLine (line : Text) (state : LexState) :
    (maskLine line state).1.isEmpty = line.isEmpty := by
  have size := byteSize_maskLine line state
  have positive (character : Char) := character.utf8Size_pos
  cases maskedEq : (maskLine line state).1 with
  | nil =>
      cases line with
      | nil => rfl
      | cons character rest =>
          rw [maskedEq, Text.byteSize_nil, Text.byteSize_cons] at size
          have := positive character
          omega
  | cons first others =>
      cases line with
      | nil =>
          rw [maskedEq, Text.byteSize_nil, Text.byteSize_cons] at size
          have := positive first
          omega
      | cons character rest => rfl

theorem atLineEnd_atLineEnd (state : LexState) : state.atLineEnd.atLineEnd = state.atLineEnd := by
  cases state <;> rfl

/-- Masking the lines of a text one after the other masks the text. -/
theorem maskLines_cleanLines {text : Text} (noReturn : '\r' ∉ text) {state : LexState}
    (startsLine : state.atLineEnd = state) :
    (maskLines state (Text.cleanLines text)).map (·.1) =
        Text.cleanLines (maskText state .plain 0 text).1 ∧
      ((maskLines state (Text.cleanLines text)).getLast?.map (·.2)).getD state =
        (maskText state .plain 0 text).2.atLineEnd := by
  induction text using Text.line_induction generalizing state with
  | last line unbroken =>
      have isLine : Text.IsLine line :=
        ⟨unbroken, fun ended => noReturn (List.mem_of_getLast? ended)⟩
      have masked := isLine_maskLine isLine noReturn state
      rw [maskText_last unbroken]
      change _ = Text.cleanLines (maskLine line state).1 ∧ _ = (maskLine line state).2.atLineEnd
      rw [Text.cleanLines_last isLine, Text.cleanLines_last masked, isEmpty_maskLine]
      cases line with
      | nil => exact ⟨rfl, startsLine.symm⟩
      | cons character rest => exact ⟨rfl, rfl⟩
  | newline line rest unbroken inductionHypothesis =>
      rw [List.mem_append, List.mem_cons, not_or, not_or] at noReturn
      obtain ⟨lineNoReturn, -, restNoReturn⟩ := noReturn
      have isLine : Text.IsLine line :=
        ⟨unbroken, fun ended => lineNoReturn (List.mem_of_getLast? ended)⟩
      have masked := isLine_maskLine isLine lineNoReturn state
      obtain ⟨texts, states⟩ := inductionHypothesis restNoReturn
        (atLineEnd_atLineEnd (maskLine line state).2)
      rw [maskText_line unbroken]
      have unbrokenMasked := Text.cleanLines_newline masked
        (maskText (maskLine line state).2.atLineEnd .plain 0 rest).1
      rw [Text.cleanLines_newline isLine]
      constructor
      · simp only [maskLines, List.map_cons, texts, prepend, List.append_assoc]
        exact unbrokenMasked.symm
      · rw [maskLines, List.getLast?_cons, prepend]
        refine Eq.trans ?_ states
        cases (maskLines (maskLine line state).2.atLineEnd (Text.cleanLines rest)).getLast? <;> rfl

end ChangeCoverage.Source
