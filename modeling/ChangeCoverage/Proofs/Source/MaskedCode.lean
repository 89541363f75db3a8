import ChangeCoverage.Proofs.Source.HiddenText
import ChangeCoverage.Proofs.Source.TokenMask

/-!
Masked lines are code.  Whatever a line starts in, its masked text holds no
quote and opens no comment, because a slash that is shown has a space or the
character behind it in the line behind it.  So masking it once more, as code,
changes nothing.
-/

namespace ChangeCoverage.Source

variable {character : Char} {text rest : Text}

theorem not_infix_slash {mark : Char} (absent : ¬['/', mark] <:+: text)
    (joins : character = '/' → text.head? ≠ some mark) :
    ¬['/', mark] <:+: character :: text := by
  intro within
  rcases List.infix_cons_iff.mp within with ⟨behind, starts⟩ | later
  · obtain ⟨rfl, textEq⟩ := List.cons.inj starts
    apply joins rfl
    rw [← textEq]
    rfl
  · exact absent later

theorem valid_code_cons (valid : (Token.code text).Valid) (noQuote : character ≠ '"')
    (noPrime : character ≠ '\'') (joinsNone : character = '/' → OpensNoComment text) :
    (Token.code (character :: text)).Valid := by
  obtain ⟨textNoQuote, textNoPrime, noLine, noBlock⟩ := valid
  refine ⟨?_, ?_, ?_, ?_⟩
  · exact List.not_mem_cons_of_ne_of_not_mem (Ne.symm noQuote) textNoQuote
  · exact List.not_mem_cons_of_ne_of_not_mem (Ne.symm noPrime) textNoPrime
  · exact not_infix_slash noLine fun isSlash => (joinsNone isSlash).1
  · exact not_infix_slash noBlock fun isSlash => (joinsNone isSlash).2

theorem valid_code_blank (valid : (Token.code text).Valid) (character : Char) :
    (Token.code (blank character ++ text)).Valid := by
  unfold blank
  induction character.utf8Size with
  | zero => exact valid
  | succ count inductionHypothesis =>
      rw [List.replicate_succ, List.cons_append]
      exact valid_code_cons inductionHypothesis (by decide) (by decide)
        fun isSlash => absurd isSlash (by decide)

theorem masked_escapedStep (state : LexState) (closer character : Char) :
    (escapedStep state closer character).masked = true := by
  unfold escapedStep
  split <;> [rfl; (split <;> rfl)]

/-- Nothing but code is shown. -/
theorem masked_step {state : LexState} (notCode : state ≠ .code) (lead : Lead) :
    (state.step lead character rest).masked = true := by
  cases state with
  | code => exact absurd rfl notCode
  | regularString => exact masked_escapedStep .regularString '"' character
  | charLiteral => exact masked_escapedStep .charLiteral '\'' character
  | lineComment => rfl
  | verbatimString =>
      simp only [LexState.step]
      split <;> [rfl; (split <;> rfl)]
  | rawString count =>
      simp only [LexState.step]
      split <;> rfl
  | blockComment =>
      simp only [LexState.step]
      split <;> rfl

/-- Of code, quotes and the slashes that open comments are not shown. -/
theorem of_codeStep_shown {lead : Lead} (shown : (codeStep lead character rest).masked = false) :
    character ≠ '"' ∧ character ≠ '\'' ∧ (character = '/' → OpensNoComment rest) := by
  unfold codeStep at shown
  split at shown
  next => cases shown
  next noLine =>
    split at shown
    next => cases shown
    next noBlock =>
      split at shown
      next =>
        dsimp only at shown
        split at shown <;> [cases shown; (split at shown <;> cases shown)]
      next noQuote =>
        split at shown
        next => cases shown
        next noPrime =>
          refine ⟨noQuote, noPrime, fun isSlash => ⟨?_, ?_⟩⟩
          · exact fun opens => noLine ⟨isSlash, opens⟩
          · exact fun opens => noBlock ⟨isSlash, opens⟩

theorem of_step_shown {state : LexState} {lead : Lead}
    (shown : (state.step lead character rest).masked = false) :
    character ≠ '"' ∧ character ≠ '\'' ∧ (character = '/' → OpensNoComment rest) := by
  by_cases isCode : state = .code
  · subst isCode
    exact of_codeStep_shown shown
  · rw [masked_step isCode] at shown
    cases shown

theorem OpensNoComment.of_hides {masked raw : Text} (hides : Hides masked raw)
    (opensNone : OpensNoComment raw) : OpensNoComment masked := by
  constructor
  · intro opens
    rcases hides.head? opens with isSpace | inRaw
    · exact absurd isSpace (by decide)
    · exact opensNone.1 inRaw
  · intro opens
    rcases hides.head? opens with isSpace | inRaw
    · exact absurd isSpace (by decide)
    · exact opensNone.2 inRaw

theorem valid_maskFrom (state : LexState) (lead : Lead) (further : Nat) (line : Text) :
    (Token.code (maskFrom state lead further line).1).Valid := by
  induction line generalizing state lead further with
  | nil => cases further <;> exact (by decide : (Token.code []).Valid)
  | cons character later inductionHypothesis =>
      cases further with
      | succ further => exact valid_code_blank (inductionHypothesis state _ further) character
      | zero =>
          have behind := inductionHypothesis (state.step lead character later).state
            (lead.next character) (state.step lead character later).further
          simp only [maskFrom]
          split
          next => exact valid_code_blank behind character
          next shown =>
            obtain ⟨noQuote, noPrime, opensNone⟩ := of_step_shown (Bool.eq_false_iff.mpr shown)
            -- A slash is followed by what masking makes of the character behind it.
            apply valid_code_cons behind noQuote noPrime
            intro isSlash
            exact (opensNone isSlash).of_hides (hides_maskFrom _ _ _ later)

theorem valid_maskLine (line : Text) (state : LexState) :
    (Token.code (maskLine line state).1).Valid :=
  valid_maskFrom state .plain 0 line

/-- Code without quotes and comments is shown as it is. -/
theorem maskFrom_code {chunk : Text} (valid : (Token.code chunk).Valid) (lead : Lead) :
    maskFrom .code lead 0 chunk = (chunk, .code) := by
  induction chunk generalizing lead with
  | nil => rfl
  | cons character later inductionHypothesis =>
      have kept : codeStep lead character (later ++ []) = _ :=
        codeStep_kept valid (fun _ => ⟨Option.not_mem_none _, Option.not_mem_none _⟩) lead
      rw [List.append_nil] at kept
      have behind := inductionHypothesis (valid_code_tail valid) (lead.next character)
      simp only [maskFrom, LexState.step, kept, behind]
      rfl

theorem maskLine_maskLine (line : Text) (state : LexState) :
    maskLine (maskLine line state).1 .code = ((maskLine line state).1, .code) :=
  maskFrom_code (valid_maskLine line state) .plain

/-- The lines of a file are masked once and for all. -/
theorem maskLines_maskLines (state : LexState) (fileLines : List Text) :
    maskLines .code ((maskLines state fileLines).map (·.1)) =
      (maskLines state fileLines).map fun line => (line.1, .code) := by
  induction fileLines generalizing state with
  | nil => rfl
  | cons line rest inductionHypothesis =>
      have behind := inductionHypothesis (maskLine line state).2.atLineEnd
      simp only [maskLines, List.map_cons, maskLine_maskLine]
      exact congrArg _ behind

/-- A masked line holds no literal and no comment, and masking it or a file of
masked lines once more leaves the text as it is and the lexer in code. -/
theorem literalFree_and_maskLine_maskLine :
    (∀ (line : Text) (state : LexState),
      ('"' ∉ (maskLine line state).1 ∧ '\'' ∉ (maskLine line state).1 ∧
        ¬['/', '/'] <:+: (maskLine line state).1 ∧ ¬['/', '*'] <:+: (maskLine line state).1) ∧
      maskLine (maskLine line state).1 .code = ((maskLine line state).1, .code)) ∧
    ∀ fileLines : List Text,
      maskLines .code ((maskLines .code fileLines).map (·.1)) =
        (maskLines .code fileLines).map fun line => (line.1, .code) := by
  constructor
  · intro line state
    exact ⟨valid_maskLine line state, maskLine_maskLine line state⟩
  · intro fileLines
    exact maskLines_maskLines .code fileLines

end ChangeCoverage.Source
