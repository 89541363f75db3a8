import ChangeCoverage.Proofs.Source.TextMask
import ChangeCoverage.Proofs.Source.Token

/-!
Masking source text token by token.  Every token hides itself and leaves the
code behind it to be read as code, so that the lines of a text are masked to
the lines of its masked tokens.  An empty raw string is the exception: its
quotes open a longer one.
-/

namespace ChangeCoverage.Source

@[simp]
theorem hidden_append (front back : Text) : hidden (front ++ back) = hidden front ++ hidden back :=
  List.flatMap_append

theorem prepend_hidden (front back : Text) (result : Text × LexState) :
    prepend (hidden front) (prepend (hidden back) result) =
      prepend (hidden (front ++ back)) result := by
  rw [prepend_prepend, hidden_append]

theorem hidden_of_ne {character : Char} (noBreak : character ≠ '\n') :
    hidden [character] = blank character := by
  simp [hidden, noBreak]

variable {state next : LexState} {lead : Lead} {character : Char} {rest : Text}

/-- A character that starts a token of its own is hidden. -/
theorem maskText_hide {further : Nat} (noBreak : character ≠ '\n')
    (step : state.step lead character rest = { state := next, further, masked := true }) :
    maskText state lead 0 (character :: rest) =
      prepend (hidden [character]) (maskText next (lead.next character) further rest) := by
  rw [maskText_step noBreak, step, hidden_of_ne noBreak]
  rfl

theorem maskText_hide_further {further : Nat} (noBreak : character ≠ '\n') :
    maskText state lead (further + 1) (character :: rest) =
      prepend (hidden [character]) (maskText state (lead.next character) further rest) := by
  rw [maskText_further noBreak, hidden_of_ne noBreak]

/-- A character that changes nothing in a state that can span lines. -/
theorem maskText_hide_within (spans : state.atLineEnd = state)
    (stays : state.step lead character rest = { state, further := 0, masked := true }) :
    maskText state lead 0 (character :: rest) =
      prepend (hidden [character]) (maskText state (lead.next character) 0 rest) := by
  by_cases isBreak : character = '\n'
  · rw [isBreak, maskText_newline, spans]
    rfl
  · exact maskText_hide isBreak stays

section Quotes

theorem quotes_succ (count : Nat) : quotes (count + 1) = '"' :: quotes count := rfl

theorem quoteRun_quotes {text : Text} (stops : text.head? ≠ some '"') (count : Nat) :
    quoteRun (quotes count ++ text) = count := by
  rw [quoteRun, quotes, List.takeWhile_append_of_pos (by simp)]
  cases text with
  | nil => simp
  | cons first others =>
      have differs : first ≠ '"' := by simpa using stops
      simp [differs]

theorem quotes_append_cons (count : Nat) (later : Text) :
    quotes count ++ '"' :: later = quotes (count + 1) ++ later := by
  simp [quotes, List.replicate_succ']

theorem quotes_within {count run : Nat} (enough : count ≤ run) (later : Text) :
    quotes count <:+: quotes run ++ later := by
  obtain ⟨more, rfl⟩ := Nat.exists_eq_add_of_le enough
  exact ⟨[], quotes more ++ later, by simp [quotes, ← List.replicate_append_replicate]⟩

theorem maskText_further_quotes (count : Nat) :
    maskText state .plain count (quotes count ++ rest) =
      prepend (hidden (quotes count)) (maskText state .plain 0 rest) := by
  induction count with
  | zero => rfl
  | succ count inductionHypothesis =>
      have plain : Lead.plain.next '"' = .plain := rfl
      rw [quotes_succ, List.cons_append, maskText_hide_further (by decide), plain,
        inductionHypothesis, prepend_hidden, List.singleton_append]

/-- A run of quotes that is one step of the lexer. -/
theorem maskText_quotes {count : Nat}
    (step : state.step lead '"' (quotes count ++ rest) =
      { state := next, further := count, masked := true }) :
    maskText state lead 0 (quotes (count + 1) ++ rest) =
      prepend (hidden (quotes (count + 1))) (maskText next .plain 0 rest) := by
  have plain : lead.next '"' = .plain := rfl
  rw [quotes_succ, List.cons_append, maskText_hide (by decide) step, plain,
    maskText_further_quotes, prepend_hidden, List.singleton_append]

end Quotes

section Literals

/-- What stands between two delimiters, with the closing one, is hidden. -/
theorem maskText_pieces {closer : Char} (isCloser : closer = '"' ∨ closer = '\'')
    (escapes : ∀ lead character rest,
      state.step lead character rest = escapedStep state closer character)
    {pieces : List Piece} (fit : ∀ piece ∈ pieces, piece.Fits closer) :
    maskText state lead 0 (pieces.flatMap Piece.text ++ closer :: rest) =
      prepend (hidden (pieces.flatMap Piece.text ++ [closer])) (maskText .code .plain 0 rest) := by
  obtain ⟨noBreak, noEscape, plain⟩ :
      closer ≠ '\n' ∧ closer ≠ '\\' ∧ ∀ lead : Lead, lead.next closer = .plain := by
    rcases isCloser with rfl | rfl <;> exact ⟨by decide, by decide, fun _ => rfl⟩
  induction pieces generalizing lead with
  | nil =>
      have closes : state.step lead closer rest =
          { state := .code, further := 0, masked := true } := by
        rw [escapes, escapedStep, if_neg noEscape, if_pos rfl]
      simp only [List.flatMap_nil, List.nil_append]
      rw [maskText_hide noBreak closes, plain]
  | cons piece later inductionHypothesis =>
      obtain ⟨here, behind⟩ := List.forall_mem_cons.mp fit
      rw [List.flatMap_cons, List.append_assoc, List.append_assoc]
      cases piece with
      | plain character =>
          obtain ⟨other, unescaped, unbroken⟩ := here
          have stays (text : Text) : state.step lead character text =
              { state, further := 0, masked := true } := by
            rw [escapes, escapedStep, if_neg unescaped, if_neg other]
          rw [Piece.text, List.singleton_append, maskText_hide unbroken (stays _),
            inductionHypothesis behind, prepend_hidden]
      | escape character =>
          have escaped (text : Text) : state.step lead '\\' text =
              { state, further := 1, masked := true } := by
            rw [escapes, escapedStep, if_pos rfl]
          rw [Piece.text, List.cons_append, List.singleton_append,
            maskText_hide (by decide) (escaped _), maskText_hide_further here,
            inductionHypothesis behind, prepend_hidden, prepend_hidden]
          rfl

theorem maskText_doubled {value : Text} (stops : rest.head? ≠ some '"') :
    maskText .verbatimString lead 0 (doubled value ++ '"' :: rest) =
      prepend (hidden (doubled value ++ ['"'])) (maskText .code .plain 0 rest) := by
  induction value generalizing lead with
  | nil =>
      have closes : LexState.verbatimString.step lead '"' rest =
          { state := .code, further := 0, masked := true } := by
        simp [LexState.step, stops]
      exact maskText_hide (by decide) closes
  | cons character later inductionHypothesis =>
      by_cases isQuote : character = '"'
      · have opened : doubled (character :: later) = '"' :: '"' :: doubled later := by
          simp [doubled, isQuote]
        have twice (text : Text) : LexState.verbatimString.step lead '"' ('"' :: text) =
            { state := .verbatimString, further := 1, masked := true } := by
          simp [LexState.step]
        rw [opened, List.cons_append, List.cons_append, maskText_hide (by decide) (twice _),
          maskText_hide_further (by decide), inductionHypothesis, prepend_hidden, prepend_hidden]
        rfl
      · have opened : doubled (character :: later) = character :: doubled later := by
          simp [doubled, isQuote]
        have stays (text : Text) : LexState.verbatimString.step lead character text =
            { state := .verbatimString, further := 0, masked := true } := by
          simp [LexState.step, isQuote]
        rw [opened, List.cons_append, maskText_hide_within rfl (stays _), inductionHypothesis,
          prepend_hidden]
        rfl

/-- A run of quotes that is too short to close a raw string. -/
theorem maskText_shortRun {count run : Nat} (short : run < count)
    (stops : rest.head? ≠ some '"') :
    ∃ after, maskText (.rawString count) lead 0 (quotes run ++ rest) =
      prepend (hidden (quotes run)) (maskText (.rawString count) after 0 rest) := by
  cases run with
  | zero => exact ⟨lead, rfl⟩
  | succ run =>
      refine ⟨.plain, maskText_quotes ?_⟩
      simp [LexState.step, quoteRun_quotes stops, short]

/-- What is left of a raw string behind some quotes of it.  A quote joins the
run before it, and any other character ends a run that is too short. -/
theorem maskText_rawContent {count : Nat} (run : Nat) {content : Text}
    (short : ¬quotes count <:+: quotes run ++ content)
    (solid : (quotes run ++ content).getLast? ≠ some '"') (stops : rest.head? ≠ some '"') :
    maskText (.rawString count) lead 0 (quotes run ++ (content ++ (quotes count ++ rest))) =
      prepend (hidden (quotes run ++ (content ++ quotes count)))
        (maskText .code .plain 0 rest) := by
  induction content generalizing run lead with
  | nil =>
      have unopened : run = 0 := by
        cases run with
        | zero => rfl
        | succ run => simp [quotes, List.replicate_succ'] at solid
      subst unopened
      cases count with
      | zero => exact absurd List.nil_infix short
      | succ count =>
          have closes : (LexState.rawString (count + 1)).step lead '"' (quotes count ++ rest) =
              { state := .code, further := count, masked := true } := by
            simp [LexState.step, quoteRun_quotes stops]
          exact maskText_quotes closes
  | cons character later inductionHypothesis =>
      by_cases isQuote : character = '"'
      · subst isQuote
        rw [quotes_append_cons] at short solid
        rw [List.cons_append, List.cons_append, quotes_append_cons, quotes_append_cons]
        exact inductionHypothesis (run + 1) short solid
      · have runShort : run < count := Nat.lt_of_not_le fun enough =>
          short (quotes_within enough _)
        have laterShort : ¬quotes count <:+: quotes 0 ++ later := fun within =>
          short (within.trans ⟨quotes run ++ [character], [], by simp [quotes]⟩)
        have laterSolid : (quotes 0 ++ later).getLast? ≠ some '"' := fun ended => by
          have lastEq : later.getLast? = some '"' := ended
          exact solid (by simp [List.getLast?_append, List.getLast?_cons, lastEq])
        have onward (after : Lead) :
            maskText (.rawString count) after 0 (character :: (later ++ (quotes count ++ rest))) =
              prepend (hidden (character :: (later ++ quotes count)))
                (maskText .code .plain 0 rest) := by
          have stays (text : Text) : (LexState.rawString count).step after character text =
              { state := .rawString count, further := 0, masked := true } := by
            simp [LexState.step, isQuote]
          rw [maskText_hide_within rfl (stays _)]
          exact (congrArg _ (inductionHypothesis 0 laterShort laterSolid)).trans
            (prepend_hidden _ _ _)
        have ended : (character :: (later ++ (quotes count ++ rest))).head? ≠ some '"' := by
          simpa using isQuote
        -- The quotes so far are one token; what they leave as lead does not matter in a string.
        obtain ⟨after, masked⟩ := maskText_shortRun runShort ended
        rw [List.cons_append, masked, onward, prepend_hidden]
        rfl

end Literals

section Comments

theorem maskText_blockComment {content : Text} (unclosed : ¬['*', '/'] <:+: content) :
    maskText .blockComment lead 0 (content ++ '*' :: '/' :: rest) =
      prepend (hidden (content ++ ['*', '/'])) (maskText .code .plain 0 rest) := by
  induction content generalizing lead with
  | nil =>
      have closes : LexState.blockComment.step lead '*' ('/' :: rest) =
          { state := .code, further := 1, masked := true } := by
        simp [LexState.step]
      rw [List.nil_append, maskText_hide (by decide) closes, maskText_hide_further (by decide),
        prepend_hidden]
      rfl
  | cons character later inductionHypothesis =>
      have laterUnclosed : ¬['*', '/'] <:+: later := fun within =>
        unclosed (within.trans (List.suffix_cons character later).isInfix)
      have stays : LexState.blockComment.step lead character (later ++ '*' :: '/' :: rest) =
          { state := .blockComment, further := 0, masked := true } := by
        refine if_neg ?_
        rintro ⟨rfl, closed⟩
        cases later with
        | nil => simp at closed
        | cons second others =>
            obtain rfl : second = '/' := by simpa using closed
            exact unclosed ⟨[], others, rfl⟩
      rw [List.cons_append, maskText_hide_within rfl stays, inductionHypothesis laterUnclosed,
        prepend_hidden]
      rfl

theorem maskText_lineComment {content : Text} (unbroken : '\n' ∉ content) :
    maskText .lineComment lead 0 (content ++ '\n' :: rest) =
      prepend (hidden (content ++ ['\n'])) (maskText .code .plain 0 rest) := by
  induction content generalizing lead with
  | nil => exact maskText_newline rest
  | cons character later inductionHypothesis =>
      rw [List.mem_cons, not_or] at unbroken
      obtain ⟨noBreak, laterUnbroken⟩ := unbroken
      rw [List.cons_append, maskText_hide (Ne.symm noBreak) rfl, inductionHypothesis laterUnbroken,
        prepend_hidden]
      rfl

end Comments

section Code

/-- What some code leaves before a quote. -/
def Lead.after (lead : Lead) (chunk : Text) : Lead :=
  chunk.foldl Lead.next lead

theorem Lead.after_cons (lead : Lead) (character : Char) (rest : Text) :
    lead.after (character :: rest) = (lead.next character).after rest := rfl

theorem Lead.after_concat (lead : Lead) (front : Text) (last : Char) :
    lead.after (front ++ [last]) = (lead.after front).next last := by
  rw [after, List.foldl_append]
  rfl

/-- A text that does not turn a slash before it into a comment. -/
def OpensNoComment (text : Text) : Prop :=
  text.head? ≠ some '/' ∧ text.head? ≠ some '*'

theorem valid_code_tail {chunk : Text} (valid : (Token.code (character :: chunk)).Valid) :
    (Token.code chunk).Valid := by
  obtain ⟨noQuote, noPrime, noLine, noBlock⟩ := valid
  have widen {marks : Text} (within : marks <:+: chunk) : marks <:+: character :: chunk :=
    within.trans (List.suffix_cons character chunk).isInfix
  exact ⟨fun held => noQuote (List.mem_cons_of_mem _ held),
    fun held => noPrime (List.mem_cons_of_mem _ held),
    fun within => noLine (widen within), fun within => noBlock (widen within)⟩

/-- A character of code without quotes and comments is a token of its own. -/
theorem codeStep_kept {chunk : Text} (valid : (Token.code (character :: chunk)).Valid)
    (joinsNone : ['/'] <:+ character :: chunk → OpensNoComment rest) (lead : Lead) :
    codeStep lead character (chunk ++ rest) =
      { state := .code, further := 0, masked := false } := by
  obtain ⟨noQuote, noPrime, noLine, noBlock⟩ := valid
  rw [List.mem_cons, not_or] at noQuote noPrime
  have joinsLater (mark : Char) (absent : ¬['/', mark] <:+: character :: chunk)
      (behind : OpensNoComment rest → rest.head? ≠ some mark) :
      ¬(character = '/' ∧ (chunk ++ rest).head? = some mark) := by
    rintro ⟨rfl, opened⟩
    cases chunk with
    | nil => exact behind (joinsNone (List.suffix_refl _)) opened
    | cons second others =>
        obtain rfl : second = mark := by simpa using opened
        exact absent ⟨[], others, rfl⟩
  rw [codeStep, if_neg (joinsLater '/' noLine (·.1)), if_neg (joinsLater '*' noBlock (·.2)),
    if_neg (Ne.symm noQuote.1), if_neg (Ne.symm noPrime.1)]

/-- Code without quotes and comments is kept, and leads to what is behind it. -/
theorem maskText_code {chunk : Text} (valid : (Token.code chunk).Valid)
    (joinsNone : ['/'] <:+ chunk → OpensNoComment rest) :
    maskText .code lead 0 (chunk ++ rest) =
      prepend chunk (maskText .code (lead.after chunk) 0 rest) := by
  induction chunk generalizing lead with
  | nil => rfl
  | cons character later inductionHypothesis =>
      have laterMasked (after : Lead) := @inductionHypothesis after (valid_code_tail valid)
        (fun ended => joinsNone (ended.trans (List.suffix_cons character later)))
      rw [List.cons_append, Lead.after_cons]
      by_cases isBreak : character = '\n'
      · rw [isBreak, maskText_newline]
        exact (congrArg _ (laterMasked .plain)).trans (prepend_prepend _ _ _)
      · rw [maskText_step isBreak, LexState.step, codeStep_kept valid joinsNone]
        exact (congrArg _ (laterMasked _)).trans (prepend_prepend _ _ _)

/-- Behind code a quote opens a verbatim string only if the code ends in its mark. -/
theorem suffix_of_verbatim {chunk : Text} (led : Lead.plain.after chunk = .verbatim) :
    ['@'] <:+ chunk := by
  rcases List.eq_nil_or_concat chunk with rfl | ⟨front, last, rfl⟩
  · simp [Lead.after] at led
  · rw [List.concat_eq_append] at led ⊢
    rw [Lead.after_concat, Lead.next] at led
    split at led
    next isSign => exact ⟨front, by rw [isSign]⟩
    next => split at led <;> simp at led

theorem suffix_of_verbatimDollar {chunk : Text}
    (led : Lead.plain.after chunk = .verbatimDollar) : ['@', '$'] <:+ chunk := by
  rcases List.eq_nil_or_concat chunk with rfl | ⟨front, last, rfl⟩
  · simp [Lead.after] at led
  · rw [List.concat_eq_append] at led ⊢
    rw [Lead.after_concat, Lead.next] at led
    split at led
    next => simp at led
    next =>
      split at led
      next isDollar =>
        obtain ⟨rfl, verbatim⟩ := isDollar
        obtain ⟨start, rfl⟩ := suffix_of_verbatim verbatim
        exact ⟨start, by simp⟩
      next => simp at led

end Code

section Tokens

/-- The quotes behind an opening one: none where the literal holds something,
and the closing one where it is empty. -/
theorem quoteRun_literal {body : Text} (opened : body.head? ≠ some '"')
    (stops : body = [] → rest.head? ≠ some '"') : quoteRun (body ++ '"' :: rest) ≤ 1 := by
  cases body with
  | nil => exact Nat.le_of_eq (quoteRun_quotes (stops rfl) 1)
  | cons first later =>
      have inside : (first :: later ++ '"' :: rest).head? ≠ some '"' := opened
      exact Nat.le_trans (Nat.le_of_eq (quoteRun_quotes inside 0)) (Nat.zero_le 1)

/-- A quote with at most one other behind it opens no raw string. -/
theorem codeStep_quote {text : Text} (short : quoteRun text ≤ 1) :
    LexState.code.step lead '"' text =
      { state := if lead = .plain then .regularString else .verbatimString
        further := 0, masked := true } := by
  have tooShort : ¬3 ≤ quoteRun text + 1 := by omega
  by_cases isPlain : lead = .plain <;> simp [LexState.step, codeStep, tooShort, isPlain]

theorem maskText_string {pieces : List Piece} (fit : ∀ piece ∈ pieces, piece.Fits '"')
    (stops : pieces = [] → rest.head? ≠ some '"') :
    maskText .code .plain 0 ((Token.string pieces).text ++ rest) =
      prepend (Token.string pieces).masked (maskText .code .plain 0 rest) := by
  have short : quoteRun (pieces.flatMap Piece.text ++ '"' :: rest) ≤ 1 := by
    cases pieces with
    | nil => exact quoteRun_literal (by simp) fun _ => stops rfl
    | cons piece later =>
        have here := fit piece List.mem_cons_self
        cases piece with
        | plain character =>
            exact quoteRun_literal (by simpa [Piece.text] using here.1) (by simp [Piece.text])
        | escape character => exact quoteRun_literal (by simp [Piece.text]) (by simp [Piece.text])
  have opens : LexState.code.step .plain '"' (pieces.flatMap Piece.text ++ '"' :: rest) =
      { state := .regularString, further := 0, masked := true } := codeStep_quote short
  rw [Token.text, List.cons_append, List.append_assoc, List.singleton_append,
    maskText_hide (by decide) opens, maskText_pieces (.inl rfl) (fun _ _ _ => rfl) fit,
    prepend_hidden]
  rfl

theorem maskText_character {pieces : List Piece} (fit : ∀ piece ∈ pieces, piece.Fits '\'') :
    maskText .code lead 0 ((Token.character pieces).text ++ rest) =
      prepend (Token.character pieces).masked (maskText .code .plain 0 rest) := by
  have opens (text : Text) : LexState.code.step lead '\'' text =
      { state := .charLiteral, further := 0, masked := true } := rfl
  rw [Token.text, List.cons_append, List.append_assoc, List.singleton_append,
    maskText_hide (by decide) (opens _), maskText_pieces (.inr rfl) (fun _ _ _ => rfl) fit,
    prepend_hidden]
  rfl

theorem VerbatimMark.isCode (mark : VerbatimMark) : (Token.code mark.text).Valid := by
  cases mark <;> exact ⟨by decide, by decide, by decide, by decide⟩

theorem VerbatimMark.after_ne (mark : VerbatimMark) (lead : Lead) :
    lead.after mark.text ≠ .plain := by
  cases mark <;> cases lead <;> decide

theorem maskText_verbatim (mark : VerbatimMark) {value : Text} (valid : value.head? ≠ some '"')
    (stops : rest.head? ≠ some '"') :
    maskText .code lead 0 ((Token.verbatim mark value).text ++ rest) =
      prepend (Token.verbatim mark value).masked (maskText .code .plain 0 rest) := by
  have short : quoteRun (doubled value ++ '"' :: rest) ≤ 1 := by
    refine quoteRun_literal ?_ fun _ => stops
    cases value with
    | nil => simp [doubled]
    | cons character later =>
        have noQuote : character ≠ '"' := by simpa using valid
        simp [doubled, noQuote]
  have opens : LexState.code.step (lead.after mark.text) '"' (doubled value ++ '"' :: rest) =
      { state := .verbatimString, further := 0, masked := true } := by
    rw [codeStep_quote short, if_neg (mark.after_ne lead)]
  have noSlash : ¬['/'] <:+ mark.text := by cases mark <;> decide
  rw [Token.text, List.append_assoc, List.cons_append, List.append_assoc, List.singleton_append,
    maskText_code mark.isCode (fun ended => absurd ended noSlash), maskText_hide (by decide) opens,
    maskText_doubled stops, prepend_hidden, prepend_prepend]
  rfl

theorem maskText_raw {count : Nat} {content : Text} (valid : (Token.raw count content).Valid)
    (filled : content ≠ []) (stops : rest.head? ≠ some '"') :
    maskText .code lead 0 ((Token.raw count content).text ++ rest) =
      prepend (Token.raw count content).masked (maskText .code .plain 0 rest) := by
  obtain ⟨enough, short, opened, solid⟩ := valid
  obtain ⟨fewer, rfl⟩ : ∃ fewer, count = fewer + 1 := ⟨count - 1, by omega⟩
  have inside : (content ++ (quotes (fewer + 1) ++ rest)).head? ≠ some '"' := by
    cases content with
    | nil => exact absurd rfl filled
    | cons first later => exact opened
  have opens : LexState.code.step lead '"'
      (quotes fewer ++ (content ++ (quotes (fewer + 1) ++ rest))) =
      { state := .rawString (fewer + 1), further := fewer, masked := true } := by
    simp [LexState.step, codeStep, quoteRun_quotes inside, enough]
  rw [Token.text, List.append_assoc, List.append_assoc, maskText_quotes opens]
  exact (congrArg _ (maskText_rawContent 0 short solid stops)).trans (prepend_hidden _ _ _)

/-- A slash and what makes it open a comment are hidden with the comment. -/
theorem maskText_comment {marker : Char} {comment : LexState} {body : Text}
    (noBreak : marker ≠ '\n')
    (opens : ∀ text, LexState.code.step lead '/' (marker :: text) =
      { state := comment, further := 1, masked := true })
    (masked : ∀ after, maskText comment after 0 (body ++ rest) =
      prepend (hidden body) (maskText .code .plain 0 rest)) :
    maskText .code lead 0 ('/' :: marker :: body ++ rest) =
      prepend (hidden ('/' :: marker :: body)) (maskText .code .plain 0 rest) := by
  rw [List.cons_append, List.cons_append, maskText_hide (by decide) (opens _),
    maskText_hide_further noBreak, masked, prepend_hidden, prepend_hidden]
  rfl

/-- A token other than code hides itself. -/
theorem maskText_token {token : Token} {others : List Token} (valid : token.Valid)
    (precedes : token.Precedes others) (notCode : ¬token.IsCode)
    (filled : ∀ count, token ≠ .raw count [])
    (led : lead = .plain ∨ token.text.head? ≠ some '"') :
    maskText .code lead 0 (token.text ++ sourceText others) =
      prepend token.masked (maskText .code .plain 0 (sourceText others)) := by
  cases token with
  | code chunk => exact absurd trivial notCode
  | string pieces =>
      obtain rfl : lead = .plain := led.resolve_right (by simp [Token.text])
      exact maskText_string valid fun empty => by subst empty; exact precedes
  | character pieces => exact maskText_character valid
  | verbatim mark value => exact maskText_verbatim mark valid precedes
  | raw count content =>
      exact maskText_raw valid (fun empty => filled count (by rw [empty])) precedes
  | blockComment content =>
      have opens (text : Text) : LexState.code.step lead '/' ('*' :: text) =
          { state := .blockComment, further := 1, masked := true } := by
        simp [LexState.step, codeStep]
      refine maskText_comment (by decide) opens fun after => ?_
      rw [List.append_assoc]
      exact maskText_blockComment valid
  | lineComment content =>
      have opens (text : Text) : LexState.code.step lead '/' ('/' :: text) =
          { state := .lineComment, further := 1, masked := true } := by
        simp [LexState.step, codeStep]
      refine maskText_comment (by decide) opens fun after => ?_
      rw [List.append_assoc]
      exact maskText_lineComment valid

end Tokens

section Texts

variable {tokens : List Token}

theorem sourceText_cons (token : Token) (others : List Token) :
    sourceText (token :: others) = token.text ++ sourceText others :=
  List.flatMap_cons

theorem maskedText_cons (token : Token) (others : List Token) :
    maskedText (token :: others) = token.masked ++ maskedText others :=
  List.flatMap_cons

theorem opensNoComment_sourceText (separated : WellSeparated tokens)
    (notCode : ∀ next ∈ tokens.head?, ¬next.IsCode)
    (notComment : ∀ next ∈ tokens.head?, ¬next.IsComment) : OpensNoComment (sourceText tokens) := by
  cases tokens with
  | nil => exact ⟨by simp [sourceText], by simp [sourceText]⟩
  | cons next later =>
      have valid := separated.1
      rw [sourceText_cons]
      cases next with
      | code chunk => exact absurd trivial (notCode _ rfl)
      | blockComment content | lineComment content => exact absurd trivial (notComment _ rfl)
      | string pieces | character pieces => exact ⟨by simp [Token.text], by simp [Token.text]⟩
      | verbatim mark value =>
          cases mark <;> exact ⟨by simp [Token.text, VerbatimMark.text],
            by simp [Token.text, VerbatimMark.text]⟩
      | raw count content =>
          obtain ⟨fewer, rfl⟩ : ∃ fewer, count = fewer + 1 := ⟨count - 1, by have := valid.1; omega⟩
          exact ⟨by simp [Token.text, quotes_succ], by simp [Token.text, quotes_succ]⟩

/-- Whether some tokens can be read behind code: a mark of a verbatim string at
the end of the code has no quote behind it. -/
def Readable (lead : Lead) (tokens : List Token) : Prop :=
  lead = .plain ∨
    (∀ next ∈ tokens.head?, ¬next.IsCode) ∧ (sourceText tokens).head? ≠ some '"'

theorem readable_after {chunk : Text} (notCode : ∀ next ∈ tokens.head?, ¬next.IsCode)
    (notQuote : ['@'] <:+ chunk ∨ ['@', '$'] <:+ chunk → (sourceText tokens).head? ≠ some '"') :
    Readable (Lead.plain.after chunk) tokens := by
  cases led : Lead.plain.after chunk with
  | plain => exact .inl rfl
  | verbatim => exact .inr ⟨notCode, notQuote (.inl (suffix_of_verbatim led))⟩
  | verbatimDollar => exact .inr ⟨notCode, notQuote (.inr (suffix_of_verbatimDollar led))⟩

/-- Reading the tokens of a text hides them one by one. -/
theorem maskText_sourceText (separated : WellSeparated tokens)
    (filled : ∀ count, Token.raw count [] ∉ tokens) (readable : Readable lead tokens) :
    maskText .code lead 0 (sourceText tokens) = (maskedText tokens, .code) := by
  induction tokens generalizing lead with
  | nil => rfl
  | cons token others inductionHypothesis =>
      obtain ⟨valid, precedes, othersSeparated⟩ := separated
      have othersFilled : ∀ count, Token.raw count [] ∉ others := fun count membership =>
        filled count (List.mem_cons_of_mem _ membership)
      have othersMasked (after : Lead) := @inductionHypothesis after othersSeparated othersFilled
      rw [sourceText_cons, maskedText_cons]
      by_cases isCode : token.IsCode
      · cases token with
        | code chunk =>
          obtain ⟨notCode, notComment, notQuote⟩ := precedes
          obtain rfl : lead = .plain := readable.resolve_right fun ⟨next, _⟩ => next _ rfl trivial
          have joinsNone : ['/'] <:+ chunk → OpensNoComment (sourceText others) := fun ended =>
            opensNoComment_sourceText othersSeparated notCode (notComment ended)
          rw [Token.text, maskText_code valid joinsNone,
            othersMasked _ (readable_after notCode notQuote)]
          rfl
        | _ => exact absurd isCode id
      · have led : lead = .plain ∨ token.text.head? ≠ some '"' :=
          readable.imp_right fun ⟨_, unquoted⟩ quoted => unquoted (by
            rw [sourceText_cons, List.head?_append, quoted]; rfl)
        have whole : ∀ count, token ≠ .raw count [] := fun count same =>
          filled count (List.mem_cons.mpr (.inl same.symm))
        rw [maskText_token valid precedes isCode whole led, othersMasked _ (.inl rfl)]
        rfl

/-- The lines of source text are masked to the lines of its masked tokens, and
the text ends in code. -/
theorem maskLines_sourceText (separated : WellSeparated tokens)
    (noReturn : '\r' ∉ sourceText tokens) (filled : ∀ count, Token.raw count [] ∉ tokens) :
    (maskLines .code (Text.cleanLines (sourceText tokens))).map (·.1) =
        Text.cleanLines (maskedText tokens) ∧
      ∀ last ∈ (maskLines .code (Text.cleanLines (sourceText tokens))).getLast?,
        last.2 = .code := by
  have whole : maskText .code .plain 0 (sourceText tokens) = (maskedText tokens, .code) :=
    maskText_sourceText separated filled (.inl rfl)
  have startsLine : LexState.code.atLineEnd = .code := rfl
  obtain ⟨lines, reached⟩ := maskLines_cleanLines noReturn startsLine
  rw [whole] at lines reached
  refine ⟨lines, fun last isLast => ?_⟩
  rw [Option.mem_def.mp isLast] at reached
  exact reached

/-- Tokens of every kind, with characters that would end or open another one. -/
def sampleTokens : List Token :=
  [.code "s = ".toList, .verbatim .dollarSign "a\"b\n\\".toList, .code "+@".toList,
   .verbatim .signDollar [], .code "/".toList, .string [.escape '"', .plain '\''],
   .character [.escape '\''], .string [], .code "; ".toList, .lineComment "\" é".toList,
   .code "t = @$".toList, .blockComment "/ * /\n\"".toList,
   .raw 3 "\n\"\"/*\n".toList, .code ";".toList]

def sampleMasked : List Text :=
  ["s = $@     ".toList, "  +@@$  /           ;       ".toList, "t = @$       ".toList,
   "      ".toList, "    ".toList, "   ;".toList]

theorem maskLines_sourceText_sample :
    WellSeparated sampleTokens ∧ '\r' ∉ sourceText sampleTokens ∧
      (∀ count, Token.raw count [] ∉ sampleTokens) ∧
      (maskLines .code (Text.cleanLines (sourceText sampleTokens))).map (·.1) = sampleMasked := by
  have separated : WellSeparated sampleTokens := by decide +kernel
  have noReturn : '\r' ∉ sourceText sampleTokens := by decide +kernel
  have filled : ∀ count, Token.raw count [] ∉ sampleTokens := by simp [sampleTokens]
  have masked : Text.cleanLines (maskedText sampleTokens) = sampleMasked := by decide +kernel
  obtain ⟨lines, -⟩ := maskLines_sourceText separated noReturn filled
  exact ⟨separated, noReturn, filled, lines.trans masked⟩

/-- The quotes of an empty raw string open a longer one instead. -/
theorem not_maskLines_sourceText :
    ¬∀ tokens, WellSeparated tokens → '\r' ∉ sourceText tokens →
      (maskLines .code (Text.cleanLines (sourceText tokens))).map (·.1) =
        Text.cleanLines (maskedText tokens) := by
  intro masks
  have masked := masks [.code "s = ".toList, .raw 3 [], .code ";\n\x7d".toList]
    (by decide +kernel) (by decide +kernel)
  revert masked
  decide +kernel

end Texts

end ChangeCoverage.Source
