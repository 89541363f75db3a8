import ChangeCoverage.Proofs.Source.TokenMask

/-!
A verbatim string on one line.  Behind code it is hidden as a whole and what
follows it is read as code, unless its value begins with a quote: that quote,
written twice, and the one before it are taken for the start of a raw string.
-/

namespace ChangeCoverage.Source

variable {state : LexState} {lead : Lead} {further : Nat} {front rest : Text}

section Append

theorem quoteRun_le (text : Text) : quoteRun text ≤ text.length :=
  (List.takeWhile_prefix _).length_le

theorem further_escapedStep {closer character : Char} (escapes : state ≠ .code)
    (closed : (escapedStep state closer character).state = .code) :
    (escapedStep state closer character).further = 0 := by
  unfold escapedStep at closed ⊢
  split at closed
  next => exact absurd closed escapes
  next unescaped =>
    rw [if_neg unescaped]
    split <;> rfl

/-- A token that ends in code lies within the text it is read from. -/
theorem further_le_of_code {character : Char}
    (ended : (state.step lead character rest).state = .code) :
    (state.step lead character rest).further ≤ rest.length := by
  have second {mark : Char} (isMark : rest.head? = some mark) : 1 ≤ rest.length := by
    cases rest with
    | nil => exact absurd isMark (Option.not_mem_none mark)
    | cons first others => exact Nat.le_add_left 1 others.length
  cases state with
  | code =>
      simp only [LexState.step, codeStep] at ended ⊢
      split
      next comment => exact second comment.2
      next =>
        split
        next comment => exact second comment.2
        next =>
          split
          next => split <;> [exact quoteRun_le rest; (split <;> exact Nat.zero_le _)]
          next => split <;> exact Nat.zero_le _
  | regularString =>
      exact (further_escapedStep (by decide) ended).trans_le (Nat.zero_le _)
  | charLiteral =>
      exact (further_escapedStep (by decide) ended).trans_le (Nat.zero_le _)
  | verbatimString =>
      simp only [LexState.step] at ended ⊢
      split
      next twice => exact second twice.2
      next => split <;> exact Nat.zero_le _
  | rawString count =>
      simp only [LexState.step] at ended ⊢
      split
      next => exact quoteRun_le rest
      next => exact Nat.zero_le _
  | lineComment => exact Nat.zero_le _
  | blockComment =>
      simp only [LexState.step] at ended ⊢
      split
      next closes => exact second closes.2
      next => exact Nat.zero_le _

/-- Behind a text that ends in code the rest is read on its own. -/
theorem maskFrom_append (apart : Apart front rest)
    (within : state = .code → further ≤ front.length)
    (inCode : (maskFrom state lead further front).2 = .code) :
    maskFrom state lead further (front ++ rest) =
      prepend (maskFrom state lead further front).1 (maskFrom .code (lead.after front) 0 rest) := by
  induction front generalizing state lead further with
  | nil =>
      have isCode : state = .code := by cases further <;> exact inCode
      obtain rfl : further = 0 := Nat.le_zero.mp (within isCode)
      rw [isCode]
      rfl
  | cons character later inductionHypothesis =>
      rw [List.cons_append, Lead.after_cons]
      cases further with
      | succ further =>
          have laterMasked := inductionHypothesis apart.tail
            (fun isCode => Nat.le_of_succ_le_succ (within isCode)) inCode
          simp only [maskFrom, laterMasked]
          simp [prepend]
      | zero =>
          have laterMasked := inductionHypothesis apart.tail further_le_of_code inCode
          simp only [maskFrom, step_append state lead apart, laterMasked]
          simp [prepend]

/-- What is left of a token is hidden. -/
theorem maskFrom_further (unbroken : '\n' ∉ front) :
    maskFrom state lead front.length (front ++ rest) =
      prepend (hidden front) (maskFrom state (lead.after front) 0 rest) := by
  induction front generalizing lead with
  | nil => rfl
  | cons character later inductionHypothesis =>
      rw [List.mem_cons, not_or] at unbroken
      obtain ⟨noBreak, laterUnbroken⟩ := unbroken
      rw [List.cons_append, List.length_cons, maskFrom, inductionHypothesis laterUnbroken,
        Lead.after_cons, ← List.singleton_append (l := later), hidden_append,
        hidden_of_ne (Ne.symm noBreak)]
      simp [prepend]

end Append

section Literal

variable {value : Text} {after : Text}

theorem not_joins {sign : Char} (isSign : sign = '@' ∨ sign = '$') (other : Char) :
    ¬Joins sign other ∧ ¬Joins other sign := by
  rcases isSign with rfl | rfl <;> simp [Joins]

theorem apart_mark (mark : VerbatimMark) (front rest : Text) : Apart front (mark.text ++ rest) := by
  have starts : ∃ first, (mark.text ++ rest).head? = some first ∧ (first = '@' ∨ first = '$') := by
    cases mark <;> simp [VerbatimMark.text]
  obtain ⟨first, isFirst, isSign⟩ := starts
  intro last isLast next isNext
  obtain rfl : first = next := Option.some.inj (isFirst.symm.trans isNext)
  exact (not_joins isSign last).2

theorem mark_apart (mark : VerbatimMark) (rest : Text) : Apart mark.text rest := by
  have ends : ∃ final, mark.text.getLast? = some final ∧ (final = '@' ∨ final = '$') := by
    cases mark <;> simp [VerbatimMark.text]
  obtain ⟨final, isFinal, isSign⟩ := ends
  intro last isLast next isNext
  obtain rfl : final = last := Option.some.inj (isFinal.symm.trans isLast)
  exact (not_joins isSign next).1

theorem apart_quote (front : Text) (stops : after.head? ≠ some '"') :
    Apart (front ++ ['"']) after := by
  intro last isLast next isNext
  rw [List.getLast?_concat] at isLast
  cases isLast
  rintro (⟨-, rfl⟩ | ⟨isSlash, -⟩ | ⟨isStar, -⟩)
  · exact stops isNext
  · exact absurd isSlash (by decide)
  · exact absurd isStar (by decide)

theorem mem_doubled {character : Char} (membership : character ∈ doubled value) :
    character ∈ value := by
  rw [doubled, List.mem_flatMap] at membership
  obtain ⟨original, held, here⟩ := membership
  split at here
  next isQuote =>
    rw [List.mem_pair, or_self] at here
    rwa [here, ← isQuote]
  next => rwa [List.mem_singleton.mp here]

theorem maskFrom_mark (mark : VerbatimMark) (lead : Lead) :
    maskFrom .code lead 0 mark.text = (mark.text, .code) := by
  cases mark <;> rfl

/-- A verbatim string whose value does not begin with a quote, on its own. -/
theorem maskFrom_literal (mark : VerbatimMark) (lead : Lead) (unbroken : '\n' ∉ value)
    (opened : value.head? ≠ some '"') :
    maskFrom .code lead 0 (Token.verbatim mark value).text =
      ((Token.verbatim mark value).masked, .code) := by
  have noBreak : '\n' ∉ (Token.verbatim mark value).text := by
    have inMark : '\n' ∉ mark.text := by cases mark <;> decide
    have inDoubled : '\n' ∉ doubled value := fun membership => unbroken (mem_doubled membership)
    simp [Token.text, inMark, inDoubled]
  have masked : maskText .code lead 0 ((Token.verbatim mark value).text ++ []) = _ :=
    maskText_verbatim mark opened (by simp)
  rw [List.append_nil, maskText_last noBreak] at masked
  rw [masked]
  simp [prepend, maskText]

/-- The quotes at the start of a text, and what is behind them. -/
theorem quotes_quoteRun (text : Text) :
    ∃ behind, text = quotes (quoteRun text) ++ behind ∧ behind.head? ≠ some '"' := by
  refine ⟨text.dropWhile (· = '"'), ?_, ?_⟩
  · have run : text.takeWhile (· = '"') = quotes (quoteRun text) := by
      apply List.eq_replicate_of_mem
      intro character membership
      simpa using List.all_eq_true.mp List.all_takeWhile character membership
    rw [← run, List.takeWhile_append_dropWhile]
  · intro isQuote
    have stops := List.head?_dropWhile_not (· = '"') text
    rw [isQuote] at stops
    simp at stops

theorem after_quotes (count : Nat) : Lead.plain.after (quotes count) = .plain := by
  induction count with
  | zero => rfl
  | succ count inductionHypothesis => exact inductionHypothesis

/-- Three quotes or more open a raw string, whatever stands before them. -/
theorem maskFrom_raw {count : Nat} (enough : 3 ≤ count) (stops : rest.head? ≠ some '"') :
    maskFrom .code lead 0 (quotes count ++ rest) =
      prepend (hidden (quotes count)) (maskFrom (.rawString count) .plain 0 rest) := by
  cases count with
  | zero => exact absurd enough (by decide)
  | succ count =>
      have opens : LexState.code.step lead '"' (quotes count ++ rest) =
          { state := .rawString (count + 1), further := count, masked := true } := by
        simp [LexState.step, codeStep, quoteRun_quotes stops, enough]
      have unbroken : '\n' ∉ quotes count := by simp [quotes]
      have size : (quotes count).length = count := List.length_replicate
      have others : maskFrom (.rawString (count + 1)) .plain (quotes count).length
          (quotes count ++ rest) = _ := maskFrom_further unbroken
      rw [size, after_quotes] at others
      have plain : lead.next '"' = .plain := rfl
      rw [quotes_succ, List.cons_append, maskFrom, opens, plain]
      simp only [others, if_true]
      rw [← List.singleton_append (l := quotes count), hidden_append, hidden_of_ne (by decide)]
      simp [prepend]

variable {before : Text} (mark : VerbatimMark)

theorem text_verbatim_append :
    (Token.verbatim mark value).text ++ after =
      mark.text ++ '"' :: (doubled value ++ '"' :: after) := by
  simp [Token.text]

theorem maskLine_mark (inCode : (maskLine before state).2 = .code) (rest : Text) :
    maskLine (before ++ (mark.text ++ rest)) state =
      prepend (maskLine before state).1
        (maskFrom .code (Lead.plain.after before) 0 (mark.text ++ rest)) :=
  maskFrom_append (apart_mark mark before rest) (fun _ => Nat.zero_le _) inCode

/-- A literal that is read as a verbatim string leaves code behind it. -/
theorem maskLine_literal (inCode : (maskLine before state).2 = .code) (unbroken : '\n' ∉ value)
    (stops : after.head? ≠ some '"') (opened : value.head? ≠ some '"') :
    maskLine (before ++ ((Token.verbatim mark value).text ++ after)) state =
      prepend ((maskLine before state).1 ++ (Token.verbatim mark value).masked)
        (maskLine after .code) := by
  have masked := maskFrom_literal mark (Lead.plain.after before) unbroken opened
  have ended : (Token.verbatim mark value).text = mark.text ++ '"' :: doubled value ++ ['"'] := by
    simp [Token.text]
  have apart : Apart (Token.verbatim mark value).text after := by
    rw [ended]
    exact apart_quote _ stops
  have onward : maskFrom .code (Lead.plain.after before) 0
      ((Token.verbatim mark value).text ++ after) = _ :=
    maskFrom_append apart (fun _ => Nat.zero_le _) (congrArg Prod.snd masked)
  rw [text_verbatim_append, maskLine_mark mark inCode, ← text_verbatim_append, onward, masked,
    ended, Lead.after_concat, prepend_prepend]
  rfl

/-- A mark before three quotes or more does not keep them from opening a raw string. -/
theorem maskLine_marked_raw (inCode : (maskLine before state).2 = .code) {count : Nat}
    (enough : 3 ≤ count) (stops : rest.head? ≠ some '"') :
    maskLine (before ++ (mark.text ++ (quotes count ++ rest))) state =
      prepend ((maskLine before state).1 ++ (mark.text ++ hidden (quotes count)))
        (maskLine rest (.rawString count)) := by
  have kept := maskFrom_mark mark (Lead.plain.after before)
  rw [maskLine_mark mark inCode,
    maskFrom_append (mark_apart mark _) (fun _ => Nat.zero_le _) (congrArg Prod.snd kept),
    kept, maskFrom_raw enough stops, prepend_prepend, prepend_prepend, List.append_assoc]
  rfl

/-- Behind code a verbatim string is hidden as a whole and leaves code, unless
its value begins with a quote: then the quotes it starts with open a raw string. -/
theorem maskLine_verbatim (mark : VerbatimMark) {before value after : Text} {state : LexState}
    (inCode : (maskLine before state).2 = .code) (unbroken : '\n' ∉ value)
    (stops : after.head? ≠ some '"') :
    (value.head? ≠ some '"' →
        maskLine (before ++ ((Token.verbatim mark value).text ++ after)) state =
          prepend ((maskLine before state).1 ++ (Token.verbatim mark value).masked)
            (maskLine after .code)) ∧
      (value.head? = some '"' →
        ∃ count behind, 3 ≤ count ∧ behind.head? ≠ some '"' ∧
          '"' :: (doubled value ++ '"' :: after) = quotes count ++ behind ∧
          maskLine (before ++ ((Token.verbatim mark value).text ++ after)) state =
            prepend ((maskLine before state).1 ++ (mark.text ++ hidden (quotes count)))
              (maskLine behind (.rawString count))) := by
  constructor
  · intro opened
    exact maskLine_literal mark inCode unbroken stops opened
  · intro opened
    obtain ⟨later, rfl⟩ : ∃ later, value = '"' :: later := by
      cases value with
      | nil => exact absurd opened (Option.not_mem_none _)
      | cons first later => exact ⟨later, by rw [Option.some.inj opened]⟩
    have enough : 3 ≤ quoteRun ('"' :: (doubled ('"' :: later) ++ '"' :: after)) := by
      simp [doubled, quoteRun]
    obtain ⟨behind, run, unquoted⟩ :=
      quotes_quoteRun ('"' :: (doubled ('"' :: later) ++ '"' :: after))
    refine ⟨_, behind, enough, unquoted, run, ?_⟩
    rw [text_verbatim_append]
    exact (congrArg (fun text => maskLine (before ++ (mark.text ++ text)) state) run).trans
      (maskLine_marked_raw mark inCode enough unquoted)

/-- An interpolated string that ends in a doubled quote, before a brace. -/
theorem maskLine_verbatim_tail :
    maskLine "s = @$\"a\"\"\"; \x7d".toList .code =
      prepend ("s = ".toList ++ (Token.verbatim .signDollar "a\"".toList).masked)
        (maskLine "; \x7d".toList .code) := by
  have inCode : (maskLine "s = ".toList .code).2 = .code := by decide
  have unbroken : '\n' ∉ "a\"".toList := by decide
  have stops : "; \x7d".toList.head? ≠ some '"' := by decide
  exact (maskLine_verbatim .signDollar inCode unbroken stops).1 (by decide)

/-- A value that begins with a quote leaves the rest of the line in a raw string. -/
theorem not_maskLine_verbatim :
    ¬∀ (mark : VerbatimMark) (before value after : Text) (state : LexState),
      (maskLine before state).2 = .code → '\n' ∉ value → after.head? ≠ some '"' →
        maskLine (before ++ ((Token.verbatim mark value).text ++ after)) state =
          prepend ((maskLine before state).1 ++ (Token.verbatim mark value).masked)
            (maskLine after .code) := by
  intro hides
  have masked := hides .sign "s = ".toList "\"a".toList "; \x7d".toList .code
    (by decide) (by decide) (by decide)
  revert masked
  decide

end Literal

end ChangeCoverage.Source
