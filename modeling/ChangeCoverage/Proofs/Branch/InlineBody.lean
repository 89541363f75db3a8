import ChangeCoverage.Proofs.Branch.Cut
import ChangeCoverage.Proofs.Branch.Depth

/-!
Bodies on the line of their header.  A body is taken for a statement that ends with the
line if a semicolon comes before any brace.  The semicolon ends the statement if all
parentheses before it are closed.  It may also stand between the parentheses of a loop,
and the branch ends with the line all the same.
-/

namespace ChangeCoverage.Branch

open Source (ScopeEntry ScopeState LexState)

section Parentheses

/-- Whether a start of a text closes parentheses at a depth. -/
def ClosesWithin (depth : Nat) (text : Text) : Prop :=
  ∃ closed, closed <+: text ∧ Closes depth closed

/-- Whether each parenthesis that opens in a text is closed in it. -/
def ClosesAll (text : Text) : Prop :=
  ∀ outer inside, text = outer ++ '(' :: inside → ClosesWithin 1 inside

/-- How many parentheses are open behind a text. -/
def parenthesisDepth (text : Text) : Nat :=
  text.foldl depthBehind 0

variable {depth : Nat} {character : Char} {rest text : Text}

theorem closesWithin_zero (text : Text) : ClosesWithin 0 text :=
  ⟨[], List.nil_prefix, closes_zero_iff.mpr rfl⟩

theorem closesWithin_nil_iff : ClosesWithin depth [] ↔ depth = 0 := by
  constructor
  · rintro ⟨closed, within, closes⟩
    obtain rfl := List.prefix_nil.mp within
    have unchanged : depth + 0 = 0 := closes.1
    omega
  · rintro rfl
    exact closesWithin_zero []

theorem closesWithin_cons_iff (positive : 0 < depth) :
    ClosesWithin depth (character :: rest) ↔ ClosesWithin (depthBehind depth character) rest := by
  constructor
  · rintro ⟨closed, within, closes⟩
    cases closed with
    | nil => exact absurd rfl (closes.ne_nil positive)
    | cons first later =>
        obtain ⟨rfl, inRest⟩ := List.cons_prefix_cons.mp within
        exact ⟨later, inRest, (closes_cons_iff.mp closes).2⟩
  · rintro ⟨later, inRest, closes⟩
    exact ⟨character :: later, List.cons_prefix_cons.mpr ⟨rfl, inRest⟩,
      closes_cons_iff.mpr ⟨positive, closes⟩⟩

theorem depthBehind_succ (positive : 0 < depth) (character : Char) :
    depthBehind (depth + 1) character = depthBehind depth character + 1 := by
  unfold depthBehind
  split
  next => rfl
  next =>
    split
    next => omega
    next => rfl

/-- What closes more parentheses closes the inner ones first. -/
theorem ClosesWithin.of_succ (within : ClosesWithin (depth + 1) text) :
    ClosesWithin depth text := by
  induction text generalizing depth with
  | nil => exact absurd (closesWithin_nil_iff.mp within) (Nat.succ_ne_zero depth)
  | cons character rest inductionHypothesis =>
      rcases Nat.eq_zero_or_pos depth with rfl | positive
      · exact closesWithin_zero _
      · rw [closesWithin_cons_iff (Nat.succ_pos depth), depthBehind_succ positive] at within
        rw [closesWithin_cons_iff positive]
        exact inductionHypothesis within

theorem ClosesWithin.mono {more : Nat} (atMost : depth ≤ more) (within : ClosesWithin more text) :
    ClosesWithin depth text := by
  induction atMost with
  | refl => exact within
  | step _ inductionHypothesis => exact inductionHypothesis within.of_succ

theorem closesAll_cons_iff :
    ClosesAll (character :: rest) ↔
      (character = '(' → ClosesWithin 1 rest) ∧ ClosesAll rest := by
  constructor
  · intro all
    refine ⟨?_, ?_⟩
    · rintro rfl
      exact all [] rest rfl
    · rintro outer inside rfl
      exact all (character :: outer) inside rfl
  · rintro ⟨first, later⟩ outer inside split
    cases outer with
    | nil =>
        obtain ⟨rfl, rfl⟩ := List.cons.inj split
        exact first rfl
    | cons _ outer => exact later outer inside (List.cons.inj split).2

/-- The depth comes back to zero if what was open is closed and all that opens is closed. -/
theorem foldl_depthBehind_eq_zero_iff :
    text.foldl depthBehind depth = 0 ↔ ClosesWithin depth text ∧ ClosesAll text := by
  induction text generalizing depth with
  | nil =>
      rw [List.foldl_nil, closesWithin_nil_iff]
      have none : ClosesAll [] := fun outer inside split => by simp at split
      exact ⟨fun zero => ⟨zero, none⟩, And.left⟩
  | cons character rest inductionHypothesis =>
      rw [List.foldl_cons, inductionHypothesis, closesAll_cons_iff]
      rcases Nat.eq_zero_or_pos depth with rfl | positive
      · -- Nothing is open, so the character matters only if it opens a parenthesis.
        have first : ClosesWithin (depthBehind 0 character) rest ↔
            (character = '(' → ClosesWithin 1 rest) := by
          by_cases opens : character = '('
          · subst opens
            exact ⟨fun closes _ => closes, fun closes => closes rfl⟩
          · have unchanged : depthBehind 0 character = 0 := by
              rw [depthBehind, if_neg opens, Nat.zero_sub, ite_self]
            rw [unchanged]
            exact ⟨fun _ isOpening => absurd isOpening opens, fun _ => closesWithin_zero rest⟩
        rw [first]
        exact ⟨fun closes => ⟨closesWithin_zero _, closes⟩, And.right⟩
      · rw [closesWithin_cons_iff positive]
        constructor
        · rintro ⟨outer, later⟩
          refine ⟨outer, ?_, later⟩
          -- A parenthesis that opens here is closed before those that were open.
          rintro rfl
          have deeper : ClosesWithin (depth + 1) rest := outer
          exact deeper.mono (Nat.le_add_left 1 depth)
        · rintro ⟨outer, -, later⟩
          exact ⟨outer, later⟩

/-- No parenthesis is open behind a text in which all that open are closed. -/
theorem parenthesisDepth_eq_zero_iff : parenthesisDepth text = 0 ↔ ClosesAll text := by
  rw [parenthesisDepth, foldl_depthBehind_eq_zero_iff]
  exact ⟨And.right, fun all => ⟨closesWithin_zero text, all⟩⟩

end Parentheses

section Body

variable {masked : Text} {header : Header}

/-- The text behind a header. -/
def Header.body? (masked : Text) (header : Header) : Option Text :=
  header.bodyStart.bind fun start => Text.dropBytes? start masked

/-- The body of a block header starts with a text without semicolons and opening braces,
and a semicolon follows it. -/
structure Header.RunsTo (masked : Text) (header : Header) (statement tail : Text) : Prop where
  isBlock : header.kind.isLabel = false
  body : header.body? masked = some (statement ++ ';' :: tail)
  noBrace : '{' ∉ statement
  noSemicolon : ';' ∉ statement

theorem find?_eq_semicolon_iff (body : Text) :
    body.find? (fun character => character = '{' || character = ';') = some ';' ↔
      ∃ statement tail, body = statement ++ ';' :: tail ∧ '{' ∉ statement ∧ ';' ∉ statement := by
  rw [List.find?_eq_some_iff_append]
  constructor
  · rintro ⟨-, statement, tail, bodyEq, unmarked⟩
    refine ⟨statement, tail, bodyEq, ?_, ?_⟩
    · intro brace
      simpa using unmarked _ brace
    · intro semicolon
      simpa using unmarked _ semicolon
  · rintro ⟨statement, tail, bodyEq, noBrace, noSemicolon⟩
    refine ⟨rfl, statement, tail, bodyEq, ?_⟩
    intro character membership
    have notBrace : character ≠ '{' := fun isBrace => noBrace (isBrace ▸ membership)
    have notSemicolon : character ≠ ';' := fun isSemicolon => noSemicolon (isSemicolon ▸ membership)
    simp [notBrace, notSemicolon]

theorem isInline_iff :
    header.isInline masked = true ↔ ∃ statement tail, header.RunsTo masked statement tail := by
  rw [Header.isInline, Bool.and_eq_true, Bool.not_eq_true', beq_iff_eq, Option.bind_eq_some_iff]
  constructor
  · rintro ⟨isBlock, body, isBody, found⟩
    obtain ⟨statement, tail, rfl, noBrace, noSemicolon⟩ := (find?_eq_semicolon_iff body).mp found
    exact ⟨statement, tail, isBlock, isBody, noBrace, noSemicolon⟩
  · rintro ⟨statement, tail, isBlock, isBody, noBrace, noSemicolon⟩
    refine ⟨isBlock, statement ++ ';' :: tail, isBody, ?_⟩
    exact (find?_eq_semicolon_iff _).mpr ⟨statement, tail, rfl, noBrace, noSemicolon⟩

/-- A body starts at a character of its line or behind the last one. -/
theorem exists_body_of_mem_headers {line : Text} {state : LexState}
    (membership : header ∈ headers (Source.maskLine line state).1 line) :
    ∀ start ∈ header.bodyStart,
      ∃ body, header.body? (Source.maskLine line state).1 = some body := by
  obtain ⟨found, inLine, rfl⟩ := List.mem_map.mp membership
  obtain ⟨front, lead, behind, maskedEq, stands⟩ := mem_occurrences_iff.mp inLine
  intro start isStart
  obtain ⟨body, dropped⟩ :=
    ((stands.cuts maskedEq (Source.hides_maskLine line state)).body start isStart).2
  refine ⟨body, ?_⟩
  rw [Header.body?, Option.mem_def.mp isStart]
  exact dropped

end Body

section Order

variable {fileEnd : Nat}

def Mark.number : Mark → Nat
  | .brace line _ => line
  | .header line _ => line.number
  | .lineEnd line => line

/-- The end of a line comes behind all other marks of the line. -/
def Mark.Before (earlier later : Mark) : Prop :=
  earlier.number < later.number ∨
    earlier.number = later.number ∧ ∀ line, earlier ≠ .lineEnd line

theorem number_of_mem_marksFrom {line : SourceLine} {found : List Header} {offset : Nat}
    {text : Text} {mark : Mark} (membership : mark ∈ marksFrom line found offset text) :
    mark.number = line.number ∧ ∀ other, mark ≠ .lineEnd other := by
  induction text generalizing offset with
  | nil => exact absurd membership List.not_mem_nil
  | cons character rest inductionHypothesis =>
      rw [marksFrom, List.mem_append, List.mem_append, List.mem_map, List.mem_map] at membership
      rcases membership with (⟨header, _, rfl⟩ | ⟨met, _, rfl⟩) | later
      · exact ⟨rfl, fun _ => Mark.noConfusion⟩
      · exact ⟨rfl, fun _ => Mark.noConfusion⟩
      · exact inductionHypothesis later

theorem pairwise_lineMarks (hot : Bool) (line : SourceLine) :
    (∀ mark ∈ lineMarks hot line, mark.number = line.number) ∧
      (lineMarks hot line).Pairwise Mark.Before := by
  constructor
  · intro mark membership
    rcases List.mem_append.mp membership with inLine | atEnd
    · exact (number_of_mem_marksFrom inLine).1
    · rw [List.mem_singleton.mp atEnd]
      rfl
  · rw [lineMarks, List.pairwise_append]
    refine ⟨?_, List.pairwise_singleton _ _, ?_⟩
    · apply List.pairwise_of_forall_mem_list
      intro earlier earlierIn later laterIn
      obtain ⟨earlierNumber, notEnd⟩ := number_of_mem_marksFrom earlierIn
      obtain ⟨laterNumber, -⟩ := number_of_mem_marksFrom laterIn
      exact .inr ⟨earlierNumber.trans laterNumber.symm, notEnd⟩
    · intro earlier earlierIn later laterIn
      obtain ⟨earlierNumber, notEnd⟩ := number_of_mem_marksFrom earlierIn
      obtain rfl := List.mem_singleton.mp laterIn
      exact .inr ⟨earlierNumber, notEnd⟩

theorem pairwise_before_fileMarks (fileLines : List Text) (scopes : List ScopeEntry)
    (changed : List Nat) : (fileMarks fileLines scopes changed).Pairwise Mark.Before := by
  rw [fileMarks, List.pairwise_flatMap]
  constructor
  · intro line _
    exact (pairwise_lineMarks _ line).2
  · apply (pairwise_sourceLines 1 .code fileLines scopes).2.imp
    intro line next ordered earlier earlierIn later laterIn
    left
    rw [(pairwise_lineMarks _ line).1 earlier earlierIn,
      (pairwise_lineMarks _ next).1 later laterIn]
    exact ordered

/-- A statement on its header's line ends there at the latest. -/
theorem lastLine_le {branch : Branch} {depth number : Nat} {marks : List Mark}
    (ordered : marks.Pairwise Mark.Before) (ends : .lineEnd number ∈ marks) :
    lastLine branch true fileEnd depth marks ≤ number := by
  induction marks generalizing depth with
  | nil => exact absurd ends List.not_mem_nil
  | cons mark later inductionHypothesis =>
      rw [List.pairwise_cons] at ordered
      rcases List.mem_cons.mp ends with rfl | behind
      · exact Nat.le_refl number
      · have atMost : mark.number ≤ number := by
          rcases ordered.1 _ behind with lt | ⟨same, -⟩
          · exact Nat.le_of_lt lt
          · exact Nat.le_of_eq same
        have goesOn {reached : Nat} : lastLine branch true fileEnd reached later ≤ number :=
          inductionHypothesis ordered.2 behind
        cases mark with
        | brace line met =>
            cases met with
            | opening => exact goesOn
            | closing =>
                rw [lastLine]
                split
                · exact atMost
                · exact goesOn
        | header line header =>
            rw [lastLine]
            split
            · exact Nat.le_trans (Nat.sub_le line.number 1) atMost
            · exact goesOn
        | lineEnd line => exact atMost

/-- The end of a header's line is among the marks behind the header. -/
theorem lineEnd_mem_behind {fileLines : List Text} {scopes : List ScopeEntry}
    {changed : List Nat} {before behind : List Mark} {line : SourceLine} {header : Header}
    (split : fileMarks fileLines scopes changed = before ++ .header line header :: behind) :
    .lineEnd line.number ∈ behind := by
  have ordered := pairwise_before_fileMarks fileLines scopes changed
  have marked : .header line header ∈ fileMarks fileLines scopes changed := by
    rw [split]
    exact List.mem_append_right before List.mem_cons_self
  have ends : .lineEnd line.number ∈ fileMarks fileLines scopes changed := by
    have isLine := (header_of_mem_fileMarks marked).1
    exact List.mem_flatMap.mpr ⟨line, isLine, List.mem_append_right _ List.mem_cons_self⟩
  rw [split, List.pairwise_append] at ordered
  rw [split, List.mem_append, List.mem_cons] at ends
  rcases ends with earlier | same | later
  · rcases ordered.2.2 _ earlier _ List.mem_cons_self with lt | ⟨-, notEnd⟩
    · exact absurd lt (Nat.lt_irrefl line.number)
    · exact absurd rfl (notEnd line.number)
  · cases same
  · exact later

theorem lastLine_behind_le {fileLines : List Text} {scopes : List ScopeEntry}
    {changed : List Nat} {before behind : List Mark} {line : SourceLine} {header : Header}
    (split : fileMarks fileLines scopes changed = before ++ .header line header :: behind)
    (branch : Branch) (depth : Nat) :
    lastLine branch true fileEnd depth behind ≤ line.number := by
  have ordered := pairwise_before_fileMarks fileLines scopes changed
  rw [split, List.pairwise_append, List.pairwise_cons] at ordered
  exact lastLine_le ordered.2.1.2 (lineEnd_mem_behind split)

end Order

/-- A branch whose header's line has not changed comes from a header with a body that
does not end with the line. -/
theorem changed_or_not_isInline {fileLines : List Text} {scopes : List ScopeEntry}
    {changed : List Nat} {branch : Branch} (extracted : branch ∈ extract fileLines scopes changed) :
    branch.startLine ∈ changed ∨
      ∃ front raw back header, fileLines = front ++ raw :: back ∧
        header ∈ headers ((ScopeState.after {} front).maskedLine raw) raw ∧
        branch.kind = header.kind ∧ branch.condition = header.condition ∧
        branch.startLine = front.length + 1 ∧
        header.isInline ((ScopeState.after {} front).maskedLine raw) = false := by
  obtain ⟨extent, found, rfl, touched⟩ := mem_extract_iff.mp extracted
  obtain ⟨before, line, header, behind, reached, split, rfl⟩ := header_of_mem_extentsFrom found
  have marked : .header line header ∈ fileMarks fileLines scopes changed := by
    rw [split]
    exact List.mem_append_right before List.mem_cons_self
  obtain ⟨isLine, isFound⟩ := header_of_mem_fileMarks marked
  cases inline : header.isInline line.masked with
  | true =>
      left
      have ends : lastLine (header.branchAt line reached) true fileLines.length reached behind ≤
          line.number := lastLine_behind_le split _ reached
      rw [inline] at touched
      obtain ⟨number, isChanged, first, last⟩ := touches_iff.mp touched
      have onLine : number = line.number :=
        Nat.le_antisymm (Nat.le_trans last (Nat.max_le.mpr ⟨Nat.le_refl _, ends⟩)) first
      have isLineChanged : line.number ∈ changed := onLine ▸ isChanged
      exact isLineChanged
  | false =>
      right
      obtain ⟨front, raw, back, rfl, rfl⟩ := mem_sourceLines {} line isLine
      exact ⟨front, raw, back, header, rfl, isFound, rfl, rfl, Nat.add_comm 1 _, inline⟩

/-- A body is taken for a statement on its header's line exactly if a semicolon comes
before any brace.  The semicolon stands at depth zero exactly if every parenthesis that
opens before it is closed before it.  Wherever it stands, the branch ends with its line
and is extracted for a change of that line only. -/
theorem isInline_and_changed (line : Text) (state : LexState) (fileLines : List Text)
    (scopes : List ScopeEntry) (changed : List Nat) :
    (∀ header ∈ headers (Source.maskLine line state).1 line,
        (∀ start ∈ header.bodyStart,
          ∃ body, header.body? (Source.maskLine line state).1 = some body) ∧
        (header.isInline (Source.maskLine line state).1 = true ↔
          ∃ statement tail, header.RunsTo (Source.maskLine line state).1 statement tail) ∧
        ∀ statement tail, header.RunsTo (Source.maskLine line state).1 statement tail →
          (parenthesisDepth statement = 0 ↔ ClosesAll statement)) ∧
      ∀ branch ∈ extract fileLines scopes changed, branch.startLine ∈ changed ∨
        ∃ front raw back header, fileLines = front ++ raw :: back ∧
          header ∈ headers ((ScopeState.after {} front).maskedLine raw) raw ∧
          branch.kind = header.kind ∧ branch.condition = header.condition ∧
          branch.startLine = front.length + 1 ∧
          header.isInline ((ScopeState.after {} front).maskedLine raw) = false := by
  refine ⟨?_, fun branch => changed_or_not_isInline⟩
  intro header membership
  exact ⟨exists_body_of_mem_headers membership, isInline_iff,
    fun statement tail _ => parenthesisDepth_eq_zero_iff⟩

section Sample

/-- A line with a call for the body of its condition, and a block behind it. -/
def callLine : Text :=
  "if (a) b(c); else \x7b".toList

def callHeader : Header where
  column := 0
  bodyStart := some 6
  kind := .ifHeader
  condition := "if (a)".toList

/-- A file in which the body of a condition is a loop with a block. -/
def loopLines : List Text :=
  ["class A \x7b", "  void M() \x7b", "    if (a) for (int i = 0; i < n; i++) \x7b", "      b();",
    "    \x7d", "  \x7d", "\x7d"].map String.toList

def loopLine : Text :=
  "    if (a) for (int i = 0; i < n; i++) \x7b".toList

def loopHeader : Header where
  column := 4
  bodyStart := some 10
  kind := .ifHeader
  condition := "if (a)".toList

def loopBranch : Branch where
  scope := { typeName := some ['A'], methodName := some ['M'] }
  kind := .ifHeader
  condition := "if (a)".toList
  startLine := 3
  depth := 2

end Sample

/-- The call closes its parenthesis, and a branch of a changed line behind its header has
a body that does not end with the header's line. -/
theorem isInline_and_changed_call :
    callHeader ∈ headers (Source.maskLine callLine .code).1 callLine ∧
      callHeader.RunsTo (Source.maskLine callLine .code).1 " b(c)".toList " else \x7b".toList ∧
      ClosesAll " b(c)".toList ∧
      chainedBranch ∈ extract chainedLines (Source.scopeEntries chainedLines) [6] ∧
      ∃ front raw back header, chainedLines = front ++ raw :: back ∧
        header ∈ headers ((ScopeState.after {} front).maskedLine raw) raw ∧
        chainedBranch.kind = header.kind ∧ chainedBranch.condition = header.condition ∧
        chainedBranch.startLine = front.length + 1 ∧
        header.isInline ((ScopeState.after {} front).maskedLine raw) = false := by
  obtain ⟨lines, files⟩ :=
    isInline_and_changed callLine .code chainedLines (Source.scopeEntries chainedLines) [6]
  have isHeader : callHeader ∈ headers (Source.maskLine callLine .code).1 callLine := by
    decide +kernel
  have runs :
      callHeader.RunsTo (Source.maskLine callLine .code).1 " b(c)".toList " else \x7b".toList :=
    { isBlock := rfl, body := by decide +kernel, noBrace := by decide, noSemicolon := by decide }
  have closes := ((lines callHeader isHeader).2.2 _ _ runs).mp (by decide +kernel)
  have extracted : chainedBranch ∈ extract chainedLines (Source.scopeEntries chainedLines) [6] := by
    decide +kernel
  refine ⟨isHeader, runs, closes, extracted, ?_⟩
  exact (files chainedBranch extracted).resolve_left (by decide)

/-- The semicolon between the parentheses of a loop is taken for the end of the body, and
a change of the loop's block is lost. -/
theorem not_isInline_terminated :
    (¬∀ line state, ∀ header ∈ headers (Source.maskLine line state).1 line,
        header.isInline (Source.maskLine line state).1 = true →
          ∀ statement tail, header.RunsTo (Source.maskLine line state).1 statement tail →
            parenthesisDepth statement = 0) ∧
      extract loopLines (Source.scopeEntries loopLines) [3] = [loopBranch] ∧
      extract loopLines (Source.scopeEntries loopLines) [4] = [] := by
  refine ⟨?_, by decide +kernel, by decide +kernel⟩
  intro terminated
  have isHeader : loopHeader ∈ headers (Source.maskLine loopLine .code).1 loopLine := by
    decide +kernel
  have runs : loopHeader.RunsTo (Source.maskLine loopLine .code).1 " for (int i = 0".toList
      " i < n; i++) \x7b".toList :=
    { isBlock := rfl, body := by decide +kernel, noBrace := by decide, noSemicolon := by decide }
  have inline : loopHeader.isInline (Source.maskLine loopLine .code).1 = true := by decide +kernel
  have zero := terminated loopLine .code loopHeader isHeader inline _ _ runs
  revert zero
  decide +kernel

end ChangeCoverage.Branch
