import ChangeCoverage.Text.Lines
import ChangeCoverage.Text.Offset

/-!
Masking of source lines.  In a masked line the characters of string literals,
character literals and comments, with their delimiters, are spaces: as many as
the character has UTF-8 bytes, so that offsets agree with those of the line.
-/

namespace ChangeCoverage.Source

inductive LexState where
  | code
  /-- A string with backslash escapes, on one line. -/
  | regularString
  /-- A string in which a quote is written twice; it may span lines. -/
  | verbatimString
  /-- A string closed by at least as many quotes as opened it; it may span lines. -/
  | rawString (quotes : Nat)
  | charLiteral
  | lineComment
  /-- A comment between slash-star and star-slash; it may span lines. -/
  | blockComment
  deriving DecidableEq, Repr

/-- The state at the start of the next line: what cannot span lines has ended. -/
def LexState.atLineEnd : LexState → LexState
  | lineComment => code
  | regularString => code
  | charLiteral => code
  | state => state

/-- Whether the characters just before a quote make it open a verbatim string. -/
inductive Lead where
  | plain
  | verbatim
  | verbatimDollar
  deriving DecidableEq, Repr

def Lead.next (lead : Lead) (character : Char) : Lead :=
  if character = '@' then verbatim
  else if character = '$' ∧ lead = verbatim then verbatimDollar
  else plain

def quoteRun (text : Text) : Nat :=
  (text.takeWhile (· = '"')).length

/-- What a character does: the state after it, the number of characters after
it that belong to the same token, and whether it is masked. -/
structure Step where
  state : LexState
  further : Nat
  masked : Bool
  deriving DecidableEq, Repr

/-- The token that starts with a character of code, followed by `rest`. -/
def codeStep (lead : Lead) (character : Char) (rest : Text) : Step :=
  if character = '/' ∧ rest.head? = some '/' then
    { state := .lineComment, further := 1, masked := true }
  else if character = '/' ∧ rest.head? = some '*' then
    { state := .blockComment, further := 1, masked := true }
  else if character = '"' then
    let run := quoteRun rest + 1
    if 3 ≤ run then { state := .rawString run, further := run - 1, masked := true }
    else if lead = .plain then { state := .regularString, further := 0, masked := true }
    else { state := .verbatimString, further := 0, masked := true }
  else if character = '\'' then
    { state := .charLiteral, further := 0, masked := true }
  else { state := .code, further := 0, masked := false }

def escapedStep (state : LexState) (closer character : Char) : Step :=
  if character = '\\' then { state, further := 1, masked := true }
  else if character = closer then { state := .code, further := 0, masked := true }
  else { state, further := 0, masked := true }

def LexState.step (lead : Lead) (character : Char) (rest : Text) : LexState → Step
  | code => codeStep lead character rest
  | regularString => escapedStep regularString '"' character
  | charLiteral => escapedStep charLiteral '\'' character
  | verbatimString =>
      if character = '"' ∧ rest.head? = some '"' then
        { state := verbatimString, further := 1, masked := true }
      else if character = '"' then { state := code, further := 0, masked := true }
      else { state := verbatimString, further := 0, masked := true }
  | rawString quotes =>
      if character = '"' then
        let run := quoteRun rest + 1
        { state := if quotes ≤ run then code else rawString quotes,
          further := run - 1, masked := true }
      else { state := rawString quotes, further := 0, masked := true }
  | lineComment => { state := lineComment, further := 0, masked := true }
  | blockComment =>
      if character = '*' ∧ rest.head? = some '/' then
        { state := code, further := 1, masked := true }
      else { state := blockComment, further := 0, masked := true }

def blank (character : Char) : Text :=
  List.replicate character.utf8Size ' '

/-- Masks the rest of a line.  The first `further` characters belong to a token
that has already started. -/
def maskFrom (state : LexState) (lead : Lead) : Nat → Text → Text × LexState
  | _, [] => ([], state)
  | further + 1, character :: rest =>
      let (masked, reached) := maskFrom state (lead.next character) further rest
      (blank character ++ masked, reached)
  | 0, character :: rest =>
      let step := state.step lead character rest
      let (masked, reached) := maskFrom step.state (lead.next character) step.further rest
      ((if step.masked then blank character else [character]) ++ masked, reached)

def maskLine (line : Text) (state : LexState) : Text × LexState :=
  maskFrom state .plain 0 line

def maskLines (state : LexState) : List Text → List (Text × LexState)
  | [] => []
  | line :: rest =>
      let (masked, reached) := maskLine line state
      let next := reached.atLineEnd
      (masked, next) :: maskLines next rest

inductive Brace where
  | opening
  | closing
  deriving DecidableEq, Repr

def braces (masked : Text) : List Brace :=
  masked.filterMap fun character =>
    if character = '{' then some .opening else if character = '}' then some .closing else none

@[simp]
theorem byteSize_blank (character : Char) :
    Text.byteSize (blank character) = character.utf8Size := by
  have spaces (count : Nat) : Text.byteSize (List.replicate count ' ') = count := by
    induction count with
    | zero => rfl
    | succ count inductionHypothesis =>
        rw [List.replicate_succ, Text.byteSize_cons, inductionHypothesis]
        have one : (' ' : Char).utf8Size = 1 := by decide
        omega
  exact spaces character.utf8Size

theorem byteSize_maskFrom (state : LexState) (lead : Lead) (further : Nat) (line : Text) :
    Text.byteSize (maskFrom state lead further line).1 = Text.byteSize line := by
  induction line generalizing state lead further with
  | nil => cases further <;> rfl
  | cons character rest inductionHypothesis =>
      cases further with
      | zero =>
          simp only [maskFrom, Text.byteSize_append, Text.byteSize_cons, inductionHypothesis]
          split <;> simp
      | succ further =>
          simp [maskFrom, inductionHypothesis]

theorem byteSize_maskLine (line : Text) (state : LexState) :
    Text.byteSize (maskLine line state).1 = Text.byteSize line :=
  byteSize_maskFrom state .plain 0 line

end ChangeCoverage.Source
