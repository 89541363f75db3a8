import ChangeCoverage.Branch.Condition
import ChangeCoverage.Source.Mask
import ChangeCoverage.Text.Word

/-!
Branch headers on masked lines: the keywords that open a branch, with the text
that is shown for it.
-/

namespace ChangeCoverage.Branch

inductive Kind where
  | ifHeader
  | elseIfHeader
  | elseHeader
  | switchHeader
  | caseLabel
  | defaultLabel
  deriving DecidableEq, Repr

namespace Kind

def isLabel : Kind → Bool
  | caseLabel => true
  | defaultLabel => true
  | _ => false

def placeholder : Kind → Text
  | ifHeader => "if (...)".toList
  | elseIfHeader => "else if (...)".toList
  | elseHeader => "else".toList
  | switchHeader => "switch (...)".toList
  | caseLabel => "case ...:".toList
  | defaultLabel => "default:".toList

def conditionKeyword? : Kind → Option Text
  | ifHeader => some "if".toList
  | elseIfHeader => some "else if".toList
  | switchHeader => some "switch".toList
  | _ => none

end Kind

def afterBlanks? (expected : Char) (text : Text) : Option Text :=
  Text.after? [expected] (text.dropWhile Text.isBlank)

def endsWord (text : Text) : Bool :=
  text.head?.all fun character => !Text.isWordCharacter character

def afterElseIf? (text : Text) : Option Text := do
  let rest ← Text.after? "else".toList text
  if rest.head?.any Text.isBlank then
    let condition ← Text.after? "if".toList (rest.dropWhile Text.isBlank)
    afterBlanks? '(' condition
  else none

def afterWord? (keyword text : Text) : Option Text :=
  (Text.after? keyword text).filter endsWord

/-- The header that a text starts with, and what follows it.  An `else` before
an `if` is part of one header. -/
def headerAt? (text : Text) : Option (Kind × Text) :=
  (afterElseIf? text).map (.elseIfHeader, ·) <|>
  ((Text.after? "if".toList text).bind (afterBlanks? '(')).map (.ifHeader, ·) <|>
  (afterWord? "else".toList text).map (.elseHeader, ·) <|>
  ((Text.after? "switch".toList text).bind (afterBlanks? '(')).map (.switchHeader, ·) <|>
  (afterWord? "case".toList text).map (.caseLabel, ·) <|>
  ((Text.after? "default".toList text).bind (afterBlanks? ':')).map (.defaultLabel, ·)

/-- Where a header stands on its line, as offsets of its first byte and of the
byte after it. -/
structure Occurrence where
  kind : Kind
  column : Nat
  stop : Nat
  deriving DecidableEq, Repr

/-- The headers in the rest of a line that starts at an offset.  None starts
after a word character or within the first `further` characters. -/
def occurrencesFrom (offset : Nat) (afterWord : Bool) : Nat → Text → List Occurrence
  | _, [] => []
  | further + 1, character :: rest =>
      occurrencesFrom (offset + character.utf8Size) (Text.isWordCharacter character) further rest
  | 0, character :: rest =>
      let found := if afterWord then none else headerAt? (character :: rest)
      let consumed := found.elim [] fun (_, following) =>
        (character :: rest).take (rest.length + 1 - following.length)
      (found.map fun (kind, _) =>
        { kind, column := offset, stop := offset + Text.byteSize consumed }).toList ++
      occurrencesFrom (offset + character.utf8Size) (Text.isWordCharacter character)
        (consumed.length - 1) rest

def occurrences (masked : Text) : List Occurrence :=
  occurrencesFrom 0 false 0 masked

structure Header where
  column : Nat
  /-- The offset after the keyword and its condition, where a body on the same
  line starts, unless the condition is not closed there. -/
  bodyStart : Option Nat
  kind : Kind
  /-- The header's text, such as `if (x > 0)` or `case 1:`. -/
  condition : Text
  deriving DecidableEq, Repr

def Header.ofOccurrence (masked raw : Text) (found : Occurrence) : Header :=
  match found.kind.conditionKeyword? with
  | some keyword =>
      match readCondition? masked raw (found.stop - 1) with
      | some (inner, closing) =>
          { column := found.column, bodyStart := some (closing + 1), kind := found.kind,
            condition := keyword ++ " (".toList ++ inner ++ [')'] }
      | none =>
          { column := found.column, bodyStart := none, kind := found.kind,
            condition := found.kind.placeholder }
  | none =>
      { column := found.column, bodyStart := some found.stop, kind := found.kind,
        condition :=
          if found.kind = .caseLabel then readLabel masked raw found.column
          else found.kind.placeholder }

def headers (masked raw : Text) : List Header :=
  (occurrences masked).map (Header.ofOccurrence masked raw)

/-- Whether the body of a block header is a statement on the same line: a
semicolon follows it before any opening brace. -/
def Header.isInline (masked : Text) (header : Header) : Bool :=
  !header.kind.isLabel &&
    ((header.bodyStart.bind fun start => Text.dropBytes? start masked).bind fun body =>
      body.find? fun character => character = '{' || character = ';') == some ';'

end ChangeCoverage.Branch
