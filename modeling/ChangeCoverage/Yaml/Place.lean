import ChangeCoverage.Text.Offset
import ChangeCoverage.Text.Search

/-!
Places in a YAML text, and the characters that matter for its layout.
-/

namespace ChangeCoverage.Yaml

def isBreak (character : Char) : Bool :=
  character = '\n' || character = '\r' || character.toNat = 0x85 ||
    character.toNat = 0x2028 || character.toNat = 0x2029

def isSpacing (character : Char) : Bool :=
  character = ' ' || character = '\t'

def isAllowed (character : Char) : Bool :=
  let code := character.toNat
  code = 0x9 || code = 0xa || code = 0xd || (0x20 ≤ code && code ≤ 0x7e) || code = 0x85 ||
    (0xa0 ≤ code && code ≤ 0xfffd) || 0x10000 ≤ code

/-- The mark that may stand at the start of a line and takes up its first column. -/
def byteOrderMark : Char :=
  Char.ofNat 0xfeff

structure Place where
  rest : Text
  left : Nat
  line : Nat
  /-- The number of characters before this one on its line. -/
  column : Nat

namespace Place

def start (text : Text) : Place :=
  { rest := text, left := Text.byteSize text, line := 0, column := 0 }

def peek (place : Place) (distance : Nat) : Option Char :=
  place.rest[distance]?

def isAt (place : Place) (character : Char) : Bool :=
  place.rest.head? = some character

/-- Whether a space, a tab, a line end or the end of the text is at a distance. -/
def endsAt (place : Place) (distance : Nat) : Bool :=
  (place.peek distance).all fun character => isSpacing character || isBreak character

def atLineEnd (place : Place) : Bool :=
  (place.peek 0).all isBreak

def skip (place : Place) (count : Nat) : Place :=
  { place with
    rest := place.rest.drop count
    left := place.left - Text.byteSize (place.rest.take count)
    column := place.column + count }

def skipWhile (place : Place) (passes : Char → Bool) : Place :=
  place.skip (place.rest.takeWhile passes).length

def takeBreak (place : Place) : Text × Place :=
  let standard (text : Text) (count : Nat) : Text × Place :=
    (text, { place.skip count with line := place.line + 1, column := 0 })
  match place.rest with
  | '\r' :: '\n' :: _ => standard ['\n'] 2
  | character :: _ =>
      if character.toNat = 0x2028 || character.toNat = 0x2029 then standard [character] 1
      else if isBreak character then standard ['\n'] 1
      else ([], place)
  | [] => ([], place)

def atDocumentMarker (place : Place) : Bool :=
  place.column = 0 && ("---".toList.isPrefixOf place.rest || "...".toList.isPrefixOf place.rest) &&
    place.endsAt 3

end Place

/-- Repeats a step from a state at which so much of the text is left.  A step
that gives no result must come closer to the end of the text. -/
def repeatFrom {State Result : Type} (left : State → Nat)
    (step : State → Option (State ⊕ Result)) (remaining : Nat) (state : State) :
    Option Result :=
  match step state with
  | none => none
  | some (.inr result) => some result
  | some (.inl next) =>
      if left next < remaining then repeatFrom left step (left next) next else none
termination_by remaining

def repeatStep {State Result : Type} (left : State → Nat)
    (step : State → Option (State ⊕ Result)) (state : State) : Option Result :=
  repeatFrom left step (left state) state

end ChangeCoverage.Yaml
