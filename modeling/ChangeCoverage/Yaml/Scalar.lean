import ChangeCoverage.Yaml.Place

/-!
Scalars of a YAML text: plain, quoted and block scalars.
-/

namespace ChangeCoverage.Yaml

inductive Style where
  | plain
  | quoted
  | literal
  | folded
  deriving DecidableEq, Repr

inductive Gap where
  | spaces (text : Text)
  /-- A first line end, and the line ends after it. -/
  | breaks (first later : Text)

namespace Gap

def empty : Gap :=
  spaces []

def fold : Gap → Text
  | spaces text => text
  | breaks first later =>
      if first = ['\n'] then (if later.isEmpty then [' '] else later) else first ++ later

def addSpace (gap : Gap) (character : Char) : Gap :=
  match gap with
  | spaces text => spaces (text ++ [character])
  | breaks first later => breaks first later

def addBreak (gap : Gap) (lineEnd : Text) : Gap :=
  match gap with
  | spaces _ => breaks lineEnd []
  | breaks first later => breaks first (later ++ lineEnd)

def spansLines : Gap → Bool
  | spaces _ => false
  | breaks _ _ => true

end Gap

structure ScalarReader where
  place : Place
  /-- The text up to the last character that is not in the gap, which comes first. -/
  reversed : Text
  gap : Gap

namespace ScalarReader

def start (place : Place) : ScalarReader :=
  { place, reversed := [], gap := .empty }

def text (reader : ScalarReader) : Text :=
  reader.reversed.reverse

def add (reader : ScalarReader) (text : Text) (place : Place) : ScalarReader :=
  { place, reversed := text.reverse ++ (reader.gap.fold.reverse ++ reader.reversed), gap := .empty }

def addGap (reader : ScalarReader) (character : Char) : ScalarReader :=
  if isBreak character then
    let (lineEnd, place) := reader.place.takeBreak
    { reader with place, gap := reader.gap.addBreak lineEnd }
  else
    { reader with place := reader.place.skip 1, gap := reader.gap.addSpace character }

end ScalarReader

def isFlowIndicator (character : Char) : Bool :=
  [',', '[', ']', '\x7b', '\x7d'].contains character

def plainStep (inFlow : Bool) (indent : Nat) (reader : ScalarReader) :
    Option (ScalarReader ⊕ ScalarReader) :=
  let place := reader.place
  let finished := some (.inr reader)
  match place.rest with
  | [] => finished
  | character :: rest =>
      if isSpacing character || isBreak character then
        if character = '\t' && reader.gap.spansLines && place.column < indent then none
        else some (.inl (reader.addGap character))
      else if !inFlow && reader.gap.spansLines && place.column < indent then finished
      else if place.atDocumentMarker then finished
      else if character = '#' && (reader.gap.spansLines || !reader.gap.fold.isEmpty) then finished
      else if inFlow && character = ':' &&
          (rest.head?.any fun next => isFlowIndicator next || next = '?') then none
      else if character = ':' && place.endsAt 1 then finished
      else if inFlow && isFlowIndicator character then finished
      else some (.inl (reader.add [character] (place.skip 1)))

def plainScalar (inFlow : Bool) (indent : Nat) (place : Place) : Option ScalarReader :=
  repeatStep (·.place.left) (plainStep inFlow indent) (.start place)

def hexadecimal? (digits : Text) : Option Nat :=
  digits.foldlM (fun value digit =>
    let code := digit.toNat
    if digit.isDigit then some (value * 16 + (code - 48))
    else if 97 ≤ code && code ≤ 102 then some (value * 16 + (code - 87))
    else if 65 ≤ code && code ≤ 70 then some (value * 16 + (code - 55))
    else none) 0

def escapes : List (Char × Nat) :=
  [('0', 0), ('a', 7), ('b', 8), ('t', 9), ('\t', 9), ('n', 10), ('v', 11), ('f', 12),
   ('r', 13), ('e', 27), (' ', 32), ('"', 34), ('/', 47), ('\\', 92), ('N', 0x85),
   ('_', 0xa0), ('L', 0x2028), ('P', 0x2029)]

/-- The character that an escape stands for, and the number of characters of
the escape after the backslash. -/
def escape? : Text → Option (Char × Nat)
  | [] => none
  | letter :: rest =>
      match escapes.lookup letter with
      | some code => some (Char.ofNat code, 1)
      | none => do
          let count ← [('x', 2), ('u', 4), ('U', 8)].lookup letter
          let digits := rest.take count
          let code ← if digits.length = count then hexadecimal? digits else none
          if (0xd800 ≤ code && code ≤ 0xdfff) || 0x10ffff < code then none
          else some (Char.ofNat code, count + 1)

def quotedStep (quote : Char) (reader : ScalarReader) : Option (ScalarReader ⊕ ScalarReader) :=
  let place := reader.place
  if place.atDocumentMarker then none
  else
    match place.rest with
    | [] => none
    | character :: rest =>
        if isSpacing character || isBreak character then some (.inl (reader.addGap character))
        else if character = quote then
          if quote = '\'' && rest.head? = some quote then
            some (.inl (reader.add [quote] (place.skip 2)))
          else some (.inr (reader.add [] (place.skip 1)))
        else if quote = '"' && character = '\\' then
          if rest.head?.any isBreak then
            let (_, next) := (place.skip 1).takeBreak
            some (.inl { reader.add [] next with gap := .breaks [] [] })
          else
            (escape? rest).map fun (escaped, count) =>
              .inl (reader.add [escaped] (place.skip (count + 1)))
        else some (.inl (reader.add [character] (place.skip 1)))

def quotedScalar (quote : Char) (place : Place) : Option ScalarReader :=
  repeatStep (·.place.left) (quotedStep quote) (.start place)

inductive Chomping where
  | strip
  | clip
  | keep
  deriving DecidableEq, Repr

/-- The header of a block scalar: its chomping and its indentation, and the
place after its line. -/
def blockHeader? (place : Place) : Option (Chomping × Option Nat × Place) :=
  let chomping? : Option Char → Option Chomping
    | some '+' => some .keep
    | some '-' => some .strip
    | _ => none
  let digit? : Option Char → Option Nat := fun character =>
    (character.filter Char.isDigit).map fun digit => digit.toNat - 48
  let first := place.peek 0
  let second := place.peek 1
  let (chomping, indentation, length) : Option Chomping × Option Nat × Nat :=
    match chomping? first, digit? first with
    | some chomping, _ =>
        let digit := digit? second
        (some chomping, digit, if digit.isSome then 2 else 1)
    | none, some digit =>
        let chomping := chomping? second
        (chomping, some digit, if chomping.isSome then 2 else 1)
    | none, none => (none, none, 0)
  let spaced := (place.skip length).skipWhile isSpacing
  let commented := if spaced.isAt '#' then spaced.skipWhile (!isBreak ·) else spaced
  if indentation = some 0 || !commented.atLineEnd then none
  else some (chomping.getD .clip, indentation, commented.takeBreak.2)

/-- Skips indentation and empty lines: the place where a line's text starts,
the line ends on the way, and the greatest column on the way.  Without an
indentation all spaces are skipped. -/
def blockGap (indent : Option Nat) (place : Place) : Option (Place × Text × Nat) :=
  repeatStep (fun state => state.1.left)
    (fun (place, breaks, widest) =>
      let width := (place.rest.takeWhile (· = ' ')).length
      let indented := place.skip (indent.elim width fun column => min width (column - place.column))
      let reached := max widest indented.column
      if indented.isAt '\t' && indent.all (indented.column < ·) then none
      else if indented.rest.head?.any isBreak then
        let (lineEnd, next) := indented.takeBreak
        some (.inl (next, breaks ++ lineEnd, reached))
      else some (.inr (indented, breaks, reached)))
    (place, [], 0)

structure BlockReader where
  place : Place
  /-- The text of the lines, the last character first. -/
  reversed : Text
  lineEnd : Text
  breaks : Text
  /-- Whether the last line starts with a space or a tab. -/
  indented : Bool

def blockStep (style : Style) (indent : Nat) (reader : BlockReader) :
    Option (BlockReader ⊕ BlockReader) :=
  let place := reader.place
  if place.column ≠ indent || place.rest.isEmpty then some (.inr reader)
  else do
    let indented := place.rest.head?.any isSpacing
    let folds := style = .folded && reader.lineEnd = ['\n'] && !reader.indented && !indented
    let lineEnd :=
      if folds then (if reader.breaks.isEmpty then [' '] else []) else reader.lineEnd
    let content := place.rest.takeWhile (!isBreak ·)
    let (newEnd, next) := (place.skip content.length).takeBreak
    let (reached, breaks, _) ← blockGap (some indent) next
    some (.inl
      { place := reached
        reversed := (lineEnd ++ reader.breaks ++ content).reverse ++ reader.reversed
        lineEnd := newEnd, breaks, indented })

/-- Reads a block scalar after its indicator, in a block of some indentation. -/
def blockScalar (style : Style) (blockIndent : Int) (place : Place) : Option (Text × Place) := do
  let (chomping, increment, next) ← blockHeader? place
  let explicit := increment.map fun count =>
    if 0 ≤ blockIndent then blockIndent.toNat + count else count
  let (reached, breaks, widest) ← blockGap explicit next
  let indent := explicit.getD (max 1 (max widest (blockIndent + 1).toNat))
  let reader ← repeatStep (·.place.left) (blockStep style indent)
    { place := reached, reversed := [], lineEnd := [], breaks, indented := false }
  let ending := match chomping with
    | .strip => []
    | .clip => reader.lineEnd
    | .keep => reader.lineEnd ++ reader.breaks
  some (reader.reversed.reverse ++ ending, reader.place)

end ChangeCoverage.Yaml
