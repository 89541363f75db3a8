import ChangeCoverage.Text.Encoding
import ChangeCoverage.Yaml.Scalar

/-!
Tokens of a YAML text.  A mapping key is recognised at its colon, so the tokens
that announce it are put before tokens that have already been read.
-/

namespace ChangeCoverage.Yaml

abbrev Tag := List UInt8

structure WrittenTag where
  handle : Text
  suffix : Tag
  deriving DecidableEq, Repr

inductive Token where
  | versionDirective
  /-- A directive that gives a tag handle its meaning. -/
  | tagDirective (handle : Text) (meaning : Tag)
  | documentStart
  | documentEnd
  | blockSequenceStart
  | blockMappingStart
  | blockEnd
  | flowSequenceStart
  | flowSequenceEnd
  | flowMappingStart
  | flowMappingEnd
  | blockEntry
  | flowEntry
  | key
  | value
  | alias (name : Text)
  | anchor (name : Text)
  | tag (written : WrittenTag)
  | scalar (style : Style) (text : Text)
  deriving DecidableEq, Repr

structure PossibleKey where
  required : Bool
  tokensBefore : Nat
  line : Nat
  column : Nat
  left : Nat

structure Scanner where
  place : Place
  tokens : Array Token := #[]
  flowLevel : Nat := 0
  /-- The column of the present block, −1 outside all blocks. -/
  indent : Int := -1
  outerIndents : List Int := []
  keyAllowed : Bool := true
  /-- The possible key of the present flow collection, and of those around it. -/
  possibleKey : Option PossibleKey := none
  outerKeys : List (Option PossibleKey) := []

namespace Scanner

def push (scanner : Scanner) (token : Token) : Scanner :=
  { scanner with tokens := scanner.tokens.push token }

def take (scanner : Scanner) (count : Nat) (token : Token) : Scanner :=
  { scanner with place := scanner.place.skip count }.push token

def dropKey (scanner : Scanner) : Option Scanner :=
  if scanner.possibleKey.any (·.required) then none
  else some { scanner with possibleKey := none }

def noteKey (scanner : Scanner) : Option Scanner :=
  if scanner.keyAllowed then do
    let cleared ← scanner.dropKey
    some { cleared with
      possibleKey := some
        { required := scanner.flowLevel = 0 && scanner.indent = scanner.place.column
          tokensBefore := scanner.tokens.size
          line := scanner.place.line, column := scanner.place.column
          left := scanner.place.left } }
  else some scanner

/-- Gives up a possible key on another line or more than 1024 bytes away. -/
def expireKey (scanner : Scanner) : Option Scanner :=
  match scanner.possibleKey with
  | none => some scanner
  | some key =>
      if key.line < scanner.place.line || scanner.place.left + 1024 < key.left then
        scanner.dropKey
      else some scanner

def unindent (scanner : Scanner) (column : Int) : Scanner :=
  if scanner.flowLevel = 0 then
    let columns := scanner.indent :: scanner.outerIndents
    let ended := columns.takeWhile (column < ·)
    let remaining := columns.dropWhile (column < ·)
    { scanner with
      tokens := scanner.tokens ++ Array.replicate ended.length .blockEnd
      indent := remaining.headD (-1)
      outerIndents := remaining.tail }
  else scanner

/-- Starts a block at a column, unless it is the present one's, with a token
before the tokens from a number on. -/
def indentTo (scanner : Scanner) (column position : Nat) (token : Token) : Scanner :=
  if scanner.flowLevel = 0 && scanner.indent < column then
    { scanner with
      tokens := scanner.tokens.insertIdxIfInBounds position token
      indent := column
      outerIndents := scanner.indent :: scanner.outerIndents }
  else scanner

/-- Skips spaces, comments and line ends before a token, and a byte order mark
at the start of a line.  Tabs count as spaces where no key can start. -/
def skipToToken (scanner : Scanner) : Option Scanner :=
  repeatStep (·.place.left)
    (fun current =>
      let marked := current.place.column = 0 && current.place.isAt byteOrderMark
      let start := if marked then current.place.skip 1 else current.place
      let spaced := start.skipWhile fun character =>
        character = ' ' ||
          (character = '\t' && (current.flowLevel != 0 || !current.keyAllowed))
      let commented := if spaced.isAt '#' then spaced.skipWhile (!isBreak ·) else spaced
      if commented.rest.head?.any isBreak then
        some (.inl { current with
          place := commented.takeBreak.2
          keyAllowed := current.keyAllowed || current.flowLevel = 0 })
      else some (.inr { current with place := commented }))
    scanner

/-- Whether a character may stand in the name of an anchor or a tag handle. -/
def isNameCharacter (character : Char) : Bool :=
  character.isAlphanum || character = '_' || character = '-'

/-- Whether a character may stand in a tag; the flow indicators only between
angle brackets. -/
def isTagCharacter (bracketed : Bool) (character : Char) : Bool :=
  isNameCharacter character || ";/?:@&=+$.!~*'()%".toList.contains character ||
    (bracketed && [',', '[', ']'].contains character)

def readName (scanner : Scanner) (token : Text → Token) : Option Scanner := do
  let noted ← scanner.noteKey
  let place := noted.place.skip 1
  let name := place.rest.takeWhile isNameCharacter
  let next := place.skip name.length
  let ends := next.endsAt 0 || (next.peek 0).any fun character =>
    ['?', ':', ',', ']', '\x7d', '%', '@', Char.ofNat 96].contains character
  if name.isEmpty || !ends then none
  else some ({ noted with place := next, keyAllowed := false }.push (token name))

def escapedByte? : Text → Option Nat
  | '%' :: high :: low :: _ => hexadecimal? [high, low]
  | _ => none

/-- The bytes of a character of which each byte is escaped.  The first byte
tells how many follow. -/
def escapedBytes? (text : Text) : Option Tag := do
  let first ← escapedByte? text
  let following ←
    if first < 0x80 then some 0
    else if first < 0xc0 then none
    else if first < 0xe0 then some 1
    else if first < 0xf0 then some 2
    else if first < 0xf8 then some 3
    else none
  let others ← (List.range following).mapM fun index =>
    (escapedByte? (text.drop (3 * (index + 1)))).filter fun byte => 0x80 ≤ byte && byte < 0xc0
  some ((first :: others).map UInt8.ofNat)

/-- The text of a tag at a place, and the place after it.  A zero byte ends the
tag. -/
def tagText? (bracketed : Bool) (place : Place) : Option (Tag × Place) :=
  repeatStep (fun state => state.2.left)
    (fun (reversed, current) =>
      match current.rest with
      | [] => some (.inr (reversed.reverse.takeWhile (· ≠ 0), current))
      | character :: _ =>
          if character = '%' then
            (escapedBytes? current.rest).map fun bytes =>
              .inl (bytes.reverse ++ reversed, current.skip (3 * bytes.length))
          else if isTagCharacter bracketed character then
            some (.inl ((Text.encode [character]).reverse ++ reversed, current.skip 1))
          else some (.inr (reversed.reverse.takeWhile (· ≠ 0), current)))
    (([] : Tag), place)

def requiredTagText? (bracketed : Bool) (place : Place) : Option (Tag × Place) :=
  (tagText? bracketed place).filter fun (_, next) => next.left != place.left

def writtenTag? (place : Place) : Option (WrittenTag × Place) :=
  if place.peek 1 = some '<' then
    (requiredTagText? true (place.skip 2)).bind fun (suffix, next) =>
      if next.isAt '>' then some ({ handle := [], suffix }, next.skip 1) else none
  else
    let name := (place.skip 1).rest.takeWhile isNameCharacter
    let closed := place.skip (name.length + 1)
    if closed.isAt '!' then
      (requiredTagText? false (closed.skip 1)).map fun (suffix, next) =>
        ({ handle := '!' :: name ++ ['!'], suffix }, next)
    else
      (tagText? false (place.skip 1)).map fun (suffix, next) =>
        if suffix.isEmpty then ({ handle := [], suffix := Text.encode ['!'] }, next)
        else ({ handle := ['!'], suffix }, next)

def readTag (scanner : Scanner) : Option Scanner := do
  let noted ← scanner.noteKey
  let (written, next) ← writtenTag? noted.place
  if next.endsAt 0 || (noted.flowLevel != 0 && next.isAt ',') then
    some ({ noted with place := next, keyAllowed := false }.push (.tag written))
  else none

/-- The number of up to nine digits at a place, and the place after it. -/
def versionNumber? (place : Place) : Option (Nat × Place) :=
  let digits := place.rest.takeWhile Char.isDigit
  let value := digits.foldl (fun value digit => value * 10 + (digit.toNat - 48)) 0
  if digits.isEmpty || 9 < digits.length then none else some (value, place.skip digits.length)

def version? (place : Place) : Option (Token × Place) := do
  let (major, afterMajor) ← versionNumber? place
  let minorPlace ← if afterMajor.isAt '.' then some (afterMajor.skip 1) else none
  let (minor, next) ← versionNumber? minorPlace
  if major = 1 && (minor = 1 || minor = 2) then some (.versionDirective, next) else none

def handleMeaning? (place : Place) : Option (Token × Place) := do
  let name := (place.skip 1).rest.takeWhile isNameCharacter
  let closed := place.skip (name.length + 1)
  let handled :=
    if closed.isAt '!' then some ('!' :: name ++ ['!'], closed.skip 1)
    else if name.isEmpty then some (['!'], closed)
    else none
  let (handle, afterHandle) ← if place.isAt '!' then handled else none
  let spaced := afterHandle.skipWhile isSpacing
  let (meaning, next) ← requiredTagText? true spaced
  if spaced.left != afterHandle.left && next.endsAt 0 then
    some (.tagDirective handle meaning, next)
  else none

def readDirective (scanner : Scanner) : Option Scanner := do
  let cleared ← (scanner.unindent (-1)).dropKey
  let start := cleared.place.skip 1
  let name := start.rest.takeWhile isNameCharacter
  let named := start.skip name.length
  let value := named.skipWhile isSpacing
  let (token, read) ←
    if !named.endsAt 0 then none
    else if name = "YAML".toList then version? value
    else if name = "TAG".toList then handleMeaning? value
    else none
  let spaced := read.skipWhile isSpacing
  let commented := if spaced.isAt '#' then spaced.skipWhile (!isBreak ·) else spaced
  if commented.atLineEnd then
    some ({ cleared with place := commented.takeBreak.2, keyAllowed := false }.push token)
  else none

def readDocumentMarker (scanner : Scanner) (token : Token) : Option Scanner := do
  let cleared ← (scanner.unindent (-1)).dropKey
  some ({ cleared with keyAllowed := false }.take 3 token)

def openFlow (scanner : Scanner) (token : Token) : Option Scanner := do
  let noted ← scanner.noteKey
  some ({ noted with
    flowLevel := noted.flowLevel + 1
    outerKeys := noted.possibleKey :: noted.outerKeys
    possibleKey := none
    keyAllowed := true }.take 1 token)

def closeFlow (scanner : Scanner) (token : Token) : Option Scanner := do
  let cleared ← scanner.dropKey
  let outer : Scanner :=
    match cleared.outerKeys with
    | [] => cleared
    | key :: others =>
        { cleared with
          flowLevel := cleared.flowLevel - 1, possibleKey := key, outerKeys := others }
  some ({ outer with keyAllowed := false }.take 1 token)

def readFlowEntry (scanner : Scanner) : Option Scanner := do
  let cleared ← scanner.dropKey
  some ({ cleared with keyAllowed := true }.take 1 .flowEntry)

def startBlock (scanner : Scanner) (token : Token) : Option Scanner :=
  if scanner.flowLevel = 0 then
    if scanner.keyAllowed then
      some (scanner.indentTo scanner.place.column scanner.tokens.size token)
    else none
  else some scanner

def readBlockEntry (scanner : Scanner) : Option Scanner := do
  let started ← scanner.startBlock .blockSequenceStart
  let cleared ← started.dropKey
  some ({ cleared with keyAllowed := true }.take 1 .blockEntry)

def readKey (scanner : Scanner) : Option Scanner := do
  let started ← scanner.startBlock .blockMappingStart
  let cleared ← started.dropKey
  some ({ cleared with keyAllowed := cleared.flowLevel = 0 }.take 1 .key)

def readValue (scanner : Scanner) : Option Scanner :=
  match scanner.possibleKey with
  | some key =>
      let announced : Scanner :=
        { scanner with
          tokens := scanner.tokens.insertIdxIfInBounds key.tokensBefore .key
          possibleKey := none }
      let started := announced.indentTo key.column key.tokensBefore .blockMappingStart
      some ({ started with keyAllowed := false }.take 1 .value)
  | none => do
      let started ← scanner.startBlock .blockMappingStart
      some ({ started with keyAllowed := started.flowLevel = 0 }.take 1 .value)

def readBlockScalar (scanner : Scanner) (style : Style) : Option Scanner := do
  let cleared ← scanner.dropKey
  let (text, place) ← blockScalar style cleared.indent (cleared.place.skip 1)
  some ({ cleared with place, keyAllowed := true }.push (.scalar style text))

def readQuoted (scanner : Scanner) (quote : Char) : Option Scanner := do
  let noted ← scanner.noteKey
  let reader ← quotedScalar quote (noted.place.skip 1)
  some ({ noted with place := reader.place, keyAllowed := false }.push
    (.scalar .quoted reader.text))

/-- Reads a plain scalar.  After one that ends its line a key may start. -/
def readPlain (scanner : Scanner) : Option Scanner := do
  let noted ← scanner.noteKey
  let reader ← plainScalar (noted.flowLevel != 0) (noted.indent + 1).toNat noted.place
  some ({ noted with place := reader.place, keyAllowed := reader.gap.spansLines }.push
    (.scalar .plain reader.text))

def startsPlain (scanner : Scanner) (character : Char) : Bool :=
  let reserved :=
    "-?:,[]#&*!|>'\"%@".toList ++ ['\x7b', '\x7d', Char.ofNat 96]
  !(scanner.place.endsAt 0 || reserved.contains character) ||
    (character = '-' && !(scanner.place.peek 1).any isSpacing) ||
    (scanner.flowLevel = 0 && (character = '?' || character = ':') && !scanner.place.endsAt 1)

def readToken (scanner : Scanner) (character : Char) : Option Scanner :=
  let place := scanner.place
  let inFlow := scanner.flowLevel != 0
  if place.column = 0 && character = '%' then scanner.readDirective
  else if place.atDocumentMarker then
    scanner.readDocumentMarker (if character = '-' then .documentStart else .documentEnd)
  else if character = '[' then scanner.openFlow .flowSequenceStart
  else if character = '\x7b' then scanner.openFlow .flowMappingStart
  else if character = ']' then scanner.closeFlow .flowSequenceEnd
  else if character = '\x7d' then scanner.closeFlow .flowMappingEnd
  else if character = ',' then scanner.readFlowEntry
  else if character = '-' && place.endsAt 1 then scanner.readBlockEntry
  else if character = '?' && (inFlow || place.endsAt 1) then scanner.readKey
  else if character = ':' && (inFlow || place.endsAt 1) then scanner.readValue
  else if character = '*' then scanner.readName .alias
  else if character = '&' then scanner.readName .anchor
  else if character = '!' then scanner.readTag
  else if character = '|' && !inFlow then scanner.readBlockScalar .literal
  else if character = '>' && !inFlow then scanner.readBlockScalar .folded
  else if character = '\'' || character = '"' then scanner.readQuoted character
  else if scanner.startsPlain character then scanner.readPlain
  else none

def step (scanner : Scanner) : Option (Scanner ⊕ Array Token) := do
  let reached ← scanner.skipToToken
  let fresh ← reached.expireKey
  match fresh.place.rest with
  | [] => do
      let ended ← (fresh.unindent (-1)).dropKey
      some (.inr ended.tokens)
  | character :: _ => do
      let next ← (fresh.unindent fresh.place.column).readToken character
      some (.inl next)

end Scanner

def tokens? (text : Text) : Option (List Token) :=
  if text.all isAllowed then
    (repeatStep (·.place.left) Scanner.step { place := .start text }).map Array.toList
  else none

end ChangeCoverage.Yaml
