import ChangeCoverage.Yaml.Token

/-!
Nodes of a YAML document, and the nodes that aliases stand for.
-/

namespace ChangeCoverage.Yaml

inductive Node where
  | scalar (tag : Option Tag) (style : Style) (text : Text)
  | sequence (tag : Option Tag) (items : List Node)
  | mapping (tag : Option Tag) (entries : List (Node × Node))
  /-- What stands for the anchored node with a number. -/
  | alias (number : Nat)

structure Document where
  root : Node
  /-- The anchored nodes with their numbers; of two that start at different
  places, the later one comes first. -/
  anchored : List (Nat × Node)

namespace Document

/-- What a node stands for.  Several anchored nodes may have one number, of
which the last one counts. -/
def follow (document : Document) : Node → Option Node
  | .alias number => document.anchored.lookup number
  | node => some node

end Document

namespace Node

def empty : Node :=
  scalar none .plain []

structure Properties where
  /-- The number of the node, if it is anchored. -/
  number : Option Nat := none
  tag : Option Tag := none

namespace Properties

def isPresent (properties : Properties) : Bool :=
  properties.number.isSome || properties.tag.isSome

end Properties

structure Reader where
  tokens : List Token
  handles : List (Text × Tag)
  /-- The names of anchors with the numbers that they stand for. -/
  names : List (Text × Nat)
  /-- The anchored nodes that have been read, the last one to start first. -/
  anchored : List (Nat × Node)

namespace Reader

def next (reader : Reader) : Reader :=
  { reader with tokens := reader.tokens.tail }

def isAt (reader : Reader) (choices : List Token) : Bool :=
  reader.tokens.head?.any choices.contains

def resolve (reader : Reader) (written : WrittenTag) : Option Tag :=
  if written.handle.isEmpty then some written.suffix
  else (reader.handles.lookup written.handle).map (· ++ written.suffix)

def define (reader : Reader) (name : Text) : Nat × Reader :=
  let number := reader.names.length
  (number,
    { reader.next with names := (name, number) :: reader.names.filter (·.1 ≠ name) })

def readProperties (reader : Reader) : Option (Properties × Reader) :=
  match reader.tokens with
  | .anchor name :: .tag written :: _ => do
      let tag ← reader.resolve written
      let (number, defined) := reader.define name
      some ({ number := some number, tag := some tag }, defined.next)
  | .anchor name :: _ =>
      let (number, defined) := reader.define name
      some ({ number := some number }, defined)
  | .tag written :: .anchor name :: _ => do
      let tag ← reader.resolve written
      let (number, defined) := reader.next.define name
      some ({ number := some number, tag := some tag }, defined)
  | .tag written :: _ => do
      let tag ← reader.resolve written
      some ({ tag := some tag }, reader.next)
  | _ => some ({}, reader)

/-- Notes a node that has been read between two readers, before the anchored
nodes in it. -/
def note (started final : Reader) (properties : Properties) (node : Node) : Reader :=
  let own := properties.number.toList.map fun number => (number, node)
  { final with anchored := final.anchored ++ own ++ started.anchored }

end Reader

abbrev Reading (Result : Type) := Nat → Reader → Option (Result × Reader)

inductive Position where
  | flow
  | block
  /-- In a block mapping, where a sequence needs no further indentation. -/
  | mappingValue
  deriving DecidableEq

def orEmpty (readNode : Position → Reading Node) (position : Position) (ends : List Token) :
    Reading Node :=
  fun bound reader =>
    if reader.isAt ends then some (empty, reader) else readNode position bound reader

def blockItems (readNode : Position → Reading Node) : Reading (List Node)
  | 0, _ => none
  | bound + 1, reader =>
      match reader.tokens with
      | .blockEntry :: _ => do
          let (item, read) ← orEmpty readNode .block [.blockEntry, .blockEnd] bound reader.next
          let (items, final) ← blockItems readNode bound read
          some (item :: items, final)
      | .blockEnd :: _ => some ([], reader.next)
      | _ => none

def indentlessItems (readNode : Position → Reading Node) : Reading (List Node)
  | 0, _ => none
  | bound + 1, reader =>
      match reader.tokens with
      | .blockEntry :: _ => do
          let (item, read) ←
            orEmpty readNode .block [.blockEntry, .key, .value, .blockEnd] bound reader.next
          let (items, final) ← indentlessItems readNode bound read
          some (item :: items, final)
      | _ => some ([], reader)

def valueAfterKey (readNode : Position → Reading Node) (position : Position)
    (ends : List Token) : Reading Node :=
  fun bound reader =>
    if reader.isAt [.value] then orEmpty readNode position ends bound reader.next
    else some (empty, reader)

def blockEntries (readNode : Position → Reading Node) : Reading (List (Node × Node))
  | 0, _ => none
  | bound + 1, reader =>
      match reader.tokens with
      | .key :: _ => do
          let ends := [.key, .value, .blockEnd]
          let (key, keyRead) ← orEmpty readNode .mappingValue ends bound reader.next
          let (value, valueRead) ← valueAfterKey readNode .mappingValue ends bound keyRead
          let (entries, final) ← blockEntries readNode bound valueRead
          some ((key, value) :: entries, final)
      | .blockEnd :: _ => some ([], reader.next)
      | _ => none

def pastComma (first : Bool) (reader : Reader) : Option Reader :=
  if first then some reader else if reader.isAt [.flowEntry] then some reader.next else none

/-- Reads the key of a mapping that is an entry of a flow sequence.  An empty
key takes the token after it with it. -/
def keyOfEntry (readNode : Position → Reading Node) (ends : List Token) : Reading Node :=
  fun bound reader =>
    if reader.isAt ends then some (empty, reader.next) else readNode .flow bound reader

/-- Reads the entries of a flow sequence up to its end.  A key makes an entry a
mapping of its own. -/
def flowItems (readNode : Position → Reading Node) (first : Bool) : Reading (List Node)
  | 0, _ => none
  | bound + 1, reader =>
      if reader.isAt [.flowSequenceEnd] then some ([], reader.next)
      else do
        let entry ← pastComma first reader
        if entry.isAt [.key] then do
          let ends := [.flowEntry, .flowSequenceEnd]
          let (key, keyRead) ← keyOfEntry readNode (.value :: ends) bound entry.next
          let (value, valueRead) ← valueAfterKey readNode .flow ends bound keyRead
          let (items, final) ← flowItems readNode false bound valueRead
          some (mapping none [(key, value)] :: items, final)
        else if entry.isAt [.flowSequenceEnd] then some ([], entry.next)
        else do
          let (item, read) ← readNode .flow bound entry
          let (items, final) ← flowItems readNode false bound read
          some (item :: items, final)

/-- Reads the entries of a flow mapping up to its end.  An entry without a
colon has an empty value. -/
def flowEntries (readNode : Position → Reading Node) (first : Bool) :
    Reading (List (Node × Node))
  | 0, _ => none
  | bound + 1, reader =>
      if reader.isAt [.flowMappingEnd] then some ([], reader.next)
      else do
        let entry ← pastComma first reader
        if entry.isAt [.key] then do
          let ends := [.flowEntry, .flowMappingEnd]
          let (key, keyRead) ← orEmpty readNode .flow (.value :: ends) bound entry.next
          let (value, valueRead) ← valueAfterKey readNode .flow ends bound keyRead
          let (entries, final) ← flowEntries readNode false bound valueRead
          some ((key, value) :: entries, final)
        else if entry.isAt [.flowMappingEnd] then some ([], entry.next)
        else do
          let (key, read) ← readNode .flow bound entry
          let (entries, final) ← flowEntries readNode false bound read
          some ((key, empty) :: entries, final)

def read (position : Position) : Reading Node
  | 0, _ => none
  | bound + 1, reader =>
      match reader.tokens with
      | .alias name :: _ =>
          (reader.names.lookup name).map fun number => (.alias number, reader.next)
      | _ => do
          let (properties, started) ← reader.readProperties
          let inside := { started with anchored := [] }
          let sequenceOf (items : Option (List Node × Reader)) : Option (Node × Reader) :=
            items.map fun (found, final) => (sequence properties.tag found, final)
          let mappingOf (entries : Option (List (Node × Node) × Reader)) :
              Option (Node × Reader) :=
            entries.map fun (found, final) => (mapping properties.tag found, final)
          let readAt (inner : Position) : Reading Node := fun _ => read inner bound
          let bare :=
            if properties.isPresent then some (scalar properties.tag .plain [], inside) else none
          let (node, final) ←
            match started.tokens with
            | .scalar style text :: _ =>
                some (scalar properties.tag style text, inside.next)
            | .flowSequenceStart :: _ => sequenceOf (flowItems readAt true bound inside.next)
            | .flowMappingStart :: _ => mappingOf (flowEntries readAt true bound inside.next)
            | .blockEntry :: _ =>
                if position = .mappingValue then sequenceOf (indentlessItems readAt bound inside)
                else bare
            | .blockSequenceStart :: _ =>
                if position = .flow then bare
                else sequenceOf (blockItems readAt bound inside.next)
            | .blockMappingStart :: _ =>
                if position = .flow then bare
                else mappingOf (blockEntries readAt bound inside.next)
            | _ => bare
          some (node, started.note final properties node)

def standardHandles : List (Text × Tag) :=
  [(['!'], Text.encode ['!']), (['!', '!'], Text.encode "tag:yaml.org,2002:".toList)]

def directives (handles : List (Text × Tag)) (versioned : Bool) :
    List Token → Option (List (Text × Tag) × List Token)
  | .versionDirective :: rest => if versioned then none else directives handles true rest
  | .tagDirective handle meaning :: rest =>
      if (handles.lookup handle).isSome then none
      else directives ((handle, meaning) :: handles) versioned rest
  | rest => some (handles, rest)

end Node

/-- Reads the only document of a text that has one, as `some none` if the text
holds no document at all. -/
def Document.parse? (text : Text) : Option (Option Document) := do
  let tokens ← tokens? text
  if tokens.isEmpty then some none
  else do
    let (handles, rest) ← Node.directives [] false tokens
    let hasDirectives := rest.length != tokens.length
    let content ← match rest with
      | .documentStart :: following => some following
      | following => if hasDirectives then none else some following
    let reader : Node.Reader :=
      { tokens := content, handles := handles ++ Node.standardHandles, names := [], anchored := [] }
    let explicit := content.length != tokens.length
    let (root, final) ←
      if explicit && (content.isEmpty || reader.isAt [.documentStart, .documentEnd]) then
        some (Node.empty, reader)
      else Node.read .block (content.length + 1) reader
    if (final.tokens.dropWhile (· = .documentEnd)).isEmpty then
      some (some { root, anchored := final.anchored })
    else none

end ChangeCoverage.Yaml
