import ChangeCoverage.Text.Number

/-!
JSON values and their indented form: two blanks a level, one member a line, and
empty lists closed at once.
-/

namespace ChangeCoverage.Output

inductive Json where
  | null
  | number (value : Nat)
  | text (value : Text)
  | list (items : List Json)
  | object (members : List (Text × Json))

namespace Json

def ofOption {α : Type} (value : α → Json) : Option α → Json
  | none => null
  | some present => value present

def escapeCode (code : Nat) : Text :=
  "\\u00".toList ++ [Nat.digitChar (code / 16), Nat.digitChar (code % 16)]

def escape (character : Char) : Text :=
  if character = '"' then ['\\', '"']
  else if character = '\\' then ['\\', '\\']
  else if character = '\n' then ['\\', 'n']
  else if character = '\r' then ['\\', 'r']
  else if character = '\t' then ['\\', 't']
  else if character.toNat = 8 then ['\\', 'b']
  else if character.toNat = 12 then ['\\', 'f']
  else if character.toNat < 32 then escapeCode character.toNat
  else [character]

def quote (text : Text) : Text :=
  '"' :: text.flatMap escape ++ ['"']

def newLine (level : Nat) : Text :=
  '\n' :: List.replicate (2 * level) ' '

/-- Some written parts between brackets, each on a line of the next level. -/
def enclose (left right : Char) (level : Nat) (parts : List Text) : Text :=
  if parts.isEmpty then [left, right]
  else
    left :: List.intercalate [','] (parts.map (newLine (level + 1) ++ ·)) ++
      newLine level ++ [right]

mutual

def render (level : Nat) : Json → Text
  | null => "null".toList
  | number value => Text.decimal value
  | text value => quote value
  | list items => enclose '[' ']' level (renderItems (level + 1) items)
  | object members => enclose '\x7b' '\x7d' level (renderMembers (level + 1) members)

def renderItems (level : Nat) : List Json → List Text
  | [] => []
  | item :: rest => render level item :: renderItems level rest

def renderMembers (level : Nat) : List (Text × Json) → List Text
  | [] => []
  | (name, value) :: rest =>
      (quote name ++ ": ".toList ++ render level value) :: renderMembers level rest

end

end Json

end ChangeCoverage.Output
