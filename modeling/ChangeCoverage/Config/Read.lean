import ChangeCoverage.Config.Basic
import ChangeCoverage.Yaml.Node

/-!
Reading a configuration from YAML.  Settings may be missing and unknown ones
are ignored, but no known setting may be given twice.
-/

namespace ChangeCoverage.Config

open Yaml (Document Node Tag)

def standardTag (name : String) : Tag :=
  Text.encode ("tag:yaml.org,2002:".toList ++ name.toList)

/-- The text of a scalar that can stand for a value of a standard type. -/
def typedText? (typeName : String) : Node → Option Text
  | .scalar tag style text =>
      if style = .plain || (style = .literal && tag = some (standardTag typeName)) then some text
      else none
  | _ => none

def digits? (base : Nat) (digits : Text) : Option Nat :=
  if digits.isEmpty then none
  else
    digits.foldlM (fun value digit => do
      let single ← Yaml.hexadecimal? [digit]
      if single < base then some (value * base + single) else none) 0

/-- Reads a number below a limit, in base ten, or in another base that its
first characters name.  A number in base ten has no leading zeros. -/
def number? (limit : Nat) (text : Text) : Option Nat :=
  let unsigned := (Text.after? ['+'] text).getD text
  let based (marker : String) (base : Nat) : Option Nat :=
    (Text.after? marker.toList unsigned).bind (digits? base)
  let decimal : Option Nat :=
    if 1 < unsigned.length && unsigned.head? = some '0' then none else digits? 10 unsigned
  (based "0x" 16 <|> based "0o" 8 <|> based "0b" 2 <|> decimal).filter (· < limit)

def settingNumber? (node : Node) : Option Nat :=
  (typedText? "int" node).bind (number? Text.limit32)

def truth? (node : Node) : Option Bool := do
  let text ← typedText? "bool" node
  if ["true", "True", "TRUE"].any (·.toList = text) then some true
  else if ["false", "False", "FALSE"].any (·.toList = text) then some false
  else none

def text? : Node → Option Text
  | .scalar _ _ text => some text
  | _ => none

def texts? (document : Document) : Node → Option (List Text)
  | .sequence _ items => items.mapM fun item => (document.follow item).bind text?
  | .scalar _ .plain [] => some []
  | _ => none

def format? (name : Text) : Option OutputFormat :=
  if name = "text".toList then some .text
  else if name = "json".toList then some .json
  else none

def isNull (node : Node) : Bool :=
  match node with
  | .scalar _ style text =>
      style = .plain &&
        (text.isEmpty || ["null", "Null", "NULL", "~"].any (·.toList = text))
  | _ => false

/-- The name in a tag of its own, which an exclamation mark announces. -/
def nameOfTag? (tag : Option Tag) : Option Text := do
  let written ← Text.decode? (← tag)
  Text.after? ['!'] written

def formatOf? (node : Node) : Option OutputFormat :=
  match node with
  | .scalar tag _ text =>
      match nameOfTag? tag with
      | some name => if isNull node then format? name else none
      | none => format? text
  | _ => none

def set? (document : Document) (config : Config) (name : Text) (value : Node) : Option Config :=
  if name = "context_lines".toList then
    (settingNumber? value).map fun contextLines => { config with contextLines }
  else if name = "detect_renames".toList then
    (truth? value).map fun detectRenames => { config with detectRenames }
  else if name = "include_globs".toList then
    (texts? document value).map fun includeGlobs => { config with includeGlobs }
  else if name = "exclude_globs".toList then
    (texts? document value).map fun excludeGlobs => { config with excludeGlobs }
  else if name = "output_format".toList then
    (formatOf? value).map fun outputFormat => { config with outputFormat }
  else if name = "column_width".toList then
    (settingNumber? value).map fun columnWidth => { config with columnWidth }
  else some config

def settingNames : List Text :=
  ["context_lines", "detect_renames", "include_globs", "exclude_globs", "output_format",
   "column_width"].map String.toList

/-- Takes the settings of a mapping over, apart from those `seen` before. -/
def setAll? (document : Document) (config : Config) (seen : List Text) :
    List (Node × Node) → Option Config
  | [] => some config
  | (key, value) :: rest => do
      let name ← text? (← document.follow key)
      if seen.contains name then none
      else if settingNames.contains name then do
        let changed ← config.set? document name (← document.follow value)
        setAll? document changed (name :: seen) rest
      else setAll? document config seen rest

/-- Reads the settings of a document, which are all missing where nothing is
written. -/
def ofDocument? (document : Document) : Option Config :=
  match document.root with
  | .mapping _ entries => setAll? document {} [] entries
  | .scalar _ .plain [] => some {}
  | _ => none

def parse (yaml : Text) : Except Failure Config :=
  if (Text.trim yaml).isEmpty then .ok {}
  else
    match (Document.parse? yaml).bind fun document => document.elim (some {}) ofDocument? with
    | some config => config.validate
    | none => .error (.configuration "failed to parse config YAML".toList)

end ChangeCoverage.Config
