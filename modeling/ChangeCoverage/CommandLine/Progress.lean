import ChangeCoverage.CommandLine.Grammar

/-!
Reading arguments one by one.  The value of an option is checked when the next
option or operand turns up, or at the end, so that the first fault met is the
one reported.
-/

namespace ChangeCoverage.CommandLine

structure Progress where
  directory : Option Text := none
  /-- The count of the verbosity flags, if there are any. -/
  verbosity : Option Nat := none
  format : Option OutputFormat := none
  width : Option Nat := none
  operands : List Text := []
  /-- A setting whose value has not been checked, or not even been read. -/
  pending : Option (Setting × Option Text) := none
  deriving DecidableEq, Repr

def width? (text : Text) : Option Nat :=
  match text with
  | '-' :: digits =>
      if digits.head? = some '+' then none else (Text.number? Text.limit32 digits).filter (· = 0)
  | _ => Text.number? Text.limit32 text

def greatestVerbosity : Nat := 255

namespace Progress

def awaitsValue (progress : Progress) : Bool :=
  progress.pending.any (·.2.isNone)

def assign (progress : Progress) (setting : Setting) (value : Text) :
    Except Refusal Progress :=
  match setting with
  | .directory =>
      if progress.directory.isSome then .error .repeatedOption
      else if value.isEmpty then .error .invalidValue
      else .ok { progress with directory := some value }
  | .format =>
      if progress.format.isSome then .error .repeatedOption
      else if value = "text".toList then .ok { progress with format := some .text }
      else if value = "json".toList then .ok { progress with format := some .json }
      else .error .invalidValue
  | .width =>
      if progress.width.isSome then .error .repeatedOption
      else
        match width? value with
        | some width => .ok { progress with width := some width }
        | none => .error .unreadableValue

def settle (progress : Progress) : Except Refusal Progress :=
  match progress.pending with
  | none => .ok progress
  | some (_, none) => .error .invalidValue
  | some (setting, some value) => { progress with pending := none }.assign setting value

def raise (progress : Progress) (flag : Flag) : Except Refusal Progress := do
  let progress ← progress.settle
  match flag with
  | .help => .error .help
  | .version => .error .version
  | .verbose =>
      .ok { progress with
        verbosity := some (min greatestVerbosity (progress.verbosity.getD 0 + 1)) }

def begin (progress : Progress) (setting : Setting) (attached : Option Text) :
    Except Refusal Progress := do
  let progress ← progress.settle
  match attached with
  | some value => progress.assign setting value
  | none => .ok { progress with pending := some (setting, none) }

def readLong (progress : Progress) (level : Level) (long : Text) : Except Refusal Progress :=
  let (name, attached) : Text × Option Text := match Text.splitFirst? ['='] long with
    | some (name, value) => (name, some value)
    | none => (long, none)
  match Level.longSwitch? level name with
  | none => .error .unknownOption
  | some (.setting setting) => progress.begin setting attached
  | some (.flag flag) =>
      if attached.isSome then .error .unexpectedValue else progress.raise flag

/-- Reads the letters that follow one dash.  What follows the letter of a
setting is its value. -/
def readLetters (progress : Progress) : Text → Except Refusal Progress
  | [] => .ok progress
  | letter :: rest =>
      match letterSwitch? letter with
      | none => .error .unknownOption
      | some (.flag flag) => do
          let progress ← progress.raise flag
          progress.readLetters rest
      | some (.setting setting) =>
          progress.begin setting
            (if rest.isEmpty then none else some ((Text.after? ['='] rest).getD rest))

def addOperand (progress : Progress) (level : Level) (operand : Text) :
    Except Refusal Progress :=
  match level with
  | none => .error .unknownCommand
  | some name =>
      if name.takesMore progress.operands.length then do
        let progress ← progress.settle
        .ok { progress with operands := progress.operands ++ [operand] }
      else .error .unknownOption

def read (progress : Progress) (level : Level) (argument : Text) : Except Refusal Progress :=
  match argument with
  | '-' :: '-' :: long => progress.readLong level long
  | '-' :: letter :: letters => progress.readLetters (letter :: letters)
  | _ =>
      match progress.pending with
      | some (setting, none) => .ok { progress with pending := some (setting, some argument) }
      | _ => progress.addOperand level argument

end Progress

end ChangeCoverage.CommandLine
