import ChangeCoverage.Command.Request

/-!
The grammar of command lines: the options, the commands with their operands,
and the ways in which a command line can be refused.
-/

namespace ChangeCoverage.CommandLine

inductive Refusal where
  | missingOperand
  | missingCommand
  | unknownCommand
  | unknownOption
  /-- A value is missing, or not among those that are possible. -/
  | invalidValue
  | unreadableValue
  /-- A value was given to an option that takes none. -/
  | unexpectedValue
  | repeatedOption
  /-- Nothing was asked for, so that help is in order. -/
  | nothingAsked
  | help
  | version
  deriving DecidableEq, Repr

namespace Refusal

def exitCode : Refusal → Nat
  | help => 0
  | version => 0
  | _ => 2

end Refusal

inductive Setting where
  | directory
  | format
  | width
  deriving DecidableEq, Repr

inductive Flag where
  | verbose
  | help
  | version
  deriving DecidableEq, Repr

inductive Switch where
  | setting (setting : Setting)
  | flag (flag : Flag)
  deriving DecidableEq, Repr

inductive CommandName where
  | listing
  | view
  | cases
  deriving DecidableEq, Repr

namespace CommandName

def ofText? (name : Text) : Option CommandName :=
  if name = "files".toList then some .listing
  else if name = "side-by-side".toList then some .view
  else if name = "cases".toList then some .cases
  else none

def neededOperands : CommandName → Nat
  | listing => 2
  | view => 3
  | cases => 2

def takesMore (name : CommandName) (count : Nat) : Bool :=
  match name with
  | cases => true
  | _ => count < name.neededOperands

def allows (name : CommandName) : Setting → Bool
  | .directory => true
  | .format => name ≠ .listing
  | .width => name = .view

end CommandName

def helpWord : Text := "help".toList

abbrev Level := Option CommandName

namespace Level

def allows (level : Level) (setting : Setting) : Bool :=
  match level with
  | none => setting = .directory
  | some name => name.allows setting

def longSwitch? (level : Level) (name : Text) : Option Switch :=
  if name = "repo".toList then some (.setting .directory)
  else if name = "verbose".toList then some (.flag .verbose)
  else if name = "help".toList then some (.flag .help)
  else if name = "version".toList then some (.flag .version)
  else if name = "format".toList && allows level .format then some (.setting .format)
  else if name = "width".toList && allows level .width then some (.setting .width)
  else none

end Level

def letterSwitch? (letter : Char) : Option Switch :=
  if letter = 'C' then some (.setting .directory)
  else if letter = 'v' then some (.flag .verbose)
  else if letter = 'h' then some (.flag .help)
  else if letter = 'V' then some (.flag .version)
  else none

end ChangeCoverage.CommandLine
