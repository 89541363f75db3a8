import ChangeCoverage.CommandLine.Progress

/-!
Whole command lines: options, a command, its options and operands.  After two
dashes everything is an operand.
-/

namespace ChangeCoverage.CommandLine

def readOperands (name : CommandName) (progress : Progress) :
    List Text → Except Refusal Progress
  | [] => progress.settle
  | argument :: rest =>
      if argument = ['-', '-'] then do
        let progress ← rest.foldlM (·.addOperand (some name) ·) progress
        progress.settle
      else do
        let progress ← progress.read (some name) argument
        readOperands name progress rest

def commandOf (name : CommandName) (progress : Progress) : Except Refusal Command :=
  match name, progress.operands with
  | .listing, [old, new] => .ok (.listing { old, new })
  | .view, [old, new, path] => .ok (.view { old, new } path progress.format progress.width)
  | .cases, old :: new :: paths => .ok (.cases { old, new } paths progress.format)
  | _, _ => .error .missingOperand

/-- Reads a command and everything after it.  What is said after the command
counts more than what was said before it. -/
def readCommand (name : CommandName) (before : Progress) (rest : List Text) :
    Except Refusal Request := do
  let after ← readOperands name {} rest
  let command ← commandOf name after
  let before ← before.settle
  return {
    directory := after.directory.or before.directory
    verbosity := (after.verbosity.or before.verbosity).getD 0
    command }

/-- What a request for help leads to.  At most one command can be named. -/
def readHelp : List Text → Refusal
  | [] => .help
  | [topic] =>
      if topic = helpWord || (CommandName.ofText? topic).isSome then .help else .unknownCommand
  | _ => .unknownCommand

def refuseEarlyDashes (progress : Progress) : List Text → Except Refusal Request
  | [] => do
      let progress ← progress.settle
      .error (if progress = {} then .nothingAsked else .missingCommand)
  | argument :: _ =>
      .error (if argument = helpWord || (CommandName.ofText? argument).isSome then .unknownOption
        else .unknownCommand)

/-- Reads arguments up to the end, where the command has not been read yet. -/
def readFrom (progress : Progress) : List Text → Except Refusal Request
  | [] => refuseEarlyDashes progress []
  | argument :: rest =>
      if !progress.awaitsValue && argument = helpWord then .error (readHelp rest)
      else
        match if progress.awaitsValue then none else CommandName.ofText? argument with
        | some name => readCommand name progress rest
        | none =>
            if argument = ['-', '-'] then refuseEarlyDashes progress rest
            else do
              let progress ← progress.read none argument
              readFrom progress rest

def read (arguments : List Text) : Except Refusal Request :=
  readFrom {} arguments

end ChangeCoverage.CommandLine
