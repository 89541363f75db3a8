import ChangeCoverage.Branch.Header
import ChangeCoverage.Source.Scope

/-!
Branches that a change touches.  Headers count only in scopes that hold a
changed line, braces count everywhere.  A branch is accepted when its header is
on a changed line, or when it ends and a line from its header to its end has
changed.
-/

namespace ChangeCoverage

structure Branch where
  scope : Source.ScopeEntry
  kind : Branch.Kind
  /-- The header's text, such as `if (x > 0)` or `case 1:`. -/
  condition : Text
  /-- The line of the header, counted from one. -/
  startLine : Nat
  depth : Nat
  deriving DecidableEq, Repr

namespace Branch

/-- Whether a closing brace that leaves a depth ends the branch.  A block is
one deeper than its header, and a label lies inside its block. -/
def endsAt (branch : Branch) (depth : Nat) : Bool :=
  if branch.kind.isLabel then depth < branch.depth else depth ≤ branch.depth

structure Open where
  branch : Branch
  accepted : Bool
  inline : Bool
  deriving DecidableEq, Repr

structure Progress where
  depth : Nat := 0
  stack : List Open := []
  accepted : List Branch := []
  deriving DecidableEq, Repr

inductive Event where
  | brace (brace : Source.Brace)
  | header (header : Header)
  deriving DecidableEq, Repr

def eventsFrom (offset : Nat) (masked : Text) : List Header → List Event
  | [] => (Source.braces masked).map .brace
  | header :: later =>
      let (before, rest) := (Text.splitAt? (header.column - offset) masked).getD (masked, [])
      (Source.braces before).map .brace ++ .header header :: eventsFrom header.column rest later

def touches (changed : List Nat) (first last : Nat) : Bool :=
  changed.any fun line => first ≤ line && line ≤ last

namespace Progress

/-- Ends branches at a line: those not yet accepted are accepted now if they
have been touched. -/
def close (changed : List Nat) (lastLine : Nat) (progress : Progress) (ended : Open) :
    Progress :=
  if !ended.accepted && touches changed ended.branch.startLine lastLine then
    { progress with accepted := progress.accepted ++ [ended.branch] }
  else progress

def closeWhile (changed : List Nat) (lastLine : Nat) (ends : Branch → Bool)
    (progress : Progress) : Progress :=
  let ended := progress.stack.takeWhile fun candidate => ends candidate.branch
  let remaining := progress.stack.dropWhile fun candidate => ends candidate.branch
  ended.foldl (close changed lastLine) { progress with stack := remaining }

def passBrace (changed : List Nat) (line : Nat) (progress : Progress) :
    Source.Brace → Progress
  | .opening => { progress with depth := progress.depth + 1 }
  | .closing =>
      let depth := progress.depth - 1
      closeWhile changed line (·.endsAt depth) { progress with depth }

/-- Opens the branch of a header.  A label first ends the branches inside the
block it belongs to. -/
def openBranch (changed : List Nat) (scope : Source.ScopeEntry) (masked : Text) (line : Nat)
    (progress : Progress) (header : Header) : Progress :=
  let before :=
    if header.kind.isLabel then
      closeWhile changed (line - 1) (fun branch => progress.depth ≤ branch.depth) progress
    else progress
  let branch : Branch :=
    { scope, kind := header.kind, condition := header.condition, startLine := line,
      depth := before.depth }
  let accepted := changed.contains line
  { before with
    stack := { branch, accepted, inline := header.isInline masked } :: before.stack
    accepted := if accepted then before.accepted ++ [branch] else before.accepted }

def pass (changed : List Nat) (scope : Source.ScopeEntry) (masked : Text) (line : Nat)
    (progress : Progress) : Event → Progress
  | .brace brace => progress.passBrace changed line brace
  | .header header => progress.openBranch changed scope masked line header

def closeInline (changed : List Nat) (line : Nat) (progress : Progress) : Progress :=
  (progress.stack.reverse.filter (·.inline)).foldl (close changed line)
    { progress with stack := progress.stack.filter (!·.inline) }

def passLine (changed : List Nat) (hot : Bool) (scope : Source.ScopeEntry)
    (masked raw : Text) (line : Nat) (progress : Progress) : Progress :=
  if hot then
    closeInline changed line
      ((eventsFrom 0 masked (headers masked raw)).foldl (pass changed scope masked line) progress)
  else (Source.braces masked).foldl (passBrace changed line) progress

/-- Takes the lines from a number on into account, each with what it belongs to. -/
def passLines (changed : List Nat) (hotScopes : List Source.ScopeEntry) (line : Nat)
    (lexState : Source.LexState) (progress : Progress) :
    List Text → List Source.ScopeEntry → Progress
  | [], _ => progress
  | raw :: rest, scopes =>
      let (masked, reached) := Source.maskLine raw lexState
      let scope := scopes.head?.getD {}
      let next := progress.passLine changed (hotScopes.contains scope) scope masked raw line
      passLines changed hotScopes (line + 1) reached.atLineEnd next rest scopes.tail

def finish (changed : List Nat) (lastLine : Nat) (progress : Progress) : List Branch :=
  (closeWhile changed lastLine (fun _ => true) progress).accepted

end Progress

def hotScopes (scopes : List Source.ScopeEntry) (changed : List Nat) :
    List Source.ScopeEntry :=
  (changed.filterMap fun line => if line = 0 then none else scopes[line - 1]?).eraseDups

/-- The branches touched by the changed lines, given what each line belongs to. -/
def extract (fileLines : List Text) (scopes : List Source.ScopeEntry) (changed : List Nat) :
    List Branch :=
  if changed.isEmpty then []
  else
    (Progress.passLines changed (hotScopes scopes changed) 1 .code {} fileLines scopes).finish
      changed fileLines.length

end Branch

end ChangeCoverage
