import ChangeCoverage.Alignment.Row
import ChangeCoverage.Patch.Hunks

/-!
Alignment of two whole files along their diff.  What the diff leaves out is
filled in from the files, and the lines of a change are paired one by one.
Numbers of the diff that lie behind the reached position or past the end of a
file are passed over.  No number takes more than 64 bits.
-/

namespace ChangeCoverage.Alignment

open Patch (Header nextNumber?)

structure Files where
  old : List Text
  new : List Text

structure Position where
  old : Nat
  new : Nat
  deriving DecidableEq, Repr

def Position.start : Position :=
  { old := 1, new := 1 }

/-- A unit of a diff: a header, a context line, or a change, that is a run of
deleted lines and the run of added lines after it. -/
inductive Block where
  | hunk (header : Text)
  | context (line : Patch.Line)
  | change (deleted added : List Patch.Line)
  deriving Repr

def blocks : List Patch.Line → List Block
  | [] => []
  | line :: rest =>
      match line.kind, blocks rest with
      | .hunk, later => .hunk line.content :: later
      | .context, later => .context line :: later
      | .deleted, .change deleted added :: later => .change (line :: deleted) added :: later
      | .deleted, later => .change [line] [] :: later
      | .added, .change [] added :: later => .change [] (line :: added) :: later
      | .added, later => .change [] [line] :: later

/-- Goes over lines from a number on, one by one: the number behind the last one, and
the lines with theirs. -/
def step? (next : Nat) : List Text → Option (Nat × List (Text × Nat))
  | [] => some (next, [])
  | content :: rest =>
      (nextNumber? next).bind fun following =>
        (step? following rest).map fun later => (later.1, (content, next) :: later.2)

/-- Goes over the lines before a target, which are none behind the end of the file. -/
def walk? (fileLines : List Text) (next target : Nat) : Option (Nat × List (Text × Nat)) :=
  (nextNumber? fileLines.length).bind fun behind =>
    step? next ((fileLines.drop (next - 1)).take (min target behind - next))

def contextSides (numbered : List (Text × Nat)) : List (Option Side) :=
  numbered.map fun line => some (.ofLine .context line.2 line.1)

def fill? (files : Files) (position target : Position) : Option (Position × List Row) :=
  (walk? files.old position.old target.old).bind fun old =>
    (walk? files.new position.new target.new).map fun new =>
      ({ old := old.1, new := new.1 }, zipSides (contextSides old.2) (contextSides new.2))

def isAhead (fileLines : List Text) (next number : Nat) : Bool :=
  next ≤ number && number ≤ fileLines.length

/-- The sides of changed lines, missing where the number is not ahead, and the
next line after them. -/
def changeSides? (fileLines : List Text) (kind : SideKind) (next : Nat) :
    List (Option Nat × Text) → Option (Nat × List (Option Side))
  | [] => some (next, [])
  | (some number, content) :: rest =>
      if isAhead fileLines next number then
        (nextNumber? number).bind fun following =>
          (changeSides? fileLines kind following rest).map fun later =>
            (later.1, some (.ofLine kind number content) :: later.2)
      else (changeSides? fileLines kind next rest).map fun later => (later.1, none :: later.2)
  | (none, _) :: rest =>
      (changeSides? fileLines kind next rest).map fun later => (later.1, none :: later.2)

/-- The line before which a hunk's range starts; a range without lines names
the line before it. -/
def rangeTarget? (start length : Nat) : Option Nat :=
  if length = 0 then nextNumber? start else some start

def alignBlock? (files : Files) (position : Position) :
    Block → Option (Position × List Row)
  | .hunk line =>
      match Header.parse? line with
      | none => some (position, [])
      | some header =>
          (rangeTarget? header.oldStart header.oldLength).bind fun old =>
            (rangeTarget? header.newStart header.newLength).bind fun new =>
              fill? files position { old, new }
  | .context line =>
      match line.oldNumber, line.newNumber with
      | some old, some new =>
          if isAhead files.old position.old old && isAhead files.new position.new new then
            (fill? files position { old, new }).bind fun filled =>
              let row : Row :=
                { left := .ofLine .context old line.content,
                  right := .ofLine .context new line.content }
              (nextNumber? old).bind fun oldNext =>
                (nextNumber? new).map fun newNext =>
                  ({ old := oldNext, new := newNext }, filled.2 ++ [row])
          else some (position, [])
      | _, _ => some (position, [])
  | .change deleted added =>
      let target : Position :=
        { old := (deleted.head?.bind (·.oldNumber)).getD position.old,
          new := (added.head?.bind (·.newNumber)).getD position.new }
      (fill? files position target).bind fun filled =>
        (changeSides? files.old .deleted filled.1.old
            (deleted.map fun line => (line.oldNumber, line.content))).bind fun lefts =>
          (changeSides? files.new .added filled.1.new
              (added.map fun line => (line.newNumber, line.content))).map fun rights =>
            ({ old := lefts.1, new := rights.1 }, filled.2 ++ zipSides lefts.2 rights.2)

/-- The rows from a position on: those of the blocks, then the rest of the files. -/
def alignBlocks? (files : Files) (position : Position) : List Block → Option (List Row)
  | [] =>
      (nextNumber? files.old.length).bind fun old =>
        (nextNumber? files.new.length).bind fun new =>
          (fill? files position { old, new }).map (·.2)
  | block :: rest =>
      (alignBlock? files position block).bind fun aligned =>
        (alignBlocks? files aligned.1 rest).map (aligned.2 ++ ·)

/-- Aligns files along a diff, unless a line number takes more than 64 bits. -/
def align? (files : Files) (diff : List Patch.Line) : Option (List Row) :=
  alignBlocks? files .start (blocks diff)

end ChangeCoverage.Alignment
