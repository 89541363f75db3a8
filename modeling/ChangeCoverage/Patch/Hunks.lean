import ChangeCoverage.Patch.Header
import ChangeCoverage.Text.Lines

/-!
Reading the hunks of a patch.  A header sets the line counters of both files
and the lines under it advance them, which only 64-bit numbers allow.  Under a
header that cannot be read, and before the first header, lines are skipped.
-/

namespace ChangeCoverage.Patch

structure Cursor where
  /-- The number of the next line of the old file. -/
  oldNumber : Nat
  /-- The number of the next line of the new file. -/
  newNumber : Nat
  /-- The lines of the old file that the header still announces. -/
  oldLeft : Nat
  /-- The lines of the new file that the header still announces. -/
  newLeft : Nat
  deriving DecidableEq, Repr

namespace Cursor

def ofHeader (header : Header) : Cursor :=
  { oldNumber := header.oldStart, newNumber := header.newStart,
    oldLeft := header.oldLength, newLeft := header.newLength }

def passOld? (cursor : Cursor) : Option Cursor :=
  (nextNumber? cursor.oldNumber).map fun next =>
    { cursor with oldNumber := next, oldLeft := cursor.oldLeft - 1 }

def passNew? (cursor : Cursor) : Option Cursor :=
  (nextNumber? cursor.newNumber).map fun next =>
    { cursor with newNumber := next, newLeft := cursor.newLeft - 1 }

def passBoth? (cursor : Cursor) : Option Cursor :=
  cursor.passOld?.bind passNew?

def expectsContext (cursor : Cursor) : Bool :=
  0 < cursor.oldLeft && 0 < cursor.newLeft

def contextLine (cursor : Cursor) (content : Text) : Line :=
  .context cursor.oldNumber cursor.newNumber content

/-- Reads a line under a header: the counters after it, and the line of the
diff it is.  An empty line stands for an empty context line while one is
announced.  Any other line without a marker belongs to neither file. -/
def read? (cursor : Cursor) : Text → Option (Cursor × Option Line)
  | '+' :: content => cursor.passNew?.map (·, some (.added cursor.newNumber content))
  | '-' :: content => cursor.passOld?.map (·, some (.deleted cursor.oldNumber content))
  | ' ' :: content => cursor.passBoth?.map (·, some (cursor.contextLine content))
  | [] =>
      if cursor.expectsContext then cursor.passBoth?.map (·, some (cursor.contextLine []))
      else some (cursor, none)
  | _ => some (cursor, none)

end Cursor

/-- Reads one line of a patch, outside a hunk when there is no cursor. -/
def readLine? (cursor : Option Cursor) (line : Text) : Option (Option Cursor × Option Line) :=
  if Header.marker.isPrefixOf line then
    match Header.parse? line with
    | some header => some (some (.ofHeader header), some (.hunk line))
    | none => some (none, none)
  else
    match cursor with
    | none => some (none, none)
    | some counters =>
        (counters.read? line).map fun read => (some read.1, read.2)

def readLines? (cursor : Option Cursor) : List Text → Option (List Line)
  | [] => some []
  | line :: rest =>
      (readLine? cursor line).bind fun read =>
        (readLines? read.1 rest).map (read.2.toList ++ ·)

/-- Reads a patch, unless a line number takes more than 64 bits. -/
def parse? (patch : Text) : Option (List Line) :=
  readLines? none (Text.cleanLines patch)

def insertNumber (number : Nat) : List Nat → List Nat
  | [] => [number]
  | head :: rest =>
      if number < head then number :: head :: rest
      else if number = head then head :: rest
      else head :: insertNumber number rest

def changedLines (diff : List Line) : List Nat :=
  ((diff.filter (·.kind = .added)).filterMap (·.newNumber)).foldr insertNumber []

end ChangeCoverage.Patch
