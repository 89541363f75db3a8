import ChangeCoverage.Text.Blank

/-!
Lines of a text.  A newline ends a line, a carriage return just before it
belongs to the line end, and no line starts after the last newline.
-/

namespace ChangeCoverage.Text

/-- The lines of what follows, where `line` holds the characters already read
of the current line, the last one first. -/
def linesFrom (line : Text) : Text → List Text
  | [] => if line.isEmpty then [] else [line.reverse]
  | character :: rest =>
      if character = '\n' then
        (if line.head? = some '\r' then line.tail else line).reverse :: linesFrom [] rest
      else linesFrom (character :: line) rest

def lines (text : Text) : List Text :=
  linesFrom [] text

def dropReturn (line : Text) : Text :=
  if line.getLast? = some '\r' then line.dropLast else line

/-- The lines of a text, each also freed of one carriage return left at its end. -/
def cleanLines (text : Text) : List Text :=
  (lines text).map dropReturn

def lineNumbers (count : Nat) : List Nat :=
  List.range' 1 count

def joinLines (textLines : List Text) : Text :=
  List.intercalate ['\n'] textLines

end ChangeCoverage.Text
