import ChangeCoverage.Glob.Expression
import ChangeCoverage.Text.Search

/-!
Globs: `?` stands for any byte, `*` for any bytes, `**` between slashes for any
directories, `[…]` for one of some characters and `{…,…}` for alternatives.
-/

namespace ChangeCoverage

inductive Glob.Part where
  | character (value : Char)
  | star
  /-- Directories at the start: none, or any that end in a slash. -/
  | leadingDirectories
  | below
  /-- A slash, or any directories between slashes. -/
  | innerDirectories
  | other (expression : Glob.Expression)
  deriving DecidableEq, Repr

structure Glob where
  parts : List Glob.Part
  deriving DecidableEq, Repr

namespace Glob

namespace Part

open Expression (ofText)

def expression : Part → Expression
  | character value => ofText [value]
  | star => .anyBytes
  | leadingDirectories =>
      .group (.either (.optional (ofText ['/'])) (.sequence .anyBytes (ofText ['/'])))
  | below => .sequence (ofText ['/']) .anyBytes
  | innerDirectories =>
      .group (.either (ofText ['/'])
        (.sequence (ofText ['/']) (.sequence .anyBytes (ofText ['/']))))
  | other given => given

/-- The expression of parts one after the other; empty alternatives leave no trace. -/
def expressionOf (parts : List Part) : Expression :=
  .ofList ((parts.map expression).filter (· ≠ .nothing))

/-- The expression of alternatives, of which the empty ones are left out. -/
def expressionOfAlternatives (alternatives : List (List Part)) : Expression :=
  match (alternatives.map expressionOf).filter (· ≠ .nothing) with
  | [] => .nothing
  | first :: rest => .group (rest.foldl .either first)

def text? (parts : List Part) : Option Text :=
  parts.mapM fun part =>
    match part with
    | character value => some value
    | _ => none

end Part

def expression (glob : Glob) : Expression :=
  if glob.parts = [.leadingDirectories] then .anyBytes else Part.expressionOf glob.parts

inductive Comparison where
  | path
  /-- A name of a file, or an extension of one. -/
  | fileName
  /-- An expression, for files with one extension. -/
  | extension
  | expression
  deriving DecidableEq, Repr

def afterDirectories (glob : Glob) : List Part :=
  if glob.parts.head? = some .leadingDirectories then glob.parts.tail else glob.parts

def isName (glob : Glob) : Bool :=
  glob.parts.head? = some .leadingDirectories &&
    (Part.text? glob.parts.tail).any fun name => !name.isEmpty && name.all (· != '/')

def isExtension (glob : Glob) : Bool :=
  match glob.afterDirectories with
  | .star :: .character '.' :: rest =>
      (Part.text? rest).any fun name =>
        name.all fun character => character != '.' && character != '/'
  | _ => false

def isText (glob : Glob) : Bool :=
  (Part.text? glob.parts).any (!·.isEmpty)

def isStart (glob : Glob) : Bool :=
  match glob.parts.getLast?, Part.text? glob.parts.dropLast with
  | some .star, some text => !text.isEmpty
  | some .below, some _ => true
  | _, _ => false

/-- Whether a glob is a text other than a slash and anything before it. -/
def isEnd (glob : Glob) : Bool :=
  match glob.afterDirectories with
  | .star :: rest => (Part.text? rest).any fun text => !text.isEmpty && text != ['/']
  | rest => glob.parts != rest && (Part.text? rest).any (!·.isEmpty)

def endsInExtension (glob : Glob) : Bool :=
  let beforeName := glob.parts.reverse.dropWhile fun part =>
    match part with
    | .character value => value != '.' && value != '/'
    | _ => false
  beforeName.head? = some (.character '.')

def comparison (glob : Glob) : Comparison :=
  if glob.isName then .fileName
  else if glob.isText then .path
  else if glob.isExtension then .fileName
  else if glob.isStart || glob.isEnd then .path
  else if glob.endsInExtension then .extension
  else .expression

def isUnnamed (path : Text) : Bool :=
  (path.splitOn '/').getLast? = some ['.', '.']

/-- Whether a path is accepted.  What names no file has no extension either. -/
def accepts (glob : Glob) (path : Text) : Bool :=
  let named := glob.comparison = .fileName || glob.comparison = .extension
  glob.expression.accepts (Text.encode path) && !(named && isUnnamed path)

end Glob

end ChangeCoverage
