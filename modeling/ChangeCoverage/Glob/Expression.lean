import ChangeCoverage.Text.Encoding

/-!
Regular expressions over bytes: the sequences that they match, their written
form, and how deep they are nested.
-/

namespace ChangeCoverage.Glob

inductive Expression where
  | nothing
  | byte (value : UInt8)
  | anyByte
  /-- One byte in some ranges, or outside all of them. -/
  | byteIn (negated : Bool) (ranges : List (UInt8 × UInt8))
  | anyBytes
  | optional (inner : Expression)
  | sequence (first second : Expression)
  | either (first second : Expression)
  | group (inner : Expression)
  deriving DecidableEq, Repr

namespace Expression

def step (passes : UInt8 → Bool) (bytes : List UInt8) (marks : List Bool) : List Bool :=
  false :: List.zipWith (fun value mark => mark && passes value) bytes marks

def spread : List Bool → List Bool
  | [] => []
  | true :: rest => true :: rest.map fun _ => true
  | false :: rest => false :: spread rest

def union (first second : List Bool) : List Bool :=
  List.zipWith (· || ·) first second

/-- The places between bytes up to which the expression matches from some
marked place. -/
def advance (bytes : List UInt8) : Expression → List Bool → List Bool
  | nothing, marks => marks
  | byte value, marks => step (· == value) bytes marks
  | anyByte, marks => step (fun _ => true) bytes marks
  | byteIn negated ranges, marks =>
      step (fun value =>
        ranges.any (fun range => range.1 ≤ value && value ≤ range.2) != negated) bytes marks
  | anyBytes, marks => spread marks
  | optional inner, marks => union marks (inner.advance bytes marks)
  | sequence first second, marks => second.advance bytes (first.advance bytes marks)
  | either first second, marks => union (first.advance bytes marks) (second.advance bytes marks)
  | group inner, marks => inner.advance bytes marks

def accepts (expression : Expression) (bytes : List UInt8) : Bool :=
  (expression.advance bytes (true :: bytes.map fun _ => false)).getLastD false

/-- A byte as it is written; a backslash goes before what has a meaning, and
bytes beyond ASCII are written in base sixteen. -/
def writtenByte (value : UInt8) : Text :=
  if value < 0x80 then
    let character := Char.ofNat value.toNat
    if "\\.+*?()|[]^$#&-~\x7b\x7d".toList.contains character then ['\\', character] else [character]
  else "\\x".toList ++ Nat.toDigits 16 value.toNat

def writtenRange (range : UInt8 × UInt8) : Text :=
  if range.1 = range.2 then writtenByte range.1
  else writtenByte range.1 ++ '-' :: writtenByte range.2

def written : Expression → Text
  | nothing => []
  | byte value => writtenByte value
  | anyByte => ['.']
  | byteIn negated ranges =>
      (if negated then ['[', '^'] else ['[']) ++ ranges.flatMap writtenRange ++ [']']
  | anyBytes => ['.', '*']
  | optional inner => inner.written ++ ['?']
  | sequence first second => first.written ++ second.written
  | either first second => first.written ++ '|' :: second.written
  | group inner => "(?:".toList ++ inner.written ++ [')']

inductive Surroundings where
  | sequence
  | choice
  | other
  deriving DecidableEq

/-- The number of levels of an expression.  What is repeated, a class and a
pair of parentheses are one level each, and so are a sequence as a whole and a
choice as a whole; several ranges of one class are a level of their own. -/
def depth (surroundings : Surroundings) : Expression → Nat
  | nothing | byte _ | anyByte => 0
  | byteIn _ ranges => if ranges.length ≤ 1 then 1 else 2
  | anyBytes => 1
  | optional inner => inner.depth .other + 1
  | sequence first second =>
      max (first.depth .sequence) (second.depth .sequence) +
        (if surroundings = .sequence then 0 else 1)
  | either first second =>
      max (first.depth .choice) (second.depth .choice) +
        (if surroundings = .choice then 0 else 1)
  | group inner => inner.depth .other + 1

def ofList : List Expression → Expression
  | [] => nothing
  | [last] => last
  | first :: rest => sequence first (ofList rest)

def ofText (text : Text) : Expression :=
  ofList ((Text.encode text).map byte)

def writtenWhole (expression : Expression) : Text :=
  "(?-u)^".toList ++ expression.written ++ ['$']

def greatestDepth : Nat := 250

/-- Whether an expression for all of a path can be used.  Its start and its end
are in sequence with it. -/
def isUsable (expression : Expression) : Bool :=
  expression.depth .sequence + 1 ≤ greatestDepth

end Expression

end ChangeCoverage.Glob
