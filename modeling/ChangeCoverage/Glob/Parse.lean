import ChangeCoverage.Glob.Basic

/-!
Reading globs, and the faults that they may have.
-/

namespace ChangeCoverage

inductive Glob.Fault where
  | unclosedClass
  | invalidRange (first last : Char)
  | unopenedAlternatives
  | unclosedAlternatives
  deriving DecidableEq, Repr

def Glob.Fault.message : Glob.Fault → Text
  | unclosedClass => "unclosed character class; missing ']'".toList
  | invalidRange first last =>
      "invalid range; '".toList ++ first :: "' > '".toList ++ [last, '\'']
  | unopenedAlternatives =>
      "unopened alternate group; missing '\x7b' (maybe escape '\x7d' with '[\x7d]'?)".toList
  | unclosedAlternatives =>
      "unclosed alternate group; missing '\x7d' (maybe escape '\x7b' with '[\x7b]'?)".toList

namespace Glob

structure Group where
  /-- The parts before the group, the last one first. -/
  before : List Part
  /-- The complete alternatives, the last one first. -/
  alternatives : List (List Part)
  deriving Repr

structure CharacterClass where
  negated : Bool
  ranges : List (Char × Char)
  /-- Whether a hyphen after the last range waits for its end. -/
  extending : Bool
  deriving Repr

structure Reader where
  characterClass : Option CharacterClass := none
  groups : List Group := []
  /-- The parts of the present alternative, the last one first. -/
  parts : List Part := []

namespace CharacterClass

def extend (ranges : List (Char × Char)) (last : Char) : Except Fault (List (Char × Char)) :=
  match ranges with
  | [] => .ok [(last, last)]
  | (first, _) :: earlier =>
      if last.toNat < first.toNat then .error (.invalidRange first last)
      else .ok ((first, last) :: earlier)

/-- The byte ranges of a class; a character of several bytes counts byte by byte. -/
def byteRanges (ranges : List (Char × Char)) : List (UInt8 × UInt8) :=
  ranges.flatMap fun (first, last) =>
    let firstBytes := Text.encode [first]
    let lastBytes := Text.encode [last]
    if first = last then firstBytes.map fun value => (value, value)
    else
      firstBytes.dropLast.map (fun value => (value, value)) ++
        [(firstBytes.getLastD 0, lastBytes.headD 0)] ++
        lastBytes.tail.map fun value => (value, value)

def expression (complete : CharacterClass) : Expression :=
  let ranges := if complete.extending then ('-', '-') :: complete.ranges else complete.ranges
  .byteIn complete.negated (byteRanges ranges.reverse)

/-- Reads a character of a class; `none` at its end.  A bracket or a hyphen at
the very start stands for itself. -/
def read (current : CharacterClass) (character : Char) : Except Fault (Option CharacterClass) :=
  if character = ']' && !current.ranges.isEmpty then .ok none
  else if character = '-' && !current.ranges.isEmpty && !current.extending then
    .ok (some { current with extending := true })
  else if current.extending then do
    let ranges ← extend current.ranges character
    .ok (some { current with ranges, extending := false })
  else .ok (some { current with ranges := (character, character) :: current.ranges })

end CharacterClass

namespace Reader

def push (reader : Reader) (added : List Part) : Reader :=
  { reader with parts := added.reverse ++ reader.parts }

def pushStars (reader : Reader) : Reader :=
  reader.push [.star, .star]

def replaceSlash (reader : Reader) (directories : Part) : Reader :=
  match reader.parts with
  | .leadingDirectories :: _ => reader
  | .below :: _ => reader
  | _ :: earlier => { reader with parts := directories :: earlier }
  | [] => reader

/-- Reads two stars between the character before them and the text after them,
with the number of characters of that text that belong to them. -/
def readStars (reader : Reader) (previous : Option Char) (rest : Text) : Reader × Nat :=
  if reader.parts.isEmpty then
    match rest with
    | [] => (reader.push [.leadingDirectories], 0)
    | '/' :: _ => (reader.push [.leadingDirectories], 1)
    | _ => (reader.pushStars, 0)
  else if previous ≠ some '/' then (reader.pushStars, 0)
  else
    match rest with
    | [] => (reader.replaceSlash .below, 0)
    | '/' :: _ => (reader.replaceSlash .innerDirectories, 1)
    | next :: _ =>
        if !reader.groups.isEmpty && (next = ',' || next = '\x7d') then
          (reader.replaceSlash .below, 0)
        else (reader.pushStars, 0)

/-- Reads a character, with the number of characters after it that belong to it. -/
def read (reader : Reader) (previous : Option Char) (character : Char) (rest : Text) :
    Except Fault (Reader × Nat) :=
  match reader.characterClass with
  | some current => do
      match ← current.read character with
      | some extended => .ok ({ reader with characterClass := some extended }, 0)
      | none =>
          .ok (({ reader with characterClass := none }).push [.other current.expression], 0)
  | none =>
      match character with
      | '?' => .ok (reader.push [.other .anyByte], 0)
      | '*' =>
          if rest.head? = some '*' then
            let (read, further) := reader.readStars previous rest.tail
            .ok (read, further + 1)
          else .ok (reader.push [.star], 0)
      | '[' =>
          let negated := rest.head? = some '!' || rest.head? = some '^'
          .ok ({ reader with
            characterClass := some { negated, ranges := [], extending := false } },
            if negated then 1 else 0)
      | '\x7b' =>
          .ok ({ reader with
            groups := { before := reader.parts, alternatives := [] } :: reader.groups
            parts := [] }, 0)
      | '\x7d' =>
          match reader.groups with
          | [] => .error .unopenedAlternatives
          | group :: outer =>
              let alternatives := (reader.parts.reverse :: group.alternatives).reverse
              .ok ({ reader with
                groups := outer
                parts := .other (Part.expressionOfAlternatives alternatives) :: group.before }, 0)
      | ',' =>
          match reader.groups with
          | [] => .ok (reader.push [.character ','], 0)
          | group :: outer =>
              let alternatives := reader.parts.reverse :: group.alternatives
              .ok ({ reader with groups := { group with alternatives } :: outer, parts := [] }, 0)
      | other => .ok (reader.push [.character other], 0)

def finish (reader : Reader) : Except Fault Glob :=
  if reader.characterClass.isSome then .error .unclosedClass
  else if !reader.groups.isEmpty then .error .unclosedAlternatives
  else .ok { parts := reader.parts.reverse }

/-- Reads the rest of a glob, of which the first `further` characters have been
read already. -/
def readFrom (reader : Reader) (previous : Option Char) : Nat → Text → Except Fault Glob
  | _, [] => reader.finish
  | further + 1, character :: rest => readFrom reader (some character) further rest
  | 0, character :: rest => do
      let (next, further) ← reader.read previous character rest
      readFrom next (some character) further rest

end Reader

def parse (glob : Text) : Except Fault Glob :=
  Reader.readFrom {} none 0 glob

end Glob

end ChangeCoverage
