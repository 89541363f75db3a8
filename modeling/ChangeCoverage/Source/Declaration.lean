import ChangeCoverage.Source.Pattern
import ChangeCoverage.Text.Word

/-!
Declarations on masked lines of C# source.  A type is declared by a type
keyword and a name, a method by a return type, a name and a parenthesis;
attributes and modifiers may stand before either.
-/

namespace ChangeCoverage.Source

inductive Declaration where
  | type (name : Text)
  | method (name : Text)
  deriving DecidableEq, Repr

def modifiers : List Text :=
  ["public", "private", "protected", "internal", "static", "abstract", "sealed", "partial",
   "virtual", "override", "async", "extern", "unsafe", "readonly", "new", "const", "volatile",
   "file", "required", "ref"].map String.toList

def statementWords : List Text :=
  ["if", "else", "for", "foreach", "while", "do", "switch", "case", "default", "try", "catch",
   "finally", "using", "lock", "fixed", "return", "new", "await", "throw", "yield", "goto",
   "typeof", "nameof", "sizeof", "checked", "unchecked", "when", "in", "is", "as", "out", "var",
   "delegate", "operator", "stackalloc"].map String.toList

def accessorNames : List Text :=
  ["get", "set", "init", "add", "remove"].map String.toList

namespace Declaration

open Pattern

variable {Result : Type}

def attributes : Pattern Result :=
  repeated fun following =>
    literal '[' (many (· ≠ ']') (literal ']' (many Text.isBlank following)))

def leading : Pattern Result := fun following =>
  many Text.isBlank (attributes
    (repeated (fun next => oneOf modifiers (some Text.isBlank next)) following))

def identifier : Pattern Result := fun following =>
  one Text.isNameStart (many Text.isWordCharacter following)

def typeKeyword : Pattern Result := fun following text =>
  oneOf (["class", "struct", "interface"].map String.toList) following text <|>
  oneOf ["record".toList]
    (optional
      (fun next => some Text.isBlank (oneOf (["class", "struct"].map String.toList) next))
      following) text

def typeArguments : Pattern Result := fun following =>
  literal '<' (many (fun character => ! ['(', ')', '=', ';'].contains character)
    (literal '>' following))

def arrayRank : Pattern Result := fun following =>
  many Text.isBlank (literal '['
    (many (fun character => character = ',' || Text.isBlank character) (literal ']' following)))

/-- A return type: a dotted name with type arguments, array brackets and a
question mark, all of which may be missing. -/
def returnType : Pattern Result := fun following =>
  one Text.isNameStart
    (many (fun character => Text.isWordCharacter character || character = '.')
      (optional (fun next => many Text.isBlank (typeArguments next))
        (repeated arrayRank (optional (literal '?') following))))

def typeName? : Text → Option Text :=
  leading (typeKeyword (some Text.isBlank
    (captured identifier fun name _ => Option.some name)))

/-- The return type and the name in what looks like a method declaration. -/
def methodParts? : Text → Option (Text × Text) :=
  leading (captured returnType fun result =>
    some Text.isBlank (captured identifier fun name =>
      many Text.isBlank (optional typeArguments
        (many Text.isBlank (literal '(' fun _ => Option.some (result, name))))))

def hasEarlyArrow (masked : Text) : Bool :=
  Text.contains (masked.takeWhile (· ≠ '(')) "=>".toList

def methodName? (masked : Text) : Option Text := do
  let (result, name) ← methodParts? masked
  if statementWords.contains result || statementWords.contains name ||
      accessorNames.contains name || hasEarlyArrow masked then none
  else Option.some name

/-- The declaration on a masked line; methods are declared only inside types. -/
def find? (masked : Text) (insideType : Bool) : Option Declaration :=
  match typeName? masked with
  | Option.some name => Option.some (type name)
  | none => if insideType then (methodName? masked).map method else none

end Declaration

end ChangeCoverage.Source
