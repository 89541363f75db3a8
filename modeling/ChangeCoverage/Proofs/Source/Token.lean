import Mathlib.Data.List.Infix
import ChangeCoverage.Source.Mask

/-!
Source text as tokens: code, string and character literals of all kinds, and
comments.  Behind some tokens not every other one can stand, because the text
of both would be read differently.
-/

namespace ChangeCoverage.Source

/-- A character between the delimiters of a literal with backslash escapes. -/
inductive Piece where
  | plain (character : Char)
  /-- A backslash and the character that it escapes. -/
  | escape (character : Char)
  deriving DecidableEq

def Piece.text : Piece → Text
  | plain character => [character]
  | escape character => ['\\', character]

/-- Whether a piece can stand on one line before the closing delimiter. -/
def Piece.Fits (closer : Char) : Piece → Prop
  | plain character => character ≠ closer ∧ character ≠ '\\' ∧ character ≠ '\n'
  | escape character => character ≠ '\n'

/-- What makes a string verbatim. -/
inductive VerbatimMark where
  | sign
  | dollarSign
  | signDollar
  deriving DecidableEq

def VerbatimMark.text : VerbatimMark → Text
  | sign => ['@']
  | dollarSign => ['$', '@']
  | signDollar => ['@', '$']

inductive Token where
  | code (chunk : Text)
  | string (pieces : List Piece)
  | character (pieces : List Piece)
  /-- A string in which every quote of its value is written twice. -/
  | verbatim (mark : VerbatimMark) (value : Text)
  /-- A string between two runs of equally many quotes. -/
  | raw (quotes : Nat) (content : Text)
  | blockComment (content : Text)
  /-- A comment up to the end of its line, and the newline that ends it. -/
  | lineComment (content : Text)
  deriving DecidableEq

def quotes (count : Nat) : Text := List.replicate count '"'

def doubled (value : Text) : Text :=
  value.flatMap fun character => if character = '"' then ['"', '"'] else [character]

/-- Spaces in place of characters; only newlines are left. -/
def hidden (text : Text) : Text :=
  text.flatMap fun character => if character = '\n' then ['\n'] else blank character

namespace Token

def text : Token → Text
  | code chunk => chunk
  | string pieces => '"' :: (pieces.flatMap Piece.text ++ ['"'])
  | character pieces => '\'' :: (pieces.flatMap Piece.text ++ ['\''])
  | verbatim mark value => mark.text ++ '"' :: (doubled value ++ ['"'])
  | raw count content => quotes count ++ (content ++ quotes count)
  | blockComment content => '/' :: '*' :: (content ++ ['*', '/'])
  | lineComment content => '/' :: '/' :: (content ++ ['\n'])

/-- The token with everything hidden but code and the mark of a verbatim string. -/
def masked : Token → Text
  | code chunk => chunk
  | verbatim mark value => mark.text ++ hidden ('"' :: (doubled value ++ ['"']))
  | token => hidden token.text

def IsCode : Token → Prop
  | code _ => True
  | _ => False

def IsComment : Token → Prop
  | blockComment _ | lineComment _ => True
  | _ => False

/-- What a token may hold. -/
def Valid : Token → Prop
  | code chunk =>
      '"' ∉ chunk ∧ '\'' ∉ chunk ∧ ¬['/', '/'] <:+: chunk ∧ ¬['/', '*'] <:+: chunk
  | string pieces => ∀ piece ∈ pieces, piece.Fits '"'
  | character pieces => ∀ piece ∈ pieces, piece.Fits '\''
  | verbatim _ value => value.head? ≠ some '"'
  | raw count content =>
      3 ≤ count ∧ ¬quotes count <:+: content ∧ content.head? ≠ some '"' ∧
        content.getLast? ≠ some '"'
  | blockComment content => ¬['*', '/'] <:+: content
  | lineComment content => '\n' ∉ content

end Token

def sourceText (tokens : List Token) : Text := tokens.flatMap Token.text

def maskedText (tokens : List Token) : Text := tokens.flatMap Token.masked

/-- Whether a token can stand before some others.  Code is not split up; a
slash at its end does not join a comment, nor the mark of a verbatim string
another literal; and a quote does not follow a token that it would go on. -/
def Token.Precedes (rest : List Token) : Token → Prop
  | code chunk =>
      (∀ next ∈ rest.head?, ¬next.IsCode) ∧
        (['/'] <:+ chunk → ∀ next ∈ rest.head?, ¬next.IsComment) ∧
        (['@'] <:+ chunk ∨ ['@', '$'] <:+ chunk → (sourceText rest).head? ≠ some '"')
  | string [] | verbatim _ _ | raw _ _ => (sourceText rest).head? ≠ some '"'
  | _ => True

/-- Tokens that can stand one behind the other. -/
def WellSeparated : List Token → Prop
  | [] => True
  | token :: rest => token.Valid ∧ token.Precedes rest ∧ WellSeparated rest

instance (closer : Char) : (piece : Piece) → Decidable (piece.Fits closer)
  | .plain _ => inferInstanceAs (Decidable (_ ∧ _ ∧ _))
  | .escape _ => inferInstanceAs (Decidable (_ ≠ _))

instance : (token : Token) → Decidable token.IsCode
  | .code _ => .isTrue trivial
  | .string _ | .character _ | .verbatim _ _ | .raw _ _ | .blockComment _ | .lineComment _ =>
      .isFalse id

instance : (token : Token) → Decidable token.IsComment
  | .blockComment _ | .lineComment _ => .isTrue trivial
  | .code _ | .string _ | .character _ | .verbatim _ _ | .raw _ _ => .isFalse id

instance : (token : Token) → Decidable token.Valid
  | .code _ => inferInstanceAs (Decidable (_ ∧ _ ∧ _ ∧ _))
  | .string pieces | .character pieces => inferInstanceAs (Decidable (∀ piece ∈ pieces, _))
  | .verbatim _ _ => inferInstanceAs (Decidable (_ ≠ _))
  | .raw _ _ => inferInstanceAs (Decidable (_ ∧ _ ∧ _ ∧ _))
  | .blockComment _ | .lineComment _ => inferInstanceAs (Decidable (¬_))

instance (rest : List Token) : (token : Token) → Decidable (token.Precedes rest)
  | .code chunk => inferInstanceAs (Decidable ((∀ next ∈ rest.head?, ¬next.IsCode) ∧
      (['/'] <:+ chunk → ∀ next ∈ rest.head?, ¬next.IsComment) ∧ (_ → _)))
  | .string [] | .verbatim _ _ | .raw _ _ => inferInstanceAs (Decidable (_ ≠ _))
  | .string (_ :: _) | .character _ | .blockComment _ | .lineComment _ => .isTrue trivial

instance decidableWellSeparated : (tokens : List Token) → Decidable (WellSeparated tokens)
  | [] => .isTrue trivial
  | token :: rest =>
      have := decidableWellSeparated rest
      inferInstanceAs (Decidable (token.Valid ∧ token.Precedes rest ∧ WellSeparated rest))

end ChangeCoverage.Source
