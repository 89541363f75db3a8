import ChangeCoverage.Text.Search

/-!
Patterns with backtracking.  A pattern is given what has to match after it and
tries its own possibilities in order of preference; the first one for which the
remainder matches decides the result.
-/

namespace ChangeCoverage.Source

variable {Result : Type}

abbrev Following (Result : Type) := Text → Option Result

abbrev Pattern (Result : Type) := Following Result → Following Result

namespace Pattern

def literal (expected : Char) : Pattern Result
  | following, character :: rest => if character = expected then following rest else none
  | _, [] => none

def one (accepts : Char → Bool) : Pattern Result
  | following, character :: rest => if accepts character then following rest else none
  | _, [] => none

def many (accepts : Char → Bool) (following : Following Result) : Following Result
  | [] => following []
  | character :: rest =>
      if accepts character then many accepts following rest <|> following (character :: rest)
      else following (character :: rest)

def some (accepts : Char → Bool) : Pattern Result :=
  fun following => one accepts (many accepts following)

def oneOf (choices : List Text) : Pattern Result :=
  fun following text =>
    choices.findSome? fun word => (Text.after? word text).bind following

def optional (part : Pattern Result) : Pattern Result :=
  fun following text => part following text <|> following text

/-- Any number of matches of a pattern, as many as possible; each consumes
something. -/
def repeated (part : Pattern Result) (following : Following Result) (text : Text) :
    Option Result :=
  part (fun rest =>
    if rest.length < text.length then repeated part following rest else none) text <|>
  following text
termination_by text.length

def captured (part : Pattern Result) (following : Text → Following Result) :
    Following Result :=
  fun text => part (fun rest => following (text.take (text.length - rest.length)) rest) text

/-- Where what follows cannot start with an accepted character, the longest
match is the only one. -/
theorem many_eq_of_rejects {accepts : Char → Bool} {following : Following Result}
    (rejects : ∀ character rest, accepts character = true →
      following (character :: rest) = none)
    (text : Text) :
    many accepts following text = following (text.dropWhile accepts) := by
  induction text with
  | nil => rfl
  | cons character rest inductionHypothesis =>
      by_cases accepted : accepts character = true
      · simp [many, accepted, inductionHypothesis, rejects character rest accepted]
      · simp [many, accepted]

end Pattern

end ChangeCoverage.Source
