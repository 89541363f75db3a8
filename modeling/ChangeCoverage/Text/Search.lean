import ChangeCoverage.Text.Blank

/-!
Searching and cutting texts.
-/

namespace ChangeCoverage.Text

def after? : (marker text : Text) → Option Text
  | [], text => some text
  | _ :: _, [] => none
  | expected :: marker, character :: rest =>
      if expected = character then after? marker rest else none

def splitFirst? (marker : Text) : Text → Option (Text × Text)
  | [] => if marker.isEmpty then some ([], []) else none
  | character :: rest =>
      match after? marker (character :: rest) with
      | some following => some ([], following)
      | none => (splitFirst? marker rest).map fun parts => (character :: parts.1, parts.2)

def splitLast? (marker : Text) : Text → Option (Text × Text)
  | [] => if marker.isEmpty then some ([], []) else none
  | character :: rest =>
      match splitLast? marker rest with
      | some parts => some (character :: parts.1, parts.2)
      | none => (after? marker (character :: rest)).map fun following => ([], following)

def contains (text marker : Text) : Bool :=
  (splitFirst? marker text).isSome

def replace (old new : Char) (text : Text) : Text :=
  text.map fun character => if character = old then new else character

def forwardSlashes (path : Text) : Text :=
  replace '\\' '/' path

/-- The text filled up with spaces on the right to a number of characters. -/
def padRight (width : Nat) (text : Text) : Text :=
  text.rightpad width ' '

/-- The text filled up with spaces on the left to a number of characters. -/
def padLeft (width : Nat) (text : Text) : Text :=
  text.leftpad width ' '

@[simp]
theorem after?_eq_some_iff {marker text following : Text} :
    after? marker text = some following ↔ text = marker ++ following := by
  fun_induction after? marker text with
  | case1 => simp [eq_comm]
  | case2 => simp
  | case3 marker expected rest inductionHypothesis => simpa using inductionHypothesis
  | case4 expected marker character rest differs =>
      simp [Ne.symm differs]

theorem forwardSlashes_eq_self {path : Text} (absent : '\\' ∉ path) :
    forwardSlashes path = path := by
  refine (List.map_congr_left fun character membership => if_neg ?_).trans (List.map_id path)
  rintro rfl
  exact absent membership

theorem splitFirst?_sound {marker text front back : Text}
    (split : splitFirst? marker text = some (front, back)) :
    text = front ++ marker ++ back := by
  fun_induction splitFirst? marker text generalizing front back with
  | case1 empty =>
      obtain ⟨rfl, rfl⟩ := Prod.mk.inj (Option.some.inj split)
      simp_all
  | case2 => simp at split
  | case3 character rest following found =>
      obtain ⟨rfl, rfl⟩ := Prod.mk.inj (Option.some.inj split)
      simpa using found
  | case4 character rest _ inductionHypothesis =>
      obtain ⟨parts, found, equality⟩ := Option.map_eq_some_iff.mp split
      obtain ⟨rfl, rfl⟩ := Prod.mk.inj equality
      simp [inductionHypothesis found]

end ChangeCoverage.Text
