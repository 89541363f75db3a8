import ChangeCoverage.Text.Blank

/-!
Byte offsets: a position in a text is the number of UTF-8 bytes before it.  An
offset inside a character belongs to no position.
-/

namespace ChangeCoverage.Text

def byteSize : Text → Nat
  | [] => 0
  | character :: rest => character.utf8Size + byteSize rest

@[simp]
theorem byteSize_nil : byteSize [] = 0 := rfl

@[simp]
theorem byteSize_cons (character : Char) (rest : Text) :
    byteSize (character :: rest) = character.utf8Size + byteSize rest := rfl

@[simp]
theorem byteSize_append (front back : Text) :
    byteSize (front ++ back) = byteSize front + byteSize back := by
  induction front with
  | nil => simp
  | cons character rest inductionHypothesis =>
      simp [inductionHypothesis, Nat.add_assoc]

/-- The text before and after a byte offset, if the offset is a position. -/
def splitAt? : Nat → Text → Option (Text × Text)
  | 0, text => some ([], text)
  | _ + 1, [] => none
  | offset + 1, character :: rest =>
      if character.utf8Size ≤ offset + 1 then
        (splitAt? (offset + 1 - character.utf8Size) rest).map fun parts =>
          (character :: parts.1, parts.2)
      else none

def dropBytes? (offset : Nat) (text : Text) : Option Text :=
  (splitAt? offset text).map (·.2)

def slice? (start stop : Nat) (text : Text) : Option Text :=
  if start ≤ stop then
    (dropBytes? start text).bind fun rest => (splitAt? (stop - start) rest).map (·.1)
  else none

/-- The first position at or after a byte offset, as its distance from the
offset, and the text from there on. -/
def dropTo : Nat → Text → Nat × Text
  | 0, text => (0, text)
  | _ + 1, [] => (0, [])
  | offset + 1, character :: rest =>
      if character.utf8Size ≤ offset + 1 then dropTo (offset + 1 - character.utf8Size) rest
      else (character.utf8Size - (offset + 1), rest)

/-- Joining the parts gives the text back, and the first part ends at the offset. -/
theorem splitAt?_sound {offset : Nat} {text front back : Text}
    (split : splitAt? offset text = some (front, back)) :
    text = front ++ back ∧ byteSize front = offset := by
  fun_induction splitAt? offset text generalizing front back with
  | case1 text => simp_all
  | case2 => simp at split
  | case3 offset character rest fits inductionHypothesis =>
      obtain ⟨parts, found, equality⟩ := Option.map_eq_some_iff.mp split
      obtain ⟨rfl, rfl⟩ := Prod.mk.inj equality
      obtain ⟨whole, size⟩ := inductionHypothesis found
      exact ⟨by simp [whole], by simp only [byteSize_cons, size]; omega⟩
  | case4 => simp at split

end ChangeCoverage.Text
