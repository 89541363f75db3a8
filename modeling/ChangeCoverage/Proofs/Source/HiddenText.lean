import ChangeCoverage.Proofs.Text.Encoding
import ChangeCoverage.Proofs.Text.Offset
import ChangeCoverage.Source.Mask
import Mathlib.Data.List.Forall2

/-!
What masking hides.  Each character of a line is shown as it is or hidden behind
as many spaces as it has bytes, so what is seen of a masked line stands at the
same offsets of the line itself.
-/

namespace ChangeCoverage.Source

/-- A masked text beside a text whose characters it shows or hides. -/
inductive Hides : Text → Text → Prop where
  | nil : Hides [] []
  | hidden {masked raw : Text} (character : Char) :
      Hides masked raw → Hides (blank character ++ masked) (character :: raw)
  | shown {masked raw : Text} (character : Char) :
      Hides masked raw → Hides (character :: masked) (character :: raw)

theorem hides_self (text : Text) : Hides text text := by
  induction text with
  | nil => exact .nil
  | cons character rest inductionHypothesis => exact .shown character inductionHypothesis

theorem hides_maskFrom (state : LexState) (lead : Lead) (further : Nat) (line : Text) :
    Hides (maskFrom state lead further line).1 line := by
  induction line generalizing state lead further with
  | nil => cases further <;> exact .nil
  | cons character rest inductionHypothesis =>
      cases further with
      | succ further => exact .hidden character (inductionHypothesis state _ further)
      | zero =>
          have later := inductionHypothesis (state.step lead character rest).state
            (lead.next character) (state.step lead character rest).further
          simp only [maskFrom]
          split
          · exact .hidden character later
          · exact .shown character later

theorem hides_maskLine (line : Text) (state : LexState) : Hides (maskLine line state).1 line :=
  hides_maskFrom state .plain 0 line

@[simp]
theorem length_maskLines (state : LexState) (fileLines : List Text) :
    (maskLines state fileLines).length = fileLines.length := by
  induction fileLines generalizing state with
  | nil => rfl
  | cons line rest inductionHypothesis => exact congrArg (· + 1) (inductionHypothesis _)

namespace Hides

theorem byteSize_eq {masked raw : Text} (hides : Hides masked raw) :
    Text.byteSize masked = Text.byteSize raw := by
  induction hides with
  | nil => rfl
  | hidden character _ inductionHypothesis =>
      rw [Text.byteSize_append, byteSize_blank, Text.byteSize_cons, inductionHypothesis]
  | shown character _ inductionHypothesis =>
      rw [Text.byteSize_cons, Text.byteSize_cons, inductionHypothesis]

theorem head? {masked raw : Text} (hides : Hides masked raw) {first : Char}
    (isFirst : masked.head? = some first) : first = ' ' ∨ raw.head? = some first := by
  cases hides with
  | nil => exact absurd isFirst (Option.not_mem_none first)
  | shown character _ => exact .inr isFirst
  | hidden character _ =>
      have size := Nat.succ_pred_eq_of_pos character.utf8Size_pos
      rw [blank, ← size, List.replicate_succ] at isFirst
      exact .inl (Option.some.inj isFirst).symm

/-- What is not a space is shown, at its own offset. -/
theorem split {masked raw front back : Text} {character : Char} (hides : Hides masked raw)
    (parts : masked = front ++ character :: back) (solid : character ≠ ' ') :
    ∃ rawFront rawBack, raw = rawFront ++ character :: rawBack ∧
      Text.byteSize rawFront = Text.byteSize front ∧ Hides back rawBack := by
  induction hides generalizing front with
  | nil => exact absurd parts.symm (by simp)
  | @hidden masked raw first later inductionHypothesis =>
      rcases List.append_eq_append_iff.mp parts with
        ⟨middle, rfl, maskedEq⟩ | ⟨middle, blankEq, restEq⟩
      · obtain ⟨rawFront, rawBack, rfl, size, hides⟩ := inductionHypothesis maskedEq
        refine ⟨first :: rawFront, rawBack, rfl, ?_, hides⟩
        rw [Text.byteSize_cons, Text.byteSize_append, byteSize_blank, size]
      · cases middle with
        | cons other more =>
            obtain ⟨rfl, _⟩ := List.cons.inj restEq
            have isSpace : character ∈ blank first := by rw [blankEq]; simp
            exact absurd (List.eq_of_mem_replicate isSpace) solid
        | nil =>
            have atStart : masked = [] ++ character :: back := restEq.symm
            obtain ⟨rawFront, rawBack, rfl, size, hides⟩ := inductionHypothesis atStart
            refine ⟨first :: rawFront, rawBack, rfl, ?_, hides⟩
            rw [List.append_nil] at blankEq
            rw [← blankEq, Text.byteSize_cons, byteSize_blank, size, Text.byteSize_nil,
              Nat.add_zero]
  | @shown masked raw first later inductionHypothesis =>
      cases front with
      | nil =>
          obtain ⟨rfl, rfl⟩ := List.cons.inj parts
          exact ⟨[], raw, rfl, rfl, later⟩
      | cons other front =>
          obtain ⟨rfl, restEq⟩ := List.cons.inj parts
          obtain ⟨rawFront, rawBack, rfl, size, hides⟩ := inductionHypothesis restEq
          refine ⟨first :: rawFront, rawBack, rfl, ?_, hides⟩
          rw [Text.byteSize_cons, Text.byteSize_cons, size]

theorem hasAt {masked raw : Text} {character : Char} {offset : Nat} (hides : Hides masked raw)
    (solid : character ≠ ' ') (held : Text.HasAt character masked offset) :
    Text.HasAt character raw offset := by
  obtain ⟨front, back, parts, rfl⟩ := held
  obtain ⟨rawFront, rawBack, rawParts, size, -⟩ := hides.split parts solid
  exact ⟨rawFront, rawBack, rawParts, size⟩

end Hides

section Alignment

variable {masked raw : Text} {character : Char} {offset : Nat}

/-- A byte of a masked line beside one of the line itself. -/
def ShowsByte (shown byte : UInt8) : Prop :=
  shown = byte ∨ shown = 0x20

theorem showsByte_blank {bytes : List UInt8} {size : Nat} (sameSize : bytes.length = size) :
    List.Forall₂ ShowsByte (Text.encode (List.replicate size ' ')) bytes := by
  induction bytes generalizing size with
  | nil =>
      subst sameSize
      exact .nil
  | cons byte rest inductionHypothesis =>
      subst sameSize
      exact .cons (.inr rfl) (inductionHypothesis rfl)

theorem Hides.bytes (hides : Hides masked raw) :
    List.Forall₂ ShowsByte (Text.encode masked) (Text.encode raw) := by
  induction hides with
  | nil => exact .nil
  | hidden character _ inductionHypothesis =>
      have here := showsByte_blank (String.length_utf8EncodeChar character)
      rw [Text.encode_append, Text.encode_cons]
      exact List.rel_append here inductionHypothesis
  | shown character _ inductionHypothesis =>
      have here : List.Forall₂ ShowsByte (String.utf8EncodeChar character)
          (String.utf8EncodeChar character) :=
        List.forall₂_same.mpr fun byte _ => .inl rfl
      rw [Text.encode_cons, Text.encode_cons]
      exact List.rel_append here inductionHypothesis

/-- A masked line shows the bytes of its line or spaces in their place. -/
structure Aligned (masked raw : Text) : Prop where
  bytes : List.Forall₂ ShowsByte (Text.encode masked) (Text.encode raw)
  byteSize_eq : Text.byteSize masked = Text.byteSize raw
  hasAt : ∀ character offset, character ≠ ' ' → Text.HasAt character masked offset →
    Text.HasAt character raw offset

theorem Hides.aligned (hides : Hides masked raw) : Aligned masked raw where
  bytes := hides.bytes
  byteSize_eq := hides.byteSize_eq
  hasAt _ _ := hides.hasAt

/-- A masked line and the line itself can both be cut at an offset. -/
structure IsCut (masked raw : Text) (offset : Nat) : Prop where
  masked : Text.IsPosition masked offset
  raw : Text.IsPosition raw offset

/-- A character that a masked line shows at an offset. -/
structure IsShown (character : Char) (masked raw : Text) (offset : Nat) : Prop where
  masked : Text.HasAt character masked offset
  raw : Text.HasAt character raw offset

theorem Hides.isShown (hides : Hides masked raw) (solid : character ≠ ' ')
    (held : Text.HasAt character masked offset) : IsShown character masked raw offset :=
  ⟨held, hides.hasAt solid held⟩

theorem IsShown.isCut (shown : IsShown character masked raw offset) : IsCut masked raw offset :=
  ⟨shown.masked.isPosition, shown.raw.isPosition⟩

theorem IsShown.isCut_behind (shown : IsShown character masked raw offset) :
    IsCut masked raw (offset + character.utf8Size) :=
  ⟨shown.masked.isPosition_behind, shown.raw.isPosition_behind⟩

end Alignment

end ChangeCoverage.Source
