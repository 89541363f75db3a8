import ChangeCoverage.Text.Encoding

/-!
Decoding what has been encoded.  Each ASCII character is one byte, which is read
back as that character.
-/

namespace ChangeCoverage.Text

theorem encode_cons (character : Char) (rest : Text) :
    encode (character :: rest) = String.utf8EncodeChar character ++ encode rest :=
  List.flatMap_cons

theorem encode_append (front back : Text) : encode (front ++ back) = encode front ++ encode back :=
  List.flatMap_append

def IsAscii (text : Text) : Prop :=
  ∀ character ∈ text, character.toNat < 128

theorem utf8EncodeChar_ascii {character : Char} (ascii : character.toNat < 128) :
    String.utf8EncodeChar character = [character.val.toUInt8] := by
  have single : character.utf8Size = 1 := by
    rw [Char.utf8Size_eq_one_iff, UInt32.le_iff_toNat_le]
    exact Nat.le_of_lt_succ ascii
  exact String.utf8EncodeChar_eq_singleton single

theorem Decoder.read_ascii {character : Char} (ascii : character.toNat < 128)
    (units : List (Option Char)) :
    Decoder.read { unfinished := none, units } character.val.toUInt8 =
      { unfinished := none, units := some character :: units } := by
  have value : character.val.toUInt8.toNat = character.toNat := by
    rw [UInt32.toNat_toUInt8]
    exact Nat.mod_eq_of_lt (Nat.lt_trans ascii (by decide))
  rw [Decoder.read]
  simp only [value, Decoder.first, if_pos ascii, Char.ofNat_toNat]

theorem foldl_read_encode {text : Text} (ascii : IsAscii text) (units : List (Option Char)) :
    (encode text).foldl Decoder.read { unfinished := none, units } =
      { unfinished := none, units := (text.map some).reverse ++ units } := by
  induction text generalizing units with
  | nil => rfl
  | cons character rest inductionHypothesis =>
      obtain ⟨here, later⟩ := List.forall_mem_cons.mp ascii
      rw [encode_cons, utf8EncodeChar_ascii here, List.singleton_append, List.foldl_cons,
        Decoder.read_ascii here]
      exact (inductionHypothesis later _).trans (by simp)

theorem decodeLossy_encode {text : Text} (ascii : IsAscii text) :
    decodeLossy (encode text) = text := by
  rw [decodeLossy, decodeUnits, Decoder.start, foldl_read_encode ascii]
  simp [Decoder.finish, Function.comp_def]

end ChangeCoverage.Text
