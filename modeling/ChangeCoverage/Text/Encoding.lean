import ChangeCoverage.Text.Blank

/-!
Text as UTF-8 bytes.  In bytes that are read as text, a maximal run that begins
a character and cannot be completed is one fault.
-/

namespace ChangeCoverage.Text

def encode (text : Text) : List UInt8 :=
  text.flatMap String.utf8EncodeChar

structure PartialCharacter where
  bits : Nat
  missing : Nat
  low : Nat
  high : Nat

/-- Progress of decoding; faults are `none`, and the last unit comes first. -/
structure Decoder where
  unfinished : Option PartialCharacter
  units : List (Option Char)

namespace Decoder

def start : Decoder :=
  { unfinished := none, units := [] }

def first (units : List (Option Char)) (byte : Nat) : Decoder :=
  let lead (mask missing low high : Nat) : Decoder :=
    { unfinished := some { bits := byte % mask, missing, low, high }, units }
  if byte < 0x80 then { unfinished := none, units := some (Char.ofNat byte) :: units }
  else if byte < 0xc2 then { unfinished := none, units := none :: units }
  else if byte < 0xe0 then lead 32 1 0x80 0xbf
  else if byte = 0xe0 then lead 16 2 0xa0 0xbf
  else if byte = 0xed then lead 16 2 0x80 0x9f
  else if byte < 0xf0 then lead 16 2 0x80 0xbf
  else if byte = 0xf0 then lead 8 3 0x90 0xbf
  else if byte < 0xf4 then lead 8 3 0x80 0xbf
  else if byte = 0xf4 then lead 8 3 0x80 0x8f
  else { unfinished := none, units := none :: units }

def read (decoder : Decoder) (byte : UInt8) : Decoder :=
  match decoder.unfinished with
  | none => first decoder.units byte.toNat
  | some character =>
      if character.low ≤ byte.toNat && byte.toNat ≤ character.high then
        let bits := character.bits * 64 + byte.toNat % 64
        if character.missing ≤ 1 then
          { unfinished := none, units := some (Char.ofNat bits) :: decoder.units }
        else
          { decoder with
            unfinished := some
              { bits, missing := character.missing - 1, low := 0x80, high := 0xbf } }
      else first (none :: decoder.units) byte.toNat

/-- The units in reading order; a character cut off by the end is a fault. -/
def finish (decoder : Decoder) : List (Option Char) :=
  (if decoder.unfinished.isSome then none :: decoder.units else decoder.units).reverse

end Decoder

def decodeUnits (bytes : List UInt8) : List (Option Char) :=
  (bytes.foldl Decoder.read Decoder.start).finish

def decodeLossy (bytes : List UInt8) : Text :=
  (decodeUnits bytes).map (·.getD (Char.ofNat 0xfffd))

def decode? (bytes : List UInt8) : Option Text :=
  let units := decodeUnits bytes
  if units.all Option.isSome then some (units.filterMap id) else none

end ChangeCoverage.Text
