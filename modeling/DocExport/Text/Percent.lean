/-!
# Percent encoding

In a percent-encoded text a byte may be written as a percent sign and two hexadecimal digits.
Decoding puts the bytes back and reads the whole as UTF-8.  A text that does not decode to
UTF-8 was not encoded, and is taken as it stands.

* **Main results.** `decodeBytes_encoded` (a percent sign with two digits is one byte) and
  `decode_of_invalid` (a text whose bytes are not UTF-8 is left alone).
-/

namespace DocExport.Text.Percent

/-- The percent sign as a byte. -/
def sign : UInt8 := 0x25

/-- The value of a hexadecimal digit, in either case. -/
def hexValue? (b : UInt8) : Option UInt8 :=
  if 0x30 ≤ b ∧ b ≤ 0x39 then some (b - 0x30)
  else if 0x41 ≤ b ∧ b ≤ 0x46 then some (b - 0x37)
  else if 0x61 ≤ b ∧ b ≤ 0x66 then some (b - 0x57)
  else none

/-- The byte that a percent sign and two hexadecimal digits stand for. -/
def encodedByte? (first high low : UInt8) : Option UInt8 :=
  if first = sign then
    match hexValue? high, hexValue? low with
    | some h, some l => some (16 * h + l)
    | _, _ => none
  else none

/-- Put a byte in place of every percent sign that two hexadecimal digits follow, and keep all
other bytes.  Fewer than three bytes hold nothing encoded. -/
def decodeBytes : List UInt8 → List UInt8
  | first :: high :: low :: rest =>
      match encodedByte? first high low with
      | some b => b :: decodeBytes rest
      | none => first :: decodeBytes (high :: low :: rest)
  | rest => rest

/-- The bytes of a text in UTF-8. -/
def bytes (s : String) : List UInt8 := s.toUTF8.data.toList

/-- Decode a text, or leave it as it stands if what it decodes to is not UTF-8. -/
def decode (s : String) : String :=
  (String.fromUTF8? ⟨(decodeBytes (bytes s)).toArray⟩).getD s

/-- A percent sign with two hexadecimal digits decodes to one byte. -/
theorem decodeBytes_encoded {high low h l : UInt8} (hh : hexValue? high = some h)
    (hl : hexValue? low = some l) (rest : List UInt8) :
    decodeBytes (sign :: high :: low :: rest) = (16 * h + l) :: decodeBytes rest := by
  simp [decodeBytes, encodedByte?, hh, hl]

/-- A text that decodes to something other than UTF-8 is left alone. -/
theorem decode_of_invalid {s : String}
    (h : String.fromUTF8? ⟨(decodeBytes (bytes s)).toArray⟩ = none) : decode s = s := by
  rw [decode, h, Option.getD_none]

end DocExport.Text.Percent
