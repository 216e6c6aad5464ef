import DocExport.Text.Percent
import Mathlib.Data.UInt

/-!
# Percent encoding and back

A text is encoded by writing some of its bytes as a percent sign and two hexadecimal digits: the
percent signs and the bytes outside ASCII, and any others as one pleases.  Whichever they are, and
however the digits are written, decoding gives back the text.  It looks at every byte once, so that
what it puts in the place of an escape is not taken for the beginning of another one.

* **Main results.** `hexValue?_eq_some_iff` (what a digit is), `decodes_iff` (decoding as a
  relation), `Encodes.decodes` (what is encoded decodes to the same bytes), `exists_bytes_eq` (what
  is encoded is a text) and `decode_encodings` (what becomes of an encoded text, and of a text that
  does not decode to UTF-8).
-/

namespace DocExport.Text.Percent

/-! ## Digits -/

/-- The hexadecimal digit for a number below sixteen, letters as capitals or not. -/
def hexDigit (capital : Bool) (n : UInt8) : UInt8 :=
  if n < 10 then 0x30 + n else if capital then 0x37 + n else 0x57 + n

/-- A byte is a hexadecimal digit for a number. -/
def IsHexDigit (d n : UInt8) : Prop := n < 16 ∧ ∃ capital, d = hexDigit capital n

theorem forall_byte {p : UInt8 → Prop} (h : ∀ n < 256, p (UInt8.ofNat n)) (b : UInt8) : p b := by
  have hb := h b.toNat b.toNat_lt
  rwa [UInt8.ofNat_toNat] at hb

/-- Digits have their values, and nothing else has one. -/
theorem hexValue?_eq_some_iff {d n : UInt8} : hexValue? d = some n ↔ IsHexDigit d n := by
  constructor
  · have hall : ∀ d : UInt8, ∀ n ∈ hexValue? d, n < 16 ∧ ∃ capital, d = hexDigit capital n :=
      forall_byte (by decide +kernel)
    exact hall d n
  · have hall : ∀ n : UInt8, n < 16 → ∀ capital, hexValue? (hexDigit capital n) = some n :=
      forall_byte (by decide +kernel)
    rintro ⟨hn, capital, rfl⟩
    exact hall n hn capital

theorem hexDigit_lt {n : UInt8} (h : n < 16) (capital : Bool) : hexDigit capital n < 0x80 := by
  have hall : ∀ n : UInt8, n < 16 → ∀ capital, hexDigit capital n < 0x80 :=
    forall_byte (by decide +kernel)
  exact hall n h capital

/-! ## Decoding -/

/-- What begins with a percent sign and two hexadecimal digits. -/
def BeginsEscape (raw : List UInt8) : Prop :=
  ∃ high low h l rest, raw = sign :: high :: low :: rest ∧ IsHexDigit high h ∧ IsHexDigit low l

/-- Bytes decode to others: every percent sign that two hexadecimal digits follow goes with them
for the byte they stand for, and all other bytes stay. -/
inductive Decodes : List UInt8 → List UInt8 → Prop where
  | nil : Decodes [] []
  | escape {high low h l : UInt8} {raw out : List UInt8} (hhigh : IsHexDigit high h)
      (hlow : IsHexDigit low l) (hrest : Decodes raw out) :
      Decodes (sign :: high :: low :: raw) ((16 * h + l) :: out)
  | keep {b : UInt8} {raw out : List UInt8} (hkept : ¬ BeginsEscape (b :: raw))
      (hrest : Decodes raw out) : Decodes (b :: raw) (b :: out)

/-- A byte with which no escape begins stays. -/
theorem decodeBytes_keep {b : UInt8} {raw : List UInt8} (h : ¬ BeginsEscape (b :: raw)) :
    decodeBytes (b :: raw) = b :: decodeBytes raw := by
  match raw with
  | [] => rfl
  | [low] => rfl
  | high :: low :: rest =>
    have hnone : encodedByte? b high low = none := by
      rw [encodedByte?]
      split
      · rename_i hsign
        cases hhigh : hexValue? high with
        | none => rfl
        | some h' =>
          cases hlow : hexValue? low with
          | none => rfl
          | some l =>
            exact absurd ⟨high, low, h', l, rest, by rw [hsign], hexValue?_eq_some_iff.1 hhigh,
              hexValue?_eq_some_iff.1 hlow⟩ h
      · rfl
    rw [decodeBytes, hnone]

/-- Bytes decode to what decoding makes of them. -/
theorem decodes_decodeBytes (raw : List UInt8) : Decodes raw (decodeBytes raw) := by
  -- an escape takes three bytes at once
  induction hlength : raw.length using Nat.strong_induction_on generalizing raw with
  | _ n ih =>
    subst hlength
    by_cases hescape : BeginsEscape raw
    · obtain ⟨high, low, h, l, rest, rfl, hhigh, hlow⟩ := hescape
      rw [decodeBytes_encoded (hexValue?_eq_some_iff.2 hhigh) (hexValue?_eq_some_iff.2 hlow)]
      exact .escape hhigh hlow (ih rest.length (by simp; omega) rest rfl)
    · cases raw with
      | nil => exact .nil
      | cons b rest =>
        rw [decodeBytes_keep hescape]
        exact .keep hescape (ih rest.length (by simp) rest rfl)

/-- Bytes decode to nothing else. -/
theorem decodes_iff {raw out : List UInt8} : Decodes raw out ↔ out = decodeBytes raw := by
  constructor
  · intro h
    induction h with
    | nil => rfl
    | escape hhigh hlow _ ih =>
      rw [decodeBytes_encoded (hexValue?_eq_some_iff.2 hhigh) (hexValue?_eq_some_iff.2 hlow), ih]
    | keep hkept _ ih => rw [decodeBytes_keep hkept, ih]
  · rintro rfl
    exact decodes_decodeBytes raw

/-! ## Encoding -/

/-- A byte as a percent sign and two digits. -/
def escape (capitalHigh capitalLow : Bool) (b : UInt8) : List UInt8 :=
  [sign, hexDigit capitalHigh (b / 16), hexDigit capitalLow (b % 16)]

/-- Bytes are encoded as others: any of them may be escaped, and percent signs and bytes outside
ASCII have to be. -/
inductive Encodes : List UInt8 → List UInt8 → Prop where
  | nil : Encodes [] []
  | plain {b : UInt8} {bs es : List UInt8} (hascii : b < 0x80) (hsign : b ≠ sign)
      (hrest : Encodes bs es) : Encodes (b :: bs) (b :: es)
  | escaped (b : UInt8) (capitalHigh capitalLow : Bool) {bs es : List UInt8}
      (hrest : Encodes bs es) : Encodes (b :: bs) (escape capitalHigh capitalLow b ++ es)

theorem digits_of_byte (b : UInt8) : b / 16 < 16 ∧ b % 16 < 16 ∧ 16 * (b / 16) + b % 16 = b := by
  have hall : ∀ b : UInt8, b / 16 < 16 ∧ b % 16 < 16 ∧ 16 * (b / 16) + b % 16 = b :=
    forall_byte (by decide +kernel)
  exact hall b

theorem not_beginsEscape {b : UInt8} (h : b ≠ sign) (raw : List UInt8) :
    ¬ BeginsEscape (b :: raw) := by
  rintro ⟨high, low, h', l, rest, heq, -⟩
  exact h (List.cons.inj heq).1

/-- What is encoded decodes to the same bytes. -/
theorem Encodes.decodes {bs es : List UInt8} (h : Encodes bs es) : Decodes es bs := by
  induction h with
  | nil => exact .nil
  | plain _ hsign _ ih => exact .keep (not_beginsEscape hsign _) ih
  | escaped b capitalHigh capitalLow _ ih =>
    obtain ⟨hhigh, hlow, hbyte⟩ := digits_of_byte b
    have hescape := Decodes.escape ⟨hhigh, capitalHigh, rfl⟩ ⟨hlow, capitalLow, rfl⟩ ih
    rwa [hbyte] at hescape

/-- What is encoded is ASCII. -/
theorem Encodes.lt {bs es : List UInt8} (h : Encodes bs es) : ∀ e ∈ es, e < 0x80 := by
  induction h with
  | nil => exact List.forall_mem_nil _
  | plain hascii _ _ ih => exact List.forall_mem_cons.2 ⟨hascii, ih⟩
  | escaped b capitalHigh capitalLow _ ih =>
    obtain ⟨hhigh, hlow, -⟩ := digits_of_byte b
    simp only [escape, List.cons_append, List.nil_append, List.forall_mem_cons]
    exact ⟨by decide, hexDigit_lt hhigh _, hexDigit_lt hlow _, ih⟩

/-! ## Texts -/

/-- Bytes are read as the text that has them, if there is one. -/
theorem fromUTF8?_eq_some_iff {bs : List UInt8} {s : String} :
    String.fromUTF8? ⟨bs.toArray⟩ = some s ↔ bytes s = bs := by
  constructor
  · intro h
    rw [String.fromUTF8?] at h
    split at h
    · obtain rfl := Option.some.inj h
      rfl
    · exact nomatch h
  · rintro rfl
    have hbytes : (⟨(bytes s).toArray⟩ : ByteArray) = s.toByteArray := by simp [bytes]
    rw [hbytes, String.fromUTF8?, dif_pos s.isValidUTF8]
    rfl

theorem decode_eq {s t : String} (h : decodeBytes (bytes t) = bytes s) : decode t = s := by
  rw [decode, fromUTF8?_eq_some_iff.2 h.symm, Option.getD_some]

theorem decode_eq_self {t : String} (h : ∀ s, bytes s ≠ decodeBytes (bytes t)) : decode t = t :=
  decode_of_invalid (Option.eq_none_iff_forall_ne_some.2 fun s hs =>
    h s (fromUTF8?_eq_some_iff.1 hs))

theorem utf8EncodeChar_ofNat {b : UInt8} (h : b < 0x80) :
    String.utf8EncodeChar (Char.ofNat b.toNat) = [b] := by
  have hall : ∀ b : UInt8, b < 0x80 → String.utf8EncodeChar (Char.ofNat b.toNat) = [b] :=
    forall_byte (by decide +kernel)
  exact hall b h

/-- ASCII bytes are the bytes of a text. -/
theorem exists_bytes_eq {bs : List UInt8} (h : ∀ b ∈ bs, b < 0x80) : ∃ s, bytes s = bs := by
  refine ⟨String.ofList (bs.map fun b => Char.ofNat b.toNat), ?_⟩
  calc bytes (String.ofList (bs.map fun b => Char.ofNat b.toNat))
      = (bs.map fun b => Char.ofNat b.toNat).flatMap String.utf8EncodeChar := by
        rw [bytes, String.toUTF8_eq_toByteArray, String.toByteArray_ofList, List.utf8Encode]
        simp
    _ = bs.flatMap fun b => [b] := by
        rw [List.flatMap_map]
        exact List.flatMap_congr fun b hb => utf8EncodeChar_ofNat (h b hb)
    _ = bs := List.flatMap_singleton' bs

/-- **What was encoded decodes to what it was.**  However the bytes of a text are encoded, what
comes of it is a text, and that decodes to the first one.  Every text decodes to certain bytes and
no others, and if these are the bytes of no text, it is left alone. -/
theorem decode_encodings :
    (∀ s es, Encodes (bytes s) es → (∃ t, bytes t = es) ∧ ∀ t, bytes t = es → decode t = s) ∧
      ∀ t, ∃ out, (∀ other, Decodes (bytes t) other ↔ other = out) ∧
        ((∀ s, bytes s ≠ out) → decode t = t) := by
  constructor
  · intro s es hencoded
    refine ⟨exists_bytes_eq hencoded.lt, ?_⟩
    rintro t rfl
    exact decode_eq (decodes_iff.1 hencoded.decodes).symm
  · intro t
    exact ⟨decodeBytes (bytes t), fun other => decodes_iff, decode_eq_self⟩

/-- An accented letter, one of its bytes escaped with capitals and the other without, before what
looks like an escape once it is decoded; and a byte with which no character begins. -/
theorem decode_encodings_accentedLetter :
    Encodes (bytes "é a%41") (bytes "%C3%a9%20a%2541") ∧ decode "%C3%a9%20a%2541" = "é a%41" ∧
      (∀ s, bytes s ≠ [0xFF]) ∧ decode "%FF" = "%FF" := by
  have hencoded : Encodes (bytes "é a%41") (bytes "%C3%a9%20a%2541") :=
    .escaped 0xC3 true true <| .escaped 0xA9 false false <| .escaped 0x20 true true <|
      .plain (by decide) (by decide) <| .escaped 0x25 true true <|
      .plain (by decide) (by decide) <| .plain (by decide) (by decide) .nil
  have hinvalid : ∀ s, bytes s ≠ [0xFF] := by
    intro s hs
    have hread := fromUTF8?_eq_some_iff.2 hs
    exact nomatch hread
  refine ⟨hencoded, (decode_encodings.1 _ _ hencoded).2 _ rfl, hinvalid, ?_⟩
  obtain ⟨out, hout, hkept⟩ := decode_encodings.2 "%FF"
  have heq : [0xFF] = out := (hout _).1 (decodes_iff.2 (by decide))
  exact hkept (heq ▸ hinvalid)

end DocExport.Text.Percent
