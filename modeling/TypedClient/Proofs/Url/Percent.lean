import TypedClient.Url.Percent

/-!
# Percent encoding is read back

Encoding goes character by character and decoding byte by byte.  Three bytes that a character beyond
ASCII or a hidden one is written with are read as the byte they stand for, and every other character
stands for itself, because the percent sign is hidden.

* `decode_encode` reads an encoded text back, for every part that hides the percent sign;
* `encodeUtf8_injective` says that texts are told apart by their bytes;
* `mem_encode` says which characters an encoded text is written with.
-/

set_option autoImplicit false

namespace TypedClient.Url

open TypedClient.Text

/-! ## Bytes of texts -/

/-- Texts of the same bytes are the same. -/
theorem encodeUtf8_injective : Function.Injective encodeUtf8 := by
  intro s t h
  have harray : s.toList.utf8Encode = t.toList.utf8Encode := congrArg List.toByteArray h
  have hdecoded := congrArg ByteArray.utf8Decode? harray
  rw [List.utf8Decode?_utf8Encode, List.utf8Decode?_utf8Encode, Option.some.injEq] at hdecoded
  exact String.toList_inj.1 (by simpa using congrArg Array.toList hdecoded)

/-- The bytes of characters. -/
def bytesOf (cs : List Char) : Bytes := cs.flatMap String.utf8EncodeChar

theorem encodeUtf8_ofList (cs : List Char) : encodeUtf8 (String.ofList cs) = bytesOf cs := by
  rw [encodeUtf8, String.toList_ofList, bytesOf]

theorem bytesOf_append (as bs : List Char) : bytesOf (as ++ bs) = bytesOf as ++ bytesOf bs :=
  List.flatMap_append

/-- An ASCII character is one byte. -/
theorem utf8EncodeChar_of_le {c : Char} (h : c.toNat ≤ 0x7F) :
    String.utf8EncodeChar c = [UInt8.ofNat c.toNat] := by
  have hval : c.val.toNat ≤ 0x7F := h
  rw [String.utf8EncodeChar, if_pos hval]
  rfl

/-! ## Encoded bytes -/

/-- The upper-case hexadecimal digit of a number below 16. -/
def upperDigit (n : Nat) : Char := (Nat.digitChar n).toUpper

theorem hexText_byte : ∀ n < 256,
    (Json.hexText 2 n).map Char.toUpper = [upperDigit (n / 16), upperDigit (n % 16)] := by
  decide +kernel

/-- A digit is an ASCII letter or digit and is read as its number. -/
theorem upperDigit_read : ∀ n < 16,
    (upperDigit n).toNat ≤ 0x7F ∧ (upperDigit n).isAlphanum = true ∧
      hexDigit? (UInt8.ofNat (upperDigit n).toNat) = some n := by
  decide +kernel

theorem encodeByte_eq (b : UInt8) :
    encodeByte b = ['%', upperDigit (b.toNat / 16), upperDigit (b.toNat % 16)] := by
  rw [encodeByte, hexText_byte b.toNat b.toNat_lt]

theorem decode_cons_of_ne {a : UInt8} (h : a ≠ 0x25) (rest : Bytes) :
    decode (a :: rest) = a :: decode rest := by
  rw [decode.eq_def]
  simp only [if_neg h]

/-- **An encoded byte is read back.** -/
theorem decode_encodeByte (b : UInt8) (rest : Bytes) :
    decode (bytesOf (encodeByte b) ++ rest) = b :: decode rest := by
  have hb : b.toNat < 256 := b.toNat_lt
  obtain ⟨hhigh, -, hreadHigh⟩ := upperDigit_read (b.toNat / 16) (by omega)
  obtain ⟨hlow, -, hreadLow⟩ := upperDigit_read (b.toNat % 16) (by omega)
  have hbytes : bytesOf (encodeByte b) = [0x25, UInt8.ofNat (upperDigit (b.toNat / 16)).toNat,
      UInt8.ofNat (upperDigit (b.toNat % 16)).toNat] := by
    rw [encodeByte_eq, bytesOf, List.flatMap_cons, List.flatMap_cons, List.flatMap_cons,
      List.flatMap_nil, utf8EncodeChar_of_le hhigh, utf8EncodeChar_of_le hlow]
    rfl
  have hvalue : UInt8.ofNat (16 * (b.toNat / 16) + b.toNat % 16) = b := by
    rw [Nat.div_add_mod, UInt8.ofNat_toNat]
  rw [hbytes, List.cons_append, List.cons_append, List.cons_append, List.nil_append, decode,
    if_pos rfl, hreadHigh, hreadLow]
  simp only [hvalue]

theorem decode_encodeBytes (bytes rest : Bytes) :
    decode (bytesOf (bytes.flatMap encodeByte) ++ rest) = bytes ++ decode rest := by
  induction bytes with
  | nil => rfl
  | cons b bytes ih =>
    rw [List.flatMap_cons, bytesOf_append, List.append_assoc, decode_encodeByte, ih,
      List.cons_append]

/-! ## Encoded texts -/

variable {hidden : Char → Bool}

theorem decode_encodeChar (hpercent : hidden '%' = true) (c : Char) (rest : Bytes) :
    decode (bytesOf (encodeChar hidden c) ++ rest) = String.utf8EncodeChar c ++ decode rest := by
  rw [encodeChar]
  split
  · exact decode_encodeBytes _ rest
  · rename_i hplain
    rw [Bool.or_eq_true, decide_eq_true_eq, not_or, Nat.not_lt] at hplain
    obtain ⟨hascii, hshown⟩ := hplain
    have hne : UInt8.ofNat c.toNat ≠ 0x25 := by
      intro h
      have hnat : c.toNat = 0x25 := by
        have := congrArg UInt8.toNat h
        rwa [UInt8.toNat_ofNat', Nat.mod_eq_of_lt (by omega)] at this
      have hc : c = '%' := Char.toNat_inj.1 hnat
      exact hshown (hc ▸ hpercent)
    rw [bytesOf, List.flatMap_singleton, utf8EncodeChar_of_le hascii, List.singleton_append,
      decode_cons_of_ne hne, List.singleton_append]

theorem decode_bytesOf_encode (hpercent : hidden '%' = true) (cs : List Char) (rest : Bytes) :
    decode (bytesOf (encode hidden cs) ++ rest) = bytesOf cs ++ decode rest := by
  induction cs with
  | nil => rfl
  | cons c cs ih =>
    rw [encode, List.flatMap_cons, bytesOf_append, List.append_assoc, decode_encodeChar hpercent]
    rw [encode] at ih
    rw [ih, ← List.append_assoc, bytesOf, bytesOf, List.flatMap_cons]

/-- **An encoded text is read back**, if the percent sign is hidden. -/
theorem decode_encode (hpercent : hidden '%' = true) (cs : List Char) :
    decode (encodeUtf8 (String.ofList (encode hidden cs))) = encodeUtf8 (String.ofList cs) := by
  have h := decode_bytesOf_encode hpercent cs []
  have hnil : decode [] = [] := by rw [decode]
  rwa [List.append_nil, hnil, List.append_nil, ← encodeUtf8_ofList, ← encodeUtf8_ofList] at h

/-- What an encoded text is written with: characters that are shown, percent signs, and letters and
digits. -/
theorem mem_encode {cs : List Char} {c : Char} (h : c ∈ encode hidden cs) :
    hidden c = false ∨ c = '%' ∨ c.isAlphanum = true := by
  obtain ⟨plain, -, hc⟩ := List.mem_flatMap.1 h
  rw [encodeChar] at hc
  split at hc
  · obtain ⟨b, -, hc⟩ := List.mem_flatMap.1 hc
    have hb : b.toNat < 256 := b.toNat_lt
    rw [encodeByte_eq] at hc
    simp only [List.mem_cons, List.not_mem_nil, or_false] at hc
    rcases hc with rfl | rfl | rfl
    · exact .inr (.inl rfl)
    · exact .inr (.inr (upperDigit_read _ (by omega)).2.1)
    · exact .inr (.inr (upperDigit_read _ (by omega)).2.1)
  · rename_i hplain
    rw [Bool.or_eq_true, not_or] at hplain
    cases List.mem_singleton.1 hc
    exact .inl (eq_false_of_ne_true hplain.2)

end TypedClient.Url
