import Mathlib.Data.List.Basic
import TypedClient.Text.Utf8

/-!
# UTF-8 is read back

A character is written as one to four bytes.  They are read as this character again, whatever bytes
follow (`leadingChar_utf8EncodeChar`), because the first byte says how many belong to it and the
second one is in the range for the first.  So the bytes of a text are read as the text
(`decodeUtf8_encodeUtf8`), and nothing in it is taken for a bad part (`decodeUtf8Lossy_encodeUtf8`).
-/

set_option autoImplicit false

namespace TypedClient.Text

variable {a b : UInt8}

/-! ## Ranges of bytes -/

theorem tailCount?_eq (a : UInt8) : tailCount? a =
    if a.toNat < 0x80 then some 0
    else if a.toNat < 0xC2 then none
    else if a.toNat < 0xE0 then some 1
    else if a.toNat < 0xF0 then some 2
    else if a.toNat < 0xF5 then some 3
    else none := by
  simp only [tailCount?, UInt8.lt_iff_toNat_lt]
  rfl

theorem isTail_iff : isTail b = true ↔ 0x80 ≤ b.toNat ∧ b.toNat ≤ 0xBF := by
  rw [isTail, Bool.and_eq_true, decide_eq_true_iff, decide_eq_true_iff, UInt8.le_iff_toNat_le,
    UInt8.le_iff_toNat_le]
  rfl

/-- Four first bytes have a narrower range for the second. -/
theorem isSecond_of_isTail (hb : isTail b = true) (hlong : a.toNat = 0xE0 → 0xA0 ≤ b.toNat)
    (hsurrogate : a.toNat = 0xED → b.toNat ≤ 0x9F) (hlonger : a.toNat = 0xF0 → 0x90 ≤ b.toNat)
    (hbeyond : a.toNat = 0xF4 → b.toNat ≤ 0x8F) : isSecond a b = true := by
  obtain ⟨hge, hle⟩ := isTail_iff.1 hb
  have hrange {least greatest : UInt8} (hleast : least.toNat ≤ b.toNat)
      (hgreatest : b.toNat ≤ greatest.toNat) :
      (decide (least ≤ b) && decide (b ≤ greatest)) = true := by
    rw [Bool.and_eq_true, decide_eq_true_iff, decide_eq_true_iff]
    exact ⟨UInt8.le_iff_toNat_le.2 hleast, UInt8.le_iff_toNat_le.2 hgreatest⟩
  rw [isSecond]
  split
  · rename_i ha
    exact hrange (hlong (congrArg UInt8.toNat ha)) hle
  · split
    · rename_i ha
      exact hrange hge (hsurrogate (congrArg UInt8.toNat ha))
    · split
      · rename_i ha
        exact hrange (hlonger (congrArg UInt8.toNat ha)) hle
      · split
        · rename_i ha
          exact hrange hge (hbeyond (congrArg UInt8.toNat ha))
        · exact hb

/-! ## Characters of one to four bytes -/

theorem toNat_ofNat_of_lt {n : Nat} (h : n < 256) : (UInt8.ofNat n).toNat = n := by
  rw [UInt8.toNat_ofNat', Nat.mod_eq_of_lt h]

theorem payload_ofNat (n : Nat) : payload (UInt8.ofNat (n % 0x40 + 0x80)) = n % 0x40 := by
  rw [payload, toNat_ofNat_of_lt (by omega)]
  omega

theorem isTail_ofNat (n : Nat) : isTail (UInt8.ofNat (n % 0x40 + 0x80)) = true := by
  rw [isTail_iff, toNat_ofNat_of_lt (by omega)]
  omega

variable {n : Nat} (rest : Bytes)

theorem leadingChar_one (hless : n < 0x80) :
    leadingChar (UInt8.ofNat n) rest = (some (Char.ofNat n), 0) := by
  have ha : (UInt8.ofNat n).toNat = n := toNat_ofNat_of_lt (by omega)
  have hcount : tailCount? (UInt8.ofNat n) = some 0 := by rw [tailCount?_eq, ha, if_pos hless]
  simp [leadingChar, hcount, ha, -UInt8.toNat_ofNat']

theorem leadingChar_two (hge : 0x80 ≤ n) (hless : n < 0x800) :
    leadingChar (UInt8.ofNat (n / 64 % 0x20 + 0xC0)) (UInt8.ofNat (n % 0x40 + 0x80) :: rest) =
      (some (Char.ofNat n), 1) := by
  have ha : (UInt8.ofNat (n / 64 % 0x20 + 0xC0)).toNat = n / 64 % 0x20 + 0xC0 :=
    toNat_ofNat_of_lt (by omega)
  have hcount : tailCount? (UInt8.ofNat (n / 64 % 0x20 + 0xC0)) = some 1 := by
    rw [tailCount?_eq, ha, if_neg (by omega), if_neg (by omega), if_pos (by omega)]
  have hsecond := isSecond_of_isTail (a := UInt8.ofNat (n / 64 % 0x20 + 0xC0)) (isTail_ofNat n)
    (by omega) (by omega) (by omega) (by omega)
  have hnumber : (n / 64 % 0x20 + 0xC0) % 0x20 * 0x40 + n % 0x40 = n := by omega
  simp only [leadingChar, hcount, hsecond, ha, payload_ofNat, hnumber, Bool.not_true,
    Bool.false_eq_true, if_false, if_true]

theorem leadingChar_three (hge : 0x800 ≤ n) (hless : n < 0x10000)
    (hvalid : n < 0xD800 ∨ 0xDFFF < n) :
    leadingChar (UInt8.ofNat (n / 4096 % 0x10 + 0xE0)) (UInt8.ofNat (n / 64 % 0x40 + 0x80) ::
      UInt8.ofNat (n % 0x40 + 0x80) :: rest) = (some (Char.ofNat n), 2) := by
  have ha : (UInt8.ofNat (n / 4096 % 0x10 + 0xE0)).toNat = n / 4096 % 0x10 + 0xE0 :=
    toNat_ofNat_of_lt (by omega)
  have hb : (UInt8.ofNat (n / 64 % 0x40 + 0x80)).toNat = n / 64 % 0x40 + 0x80 :=
    toNat_ofNat_of_lt (by omega)
  have hcount : tailCount? (UInt8.ofNat (n / 4096 % 0x10 + 0xE0)) = some 2 := by
    rw [tailCount?_eq, ha, if_neg (by omega), if_neg (by omega), if_neg (by omega),
      if_pos (by omega)]
  have hsecond := isSecond_of_isTail (a := UInt8.ofNat (n / 4096 % 0x10 + 0xE0))
    (isTail_ofNat (n / 64)) (by omega) (by omega) (by omega) (by omega)
  have hnumber :
      ((n / 4096 % 0x10 + 0xE0) % 0x10 * 0x40 + n / 64 % 0x40) * 0x40 + n % 0x40 = n := by
    omega
  simp only [leadingChar, hcount, hsecond, isTail_ofNat, ha, payload_ofNat, hnumber, Bool.not_true,
    Bool.false_eq_true, if_false, if_true, Nat.reduceEqDiff]

theorem leadingChar_four (hge : 0x10000 ≤ n) (hless : n < 0x110000) :
    leadingChar (UInt8.ofNat (n / 262144 % 0x08 + 0xF0)) (UInt8.ofNat (n / 4096 % 0x40 + 0x80) ::
      UInt8.ofNat (n / 64 % 0x40 + 0x80) :: UInt8.ofNat (n % 0x40 + 0x80) :: rest) =
      (some (Char.ofNat n), 3) := by
  have ha : (UInt8.ofNat (n / 262144 % 0x08 + 0xF0)).toNat = n / 262144 % 0x08 + 0xF0 :=
    toNat_ofNat_of_lt (by omega)
  have hb : (UInt8.ofNat (n / 4096 % 0x40 + 0x80)).toNat = n / 4096 % 0x40 + 0x80 :=
    toNat_ofNat_of_lt (by omega)
  have hcount : tailCount? (UInt8.ofNat (n / 262144 % 0x08 + 0xF0)) = some 3 := by
    rw [tailCount?_eq, ha, if_neg (by omega), if_neg (by omega), if_neg (by omega),
      if_neg (by omega), if_pos (by omega)]
  have hsecond := isSecond_of_isTail (a := UInt8.ofNat (n / 262144 % 0x08 + 0xF0))
    (isTail_ofNat (n / 4096)) (by omega) (by omega) (by omega) (by omega)
  have hnumber : (((n / 262144 % 0x08 + 0xF0) % 0x08 * 0x40 + n / 4096 % 0x40) * 0x40 +
      n / 64 % 0x40) * 0x40 + n % 0x40 = n := by
    omega
  simp only [leadingChar, hcount, hsecond, isTail_ofNat, ha, payload_ofNat, hnumber, Bool.not_true,
    Bool.false_eq_true, if_false, Nat.reduceEqDiff]

/-- **The bytes of a character are read as this character**, whatever bytes follow. -/
theorem leadingChar_utf8EncodeChar (c : Char) (rest : Bytes) :
    ∃ first others, String.utf8EncodeChar c = first :: others ∧
      leadingChar first (others ++ rest) = (some c, others.length) := by
  have hc : Char.ofNat c.val.toNat = c := Char.ofNat_toNat c
  -- surrogates are no characters, and there is a last one
  have hvalid : c.val.toNat < 0xD800 ∨ 0xDFFF < c.val.toNat ∧ c.val.toNat < 0x110000 := c.valid
  generalize hn : c.val.toNat = n at hc hvalid
  rw [String.utf8EncodeChar, hn, ← hc]
  split
  · exact ⟨_, _, rfl, leadingChar_one rest (by omega)⟩
  · split
    · exact ⟨_, _, rfl, leadingChar_two rest (by omega) (by omega)⟩
    · split
      · exact ⟨_, _, rfl, leadingChar_three rest (by omega) (by omega) (by omega)⟩
      · exact ⟨_, _, rfl, leadingChar_four rest (by omega) (by omega)⟩

/-! ## Texts -/

theorem decodeUtf8_flatMap (cs : List Char) :
    decodeUtf8 (cs.flatMap String.utf8EncodeChar) = cs.map some := by
  induction cs with
  | nil => rw [List.flatMap_nil, decodeUtf8, List.map_nil]
  | cons c cs ih =>
    obtain ⟨first, others, hbytes, hread⟩ :=
      leadingChar_utf8EncodeChar c (cs.flatMap String.utf8EncodeChar)
    rw [List.flatMap_cons, hbytes, List.cons_append, decodeUtf8, hread, List.drop_left, ih,
      List.map_cons]

/-- **The bytes of a text are read as the text.** -/
theorem decodeUtf8_encodeUtf8 (s : String) : decodeUtf8 (encodeUtf8 s) = s.toList.map some :=
  decodeUtf8_flatMap s.toList

/-- So it does not matter what is put in place of bad parts. -/
theorem decodeUtf8Lossy_encodeUtf8 (s : String) : decodeUtf8Lossy (encodeUtf8 s) = s := by
  rw [decodeUtf8Lossy, decodeUtf8_encodeUtf8, List.map_map]
  exact (congrArg String.ofList (List.map_id s.toList)).trans String.ofList_toList

end TypedClient.Text
