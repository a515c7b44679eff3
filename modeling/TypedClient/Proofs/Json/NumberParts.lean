import Mathlib.Data.List.TakeWhile
import TypedClient.Json.NumberText
import TypedClient.Json.Printer
import TypedClient.Proofs.Number.Digits

/-!
# Reading a number from its parts

A number is written as a sign, digits, a point with further digits and an exponent, where only the
first digits have to be there.  `NumberParts` lists what is written, and `readNumber_chars` says
what is read from it: an integer if there are no further parts and it fits, else a double.

An integer that fits 64 bits is read exactly from its digits (`readNumber_integer`): no digit is
lost, since the number of the first digits is never greater than that of all, and no zero stands in
front, which a reader would not take.
-/

set_option autoImplicit false

namespace TypedClient.Json

open TypedClient.Number
open TypedClient.Text (digitValue numberOfDigits)

/-- As long as the number fits, every digit is kept. -/
theorem addWhole_of_le {cs : List Char} {s : Significand}
    (h : Nat.ofDigitChars 10 cs s.digits ≤ significandLimit) :
    s.addWhole cs = { s with digits := Nat.ofDigitChars 10 cs s.digits } := by
  induction cs generalizing s with
  | nil => simp [Significand.addWhole]
  | cons c cs ih =>
    rw [Nat.ofDigitChars_cons] at h ⊢
    have hnext : s.digits * 10 + digitValue c = 10 * s.digits + (c.toNat - '0'.toNat) := by
      rw [digitValue, Nat.mul_comm]
    rw [Significand.addWhole, hnext, if_pos (Nat.le_trans (le_ofDigitChars cs _) h)]
    exact ih h

/-- The parts of the text of a number, without its sign. -/
structure NumberParts where
  /-- The digits before the point. -/
  whole : List Char
  /-- The digits after the point; without any there is no point. -/
  fraction : List Char
  /-- The exponent. -/
  exponent : Option Int
  /-- There are digits before the point. -/
  whole_ne : whole ≠ []
  /-- They are digits. -/
  wholeDigits : ∀ c ∈ whole, c.isDigit = true
  /-- A zero stands alone before the point. -/
  leading : whole.head? = some '0' → whole.length = 1
  /-- Only digits follow the point. -/
  fractionDigits : ∀ c ∈ fraction, c.isDigit = true

/-- The sign of a number. -/
def signChars (negative : Bool) : List Char := if negative then ['-'] else []

namespace NumberParts

/-- The point and the digits after it. -/
def fractionChars (fraction : List Char) : List Char :=
  if fraction.isEmpty then [] else '.' :: fraction

/-- The exponent with its letter and its sign. -/
def exponentChars : Option Int → List Char
  | none => []
  | some power => 'e' :: (if 0 ≤ power then '+' else '-') :: Nat.toDigits 10 power.natAbs

/-- The whole text. -/
def chars (t : NumberParts) : List Char :=
  t.whole ++ (fractionChars t.fraction ++ exponentChars t.exponent)

/-- The number that is written before the point. -/
def wholeNumber (t : NumberParts) : Nat := Nat.ofDigitChars 10 t.whole 0

/-- The integer that is written, if it is one. -/
def integer? (t : NumberParts) (negative : Bool) : Option Int :=
  if t.fraction.isEmpty ∧ t.exponent.isNone then exactInteger? negative ⟨t.wholeNumber, 0⟩ else none

/-- The digits that are kept. -/
def significand (t : NumberParts) : Significand :=
  let s := Significand.addFraction ⟨t.wholeNumber, 0⟩ t.fraction
  { s with power := s.power + t.exponent.getD 0 }

end NumberParts

/-- The digits at the start of a text. -/
theorem takeWhile_digits {digits rest : List Char} (hdigits : ∀ c ∈ digits, c.isDigit = true)
    (hrest : ∀ c ∈ rest.head?, c.isDigit = false) :
    (digits ++ rest).takeWhile Char.isDigit = digits ∧
      (digits ++ rest).dropWhile Char.isDigit = rest := by
  have hnone : rest.takeWhile Char.isDigit = [] ∧ rest.dropWhile Char.isDigit = rest := by
    cases rest with
    | nil => exact ⟨rfl, rfl⟩
    | cons c rest =>
      have hc : c.isDigit = false := hrest c rfl
      simp [hc]
  rw [List.takeWhile_append_of_pos hdigits, List.dropWhile_append_of_pos hdigits, hnone.1, hnone.2]
  exact ⟨List.append_nil _, rfl⟩

theorem readExponent_exponentChars (exponent : Option Int) :
    readExponent (NumberParts.exponentChars exponent) = some (exponent, []) := by
  cases exponent with
  | none => rfl
  | some power =>
    have hdigits : ∀ c ∈ Nat.toDigits 10 power.natAbs, c.isDigit = true :=
      fun c => Nat.isDigit_of_mem_toDigits (by decide) (by decide)
    have hnone : ∀ c ∈ ([] : List Char).head?, c.isDigit = false := fun _ h => nomatch h
    obtain ⟨htake, hdrop⟩ := takeWhile_digits hdigits hnone
    rw [List.append_nil] at htake hdrop
    have hvalue : numberOfDigits (Nat.toDigits 10 power.natAbs) = power.natAbs :=
      Nat.ofDigitChars_toDigits (by decide) (by decide)
    have hne : (Nat.toDigits 10 power.natAbs).isEmpty = false :=
      List.isEmpty_eq_false_iff.2 Nat.toDigits_ne_nil
    rw [NumberParts.exponentChars]
    split
    · rename_i hnonneg
      simp [readExponent, htake, hdrop, hvalue, hne, abs_of_nonneg hnonneg]
    · rename_i hneg
      simp [readExponent, htake, hdrop, hvalue, hne, abs_of_neg (not_le.1 hneg)]

theorem head?_exponentChars (exponent : Option Int) :
    ∀ c ∈ (NumberParts.exponentChars exponent).head?, c.isDigit = false := by
  cases exponent with
  | none => exact fun _ h => nomatch h
  | some power =>
    intro c hc
    rw [← Option.some.inj hc]
    rfl

theorem head?_afterWhole (fraction : List Char) (exponent : Option Int) :
    ∀ c ∈ (NumberParts.fractionChars fraction ++ NumberParts.exponentChars exponent).head?,
      c.isDigit = false := by
  rw [NumberParts.fractionChars]
  split
  · rw [List.nil_append]
    exact head?_exponentChars exponent
  · intro c hc
    rw [← Option.some.inj hc]
    rfl

theorem NumberParts.chars_ne_minus (t : NumberParts) (rest : List Char) :
    t.chars ≠ '-' :: rest := by
  obtain ⟨c, cs, hcs⟩ := List.exists_cons_of_ne_nil t.whole_ne
  intro hrest
  rw [chars, hcs] at hrest
  have hc := t.wholeDigits c (by rw [hcs]; exact List.mem_cons_self)
  rw [(List.cons.inj hrest).1] at hc
  exact absurd hc (by decide)

/-- **What is read from the parts of a number**, if the digits before the point fit. -/
theorem readNumber_chars (t : NumberParts) (h : t.wholeNumber ≤ significandLimit)
    (negative : Bool) :
    readNumber (signChars negative ++ t.chars)
      = ((t.integer? negative).map fun n => (.integer n, [])).or
          ((t.significand.toDouble? negative).map fun d => (.double d, [])) := by
  obtain ⟨htake, hdrop⟩ := takeWhile_digits t.wholeDigits (head?_afterWhole t.fraction t.exponent)
  have hwhole : Significand.addWhole ⟨0, 0⟩ t.whole = ⟨t.wholeNumber, 0⟩ := addWhole_of_le h
  have hne : t.whole.isEmpty = false := List.isEmpty_eq_false_iff.2 t.whole_ne
  have hzero : ¬(t.whole.head? = some '0' ∧ 1 < t.whole.length) := fun ⟨hhead, hlength⟩ =>
    absurd (t.leading hhead) (Nat.ne_of_gt hlength)
  rw [readNumber.eq_def]
  split
  rename_i sign text hsplit
  obtain ⟨rfl, rfl⟩ : negative = sign ∧ t.chars = text := by
    cases negative with
    | true => exact Prod.mk.inj hsplit
    | false =>
      split at hsplit
      · rename_i hrest
        exact absurd hrest (t.chars_ne_minus _)
      · exact Prod.mk.inj hsplit
  rw [NumberParts.chars, htake, hdrop, NumberParts.integer?, NumberParts.significand]
  simp only [hne, hzero, Bool.false_eq_true, or_self, if_false, hwhole]
  by_cases hfraction : t.fraction = []
  · rw [hfraction]
    cases t.exponent with
    | none =>
      simp only [NumberParts.fractionChars, NumberParts.exponentChars, Significand.addFraction,
        readExponent]
      cases exactInteger? negative ⟨t.wholeNumber, 0⟩ <;> simp
    | some power =>
      have hexponent := readExponent_exponentChars (some power)
      rw [NumberParts.exponentChars] at hexponent ⊢
      simp [NumberParts.fractionChars, Significand.addFraction, hexponent]
  · obtain ⟨htake', hdrop'⟩ := takeWhile_digits t.fractionDigits (head?_exponentChars t.exponent)
    have hnot : t.fraction.isEmpty = false := List.isEmpty_eq_false_iff.2 hfraction
    simp [NumberParts.fractionChars, hnot, htake', hdrop', readExponent_exponentChars]

/-! ## The text of an integer -/

/-- The digits of a natural number, as the text of a number. -/
def NumberParts.ofNat (n : Nat) : NumberParts where
  whole := Nat.toDigits 10 n
  fraction := []
  exponent := none
  whole_ne := Nat.toDigits_ne_nil
  wholeDigits := fun _ => Nat.isDigit_of_mem_toDigits (by decide) (by decide)
  leading := fun hhead => by
    rcases Nat.eq_zero_or_pos n with rfl | hn
    · rfl
    · exact absurd hhead (head?_toDigits hn)
  fractionDigits := List.forall_mem_nil _

/-- Digits read as an integer, with or without a sign, if there is one for them. -/
theorem readNumber_signed {n : Nat} (h : n ≤ significandLimit) {negative : Bool} {value : Int}
    (hvalue : exactInteger? negative ⟨n, 0⟩ = some value) :
    readNumber (signChars negative ++ Nat.toDigits 10 n) = some (.integer value, []) := by
  have hnumber : (NumberParts.ofNat n).wholeNumber = n :=
    Nat.ofDigitChars_toDigits (by decide) (by decide)
  have hchars : (NumberParts.ofNat n).chars = Nat.toDigits 10 n := List.append_nil _
  have hread := readNumber_chars (NumberParts.ofNat n) (hnumber.trans_le h) negative
  have hinteger : (NumberParts.ofNat n).integer? negative = some value := by
    rw [NumberParts.integer?, hnumber]
    exact hvalue
  rw [hchars, hinteger] at hread
  exact hread

/-- **The digits of a natural number of 64 bits** read as the number. -/
theorem readNumber_toDigits {n : Nat} (h : n ≤ significandLimit) :
    readNumber (Nat.toDigits 10 n) = some (.integer n, []) := by
  have hvalue : exactInteger? false ⟨n, 0⟩ = some (n : Int) := rfl
  exact readNumber_signed h hvalue

/-- **The text of an integer of 64 bits**, with a sign or without, reads as the integer. -/
theorem readNumber_integer {n : Int} (hlow : -(twoTo 63 : Int) ≤ n) (hhigh : n < twoTo 64) :
    readNumber (Number.integer n).text.toList = some (.integer n, []) := by
  have hlimit : significandLimit + 1 = twoTo 64 := rfl
  cases n with
  | ofNat n =>
    have htext : (Number.integer (Int.ofNat n)).text.toList = Nat.toDigits 10 n := Nat.toList_repr
    rw [Int.ofNat_eq_natCast] at hhigh
    rw [htext]
    exact readNumber_toDigits (by omega)
  | negSucc n =>
    have htext : (Number.integer (Int.negSucc n)).text.toList
        = signChars true ++ Nat.toDigits 10 (n + 1) := by
      have hsign : (Number.integer (Int.negSucc n)).text = "-" ++ toString (n + 1) := rfl
      rw [hsign, String.toList_append, Nat.toString_eq_repr, Nat.toList_repr]
      rfl
    have hbits : twoTo 63 < twoTo 64 := by decide
    rw [Int.negSucc_eq] at hlow
    have hfits : 0 < n + 1 ∧ n + 1 ≤ twoTo 63 := by omega
    have hvalue : exactInteger? true ⟨n + 1, 0⟩ = some (Int.negSucc n) := by
      simp [exactInteger?, hfits.2, Int.negSucc_eq]
    rw [htext]
    exact readNumber_signed (by omega) hvalue

end TypedClient.Json
