import TypedClient.Proofs.Declaration.Lexing
import TypedClient.Proofs.Number.Digits

/-!
# The text of a number is a number literal

Whatever a number is, its text starts with a digit, or with a minus sign before one, and consists of
characters that go on a number literal: digits, the point, the letter of an exponent and its sign.
So the text is one token as soon as it reads back at all (`lexesBefore_text`).
-/

set_option autoImplicit false

namespace TypedClient.Declaration

open TypedClient.Number

/-- The characters of a number without sign. -/
structure MagnitudeShaped (cs : List Char) : Prop where
  /-- It starts with a digit. -/
  starts : ∃ c ∈ cs.head?, c.isDigit = true
  /-- Every character goes on a number. -/
  parts : ∀ c ∈ cs, isNumberPart c = true

theorem isNumberPart_of_isDigit {c : Char} (h : c.isDigit = true) : isNumberPart c = true := by
  simp [isNumberPart, Char.isAlphanum, h]

theorem MagnitudeShaped.append {a b : List Char} (ha : MagnitudeShaped a)
    (hb : ∀ c ∈ b, isNumberPart c = true) : MagnitudeShaped (a ++ b) := by
  obtain ⟨⟨c, hc, hdigit⟩, hparts⟩ := ha
  refine ⟨⟨c, ?_, hdigit⟩, fun d hd => (List.mem_append.1 hd).elim (hparts d) (hb d)⟩
  cases a with
  | nil => simp at hc
  | cons d a => simpa using hc

/-- Digits, of which there is at least one. -/
theorem MagnitudeShaped.of_digits {cs : List Char} (hne : cs ≠ [])
    (h : ∀ c ∈ cs, c.isDigit = true) : MagnitudeShaped cs := by
  refine ⟨?_, fun c hc => isNumberPart_of_isDigit (h c hc)⟩
  cases cs with
  | nil => exact absurd rfl hne
  | cons c cs => exact ⟨c, rfl, h c List.mem_cons_self⟩

theorem NumberShaped.of_magnitude {cs : List Char} (h : MagnitudeShaped cs) : NumberShaped cs := by
  obtain ⟨⟨c, hc, hdigit⟩, hparts⟩ := h
  cases cs with
  | nil => simp at hc
  | cons d cs =>
    obtain rfl : d = c := by simpa using hc
    exact ⟨⟨d, cs, rfl, .inl hdigit⟩, hparts⟩

theorem NumberShaped.of_minus {cs : List Char} (h : MagnitudeShaped cs) :
    NumberShaped ('-' :: cs) :=
  ⟨⟨'-', cs, rfl, .inr ⟨rfl, h.starts⟩⟩, List.forall_mem_cons.2 ⟨by decide, h.parts⟩⟩

theorem magnitudeShaped_natText (n : Nat) : MagnitudeShaped (toString n).toList := by
  rw [Nat.toString_eq_repr, Nat.toList_repr]
  exact .of_digits Nat.toDigits_ne_nil fun c => Nat.isDigit_of_mem_toDigits (by decide) (by decide)

/-! ## Doubles -/

/-- A decimal of digits in base ten, written positionally, has the shape of a number. -/
theorem magnitudeShaped_positional {d : Decimal} (h : ∀ n ∈ d.digits, n < 10) :
    MagnitudeShaped (DecimalLayout.plain.positional d).toList := by
  have hdigits := isDigit_of_mem_digitText h
  simp only [DecimalLayout.positional]
  split
  · split
    · rename_i hlen
      rw [String.toList_append, String.toList_append]
      refine .append (.of_digits ?_ ?_) (List.all_eq_true.1 (by decide))
      · intro hnil
        have hlength := congrArg List.length hnil
        simp only [DecimalLayout.digitText, DecimalLayout.zeros, String.toList_ofList,
          List.length_append, List.length_map, List.length_replicate, List.length_nil] at hlength
        omega
      · exact fun c hc => (List.mem_append.1 hc).elim (hdigits c) (isDigit_of_mem_zeros _ c)
    · rename_i hlen
      rw [String.toList_append, String.toList_append]
      refine .append (.append (.of_digits ?_ ?_) (List.all_eq_true.1 (by decide))) ?_
      · intro hnil
        have hlength := congrArg List.length hnil
        simp only [DecimalLayout.digitText, String.toList_ofList, List.length_map,
          List.length_take, List.length_nil] at hlength
        omega
      · exact isDigit_of_mem_digitText fun n hn => h n (List.mem_of_mem_take hn)
      · exact fun c hc => isNumberPart_of_isDigit
          (isDigit_of_mem_digitText (fun n hn => h n (List.mem_of_mem_drop hn)) c hc)
  · rw [String.toList_append, String.toList_append]
    refine .append (.append ⟨⟨'0', by decide, rfl⟩, List.all_eq_true.1 (by decide)⟩ ?_) ?_
    · exact fun c hc => isNumberPart_of_isDigit (isDigit_of_mem_zeros _ c hc)
    · exact fun c hc => isNumberPart_of_isDigit (hdigits c hc)

/-- A decimal of digits in base ten, written with an exponent, has the shape of a number. -/
theorem magnitudeShaped_scientific {d : Decimal} (h : ∀ n ∈ d.digits, n < 10) :
    MagnitudeShaped (DecimalLayout.plain.scientific d).toList := by
  have hexponent {mantissa : String} (hmantissa : MagnitudeShaped mantissa.toList) :
      MagnitudeShaped (if 0 ≤ d.power
        then mantissa ++ DecimalLayout.plain.plusExponent ++ toString d.power.toNat
        else mantissa ++ DecimalLayout.plain.minusExponent ++
          toString (-d.power).toNat).toList := by
    split <;>
    · rw [String.toList_append, String.toList_append]
      exact .append (.append hmantissa (List.all_eq_true.1 (by decide)))
        (magnitudeShaped_natText _).parts
  refine hexponent ?_
  split
  · exact ⟨⟨'0', by decide, rfl⟩, List.all_eq_true.1 (by decide)⟩
  · rename_i digit hd
    exact .of_digits (by simp [DecimalLayout.digitText])
      (isDigit_of_mem_digitText (by simpa [hd] using h))
  · rename_i digit rest _ hd
    rw [hd] at h
    rw [String.toList_append, String.toList_append]
    refine .append (.append (.of_digits (by simp [DecimalLayout.digitText]) ?_)
      (List.all_eq_true.1 (by decide))) ?_
    · exact isDigit_of_mem_digitText fun n hn => h n (by simp at hn; simp [hn])
    · exact fun c hc => isNumberPart_of_isDigit
        (isDigit_of_mem_digitText (fun n hn => h n (List.mem_cons_of_mem _ hn)) c hc)

/-- The text of a number has the shape of a number literal. -/
theorem numberShaped_text (n : Json.Number) : NumberShaped n.text.toList := by
  cases n with
  | integer n =>
    rw [Json.Number.text]
    cases n with
    | ofNat n => exact .of_magnitude (magnitudeShaped_natText n)
    | negSucc n =>
      have htext : (toString (Int.negSucc n)).toList = '-' :: (toString (n + 1)).toList := by
        rw [show toString (Int.negSucc n) = "-" ++ toString (n + 1) from rfl, String.toList_append]
        rfl
      rw [htext]
      exact .of_minus (magnitudeShaped_natText (n + 1))
  | double d =>
    have hdigits := lt_ten_of_mem_shortest d
    have hmagnitude {magnitude : String} (h : MagnitudeShaped magnitude.toList) :
        NumberShaped ((if d.negative then "-" else "") ++ magnitude).toList := by
      rw [String.toList_append]
      split
      · exact .of_minus h
      · exact .of_magnitude h
    simp only [Json.Number.text, DecimalLayout.write]
    split
    · exact hmagnitude ⟨⟨'0', by decide, rfl⟩, List.all_eq_true.1 (by decide)⟩
    · split
      · exact hmagnitude (magnitudeShaped_positional hdigits)
      · exact hmagnitude (magnitudeShaped_scientific hdigits)

/-- **The text of a number is one token**, namely the number that the text reads as. -/
theorem lexesBefore_text (n : Json.Number) :
    LexesBefore n.text.toList ((numberValue? n.text.toList).map fun value => [.number value]) :=
  lexesBefore_number (numberShaped_text n)

end TypedClient.Declaration
