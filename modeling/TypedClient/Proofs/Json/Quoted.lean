import TypedClient.Json.Quoted

/-!
# Reading quoted text back

`unquoteChars` undoes `quoteChars`.  The argument goes character by character: what `escape` writes
is the character itself, a backslash and one letter, or a backslash and the number of a control
character, and each of the three is read back whatever follows it.

* `Escaped` lists the three forms and `escaped_escape` says that `escape` writes no other;
* `unquoteChars_quoteChars` reads a whole body back, up to the closing mark.
-/

set_option autoImplicit false

namespace TypedClient.Json

/-- The forms in which a character stands in a literal. -/
inductive Escaped (c : Char) : List Char → Prop
  /-- The character itself. -/
  | plain (hmark : c ≠ '"') (hslash : c ≠ '\\') (hcontrol : ¬ c.toNat < 0x20) : Escaped c [c]
  /-- A backslash and one letter. -/
  | letter {e : Char} (hu : e ≠ 'u') (h : unescape? e = some c) : Escaped c ['\\', e]
  /-- A backslash and the number of the character, which is below the surrogate numbers. -/
  | number {a b d e : Char} (h : hexQuad? a b d e = some c.toNat) (hlow : c.toNat < 0xD800)
      (hmarks : ∀ x ∈ [a, b, d, e], x ≠ '"' ∧ x ≠ '\\') : Escaped c ['\\', 'u', a, b, d, e]

/-- The digits of the number of a control character. -/
def controlDigits (n : Nat) : Char × Char × Char × Char :=
  ('0', '0', Nat.digitChar (n / 16), Nat.digitChar (n % 16))

/-- The number of a control character takes four digits that are neither marks nor backslashes. -/
theorem hexText_control : ∀ n < 0x20,
    let (a, b, d, e) := controlDigits n
    hexText 4 n = [a, b, d, e] ∧ hexQuad? a b d e = some n ∧
      [a, b, d, e].all (fun x => x != '"' && x != '\\') = true := by
  decide +kernel

theorem escaped_escape (c : Char) : Escaped c (escape c) := by
  rw [escape]
  split
  · subst c; exact .letter (by decide) (by decide)
  split
  · subst c; exact .letter (by decide) (by decide)
  split
  · exact .plain ‹_› ‹_› (by omega)
  split
  · subst c; exact .letter (by decide) (by decide)
  split
  · subst c; exact .letter (by decide) (by decide)
  split
  · subst c; exact .letter (by decide) (by decide)
  split
  · subst c; exact .letter (by decide) (by decide)
  split
  · subst c; exact .letter (by decide) (by decide)
  · obtain ⟨htext, hquad, hmarks⟩ := hexText_control c.toNat (by omega)
    rw [htext]
    refine .number hquad (by omega) fun x hx => ?_
    simpa using List.all_eq_true.1 hmarks x hx

/-- One escaped character is read back, whatever follows. -/
theorem unquoteChars_escaped {c : Char} {cs : List Char} (h : Escaped c cs) (rest : List Char) :
    unquoteChars (cs ++ rest)
      = (unquoteChars rest).map fun (body, after) => (c :: body, after) := by
  cases h with
  | plain hmark hslash hcontrol =>
    rw [List.singleton_append, unquoteChars.eq_def]
    simp [hmark, hslash, hcontrol]
  | @letter e hu h =>
    rw [List.cons_append, List.singleton_append, unquoteChars.eq_def]
    cases hrest : unquoteChars rest <;> simp [hu, h, hrest]
  | number h hlow hmarks =>
    simp only [List.cons_append, List.nil_append]
    rw [unquoteChars.eq_def]
    simp [h, hlow]

/-- **A quoted body is read back** up to the closing mark. -/
theorem unquoteChars_quoteChars (cs rest : List Char) :
    unquoteChars (quoteChars cs ++ '"' :: rest) = some (cs, rest) := by
  induction cs with
  | nil => simp [quoteChars, unquoteChars.eq_def]
  | cons c cs ih =>
    rw [quoteChars] at ih ⊢
    rw [List.flatMap_cons, List.append_assoc, unquoteChars_escaped (escaped_escape c), ih]
    rfl

end TypedClient.Json
