import TypedClient.Declaration.Token
import TypedClient.Proofs.Json.Quoted

/-!
# Cutting a text into tokens, piece by piece

A text of declarations is written piece by piece, and each piece has tokens of its own.  This file
says when that is also how the text is cut: `Lexes cs ts` states that the tokens of `cs` followed by
anything are `ts` followed by the tokens of the rest.

* `tokens?` is `tokenize` without the wording of errors, and `tokens?_cons` its one equation;
* `Stops` is the condition on what follows a word or a number, which must not go on it, and
  `LexesBefore` is `Lexes` for pieces that end in one;
* the leaves are blanks, signs, words, numbers, string literals and comments.

A number may be printed by a text that does not read back, so the tokens of a piece are optional
throughout, and a piece without tokens leaves the whole text without any.
-/

set_option autoImplicit false

namespace TypedClient.Declaration

open TypedClient.Text

/-! ## Tokens without errors -/

/-- The tokens of a text, if it can be cut into tokens. -/
def tokens? (cs : List Char) : Option (List Token) := (tokensFrom 0 cs.length cs).toOption

/-- The first token of a text that starts with `c`, with what follows it. -/
def next? (c : Char) (rest : List Char) : Option (Option Token × List Char) :=
  (readToken 0 c rest).toOption

/-- Tokens followed by further tokens; there are none if either part has none. -/
def joined (ts us : Option (List Token)) : Option (List Token) :=
  ts.bind fun ts => us.map (ts ++ ·)

@[simp] theorem joined_none (us : Option (List Token)) : joined none us = none := rfl

@[simp] theorem joined_none_right (ts : Option (List Token)) : joined ts none = none := by
  cases ts <;> rfl

@[simp] theorem joined_nil (us : Option (List Token)) : joined (some []) us = us := by
  cases us <;> rfl

@[simp] theorem joined_nil_right (ts : Option (List Token)) : joined ts (some []) = ts := by
  cases ts <;> simp [joined]

@[simp] theorem joined_some (ts us : List Token) : joined (some ts) (some us) = some (ts ++ us) :=
  rfl

theorem joined_assoc (ts us vs : Option (List Token)) :
    joined (joined ts us) vs = joined ts (joined us vs) := by
  cases ts <;> cases us <;> cases vs <;> simp [joined]

/-- The length of the whole text only words an error. -/
theorem toOption_readToken (n : Nat) (c : Char) (rest : List Char) :
    (readToken n c rest).toOption = next? c rest := by
  simp only [next?, readToken]
  repeat' split
  all_goals rfl

theorem length_afterComment {cs after : List Char} (h : afterComment? cs = some after) :
    after.length ≤ cs.length := by
  fun_induction afterComment? cs with
  | case1 => cases h; simp; omega
  | case2 _ _ _ _ ih => have := ih h; simp at this ⊢; omega
  | case3 => cases h

theorem length_stringBody {mark : Char} {cs body after : List Char}
    (h : stringBody? mark cs = some (body, after)) : after.length ≤ cs.length := by
  fun_induction stringBody? mark cs generalizing body after with
  | case1 => cases h
  | case2 c rest ih =>
    obtain ⟨⟨b, a⟩, hb, heq⟩ := Option.map_eq_some_iff.1 h
    cases heq
    have := ih hb
    simp; omega
  | case3 => cases h; simp
  | case4 c rest _ _ ih =>
    obtain ⟨⟨b, a⟩, hb, heq⟩ := Option.map_eq_some_iff.1 h
    cases heq
    have := ih hb
    simp; omega

/-- A token takes at least the character it starts with. -/
theorem length_next {c : Char} {rest after : List Char} {t : Option Token}
    (h : next? c rest = some (t, after)) : after.length ≤ rest.length := by
  have hdrop (p : Char → Bool) : (rest.dropWhile p).length ≤ rest.length :=
    (List.dropWhile_suffix p).length_le
  simp only [next?, readToken] at h
  repeat' split at h
  all_goals simp only [Except.toOption, Option.some.injEq, Prod.mk.injEq, reduceCtorEq] at h
  all_goals obtain ⟨-, rfl⟩ := h
  all_goals first
    | exact Nat.le_refl _
    | exact hdrop _
    | exact length_stringBody ‹_›
    | (have hlen := length_afterComment ‹_›; simp at hlen; omega)
    | simp

/-- More steps than characters change nothing. -/
theorem toOption_tokensFrom (n steps : Nat) (cs : List Char) (h : cs.length ≤ steps) :
    (tokensFrom n steps cs).toOption = tokens? cs := by
  suffices hall : ∀ k cs m m' s s', cs.length ≤ k → cs.length ≤ s → cs.length ≤ s' →
      (tokensFrom m s cs).toOption = (tokensFrom m' s' cs).toOption from
    hall cs.length cs n 0 steps cs.length (Nat.le_refl _) h (Nat.le_refl _)
  intro k
  induction k with
  | zero =>
    intro cs m m' s s' hk _ _
    obtain rfl : cs = [] := List.eq_nil_of_length_eq_zero (by omega)
    cases s <;> cases s' <;> rfl
  | succ k ih =>
    intro cs m m' s s' hk hs hs'
    cases cs with
    | nil => cases s <;> cases s' <;> rfl
    | cons c rest =>
      obtain ⟨s, rfl⟩ : ∃ t, s = t + 1 := ⟨s - 1, by simp at hs; omega⟩
      obtain ⟨s', rfl⟩ : ∃ t, s' = t + 1 := ⟨s' - 1, by simp at hs'; omega⟩
      simp only [List.length_cons] at hk hs hs'
      have hm := toOption_readToken m c rest
      have hm' := toOption_readToken m' c rest
      rw [tokensFrom, tokensFrom]
      cases hr : readToken m c rest with
      | error e =>
        cases hr' : readToken m' c rest with
        | error e' => rfl
        | ok p => simp [hr, hr', ← hm, Except.toOption] at hm'
      | ok p =>
        cases hr' : readToken m' c rest with
        | error e' => simp [hr, hr', ← hm, Except.toOption] at hm'
        | ok p' =>
          rw [hr, Except.toOption] at hm
          obtain rfl : p' = p := by simpa [hr', ← hm, Except.toOption] using hm'
          obtain ⟨t, after⟩ := p'
          have hlen := length_next hm.symm
          have := ih after m m' s s' (by omega) (by omega) (by omega)
          simp only [bind, Except.bind]
          cases h1 : tokensFrom m s after <;> cases h2 : tokensFrom m' s' after <;>
            simp_all [Except.toOption, pure, Except.pure]

@[simp] theorem tokens?_nil : tokens? [] = some [] := rfl

/-- A text is cut at its first token. -/
theorem tokens?_cons (c : Char) (rest : List Char) :
    tokens? (c :: rest)
      = (next? c rest).bind fun (t, after) => joined (some t.toList) (tokens? after) := by
  rw [tokens?, List.length_cons, tokensFrom, next?]
  cases hr : readToken (0 : Nat) c rest with
  | error e =>
    have := toOption_readToken (rest.length + 1) c rest
    cases hr' : readToken (rest.length + 1) c rest with
    | error e' => simp [bind, Except.bind, Except.toOption]
    | ok p => simp [hr', next?, hr, Except.toOption] at this
  | ok p =>
    obtain ⟨t, after⟩ := p
    have hn : next? c rest = some (t, after) := by rw [next?, hr]; rfl
    have := toOption_tokensFrom 0 rest.length after (length_next hn)
    simp only [bind, Except.bind, Except.toOption, Option.bind_some, joined, ← this]
    cases tokensFrom 0 rest.length after <;> rfl

/-! ## Pieces of a text -/

/-- What may follow a word or a number: nothing, or text that does not go on either. -/
def Stops (rest : List Char) : Prop :=
  ∀ c ∈ rest.head?, isNumberPart c = false ∧ Naming.isIdentifierPart c = false

/-- The tokens of a piece of text, whatever follows it. -/
def Lexes (cs : List Char) (ts : Option (List Token)) : Prop :=
  ∀ rest, tokens? (cs ++ rest) = joined ts (tokens? rest)

/-- The tokens of a piece of text that ends in a word or a number, if what follows does not go on
it. -/
def LexesBefore (cs : List Char) (ts : Option (List Token)) : Prop :=
  ∀ rest, Stops rest → tokens? (cs ++ rest) = joined ts (tokens? rest)

theorem stops_cons {c : Char} (h : isNumberPart c = false ∧ Naming.isIdentifierPart c = false)
    (rest : List Char) : Stops (c :: rest) := by
  intro d hd
  obtain rfl : c = d := by simpa using hd
  exact h

theorem lexes_nil : Lexes [] (some []) := fun _ => (joined_nil _).symm

variable {a b : List Char} {c : Char} {ts us : Option (List Token)}

theorem Lexes.before (h : Lexes a ts) : LexesBefore a ts := fun rest _ => h rest

theorem Lexes.append (ha : Lexes a ts) (hb : Lexes b us) : Lexes (a ++ b) (joined ts us) := by
  intro rest
  rw [List.append_assoc, ha, hb, joined_assoc]

theorem Lexes.append_before (ha : Lexes a ts) (hb : LexesBefore b us) :
    LexesBefore (a ++ b) (joined ts us) := by
  intro rest hrest
  rw [List.append_assoc, ha, hb rest hrest, joined_assoc]

/-- A word or a number ends where a piece starts that does not go on it. -/
theorem LexesBefore.append (ha : LexesBefore a ts) (hb : Lexes (c :: b) us)
    (hc : isNumberPart c = false ∧ Naming.isIdentifierPart c = false) :
    Lexes (a ++ c :: b) (joined ts us) := by
  intro rest
  have h := ha (c :: b ++ rest) (stops_cons hc (b ++ rest))
  rw [List.append_assoc, h, hb, joined_assoc]

theorem LexesBefore.append_before (ha : LexesBefore a ts) (hb : LexesBefore (c :: b) us)
    (hc : isNumberPart c = false ∧ Naming.isIdentifierPart c = false) :
    LexesBefore (a ++ c :: b) (joined ts us) := by
  intro rest hrest
  have h := ha (c :: b ++ rest) (stops_cons hc (b ++ rest))
  rw [List.append_assoc, h, hb rest hrest, joined_assoc]

theorem Lexes.tokens (h : Lexes a ts) : tokens? a = ts := by
  have := h []
  rwa [List.append_nil, tokens?_nil, joined_nil_right] at this

/-! ## Blanks and signs -/

/-- A fact about the characters below 128 that is checked one by one. -/
theorem forall_ascii {p : Char → Prop} (hall : ∀ n < 128, p (Char.ofNat n))
    (h : c.toNat < 128) : p c := by
  simpa using hall c.toNat h

/-- White space among the characters below 128. -/
theorem isBlank_of_lt (h : c.toNat < 128) :
    isBlank c = (c.toNat == 32 || (9 ≤ c.toNat && c.toNat ≤ 13)) :=
  forall_ascii (p := fun c => isBlank c = (c.toNat == 32 || (9 ≤ c.toNat && c.toNat ≤ 13)))
    (by decide +kernel) h

theorem isBlank_space : isBlank ' ' = true := (isBlank_of_lt (by decide)).trans rfl

theorem isBlank_newline : isBlank '\n' = true := (isBlank_of_lt (by decide)).trans rfl

theorem isBlank_mark : isBlank '"' = false := (isBlank_of_lt (by decide)).trans rfl

theorem isBlank_slash : isBlank '/' = false := (isBlank_of_lt (by decide)).trans rfl

theorem lexes_blank (h : isBlank c = true) : Lexes [c] (some []) := by
  intro rest
  have hnext : next? c rest = some (none, rest) := by simp [next?, readToken, h, Except.toOption]
  rw [List.singleton_append, tokens?_cons, hnext]
  rfl

/-- A sign is no blank, and starts neither a comment nor any longer token but the arrow. -/
theorem sign_starts_nothing_else (h : c ∈ signs) : isBlank c = false ∧ c ≠ '/' ∧ c ≠ '"' ∧
    c ≠ '\x27' ∧ c.isDigit = false ∧ c ≠ '-' ∧ Naming.isIdentifierStart c = false := by
  have hall : signs.all (fun c => decide (c.toNat < 128) && !(c.toNat == 32 ||
      (9 ≤ c.toNat && c.toNat ≤ 13)) && c != '/' && c != '"' && c != '\x27' && !c.isDigit &&
      c != '-' && !Naming.isIdentifierStart c) = true := by decide
  have hc := List.all_eq_true.1 hall c h
  simp only [Bool.and_eq_true, decide_eq_true_eq, Bool.not_eq_true', bne_iff_ne] at hc
  obtain ⟨⟨⟨⟨⟨⟨⟨hlt, hblank⟩, hslash⟩, hmark⟩, hsingle⟩, hdigit⟩, hminus⟩, hword⟩ := hc
  exact ⟨(isBlank_of_lt hlt).trans hblank, hslash, hmark, hsingle, hdigit, hminus, hword⟩

theorem next?_sign (h : c ∈ signs) {rest : List Char}
    (harrow : ¬(c = '=' ∧ rest.head? = some '>')) :
    next? c rest = some (some (.punct c), rest) := by
  obtain ⟨hblank, hslash, hmark, hsingle, hdigit, hminus, hword⟩ := sign_starts_nothing_else h
  simp [next?, readToken, hblank, hslash, hmark, hsingle, startsNumber, hdigit, hminus, hword,
    harrow, h, Except.toOption]

theorem lexes_sign (h : c ∈ signs) (hc : c ≠ '=') : Lexes [c] (some [.punct c]) := by
  intro rest
  rw [List.singleton_append, tokens?_cons, next?_sign h (by simp [hc])]
  rfl

/-- The sign of equality is no arrow if a blank follows. -/
theorem lexes_equals : Lexes ['=', ' '] (some [.punct '=']) := by
  intro rest
  have hblank := lexes_blank isBlank_space rest
  rw [List.cons_append, tokens?_cons, next?_sign (by decide) (by simp)]
  exact congrArg (joined (some [.punct '='])) (hblank.trans (joined_nil _))

/-! ## Words and numbers -/

theorem toNat_lt_of_isAlphanum (h : c.isAlphanum = true) : c.toNat < 128 := by
  have hA : 'A'.val.toNat = 65 := rfl
  have hZ : 'Z'.val.toNat = 90 := rfl
  have ha : 'a'.val.toNat = 97 := rfl
  have hz : 'z'.val.toNat = 122 := rfl
  have h0 : '0'.val.toNat = 48 := rfl
  have h9 : '9'.val.toNat = 57 := rfl
  have htoNat : c.toNat = c.val.toNat := rfl
  rcases Bool.or_eq_true_iff.1 h with halpha | hdigit
  · rcases Bool.or_eq_true_iff.1 halpha with hupper | hlower
    · have hle := UInt32.le_iff_toNat_le.1 (of_decide_eq_true hupper).2
      omega
    · have hle := UInt32.le_iff_toNat_le.1 (of_decide_eq_true (Bool.and_eq_true_iff.1 hlower).2)
      omega
  · have hle := UInt32.le_iff_toNat_le.1 (of_decide_eq_true (Bool.and_eq_true_iff.1 hdigit).2)
    omega

theorem lt_of_isIdentifierPart (h : Naming.isIdentifierPart c = true) : c.toNat < 128 := by
  simp only [Naming.isIdentifierPart, Bool.or_eq_true, beq_iff_eq] at h
  rcases h with (h | rfl) | rfl
  · exact toNat_lt_of_isAlphanum h
  all_goals decide

/-- The first character of a word starts nothing else. -/
theorem word_starts_nothing_else (h : Naming.isIdentifierStart c = true) : isBlank c = false ∧
    c ≠ '/' ∧ c ≠ '"' ∧ c ≠ '\x27' ∧ c.isDigit = false ∧ c ≠ '-' := by
  have hlt : c.toNat < 128 := by
    simp only [Naming.isIdentifierStart, Bool.or_eq_true, beq_iff_eq] at h
    rcases h with (h | rfl) | rfl
    · exact toNat_lt_of_isAlphanum (by simp [Char.isAlphanum, h])
    · decide
    · decide
  rw [isBlank_of_lt hlt]
  revert h
  refine forall_ascii (p := fun c => Naming.isIdentifierStart c = true →
    (c.toNat == 32 || (9 ≤ c.toNat && c.toNat ≤ 13)) = false ∧
    c ≠ '/' ∧ c ≠ '"' ∧ c ≠ '\x27' ∧ c.isDigit = false ∧ c ≠ '-') (by decide) hlt

theorem takeWhile_append_stop {p : Char → Bool} {w rest : List Char} (hw : ∀ c ∈ w, p c = true)
    (hrest : ∀ c ∈ rest.head?, p c = false) :
    (w ++ rest).takeWhile p = w ∧ (w ++ rest).dropWhile p = rest := by
  rw [List.takeWhile_append_of_pos hw, List.dropWhile_append_of_pos hw]
  cases rest with
  | nil => simp
  | cons c rest =>
    have hc : p c = false := hrest c rfl
    simp [hc]

theorem lexesBefore_word {w : String} (h : Naming.isIdentifierShaped w.toList = true) :
    LexesBefore w.toList (some [.ident w]) := by
  intro rest hrest
  obtain ⟨c, cs, hw⟩ : ∃ c cs, w.toList = c :: cs := by
    cases hw : w.toList with
    | nil => simp [hw, Naming.isIdentifierShaped] at h
    | cons c cs => exact ⟨c, cs, rfl⟩
  rw [hw, Naming.isIdentifierShaped, Bool.and_eq_true, List.all_eq_true] at h
  obtain ⟨hblank, hslash, hmark, hsingle, hdigit, hminus⟩ := word_starts_nothing_else h.1
  obtain ⟨htake, hdrop⟩ := takeWhile_append_stop h.2 fun d hd => (hrest d hd).2
  have hnext : next? c (cs ++ rest) = some (some (.ident w), rest) := by
    simp [next?, readToken, hblank, hslash, hmark, hsingle, startsNumber, hdigit, hminus, h.1,
      htake, hdrop, ← hw, Except.toOption]
  rw [hw, List.cons_append, tokens?_cons, hnext]
  rfl

/-- The characters of a number literal: it starts with a digit or with a sign before one. -/
structure NumberShaped (cs : List Char) : Prop where
  /-- It starts like a number. -/
  starts : ∃ c rest, cs = c :: rest ∧
    (c.isDigit = true ∨ c = '-' ∧ ∃ d ∈ rest.head?, d.isDigit = true)
  /-- Every character goes on a number. -/
  parts : ∀ c ∈ cs, isNumberPart c = true

/-- The first character of a number starts nothing else. -/
theorem number_starts_nothing_else (h : c.isDigit = true ∨ c = '-') : isBlank c = false ∧
    c ≠ '/' ∧ c ≠ '"' ∧ c ≠ '\x27' := by
  have hlt : c.toNat < 128 := by
    rcases h with h | rfl
    · exact toNat_lt_of_isAlphanum (by simp [Char.isAlphanum, h])
    · decide
  rw [isBlank_of_lt hlt]
  revert h
  refine forall_ascii (p := fun c => c.isDigit = true ∨ c = '-' →
    (c.toNat == 32 || (9 ≤ c.toNat && c.toNat ≤ 13)) = false ∧
    c ≠ '/' ∧ c ≠ '"' ∧ c ≠ '\x27') (by decide) hlt

/-- A number literal is one token, if it can be read as a number. -/
theorem lexesBefore_number {cs : List Char} (h : NumberShaped cs) :
    LexesBefore cs ((numberValue? cs).map fun value => [.number value]) := by
  intro rest hrest
  obtain ⟨⟨c, tail, rfl, hstart⟩, hparts⟩ := h
  obtain ⟨hblank, hslash, hmark, hsingle⟩ :=
    number_starts_nothing_else (hstart.imp id And.left)
  have hnumber : startsNumber c (tail ++ rest) = true := by
    rcases hstart with hc | ⟨rfl, d, hd, hdigit⟩
    · simp [startsNumber, hc]
    · obtain ⟨tail', rfl⟩ : ∃ t, tail = d :: t := by
        cases tail with
        | nil => simp at hd
        | cons e t => exact ⟨t, by simp at hd; rw [hd]⟩
      simp [startsNumber, hdigit]
  have htail : ∀ d ∈ tail, isNumberPart d = true := fun d hd => hparts d (List.mem_cons_of_mem _ hd)
  obtain ⟨htake, hdrop⟩ := takeWhile_append_stop htail fun d hd => (hrest d hd).1
  rw [List.cons_append, tokens?_cons, next?, readToken]
  simp only [hblank, hslash, hmark, hsingle, hnumber, htake, hdrop, false_and, if_false, or_self,
    if_true, Bool.false_eq_true]
  cases numberValue? (c :: tail) <;> rfl

/-! ## String literals -/

theorem stringBody_cons {mark c : Char} (hmark : c ≠ mark) (hslash : c ≠ '\\')
    (rest : List Char) : stringBody? mark (c :: rest)
      = (stringBody? mark rest).map fun (body, after) => (c :: body, after) := by
  rw [stringBody?.eq_def]
  simp [hmark, hslash]

/-- A quoted body has no closing mark of its own. -/
theorem stringBody_quoteChars (cs rest : List Char) :
    stringBody? '"' (Json.quoteChars cs ++ '"' :: rest) = some (Json.quoteChars cs, rest) := by
  induction cs with
  | nil => rw [Json.quoteChars, List.flatMap_nil, List.nil_append, stringBody?.eq_def]; simp
  | cons c cs ih =>
    rw [Json.quoteChars] at ih ⊢
    rw [List.flatMap_cons, List.append_assoc]
    have hescaped := Json.escaped_escape c
    generalize Json.escape c = text at hescaped
    cases hescaped with
    | plain hmark hslash _ => rw [List.singleton_append, stringBody_cons hmark hslash, ih]; rfl
    | letter _ _ =>
      rw [List.cons_append, List.singleton_append, stringBody?, ih]
      rfl
    | number _ _ hmarks =>
      simp only [List.mem_cons, List.not_mem_nil, or_false, forall_eq_or_imp, forall_eq] at hmarks
      obtain ⟨ha, hb, hd, he⟩ := hmarks
      simp only [List.cons_append, List.nil_append]
      rw [stringBody?, stringBody_cons ha.1 ha.2, stringBody_cons hb.1 hb.2,
        stringBody_cons hd.1 hd.2, stringBody_cons he.1 he.2, ih]
      rfl

theorem lexes_quote (s : String) : Lexes (Json.quote s).toList (some [.text s]) := by
  intro rest
  have hbody := stringBody_quoteChars s.toList rest
  have hvalue : stringValue? '"' (Json.quoteChars s.toList) = some s := by
    simp [stringValue?, Json.unquoteChars_quoteChars]
  have hnext : next? '"' (Json.quoteChars s.toList ++ '"' :: rest) =
      some (some (.text s), rest) := by
    simp [next?, readToken, isBlank_mark, hbody, hvalue, Except.toOption]
  rw [Json.quote, String.toList_ofList, List.cons_append, List.cons_append, List.append_assoc,
    List.singleton_append, tokens?_cons, hnext]
  rfl

/-! ## Comments -/

/-- The text up to the end of a comment: it ends in the closing sign and has none before. -/
def Closes (cs : List Char) : Prop := ∀ rest, afterComment? (cs ++ rest) = some rest

theorem lexes_comment {cs : List Char} (h : Closes cs) : Lexes ('/' :: '*' :: cs) (some []) := by
  intro rest
  have hnext : next? '/' ('*' :: cs ++ rest) = some (none, rest) := by
    simp [next?, readToken, isBlank_slash, h rest, Except.toOption]
  rw [List.cons_append, tokens?_cons, hnext]
  rfl

theorem lexes_lineComment {cs : List Char} (h : '\n' ∉ cs) :
    Lexes ('/' :: '/' :: cs ++ ['\n']) (some []) := by
  intro rest
  have hend := lexes_blank isBlank_newline rest
  have hdrop : (cs ++ '\n' :: rest).dropWhile (· != '\n') = '\n' :: rest :=
    (takeWhile_append_stop (fun c hc => by simpa using ne_of_mem_of_not_mem hc h) (by simp)).2
  have hnext : next? '/' ('/' :: cs ++ ['\n'] ++ rest) = some (none, '\n' :: rest) := by
    simp [next?, readToken, isBlank_slash, hdrop, Except.toOption]
  rw [List.cons_append, List.cons_append, tokens?_cons, hnext]
  exact (joined_nil _).trans hend

end TypedClient.Declaration
