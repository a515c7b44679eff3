import Mathlib.Data.Option.Basic
import TypedClient.Proofs.Declaration.Comments

/-!
# White space at the ends of lines

Emitted text is tidied up before it is an artifact, which takes off white space at the ends of lines
and blank lines.  None of this shows in the tokens: no token goes on over the end of a line, and a
comment ends where it did.

* `Trims xs ys` says that `ys` is `xs` without some white space that stands before the end of a
  line;
* `tokens?_of_trims` says that both have the same tokens, or neither has any.
-/

set_option autoImplicit false

namespace TypedClient.Declaration

open TypedClient.Text

/-- The line ends here, or the text does. -/
def AtLineEnd (cs : List Char) : Prop := ∀ c ∈ cs.head?, c = '\n'

/-- The second text is the first without some white space before the ends of lines. -/
inductive Trims : List Char → List Char → Prop
  /-- Nothing is left. -/
  | nil : Trims [] []
  /-- A character stays. -/
  | keep (c : Char) {xs ys : List Char} (h : Trims xs ys) : Trims (c :: xs) (c :: ys)
  /-- White space goes at the end of a line. -/
  | drop {c : Char} {xs ys : List Char} (hc : isBlank c = true) (hend : AtLineEnd ys)
      (h : Trims xs ys) : Trims (c :: xs) ys

variable {xs ys l : List Char} {c d : Char}

theorem Trims.refl (cs : List Char) : Trims cs cs := by
  induction cs with
  | nil => exact .nil
  | cons c cs ih => exact .keep c ih

theorem Trims.append_left (l : List Char) (h : Trims xs ys) : Trims (l ++ xs) (l ++ ys) := by
  induction l with
  | nil => exact h
  | cons c l ih => exact .keep c ih

theorem Trims.drop_all (hl : ∀ c ∈ l, isBlank c = true) (hend : AtLineEnd ys) (h : Trims xs ys) :
    Trims (l ++ xs) ys := by
  induction l with
  | nil => exact h
  | cons c l ih =>
    exact .drop (hl c List.mem_cons_self) hend (ih fun d hd => hl d (List.mem_cons_of_mem _ hd))

/-! ## What is no white space stays -/

theorem ne_newline_of_not_isBlank (hd : isBlank d = false) : d ≠ '\n' := by
  rintro rfl
  rw [isBlank_newline] at hd
  cases hd

/-- A character that is no white space comes first in both texts or in neither. -/
theorem Trims.head?_eq_iff (h : Trims xs ys) (hd : isBlank d = false) :
    xs.head? = some d ↔ ys.head? = some d := by
  cases h with
  | nil => exact Iff.rfl
  | keep => exact Iff.rfl
  | drop hc hend =>
    refine iff_of_false (fun heq => ?_) fun heq => ne_newline_of_not_isBlank hd (hend d heq)
    rw [List.head?_cons, Option.some.injEq] at heq
    rw [heq, hd] at hc
    cases hc

theorem Trims.tail (h : Trims xs ys) (hd : isBlank d = false) (hhead : xs.head? = some d) :
    Trims (xs.drop 1) (ys.drop 1) := by
  cases h with
  | nil => cases hhead
  | keep _ h => exact h
  | drop hc =>
    rw [List.head?_cons, Option.some.injEq] at hhead
    rw [hhead, hd] at hc
    cases hc

/-- What consists of characters other than white space is the same in both texts. -/
theorem Trims.takeWhile (h : Trims xs ys) {p : Char → Bool}
    (hp : ∀ c, isBlank c = true → p c = false) :
    xs.takeWhile p = ys.takeWhile p ∧ Trims (xs.dropWhile p) (ys.dropWhile p) := by
  induction h with
  | nil => exact ⟨rfl, .nil⟩
  | keep c h ih =>
    rw [List.takeWhile_cons, List.takeWhile_cons, List.dropWhile_cons, List.dropWhile_cons]
    split
    · exact ⟨congrArg (c :: ·) ih.1, ih.2⟩
    · exact ⟨rfl, .keep c h⟩
  | @drop c xs ys hc hend h _ =>
    have hstop : ∀ d ∈ ys.head?, p d = false := fun d hd =>
      hp d (by rw [hend d hd]; exact isBlank_newline)
    obtain ⟨htake, hdrop⟩ :=
      takeWhile_append_stop (w := []) (fun _ h => absurd h List.not_mem_nil) hstop
    rw [List.nil_append] at htake hdrop
    rw [List.takeWhile_cons, List.dropWhile_cons, hp c hc, htake, hdrop]
    exact ⟨rfl, .drop hc hend h⟩

/-- What follows a line. -/
theorem Trims.dropLine (h : Trims xs ys) :
    Trims (xs.dropWhile (· != '\n')) (ys.dropWhile (· != '\n')) := by
  induction h with
  | nil => exact .nil
  | keep c h ih =>
    rw [List.dropWhile_cons, List.dropWhile_cons]
    split
    · exact ih
    · exact .keep c h
  | @drop c xs ys hc hend h ih =>
    rw [List.dropWhile_cons]
    split
    · exact ih
    · have hstop : ∀ d ∈ ys.head?, (d != '\n') = false := fun d hd => by
        rw [hend d hd]
        rfl
      have hdrop := (takeWhile_append_stop (w := []) (fun _ h => absurd h List.not_mem_nil) hstop).2
      rw [List.nil_append] at hdrop
      rw [hdrop]
      exact .drop hc hend h

/-! ## Comments -/

theorem isBlank_angle : isBlank '>' = false := (isBlank_of_lt (by decide)).trans rfl

/-- A comment ends where it did. -/
theorem Trims.afterComment (h : Trims xs ys) :
    Option.Rel Trims (afterComment? xs) (afterComment? ys) := by
  have hcons (c : Char) (cs : List Char) : afterComment? (c :: cs)
      = if c = '*' ∧ cs.head? = some '/' then some (cs.drop 1) else afterComment? cs := by
    cases cs <;> simp [afterComment?]
  induction h with
  | nil => exact .none
  | @keep c xs ys h ih =>
    have hslash := h.head?_eq_iff isBlank_slash
    rw [hcons, hcons]
    by_cases hclose : c = '*' ∧ xs.head? = some '/'
    · rw [if_pos hclose, if_pos ⟨hclose.1, hslash.1 hclose.2⟩]
      exact .some (h.tail isBlank_slash hclose.2)
    · rw [if_neg hclose, if_neg fun hboth => hclose ⟨hboth.1, hslash.2 hboth.2⟩]
      exact ih
  | @drop c xs ys hc hend h ih =>
    rw [hcons, if_neg]
    · exact ih
    · rintro ⟨rfl, -⟩
      rw [isBlank_star] at hc
      cases hc

/-! ## String literals -/

/-- The value of a string literal and what follows it, given what follows the opening mark. -/
def literal? (mark : Char) (cs : List Char) : Option (String × List Char) :=
  (stringBody? mark cs).bind fun (body, after) => (stringValue? mark body).map (·, after)

/-- The body of a string literal reaches to the closing mark. -/
theorem stringBody?_append {mark : Char} (hmark : mark ≠ '\\') {cs body after : List Char}
    (h : stringBody? mark cs = some (body, after)) :
    cs = body ++ mark :: after ∧
      ∀ rest, stringBody? mark (body ++ mark :: rest) = some (body, rest) := by
  fun_induction stringBody? mark cs generalizing body after with
  | case1 => cases h
  | case2 c rest ih =>
    obtain ⟨⟨b, a⟩, hb, heq⟩ := Option.map_eq_some_iff.1 h
    cases heq
    obtain ⟨rfl, hread⟩ := ih hb
    refine ⟨rfl, fun tail => ?_⟩
    rw [List.cons_append, List.cons_append, stringBody?, hread]
    rfl
  | case3 rest =>
    cases h
    refine ⟨rfl, fun tail => ?_⟩
    rw [List.nil_append, stringBody?.eq_def]
    simp [hmark]
  | case4 c rest hescape hc ih =>
    obtain ⟨⟨b, a⟩, hb, heq⟩ := Option.map_eq_some_iff.1 h
    cases heq
    obtain ⟨rfl, hread⟩ := ih hb
    have hslash : c ≠ '\\' := by
      rintro rfl
      cases b <;> exact hescape _ _ rfl rfl
    refine ⟨rfl, fun tail => ?_⟩
    rw [List.cons_append, stringBody_cons hc hslash, hread]
    rfl

/-- A literal closes on its first line, before what follows. -/
def ClosesOnLine (cs rest : List Char) : Prop := ∃ body, cs = body ++ '"' :: rest ∧ '\n' ∉ body

theorem ClosesOnLine.append {cs rest : List Char} (h : ClosesOnLine cs rest) (start : List Char)
    (hstart : '\n' ∉ start) : ClosesOnLine (start ++ cs) rest := by
  obtain ⟨body, rfl, hbody⟩ := h
  refine ⟨start ++ body, (List.append_assoc ..).symm, fun hmem => ?_⟩
  exact (List.mem_append.1 hmem).elim hstart hbody

theorem newline_notMem_of_hexQuad {a b c d : Char} {n : Nat}
    (h : Json.hexQuad? a b c d = some n) : '\n' ∉ [a, b, c, d] := by
  have hvalue {c : Char} {n : Nat} (h : Json.hexValue? c = some n) : '\n' ≠ c := by
    rintro rfl
    cases h
  obtain ⟨_, ha, h⟩ := Option.bind_eq_some_iff.1 h
  obtain ⟨_, hb, h⟩ := Option.bind_eq_some_iff.1 h
  obtain ⟨_, hc, h⟩ := Option.bind_eq_some_iff.1 h
  obtain ⟨_, hd, -⟩ := Option.bind_eq_some_iff.1 h
  simp [hvalue ha, hvalue hb, hvalue hc, hvalue hd]

theorem closesOnLine_of_unquoteChars {cs value rest : List Char}
    (h : Json.unquoteChars cs = some (value, rest)) : ClosesOnLine cs rest := by
  fun_induction Json.unquoteChars cs generalizing value rest with
  | case1 | case3 | case5 | case7 | case9 | case11 | case12 | case13 => cases h
  | case2 =>
    cases h
    exact ⟨[], rfl, List.not_mem_nil⟩
  | case4 c cs _ _ hcontrol ih =>
    obtain ⟨⟨body, after⟩, hbody, heq⟩ := Option.map_eq_some_iff.1 h
    cases heq
    refine (ih hbody).append [c] ?_
    rw [List.mem_singleton]
    rintro rfl
    exact hcontrol (by decide)
  | case6 c _ hslash e cs _ ih =>
    obtain rfl := Decidable.not_not.1 hslash
    obtain ⟨plain, hplain, h⟩ := Option.bind_eq_some_iff.1 h
    obtain ⟨⟨body, after⟩, hbody, heq⟩ := Option.bind_eq_some_iff.1 h
    cases heq
    refine (ih hbody).append ['\\', e] ?_
    rw [List.mem_cons, List.mem_singleton, not_or]
    refine ⟨by decide, ?_⟩
    rintro rfl
    cases hplain
  | case8 c _ hslash e hu _ _ _ _ cs _ hquad _ ih =>
    obtain rfl := Decidable.not_not.1 hslash
    obtain rfl := Decidable.not_not.1 hu
    obtain ⟨⟨body, after⟩, hbody, heq⟩ := Option.map_eq_some_iff.1 h
    cases heq
    refine ClosesOnLine.append ?_ ['\\', 'u'] (by decide)
    exact (ih hbody).append _ (newline_notMem_of_hexQuad hquad)
  | case10 c _ hslash e hu _ _ _ _ _ hquad _ _ _ _ _ _ _ _ cs hpair ih =>
    obtain rfl := Decidable.not_not.1 hslash
    obtain rfl := Decidable.not_not.1 hu
    obtain ⟨rfl, rfl⟩ := hpair
    obtain ⟨low, hlow, h⟩ := Option.bind_eq_some_iff.1 h
    obtain ⟨wide, -, h⟩ := Option.bind_eq_some_iff.1 h
    obtain ⟨⟨body, after⟩, hbody, heq⟩ := Option.bind_eq_some_iff.1 h
    cases heq
    refine ClosesOnLine.append ?_ ['\\', 'u'] (by decide)
    refine ClosesOnLine.append ?_ _ (newline_notMem_of_hexQuad hquad)
    refine ClosesOnLine.append ?_ ['\\', 'u'] (by decide)
    exact (ih hbody).append _ (newline_notMem_of_hexQuad hlow)

theorem mem_replacePair {a b : Char} {new cs : List Char} (ha : c ≠ a) (hb : c ≠ b) (h : c ∈ cs) :
    c ∈ replacePair a b new cs := by
  fun_induction replacePair a b new cs with
  | case1 x y rest hxy ih =>
    obtain ⟨rfl, rfl⟩ := hxy
    rw [List.mem_cons, List.mem_cons] at h
    exact List.mem_append_right _ (ih ((h.resolve_left ha).resolve_left hb))
  | case2 x y rest hxy ih =>
    rcases List.mem_cons.1 h with rfl | h
    · exact List.mem_cons_self
    · exact List.mem_cons_of_mem _ (ih h)
  | case3 => exact h

/-- A string literal stands on one line. -/
theorem newline_notMem_of_stringValue {mark : Char} {body : List Char} {value : String}
    (h : stringValue? mark body = some value) : '\n' ∉ body := by
  have hread {text : List Char} {chars : List Char}
      (hunquote : Json.unquoteChars (text ++ ['"']) = some (chars, [])) : '\n' ∉ text := by
    obtain ⟨inner, heq, hinner⟩ := closesOnLine_of_unquoteChars hunquote
    rwa [List.append_cancel_right heq]
  have htext : '\n' ∉ if mark = '"' then body else withDoubleMarks body := by
    rw [stringValue?] at h
    split at h
    · rename_i hunquote
      exact hread hunquote
    · cases h
  split at htext
  · exact htext
  · refine fun hmem => htext (List.mem_flatMap.2 ⟨'\n', ?_, by simp⟩)
    exact mem_replacePair (by decide) (by decide) hmem

/-- On one line nothing is dropped before a character that is no white space. -/
theorem Trims.exists_of_left {m : Char} {r : List Char} (h : Trims (l ++ m :: r) ys)
    (hm : isBlank m = false) (hl : '\n' ∉ l) : ∃ r', ys = l ++ m :: r' ∧ Trims r r' := by
  induction l generalizing ys with
  | nil =>
    cases h with
    | keep _ h => exact ⟨_, rfl, h⟩
    | drop hc =>
      rw [hm] at hc
      cases hc
  | cons c l ih =>
    rw [List.mem_cons, not_or] at hl
    cases h with
    | keep _ h =>
      obtain ⟨r', rfl, hr⟩ := ih h hl.2
      exact ⟨r', rfl, hr⟩
    | drop hc hend h =>
      obtain ⟨r', rfl, hr⟩ := ih h hl.2
      cases l with
      | nil => exact absurd (hend m rfl) (ne_newline_of_not_isBlank hm)
      | cons d l => exact absurd List.mem_cons_self (hend d rfl ▸ hl.2)

theorem Trims.exists_of_right {m : Char} {r : List Char} (h : Trims xs (l ++ m :: r))
    (hm : isBlank m = false) (hl : '\n' ∉ l) : ∃ r', xs = l ++ m :: r' ∧ Trims r' r := by
  induction l generalizing xs with
  | nil =>
    cases h with
    | keep _ h => exact ⟨_, rfl, h⟩
    | drop _ hend => exact absurd (hend m rfl) (ne_newline_of_not_isBlank hm)
  | cons c l ih =>
    rw [List.mem_cons, not_or] at hl
    cases h with
    | keep _ h =>
      obtain ⟨r', rfl, hr⟩ := ih h hl.2
      exact ⟨r', rfl, hr⟩
    | drop _ hend => exact absurd (hend c rfl).symm hl.1

/-- What is read of two texts: the same, with texts behind it of which one is trimmed. -/
def SameRead {α : Type} (p q : α × List Char) : Prop := p.1 = q.1 ∧ Trims p.2 q.2

/-- A literal that is read from one of the texts is read from the other. -/
theorem Trims.literal (h : Trims xs ys) (mark : Char) (hmark : mark ≠ '\\')
    (hblank : isBlank mark = false) :
    Option.Rel SameRead (literal? mark xs) (literal? mark ys) := by
  have hsome {cs after : List Char} {value : String}
      (hread : literal? mark cs = some (value, after)) :
      ∃ body, cs = body ++ mark :: after ∧ '\n' ∉ body ∧
        ∀ rest, literal? mark (body ++ mark :: rest) = some (value, rest) := by
    obtain ⟨⟨body, after'⟩, hbody, hvalue⟩ := Option.bind_eq_some_iff.1 hread
    obtain ⟨value', hvalue', heq⟩ := Option.map_eq_some_iff.1 hvalue
    cases heq
    obtain ⟨hcs, hagain⟩ := stringBody?_append hmark hbody
    refine ⟨body, hcs, newline_notMem_of_stringValue hvalue', fun rest => ?_⟩
    rw [literal?, hagain]
    exact Option.map_eq_some_iff.2 ⟨value, hvalue', rfl⟩
  cases hx : literal? mark xs with
  | some p =>
    obtain ⟨body, rfl, hline, hagain⟩ := hsome hx
    obtain ⟨after, rfl, hafter⟩ := h.exists_of_left hblank hline
    rw [hagain]
    exact .some ⟨rfl, hafter⟩
  | none =>
    cases hy : literal? mark ys with
    | none => exact .none
    | some p =>
      obtain ⟨body, rfl, hline, hagain⟩ := hsome hy
      obtain ⟨after, rfl, -⟩ := h.exists_of_right hblank hline
      rw [hagain] at hx
      cases hx

/-! ## Tokens -/

/-- The ways to read a token, in their order. -/
theorem next?_eq (c : Char) (rest : List Char) : next? c rest =
    if isBlank c then some (none, rest)
    else if c = '/' ∧ rest.head? = some '/' then some (none, rest.dropWhile (· != '\n'))
    else if c = '/' ∧ rest.head? = some '*' then (afterComment? (rest.drop 1)).map (none, ·)
    else if c = '"' ∨ c = '\x27' then
      (literal? c rest).map fun (value, after) => (some (.text value), after)
    else if startsNumber c rest then
      (numberValue? (c :: rest.takeWhile isNumberPart)).map fun value =>
        (some (.number value), rest.dropWhile isNumberPart)
    else if Naming.isIdentifierStart c then
      some (some (.ident (String.ofList (c :: rest.takeWhile Naming.isIdentifierPart))),
        rest.dropWhile Naming.isIdentifierPart)
    else if c = '=' ∧ rest.head? = some '>' then some (some .arrow, rest.drop 1)
    else if signs.contains c then some (some (.punct c), rest)
    else none := by
  rw [next?, readToken]
  split
  · rfl
  split
  · rfl
  split
  · cases afterComment? (rest.drop 1) <;> rfl
  split
  · rw [literal?]
    cases stringBody? c rest with
    | none => rfl
    | some p =>
      rw [Option.bind_some]
      dsimp only
      cases stringValue? c p.1 <;> rfl
  split
  · dsimp only
    cases numberValue? (c :: rest.takeWhile isNumberPart) <;> rfl
  repeat' split
  all_goals rfl

theorem lt_of_isNumberPart (h : isNumberPart c = true) : c.toNat < 128 := by
  simp only [isNumberPart, Bool.or_eq_true, beq_iff_eq] at h
  rcases h with ((h | rfl) | rfl) | rfl
  · exact toNat_lt_of_isAlphanum h
  all_goals decide

theorem isNumberPart_of_isBlank (h : isBlank c = true) : isNumberPart c = false := by
  refine Bool.eq_false_iff.2 fun hpart => ?_
  have hlt := lt_of_isNumberPart hpart
  rw [isBlank_of_lt hlt] at h
  revert h hpart
  exact forall_ascii (p := fun c => (c.toNat == 32 || (9 ≤ c.toNat && c.toNat ≤ 13)) = true →
    isNumberPart c = true → False) (by decide) hlt

theorem isIdentifierPart_of_isBlank (h : isBlank c = true) : Naming.isIdentifierPart c = false := by
  refine Bool.eq_false_iff.2 fun hpart => ?_
  have hlt := lt_of_isIdentifierPart hpart
  rw [isBlank_of_lt hlt] at h
  revert h hpart
  exact forall_ascii (p := fun c => (c.toNat == 32 || (9 ≤ c.toNat && c.toNat ≤ 13)) = true →
    Naming.isIdentifierPart c = true → False) (by decide) hlt

theorem Trims.startsNumber (h : Trims xs ys) (c : Char) :
    startsNumber c xs = startsNumber c ys := by
  have hblank {d : Char} (hd : isBlank d = true) : d.isDigit = false := by
    have hpart := isNumberPart_of_isBlank hd
    simp only [isNumberPart, Char.isAlphanum, Bool.or_eq_false_iff] at hpart
    exact hpart.1.1.1.2
  rw [Declaration.startsNumber, Declaration.startsNumber]
  congr 2
  cases h with
  | nil => rfl
  | keep => rfl
  | @drop d _ _ hd hend =>
    rw [List.head?_cons, Option.map_some, Option.getD_some, hblank hd]
    cases hhead : ys.head? with
    | none => rfl
    | some e =>
      rw [hend e hhead]
      rfl

/-- The first token of a text is that of the trimmed text. -/
theorem Trims.next (h : Trims xs ys) (c : Char) :
    Option.Rel SameRead (next? c xs) (next? c ys) := by
  have hslash := h.head?_eq_iff isBlank_slash
  have hstar := h.head?_eq_iff isBlank_star
  have hangle := h.head?_eq_iff isBlank_angle
  have hword := h.takeWhile fun _ => isIdentifierPart_of_isBlank
  have hnumber := h.takeWhile fun _ => isNumberPart_of_isBlank
  rw [next?_eq, next?_eq]
  by_cases hblank : isBlank c = true
  · rw [if_pos hblank, if_pos hblank]
    exact .some ⟨rfl, h⟩
  rw [if_neg hblank, if_neg hblank]
  by_cases hline : c = '/' ∧ xs.head? = some '/'
  · rw [if_pos hline, if_pos ⟨hline.1, hslash.1 hline.2⟩]
    exact .some ⟨rfl, h.dropLine⟩
  have hline' : ¬(c = '/' ∧ ys.head? = some '/') := fun hboth => hline ⟨hboth.1, hslash.2 hboth.2⟩
  rw [if_neg hline, if_neg hline']
  by_cases hcomment : c = '/' ∧ xs.head? = some '*'
  · rw [if_pos hcomment, if_pos ⟨hcomment.1, hstar.1 hcomment.2⟩]
    have hafter := (h.tail isBlank_star hcomment.2).afterComment
    generalize afterComment? (xs.drop 1) = p at hafter ⊢
    generalize afterComment? (ys.drop 1) = q at hafter ⊢
    cases hafter with
    | none => exact .none
    | some hafter => exact .some ⟨rfl, hafter⟩
  have hcomment' : ¬(c = '/' ∧ ys.head? = some '*') :=
    fun hboth => hcomment ⟨hboth.1, hstar.2 hboth.2⟩
  rw [if_neg hcomment, if_neg hcomment']
  by_cases hmark : c = '"' ∨ c = '\x27'
  · rw [if_pos hmark, if_pos hmark]
    have hliteral := h.literal c (by rcases hmark with rfl | rfl <;> decide)
      (Bool.eq_false_iff.2 hblank)
    generalize literal? c xs = p at hliteral ⊢
    generalize literal? c ys = q at hliteral ⊢
    cases hliteral with
    | none => exact .none
    | some hpq => exact .some ⟨congrArg (fun value => some (Token.text value)) hpq.1, hpq.2⟩
  rw [if_neg hmark, if_neg hmark, h.startsNumber c, hnumber.1, hword.1]
  split
  · cases numberValue? (c :: ys.takeWhile isNumberPart) with
    | none => exact .none
    | some value => exact .some ⟨rfl, hnumber.2⟩
  split
  · exact .some ⟨rfl, hword.2⟩
  by_cases harrow : c = '=' ∧ xs.head? = some '>'
  · rw [if_pos harrow, if_pos ⟨harrow.1, hangle.1 harrow.2⟩]
    exact .some ⟨rfl, h.tail isBlank_angle harrow.2⟩
  have harrow' : ¬(c = '=' ∧ ys.head? = some '>') := fun hboth => harrow ⟨hboth.1, hangle.2 hboth.2⟩
  rw [if_neg harrow, if_neg harrow']
  split
  · exact .some ⟨rfl, h⟩
  · exact .none

/-- **White space at the ends of lines does not show in the tokens.** -/
theorem tokens?_of_trims (h : Trims xs ys) : tokens? xs = tokens? ys := by
  obtain ⟨n, hn⟩ : ∃ n, xs.length + ys.length ≤ n := ⟨_, Nat.le_refl _⟩
  induction n generalizing xs ys with
  | zero =>
    obtain rfl : xs = [] := List.eq_nil_of_length_eq_zero (by omega)
    obtain rfl : ys = [] := List.eq_nil_of_length_eq_zero (by omega)
    rfl
  | succ n ih =>
    cases h with
    | nil => rfl
    | @keep c xs ys h =>
      rw [List.length_cons, List.length_cons] at hn
      rw [tokens?_cons, tokens?_cons]
      have hnext := h.next c
      cases hx : next? c xs with
      | none =>
        rw [hx] at hnext
        cases hy : next? c ys with
        | none => rfl
        | some q => rw [hy] at hnext; cases hnext
      | some p =>
        rw [hx] at hnext
        cases hy : next? c ys with
        | none => rw [hy] at hnext; cases hnext
        | some q =>
          rw [hy] at hnext
          cases hnext with
          | some hpq =>
            obtain ⟨t, after⟩ := p
            obtain ⟨u, later⟩ := q
            obtain ⟨rfl, hafter⟩ : t = u ∧ Trims after later := hpq
            have hxlen : after.length ≤ xs.length := length_next hx
            have hylen : later.length ≤ ys.length := length_next hy
            have hrest := ih hafter (by omega)
            exact congrArg (joined (some t.toList)) hrest
    | @drop c xs ys hc hend h =>
      rw [List.length_cons] at hn
      have hblank := lexes_blank hc xs
      rw [joined_nil, List.singleton_append] at hblank
      rw [hblank]
      exact ih h (by omega)

end TypedClient.Declaration
