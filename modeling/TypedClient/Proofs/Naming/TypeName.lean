import Mathlib.Data.List.Nodup
import TypedClient.Naming.Identifier
import TypedClient.Proofs.Declaration.Writing
import TypedClient.Proofs.Text.Tables

/-!
# Names of types

Types are named after whatever text the schema has for them.

* `isDeclaredName_typeName` says that the name of a type can be declared, whatever the text, and
  `names_of_any_text` what that is good for: no such name is taken for something else;
* `freeName_not_mem` says that a free name is free, and `exists_freeName` that it is the candidate
  with or without a number; so one that does not end in a digit is the candidate
  (`candidate_eq_of_freeName`).
-/

set_option autoImplicit false

namespace TypedClient.Naming

open TypedClient.Declaration TypedClient.Text TypedClient.Types

/-! ## Words -/

/-- A word: letters and digits, at least one. -/
def IsWord (w : List Char) : Prop := w ≠ [] ∧ ∀ c ∈ w, isAlphanumeric c = true

theorem isWord_of_finished {reversed w : List Char} (h : ∀ c ∈ reversed, isAlphanumeric c = true)
    (hw : w ∈ finishedWord reversed) : IsWord w := by
  cases reversed with
  | nil => cases hw
  | cons c cs =>
    rw [finishedWord] at hw
    · rw [List.mem_singleton.1 hw]
      exact ⟨by simp, fun d hd => h d (List.mem_reverse.1 hd)⟩
    · exact List.cons_ne_nil c cs

theorem isWord_of_wordsFrom {cs w : List Char} :
    ∀ {current : List Char}, (∀ c ∈ current, isAlphanumeric c = true) →
      w ∈ wordsFrom current cs → IsWord w := by
  induction cs with
  | nil => exact fun hcurrent hw => isWord_of_finished hcurrent hw
  | cons c cs ih =>
    intro current hcurrent hw
    rw [wordsFrom.eq_def] at hw
    dsimp only at hw
    split at hw
    · rcases List.mem_append.1 hw with hw | hw
      · exact isWord_of_finished hcurrent hw
      · exact ih (fun c hc => absurd hc List.not_mem_nil) hw
    · rename_i hc
      have hc : isAlphanumeric c = true := by simpa using hc
      have hone : ∀ d ∈ [c], isAlphanumeric d = true := by simpa using hc
      split at hw
      · exact ih hone hw
      · split at hw
        · rcases List.mem_append.1 hw with hw | hw
          · exact isWord_of_finished hcurrent hw
          · exact ih hone hw
        · exact ih (List.forall_mem_cons.2 ⟨hc, hcurrent⟩) hw

theorem isWord_of_words {raw w : String} (h : w ∈ words raw) : IsWord w.toList := by
  obtain ⟨cs, hcs, rfl⟩ := List.mem_map.1 h
  rw [String.toList_ofList]
  exact isWord_of_wordsFrom (fun c hc => absurd hc List.not_mem_nil) hcs

/-- Characters that start no word go on the one before them. -/
theorem wordsFrom_of_plain {before : Char} {current cs : List Char}
    (h : ∀ c ∈ cs, isAlphanumeric c = true ∧ isUppercase c = false) :
    wordsFrom (before :: current) cs = [(cs.reverse ++ before :: current).reverse] := by
  induction cs generalizing before current with
  | nil => rfl
  | cons c cs ih =>
    obtain ⟨⟨halpha, hupper⟩, hrest⟩ := List.forall_mem_cons.1 h
    have hstarts : startsWord before c = false := by rw [startsWord, hupper, Bool.and_false]
    rw [wordsFrom.eq_def]
    simp only [halpha, hstarts, Bool.not_true, Bool.false_eq_true, if_false]
    rw [ih hrest, List.reverse_cons, List.append_assoc, List.singleton_append]

/-- Behind its first character a word has no capitals. -/
theorem words_of_plain {first : Char} {rest : List Char} (hfirst : isAlphanumeric first = true)
    (hrest : ∀ c ∈ rest, isAlphanumeric c = true ∧ isUppercase c = false) :
    words (String.ofList (first :: rest)) = [String.ofList (first :: rest)] := by
  rw [words, String.toList_ofList, wordsFrom.eq_def]
  simp only [hfirst, Bool.not_true, Bool.false_eq_true, if_false]
  rw [wordsFrom_of_plain hrest]
  simp

/-! ## Names that can be declared -/

/-- An ASCII character in upper case starts an identifier only if it is a capital letter, unless it
is one of the two marks. -/
theorem isUpper_toUpper :
    ∀ n < 128, isIdentifierStart (Char.ofNat n).toUpper = true →
      (Char.ofNat n).toUpper.isUpper = true ∨ Char.ofNat n = '_' ∨ Char.ofNat n = '$' := by
  decide +kernel

theorem isUpper_of_isCapitalOrForeign {c : Char} (h : IsCapitalOrForeign c.toNat = true)
    (hstart : isIdentifierStart c = true) : c.isUpper = true := by
  simp only [isIdentifierStart, Bool.or_eq_true, beq_iff_eq] at hstart
  rcases hstart with (halpha | rfl) | rfl
  · simp only [IsCapitalOrForeign, Bool.or_eq_true, Bool.and_eq_true, decide_eq_true_eq,
      beq_iff_eq] at h
    rcases Bool.or_eq_true_iff.1 halpha with hupper | hlower
    · exact hupper
    · obtain ⟨hfrom, hto⟩ := Bool.and_eq_true_iff.1 hlower
      have hfrom' : 97 ≤ c.toNat := UInt32.le_iff_toNat_le.1 (of_decide_eq_true hfrom)
      have hto' : c.toNat ≤ 122 := UInt32.le_iff_toNat_le.1 (of_decide_eq_true hto)
      omega
  · exact absurd h (by decide)
  · exact absurd h (by decide)

/-- The capital of a letter or digit starts an identifier only as a capital letter. -/
theorem upper_eq_cons {c : Char} (hc : isAlphanumeric c = true) :
    ∃ d ds, upper c = d :: ds ∧ (isIdentifierStart d = true → d.isUpper = true) := by
  rcases Nat.lt_or_ge c.toNat 128 with hlt | hge
  · refine ⟨c.toUpper, [], by rw [upper, if_pos hlt], fun hstart => ?_⟩
    have h := isUpper_toUpper c.toNat hlt
    rw [Char.ofNat_toNat] at h
    rcases h hstart with h | rfl | rfl
    · exact h
    · exact absurd hc (by rw [isAlphanumeric_underscore]; exact Bool.false_ne_true)
    · exact absurd hc (by rw [isAlphanumeric_dollar]; exact Bool.false_ne_true)
  · obtain ⟨d, ds, hupper, hd⟩ := upper_of_foreign hge
    exact ⟨d, ds, hupper, isUpper_of_isCapitalOrForeign hd⟩

/-- Words joined in capitals start an identifier only with a capital letter. -/
theorem isUpper_of_pascalCase {raw : String} {first : Char} {rest : List Char}
    (h : (pascalCase raw).toList = first :: rest) (hstart : isIdentifierStart first = true) :
    first.isUpper = true := by
  rw [pascalCase] at h
  cases hwords : words raw with
  | nil =>
    rw [hwords] at h
    cases h
  | cons w ws =>
    have hw : IsWord w.toList := isWord_of_words (by rw [hwords]; exact List.mem_cons_self)
    obtain ⟨hne, halpha⟩ := hw
    obtain ⟨c, cs, hcs⟩ := List.exists_cons_of_ne_nil hne
    rw [hcs] at halpha
    obtain ⟨d, ds, hupper, hd⟩ := upper_eq_cons (halpha c List.mem_cons_self)
    have hcapital : (capitalize w).toList = d :: (ds ++ cs) := by
      rw [capitalize, hcs, String.toList_ofList, hupper, List.cons_append]
    rw [hwords, List.map_cons, String.join_cons, String.toList_append, hcapital] at h
    cases h
    exact hd hstart

/-- **The name of a type can be declared**, whatever text it is made from. -/
theorem isDeclaredName_typeName (raw : String) : IsDeclaredName (typeName raw) := by
  rw [typeName]
  split
  · exact ⟨'A', "nonymous".toList, by decide, by decide, List.all_eq_true.1 (by decide)⟩
  · split
    · rename_i h
      rw [isIdentifier, Bool.and_eq_true] at h
      cases hname : (pascalCase raw).toList with
      | nil =>
        rw [hname] at h
        cases h.1
      | cons first rest =>
        rw [hname, isIdentifierShaped, Bool.and_eq_true, List.all_eq_true] at h
        exact ⟨first, rest, hname, isUpper_of_pascalCase hname h.1.1, h.1.2⟩
    · refine ⟨'T', (plainPart (pascalCase raw)).toList, by rw [String.toList_append]; rfl,
        by decide, fun c hc => ?_⟩
      rw [plainPart, String.toList_ofList] at hc
      have hplain := List.of_mem_filter hc
      rw [isIdentifierPart, Bool.or_eq_true]
      exact .inl hplain

/-! ## Free names -/

theorem toString_inj {n m : Nat} (h : toString n = toString m) : n = m := by
  have hdigits := congrArg String.toList h
  rw [Nat.toString_eq_repr, Nat.toString_eq_repr, Nat.toList_repr, Nat.toList_repr] at hdigits
  have hvalue := congrArg (Nat.ofDigitChars 10 · 0) hdigits
  simpa using hvalue

variable {taken : List String} {candidate : String}

/-- If the search ends at a name that is taken, it has met taken names only. -/
theorem mem_of_numberedName_mem {steps : Nat} :
    ∀ {n : Nat}, numberedName taken.contains candidate n steps ∈ taken →
      ∀ i ≤ steps, candidate ++ toString (n + i) ∈ taken := by
  induction steps with
  | zero =>
    intro n h i hi
    rw [Nat.le_zero.1 hi]
    exact h
  | succ steps ih =>
    intro n h i hi
    rw [numberedName] at h
    split at h
    · rename_i hn
      cases i with
      | zero => exact List.contains_iff_mem.1 hn
      | succ i =>
        have := ih h i (Nat.le_of_succ_le_succ hi)
        rwa [Nat.add_assoc, Nat.add_comm 1] at this
    · rename_i hn
      exact absurd (List.contains_iff_mem.2 h) hn

theorem exists_numberedName (taken : String → Bool) (candidate : String) (steps : Nat) :
    ∀ n : Nat, ∃ k : Nat, numberedName taken candidate n steps = candidate ++ toString k := by
  induction steps with
  | zero => exact fun n => ⟨n, rfl⟩
  | succ steps ih =>
    intro n
    rw [numberedName]
    split
    · exact ih (n + 1)
    · exact ⟨n, rfl⟩

/-- A free name is free: of one more names than are taken, one is. -/
theorem freeName_not_mem (taken : List String) (candidate : String) :
    freeName taken candidate ∉ taken := by
  rw [freeName]
  split
  · intro hmem
    let numbered := (List.range (taken.length + 1)).map fun i => candidate ++ toString (2 + i)
    have hnodup : numbered.Nodup := by
      refine List.Nodup.map (fun i j hij => ?_) List.nodup_range
      have := toString_inj (String.append_right_inj candidate |>.1 hij)
      omega
    have hsubset : numbered ⊆ taken := by
      intro name hname
      obtain ⟨i, hi, rfl⟩ := List.mem_map.1 hname
      exact mem_of_numberedName_mem hmem i (Nat.le_of_lt_succ (List.mem_range.1 hi))
    have hlength := List.Nodup.length_le_of_subset hnodup hsubset
    simp only [numbered, List.length_map, List.length_range] at hlength
    omega
  · rename_i h
    exact fun hmem => h (List.contains_iff_mem.2 hmem)

/-- No node has a name that is made for a new one. -/
theorem lookup_uniqueName (g : TypeGraph) (candidate : String) :
    g.lookup (g.uniqueName candidate) = none :=
  Dict.get?_eq_none_of_not_mem_keys (freeName_not_mem _ _)

theorem exists_freeName (taken : List String) (candidate : String) :
    freeName taken candidate = candidate ∨
      ∃ n : Nat, freeName taken candidate = candidate ++ toString n := by
  rw [freeName]
  split
  · exact .inr (exists_numberedName _ _ _ _)
  · exact .inl rfl

theorem isDigit_of_mem_toString (n : Nat) : ∀ c ∈ (toString n).toList, c.isDigit = true := by
  intro c hc
  rw [Nat.toString_eq_repr, Nat.toList_repr] at hc
  exact Nat.isDigit_of_mem_toDigits (by decide) (by decide) hc

theorem isIdentifierPart_of_mem_toString (n : Nat) :
    ∀ c ∈ (toString n).toList, isIdentifierPart c = true := by
  intro c hc
  simp [isIdentifierPart, Char.isAlphanum, isDigit_of_mem_toString n c hc]

/-- A number behind a name leaves it a name. -/
theorem isDeclaredName_freeName (taken : List String) (h : IsDeclaredName candidate) :
    IsDeclaredName (freeName taken candidate) := by
  rcases exists_freeName taken candidate with heq | ⟨n, heq⟩
  · rwa [heq]
  · rw [heq]
    exact h.append (isIdentifierPart_of_mem_toString n)

/-- The last character of the text is a digit. -/
def EndsInDigit (text : String) : Prop := ∃ c ∈ text.toList.getLast?, c.isDigit = true

instance (text : String) : Decidable (EndsInDigit text) :=
  decidable_of_iff (text.toList.getLast?.any Char.isDigit = true) (Option.any_eq_true ..)

theorem endsInDigit_append_toString (text : String) (n : Nat) :
    EndsInDigit (text ++ toString n) := by
  have hne : (toString n).toList ≠ [] := by
    rw [Nat.toString_eq_repr, Nat.toList_repr]
    exact Nat.toDigits_ne_nil
  refine ⟨(toString n).toList.getLast hne, ?_, isDigit_of_mem_toString n _ (List.getLast_mem hne)⟩
  rw [String.toList_append, List.getLast?_append, List.getLast?_eq_some_getLast hne]
  rfl

/-- A free name without a number is the candidate. -/
theorem candidate_eq_of_freeName (h : ¬EndsInDigit (freeName taken candidate)) :
    candidate = freeName taken candidate := by
  rcases exists_freeName taken candidate with heq | ⟨n, heq⟩
  · exact heq.symm
  · rw [heq] at h
    exact absurd (endsInDigit_append_toString candidate n) h

theorem freeName_of_not_mem (h : candidate ∉ taken) : freeName taken candidate = candidate := by
  rw [freeName, if_neg]
  rwa [List.contains_iff_mem]

/-! ## Identifiers -/

theorem isIdentifier_iff {name : String} :
    isIdentifier name = true ↔ isIdentifierShaped name.toList = true ∧ name ∉ reservedWords := by
  rw [isIdentifier, Bool.and_eq_true, Bool.not_eq_true', ← Bool.not_eq_true, List.contains_iff_mem]

theorem isIdentifierPart_of_isIdentifier {name : String} (h : isIdentifier name = true) :
    ∀ c ∈ name.toList, isIdentifierPart c = true := by
  obtain ⟨hshaped, -⟩ := isIdentifier_iff.1 h
  cases hname : name.toList with
  | nil => exact List.forall_mem_nil _
  | cons first rest =>
    rw [hname, isIdentifierShaped, Bool.and_eq_true, List.all_eq_true] at hshaped
    refine List.forall_mem_cons.2 ⟨?_, hshaped.2⟩
    have hstart := hshaped.1
    simp only [isIdentifierStart, isIdentifierPart, Char.isAlphanum, Bool.or_eq_true] at hstart ⊢
    exact hstart.imp_left (Or.imp_left .inl)

theorem ascii_of_isIdentifier {name : String} (h : isIdentifier name = true) :
    ∀ c ∈ name.toList, c.toNat < 128 :=
  fun c hc => lt_of_isIdentifierPart (isIdentifierPart_of_isIdentifier h c hc)

/-- A name that starts with a capital is none of the words whose first characters are no
capitals. -/
theorem not_mem_of_isDeclaredName {name : String} {wordList : List String} (h : IsDeclaredName name)
    (hwords : ∀ word ∈ wordList, (word.toList.head?.any Char.isUpper) = false) :
    name ∉ wordList := by
  intro hmem
  obtain ⟨first, rest, hname, hupper, -⟩ := h
  have hfirst := hwords name hmem
  rw [hname] at hfirst
  exact Bool.false_ne_true (hfirst.symm.trans hupper)

/-- A name that can be declared is an identifier, and no reserved word. -/
theorem isIdentifier_of_isDeclaredName {name : String} (h : IsDeclaredName name) :
    isIdentifier name = true :=
  isIdentifier_iff.2 ⟨h.isTypeName.shaped, not_mem_of_isDeclaredName h (by decide)⟩

/-- A name that can be declared consists of ASCII characters. -/
theorem ascii_of_isDeclaredName {name : String} (h : IsDeclaredName name) :
    ∀ c ∈ name.toList, c.toNat < 128 :=
  ascii_of_isIdentifier (isIdentifier_of_isDeclaredName h)

/-- The name of a value is an identifier, whatever text it is made from. -/
theorem isIdentifier_valueName (raw : String) : isIdentifier (valueName raw) = true := by
  rw [valueName]
  split
  · assumption
  · dsimp only
    split
    · assumption
    · refine isIdentifier_iff.2 ⟨?_, fun hmem => ?_⟩
      · rw [String.toList_append]
        change isIdentifierShaped ('_' :: (plainPart (camelCase raw)).toList) = true
        rw [isIdentifierShaped, Bool.and_eq_true, List.all_eq_true]
        refine ⟨rfl, fun c hc => ?_⟩
        rw [plainPart, String.toList_ofList] at hc
        have hplain := List.of_mem_filter hc
        rw [isIdentifierPart, Bool.or_eq_true]
        exact .inl hplain
      · -- No reserved word starts with an underscore.
        have hstarts : ∀ word ∈ reservedWords, word.toList.head? ≠ some '_' := by decide
        refine hstarts _ hmem ?_
        rw [String.toList_append]
        rfl

/-- A number behind an identifier leaves it one. -/
theorem isIdentifier_freeName (taken : List String) (h : isIdentifier candidate = true) :
    isIdentifier (freeName taken candidate) = true := by
  rcases exists_freeName taken candidate with heq | ⟨n, heq⟩
  · rwa [heq]
  · rw [heq, isIdentifier_iff]
    obtain ⟨hshaped, -⟩ := isIdentifier_iff.1 h
    refine ⟨?_, fun hmem => ?_⟩
    · rw [String.toList_append]
      cases hcandidate : candidate.toList with
      | nil =>
        rw [hcandidate] at hshaped
        cases hshaped
      | cons first rest =>
        rw [hcandidate, isIdentifierShaped, Bool.and_eq_true, List.all_eq_true] at hshaped
        rw [List.cons_append, isIdentifierShaped, Bool.and_eq_true, List.all_eq_true]
        exact ⟨hshaped.1, fun c hc => (List.mem_append.1 hc).elim (hshaped.2 c)
          (isIdentifierPart_of_mem_toString n c)⟩
    · -- No reserved word ends in a digit.
      have hends : ∀ word ∈ reservedWords, ¬EndsInDigit word := by decide
      exact hends _ hmem (endsInDigit_append_toString candidate n)

/-! ## Names in declarations -/

/-- The words that stand for types of their own in a declaration. -/
def typeWords : List String :=
  ["string", "number", "boolean", "null", "true", "false", "unknown", "any", "undefined", "void",
    "never", "object"]

/-- The words that a declaration starts with. -/
def statementWords : List String := ["interface", "type", "export"]

/-- All other words are read as names of types. -/
theorem wordType_eq_name_iff (word : String) : wordType word = .name word ↔ word ∉ typeWords := by
  rw [wordType.eq_def]
  split
  all_goals simp_all [typeWords]

/-- A statement that starts with another word is skipped. -/
theorem readStatement_of_not_mem {word : String} (h : word ∉ statementWords) (tokens : Tokens) :
    readStatement (.ident word :: tokens) =
      .ok (none, skipStatement 0 (.ident word :: tokens)) := by
  simp only [statementWords, List.mem_cons, List.not_mem_nil, or_false, not_or] at h
  obtain ⟨hinterface, htype, hexport⟩ := h
  simp [readStatement, hinterface, htype, hexport, pure, Except.pure]

/-- A name that serves for a type, in code and in declarations. -/
structure ServesType (name : String) : Prop where
  /-- It is an identifier. -/
  identifier : isIdentifier name = true
  /-- It consists of ASCII characters. -/
  ascii : ∀ c ∈ name.toList, c.toNat < 128
  /-- It starts with a capital letter. -/
  capital : ∃ first rest, name.toList = first :: rest ∧ first.isUpper = true
  /-- It is no word that means something else. -/
  free : name ∉ reservedWords ++ typeWords ++ statementWords
  /-- Where a type is asked for, it is read as a name. -/
  named : wordType name = .name name
  /-- Where a statement is asked for, it starts none that is read. -/
  skipped : ∀ tokens, readStatement (.ident name :: tokens) =
    .ok (none, skipStatement 0 (.ident name :: tokens))

/-- A name that serves for a value in code. -/
structure ServesValue (name : String) : Prop where
  /-- It is an identifier. -/
  identifier : isIdentifier name = true
  /-- It consists of ASCII characters. -/
  ascii : ∀ c ∈ name.toList, c.toNat < 128
  /-- It is no reserved word. -/
  free : name ∉ reservedWords

/-- **Any text makes names.**  The name of a type starts with a capital letter, so that it is
neither a reserved word nor a word that means something in declarations; the name of a value is the
text itself if this can be one. -/
theorem names_of_any_text (raw : String) :
    ServesType (typeName raw) ∧ ServesValue (valueName raw) ∧
      (isIdentifier raw = true → valueName raw = raw) := by
  have hdeclared := isDeclaredName_typeName raw
  have hvalue := isIdentifier_valueName raw
  refine ⟨?_, ⟨hvalue, ascii_of_isIdentifier hvalue, (isIdentifier_iff.1 hvalue).2⟩,
    fun hraw => if_pos hraw⟩
  obtain ⟨first, rest, hname, hupper, -⟩ := isDeclaredName_typeName raw
  have htype : typeName raw ∉ typeWords := not_mem_of_isDeclaredName hdeclared (by decide)
  have hstatement : typeName raw ∉ statementWords := not_mem_of_isDeclaredName hdeclared (by decide)
  exact {
    identifier := isIdentifier_of_isDeclaredName hdeclared
    ascii := ascii_of_isDeclaredName hdeclared
    capital := ⟨first, rest, hname, hupper⟩
    free := not_mem_of_isDeclaredName hdeclared (by decide)
    named := (wordType_eq_name_iff _).2 htype
    skipped := readStatement_of_not_mem hstatement }

theorem names_of_any_text_getMovies :
    isIdentifier "getMovies" = true ∧ valueName "getMovies" = "getMovies" := by
  have hraw : isIdentifier "getMovies" = true := by decide
  exact ⟨hraw, (names_of_any_text "getMovies").2.2 hraw⟩

end TypedClient.Naming
