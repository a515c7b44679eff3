import Mathlib.Data.List.Basic
import TypedClient.Json.Quoted
import TypedClient.Text.Split

/-!
# Parts and lines of texts

Cutting a text at a character gives the parts between its occurrences: none of them has the
character in it (`notMem_of_mem_splitOn`), and what stands before the first occurrence goes to the
first part (`splitOn_append`).  So no line of a text has a line feed in it
(`newline_notMem_of_mem_lines`).  What has been joined is cut into the same parts again
(`splitOn_intercalate_of_notMem`).

`OneLine` says that a text has no line feed.  Texts that are put together from such texts have none
either, and neither have numbers and string literals, whatever the text of the literal is.
-/

set_option autoImplicit false

namespace TypedClient.Text

/-! ## Parts -/

variable {rest : List Char}

/-- There is always a first part. -/
theorem exists_splitOn (sep : Char) (text : List Char) :
    ∃ first others, splitOn sep text = first :: others := by
  cases text with
  | nil => exact ⟨[], [], rfl⟩
  | cons c rest =>
    rw [splitOn]
    split
    · exact ⟨_, _, rfl⟩
    · split
      · exact ⟨_, _, rfl⟩
      · exact ⟨_, _, rfl⟩

theorem splitOn_cons {sep c : Char} (hc : c ≠ sep) {first : List Char} {others : List (List Char)}
    (h : splitOn sep rest = first :: others) :
    splitOn sep (c :: rest) = (c :: first) :: others := by
  rw [splitOn, if_neg hc, h]

theorem splitOn_append {sep : Char} {text : List Char} (htext : sep ∉ text)
    {first : List Char} {others : List (List Char)} (h : splitOn sep rest = first :: others) :
    splitOn sep (text ++ rest) = (text ++ first) :: others := by
  induction text with
  | nil => exact h
  | cons c text ih =>
    obtain ⟨hc, htext⟩ := List.ne_and_not_mem_of_not_mem_cons htext
    exact splitOn_cons hc.symm (ih htext)

/-- What a separator stands between is cut on its own. -/
theorem splitOn_separated (sep : Char) (text rest : List Char) :
    splitOn sep (text ++ sep :: rest) = splitOn sep text ++ splitOn sep rest := by
  fun_induction splitOn sep text with
  | case1 => rw [List.nil_append, splitOn, if_pos rfl]; rfl
  | case2 text ih => rw [List.cons_append, splitOn, if_pos rfl, ih]; rfl
  | case3 c text hc hnil =>
    obtain ⟨first, others, hparts⟩ := exists_splitOn sep text
    cases hnil.symm.trans hparts
  | case4 c text hc first parts hparts ih =>
    rw [hparts, List.cons_append] at ih
    exact splitOn_cons hc ih

theorem splitOn_of_notMem {sep : Char} {text : List Char} (h : sep ∉ text) :
    splitOn sep text = [text] := by
  have hparts : splitOn sep (text ++ []) = [text ++ []] := splitOn_append h rfl
  rwa [List.append_nil] at hparts

/-- The parts are cut at all occurrences. -/
theorem notMem_of_mem_splitOn (sep : Char) (cs : List Char) :
    ∀ part ∈ splitOn sep cs, sep ∉ part := by
  fun_induction splitOn sep cs with
  | case1 => simp
  | case2 rest ih => simpa using ih
  | case3 c rest hc hnil ih => simpa using Ne.symm hc
  | case4 c rest hc first parts hparts ih =>
    rw [hparts] at ih
    obtain ⟨hfirst, hothers⟩ := List.forall_mem_cons.1 ih
    exact List.forall_mem_cons.2 ⟨by simp [Ne.symm hc, hfirst], hothers⟩

/-- What has been joined is cut where the parts are. -/
theorem splitOn_intercalate_singleton (sep : Char) {parts : List (List Char)}
    (hparts : parts ≠ []) :
    splitOn sep ([sep].intercalate parts) = parts.flatMap (splitOn sep) := by
  induction parts with
  | nil => exact absurd rfl hparts
  | cons first rest ih =>
    cases rest with
    | nil => simp
    | cons second rest =>
      rw [List.intercalate_cons_cons, List.append_assoc, List.singleton_append, splitOn_separated,
        ih (List.cons_ne_nil _ _)]
      rfl

/-- Cutting undoes joining. -/
theorem splitOn_intercalate_of_notMem {sep : Char} {parts : List (List Char)} (hparts : parts ≠ [])
    (h : ∀ part ∈ parts, sep ∉ part) : splitOn sep ([sep].intercalate parts) = parts := by
  rw [splitOn_intercalate_singleton sep hparts,
    List.flatMap_congr fun part hpart => splitOn_of_notMem (h part hpart), List.flatMap_singleton']

/-- Joining adds the separators only. -/
theorem forall_mem_intercalate {P : Char → Prop} {sep : List Char} {parts : List (List Char)}
    (hsep : ∀ c ∈ sep, P c) (hparts : ∀ part ∈ parts, ∀ c ∈ part, P c) :
    ∀ c ∈ sep.intercalate parts, P c := by
  induction parts with
  | nil => simp
  | cons first rest ih =>
    obtain ⟨hfirst, hrest⟩ := List.forall_mem_cons.1 hparts
    cases rest with
    | nil => simpa using hfirst
    | cons second rest =>
      rw [List.intercalate_cons_cons]
      intro c hc
      rcases List.mem_append.1 hc with hc | hc
      · exact (List.mem_append.1 hc).elim (hfirst c) (hsep c)
      · exact ih hrest c hc

theorem cutAt?_append {sep : Char} {before : List Char} (h : sep ∉ before) (after : List Char) :
    cutAt? sep (before ++ sep :: after) = some (before, after) := by
  induction before with
  | nil => simp [cutAt?]
  | cons c rest ih =>
    obtain ⟨hc, hrest⟩ := List.ne_and_not_mem_of_not_mem_cons h
    rw [List.cons_append, cutAt?, if_neg hc.symm, ih hrest]
    rfl

/-- A text is cut at the first separator. -/
theorem cutAt?_eq_some_iff {sep : Char} {text before after : List Char} :
    cutAt? sep text = some (before, after) ↔ sep ∉ before ∧ text = before ++ sep :: after := by
  refine ⟨fun h => ?_, fun ⟨hbefore, htext⟩ => htext ▸ cutAt?_append hbefore after⟩
  induction text generalizing before with
  | nil => cases h
  | cons c rest ih =>
    rw [cutAt?] at h
    split at h
    · rename_i hc
      cases h
      exact ⟨by simp, by rw [hc]; rfl⟩
    · rename_i hc
      obtain ⟨⟨first, last⟩, hrest, heq⟩ := Option.map_eq_some_iff.1 h
      cases heq
      obtain ⟨hfirst, rfl⟩ := ih hrest
      exact ⟨by simp [Ne.symm hc, hfirst], rfl⟩

theorem beforeEnd?_eq_some_iff {text ending before : List Char} :
    beforeEnd? ending text = some before ↔ text = before ++ ending := by
  rw [beforeEnd?]
  split
  · rename_i hsuffix
    obtain ⟨start, rfl⟩ := List.isSuffixOf_iff_suffix.1 hsuffix
    simp
  · rename_i hsuffix
    refine iff_of_false (by simp) ?_
    rintro rfl
    exact hsuffix (List.isSuffixOf_iff_suffix.2 (List.suffix_append before ending))

theorem afterStart?_eq_some_iff {text start after : List Char} :
    afterStart? start text = some after ↔ text = start ++ after := by
  rw [afterStart?, Option.ite_none_right_eq_some, List.isPrefixOf_iff_prefix, Option.some.injEq]
  constructor
  · rintro ⟨⟨rest, rfl⟩, rfl⟩
    rw [List.drop_left]
  · rintro rfl
    exact ⟨List.prefix_append .., List.drop_left ..⟩

theorem afterStart?_append (start rest : List Char) :
    afterStart? start (start ++ rest) = some rest :=
  afterStart?_eq_some_iff.2 rfl

/-- The first of two characters is replaced with what follows it, or stays. -/
theorem replacePair_cons (x y c : Char) (new cs : List Char) : replacePair x y new (c :: cs) =
    if c = x ∧ cs.head? = some y then new ++ replacePair x y new cs.tail
    else c :: replacePair x y new cs := by
  cases cs with
  | nil => rw [if_neg (by simp), replacePair, replacePair] <;> simp
  | cons d cs => simp [replacePair]

theorem withoutReturn_isPrefix (line : List Char) : withoutReturn line <+: line := by
  rw [withoutReturn]
  split
  · exact List.dropLast_prefix line
  · exact List.prefix_rfl

/-- No line has a line feed in it. -/
theorem newline_notMem_of_mem_lines {cs line : List Char} (h : line ∈ lines cs) : '\n' ∉ line := by
  have hparts : ∀ part ∈ splitOn '\n' cs, '\n' ∉ part := notMem_of_mem_splitOn '\n' cs
  have hended : ∀ line ∈ (splitOn '\n' cs).dropLast.map withoutReturn, '\n' ∉ line :=
    List.forall_mem_map.2 fun part hpart hmem =>
      hparts part ((List.dropLast_sublist _).subset hpart)
        ((withoutReturn_isPrefix part).subset hmem)
  rw [lines] at h
  split at h
  · exact hended line h
  · exact hended line h
  · rename_i last _ hlast
    rcases List.mem_append.1 h with h | h
    · exact hended line h
    · rw [List.mem_singleton.1 h]
      exact hparts last (List.mem_of_getLast? hlast)

/-! ## Texts on one line -/

/-- The text has no line feed. -/
def OneLine (s : String) : Prop := '\n' ∉ s.toList

instance (s : String) : Decidable (OneLine s) := inferInstanceAs (Decidable ('\n' ∉ s.toList))

@[simp] theorem oneLine_append {s t : String} : OneLine (s ++ t) ↔ OneLine s ∧ OneLine t := by
  simp [OneLine, not_or]

@[simp] theorem oneLine_ofList {cs : List Char} : OneLine (String.ofList cs) ↔ '\n' ∉ cs := by
  rw [OneLine, String.toList_ofList]

theorem newline_notMem_intercalate {sep : List Char} {parts : List (List Char)} (hsep : '\n' ∉ sep)
    (hparts : ∀ p ∈ parts, '\n' ∉ p) : '\n' ∉ sep.intercalate parts := fun hmem =>
  forall_mem_intercalate (P := (· ≠ '\n')) (fun _ hc heq => hsep (heq ▸ hc))
    (fun p hp _ hc heq => hparts p hp (heq ▸ hc)) '\n' hmem rfl

theorem oneLine_intercalate {sep : String} {parts : List String} (hsep : OneLine sep)
    (hparts : ∀ p ∈ parts, OneLine p) : OneLine (sep.intercalate parts) := by
  rw [OneLine, String.toList_intercalate]
  exact newline_notMem_intercalate hsep (List.forall_mem_map.2 hparts)

theorem newline_notMem_toDigits {base : Nat} (hbase : 1 < base) (n : Nat) :
    '\n' ∉ Nat.toDigits base n := by
  have hdigit (d : Nat) : '\n' ≠ d.digitChar := (Nat.digitChar_ne '\n' (by decide)).symm
  induction n using Nat.strongRecOn with
  | _ n ih =>
    rw [Nat.toDigits_eq_if hbase]
    split
    · simp [hdigit]
    · have hless : n / base < n := Nat.div_lt_self (by omega) hbase
      simp [hdigit, ih _ hless]

theorem oneLine_toString (n : Nat) : OneLine (toString n) := by
  rw [OneLine, Nat.toString_eq_repr, Nat.toList_repr]
  exact newline_notMem_toDigits (by decide) n

theorem newline_notMem_of_mem_splitOn {sep : Char} {cs : List Char} (h : '\n' ∉ cs) :
    ∀ part ∈ splitOn sep cs, '\n' ∉ part := by
  fun_induction splitOn sep cs with
  | case1 => simp
  | case2 rest ih => simpa using ih (List.not_mem_of_not_mem_cons h)
  | case3 c rest hc hnil ih => simpa using (List.ne_and_not_mem_of_not_mem_cons h).1
  | case4 c rest hc first parts hparts ih =>
    obtain ⟨hne, hrest⟩ := List.ne_and_not_mem_of_not_mem_cons h
    rw [hparts] at ih
    obtain ⟨hfirst, hothers⟩ := List.forall_mem_cons.1 (ih hrest)
    exact List.forall_mem_cons.2 ⟨by simp [hne, hfirst], hothers⟩

/-- What stands for a line feed in a string literal is written on one line. -/
theorem newline_notMem_escape (c : Char) : '\n' ∉ Json.escape c := by
  rw [Json.escape]
  repeat' split
  any_goals decide
  · rename_i hcontrol
    rw [List.mem_singleton]
    rintro rfl
    exact absurd hcontrol (by decide)
  · simp [Json.hexText, newline_notMem_toDigits]

/-- A string literal is written on one line, whatever its text is. -/
theorem oneLine_quote (s : String) : OneLine (Json.quote s) := by
  have hchars : '\n' ∉ Json.quoteChars s.toList := by
    intro hmem
    obtain ⟨c, -, hc⟩ := List.mem_flatMap.1 hmem
    exact newline_notMem_escape c hc
  rw [Json.quote, oneLine_ofList]
  simp [hchars]

end TypedClient.Text
