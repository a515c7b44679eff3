import TypedClient.Declaration.Syntax
import TypedClient.Proofs.Declaration.Lexing
import TypedClient.Proofs.Text.Lines

/-!
# Comments end where they are meant to

Whatever a schema says in words, a doc comment of it is left out as a whole when the text is cut
into tokens: the words never close the comment early (`lexes_docComment`).

* `NoClose` says that a text does not close a comment;
* `noClose_inComment` says so for the words as they are written, and parts of them inherit it;
* `docComment_eq` puts a doc comment together: what stands between its marks is an `IsCommentBody`.
-/

set_option autoImplicit false

namespace TypedClient.Declaration

open TypedClient.Text

/-- No asterisk of the text is followed by a slash. -/
def NoClose (cs : List Char) : Prop := ¬['*', '/'] <:+: cs

instance (cs : List Char) : Decidable (NoClose cs) :=
  inferInstanceAs (Decidable ¬['*', '/'] <:+: cs)

variable {a b cs : List Char} {c : Char}

theorem noClose_nil : NoClose [] := by
  rw [NoClose, List.infix_nil]
  exact List.cons_ne_nil _ _

theorem noClose_cons : NoClose (c :: cs) ↔ ¬(c = '*' ∧ cs.head? = some '/') ∧ NoClose cs := by
  have hhead : ['/'] <+: cs ↔ cs.head? = some '/' := by
    cases cs with
    | nil => simp
    | cons d cs => simp [List.cons_prefix_cons, eq_comm]
  rw [NoClose, List.infix_cons_iff, List.cons_prefix_cons, hhead, not_or, NoClose, eq_comm]

theorem NoClose.of_isInfix (h : NoClose b) (hab : a <:+: b) : NoClose a :=
  fun ha => h (ha.trans hab)

/-- Two texts that do not close a comment do not close it where they meet either, unless the one
ends in an asterisk and the other starts with a slash. -/
theorem NoClose.append (ha : NoClose a) (hb : NoClose b)
    (hmeet : a.getLast? ≠ some '*' ∨ b.head? ≠ some '/') : NoClose (a ++ b) := by
  induction a with
  | nil => exact hb
  | cons c a ih =>
    obtain ⟨hc, ha⟩ := noClose_cons.1 ha
    cases a with
    | nil =>
      refine noClose_cons.2 ⟨fun ⟨hstar, hslash⟩ => ?_, hb⟩
      rcases hmeet with h | h
      · exact h (by rw [hstar]; rfl)
      · exact h hslash
    | cons d a => exact noClose_cons.2 ⟨hc, ih ha (by simpa using hmeet)⟩

/-- A text without asterisks does not close a comment. -/
theorem noClose_of_notMem (h : '*' ∉ cs) : NoClose cs := fun hinside => h (hinside.mem (by simp))

theorem closes_of_noClose (h : NoClose cs) : Closes (cs ++ ['*', '/']) := by
  intro rest
  rw [List.append_assoc]
  induction cs with
  | nil => rw [List.nil_append, List.cons_append, List.singleton_append, afterComment?]; rfl
  | cons c cs ih =>
    obtain ⟨hc, hcs⟩ := noClose_cons.1 h
    have hrest := ih hcs
    cases cs with
    | nil =>
      rw [List.singleton_append, List.cons_append, afterComment?, if_neg (by simp)]
      exact hrest
    | cons d cs =>
      rw [List.cons_append, List.cons_append, afterComment?, if_neg (by simpa using hc)]
      exact hrest

/-! ## Words in a comment -/

theorem head?_replacePair {new : List Char} (x y : Char) (hnew : new.head? = some x) :
    (replacePair x y new cs).head? = cs.head? := by
  rw [replacePair.eq_def]
  split
  · split
    · rename_i h
      rw [List.head?_append, hnew, h.1]
      rfl
    · rfl
  · rfl

/-- The words of a comment do not close it. -/
theorem noClose_inComment (text : List Char) : NoClose (inComment text) := by
  rw [inComment]
  fun_induction replacePair '*' '/' ['*', '\\', '/'] text with
  | case1 c d rest h ih => exact .append (by decide) ih (.inl (by decide))
  | case2 c d rest h ih =>
    refine noClose_cons.2 ⟨fun ⟨hstar, hslash⟩ => h ⟨hstar, ?_⟩, ih⟩
    rw [head?_replacePair _ _ rfl] at hslash
    exact Option.some.inj hslash
  | case3 cs h =>
    match cs, h with
    | [], _ => exact noClose_nil
    | [c], _ => exact noClose_cons.2 ⟨by simp, noClose_nil⟩
    | c :: d :: rest, h => exact absurd rfl (h c d rest)

theorem infix_of_mem_splitOn {sep : Char} {part : List Char} (h : part ∈ splitOn sep cs) :
    part <:+: cs := by
  suffices hall : (∀ first ∈ (splitOn sep cs).head?, first <+: cs) ∧
      ∀ part ∈ (splitOn sep cs).tail, part <:+: cs by
    cases hparts : splitOn sep cs with
    | nil => simp [hparts] at h
    | cons first parts =>
      rw [hparts] at h hall
      rcases List.mem_cons.1 h with rfl | h
      · exact (hall.1 part rfl).isInfix
      · exact hall.2 part h
  clear h
  fun_induction splitOn sep cs with
  | case1 => simp
  | case2 rest ih =>
    refine ⟨by simp, fun part hpart => ?_⟩
    rw [List.tail_cons] at hpart
    cases hparts : splitOn sep rest with
    | nil => simp [hparts] at hpart
    | cons first parts =>
      rw [hparts] at ih hpart
      rcases List.mem_cons.1 hpart with rfl | hpart
      · exact (ih.1 part rfl).isInfix.trans (List.suffix_cons _ _).isInfix
      · exact (ih.2 part hpart).trans (List.suffix_cons _ _).isInfix
  | case3 c rest hc hnil ih => simp
  | case4 c rest hc first parts hparts ih =>
    rw [hparts] at ih
    refine ⟨fun x hx => ?_, fun part hpart => ?_⟩
    · obtain rfl : c :: first = x := by simpa using hx
      exact List.cons_prefix_cons.2 ⟨rfl, ih.1 first rfl⟩
    · exact (ih.2 part hpart).trans (List.suffix_cons _ _).isInfix

theorem infix_of_mem_lines {line : List Char} (h : line ∈ lines cs) : line <:+: cs := by
  have hended : ∀ line ∈ (splitOn '\n' cs).dropLast.map withoutReturn, line <:+: cs := by
    intro line hline
    obtain ⟨part, hpart, rfl⟩ := List.mem_map.1 hline
    refine List.IsInfix.trans ?_ (infix_of_mem_splitOn ((List.dropLast_prefix _).mem hpart))
    exact (withoutReturn_isPrefix part).isInfix
  rw [lines] at h
  split at h
  · exact hended line h
  · exact hended line h
  · rename_i last _ hlast
    rcases List.mem_append.1 h with h | h
    · exact hended line h
    · obtain rfl := List.mem_singleton.1 h
      exact infix_of_mem_splitOn (List.mem_of_getLast? hlast)

theorem trimEnd_isPrefix (cs : List Char) : trimEnd cs <+: cs := by
  have h := List.reverse_prefix.2 (List.dropWhile_suffix (l := cs.reverse) isBlank)
  rwa [List.reverse_reverse] at h

/-! ## Lines -/

/-- The characters of lines, each ended. -/
def lineChars (lines : List String) : List Char := lines.flatMap fun line => line.toList ++ ['\n']

theorem lineChars_append (as bs : List String) :
    lineChars (as ++ bs) = lineChars as ++ lineChars bs := List.flatMap_append

theorem noClose_lineChars {lines : List String} (h : ∀ line ∈ lines, NoClose line.toList) :
    NoClose (lineChars lines) := by
  induction lines with
  | nil => exact noClose_nil
  | cons line lines ih =>
    have hline : NoClose (line.toList ++ ['\n']) :=
      .append (h line List.mem_cons_self) (by decide) (.inr (by decide))
    rw [lineChars, List.flatMap_cons]
    exact .append hline (ih fun l hl => h l (List.mem_cons_of_mem _ hl)) (.inl (by simp))

theorem lexes_blanks (h : ∀ c ∈ cs, isBlank c = true) : Lexes cs (some []) := by
  induction cs with
  | nil => exact lexes_nil
  | cons c cs ih =>
    exact (lexes_blank (h c List.mem_cons_self)).append
      (ih fun d hd => h d (List.mem_cons_of_mem _ hd))

/-- The lines of a doc comment start with a space or a slash, and they are lines. -/
theorem mem_docComment {text : Option String} {indent line : String}
    (h : line ∈ docComment text indent) : ∃ mark rest, mark ∈ [' ', '/'] ∧
      line.toList = indent.toList ++ mark :: rest ∧ '\n' ∉ rest := by
  rw [docComment] at h
  generalize trim (text.getD "").toList = words at h
  split at h
  · cases h
  have hwords {part : List Char} (hpart : part ∈ lines (inComment words)) : '\n' ∉ part :=
    newline_notMem_of_mem_lines hpart
  split at h
  · rename_i part hpart
    rw [List.mem_singleton.1 h]
    refine ⟨'/', "** ".toList ++ part ++ " */".toList, by decide, by simp, ?_⟩
    simp [hwords (hpart ▸ List.mem_singleton_self part)]
  · rcases List.mem_append.1 h with h | h
    · rcases List.mem_append.1 h with h | h
      · rw [List.mem_singleton.1 h]
        exact ⟨'/', "**".toList, by decide, by rw [String.toList_append]; rfl, by decide⟩
      · obtain ⟨part, hpart, rfl⟩ := List.mem_map.1 h
        split
        · exact ⟨' ', "*".toList, by decide, by rw [String.toList_append]; rfl, by decide⟩
        · refine ⟨' ', "* ".toList ++ trimEnd part, by decide, by simp, ?_⟩
          have hline := hwords hpart
          simpa using fun hmem => hline ((trimEnd_isPrefix part).subset hmem)
    · rw [List.mem_singleton.1 h]
      exact ⟨' ', "*/".toList, by decide, by rw [String.toList_append]; rfl, by decide⟩

theorem isBlank_star : isBlank '*' = false := (isBlank_of_lt (by decide)).trans rfl

theorem exists_trimEnd (h : trimEnd cs ≠ []) :
    ∃ w c, trimEnd cs = w ++ [c] ∧ isBlank c = false := by
  rw [trimEnd, ne_eq, List.reverse_eq_nil_iff] at h
  obtain ⟨c, w, hparts⟩ := List.exists_cons_of_ne_nil h
  have hstop := List.head?_dropWhile_not isBlank cs.reverse
  rw [hparts] at hstop
  exact ⟨w.reverse, c, by rw [trimEnd, hparts, List.reverse_cons], by simpa using hstop⟩

/-- The line is a line, and it ends in something else than white space. -/
def EndsVisibly (line : String) : Prop :=
  ∃ w c, line.toList = w ++ [c] ∧ '\n' ∉ w ∧ c ≠ '\n' ∧ isBlank c = false

/-- The text between the marks of a comment, which it does not close.  White space may stand at the
end of its last line only. -/
structure IsCommentBody (inner : List String) (last : List Char) : Prop where
  /-- No line but the last ends in white space. -/
  visible : ∀ line ∈ inner, EndsVisibly line
  /-- The last line is a line. -/
  oneLine : '\n' ∉ last
  /-- The text does not close the comment. -/
  noClose : NoClose (lineChars inner ++ last)

/-- A line inside a doc comment: an asterisk, with words behind it if there are any. -/
def innerLine (indent : String) (line : List Char) : String :=
  match trimEnd line with
  | [] => indent ++ " *"
  | words => indent ++ " * " ++ String.ofList words

/-- An indentation neither closes a comment nor ends a line. -/
structure IsIndent (indent : List Char) : Prop where
  /-- There is no asterisk. -/
  star : '*' ∉ indent
  /-- There is no end of a line. -/
  newline : '\n' ∉ indent
  /-- It does not start with a slash. -/
  head : (indent ++ [' ']).head? ≠ some '/'

theorem isIndent_of_spaces {indent : List Char} (h : ∀ c ∈ indent, c = ' ') : IsIndent indent := by
  refine ⟨fun hmem => absurd (h _ hmem) (by decide), fun hmem => absurd (h _ hmem) (by decide), ?_⟩
  cases indent with
  | nil => decide
  | cons c cs => simp [h c List.mem_cons_self]

theorem endsVisibly_innerLine {indent : String} (hindent : IsIndent indent.toList)
    {line : List Char} (hone : '\n' ∉ line) : EndsVisibly (innerLine indent line) := by
  have htrimmed : '\n' ∉ trimEnd line := fun hmem => hone ((trimEnd_isPrefix line).subset hmem)
  rw [innerLine]
  split
  · exact ⟨indent.toList ++ [' '], '*', by simp, by simp [hindent.newline], by decide, isBlank_star⟩
  · rename_i hne
    have hwords : trimEnd line ≠ [] := hne
    obtain ⟨w, c, hlast, hblank⟩ := exists_trimEnd hwords
    rw [hlast, List.mem_append, List.mem_singleton, not_or] at htrimmed
    exact ⟨indent.toList ++ [' ', '*', ' '] ++ w, c, by simp [hlast],
      by simp [hindent.newline, htrimmed.1], Ne.symm htrimmed.2, hblank⟩

theorem noClose_innerLine {indent : String} (hindent : IsIndent indent.toList) {line : List Char}
    (h : NoClose line) : NoClose (innerLine indent line).toList := by
  have htrimmed := h.of_isInfix (trimEnd_isPrefix line).isInfix
  rw [innerLine]
  split
  · rw [String.toList_append]
    exact .append (noClose_of_notMem hindent.star) (by decide) (.inr (by decide))
  · have hwords : (indent ++ " * " ++ String.ofList (trimEnd line)).toList =
        indent.toList ++ ([' ', '*', ' '] ++ trimEnd line) := by simp
    rw [hwords]
    exact .append (noClose_of_notMem hindent.star)
      (.append (by decide) htrimmed (.inl (by decide))) (.inr (by simp))

/-- **A doc comment is one comment**, whatever it says, or there is none. -/
theorem docComment_eq (text : Option String) {indent : String} (hindent : IsIndent indent.toList) :
    docComment text indent = [] ∨ ∃ inner last, IsCommentBody inner last ∧
      lineChars (docComment text indent) =
        indent.toList ++ '/' :: '*' :: (lineChars inner ++ last ++ ['*', '/']) ++ ['\n'] := by
  rw [docComment]
  generalize trim (text.getD "").toList = words
  split
  · exact .inl rfl
  have hwords {line : List Char} (h : line ∈ lines (inComment words)) : NoClose line :=
    (noClose_inComment words).of_isInfix (infix_of_mem_lines h)
  refine .inr ?_
  split
  · rename_i line hline
    have hmem : line ∈ lines (inComment words) := hline ▸ List.mem_singleton_self line
    have hbody : NoClose (['*', ' '] ++ line ++ [' ']) :=
      .append (.append (by decide) (hwords hmem) (.inl (by decide))) (by decide) (.inr (by decide))
    refine ⟨[], ['*', ' '] ++ line ++ [' '],
      ⟨List.forall_mem_nil _, ?_, hbody⟩, by simp [lineChars]⟩
    simp [newline_notMem_of_mem_lines hmem]
  · refine ⟨"*" :: (lines (inComment words)).map (innerLine indent), indent.toList ++ [' '],
      ⟨List.forall_mem_cons.2 ⟨⟨[], '*', rfl, List.not_mem_nil, by decide, isBlank_star⟩,
        List.forall_mem_map.2 fun line hline =>
          endsVisibly_innerLine hindent (newline_notMem_of_mem_lines hline)⟩, ?_, ?_⟩, ?_⟩
    · simp [hindent.newline]
    · refine .append (noClose_lineChars (List.forall_mem_cons.2 ⟨by decide,
        List.forall_mem_map.2 fun line hline => noClose_innerLine hindent (hwords hline)⟩))
        (.append (noClose_of_notMem hindent.star) (by decide) (.inr (by decide)))
        (.inr hindent.head)
    · simp only [lineChars, List.append_assoc, List.cons_append, List.nil_append,
        List.flatMap_append, List.flatMap_cons, List.flatMap_nil, String.toList_append]
      rfl

/-- **A doc comment is left out** when the text is cut into tokens. -/
theorem lexes_docComment (text : Option String) {indent : String}
    (hindent : ∀ c ∈ indent.toList, c = ' ') :
    Lexes (lineChars (docComment text indent)) (some []) := by
  have hblank : Lexes indent.toList (some []) :=
    lexes_blanks fun c hc => hindent c hc ▸ isBlank_space
  rcases docComment_eq text (isIndent_of_spaces hindent) with hnil | ⟨inner, last, hbody, hchars⟩
  · rw [hnil]
    exact lexes_nil
  · rw [hchars]
    exact (hblank.append (lexes_comment (closes_of_noClose hbody.noClose))).append
      (lexes_blank isBlank_newline)

end TypedClient.Declaration
