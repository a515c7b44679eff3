import Mathlib.Data.List.DropRight
import TypedClient.Proofs.Emit.Tidy
import TypedClient.Proofs.Text.Lines

/-!
# The lines of tidy code

Code whose lines have no line feeds in them is cut into these lines again when its text is read.
Tidying takes off the white space at their ends and leaves out blank lines, and nothing else happens
to them: whatever is collected from the lines of the text, is collected from the lines of the code
(`filterMap_lines_tidy`).
-/

set_option autoImplicit false

namespace TypedClient.Emit

open TypedClient.Declaration TypedClient.Text

variable {β : Type} {code : Code} {cs l : List Char} {c : Char}

/-! ## White space at the end of a line -/

theorem trimEnd_append_blank (hc : isBlank c = true) : trimEnd (cs ++ [c]) = trimEnd cs := by
  simp [trimEnd, hc]

/-- A line that ends in anything else than white space stays as it is. -/
theorem trimEnd_append_of_not_blank (hc : isBlank c = false) : trimEnd (cs ++ [c]) = cs ++ [c] := by
  simp [trimEnd, hc]

theorem trimEnd_withoutReturn (cs : List Char) : trimEnd (withoutReturn cs) = trimEnd cs := by
  rw [withoutReturn]
  split
  · rename_i hlast
    have hblank : isBlank '\r' = true := (isBlank_of_lt (by decide)).trans rfl
    conv_rhs => rw [← List.dropLast_append_getLast? '\r' hlast]
    exact (trimEnd_append_blank hblank).symm
  · rfl

theorem trimEnd_trimEnd (cs : List Char) : trimEnd (trimEnd cs) = trimEnd cs := by
  rw [trimEnd, trimEnd, List.reverse_reverse, List.dropWhile_idempotent]

theorem withoutReturn_trimEnd (cs : List Char) : withoutReturn (trimEnd cs) = trimEnd cs := by
  rw [withoutReturn, if_neg]
  intro hlast
  have hreturn : isBlank '\r' = true := (isBlank_of_lt (by decide)).trans rfl
  rw [trimEnd, List.getLast?_reverse] at hlast
  have hstop := List.head?_dropWhile_not isBlank cs.reverse
  rw [hlast] at hstop
  exact Bool.false_ne_true (hstop.symm.trans hreturn)

theorem newline_notMem_trimEnd (h : '\n' ∉ cs) : '\n' ∉ trimEnd cs := by
  obtain ⟨l, hl, -⟩ := trimmed_trimEnd cs
  rw [hl] at h
  exact fun hmem => h (List.mem_append_left _ hmem)

/-! ## Cutting into lines -/

/-- Cutting at line feeds undoes ending lines in them. -/
theorem splitOn_ended {ls : List (List Char)} (h : ∀ l ∈ ls, '\n' ∉ l) :
    splitOn '\n' (ended ls) = ls ++ [[]] := by
  induction ls with
  | nil => rfl
  | cons l ls ih =>
    obtain ⟨hl, hls⟩ := List.forall_mem_cons.1 h
    rw [ended_cons, splitOn_separated, splitOn_of_notMem hl, ih hls]
    rfl

theorem lines_ended {ls : List (List Char)} (h : ∀ l ∈ ls, '\n' ∉ l) :
    lines (ended ls) = ls.map withoutReturn := by
  rw [lines, splitOn_ended h]
  simp

/-- Code is cut where its lines are. -/
theorem splitOn_intercalate (hcode : code ≠ []) :
    splitOn '\n' ("\n".intercalate code).toList = code.flatMap fun line =>
      splitOn '\n' line.toList := by
  have hjoined : ("\n".intercalate code).toList = ['\n'].intercalate (code.map String.toList) :=
    String.toList_intercalate
  rw [hjoined, splitOn_intercalate_singleton '\n' (by simpa using hcode), List.flatMap_map]

/-- Apart from white space, a text has the lines that it has between line feeds, but for an empty
last one. -/
theorem lines_trimmed (cs : List Char) :
    (lines cs).map trimEnd = (if (splitOn '\n' cs).getLast? = some [] then
      (splitOn '\n' cs).dropLast else splitOn '\n' cs).map trimEnd := by
  have hended (ls : List (List Char)) : (ls.map withoutReturn).map trimEnd = ls.map trimEnd := by
    rw [List.map_map]
    exact List.map_congr_left fun l _ => trimEnd_withoutReturn l
  rw [lines]
  cases hlast : (splitOn '\n' cs).getLast? with
  | none =>
    rw [List.getLast?_eq_none_iff.1 hlast]
    rfl
  | some last =>
    cases last with
    | nil => rw [if_pos rfl, hended]
    | cons c last =>
      rw [if_neg (by simp), List.map_append, hended, ← List.map_append,
        List.dropLast_append_getLast? _ hlast]

/-! ## Blank lines -/

theorem collapseBlank_sublist (blank : Bool) (ls : List (List Char)) :
    (collapseBlank blank ls).Sublist ls := by
  fun_induction collapseBlank blank ls with
  | case1 => exact .slnil
  | case2 l rest _ ih => exact .cons _ ih
  | case3 blank l rest _ _ ih | case4 blank l rest _ ih => exact .cons_cons _ ih

/-- Whether the next blank line is left out, behind the given lines. -/
def blankBehind (blank : Bool) (ls : List (List Char)) : Bool :=
  (ls.getLast?.map List.isEmpty).getD blank

theorem blankBehind_cons (blank : Bool) (l : List Char) (ls : List (List Char)) :
    blankBehind blank (l :: ls) = blankBehind l.isEmpty ls := by
  cases ls with
  | nil => rfl
  | cons m ls => rw [blankBehind, List.getLast?_cons_cons, blankBehind, List.getLast?_cons]; rfl

theorem collapseBlank_append (blank : Bool) (ls ms : List (List Char)) :
    collapseBlank blank (ls ++ ms) =
      collapseBlank blank ls ++ collapseBlank (blankBehind blank ls) ms := by
  induction ls generalizing blank with
  | nil => rfl
  | cons l ls ih =>
    rw [List.cons_append, collapseBlank, collapseBlank, blankBehind_cons]
    cases l.isEmpty with
    | true => cases blank <;> simp [ih]
    | false => simp [ih]

theorem collapseBlank_idem (blank : Bool) (ls : List (List Char)) :
    collapseBlank blank (collapseBlank blank ls) = collapseBlank blank ls := by
  fun_induction collapseBlank blank ls with
  | case1 => rfl
  | case2 l rest hempty ih => exact ih
  | case3 blank l rest hempty hblank ih => rw [collapseBlank, if_pos hempty, if_neg hblank, ih]
  | case4 blank l rest hempty ih => rw [collapseBlank, if_neg hempty, ih]

/-- Where nothing is left out, nothing is left out of either part. -/
theorem collapseBlank_parts {blank : Bool} {ls ms : List (List Char)}
    (h : collapseBlank blank (ls ++ ms) = ls ++ ms) :
    collapseBlank blank ls = ls ∧ collapseBlank (blankBehind blank ls) ms = ms := by
  have hleft := collapseBlank_sublist blank ls
  have hright := collapseBlank_sublist (blankBehind blank ls) ms
  rw [collapseBlank_append] at h
  have hlength := congrArg List.length h
  rw [List.length_append, List.length_append] at hlength
  have hfirst := hleft.length_le
  have hsecond := hright.length_le
  exact ⟨hleft.eq_of_length (by omega), hright.eq_of_length (by omega)⟩

/-- What is not changed behind a blank line is not changed anywhere. -/
theorem collapseBlank_of_true {ls : List (List Char)} (h : collapseBlank true ls = ls)
    (blank : Bool) :
    collapseBlank blank ls = ls := by
  cases ls with
  | nil => rfl
  | cons l ls =>
    cases hl : l.isEmpty with
    | true =>
      have hshort := (collapseBlank_sublist true ls).length_le
      rw [collapseBlank, hl, if_pos rfl, if_pos rfl] at h
      rw [h, List.length_cons] at hshort
      omega
    | false =>
      rw [collapseBlank, hl] at h ⊢
      exact h

/-- Leaves out a blank line at the end. -/
def dropBlank (ls : List (List Char)) : List (List Char) :=
  if ls.getLast? = some [] then ls.dropLast else ls

theorem map_toList_tidy (code : Code) : (tidy code).map String.toList =
    dropBlank (collapseBlank true ((lines ("\n".intercalate code).toList).map trimEnd)) := by
  rw [tidy, List.map_map]
  exact (List.map_congr_left fun l _ => String.toList_ofList).trans (List.map_id _)

/-- Lines without white space at their ends, and with no blank line but single ones between
others. -/
structure Tight (ls : List (List Char)) : Prop where
  /-- The lines are lines. -/
  oneLine : ∀ l ∈ ls, '\n' ∉ l
  /-- No line ends in white space. -/
  trimmed : ∀ l ∈ ls, trimEnd l = l
  /-- No blank line comes first or follows another. -/
  collapsed : collapseBlank true ls = ls
  /-- No blank line comes last. -/
  last : ls.getLast? ≠ some []

/-- Tidy code is tight. -/
theorem tight_tidy (code : Code) : Tight ((tidy code).map String.toList) := by
  have hsub := collapseBlank_sublist true ((lines ("\n".intercalate code).toList).map trimEnd)
  have hcollapsed := collapseBlank_idem true ((lines ("\n".intercalate code).toList).map trimEnd)
  have hline : ∀ l ∈ collapseBlank true ((lines ("\n".intercalate code).toList).map trimEnd),
      '\n' ∉ l ∧ trimEnd l = l := fun l hl => by
    obtain ⟨line, hline, rfl⟩ := List.mem_map.1 (hsub.subset hl)
    exact ⟨newline_notMem_trimEnd (newline_notMem_of_mem_lines hline), trimEnd_trimEnd line⟩
  rw [map_toList_tidy]
  generalize collapseBlank true ((lines ("\n".intercalate code).toList).map trimEnd) = ls
    at hcollapsed hline ⊢
  rw [dropBlank]
  split
  · rename_i hlast
    have hparts := List.dropLast_append_getLast? [] hlast
    rw [← hparts] at hcollapsed
    obtain ⟨hfirst, hblank⟩ := collapseBlank_parts hcollapsed
    have hmem : ∀ l ∈ ls.dropLast, l ∈ ls := (List.dropLast_sublist ls).subset
    refine ⟨fun l hl => (hline l (hmem l hl)).1, fun l hl => (hline l (hmem l hl)).2, hfirst,
      fun hbefore => ?_⟩
    rw [blankBehind, hbefore] at hblank
    cases hblank
  · exact ⟨fun l hl => (hline l hl).1, fun l hl => (hline l hl).2, hcollapsed, ‹_›⟩

/-- The text of tidy code has its lines. -/
theorem Tight.lines_textOf (h : Tight (code.map String.toList)) :
    lines (textOf code).toList = code.map String.toList := by
  rw [toList_textOf, lineChars_eq, lines_ended h.oneLine]
  refine (List.map_congr_left fun l hl => ?_).trans (List.map_id _)
  rw [← h.trimmed l hl, withoutReturn_trimEnd]
  rfl

/-! ## What is collected from lines -/

section Collect

variable {f : List Char → Option β} (hnil : f [] = none)

include hnil

theorem filterMap_collapseBlank (blank : Bool) (ls : List (List Char)) :
    (collapseBlank blank ls).filterMap f = ls.filterMap f := by
  induction ls generalizing blank with
  | nil => rfl
  | cons l ls ih =>
    rw [collapseBlank]
    split
    · rename_i hempty
      rw [List.isEmpty_iff.1 hempty, List.filterMap_cons_none hnil]
      split
      · exact ih true
      · rw [List.filterMap_cons_none hnil, ih]
    · cases hl : f l with
      | none => rw [List.filterMap_cons_none hl, List.filterMap_cons_none hl, ih]
      | some b => rw [List.filterMap_cons_some hl, List.filterMap_cons_some hl, ih]

/-- A blank line at the end does not count. -/
theorem filterMap_dropLast {ls : List (List Char)} (hlast : ls.getLast? = some []) :
    ls.dropLast.filterMap f = ls.filterMap f := by
  conv_rhs => rw [← List.dropLast_append_getLast? [] hlast]
  rw [List.filterMap_append, List.filterMap_cons_none hnil, List.filterMap_nil, List.append_nil]

theorem filterMap_dropBlank (ls : List (List Char)) :
    (dropBlank ls).filterMap f = ls.filterMap f := by
  rw [dropBlank]
  split
  · exact filterMap_dropLast hnil ‹_›
  · rfl

theorem filterMap_lines (cs : List Char) :
    ((lines cs).map trimEnd).filterMap f = ((splitOn '\n' cs).map trimEnd).filterMap f := by
  rw [lines_trimmed]
  split
  · rename_i hlast
    rw [List.map_dropLast]
    refine filterMap_dropLast hnil ?_
    rw [List.getLast?_map, hlast]
    rfl
  · rfl

/-- **What is collected from the lines of tidy code** is collected from the lines of the code,
without the white space at their ends. -/
theorem filterMap_lines_tidy (h : ∀ line ∈ code, OneLine line) :
    (lines (textOf (tidy code)).toList).filterMap f =
      code.filterMap fun line => f (trimEnd line.toList) := by
  have hcode : ((lines ("\n".intercalate code).toList).map trimEnd).filterMap f =
      code.filterMap fun line => f (trimEnd line.toList) := by
    rw [filterMap_lines hnil]
    by_cases hempty : code = []
    · rw [hempty]
      simp [splitOn, trimEnd, hnil]
    · have hparts : (code.flatMap fun line => splitOn '\n' line.toList) =
          code.map String.toList := by
        rw [List.map_eq_flatMap]
        exact List.flatMap_congr fun line hline => splitOn_of_notMem (h line hline)
      rw [splitOn_intercalate hempty, hparts, List.map_map, List.filterMap_map]
      rfl
  rw [← hcode, (tight_tidy code).lines_textOf, map_toList_tidy, filterMap_dropBlank hnil,
    filterMap_collapseBlank hnil]

end Collect

/-! ## Tidy code in other code -/

theorem infix_dropBlank {first ls more : List (List Char)} (h : ls.getLast? ≠ some []) :
    ls <:+: dropBlank (first ++ ls ++ more) := by
  rw [dropBlank]
  split
  · rename_i hlast
    by_cases hmore : more = []
    · by_cases hls : ls = []
      · rw [hls]
        exact List.nil_infix
      · rw [hmore, List.append_nil, List.getLast?_append_of_ne_nil _ hls] at hlast
        exact absurd hlast h
    · rw [List.dropLast_append_of_ne_nil hmore]
      exact List.infix_append ..
  · exact List.infix_append ..

/-- **Tidy code stands unchanged in tidy code** that it is a part of. -/
theorem infix_tidy (before code : Code) {after : Code} (hafter : after ≠ []) :
    (tidy code).map String.toList <:+: (tidy (before ++ tidy code ++ after)).map String.toList := by
  obtain ⟨hone, htrimmed, hcollapsed, hlast⟩ := tight_tidy code
  generalize tidy code = inner at hone htrimmed hcollapsed hlast ⊢
  have hne : before ++ inner ++ after ≠ [] := List.append_ne_nil_of_right_ne_nil _ hafter
  have hinner : (inner.flatMap fun line => splitOn '\n' line.toList) = inner.map String.toList := by
    rw [List.map_eq_flatMap]
    exact List.flatMap_congr fun line hline =>
      splitOn_of_notMem (hone _ (List.mem_map_of_mem hline))
  have hbehind : (after.flatMap fun line => splitOn '\n' line.toList) ≠ [] := by
    obtain ⟨line, rest, rfl⟩ := List.exists_cons_of_ne_nil hafter
    obtain ⟨first, others, hparts⟩ := exists_splitOn '\n' line.toList
    rw [List.flatMap_cons, hparts]
    exact List.cons_ne_nil _ _
  have hkept : (inner.map String.toList).map trimEnd = inner.map String.toList :=
    (List.map_congr_left htrimmed).trans (List.map_id _)
  obtain ⟨first, more, hlines⟩ : ∃ first more,
      (lines ("\n".intercalate (before ++ inner ++ after)).toList).map trimEnd =
        first ++ inner.map String.toList ++ more := by
    rw [lines_trimmed, splitOn_intercalate hne, List.flatMap_append, List.flatMap_append, hinner]
    split
    · rw [List.dropLast_append_of_ne_nil hbehind, List.map_append, List.map_append, hkept]
      exact ⟨_, _, rfl⟩
    · rw [List.map_append, List.map_append, hkept]
      exact ⟨_, _, rfl⟩
  rw [map_toList_tidy, hlines, collapseBlank_append, collapseBlank_append,
    collapseBlank_of_true hcollapsed]
  exact infix_dropBlank hlast

/-- The text of tidy code is a part of the text of the code that it is in. -/
theorem exists_textOf_tidy {before after : Code} (hafter : after ≠ []) : ∃ first last : String,
    textOf (tidy (before ++ tidy code ++ after)) = first ++ textOf (tidy code) ++ last := by
  obtain ⟨first, last, hparts⟩ := infix_tidy before code hafter
  refine ⟨String.ofList (ended first), String.ofList (ended last), String.toList_inj.1 ?_⟩
  simp only [toList_textOf, lineChars_eq, String.toList_append, String.toList_ofList]
  rw [← hparts, ended_append, ended_append]

end TypedClient.Emit
