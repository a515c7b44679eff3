import Mathlib.Data.List.Basic
import Mathlib.Data.List.Forall2
import Mathlib.Data.List.TakeWhile
import TypedClient.Emit.Code
import TypedClient.Proofs.Declaration.Comments
import TypedClient.Proofs.Declaration.Trimming

/-!
# Tidying keeps the tokens

The last step of emitting code takes white space off the ends of lines and leaves out blank lines.
The tokens of the code stay the same (`tokens?_tidy`): each part of the step only takes away white
space that stands before the end of a line.
-/

set_option autoImplicit false

namespace TypedClient.Emit

open TypedClient.Declaration TypedClient.Text

/-! ## Ended lines -/

/-- The characters of lines, each ended. -/
def ended (ls : List (List Char)) : List Char := ls.flatMap (· ++ ['\n'])

theorem ended_cons (l : List Char) (ls : List (List Char)) :
    ended (l :: ls) = l ++ '\n' :: ended ls := by
  rw [ended, List.flatMap_cons, List.append_assoc, List.singleton_append, ended]

theorem ended_append (ls ms : List (List Char)) : ended (ls ++ ms) = ended ls ++ ended ms :=
  List.flatMap_append

theorem lineChars_eq (code : Code) : lineChars code = ended (code.map String.toList) := by
  rw [lineChars, ended, List.flatMap_map]

theorem toList_textOf (code : Code) : (textOf code).toList = lineChars code := by
  rw [textOf, String.toList_join, List.flatMap_map]
  simp [lineChars]

theorem ended_splitOn (cs : List Char) : ended (splitOn '\n' cs) = cs ++ ['\n'] := by
  fun_induction splitOn '\n' cs with
  | case1 => rfl
  | case2 rest ih => rw [ended_cons, ih]; rfl
  | case3 c rest hc hnil ih => rw [hnil] at ih; simp [ended] at ih
  | case4 c rest hc first parts hparts ih =>
    rw [hparts, ended_cons] at ih
    rw [ended_cons, List.cons_append, ih]
    rfl

theorem ended_map_toList {code : Code} (h : code ≠ []) :
    ("\n".intercalate code).toList ++ ['\n'] = ended (code.map String.toList) := by
  rw [String.toList_intercalate]
  induction code with
  | nil => exact absurd rfl h
  | cons line code ih =>
    cases code with
    | nil => simp [ended]
    | cons next code =>
      have hrest := ih (List.cons_ne_nil _ _)
      rw [List.map_cons] at hrest ⊢
      rw [List.map_cons, List.intercalate_cons_cons, ended_cons, ← hrest]
      simp

/-! ## White space at the end -/

/-- White space at the end of a text does not show in its tokens. -/
theorem tokens?_append_blank (cs : List Char) {l : List Char} (hl : ∀ c ∈ l, isBlank c = true) :
    tokens? (cs ++ l) = tokens? cs := by
  have hend : AtLineEnd [] := by simp [AtLineEnd]
  have htrims := Trims.append_left cs (Trims.drop_all hl hend .nil)
  rw [List.append_nil, List.append_nil] at htrims
  exact tokens?_of_trims htrims

theorem tokens?_append_newline (cs : List Char) : tokens? (cs ++ ['\n']) = tokens? cs :=
  tokens?_append_blank cs (by simpa using isBlank_newline)

/-- A line is another with white space behind it. -/
def Trimmed (line short : List Char) : Prop := ∃ l, line = short ++ l ∧ ∀ c ∈ l, isBlank c = true

theorem Trimmed.refl (line : List Char) : Trimmed line line :=
  ⟨[], (List.append_nil line).symm, by simp⟩

theorem trimmed_trimEnd (line : List Char) : Trimmed line (trimEnd line) := by
  refine ⟨(line.reverse.takeWhile isBlank).reverse, ?_, fun c hc => ?_⟩
  · rw [trimEnd, ← List.reverse_append, List.takeWhile_append_dropWhile, List.reverse_reverse]
  · exact List.mem_takeWhile_imp (List.mem_reverse.1 hc)

theorem trimmed_withoutReturn (line : List Char) : Trimmed line (withoutReturn line) := by
  rw [withoutReturn]
  split
  · rename_i hlast
    refine ⟨['\r'], ?_, ?_⟩
    · exact (List.dropLast_append_getLast? '\r' hlast).symm
    · simpa using (isBlank_of_lt (c := '\r') (by decide)).trans rfl
  · exact .refl line

/-- Lines may lose white space at their ends. -/
theorem tokens?_ended {ls ms : List (List Char)} (h : List.Forall₂ Trimmed ls ms) :
    tokens? (ended ls) = tokens? (ended ms) := by
  refine tokens?_of_trims ?_
  induction h with
  | nil => exact .nil
  | @cons line short ls ms hline _ ih =>
    obtain ⟨l, rfl, hl⟩ := hline
    rw [ended_cons, ended_cons, List.append_assoc]
    exact .append_left short (.drop_all hl (by simp [AtLineEnd]) (.keep '\n' ih))

theorem forall₂_trimmed_map {f : List Char → List Char} (hf : ∀ line, Trimmed line (f line))
    (ls : List (List Char)) : List.Forall₂ Trimmed ls (ls.map f) := by
  induction ls with
  | nil => exact .nil
  | cons line ls ih => exact .cons (hf line) ih

/-- A text has the tokens of its lines. -/
theorem tokens?_lines (cs : List Char) : tokens? (ended (lines cs)) = tokens? cs := by
  have hcs := ended_splitOn cs
  rw [lines]
  cases hlast : (splitOn '\n' cs).getLast? with
  | none =>
    rw [List.getLast?_eq_none_iff.1 hlast] at hcs
    simp [ended] at hcs
  | some last =>
    have hparts := List.dropLast_append_getLast? last hlast
    have hended := forall₂_trimmed_map trimmed_withoutReturn (splitOn '\n' cs).dropLast
    rw [← hparts, ended_append] at hcs
    cases last with
    | nil =>
      exact (tokens?_ended hended).symm.trans (congrArg tokens? (List.append_cancel_right hcs))
    | cons c last =>
      have hall := tokens?_ended (List.rel_append hended (.cons (.refl (c :: last)) .nil))
      rw [ended_append, hcs, tokens?_append_newline] at hall
      exact hall.symm

/-! ## Blank lines -/

/-- Leaving out blank lines takes away white space before the ends of lines. -/
theorem trims_collapseBlank (ls : List (List Char)) :
    Trims ('\n' :: ended ls) ('\n' :: ended (collapseBlank true ls)) ∧
      Trims (ended ls) (ended (collapseBlank false ls)) := by
  induction ls with
  | nil => exact ⟨.refl _, .refl _⟩
  | cons line ls ih =>
    cases line with
    | nil => exact ⟨.drop isBlank_newline (by simp [AtLineEnd]) ih.1, ih.1⟩
    | cons c line =>
      have hline :
          Trims (ended ((c :: line) :: ls)) (ended ((c :: line) :: collapseBlank false ls)) := by
        rw [ended_cons, ended_cons]
        exact .append_left _ (.keep '\n' ih.2)
      exact ⟨.keep '\n' hline, hline⟩

theorem tokens?_collapseBlank (ls : List (List Char)) :
    tokens? (ended (collapseBlank true ls)) = tokens? (ended ls) := by
  have hnewline (cs : List Char) : tokens? ('\n' :: cs) = tokens? cs :=
    (lexes_blank isBlank_newline cs).trans (joined_nil _)
  rw [← hnewline, ← hnewline (ended ls)]
  exact (tokens?_of_trims (trims_collapseBlank ls).1).symm

/-- **Tidying keeps the tokens** of the code. -/
theorem tokens?_tidy (code : Code) :
    tokens? (textOf (tidy code)).toList = tokens? (lineChars code) := by
  have hintercalate : tokens? ("\n".intercalate code).toList = tokens? (lineChars code) := by
    rw [lineChars_eq]
    by_cases hnil : code = []
    · rw [hnil]
      rfl
    · rw [← ended_map_toList hnil, tokens?_append_newline]
  have hcollapsed : tokens? (ended (collapseBlank true
      ((lines ("\n".intercalate code).toList).map trimEnd))) = tokens? (lineChars code) := by
    rw [tokens?_collapseBlank, ← tokens?_ended (forall₂_trimmed_map trimmed_trimEnd _),
      tokens?_lines, hintercalate]
  have hmap (ls : List (List Char)) : (ls.map String.ofList).map String.toList = ls := by
    rw [List.map_map]
    exact (List.map_congr_left fun l _ => String.toList_ofList).trans (List.map_id ls)
  rw [toList_textOf, lineChars_eq, tidy, hmap, ← hcollapsed]
  generalize collapseBlank true _ = collapsed
  split
  · rename_i hlast
    have hsplit := List.dropLast_append_getLast? [] hlast
    conv => rhs; rw [← hsplit, ended_append]
    exact (tokens?_append_newline _).symm
  · rfl

end TypedClient.Emit
