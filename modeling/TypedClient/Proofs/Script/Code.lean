import TypedClient.Proofs.Emit.Lines
import TypedClient.Proofs.Script.Scanner

/-!
# Comments of tidy code

Tidying takes white space off the ends of lines and leaves out blank lines.  None of this shows to
who scans the code: where a line ends, white space before the end leads nowhere, whether it stands
in code, in a comment or in a template, and a further end of a line leads nowhere either
(`step_newline_of_isBlank`).  So tidy code has the comments that the code had (`Scans.tidy`).
-/

set_option autoImplicit false

namespace TypedClient.Script

open TypedClient.Declaration TypedClient.Emit TypedClient.Text

variable {s t u : Scan} {a cs l line short : List Char} {c d : Char} {f : List String}
  {blank : Bool} {ls ms : List (List Char)} {code more : Code} {g : List String}

/-! ## White space before the end of a line -/

theorem isSpace_of_isBlank (h : isBlank c = true) : isSpace c = true := by
  rw [isSpace]
  split
  · rename_i hascii
    rwa [← isBlank_of_lt hascii]
  · rw [h, Bool.true_or]

theorem extend_newline (hc : isBlank c = true) (a : List Char) :
    extend (extend a c) '\n' = extend a '\n' := by
  by_cases hnewline : c = '\n'
  · subst hnewline
    simp only [extend, if_pos]
    rw [trimEnd_append_blank hc, trimEnd_trimEnd]
  · rw [extend_of_ne hnewline]
    simp only [extend, if_pos]
    rw [trimEnd_append_blank hc]

theorem ne_of_isBlank (hc : isBlank c = true) (hd : isBlank d = false) : c ≠ d := by
  rintro rfl
  rw [hc] at hd
  cases hd

/-- White space is none of the signs that the scanner looks for. -/
theorem ne_sign_of_isBlank (hc : isBlank c = true)
    (hd : d.toNat < 128 ∧ (d.toNat == 32 || (9 ≤ d.toNat && d.toNat ≤ 13)) = false) : c ≠ d :=
  ne_of_isBlank hc ((isBlank_of_lt hd.1).trans hd.2)

theorem fromCode_of_isBlank (hc : isBlank c = true) (operand : Bool) :
    fromCode operand c = (.code operand, .none) := by
  rw [fromCode, if_neg (ne_sign_of_isBlank hc (by decide)),
    if_neg (ne_sign_of_isBlank hc (by decide)), if_neg (ne_sign_of_isBlank hc (by decide)),
    if_neg (ne_sign_of_isBlank hc (by decide)), if_neg (ne_sign_of_isBlank hc (by decide)),
    if_neg (ne_sign_of_isBlank hc (by decide)), if_pos (isSpace_of_isBlank hc)]

theorem fromTemplate_of_isBlank (hc : isBlank c = true) : fromTemplate c = .template := by
  rw [fromTemplate, if_neg (ne_sign_of_isBlank hc (by decide)),
    if_neg (ne_sign_of_isBlank hc (by decide)), if_neg (ne_sign_of_isBlank hc (by decide))]

/-- White space stays in a regular expression, unless it ends the line. -/
theorem fromRegex_of_isBlank (hc : isBlank c = true) {inClass : Bool} {q : Place}
    (h : fromRegex inClass c = some q) : q = .regex inClass := by
  rw [fromRegex] at h
  split at h
  · cases h
  · rw [if_neg (ne_sign_of_isBlank hc (by decide)), if_neg (ne_sign_of_isBlank hc (by decide)),
      if_neg (ne_sign_of_isBlank hc (by decide)),
      if_neg fun hslash => ne_sign_of_isBlank hc (by decide) hslash.1] at h
    exact (Option.some.inj h).symm

/-- A character that leads from one place to another does not show where the line ends behind it. -/
inductive Unseen (p q : Place) : Effect → Prop
  /-- No line may end behind it. -/
  | unending (h : next q '\n' = none) : Unseen p q .none
  /-- The line ends behind it as it does before it. -/
  | same (h : next p '\n' = next q '\n') : Unseen p q .none
  /-- It ends a comment itself, being one of the other ends of lines. -/
  | ending {comment : String} (hp : next p '\n' = some (q, .found comment))
      (hq : next q '\n' = some (q, .none)) : Unseen p q (.found comment)

variable {p q : Place} {effect : Effect}

theorem unseen_line (hc : isBlank c = true) {operand : Bool} {text : List Char}
    (h : next (.line operand text) c = some (q, effect)) :
    Unseen (.line operand text) q effect := by
  rw [next] at h
  split at h
  · cases h
    exact .ending rfl rfl
  · cases h
    refine .same ?_
    change some (_, Effect.found (String.ofList (trimEnd text))) =
      some (_, Effect.found (String.ofList (trimEnd (text ++ [c]))))
    rw [trimEnd_append_blank hc]

/-- In a comment of several lines only the text grows, and the end of the line trims it. -/
theorem unseen_block (hc : isBlank c = true) {operand : Bool} {text : List Char}
    (hp : next p c = some (.block operand (extend text c), .none))
    (hnewline : next p '\n' = some (.block operand (extend text '\n'), .none))
    (h : next p c = some (q, effect)) : Unseen p q effect := by
  rw [hp] at h
  cases h
  refine .same ?_
  rw [hnewline, next, if_neg (by decide), extend_newline hc]

theorem unseen_string (hc : isBlank c = true) {single : Bool}
    (h : next (.string single) c = some (q, effect)) : Unseen (.string single) q effect := by
  rw [next] at h
  split at h
  · cases h
  · have hmark : c ≠ if single then '\x27' else '"' := by
      cases single <;> exact ne_sign_of_isBlank hc (by decide)
    rw [if_neg hmark, if_neg (ne_sign_of_isBlank hc (by decide))] at h
    cases h
    exact .unending rfl

theorem unseen_regex {inClass : Bool} (hc : isBlank c = true)
    (h : (fromRegex inClass c).map (·, Effect.none) = some (q, effect)) : Unseen p q effect := by
  obtain ⟨inside, hinside, hpair⟩ := Option.map_eq_some_iff.1 h
  cases hpair
  rw [fromRegex_of_isBlank hc hinside]
  exact .unending rfl

/-- White space does not show where the line ends behind it. -/
theorem unseen_of_isBlank (hc : isBlank c = true) (h : next p c = some (q, effect)) :
    Unseen p q effect := by
  have hslash : c ≠ '/' := ne_sign_of_isBlank hc (by decide)
  have hstar : c ≠ '*' := ne_sign_of_isBlank hc (by decide)
  cases p with
  | code operand =>
    rw [next, fromCode_of_isBlank hc] at h
    cases h
    exact .same rfl
  | slash operand =>
    rw [next, if_neg hslash, if_neg hstar] at h
    cases operand with
    | true => exact unseen_regex hc h
    | false =>
      rw [if_neg Bool.false_ne_true, fromCode_of_isBlank hc] at h
      cases h
      exact .same rfl
  | line operand text => exact unseen_line hc h
  | block operand text => exact unseen_block hc (by rw [next, if_neg hstar]) rfl h
  | star operand text => exact unseen_block hc (by rw [next, if_neg hslash, if_neg hstar]) rfl h
  | string single => exact unseen_string hc h
  | stringEscape single =>
    cases h
    exact .unending rfl
  | template | dollar =>
    simp only [next, if_neg (ne_sign_of_isBlank hc (d := '\x7b') (by decide)),
      fromTemplate_of_isBlank hc] at h
    cases h
    exact .same rfl
  | templateEscape =>
    cases h
    exact .same rfl
  | regex inClass => exact unseen_regex hc h
  | regexEscape inClass =>
    rw [next] at h
    split at h
    · cases h
    · cases h
      exact .unending rfl

/-- **White space leads nowhere before the end of a line**: where the line may end behind it, it may
end before it, and the scanner gets to the same state. -/
theorem step_newline_of_isBlank (hc : isBlank c = true) (h : step s c = some t)
    (ht : step t '\n' = some u) : step s '\n' = some u := by
  obtain ⟨here, holes, comments⟩ := s
  obtain ⟨⟨q, effect⟩, hnext, henter⟩ := Option.bind_eq_some_iff.1 h
  cases unseen_of_isBlank hc hnext with
  | unending hnone =>
    obtain rfl := Option.some.inj henter
    rw [step, hnone] at ht
    cases ht
  | same hsame =>
    obtain rfl := Option.some.inj henter
    rw [step, hsame]
    exact ht
  | ending hfirst hsecond =>
    obtain rfl := Option.some.inj henter
    rw [step, hsecond] at ht
    rw [step, hfirst]
    exact ht

/-- Where a line may end, a further end leads nowhere. -/
def Settled (s : Scan) : Prop := ∀ t, step s '\n' = some t → t = s

theorem settled_of_step (h : step s '\n' = some t) : Settled t := fun _ hu =>
  Option.some.inj ((step_newline_of_isBlank isBlank_newline h hu).symm.trans h)

theorem settled_code (operand : Bool) (holes : List Bool) (comments : List String) :
    Settled ⟨.code operand, holes, comments⟩ := fun _ ht => (Option.some.inj ht).symm

/-! ## Lines -/

theorem run_singleton (s : Scan) (c : Char) : run s [c] = step s c :=
  Option.bind_fun_some (step s c)

theorem run_trimmed (h : Trimmed line short) (hrun : run s (line ++ ['\n']) = some t) :
    run s (short ++ ['\n']) = some t := by
  obtain ⟨l, rfl, hl⟩ := h
  rw [List.append_assoc, run_append] at hrun
  obtain ⟨u, hu, hrest⟩ := Option.bind_eq_some_iff.1 hrun
  rw [run_append, hu, Option.bind_some, run_singleton]
  clear hrun hu
  induction l generalizing u with
  | nil => rwa [← run_singleton]
  | cons c l ih =>
    obtain ⟨hc, hl⟩ := List.forall_mem_cons.1 hl
    obtain ⟨v, hv, hrest⟩ := Option.bind_eq_some_iff.1 hrest
    exact step_newline_of_isBlank hc hv (ih hl v hrest)

theorem run_ended_cons :
    run s (ended (line :: ls)) = (run s (line ++ ['\n'])).bind fun u => run u (ended ls) := by
  rw [ended_cons, ← List.singleton_append, ← List.append_assoc, run_append]

/-- The state behind a line is settled. -/
theorem settled_of_run (h : run s (line ++ ['\n']) = some t) : Settled t := by
  rw [run_append] at h
  obtain ⟨u, -, hstep⟩ := Option.bind_eq_some_iff.1 h
  exact settled_of_step (run_singleton u '\n' ▸ hstep)

theorem settled_of_run_ended (hs : Settled s) (h : run s (ended ls) = some t) : Settled t := by
  induction ls generalizing s with
  | nil => exact Option.some.inj h ▸ hs
  | cons line ls ih =>
    rw [run_ended_cons] at h
    obtain ⟨u, hu, hrest⟩ := Option.bind_eq_some_iff.1 h
    exact ih (settled_of_run hu) hrest

/-- Lines may lose white space at their ends. -/
theorem run_forall₂_trimmed (h : List.Forall₂ Trimmed ls ms) (hrun : run s (ended ls) = some t) :
    run s (ended ms) = some t := by
  induction h generalizing s with
  | nil => exact hrun
  | cons hline _ ih =>
    rw [run_ended_cons] at hrun ⊢
    obtain ⟨u, hu, hrest⟩ := Option.bind_eq_some_iff.1 hrun
    exact Option.bind_eq_some_iff.2 ⟨u, run_trimmed hline hu, ih hrest⟩

/-- Blank lines may go. -/
theorem run_collapseBlank (hs : blank = true → Settled s) (hrun : run s (ended ls) = some t) :
    run s (ended (collapseBlank blank ls)) = some t := by
  induction ls generalizing blank s with
  | nil => exact hrun
  | cons line ls ih =>
    rw [run_ended_cons] at hrun
    obtain ⟨u, hu, hrest⟩ := Option.bind_eq_some_iff.1 hrun
    have hsettled := settled_of_run hu
    rw [collapseBlank]
    split
    · rename_i hempty
      rw [List.isEmpty_iff.1 hempty] at hu
      split
      · obtain rfl := hs ‹_› u (run_singleton s '\n' ▸ hu)
        exact ih (fun _ => hsettled) hrest
      · rw [run_ended_cons, List.isEmpty_iff.1 hempty]
        exact Option.bind_eq_some_iff.2 ⟨u, hu, ih (fun _ => hsettled) hrest⟩
    · rw [run_ended_cons]
      exact Option.bind_eq_some_iff.2 ⟨u, hu, ih (fun _ => hsettled) hrest⟩

/-- So may a blank line at the end. -/
theorem run_dropBlank (hs : Settled s) (hrun : run s (ended ls) = some t) :
    run s (ended (dropBlank ls)) = some t := by
  rw [dropBlank]
  split
  · rename_i hlast
    rw [← List.dropLast_append_getLast? [] hlast, ended_append, run_append] at hrun
    obtain ⟨u, hu, hstep⟩ := Option.bind_eq_some_iff.1 hrun
    rw [settled_of_run_ended hs hu t (run_singleton u '\n' ▸ hstep)]
    exact hu
  · exact hrun

/-- What tidying leaves of lines. -/
def tidied (blank : Bool) (ls : List (List Char)) : List (List Char) :=
  dropBlank (collapseBlank blank ((dropBlank ls).map trimEnd))

/-- **Lines are scanned as before** when they are tidied. -/
theorem run_tidied (hs : Settled s) (hrun : run s (ended ls) = some t) (blank : Bool) :
    run s (ended (tidied blank ls)) = some t :=
  run_dropBlank hs (run_collapseBlank (fun _ => hs)
    (run_forall₂_trimmed (forall₂_trimmed_map trimmed_trimEnd _) (run_dropBlank hs hrun)))

/-! ## Tidy code -/

/-- The lines of code, where a line of the code may have line feeds in it. -/
def splitLines (code : Code) : List (List Char) := code.flatMap fun line => splitOn '\n' line.toList

theorem lineChars_eq_ended_splitLines (code : Code) : lineChars code = ended (splitLines code) := by
  induction code with
  | nil => rfl
  | cons line code ih =>
    rw [splitLines, List.flatMap_cons, ended_append, ended_splitOn]
    exact congrArg _ ih

theorem map_toList_tidy_eq (hcode : code ≠ []) :
    (tidy code).map String.toList = tidied true (splitLines code) := by
  rw [map_toList_tidy, lines_trimmed, splitOn_intercalate hcode]
  rfl

/-- **Tidy code has the comments that the code had.** -/
theorem Scans.tidy (h : Scans (lineChars code) f) : Scans (lineChars (tidy code)) f := by
  intro operand
  obtain ⟨operand', hgoes⟩ := h operand
  refine ⟨operand', ?_⟩
  by_cases hcode : code = []
  · subst hcode
    exact hgoes
  · rw [lineChars_eq, map_toList_tidy_eq hcode]
    rw [lineChars_eq_ended_splitLines] at hgoes
    exact run_tidied (settled_code _ _ _) hgoes true

theorem dropBlank_cons (hne : line ≠ []) (ls : List (List Char)) :
    dropBlank (line :: ls) = line :: dropBlank ls := by
  cases ls with
  | nil => exact if_neg (by simpa using hne)
  | cons next ls =>
    rw [dropBlank, dropBlank, List.getLast?_cons_cons]
    split <;> rfl

theorem tidied_cons (hne : line ≠ []) (htrimmed : trimEnd line = line) (blank : Bool)
    (ls : List (List Char)) : tidied blank (line :: ls) = line :: tidied false ls := by
  have hempty : ¬line.isEmpty = true := by simpa using hne
  rw [tidied, dropBlank_cons hne, List.map_cons, htrimmed, collapseBlank, if_neg hempty,
    dropBlank_cons hne]
  rfl

/-- A first line that is not blank stays the first, and the code behind it has the comments that it
had. -/
theorem exists_textOf_tidy_cons {header : String} (hone : OneLine header) (hne : header.toList ≠ [])
    (htrimmed : trimEnd header.toList = header.toList) (rest : Code) :
    ∃ body, (textOf (tidy (header :: rest))).toList = header.toList ++ '\n' :: body ∧
      ∀ f, Scans (lineChars rest) f → Scans body f := by
  refine ⟨ended (tidied false (splitLines rest)), ?_, fun f h operand => ?_⟩
  · have hlines : splitLines (header :: rest) = header.toList :: splitLines rest := by
      rw [splitLines, List.flatMap_cons, splitOn_of_notMem hone]
      rfl
    rw [toList_textOf, lineChars_eq, map_toList_tidy_eq (List.cons_ne_nil _ _), hlines,
      tidied_cons hne htrimmed, ended_cons]
  · obtain ⟨operand', hgoes⟩ := h operand
    rw [lineChars_eq_ended_splitLines] at hgoes
    exact ⟨operand', run_tidied (settled_code _ _ _) hgoes false⟩

/-! ## Lines -/

theorem scans_newline : Scans ['\n'] [] := scans_of_isQuiet (by decide +kernel)

theorem scans_line_of {line : String} (h : Scans line.toList f) : Scans (lineChars [line]) f := by
  have hline := h.append scans_newline
  rw [List.append_nil] at hline
  simpa [lineChars] using hline

/-- Lines without comments. -/
theorem quiet_lines (h : ∀ line ∈ code, Quiet line) : Scans (lineChars code) [] := by
  induction code with
  | nil => exact scans_nil
  | cons line code ih =>
    obtain ⟨hline, hcode⟩ := List.forall_mem_cons.1 h
    exact (Scans.append hline scans_newline).append (ih hcode)

theorem Scans.appendCode (h : Scans (lineChars code) f) (h' : Scans (lineChars more) g) :
    Scans (lineChars (code ++ more)) (f ++ g) := by
  rw [lineChars_append]
  exact h.append h'

section

variable {α : Type} {xs : List α} {found : α → List String}

/-- Code, one piece after the other. -/
theorem scans_flatMap {code : α → Code} (h : ∀ x ∈ xs, Scans (lineChars (code x)) (found x)) :
    Scans (lineChars (xs.flatMap code)) (xs.flatMap found) := by
  induction xs with
  | nil => exact scans_nil
  | cons x xs ih =>
    obtain ⟨hx, hxs⟩ := List.forall_mem_cons.1 h
    rw [List.flatMap_cons, lineChars_append]
    exact hx.append (ih hxs)

/-- Lines, one after the other. -/
theorem scans_map {t : α → String} (h : ∀ x ∈ xs, Scans (t x).toList (found x)) :
    Scans (lineChars (xs.map t)) (xs.flatMap found) := by
  rw [List.map_eq_flatMap]
  exact scans_flatMap fun x hx => scans_line_of (h x hx)

end

/-! ## Blocks -/

/-- Code whose lines are quiet, but for the braces of the blocks in it: the line before a block ends
in an opening brace, and the line behind it starts with the closing one, which may go on with a
further block. -/
inductive Blocks : Code → Prop
  /-- No code. -/
  | nil : Blocks []
  /-- A line. -/
  | line {line : String} {rest : Code} (h : Quiet line) (hrest : Blocks rest) :
      Blocks (line :: rest)
  /-- A block. -/
  | block {before after pad : String} {body rest : Code} (hbefore : Quiet before)
      (hbody : Blocks body) (hpad : Quiet pad) (hrest : Blocks (after :: rest)) :
      Blocks ((before ++ "\x7b") :: body ++ (pad ++ "\x7d" ++ after) :: rest)

/-- Code in blocks has no comments. -/
theorem Blocks.scans (h : Blocks code) : Scans (lineChars code) [] := by
  induction h with
  | nil => exact scans_nil
  | line h _ ih => exact (Scans.append h scans_newline).append ih
  | block hbefore _ hpad _ ihbody ihrest =>
    have hinside := (scans_newline.append ihbody).append hpad
    have hall := (Scans.append hbefore hinside.braces).append ihrest
    simpa [lineChars] using hall

theorem Blocks.append (h : Blocks code) (h' : Blocks more) : Blocks (code ++ more) := by
  induction h with
  | nil => exact h'
  | line h _ ih => exact .line h ih
  | block hbefore hbody hpad _ _ ihrest =>
    rw [List.append_assoc]
    exact .block hbefore hbody hpad ihrest

/-- Code that is indented, with any quiet text before its first line. -/
theorem Blocks.pad (h : Blocks code) : ∀ pad, Quiet pad → ∀ first rest, code = first :: rest →
    Blocks ((pad ++ first) :: indented rest) := by
  have hspaces : Quiet "  " := quiet_literal rfl
  induction h with
  | nil => exact fun _ _ _ _ heq => nomatch heq
  | @line line rest h hrest ih =>
    rintro pad hpad _ _ ⟨⟩
    refine .line (hpad.append h) ?_
    cases rest with
    | nil => exact .nil
    | cons first rest => exact ih _ hspaces first rest rfl
  | @block before after pad body rest hbefore hbody hpad hrest ihbody ihrest =>
    rintro outer houter _ _ ⟨⟩
    have hbody' : Blocks (indented body) := by
      cases body with
      | nil => exact .nil
      | cons first rest => exact ihbody _ hspaces first rest rfl
    have hrest' := ihrest "" scans_nil after rest rfl
    rw [String.empty_append] at hrest'
    have hall := Blocks.block (houter.append hbefore) hbody' (hspaces.append hpad) hrest'
    simpa [indented, String.append_assoc] using hall

theorem Blocks.indented (h : Blocks code) : Blocks (indented code) := by
  cases code with
  | nil => exact .nil
  | cons first rest => exact h.pad _ (quiet_literal rfl) first rest rfl

theorem blocks_lines (h : ∀ line ∈ code, Quiet line) : Blocks code := by
  induction code with
  | nil => exact .nil
  | cons line code ih =>
    obtain ⟨hline, hcode⟩ := List.forall_mem_cons.1 h
    exact .line hline (ih hcode)

theorem blocks_enclosed {before after : String} (hbefore : Quiet before) (hcode : Blocks code)
    (hafter : Quiet after) : Blocks (enclosed before code after) := by
  have hall := Blocks.block hbefore hcode.indented quiet_empty (.line hafter .nil)
  rwa [String.empty_append] at hall

theorem blocks_block {head : String} (hhead : Quiet head) (hcode : Blocks code) :
    Blocks (block head code) :=
  blocks_enclosed (hhead.append (quiet_literal rfl)) hcode scans_nil

/-- Blocks that go on each other. -/
theorem blocks_branches {head : String} {others : List (String × Code)} (hhead : Quiet head)
    (hcode : Blocks code) (hothers : ∀ branch ∈ others, Quiet branch.1 ∧ Blocks branch.2) :
    Blocks (branches head code others) := by
  have hspace : Quiet " " := quiet_literal rfl
  suffices hall : ∀ before, Quiet before → Blocks ((before ++ "\x7b") :: (Emit.indented code ++
      others.flatMap (fun branch => ["\x7d " ++ branch.1 ++ " \x7b"] ++ Emit.indented branch.2) ++
        ["\x7d"])) by
    have hfirst := hall (head ++ " ") (hhead.append hspace)
    rwa [String.append_assoc] at hfirst
  induction others generalizing code with
  | nil =>
    intro before hbefore
    rw [List.flatMap_nil, List.append_nil]
    exact .block hbefore hcode.indented quiet_empty (.line quiet_empty .nil)
  | cons branch others ih =>
    obtain ⟨⟨hword, hbody⟩, hrest⟩ := List.forall_mem_cons.1 hothers
    intro before hbefore
    have hnext := ih hbody hrest (" " ++ branch.1 ++ " ") ((hspace.append hword).append hspace)
    have hall := Blocks.block hbefore hcode.indented quiet_empty hnext
    have hword (text : String) : "\x7d" ++ (" " ++ text) = "\x7d " ++ text := by
      rw [← String.append_assoc]
      rfl
    simpa [String.append_assoc, hword] using hall

end TypedClient.Script
