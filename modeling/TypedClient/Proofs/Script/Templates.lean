import TypedClient.Proofs.Api.PathTemplate
import TypedClient.Proofs.Script.Modules

/-!
# Paths as template literals

The path of a request is written as a template literal: the text between placeholders is escaped,
piece by piece, and each placeholder becomes a hole for its argument.

* `readParts` reads a template literal by the rules of ECMAScript: a hole ends at the brace that the
  scanner of scripts finds to close it, and the literal at the first backquote in its text;
* `readPath?` reads a path back: the text, and in the holes the names of the arguments they ask for;
* `Cut` says what the pieces of a path are: a placeholder is what stands between an opening brace
  and the next closing one;
* `readPath?_pathExpression` says that what is read is the path, in these pieces.
-/

set_option autoImplicit false

namespace TypedClient.Script

open TypedClient.Api TypedClient.Emit TypedClient.Text

/-! ## Reading templates -/

/-- A part of a template literal. -/
inductive Part where
  /-- Text, with its escapes undone. -/
  | text (cs : List Char)
  /-- The code in a hole. -/
  | hole (code : List Char)
  deriving DecidableEq

/-- Whether a backslash before the character stands for nothing but the character. -/
def isPlainEscape (c : Char) : Bool := !c.isAlphanum && !endsLine c

/-- The state at the start of a hole. -/
def Scan.hole : Scan := ⟨.code true, [true], []⟩

/-- Reads a template literal up to its end, from behind its opening mark.  `text` holds the text
since the last hole, and `hole` the state of the scanner in a hole and the code so far, both last
first.  Ends of lines with a carriage return are line feeds.  There is none if the literal does not
end, if anything stands behind it, or if a backslash in it stands for something else than the next
character. -/
def readParts (text : List Char) :
    (hole : Option (Scan × List Char)) → List Char → Option (List Part)
  | none, '\\' :: c :: rest => if isPlainEscape c then readParts (c :: text) none rest else none
  | none, '$' :: '\x7b' :: rest =>
    (readParts [] (some (.hole, [])) rest).map (.text text.reverse :: ·)
  | none, '\r' :: '\n' :: rest => readParts ('\n' :: text) none rest
  | none, c :: rest =>
    if c = '\x60' then if rest.isEmpty then some [.text text.reverse] else none
    else readParts ((if c = '\r' then '\n' else c) :: text) none rest
  | some (s, code), c :: rest =>
    match step s c with
    | some t =>
      if t.holes.isEmpty then (readParts [] none rest).map (.hole code.reverse :: ·)
      else readParts text (some (t, c :: code)) rest
    | none => none
  | _, [] => none

/-- The name in an accessor for an argument of a path. -/
def argumentOf? (fullRequest : Bool) (code : List Char) : Option (List Char) := do
  let accessed ← afterStart? "encodeURIComponent(String(".toList code
  let quoted ← afterStart?
      (if fullRequest then "request.path?.[\"" else "request[\"").toList accessed
  let (name, rest) ← Json.unquoteChars quoted
  if rest = "]))".toList then some name else none

/-- The piece of a path that a part of a template literal stands for. -/
def Part.piece? (fullRequest : Bool) : Part → Option Piece
  | .text cs => some (.literal cs)
  | .hole code => (argumentOf? fullRequest code).map .placeholder

/-- Reads a template literal as a path. -/
def readPath? (fullRequest : Bool) (expression : String) : Option (List Piece) :=
  match expression.toList with
  | '\x60' :: rest => (readParts [] none rest).bind (List.mapM (Part.piece? fullRequest))
  | _ => none

variable {cs rest text : List Char} {c : Char} {s t : Scan}

/-- A character that means nothing in a template stands for itself. -/
theorem readParts_plain (hbackslash : c ≠ '\\') (htick : c ≠ '\x60') (hreturn : c ≠ '\r')
    (hdollar : c = '$' → rest.head? ≠ some '\x7b') :
    readParts text none (c :: rest) = readParts (c :: text) none rest := by
  rw [readParts.eq_def]
  split
  all_goals simp_all

theorem readParts_escaped (h : isPlainEscape c = true) :
    readParts text none ('\\' :: c :: rest) = readParts (c :: text) none rest := by
  rw [readParts, if_pos h]

theorem readParts_end : readParts text none ['\x60'] = some [.text text.reverse] := by
  rw [readParts.eq_def]
  rfl

/-- No escape puts a brace at the start of a text, or takes one away. -/
theorem head?_templateText : (templateText cs).head? = some '\x7b' ↔ cs.head? = some '\x7b' := by
  cases cs with
  | nil => exact Iff.rfl
  | cons c cs =>
    rw [templateText_cons]
    split
    · rename_i hmark
      rcases hmark with rfl | rfl | ⟨rfl, -⟩ <;> simp
    · simp

/-- **Text in a template is read back**, up to what cannot go on it. -/
theorem readParts_templateText (hreturn : '\r' ∉ cs) (hrest : rest.head? ≠ some '\x7b')
    (text : List Char) :
    readParts text none (templateText cs ++ rest) = readParts (cs.reverse ++ text) none rest := by
  induction cs generalizing text with
  | nil => rfl
  | cons c cs ih =>
    obtain ⟨hc, hcs⟩ := not_or.1 (mt List.mem_cons.2 hreturn)
    rw [List.reverse_cons, List.append_assoc, List.singleton_append, ← ih hcs, templateText_cons,
      List.append_assoc]
    split
    · rename_i hmark
      refine readParts_escaped ?_
      rcases hmark with rfl | rfl | ⟨rfl, -⟩ <;> decide
    · rename_i hmark
      rw [isMarked, not_or, not_or] at hmark
      refine readParts_plain hmark.1 hmark.2.1 (Ne.symm hc) fun hdollar hbrace => ?_
      change (templateText cs ++ rest).head? = some '\x7b' at hbrace
      rw [List.head?_append, Option.or_eq_some_iff, head?_templateText] at hbrace
      rcases hbrace with hbrace | ⟨-, hbrace⟩
      · exact hmark.2.2 ⟨hdollar, hbrace⟩
      · exact hrest hbrace

/-- In a hole the reader follows the scanner, as long as it stays inside. -/
theorem readParts_within (h : run s cs = some t) (text rest code : List Char) :
    readParts text (some (s.within [true] [], code)) (cs ++ rest) =
      readParts text (some (t.within [true] [], cs.reverse ++ code)) rest := by
  induction cs generalizing s code with
  | nil =>
    cases h
    rfl
  | cons c cs ih =>
    obtain ⟨u, hstep, hrun⟩ := Option.bind_eq_some_iff.1 h
    have hinside : (u.within [true] []).holes.isEmpty = false := by simp [Scan.within]
    rw [List.cons_append, readParts, step_within hstep [true] []]
    simp only [hinside, Bool.false_eq_true, if_false]
    rw [ih hrun, List.reverse_cons, List.append_assoc]
    rfl

/-- A hole is read up to its end. -/
theorem readParts_hole {expression : String} (h : Quiet expression) :
    readParts text none ((hole expression).toList ++ rest) =
      (readParts [] none rest).map fun parts =>
        .text text.reverse :: .hole expression.toList :: parts := by
  obtain ⟨operand, hgoes⟩ := h true
  have hinner := readParts_within hgoes [] ('\x7d' :: rest) []
  have hchars : (hole expression).toList ++ rest =
      '$' :: '\x7b' :: (expression.toList ++ '\x7d' :: rest) := by
    simp [hole, inBraces]
  have hclose : readParts [] (some ((⟨.code operand, [], []⟩ : Scan).within [true] [],
      expression.toList.reverse ++ [])) ('\x7d' :: rest) =
        (readParts [] none rest).map (.hole expression.toList :: ·) := by
    rw [readParts]
    simp [Scan.within, step, next, fromCode, Scan.enter]
  rw [hchars, readParts]
  change (readParts [] (some ((⟨.code true, [], []⟩ : Scan).within [true] [], [])) _).map _ = _
  rw [hinner, hclose, Option.map_map]
  rfl

/-! ## Arguments -/

/-- The accessor for an argument has its name in it. -/
theorem argumentOf?_accessor (fullRequest : Bool) (name : String) :
    argumentOf? fullRequest
      ("encodeURIComponent(String(" ++ accessor fullRequest "path" name ++ "))").toList =
        some name.toList := by
  have haccessor : (accessor fullRequest "path" name).toList =
      (if fullRequest then "request.path?.[\"" else "request[\"").toList ++
        (Json.quoteChars name.toList ++ '"' :: "]".toList) := by
    cases fullRequest <;> simp [accessor, Json.quote]
  rw [String.toList_append, String.toList_append, List.append_assoc, argumentOf?,
    afterStart?_append]
  change (afterStart? _ _).bind _ = _
  rw [haccessor, List.append_assoc, List.append_assoc, afterStart?_append]
  change (Json.unquoteChars (_ ++ '"' :: ("]".toList ++ "))".toList))).bind _ = _
  rw [Json.unquoteChars_quoteChars]
  rfl

/-! ## Paths -/

/-- The pieces of a path: the text before the first placeholder, the placeholder, and the pieces of
what is left; a placeholder is what stands between the first opening brace and the next closing
one. -/
inductive Cut : List Char → List Piece → Prop
  /-- There is no placeholder. -/
  | last {cs : List Char} (h : ∀ before after, cs = before ++ '\x7b' :: after → '\x7d' ∉ after) :
      Cut cs [.literal cs]
  /-- There is text, perhaps none, and a placeholder. -/
  | placeholder {cs name rest : List Char} {ps : List Piece} (htext : '\x7b' ∉ cs)
      (hname : '\x7d' ∉ name) (hrest : Cut rest ps) :
      Cut (cs ++ '\x7b' :: (name ++ '\x7d' :: rest)) (.literal cs :: .placeholder name :: ps)

variable {path : List Char} {ps : List Piece} {fullRequest : Bool}

/-- The pieces make up the path. -/
theorem Cut.flatMap_fill (h : Cut path ps) : ps.flatMap (Piece.fill fun _ => none) = path := by
  induction h with
  | last => exact List.append_nil _
  | placeholder _ _ _ ih =>
    rw [List.flatMap_cons, List.flatMap_cons, ih]
    simp [Piece.fill]

/-- A text is cut in one way only at the first of a character. -/
theorem eq_of_append_cons {before other after rest : List Char} (hbefore : c ∉ before)
    (hother : c ∉ other) (h : before ++ c :: after = other ++ c :: rest) :
    before = other ∧ after = rest := by
  have hcut : cutAt? c (before ++ c :: after) = some (before, after) :=
    cutAt?_eq_some_iff.2 ⟨hbefore, rfl⟩
  rw [h, cutAt?_eq_some_iff.2 ⟨hother, rfl⟩] at hcut
  cases hcut
  exact ⟨rfl, rfl⟩

/-- Without an opening brace there is no placeholder. -/
theorem cut_text (h : '\x7b' ∉ cs) : Cut cs [.literal cs] :=
  .last fun _ _ heq => absurd (heq ▸ List.mem_append_right _ List.mem_cons_self) h

/-- Neither is there without a closing brace behind the first opening one. -/
theorem cut_unclosed {text name : List Char} (htext : '\x7b' ∉ text) (hname : '\x7d' ∉ name) :
    Cut (text ++ '\x7b' :: name) [.literal (text ++ '\x7b' :: name)] := by
  refine .last fun before after heq hclose => ?_
  rcases List.append_eq_append_iff.1 heq with ⟨middle, rfl, hrest⟩ | ⟨middle, rfl, hrest⟩
  · cases middle with
    | nil =>
      obtain ⟨-, rfl⟩ := List.cons.inj hrest
      exact hname hclose
    | cons c middle =>
      obtain ⟨-, rfl⟩ := List.cons.inj hrest
      exact hname (List.mem_append_right _ (List.mem_cons_of_mem _ hclose))
  · cases middle with
    | nil =>
      obtain ⟨-, rfl⟩ := List.cons.inj hrest
      exact hname hclose
    | cons c middle =>
      obtain ⟨rfl, -⟩ := List.cons.inj hrest
      exact htext (List.mem_append_right _ List.mem_cons_self)

/-- The pieces that are made of a path are such. -/
theorem cut_piecesFrom (rest : List Char) {text : List Char} (htext : '\x7b' ∉ text) :
    Cut (text.reverse ++ rest) (piecesFrom text none rest) ∧
      ∀ name, '\x7d' ∉ name →
        Cut (text.reverse ++ '\x7b' :: (name.reverse ++ rest))
          (piecesFrom text (some name) rest) := by
  induction rest generalizing text with
  | nil =>
    have htext' : '\x7b' ∉ text.reverse := mt List.mem_reverse.1 htext
    refine ⟨?_, fun name hname => ?_⟩
    · rw [List.append_nil]
      exact cut_text htext'
    · rw [List.append_nil]
      exact cut_unclosed htext' (mt List.mem_reverse.1 hname)
  | cons c rest ih =>
    refine ⟨?_, fun name hname => ?_⟩
    · rw [piecesFrom]
      split
      · rename_i hopen
        rw [hopen]
        exact (ih htext).2 [] List.not_mem_nil
      · rename_i hopen
        have hmore : '\x7b' ∉ c :: text := List.not_mem_cons_of_ne_of_not_mem (Ne.symm hopen) htext
        simpa using (ih hmore).1
    · rw [piecesFrom]
      split
      · rename_i hclose
        rw [hclose]
        exact .placeholder (mt List.mem_reverse.1 htext) (mt List.mem_reverse.1 hname)
          (ih (List.not_mem_nil : '\x7b' ∉ [])).1
      · rename_i hclose
        have hmore : '\x7d' ∉ c :: name := List.not_mem_cons_of_ne_of_not_mem (Ne.symm hclose) hname
        simpa using (ih htext).2 (c :: name) hmore

theorem cut_pieces (path : List Char) : Cut path (pieces path) :=
  (cut_piecesFrom path List.not_mem_nil).1

/-- A path has its pieces in one way only. -/
theorem Cut.eq_of_cut {qs : List Piece} (h : Cut path ps) (h' : Cut path qs) : ps = qs := by
  induction h generalizing qs with
  | @last cs hnone =>
    generalize hcs : cs = path at h'
    cases h' with
    | last => rfl
    | @placeholder text name rest =>
      exact absurd (List.mem_append_right _ List.mem_cons_self) (hnone text _ hcs)
  | @placeholder cs name rest ps htext hname _ ih =>
    generalize hpath : cs ++ '\x7b' :: (name ++ '\x7d' :: rest) = path at h'
    cases h' with
    | last hnone => exact absurd (List.mem_append_right _ List.mem_cons_self) (hnone _ _ hpath.symm)
    | @placeholder text other more ps' htext' hother hmore =>
      obtain ⟨rfl, hbehind⟩ := eq_of_append_cons htext htext' hpath
      obtain ⟨rfl, rfl⟩ := eq_of_append_cons hname hother hbehind
      rw [ih hmore]

/-! ## Paths are read back -/

/-- The characters of the pieces of a path in its template. -/
def templateOf (fullRequest : Bool) (ps : List Piece) : List Char :=
  ps.flatMap fun piece => (pathPiece fullRequest piece).toList

/-- The pieces are read back from their template, one after the other. -/
theorem readParts_templateOf (h : Cut path ps) (hreturn : '\r' ∉ path) :
    (readParts [] none (templateOf fullRequest ps ++ ['\x60'])).bind
      (List.mapM (Part.piece? fullRequest)) = some ps := by
  induction h with
  | @last cs _ =>
    have hchars : templateOf fullRequest [.literal cs] = templateText cs := by
      simp [templateOf, pathPiece]
    rw [hchars, readParts_templateText hreturn (by simp), List.append_nil, readParts_end,
      List.reverse_reverse]
    rfl
  | @placeholder cs name rest ps _ _ _ ih =>
    simp only [List.mem_append, List.mem_cons, not_or] at hreturn
    obtain ⟨htext, -, -, -, hrest⟩ := hreturn
    obtain ⟨parts, hparts, hpieces⟩ := Option.bind_eq_some_iff.1 (ih hrest)
    have hargument := argumentOf?_accessor fullRequest (String.ofList name)
    rw [String.toList_ofList] at hargument
    have hchars : templateOf fullRequest (.literal cs :: .placeholder name :: ps) ++ ['\x60'] =
        templateText cs ++ ((hole ("encodeURIComponent(String(" ++
          accessor fullRequest "path" (String.ofList name) ++ "))")).toList ++
            (templateOf fullRequest ps ++ ['\x60'])) := by
      simp [templateOf, pathPiece]
    rw [hchars, readParts_templateText htext (by simp [hole]), readParts_hole (quiet_argument _ _),
      hparts, List.append_nil, List.reverse_reverse, Option.map_some, Option.bind_some,
      List.mapM_cons, List.mapM_cons, Part.piece?, Part.piece?, hargument, hpieces]
    rfl

/-- **A path is read back from its template literal.**  By the rules of ECMAScript, and in either
mode, the literal consists of the text of the path and of one hole for each placeholder, in order,
whose accessor has the name of the placeholder.  Nothing in the path ends the literal early or opens
another hole. -/
theorem readPath?_pathExpression (fullRequest : Bool) {path : String} (h : '\r' ∉ path.toList) :
    ∃ ps, readPath? fullRequest (pathExpression fullRequest path) = some ps ∧
      ps.flatMap (Piece.fill fun _ => none) = path.toList ∧
      ∀ qs, Cut path.toList qs ↔ qs = ps := by
  have hcut := cut_pieces path.toList
  refine ⟨pieces path.toList, ?_, hcut.flatMap_fill, fun qs => ⟨fun hqs => hqs.eq_of_cut hcut, ?_⟩⟩
  · have hchars : (pathExpression fullRequest path).toList =
        '\x60' :: (templateOf fullRequest (pieces path.toList) ++ ['\x60']) := by
      simp [pathExpression, templateOf, String.toList_join, List.flatMap_map]
    rw [readPath?, hchars]
    exact readParts_templateOf hcut h
  · rintro rfl
    exact hcut

/-- A path with all that means something in a template, next to placeholders. -/
theorem readPath?_pathExpression_marked :
    '\r' ∉ "/\\\x60$\x7ba\x60\\\x7d$\x7b".toList ∧
      readPath? true (pathExpression true "/\\\x60$\x7ba\x60\\\x7d$\x7b") =
        some [.literal "/\\\x60$".toList, .placeholder "a\x60\\".toList,
          .literal "$\x7b".toList] := by
  have hreturn : '\r' ∉ "/\\\x60$\x7ba\x60\\\x7d$\x7b".toList := by decide
  obtain ⟨ps, hread, -, hcut⟩ := readPath?_pathExpression true hreturn
  have hpieces := (hcut _).1 (cut_pieces _)
  exact ⟨hreturn, by rw [hread, ← hpieces]; decide⟩

end TypedClient.Script
