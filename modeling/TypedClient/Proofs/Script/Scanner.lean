import TypedClient.Proofs.Declaration.Comments
import TypedClient.Proofs.Json.Quoted

/-!
# The comments of a script

What is emitted is a script, and whoever runs it takes its characters one after the other: they are
code, or they are inside a comment, a string, a template or a regular expression.

* `Place` is where a scanner is, and `next` where a character leads it, by the rules of ECMAScript:
  a comment behind two slashes ends with the line, of which there are four ends, and one that starts
  with a slash and an asterisk at the first asterisk with a slash behind it;
* `comments?` lists the comments of a script, in order.  It is none for a script that does not end
  in code, outside of all braces;
* `Scans` says of a part of a script that starts in code that it also ends there and which comments
  it has.  There is a lemma for each sort of part, and `Scans.append` puts them together.
-/

set_option autoImplicit false

namespace TypedClient.Script

open TypedClient.Declaration TypedClient.Text

/-! ## Scanning -/

/-- Where a scanner is.  Code keeps in mind whether an operand may come next: a slash starts a
regular expression there, and divides elsewhere. -/
inductive Place where
  /-- In code. -/
  | code (operand : Bool)
  /-- Behind a slash in code. -/
  | slash (operand : Bool)
  /-- In a comment that ends with the line. -/
  | line (operand : Bool) (text : List Char)
  /-- In a comment that ends with an asterisk and a slash. -/
  | block (operand : Bool) (text : List Char)
  /-- In such a comment, behind an asterisk. -/
  | star (operand : Bool) (text : List Char)
  /-- In a string between double marks, or between single ones. -/
  | string (single : Bool)
  /-- In such a string, behind a backslash. -/
  | stringEscape (single : Bool)
  /-- In the text of a template. -/
  | template
  /-- In the text of a template, behind a backslash. -/
  | templateEscape
  /-- In the text of a template, behind a dollar sign. -/
  | dollar
  /-- In a regular expression. -/
  | regex (inClass : Bool)
  /-- In a regular expression, behind a backslash. -/
  | regexEscape (inClass : Bool)
  deriving DecidableEq

/-- What a character does besides leading to a place. -/
inductive Effect where
  /-- Nothing. -/
  | none
  /-- A brace opens, which may be that of a hole in a template. -/
  | opens (hole : Bool)
  /-- The innermost brace closes; behind a hole its template goes on. -/
  | closes
  /-- A comment ends. -/
  | found (comment : String)

/-- The ends of lines. -/
def endsLine (c : Char) : Bool := c == '\n' || c == '\r' || c == '\u2028' || c == '\u2029'

/-- White space. -/
def isSpace (c : Char) : Bool :=
  if c.toNat < 128 then c.toNat == 32 || (9 ≤ c.toNat && c.toNat ≤ 13) else isBlank c ||
    c == '\ufeff'

/-- The signs that an operand may stand behind. -/
def awaitsOperand (c : Char) : Bool := "([,;:=!&|?+-*%<>~^".toList.contains c

/-- Where a character leads in code.  A statement may start behind a closing brace. -/
def fromCode (operand : Bool) (c : Char) : Place × Effect :=
  if c = '/' then (.slash operand, .none)
  else if c = '"' then (.string false, .none)
  else if c = '\x27' then (.string true, .none)
  else if c = '\x60' then (.template, .none)
  else if c = '\x7b' then (.code true, .opens false)
  else if c = '\x7d' then (.code true, .closes)
  else (.code (if isSpace c then operand else awaitsOperand c), .none)

/-- Where a character leads in the text of a template, unless it opens a hole. -/
def fromTemplate (c : Char) : Place :=
  if c = '\x60' then .code false
  else if c = '\\' then .templateEscape
  else if c = '$' then .dollar
  else .template

/-- Where a character leads in a regular expression.  A slash in brackets does not end it. -/
def fromRegex (inClass : Bool) (c : Char) : Option Place :=
  if endsLine c then none
  else if c = '\\' then some (.regexEscape inClass)
  else if c = '[' then some (.regex true)
  else if c = ']' then some (.regex false)
  else if c = '/' ∧ inClass = false then some (.code false)
  else some (.regex inClass)

/-- The text of a comment with one more character.  White space before the end of a line is not
kept, and neither are blank lines. -/
def extend (text : List Char) (c : Char) : List Char :=
  if c = '\n' then trimEnd text ++ ['\n'] else text ++ [c]

/-- Where a character leads, and what else it does.  Strings and regular expressions end on their
lines; only `U+2028` and `U+2029` may stand in strings. -/
def next : Place → Char → Option (Place × Effect)
  | .code operand, c => some (fromCode operand c)
  | .slash operand, c =>
    if c = '/' then some (.line operand ['/', '/'], .none)
    else if c = '*' then some (.block operand ['/', '*'], .none)
    else if operand then (fromRegex false c).map (·, .none)
    else some (fromCode true c)
  | .line operand text, c =>
    if endsLine c then some (.code operand, .found (String.ofList (trimEnd text)))
    else some (.line operand (text ++ [c]), .none)
  | .block operand text, c =>
    if c = '*' then some (.star operand (text ++ [c]), .none)
    else some (.block operand (extend text c), .none)
  | .star operand text, c =>
    if c = '/' then some (.code operand, .found (String.ofList (text ++ [c])))
    else if c = '*' then some (.star operand (text ++ [c]), .none)
    else some (.block operand (extend text c), .none)
  | .string single, c =>
    if c = '\n' ∨ c = '\r' then none
    else if c = (if single then '\x27' else '"') then some (.code false, .none)
    else if c = '\\' then some (.stringEscape single, .none)
    else some (.string single, .none)
  | .stringEscape single, _ => some (.string single, .none)
  | .template, c => some (fromTemplate c, .none)
  | .templateEscape, _ => some (.template, .none)
  | .dollar, c =>
    if c = '\x7b' then some (.code true, .opens true) else some (fromTemplate c, .none)
  | .regex inClass, c => (fromRegex inClass c).map (·, .none)
  | .regexEscape inClass, c => if endsLine c then none else some (.regex inClass, .none)

/-- The state of a scanner. -/
structure Scan where
  /-- Where it is. -/
  place : Place
  /-- The braces that are open, the innermost first: whether they are those of holes. -/
  holes : List Bool
  /-- The comments so far. -/
  comments : List String
  deriving DecidableEq

/-- The state at a new place.  A brace that closes must have been opened. -/
def Scan.enter (s : Scan) (place : Place) : Effect → Option Scan
  | .none => some { s with place }
  | .opens hole => some { s with place, holes := hole :: s.holes }
  | .closes =>
    match s.holes with
    | [] => none
    | hole :: holes => some { s with place := if hole then .template else place, holes }
  | .found comment => some { s with place, comments := s.comments ++ [comment] }

/-- Takes one character. -/
def step (s : Scan) (c : Char) : Option Scan :=
  (next s.place c).bind fun (place, effect) => s.enter place effect

/-- Takes characters, one after the other. -/
def run (s : Scan) : List Char → Option Scan
  | [] => some s
  | c :: cs => (step s c).bind fun t => run t cs

/-- The state at the start of a script. -/
def Scan.start : Scan := ⟨.code true, [], []⟩

/-- Whether the scanner is in code. -/
def Place.isCode : Place → Bool
  | .code _ => true
  | _ => false

/-- The comments of a script, in order. -/
def comments? (script : String) : Option (List String) :=
  (run .start script.toList).bind fun s =>
    if s.place.isCode && s.holes.isEmpty then some s.comments else none

variable {s t : Scan} {p q r : Place} {a b cs xs ys : List Char} {c : Char} {f g : List String}
  {operand : Bool}

/-! ## Parts -/

theorem run_append (s : Scan) (xs ys : List Char) :
    run s (xs ++ ys) = (run s xs).bind fun t => run t ys := by
  induction xs generalizing s with
  | nil => rfl
  | cons c xs ih =>
    rw [List.cons_append, run, run]
    cases step s c with
    | none => rfl
    | some t => exact ih t

/-- The state inside of further braces and behind further comments. -/
def Scan.within (s : Scan) (holes : List Bool) (comments : List String) : Scan :=
  ⟨s.place, s.holes ++ holes, comments ++ s.comments⟩

/-- What is outside stays. -/
theorem step_within (h : step s c = some t) (holes : List Bool) (comments : List String) :
    step (s.within holes comments) c = some (t.within holes comments) := by
  obtain ⟨⟨place, effect⟩, hnext, henter⟩ := Option.bind_eq_some_iff.1 h
  refine Option.bind_eq_some_iff.2 ⟨(place, effect), hnext, ?_⟩
  cases effect with
  | none | opens =>
    rw [← Option.some.inj henter]
    rfl
  | closes =>
    obtain ⟨here, inner, found⟩ := s
    cases inner with
    | nil => cases henter
    | cons hole inner =>
      rw [← Option.some.inj henter]
      rfl
  | found comment =>
    rw [← Option.some.inj henter]
    simp [Scan.enter, Scan.within]

theorem run_within (h : run s cs = some t) (holes : List Bool) (comments : List String) :
    run (s.within holes comments) cs = some (t.within holes comments) := by
  induction cs generalizing s with
  | nil => rw [← Option.some.inj h]; rfl
  | cons c cs ih =>
    obtain ⟨u, hstep, hrun⟩ := Option.bind_eq_some_iff.1 h
    exact Option.bind_eq_some_iff.2 ⟨_, step_within hstep holes comments, ih hrun⟩

/-- Comments that have been found stay. -/
theorem comments_prefix_of_step (h : step s c = some t) : s.comments <+: t.comments := by
  obtain ⟨⟨place, effect⟩, -, henter⟩ := Option.bind_eq_some_iff.1 h
  cases effect with
  | none | opens =>
    cases henter
    exact List.prefix_rfl
  | closes =>
    obtain ⟨here, inner, found⟩ := s
    cases inner with
    | nil => cases henter
    | cons hole inner =>
      cases henter
      exact List.prefix_rfl
  | found comment =>
    cases henter
    exact List.prefix_append _ _

theorem comments_prefix (h : run s cs = some t) : s.comments <+: t.comments := by
  induction cs generalizing s with
  | nil =>
    cases h
    exact List.prefix_rfl
  | cons c cs ih =>
    obtain ⟨u, hstep, hrun⟩ := Option.bind_eq_some_iff.1 h
    exact (comments_prefix_of_step hstep).trans (ih hrun)

/-- The characters lead from one place to another, through these comments. -/
def Goes (p : Place) (cs : List Char) (found : List String) (q : Place) : Prop :=
  run ⟨p, [], []⟩ cs = some ⟨q, [], found⟩

theorem goes_nil (p : Place) : Goes p [] [] p := rfl

theorem Goes.append (h : Goes p xs f q) (h' : Goes q ys g r) : Goes p (xs ++ ys) (f ++ g) r := by
  have hrest := run_within h' [] f
  simp only [Scan.within, List.append_nil] at hrest
  rw [Goes, run_append, h]
  exact hrest

theorem Goes.cons (h : next p c = some (q, .none)) (h' : Goes q cs f r) : Goes p (c :: cs) f r := by
  rw [Goes, run, step, h]
  exact h'

/-- The characters lead from code to code, through these comments. -/
def Scans (cs : List Char) (found : List String) : Prop :=
  ∀ operand, ∃ operand', Goes (.code operand) cs found (.code operand')

theorem scans_nil : Scans [] [] := fun operand => ⟨operand, goes_nil _⟩

theorem Scans.append (h : Scans xs f) (h' : Scans ys g) : Scans (xs ++ ys) (f ++ g) := by
  intro operand
  obtain ⟨middle, hmiddle⟩ := h operand
  obtain ⟨last, hlast⟩ := h' middle
  exact ⟨last, hmiddle.append hlast⟩

/-- Whether the characters lead from code to code and there are no comments. -/
def isQuiet (cs : List Char) : Bool :=
  [true, false].all fun operand => (run ⟨.code operand, [], []⟩ cs).any fun s =>
    s.place.isCode && s.holes.isEmpty && s.comments.isEmpty

theorem scans_of_isQuiet (h : isQuiet cs = true) : Scans cs [] := by
  intro operand
  have hrun := List.all_eq_true.1 h operand (by cases operand <;> decide)
  obtain ⟨⟨place, holes, comments⟩, hs, hend⟩ := (Option.any_eq_true _ _).1 hrun
  simp only [Bool.and_eq_true, List.isEmpty_iff] at hend
  obtain ⟨⟨hplace, rfl⟩, rfl⟩ := hend
  cases place with
  | code operand' => exact ⟨operand', hs⟩
  | _ => cases hplace

/-! ## Code -/

/-- The characters that start nothing. -/
def isPlain (c : Char) : Bool :=
  c != '/' && c != '"' && c != '\x27' && c != '\x60' && c != '\x7b' && c != '\x7d'

theorem scans_plain (h : ∀ c ∈ cs, isPlain c = true) : Scans cs [] := by
  induction cs with
  | nil => exact scans_nil
  | cons c cs ih =>
    obtain ⟨hc, hcs⟩ := List.forall_mem_cons.1 h
    simp only [isPlain, Bool.and_eq_true, bne_iff_ne] at hc
    obtain ⟨⟨⟨⟨⟨hslash, hdouble⟩, hsingle⟩, htick⟩, hopen⟩, hclose⟩ := hc
    intro operand
    obtain ⟨operand', hgoes⟩ := ih hcs (if isSpace c then operand else awaitsOperand c)
    refine ⟨operand', .cons ?_ hgoes⟩
    simp [next, fromCode, hslash, hdouble, hsingle, htick, hopen, hclose]

/-- A brace closes the one before what is inside. -/
theorem Scans.close (h : Scans cs f) (hole : Bool) :
    run ⟨.code true, [hole], []⟩ (cs ++ ['\x7d']) =
      some ⟨if hole then .template else .code true, [], f⟩ := by
  obtain ⟨operand, hinner⟩ := h true
  have hrun : run ⟨.code true, [hole], []⟩ cs = some ⟨.code operand, [hole], f⟩ :=
    run_within hinner [hole] []
  rw [run_append, hrun]
  rfl

/-- What stands in braces. -/
theorem Scans.braces (h : Scans cs f) : Scans ('\x7b' :: (cs ++ ['\x7d'])) f :=
  fun _ => ⟨true, h.close false⟩

/-- A hole in a template. -/
theorem Scans.hole (h : Scans cs f) (hp : p = .template ∨ p = .dollar) :
    Goes p ('$' :: '\x7b' :: (cs ++ ['\x7d'])) f .template := by
  have hdollar : next p '$' = some (.dollar, .none) := by rcases hp with rfl | rfl <;> rfl
  exact .cons hdollar (h.close true)

/-! ## Quiet texts -/

/-- The text leads from code to code, and there are no comments in it. -/
def Quiet (text : String) : Prop := Scans text.toList []

theorem quiet_literal (h : isQuiet cs = true) : Quiet (String.ofList cs) := by
  rw [Quiet, String.toList_ofList]
  exact scans_of_isQuiet h

theorem Quiet.append {text more : String} (h : Quiet text) (h' : Quiet more) :
    Quiet (text ++ more) := by
  rw [Quiet, String.toList_append]
  exact Scans.append h h'

/-- What stands between quiet texts. -/
theorem Scans.between {before after : String} (h : Scans cs f) (hbefore : Quiet before)
    (hafter : Quiet after) : Scans (before.toList ++ cs ++ after.toList) f := by
  have hall := (Scans.append hbefore h).append hafter
  rwa [List.append_nil] at hall

theorem quiet_word {text : String} (h : ∀ c ∈ text.toList, Naming.isIdentifierPart c = true) :
    Quiet text := by
  refine scans_plain fun c hc => ?_
  have hne (d : Char) (hd : Naming.isIdentifierPart d = false) : c ≠ d := by
    rintro rfl
    rw [h _ hc] at hd
    cases hd
  simp only [isPlain, Bool.and_eq_true, bne_iff_ne]
  exact ⟨⟨⟨⟨⟨hne _ (by decide), hne _ (by decide)⟩, hne _ (by decide)⟩, hne _ (by decide)⟩,
    hne _ (by decide)⟩, hne _ (by decide)⟩

theorem quiet_empty : Quiet "" := scans_nil

/-- Texts with others between them. -/
theorem scans_intercalate {α : Type} {xs : List α} {t : α → String} {found : α → List String}
    {sep : String} (hsep : Quiet sep) (h : ∀ x ∈ xs, Scans (t x).toList (found x)) :
    Scans (sep.intercalate (xs.map t)).toList (xs.flatMap found) := by
  rw [String.toList_intercalate]
  induction xs with
  | nil => exact scans_nil
  | cons x xs ih =>
    obtain ⟨hx, hxs⟩ := List.forall_mem_cons.1 h
    cases xs with
    | nil => simpa using hx
    | cons y ys =>
      have hrest := ih hxs
      rw [List.map_cons, List.map_cons] at hrest
      rw [List.map_cons, List.map_cons, List.map_cons, List.map_cons, List.intercalate_cons_cons,
        List.flatMap_cons]
      have hall := hx.append (Scans.append hsep hrest)
      rwa [List.nil_append, ← List.append_assoc] at hall

theorem quiet_intercalate {sep : String} {texts : List String} (hsep : Quiet sep)
    (h : ∀ text ∈ texts, Quiet text) : Quiet (sep.intercalate texts) := by
  have hall : Scans (sep.intercalate (texts.map id)).toList (texts.flatMap fun _ => []) :=
    scans_intercalate hsep h
  rwa [List.map_id, List.flatMap_eq_nil_iff.2 fun _ _ => rfl] at hall

/-! ## Strings and templates -/

/-- A character stays in the string that it is written in. -/
theorem goes_escape (c : Char) : Goes (.string false) (Json.escape c) [] (.string false) := by
  by_cases hascii : c.toNat < 128
  · exact forall_ascii (p := fun c => run ⟨.string false, [], []⟩ (Json.escape c) =
      some ⟨.string false, [], []⟩) (by decide +kernel) hascii
  · have hne (d : Char) (hd : d.toNat < 128) : c ≠ d := by
      rintro rfl
      exact hascii hd
    have hself : Json.escape c = [c] := by
      rw [Json.escape, if_neg (hne _ (by decide)), if_neg (hne _ (by decide)), if_pos (by omega)]
    rw [hself]
    refine .cons ?_ (goes_nil _)
    simp [next, hne '\n' (by decide), hne '\r' (by decide), hne '"' (by decide),
      hne '\\' (by decide)]

theorem goes_quoteChars (cs : List Char) :
    Goes (.string false) (Json.quoteChars cs) [] (.string false) := by
  induction cs with
  | nil => exact goes_nil _
  | cons c cs ih => exact (goes_escape c).append ih

/-- A literal is a string. -/
theorem quiet_quote (text : String) : Quiet (Json.quote text) := by
  intro operand
  refine ⟨false, ?_⟩
  rw [Json.quote, String.toList_ofList, List.cons_append]
  exact .cons rfl ((goes_quoteChars _).append (.cons rfl (goes_nil _)))

/-- A template from its text. -/
theorem scans_template (h : Goes .template cs f p) (hp : p = .template ∨ p = .dollar) :
    Scans ('\x60' :: (cs ++ ['\x60'])) f := by
  intro operand
  refine ⟨false, .cons rfl ?_⟩
  rw [← List.append_nil f]
  exact h.append (.cons (by rcases hp with rfl | rfl <;> rfl) (goes_nil _))

/-! ## Comments -/

theorem extend_of_ne (h : c ≠ '\n') : extend a c = a ++ [c] := if_neg h

/-- Nothing ends a comment early, so it ends where it is meant to. -/
theorem goes_block (h : NoClose cs) (text : List Char) :
    Goes (.block operand text) (cs ++ ['*', '/'])
    [String.ofList (cs.foldl extend text ++ ['*', '/'])] (.code operand) := by
  -- Behind an asterisk the same holds, as long as no slash comes next.
  suffices hboth : Goes (.block operand text) (cs ++ ['*', '/'])
        [String.ofList (cs.foldl extend text ++ ['*', '/'])] (.code operand) ∧
      (cs.head? ≠ some '/' → Goes (.star operand text) (cs ++ ['*', '/'])
        [String.ofList (cs.foldl extend text ++ ['*', '/'])] (.code operand)) from hboth.1
  induction cs generalizing text with
  | nil =>
    have hend : Goes (.star operand (text ++ ['*'])) ['/']
        [String.ofList (text ++ ['*', '/'])] (.code operand) := by
      simp [Goes, run, step, next, Scan.enter]
    exact ⟨.cons rfl hend, fun _ => .cons rfl hend⟩
  | cons c cs ih =>
    obtain ⟨hc, hcs⟩ := noClose_cons.1 h
    obtain ⟨hblock, hstar⟩ := ih hcs (extend text c)
    by_cases hmark : c = '*'
    · subst hmark
      have hrest := hstar fun hslash => hc ⟨rfl, hslash⟩
      exact ⟨.cons rfl hrest, fun _ => .cons rfl hrest⟩
    · refine ⟨.cons (by rw [next, if_neg hmark]) hblock, fun hslash => .cons ?_ hblock⟩
      rw [next, if_neg fun heq => hslash (by rw [heq]; rfl), if_neg hmark]

theorem scans_block (h : NoClose cs) : Scans ('/' :: '*' :: (cs ++ ['*', '/']))
    [String.ofList (cs.foldl extend ['/', '*'] ++ ['*', '/'])] :=
  fun operand => ⟨operand, .cons rfl (.cons rfl (goes_block h _))⟩

theorem goes_line (h : ∀ c ∈ cs, endsLine c = false) (text : List Char) :
    Goes (.line operand text) cs [] (.line operand (text ++ cs)) := by
  induction cs generalizing text with
  | nil => rw [List.append_nil]; exact goes_nil _
  | cons c cs ih =>
    obtain ⟨hc, hcs⟩ := List.forall_mem_cons.1 h
    rw [List.append_cons]
    exact .cons (by rw [next, hc]; rfl) (ih hcs _)

/-- A comment of one line ends with it. -/
theorem scans_line (h : ∀ c ∈ cs, endsLine c = false) :
    Scans ('/' :: '/' :: (cs ++ ['\n'])) [String.ofList (trimEnd ('/' :: '/' :: cs))] :=
  fun operand => ⟨operand, .cons rfl (.cons rfl ((goes_line h _).append rfl))⟩

/-- It ends earlier if there is an end of a line in it. -/
theorem exists_shorter (h : ∃ c ∈ cs, endsLine c = true) {rest : List Char}
    (hrun : run .start ('/' :: '/' :: (cs ++ rest)) = some t) :
    ∃ comment, t.comments.head? = some comment ∧ comment.length < cs.length + 2 := by
  obtain ⟨c, hfind⟩ := Option.isSome_iff_exists.1 (List.find?_isSome.2 h)
  obtain ⟨hc, before, after, rfl, hbefore⟩ := List.find?_eq_some_iff_append.1 hfind
  have hline : Goes (.code true) ('/' :: '/' :: before) [] (.line true ('/' :: '/' :: before)) :=
    .cons rfl (.cons rfl (goes_line (fun d hd => by simpa using hbefore d hd) _))
  have hend : Goes (.line true ('/' :: '/' :: before)) [c]
      [String.ofList (trimEnd ('/' :: '/' :: before))] (.code true) := by
    simp [Goes, run, step, next, hc, Scan.enter]
  have hsplit : '/' :: '/' :: (before ++ c :: after ++ rest) =
      ('/' :: '/' :: before) ++ [c] ++ (after ++ rest) := by simp
  rw [hsplit, run_append] at hrun
  obtain ⟨u, hu, hafter⟩ := Option.bind_eq_some_iff.1 hrun
  obtain rfl := Option.some.inj ((hline.append hend).symm.trans hu)
  obtain ⟨later, hlater⟩ := comments_prefix hafter
  refine ⟨_, by rw [← hlater]; rfl, ?_⟩
  have hlength : (trimEnd ('/' :: '/' :: before)).length ≤ before.length + 2 := by
    rw [trimEnd, List.length_reverse]
    exact Nat.le_trans (List.dropWhile_sublist _).length_le (Nat.le_of_eq List.length_reverse)
  rw [String.length_ofList, List.length_append, List.length_cons]
  omega

/-- The comments of a whole script. -/
theorem Scans.comments_eq {script : String} (h : Scans script.toList f) :
    comments? script = some f := by
  obtain ⟨operand, hgoes⟩ := h true
  rw [comments?, Scan.start, hgoes]
  rfl

end TypedClient.Script
