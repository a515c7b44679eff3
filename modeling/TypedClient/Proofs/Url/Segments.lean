import Mathlib.Data.List.Forall2
import TypedClient.Client.Call
import TypedClient.Proofs.Url.Percent
import TypedClient.Proofs.Yields

/-!
# Segments that are added to an address

A request goes to the address of its base with the segments of the bound path behind it.  A segment
is added by its plain text and encoded on the way, so it should stand for that text, whatever
characters the text consists of, and take one place of its own.

There are three ways for a text to miss its place.  The names of directories are left out,
characters that are skipped wherever they stand are lost (and what is left may be the name of a
directory), and an empty first segment gives way to the one that is added behind it.

* `Spells` and `Appends` say what is wanted of a segment and of the address;
* `Appendable` excludes the three ways;
* `addressOf_appends_iff` says that it is exactly then that the address is the wanted one.
-/

set_option autoImplicit false

namespace TypedClient.Url

open TypedClient.Text

/-- A segment stands for a text: its bytes, decoded, are those of the text, no character of it ends
it, and it is not read as a directory. -/
structure Spells (segment : List Char) (plain : String) : Prop where
  /-- Decoded, it is the text. -/
  decoded : decode (encodeUtf8 (String.ofList segment)) = encodeUtf8 plain
  /-- Nothing in it ends it. -/
  whole : ∀ c ∈ segment, c ∉ ['/', '\\', '?', '#']
  /-- It does not stand for the directory it is in. -/
  single : isSingleDot segment = false
  /-- It does not stand for the directory above. -/
  double : isDoubleDot segment = false

/-- The segments of a path without an empty last one. -/
def trunk (segments : List (List Char)) : List (List Char) :=
  if segments.getLast? = some [] then segments.dropLast else segments

/-- The segments of a path.  That of the root, which has none, is written as one empty segment. -/
def rooted : List (List Char) → List (List Char)
  | [] => [[]]
  | first :: rest => first :: rest

/-- An address is another one with a segment for each of the texts behind its path. -/
structure Appends (base : Url) (plain : List String) (u : Url) : Prop where
  /-- The scheme stays. -/
  scheme : u.scheme = base.scheme
  /-- The host stays. -/
  host : u.host = base.host
  /-- The port stays. -/
  port : u.port = base.port
  /-- There is one segment for each text, in order, behind those that were there. -/
  segments : ∃ added, List.Forall₂ Spells added plain ∧
    u.segments = rooted (trunk base.segments ++ added)

/-- A text that is no name of a directory and has no character that is skipped. -/
structure IsOrdinary (plain : String) : Prop where
  /-- It is not the directory itself. -/
  notSingle : plain ≠ "."
  /-- It is not the directory above. -/
  notDouble : plain ≠ ".."
  /-- No character is skipped. -/
  kept : ∀ c ∈ plain.toList, isSkipped c = false

/-- Texts that can be added behind the path of an address. -/
structure Appendable (base : Url) (plain : List String) : Prop where
  /-- Every text is ordinary. -/
  ordinary : ∀ s ∈ plain, IsOrdinary s
  /-- Nothing is added to a path of one empty segment before the last slash. -/
  behind : trunk base.segments = [[]] → plain = []
  /-- In the root, nothing is added behind an empty text. -/
  inRoot : trunk base.segments = [] → plain.head? = some "" → plain.length = 1

/-! ## Segments that stand for texts -/

/-- The ways to write a dot. -/
inductive IsDot : List Char → Prop
  /-- As it is. -/
  | plain : IsDot ['.']
  /-- Encoded, with a small letter. -/
  | lower : IsDot ['%', '2', 'e']
  /-- Encoded, with a capital letter. -/
  | upper : IsDot ['%', '2', 'E']

theorem decode_dot {dot : List Char} (h : IsDot dot) (rest : Bytes) :
    decode (bytesOf dot ++ rest) = 0x2E :: decode rest := by
  cases h with
  | plain => exact decode_cons_of_ne (by decide) rest
  | lower =>
    change decode (0x25 :: 0x32 :: 0x65 :: rest) = _
    rw [decode.eq_def]
    rfl
  | upper =>
    change decode (0x25 :: 0x32 :: 0x45 :: rest) = _
    rw [decode.eq_def]
    rfl

/-- A character in lower case comes from itself or from a capital letter. -/
theorem eq_or_of_toLower {c x : Char} (h : c.toLower = x) :
    c = x ∨ (0x41 ≤ c.toNat ∧ x.toNat = c.toNat + 0x20) := by
  delta Char.toLower at h
  split at h
  · rename_i hupper
    have hle : c.val.toNat ≤ 0x5A := hupper.2
    refine .inr ⟨hupper.1, ?_⟩
    rw [← h]
    change (c.val + 0x20).toNat = c.val.toNat + 0x20
    rw [UInt32.toNat_add]
    exact Nat.mod_eq_of_lt (by change c.val.toNat + 0x20 < _; omega)
  · exact .inl h

theorem eq_of_toLower {c x : Char} (h : c.toLower = x) (hx : x.toNat < 0x61) : c = x := by
  rcases eq_or_of_toLower h with hc | ⟨hle, hsum⟩
  · exact hc
  · omega

theorem isDot_of_toLower {cs : List Char}
    (h : cs.map Char.toLower = ['.'] ∨ cs.map Char.toLower = ['%', '2', 'e']) : IsDot cs := by
  rcases h with h | h
  · obtain ⟨c, rfl, hc⟩ := List.map_eq_singleton_iff.1 h
    rw [eq_of_toLower hc (by decide)]
    exact .plain
  · obtain ⟨percent, rest, rfl, hpercent, hrest⟩ := List.map_eq_cons_iff.1 h
    obtain ⟨two, rest, rfl, htwo, hrest⟩ := List.map_eq_cons_iff.1 hrest
    obtain ⟨e, rfl, he⟩ := List.map_eq_singleton_iff.1 hrest
    rw [eq_of_toLower hpercent (by decide), eq_of_toLower htwo (by decide)]
    rcases eq_or_of_toLower he with rfl | ⟨-, hsum⟩
    · exact .lower
    · have hcapital : e.toNat = 0x45 := by
        change 0x65 = _ at hsum
        omega
      rw [show e = 'E' from Char.toNat_inj.1 hcapital]
      exact .upper

/-- What is read as the directory it is in is a dot. -/
theorem isDot_of_isSingleDot {segment : List Char} (h : isSingleDot segment = true) :
    IsDot segment := by
  rw [isSingleDot, Bool.or_eq_true, beq_iff_eq, beq_iff_eq, lowerAscii, String.toList_ofList] at h
  refine isDot_of_toLower (h.imp (fun h => ?_) fun h => String.ofList_inj.1 h)
  rw [String.ofList_inj.1 h]
  rfl

/-- What is read as the directory above is two dots. -/
theorem dots_of_isDoubleDot {segment : List Char} (h : isDoubleDot segment = true) :
    ∃ first second, IsDot first ∧ IsDot second ∧ segment = first ++ second := by
  have hparts : ∃ a b, (a = ['.'] ∨ a = ['%', '2', 'e']) ∧ (b = ['.'] ∨ b = ['%', '2', 'e']) ∧
      segment.map Char.toLower = a ++ b := by
    rw [isDoubleDot, List.contains_iff_mem, lowerAscii, String.toList_ofList] at h
    simp only [List.mem_cons, List.not_mem_nil, or_false] at h
    rcases h with h | h | h | h
    · exact ⟨_, _, .inl rfl, .inl rfl, String.ofList_inj.1 h⟩
    · exact ⟨_, _, .inl rfl, .inr rfl, String.ofList_inj.1 h⟩
    · exact ⟨_, _, .inr rfl, .inl rfl, String.ofList_inj.1 h⟩
    · exact ⟨_, _, .inr rfl, .inr rfl, String.ofList_inj.1 h⟩
  obtain ⟨a, b, ha, hb, hmap⟩ := hparts
  obtain ⟨first, second, rfl, rfl, rfl⟩ := List.map_eq_append_iff.1 hmap
  exact ⟨first, second, isDot_of_toLower ha, isDot_of_toLower hb, rfl⟩

/-- The segment that is added for a text. -/
def encodeSegment (plain : String) : List Char := encode hiddenInSegment plain.toList

theorem decode_encodeSegment (plain : String) :
    decode (encodeUtf8 (String.ofList (encodeSegment plain))) = encodeUtf8 plain := by
  rw [encodeSegment, decode_encode (by decide), String.ofList_toList]

/-- A segment that is read as a directory comes from the name of one. -/
theorem toList_eq_of_encodeSegment {plain : String} (dots : List (List Char))
    (hdots : ∀ d ∈ dots, IsDot d) (h : encodeSegment plain = dots.flatten) :
    plain.toList = dots.map fun _ => '.' := by
  have hbytes : decode (bytesOf dots.flatten) = bytesOf (dots.map fun _ => '.') := by
    clear h
    induction dots with
    | nil => rw [List.flatten_nil, bytesOf, List.flatMap_nil, decode]; rfl
    | cons d dots ih =>
      obtain ⟨hd, hdots⟩ := List.forall_mem_cons.1 hdots
      rw [List.flatten_cons, bytesOf_append, decode_dot hd, ih hdots]
      rfl
  have hplain := decode_encodeSegment plain
  rw [h, encodeUtf8_ofList, hbytes, ← encodeUtf8_ofList] at hplain
  rw [← encodeUtf8_injective hplain, String.toList_ofList]

/-- **A text that is no name of a directory is encoded as a segment that stands for it.** -/
theorem spells_encodeSegment {plain : String} (hsingle : plain ≠ ".") (hdouble : plain ≠ "..") :
    Spells (encodeSegment plain) plain where
  decoded := decode_encodeSegment plain
  whole := by
    intro c hc hend
    rcases mem_encode hc with hshown | rfl | halnum
    · revert hshown
      simp only [List.mem_cons, List.not_mem_nil, or_false] at hend
      rcases hend with rfl | rfl | rfl | rfl <;> decide
    · revert hend
      decide
    · revert halnum
      simp only [List.mem_cons, List.not_mem_nil, or_false] at hend
      rcases hend with rfl | rfl | rfl | rfl <;> decide
  single := by
    refine eq_false_of_ne_true fun h => hsingle (String.toList_inj.1 ?_)
    refine toList_eq_of_encodeSegment [encodeSegment plain] ?_ (by simp)
    exact List.forall_mem_singleton.2 (isDot_of_isSingleDot h)
  double := by
    refine eq_false_of_ne_true fun h => hdouble (String.toList_inj.1 ?_)
    obtain ⟨first, second, hfirst, hsecond, hboth⟩ := dots_of_isDoubleDot h
    refine toList_eq_of_encodeSegment [first, second] ?_ (by simpa using hboth)
    exact List.forall_mem_cons.2 ⟨hfirst, List.forall_mem_singleton.2 hsecond⟩

theorem eq_empty_of_spells_nil {plain : String} (h : Spells [] plain) : plain = "" := by
  have hdecoded : encodeUtf8 "" = encodeUtf8 plain := by
    rw [← h.decoded, encodeUtf8_ofList, bytesOf, List.flatMap_nil, decode]
  exact (encodeUtf8_injective hdecoded).symm

/-! ## Adding one segment -/

variable {segments added : List (List Char)} {plain : List String} {s : String}

/-- The segment that is added for a text, before it is looked at as a directory. -/
def shownSegment (s : String) : List Char :=
  encode hiddenInSegment (s.toList.filter (!isSkipped ·))

/-- The directories that a segment is added to. -/
def directoriesOf (segments : List (List Char)) : List (List Char) :=
  if segments = [[]] then [] else segments

theorem addSegment_of_name (h : s = "." ∨ s = "..") : addSegment segments s = segments := by
  rw [addSegment, if_pos (by rcases h with rfl | rfl <;> rfl)]

theorem addSegment_of_ne (hsingle : s ≠ ".") (hdouble : s ≠ "..") :
    addSegment segments s
      = (enter (directoriesOf segments) (shownSegment s)).1
        ++ [(enter (directoriesOf segments) (shownSegment s)).2] := by
  have hname : ¬(s == "." || s == "..") = true := by
    simp [hsingle, hdouble]
  simp only [addSegment, if_neg hname, directoriesOf, shownSegment]

/-- An ordinary text is added as the segment that stands for it. -/
theorem addSegment_of_isOrdinary (hs : IsOrdinary s) :
    addSegment segments s = directoriesOf segments ++ [encodeSegment s] := by
  have hspells := spells_encodeSegment hs.notSingle hs.notDouble
  have hshown : shownSegment s = encodeSegment s := by
    rw [shownSegment, encodeSegment, List.filter_eq_self.2]
    exact fun c hc => by rw [hs.kept c hc]; rfl
  rw [addSegment_of_ne hs.notSingle hs.notDouble, hshown, enter, hspells.single, hspells.double]
  rfl

theorem isOrdinary_of_spells_nil (h : Spells [] s) : IsOrdinary s := by
  rw [eq_empty_of_spells_nil h]
  exact ⟨by decide, by decide, by simp⟩

/-- A text stands in the segment that is added for it if none of its characters is skipped. -/
theorem isOrdinary_of_spells (hsingle : s ≠ ".") (hdouble : s ≠ "..")
    (h : Spells (shownSegment s) s) : IsOrdinary s := by
  have hdecoded := h.decoded
  rw [shownSegment, decode_encode (by decide)] at hdecoded
  have hfilter : s.toList.filter (!isSkipped ·) = s.toList := by
    have hlist := congrArg String.toList (encodeUtf8_injective hdecoded)
    rwa [String.toList_ofList] at hlist
  refine ⟨hsingle, hdouble, fun c hc => ?_⟩
  have hkept := List.filter_eq_self.1 hfilter c hc
  simpa using hkept

/-- The directory above a path is a shorter path, or the same if the path ends in a drive or has no
segments. -/
theorem parent_cases (segments : List (List Char)) :
    parent segments = segments ∨ (parent segments).length + 1 = segments.length := by
  rw [parent]
  cases hlast : segments.getLast? with
  | none => exact .inl (List.getLast?_eq_none_iff.1 hlast).symm
  | some last =>
    simp only
    split
    · exact .inl rfl
    · have hpos : 0 < segments.length := by
        rw [List.length_pos_iff]
        rintro rfl
        cases hlast
      exact .inr (by rw [List.length_dropLast]; omega)

/-- **Adding a text makes a path no longer, or adds one segment behind its directories**, which
belongs to an ordinary text if it stands for the text. -/
theorem addSegment_cases (segments : List (List Char)) (s : String) :
    (s = "." ∨ s = "..") ∨ (addSegment segments s).length ≤ (directoriesOf segments).length ∨
      ∃ last, addSegment segments s = directoriesOf segments ++ [last] ∧
        (Spells last s → IsOrdinary s) := by
  by_cases hname : s = "." ∨ s = ".."
  · exact .inl hname
  · obtain ⟨hsingle, hdouble⟩ := not_or.1 hname
    rw [addSegment_of_ne hsingle hdouble, enter]
    refine .inr ?_
    split
    · rcases parent_cases (directoriesOf segments) with hsame | hshorter
      · exact .inr ⟨[], by rw [hsame], isOrdinary_of_spells_nil⟩
      · exact .inl (by rw [List.length_append, List.length_singleton]; exact Nat.le_of_eq hshorter)
    · split
      · exact .inr ⟨[], rfl, isOrdinary_of_spells_nil⟩
      · exact .inr ⟨_, rfl, isOrdinary_of_spells hsingle hdouble⟩

theorem length_directoriesOf_le (segments : List (List Char)) :
    (directoriesOf segments).length ≤ segments.length := by
  rw [directoriesOf]
  split
  · exact Nat.zero_le _
  · exact Nat.le_refl _

theorem length_addSegment_le (segments : List (List Char)) (s : String) :
    (addSegment segments s).length ≤ segments.length + 1 := by
  have hle := length_directoriesOf_le segments
  rcases addSegment_cases segments s with hname | hlength | ⟨last, hlast, -⟩
  · rw [addSegment_of_name hname]
    omega
  · omega
  · rw [hlast, List.length_append, List.length_singleton]
    omega

/-! ## Adding several segments -/

theorem append_singleton_ne_root {segments : List (List Char)} (hnil : segments ≠ [])
    {last : List Char} : segments ++ [last] ≠ [[]] := by
  intro h
  have hlength := congrArg List.length h
  rw [List.length_append, List.length_singleton, List.length_singleton] at hlength
  exact hnil (List.length_eq_zero_iff.1 (by omega))

/-- No text adds more than one segment. -/
theorem length_foldl_addSegment_le (plain : List String) (segments : List (List Char)) :
    (plain.foldl addSegment segments).length ≤ segments.length + plain.length := by
  induction plain generalizing segments with
  | nil => exact Nat.le_refl _
  | cons s plain ih =>
    have hstep := length_addSegment_le segments s
    have hrest := ih (addSegment segments s)
    rw [List.foldl_cons, List.length_cons]
    omega

/-- What is added to the root takes the place of its empty segment. -/
theorem length_foldl_root_le (plain : List String) :
    (plain.foldl addSegment [[]]).length ≤ max 1 plain.length := by
  cases plain with
  | nil => exact Nat.le_refl _
  | cons s plain =>
    have hstep : (addSegment [[]] s).length ≤ 1 := by
      rcases addSegment_cases [[]] s with hname | hlength | ⟨last, hlast, -⟩
      · rw [addSegment_of_name hname]
        exact Nat.le_refl _
      · exact Nat.le_trans hlength (by decide)
      · rw [hlast]
        exact Nat.le_refl _
    have hrest := length_foldl_addSegment_le plain (addSegment [[]] s)
    rw [List.foldl_cons, List.length_cons]
    omega

theorem directoriesOf_of_ne (h : segments ≠ [[]]) : directoriesOf segments = segments := if_neg h

/-- Ordinary texts behind a path that is not the root are added as the segments that stand for
them. -/
theorem foldl_of_isOrdinary {segments : List (List Char)} (hnil : segments ≠ [])
    (hroot : segments ≠ [[]]) (h : ∀ s ∈ plain, IsOrdinary s) :
    plain.foldl addSegment segments = segments ++ plain.map encodeSegment := by
  induction plain generalizing segments with
  | nil => exact (List.append_nil _).symm
  | cons s plain ih =>
    obtain ⟨hs, hplain⟩ := List.forall_mem_cons.1 h
    rw [List.foldl_cons, addSegment_of_isOrdinary hs, directoriesOf_of_ne hroot,
      ih (List.append_ne_nil_of_left_ne_nil hnil _) (append_singleton_ne_root hnil) hplain,
      List.append_assoc]
    rfl

/-- If every text adds a segment, they stand behind the path, each in the place of its text. -/
theorem foldl_of_length {segments : List (List Char)} (hnil : segments ≠ [])
    (hroot : segments ≠ [[]])
    (h : (plain.foldl addSegment segments).length = segments.length + plain.length) :
    ∃ lasts, plain.foldl addSegment segments = segments ++ lasts ∧
      List.Forall₂ (fun last s => Spells last s → IsOrdinary s) lasts plain := by
  induction plain generalizing segments with
  | nil => exact ⟨[], (List.append_nil _).symm, .nil⟩
  | cons s plain ih =>
    rw [List.foldl_cons, List.length_cons] at h
    have hrest := length_foldl_addSegment_le plain (addSegment segments s)
    rcases addSegment_cases segments s with hname | hlength | ⟨last, hlast, hordinary⟩
    · rw [addSegment_of_name hname] at hrest h
      omega
    · have hle := length_directoriesOf_le segments
      omega
    · rw [directoriesOf_of_ne hroot] at hlast
      rw [hlast] at h
      obtain ⟨lasts, hlasts, hforall⟩ :=
        ih (List.append_ne_nil_of_left_ne_nil hnil _) (append_singleton_ne_root hnil)
          (by rw [h, List.length_append, List.length_singleton]; omega)
      refine ⟨last :: lasts, ?_, .cons hordinary hforall⟩
      rw [List.foldl_cons, hlast, hlasts, List.append_assoc, List.singleton_append]

/-- Texts whose segments stand behind a path that is not the root are ordinary. -/
theorem isOrdinary_of_foldl {segments : List (List Char)} (hnil : segments ≠ [])
    (hroot : segments ≠ [[]]) (hadded : List.Forall₂ Spells added plain)
    (h : plain.foldl addSegment segments = segments ++ added) : ∀ s ∈ plain, IsOrdinary s := by
  obtain ⟨lasts, hlasts, hforall⟩ := foldl_of_length hnil hroot (by
    rw [h, List.length_append, hadded.length_eq])
  obtain rfl := List.append_cancel_left (hlasts.symm.trans h)
  clear h hlasts
  induction hadded with
  | nil => exact List.forall_mem_nil _
  | cons hspells _ ih =>
    obtain ⟨hordinary, hforall⟩ := List.forall₂_cons.1 hforall
    exact List.forall_mem_cons.2 ⟨hordinary hspells, ih hforall⟩

/-! ## Adding segments to the root -/

/-- Ordinary texts are added to the root as the segments that stand for them, unless one of them is
added behind an empty one. -/
theorem foldl_root_of_isOrdinary (h : ∀ s ∈ plain, IsOrdinary s)
    (hempty : plain.head? = some "" → plain.length = 1) :
    plain.foldl addSegment [[]] = rooted (plain.map encodeSegment) := by
  cases plain with
  | nil => rfl
  | cons s plain =>
    obtain ⟨hs, hplain⟩ := List.forall_mem_cons.1 h
    rw [List.foldl_cons, addSegment_of_isOrdinary hs]
    change plain.foldl addSegment [encodeSegment s] = encodeSegment s :: plain.map encodeSegment
    by_cases hnil : encodeSegment s = []
    · have hs : s = "" := String.toList_eq_nil_iff.1 (toList_eq_of_encodeSegment [] (by simp) hnil)
      have hlength : plain.length + 1 = 1 := hempty (by rw [hs]; rfl)
      rw [List.length_eq_zero_iff.1 (Nat.succ.inj hlength)]
      rfl
    · exact foldl_of_isOrdinary (List.cons_ne_nil _ _) (by simpa using hnil) hplain

/-- Texts whose segments stand in the root are ordinary, and none of them is behind an empty one. -/
theorem isOrdinary_of_foldl_root (hadded : List.Forall₂ Spells added plain)
    (h : plain.foldl addSegment [[]] = rooted added) :
    (∀ s ∈ plain, IsOrdinary s) ∧ (plain.head? = some "" → plain.length = 1) := by
  cases hadded with
  | nil => exact ⟨List.forall_mem_nil _, fun hempty => nomatch hempty⟩
  | @cons segment s added plain hspells hadded =>
    change (s :: plain).foldl addSegment [[]] = segment :: added at h
    rw [List.foldl_cons] at h
    have hlength : (plain.foldl addSegment (addSegment [[]] s)).length = plain.length + 1 := by
      rw [h, List.length_cons, hadded.length_eq]
    -- the first text leaves the empty segment of the root, or puts one of its own in its place
    have hfirst : addSegment [[]] s = [[]] ∨
        ∃ last, last ≠ [] ∧ addSegment [[]] s = [last] ∧ (Spells last s → IsOrdinary s) := by
      rcases addSegment_cases [[]] s with hname | hshort | ⟨last, hlast, hordinary⟩
      · exact .inl (addSegment_of_name hname)
      · have hle := length_foldl_addSegment_le plain (addSegment [[]] s)
        change (addSegment [[]] s).length ≤ 0 at hshort
        omega
      · rcases eq_or_ne last [] with rfl | hne
        · exact .inl hlast
        · exact .inr ⟨last, hne, hlast, hordinary⟩
    rcases hfirst with hsame | ⟨last, hne, hlast, hordinary⟩
    · have hle := length_foldl_root_le plain
      rw [hsame] at hlength h
      obtain rfl : plain = [] := List.length_eq_zero_iff.1 (by omega)
      obtain ⟨rfl, -⟩ := List.cons.inj h
      refine ⟨List.forall_mem_singleton.2 (isOrdinary_of_spells_nil hspells), fun _ => rfl⟩
    · have hnotRoot : [last] ≠ [[]] := by simpa using hne
      rw [hlast] at hlength h
      obtain ⟨lasts, hlasts, -⟩ :=
        foldl_of_length (List.cons_ne_nil _ _) hnotRoot (hlength.trans (Nat.add_comm _ _))
      obtain ⟨rfl, rfl⟩ := List.cons.inj (h.symm.trans hlasts)
      have hs := hordinary hspells
      refine ⟨List.forall_mem_cons.2 ⟨hs, ?_⟩, fun hempty => ?_⟩
      · exact isOrdinary_of_foldl (List.cons_ne_nil _ _) hnotRoot hadded h
      · obtain rfl : s = "" := Option.some.inj hempty
        rw [addSegment_of_isOrdinary hs] at hlast
        exact absurd (List.cons.inj hlast).1.symm hne

/-- Nothing can be added to the root behind its empty segment. -/
theorem eq_nil_of_foldl_root (hadded : List.Forall₂ Spells added plain)
    (h : plain.foldl addSegment [[]] = [[]] ++ added) : plain = [] := by
  have hle := length_foldl_root_le plain
  rw [h, List.length_append, List.length_singleton, hadded.length_eq] at hle
  exact List.length_eq_zero_iff.1 (by omega)

/-! ## Paths that are read -/

theorem rooted_of_ne_nil (h : segments ≠ []) : rooted segments = segments := by
  cases segments with
  | nil => exact absurd rfl h
  | cons first rest => rfl

theorem dropEmptyEnd_eq (h : segments ≠ []) :
    dropEmptyEnd segments = rooted (trunk segments) := by
  rw [dropEmptyEnd, trunk]
  by_cases hlast : segments.getLast? = some []
  · rw [if_pos hlast]
    by_cases hmany : 1 < segments.length
    · rw [if_pos ⟨hmany, hlast⟩, rooted_of_ne_nil]
      intro hnil
      have hlength := congrArg List.length hnil
      rw [List.length_dropLast, List.length_nil] at hlength
      omega
    · rw [if_neg fun hboth => hmany hboth.1]
      obtain ⟨only, rfl⟩ : ∃ only, segments = [only] := by
        have hpos := List.length_pos_iff.2 h
        exact List.length_eq_one_iff.1 (by omega)
      cases hlast
      rfl
  · rw [if_neg hlast, if_neg fun hboth => hlast hboth.2, rooted_of_ne_nil h]

/-- A path that is read has a segment. -/
theorem readSegments_ne_nil (text reversed : List Char) (directories : List (List Char)) :
    readSegments directories reversed text ≠ [] := by
  induction text generalizing directories reversed with
  | nil =>
    rw [readSegments]
    exact List.append_ne_nil_of_right_ne_nil _ (List.cons_ne_nil _ _)
  | cons c text ih =>
    rw [readSegments]
    split
    · exact ih _ _
    · exact ih _ _

theorem readPath_ne_nil (text : List Char) : readPath text ≠ [] := by
  unfold readPath
  split <;> exact readSegments_ne_nil _ _ _

theorem yields_readWeb (scheme : String) (text : List Char) :
    Yields (readWeb scheme text) fun u => u.segments ≠ [] :=
  (yields_true _).bind fun _ _ => yields_pure (readPath_ne_nil _)

theorem yields_read (text : String) :
    Yields (read text) fun found => ∀ u, found = some u → u.segments ≠ [] := by
  have hnone : ∀ u : Url, none = some u → u.segments ≠ [] := fun _ h => nomatch h
  unfold read
  split
  · exact yields_error _
  · split
    · refine (yields_readWeb _ _).bind fun u hu => yields_pure ?_
      rintro _ ⟨⟩
      exact hu
    · exact (yields_true _).bind fun _ _ => yields_pure hnone
    · split
      · exact (yields_true _).bind fun _ _ => yields_pure hnone
      · exact yields_pure hnone

/-- An address that is read has a segment. -/
theorem segments_ne_nil_of_ofText {text : String} {u : Url} (h : ofText text = .ok u) :
    u.segments ≠ [] := by
  rw [ofText] at h
  split at h
  · cases h
  · cases h
  · rename_i found hfound
    split at h
    · cases h
      exact yields_read text _ hfound _ rfl
    · cases h

end TypedClient.Url

namespace TypedClient.Client

open TypedClient.Url

/-- **The address of a call has exactly one segment for each text, and it stands for the text, if
the texts can be added behind the path of the base, and only then**: no text is the name of a
directory or has a tab or a line end, and none is added behind an empty segment that is the only
one. -/
theorem addressOf_appends_iff {text : String} {base : Url} (hbase : Url.ofText text = .ok base)
    (plain : List String) (query : String) :
    Appends base plain (addressOf base plain query) ↔ Appendable base plain := by
  have hsegments : (addressOf base plain query).segments
      = plain.foldl addSegment (rooted (trunk base.segments)) := by
    rw [← dropEmptyEnd_eq (segments_ne_nil_of_ofText hbase)]
    rfl
  constructor
  · rintro ⟨-, -, -, added, hadded, happended⟩
    rw [hsegments] at happended
    by_cases hnone : trunk base.segments = []
    · rw [hnone] at happended
      obtain ⟨hordinary, hempty⟩ := isOrdinary_of_foldl_root hadded happended
      exact ⟨hordinary, fun h => absurd (hnone.symm.trans h) (by simp), fun _ => hempty⟩
    · rw [rooted_of_ne_nil hnone, rooted_of_ne_nil (List.append_ne_nil_of_left_ne_nil hnone _)]
        at happended
      by_cases hroot : trunk base.segments = [[]]
      · rw [hroot] at happended
        obtain rfl := eq_nil_of_foldl_root hadded happended
        exact ⟨List.forall_mem_nil _, fun _ => rfl, fun h => absurd h hnone⟩
      · exact ⟨isOrdinary_of_foldl hnone hroot hadded happended, fun h => absurd h hroot,
          fun h => absurd h hnone⟩
  · rintro ⟨hordinary, hbehind, hempty⟩
    refine ⟨rfl, rfl, rfl, plain.map encodeSegment, ?_, hsegments.trans ?_⟩
    · exact List.forall₂_map_left_iff.2 (List.forall₂_same.2 fun s hs =>
        spells_encodeSegment (hordinary s hs).notSingle (hordinary s hs).notDouble)
    · by_cases hnone : trunk base.segments = []
      · rw [hnone]
        exact foldl_root_of_isOrdinary hordinary (hempty hnone)
      · rw [rooted_of_ne_nil hnone, rooted_of_ne_nil (List.append_ne_nil_of_left_ne_nil hnone _)]
        by_cases hroot : trunk base.segments = [[]]
        · rw [hroot, hbehind hroot]
          rfl
        · exact foldl_of_isOrdinary hnone hroot hordinary

/-- A server without a path. -/
def localServer : Url := ⟨"http", "", none, .domain "localhost", some 3042, [[]], none, none⟩

theorem ofText_localServer : Url.ofText "http://localhost:3042" = .ok localServer := by
  have hsome : (Url.ofText "http://localhost:3042").toOption = some localServer := by
    decide +kernel
  revert hsome
  cases Url.ofText "http://localhost:3042" with
  | error e => exact fun h => nomatch h
  | ok u => exact fun h => congrArg _ (Option.some.inj h)

/-- Slashes, dots and what is encoded already are kept in their segment. -/
theorem addressOf_appends_localServer :
    Url.ofText "http://localhost:3042" = .ok localServer ∧
      Appends localServer ["quotes", "../%2e?"]
        (addressOf localServer ["quotes", "../%2e?"] "") := by
  refine ⟨ofText_localServer, (addressOf_appends_iff ofText_localServer _ _).2 ⟨?_, ?_, ?_⟩⟩
  · exact List.forall_mem_cons.2 ⟨⟨by decide, by decide, by simp [isSkipped]⟩,
      List.forall_mem_singleton.2 ⟨by decide, by decide, by simp [isSkipped]⟩⟩
  · exact fun h => nomatch h
  · exact fun _ h => absurd (Option.some.inj h) (by decide)

/-- A tab and a line end are lost, so that the segment stands for another text. -/
theorem not_appends_tab :
    ¬∀ (text : String) (base : Url), Url.ofText text = .ok base →
      ∀ (plain : List String) (query : String),
        Appends base plain (addressOf base plain query) := by
  intro h
  obtain ⟨-, -, -, added, hadded, happended⟩ :=
    h _ _ ofText_localServer ["a", "a\tb\nc"] ""
  have hordinary := (isOrdinary_of_foldl_root hadded happended).1 "a\tb\nc" (by simp)
  exact absurd (hordinary.kept '\t' (by simp)) (by decide)

end TypedClient.Client
