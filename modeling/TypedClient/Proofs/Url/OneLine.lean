import TypedClient.Proofs.Lists
import TypedClient.Proofs.Text.Lines
import TypedClient.Proofs.Url.Percent
import TypedClient.Proofs.Yields
import TypedClient.Url.Parse

/-!
# Addresses are written on one line

A line feed in the text that an address is read from is skipped, and in what is added to an address
it is skipped or encoded.  So none is left in an address, whichever way it has been made.

* `Url.Made` are the addresses that there are: read from a text, or made of another one;
* `Made.oneLine_text` says that such an address is written on one line.
-/

set_option autoImplicit false

namespace TypedClient.Url

open TypedClient.Text

/-! ## Parts of addresses -/

theorem newline_notMem_encode {hidden : Char → Bool} (h : hidden '\n' = true) (cs : List Char) :
    '\n' ∉ encode hidden cs := by
  intro hmem
  rcases mem_encode hmem with hshown | hpercent | halnum
  · rw [h] at hshown
    cases hshown
  · exact absurd hpercent (by decide)
  · exact absurd halnum (by decide)

theorem oneLine_ipv4Text (n : Nat) : OneLine (ipv4Text n) :=
  oneLine_intercalate (by simp [OneLine]) (List.forall_mem_map.2 fun _ _ => oneLine_toString _)

theorem oneLine_ipv6Text (pieces : List Nat) : OneLine (ipv6Text pieces) := by
  have hpiece (n : Nat) : OneLine (String.ofList (Json.hexText 1 n)) := by
    simp [Json.hexText, newline_notMem_toDigits]
  have hpieces (pieces : List Nat) :
      OneLine (":".intercalate (pieces.map fun n => String.ofList (Json.hexText 1 n))) :=
    oneLine_intercalate (by simp [OneLine]) (List.forall_mem_map.2 fun n _ => hpiece n)
  have hsign : OneLine "[" ∧ OneLine "]" ∧ OneLine "::" := by simp [OneLine]
  rw [ipv6Text]
  cases longestZeros? pieces with
  | none => simp [hpieces, hsign]
  | some zeros =>
    simp only [oneLine_append]
    exact ⟨⟨hsign.1, ⟨hpieces _, hsign.2.2⟩, hpieces _⟩, hsign.2.1⟩

/-! ## Names in Punycode -/

namespace Punycode

theorem digitChar_ne_newline (d : Nat) : digitChar d ≠ '\n' := by
  have hcode {n : Nat} (hn : 10 < n) : Char.ofNat n ≠ '\n' := by
    intro h
    by_cases hvalid : n.isValidChar
    · rw [Char.ofNat, dif_pos hvalid] at h
      have htoNat : n = 10 := congrArg Char.toNat h
      omega
    · rw [Char.ofNat, dif_neg hvalid] at h
      exact absurd h (by decide)
  rw [digitChar, show 'a'.toNat = 97 from rfl, show '0'.toNat = 48 from rfl]
  split
  · exact hcode (by omega)
  · exact hcode (by omega)

theorem newline_notMem_digits (bias place distance : Nat) : '\n' ∉ digits bias place distance := by
  fun_induction digits bias place distance with
  | case1 => simp [(digitChar_ne_newline _).symm]
  | case2 place distance t hle ih => simp [(digitChar_ne_newline _).symm, ih]

theorem newline_notMem_pass {basic point : Nat} {w : Writing} (h : '\n' ∉ w.output) (c : Char) :
    '\n' ∉ (w.pass basic point c).output := by
  rw [Writing.pass]
  split
  · exact h
  · split
    · simp [h, newline_notMem_digits]
    · exact h

theorem newline_notMem_foldl_pass {basic point : Nat} (label : List Char) {w : Writing}
    (h : '\n' ∉ w.output) : '\n' ∉ (label.foldl (Writing.pass basic point) w).output := by
  induction label generalizing w with
  | nil => exact h
  | cons c label ih => exact ih (newline_notMem_pass h c)

theorem newline_notMem_turns (label : List Char) (basic : Nat) (points : List Nat) (start : Nat)
    {w : Writing} (h : '\n' ∉ w.output) : '\n' ∉ (w.turns label basic start points).output := by
  induction points generalizing start w with
  | nil => exact h
  | cons point rest ih => exact ih _ (newline_notMem_foldl_pass label h)

theorem newline_notMem_encode {label : List Char} (h : '\n' ∉ label) : '\n' ∉ encode label := by
  have hbasic : '\n' ∉ basicPart label := fun hmem => h (List.mem_filter.1 hmem).1
  have hturns := newline_notMem_turns label (basicPart label).length (widePoints label) 0x80
    (w := ⟨[], 0, 72, (basicPart label).length⟩) (by simp)
  rw [encode]
  split <;> simp [hbasic, hturns]

end Punycode

/-! ## Hosts -/

theorem newline_notMem_asciiLabel {label name : List Char} (h : asciiLabel? label = some name)
    (hlabel : '\n' ∉ label) : '\n' ∉ name := by
  rw [asciiLabel?] at h
  split at h
  · split at h
    · cases h
    · cases h
      exact hlabel
  · split at h
    · cases h
    · cases h
      simpa using Punycode.newline_notMem_encode hlabel

theorem newline_notMem_domainName {bytes : Bytes} {name : List Char}
    (h : domainName? bytes = some name) : '\n' ∉ name := by
  rw [domainName?] at h
  obtain ⟨text, -, h⟩ := Option.bind_eq_some_iff.1 h
  dsimp only at h
  split at h
  · cases h
  · rename_i hrefused
    obtain ⟨labels, hlabels, h⟩ := Option.bind_eq_some_iff.1 h
    cases h
    have hmapped : '\n' ∉ text.toList.flatMap mapped := fun hmem =>
      hrefused (List.any_eq_true.2 ⟨'\n', hmem, by decide⟩)
    refine newline_notMem_intercalate (by decide) fun label hlabel => ?_
    obtain ⟨part, hpart, hascii⟩ := exists_of_mem_right (forall₂_of_mapM hlabels) hlabel
    exact newline_notMem_asciiLabel hascii (newline_notMem_of_mem_splitOn hmapped part hpart)

theorem yields_readHost (text : List Char) :
    Yields (readHost text) fun host => OneLine host.text := by
  unfold readHost
  split
  · rename_i result hresult
    unfold bracketedHost? at hresult
    repeat' split at hresult
    all_goals cases hresult
    · exact yields_ok (oneLine_ipv6Text _)
    · exact yields_error _
    · exact yields_error _
  · split
    · exact yields_error _
    · exact yields_error _
    · rename_i name hname
      split
      · split
        · exact yields_ok (oneLine_ipv4Text _)
        · exact yields_error _
      · exact yields_ok (oneLine_ofList.2 (newline_notMem_domainName hname))

/-! ## Paths -/

theorem newline_notMem_enter {directories : List (List Char)} {segment : List Char}
    (hdirectories : ∀ s ∈ directories, '\n' ∉ s) (hsegment : '\n' ∉ segment) :
    ∀ s ∈ (enter directories segment).1 ++ [(enter directories segment).2], '\n' ∉ s := by
  have hparent : ∀ s ∈ parent directories, '\n' ∉ s := by
    rw [parent]
    split
    · split
      · exact hdirectories
      · exact fun s hs => hdirectories s ((List.dropLast_sublist _).subset hs)
    · simp
  refine List.forall_mem_append.2 ?_
  rw [List.forall_mem_singleton, enter]
  split
  · exact ⟨hparent, List.not_mem_nil⟩
  · split
    · exact ⟨hdirectories, List.not_mem_nil⟩
    · exact ⟨hdirectories, hsegment⟩

/-- Going on to a directory adds no segment but that which entering it ends in. -/
theorem enterDirectory_subset (directories : List (List Char)) (segment : List Char) :
    enterDirectory directories segment
      ⊆ (enter directories segment).1 ++ [(enter directories segment).2] := by
  rw [enterDirectory, enter]
  split
  · exact List.subset_append_left _ _
  · split
    · exact List.subset_append_left _ _
    · exact List.Subset.refl _

theorem newline_notMem_readSegments (text reversed : List Char) {directories : List (List Char)}
    (h : ∀ s ∈ directories, '\n' ∉ s) : ∀ s ∈ readSegments directories reversed text, '\n' ∉ s := by
  have hencoded (cs : List Char) : '\n' ∉ encode hiddenInPath cs := newline_notMem_encode rfl cs
  induction text generalizing directories reversed with
  | nil =>
    have hentered := newline_notMem_enter h (hencoded reversed.reverse)
    rw [readSegments]
    generalize enter directories (encode hiddenInPath reversed.reverse) = entered at hentered ⊢
    exact hentered
  | cons c text ih =>
    rw [readSegments]
    split
    · have hentered := newline_notMem_enter h (hencoded reversed.reverse)
      exact ih _ fun s hs => hentered s (enterDirectory_subset _ _ hs)
    · exact ih _ h

theorem newline_notMem_addSegment {segments : List (List Char)} (h : ∀ s ∈ segments, '\n' ∉ s)
    (plain : String) : ∀ s ∈ addSegment segments plain, '\n' ∉ s := by
  rw [addSegment]
  split
  · exact h
  · have hdirectories : ∀ s ∈ if segments = [[]] then [] else segments, '\n' ∉ s := by
      split
      · exact List.forall_mem_nil _
      · exact h
    have hencoded : '\n' ∉ encode hiddenInSegment (plain.toList.filter (!isSkipped ·)) :=
      newline_notMem_encode rfl _
    have hentered := newline_notMem_enter hdirectories hencoded
    dsimp only
    generalize enter _ (encode hiddenInSegment _) = entered at hentered ⊢
    exact hentered

theorem newline_notMem_foldl_addSegment (plain : List String) {segments : List (List Char)}
    (h : ∀ s ∈ segments, '\n' ∉ s) : ∀ s ∈ plain.foldl addSegment segments, '\n' ∉ s := by
  induction plain generalizing segments with
  | nil => exact h
  | cons text plain ih => exact ih (newline_notMem_addSegment h text)

/-! ## Addresses -/

/-- No part of the address has a line feed. -/
structure Unbroken (u : Url) : Prop where
  /-- The scheme has none. -/
  scheme : OneLine u.scheme
  /-- The user name has none. -/
  username : OneLine u.username
  /-- The password has none. -/
  password : ∀ password, u.password = some password → OneLine password
  /-- The host has none. -/
  host : OneLine u.host.text
  /-- No segment has one. -/
  segments : ∀ segment ∈ u.segments, '\n' ∉ segment
  /-- The query has none. -/
  query : ∀ query, u.query = some query → '\n' ∉ query
  /-- The fragment has none. -/
  fragment : ∀ fragment, u.fragment = some fragment → '\n' ∉ fragment

theorem Unbroken.oneLine_text {u : Url} (h : u.Unbroken) : OneLine u.text := by
  have hsign : OneLine "://" ∧ OneLine ":" ∧ OneLine "@" ∧ OneLine "" := by simp [OneLine]
  obtain ⟨hslashes, hcolon, hat, hempty⟩ := hsign
  have huserinfo : OneLine u.userinfo := by
    rw [userinfo]
    split
    · exact hempty
    · cases hpassword : u.password with
      | none => simp [h.username, hat]
      | some password => simp [h.username, hat, hcolon, h.password _ hpassword]
  have hport : OneLine ((u.port.map fun n => ":" ++ toString n).getD "") := by
    cases u.port with
    | none => exact hempty
    | some n => exact oneLine_append.2 ⟨hcolon, oneLine_toString n⟩
  have hquery : '\n' ∉ (u.query.map ('?' :: ·)).getD [] := by
    cases hquery : u.query with
    | none => simp
    | some query => simpa using h.query _ hquery
  have hfragment : '\n' ∉ (u.fragment.map ('#' :: ·)).getD [] := by
    cases hfragment : u.fragment with
    | none => simp
    | some fragment => simpa using h.fragment _ hfragment
  have hpath : '\n' ∉ pathText u.segments := by simpa [pathText] using h.segments
  simp only [text, oneLine_append, oneLine_ofList, List.mem_append, not_or]
  exact ⟨⟨⟨⟨⟨h.scheme, hslashes⟩, huserinfo⟩, h.host⟩, hport⟩, ⟨hpath, hquery⟩, hfragment⟩

/-! ## Reading addresses -/

theorem yields_readUserinfo (special : Bool) (text : List Char) :
    Yields (readUserinfo special text) fun user =>
      '\n' ∉ user.username ∧ ∀ password, user.password = some password → '\n' ∉ password := by
  have hnone : '\n' ∉ ([] : List Char) ∧
      ∀ password : List Char, none = some password → '\n' ∉ password := by simp
  have hencoded (cs : List Char) : '\n' ∉ encode hiddenInUserinfo cs := newline_notMem_encode rfl cs
  unfold readUserinfo
  dsimp only
  split
  · exact yields_ok hnone
  · split
    · exact yields_ok hnone
    · exact yields_error _
  · refine yields_ok ⟨hencoded _, fun password hpassword => ?_⟩
    split at hpassword
    · cases hpassword
    · cases hpassword
      exact hencoded _

/-- What stands before the path of a web address has no line feed. -/
theorem yields_readAuthority {scheme : String} (hweb : schemeType scheme = .web)
    (text : List Char) :
    Yields (readAuthority scheme text) fun a =>
      '\n' ∉ a.userinfo.username ∧
      (∀ password, a.userinfo.password = some password → '\n' ∉ password) ∧
      OneLine a.host.text := by
  unfold readAuthority
  dsimp only
  refine (yields_readUserinfo _ text).bind fun user huser => ?_
  rw [if_pos hweb]
  split
  · exact yields_error _
  · refine (yields_readHost _).bind fun host hhost => ?_
    split
    · split
      · exact yields_error _
      · exact (yields_true _).bind fun _ _ => yields_pure ⟨huser.1, huser.2, hhost⟩
    · split
      · exact yields_error _
      · exact yields_pure ⟨huser.1, huser.2, hhost⟩

theorem newline_notMem_readPath (text : List Char) : ∀ s ∈ readPath text, '\n' ∉ s := by
  unfold readPath
  split <;> exact newline_notMem_readSegments _ _ (List.forall_mem_nil _)

theorem yields_readWeb_unbroken {scheme : String} (hweb : schemeType scheme = .web)
    (text : List Char) :
    Yields (readWeb scheme text) fun u => OneLine u.scheme → u.Unbroken := by
  refine (yields_readAuthority hweb _).bind fun a ha => yields_pure fun hscheme => ?_
  obtain ⟨husername, hpassword, hhost⟩ := ha
  refine ⟨hscheme, oneLine_ofList.2 husername, fun password h => ?_, hhost,
    newline_notMem_readPath _, fun query h => ?_, fun fragment h => ?_⟩
  · obtain ⟨plain, hplain, rfl⟩ := Option.map_eq_some_iff.1 h
    exact oneLine_ofList.2 (hpassword plain hplain)
  · obtain ⟨-, h⟩ := Option.ite_none_right_eq_some.1 h
    cases h
    exact newline_notMem_encode rfl _
  · obtain ⟨-, h⟩ := Option.ite_none_right_eq_some.1 h
    cases h
    exact newline_notMem_encode rfl _

theorem yields_read_unbroken (text : String) :
    Yields (read text) fun found => ∀ u, found = some u → OneLine u.scheme → u.Unbroken := by
  have hnone : ∀ u : Url, none = some u → OneLine u.scheme → u.Unbroken := fun _ h => nomatch h
  unfold read
  split
  · exact yields_error _
  · split
    · rename_i hweb
      refine (yields_readWeb_unbroken hweb _).bind fun u hu => yields_pure ?_
      rintro _ ⟨⟩
      exact hu
    · exact (yields_true _).bind fun _ _ => yields_pure hnone
    · split
      · exact (yields_true _).bind fun _ _ => yields_pure hnone
      · exact yields_pure hnone

theorem unbroken_of_ofText {text : String} {u : Url} (h : ofText text = .ok u) : u.Unbroken := by
  rw [ofText] at h
  split at h
  · cases h
  · cases h
  · rename_i found hfound
    split at h
    · rename_i hscheme
      cases h
      have honeLine : OneLine u.scheme := by
        rcases hscheme with h | h <;> rw [h, OneLine] <;> decide
      exact yields_read_unbroken text _ hfound _ rfl honeLine
    · cases h

/-! ## Addresses that are made -/

/-- The addresses that there are. -/
inductive Made : Url → Prop
  /-- An address is read from a text. -/
  | ofText {text : String} {u : Url} (h : Url.ofText text = .ok u) : Made u
  /-- Segments are added to one. -/
  | withSegments {u : Url} (h : Made u) (plain : List String) : Made (u.withSegments plain)
  /-- The query of one is replaced. -/
  | withQuery {u : Url} (h : Made u) (plain : Option String) : Made (u.withQuery plain)

theorem Made.unbroken {u : Url} (h : u.Made) : u.Unbroken := by
  induction h with
  | ofText h => exact unbroken_of_ofText h
  | @withSegments u _ plain ih =>
    have hend : ∀ s ∈ dropEmptyEnd u.segments, '\n' ∉ s := by
      rw [dropEmptyEnd]
      split
      · exact fun s hs => ih.segments s ((List.dropLast_sublist _).subset hs)
      · exact ih.segments
    exact { ih with segments := newline_notMem_foldl_addSegment plain hend }
  | @withQuery u _ plain ih =>
    refine { ih with query := fun query h => ?_ }
    obtain ⟨text, -, rfl⟩ := Option.map_eq_some_iff.1 h
    exact newline_notMem_encode rfl _

/-- **An address is written on one line.** -/
theorem Made.oneLine_text {u : Url} (h : u.Made) : OneLine u.text := h.unbroken.oneLine_text

end TypedClient.Url
