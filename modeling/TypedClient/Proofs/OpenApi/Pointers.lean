import TypedClient.OpenApi.Schema
import TypedClient.Proofs.Text.Lines

/-!
# Names in references

A reference names a component behind one of the pointers of its section.  `/` and `~` are escaped in
a name, and reading undoes the escapes of `/` in the whole name before those of `~`: the other way
round, the `~01` that a `~1` is written as would be read as `/`.

* `unescapePointer_escapePointer` says that a name is read back from its escaped form;
* `referredName?_eq_some_iff` says what is read from a reference, and behind which pointers;
* `referredName?_pointers` puts both together, and says which references name nothing.
-/

set_option autoImplicit false

namespace TypedClient.OpenApi

open TypedClient.Text

variable {kind : Section} {pointer reference name : String}

/-! ## Escapes -/

/-- A name written for a pointer. -/
def escapePointer (name : List Char) : List Char :=
  name.flatMap fun c => if c = '~' then ['~', '0'] else if c = '/' then ['~', '1'] else [c]

/-- The name with `~` escaped alone. -/
def escapeTildes (name : List Char) : List Char :=
  name.flatMap fun c => if c = '~' then ['~', '0'] else [c]

/-- The name with `/` escaped alone. -/
def escapeSlashes (name : List Char) : List Char :=
  name.flatMap fun c => if c = '/' then ['~', '1'] else [c]

/-- A name is escaped as one in which `~` is escaped first, and `/` in what comes out. -/
theorem escapePointer_eq (name : List Char) :
    escapePointer name = escapeSlashes (escapeTildes name) := by
  rw [escapePointer, escapeSlashes, escapeTildes, List.flatMap_assoc]
  refine List.flatMap_congr fun c _ => ?_
  by_cases hc : c = '~' <;> simp [hc]

/-- Undoing the escapes of `/` leaves those of `~`, since no `~` of these stands before a `1`. -/
theorem replacePair_escapePointer (name : List Char) :
    replacePair '~' '1' ['/'] (escapePointer name) = escapeTildes name := by
  induction name with
  | nil => rfl
  | cons c cs ih =>
    rw [escapePointer, escapeTildes] at ih ⊢
    by_cases htilde : c = '~'
    · simp [htilde, replacePair_cons, ih]
    · by_cases hslash : c = '/'
      · simp [hslash, replacePair_cons, ih]
      · simp [htilde, hslash, replacePair_cons, ih]

theorem replacePair_escapeTildes (name : List Char) :
    replacePair '~' '0' ['~'] (escapeTildes name) = name := by
  induction name with
  | nil => rfl
  | cons c cs ih =>
    rw [escapeTildes] at ih ⊢
    by_cases htilde : c = '~'
    · simp [htilde, replacePair_cons, ih]
    · simp [htilde, replacePair_cons, ih]

/-- **A name is read back from its escaped form.** -/
theorem unescapePointer_escapePointer (name : List Char) :
    unescapePointer (escapePointer name) = name := by
  rw [unescapePointer, replacePair_escapePointer, replacePair_escapeTildes]

theorem slash_notMem_escapePointer (name : List Char) : '/' ∉ escapePointer name := by
  intro hmem
  obtain ⟨c, -, hc⟩ := List.mem_flatMap.1 hmem
  by_cases htilde : c = '~'
  · simp [htilde] at hc
  · by_cases hslash : c = '/'
    · simp [hslash] at hc
    · simp [htilde, hslash, Ne.symm hslash] at hc

theorem escapePointer_ne_nil {name : List Char} (h : name ≠ []) : escapePointer name ≠ [] := by
  intro hnil
  rw [← unescapePointer_escapePointer name, hnil] at h
  exact h rfl

/-! ## References -/

/-- No pointer of a section starts another. -/
theorem eq_of_isPrefix (kind : Section) : ∀ first ∈ kind.pointers, ∀ second ∈ kind.pointers,
    first.toList <+: second.toList → first = second := by
  cases kind <;> decide

/-- A text stands behind one pointer of a section only, and in one way. -/
theorem eq_of_append {first second : String} {token other : List Char}
    (hfirst : first ∈ kind.pointers) (hsecond : second ∈ kind.pointers)
    (h : first.toList ++ token = second.toList ++ other) :
    first = second ∧ token = other := by
  have hsame : first = second := by
    have hstarts : first.toList <+: second.toList ++ other := ⟨token, h⟩
    rcases List.prefix_or_prefix_of_prefix hstarts (List.prefix_append ..) with hprefix | hprefix
    · exact eq_of_isPrefix kind first hfirst second hsecond hprefix
    · exact (eq_of_isPrefix kind second hsecond first hfirst hprefix).symm
  rw [hsame] at h
  exact ⟨hsame, List.append_cancel_left h⟩

/-- What stands behind a pointer of the section is found, whichever pointer it is. -/
theorem findSome?_pointers_eq_some_iff {text token : List Char} :
    (kind.pointers.findSome? fun pointer => afterStart? pointer.toList text) = some token ↔
      ∃ pointer ∈ kind.pointers, text = pointer.toList ++ token := by
  have hfound {token : List Char}
      (h : (kind.pointers.findSome? fun pointer => afterStart? pointer.toList text) = some token) :
      ∃ pointer ∈ kind.pointers, text = pointer.toList ++ token := by
    obtain ⟨pointer, hpointer, hafter⟩ := List.exists_of_findSome?_eq_some h
    exact ⟨pointer, hpointer, afterStart?_eq_some_iff.1 hafter⟩
  refine ⟨hfound, fun ⟨pointer, hpointer, htext⟩ => ?_⟩
  cases hfirst : kind.pointers.findSome? fun pointer => afterStart? pointer.toList text with
  | none =>
    have hnone := List.findSome?_eq_none_iff.1 hfirst pointer hpointer
    rw [afterStart?_eq_some_iff.2 htext] at hnone
    cases hnone
  | some other =>
    obtain ⟨second, hsecond, hother⟩ := hfound hfirst
    rw [(eq_of_append hpointer hsecond (htext.symm.trans hother)).2]

/-- What a reference names: what stands behind a pointer, if it is something and on one level. -/
theorem referredName?_eq_some_iff : referredName? kind reference = some name ↔
    ∃ pointer ∈ kind.pointers, ∃ token, reference.toList = pointer.toList ++ token ∧
      token ≠ [] ∧ '/' ∉ token ∧ name.toList = unescapePointer token := by
  rw [referredName?, Option.bind_eq_bind, Option.bind_eq_some_iff]
  simp only [findSome?_pointers_eq_some_iff, Option.ite_none_left_eq_some, Bool.or_eq_true, not_or,
    List.isEmpty_iff, List.contains_iff_mem, Option.some.injEq]
  constructor
  · rintro ⟨token, ⟨pointer, hpointer, htext⟩, ⟨hne, hslash⟩, rfl⟩
    exact ⟨pointer, hpointer, token, htext, hne, hslash, String.toList_ofList⟩
  · rintro ⟨pointer, hpointer, token, htext, hne, hslash, hname⟩
    exact ⟨token, ⟨pointer, hpointer, htext⟩, ⟨hne, hslash⟩, by rw [← hname, String.ofList_toList]⟩

/-- What a reference does not name: it starts with no pointer, or nothing stands behind the pointer,
or what does is on a lower level. -/
theorem referredName?_eq_none_iff : referredName? kind reference = none ↔
    (∀ pointer ∈ kind.pointers, ¬pointer.toList <+: reference.toList) ∨
      ∃ pointer ∈ kind.pointers, ∃ rest, reference = pointer ++ rest ∧
        (rest = "" ∨ '/' ∈ rest.toList) := by
  rw [Option.eq_none_iff_forall_ne_some]
  constructor
  · intro hnone
    by_cases hstarts : ∀ pointer ∈ kind.pointers, ¬pointer.toList <+: reference.toList
    · exact .inl hstarts
    · push Not at hstarts
      obtain ⟨pointer, hpointer, token, htext⟩ := hstarts
      refine .inr ⟨pointer, hpointer, .ofList token, ?_, ?_⟩
      · apply String.toList_injective
        simp [htext]
      · by_contra hnamed
        obtain ⟨hne, hslash⟩ := not_or.1 hnamed
        refine hnone (.ofList (unescapePointer token)) (referredName?_eq_some_iff.2 ?_)
        exact ⟨pointer, hpointer, token, htext.symm, by simpa using hne, by simpa using hslash,
          String.toList_ofList⟩
  · intro h name hname
    obtain ⟨pointer, hpointer, token, htext, hne, hslash, -⟩ := referredName?_eq_some_iff.1 hname
    rcases h with hstarts | ⟨other, hother, rest, rfl, hrest⟩
    · exact hstarts pointer hpointer ⟨token, htext.symm⟩
    · rw [String.toList_append] at htext
      obtain ⟨-, rfl⟩ := eq_of_append hother hpointer htext
      rcases hrest with rfl | hmem
      · exact hne rfl
      · exact hslash hmem

/-- A name is read back from its reference. -/
theorem referredName?_escaped (hpointer : pointer ∈ kind.pointers) (hname : name ≠ "") :
    referredName? kind (pointer ++ .ofList (escapePointer name.toList)) = some name := by
  refine referredName?_eq_some_iff.2 ⟨pointer, hpointer, escapePointer name.toList, ?_, ?_, ?_, ?_⟩
  · rw [String.toList_append, String.toList_ofList]
  · exact escapePointer_ne_nil (by simpa using hname)
  · exact slash_notMem_escapePointer name.toList
  · rw [unescapePointer_escapePointer]

/-- **Names of components are read from references as they were written**, in every section and
behind every pointer of it; a reference without such a pointer names nothing, and neither does one
that ends there or goes down further. -/
theorem referredName?_pointers (kind : Section) :
    (∀ pointer ∈ kind.pointers, ∀ name, name ≠ "" →
      referredName? kind
        (pointer ++ .ofList (escapeSlashes (escapeTildes name.toList))) = some name) ∧
      ∀ reference, referredName? kind reference = none ↔
        (∀ pointer ∈ kind.pointers, ¬pointer.toList <+: reference.toList) ∨
          ∃ pointer ∈ kind.pointers, ∃ rest, reference = pointer ++ rest ∧
            (rest = "" ∨ '/' ∈ rest.toList) := by
  refine ⟨fun pointer hpointer name hname => ?_, fun reference => referredName?_eq_none_iff⟩
  rw [← escapePointer_eq]
  exact referredName?_escaped hpointer hname

/-- In `~1/~0` nothing is taken for an escape. -/
theorem referredName?_pointers_escapes :
    "#/definitions/" ∈ Section.schemas.pointers ∧ "~1/~0" ≠ "" ∧
      referredName? .schemas "#/definitions/~01~1~00" = some "~1/~0" :=
  ⟨by decide, by decide,
    (referredName?_pointers .schemas).1 "#/definitions/" (by decide) "~1/~0" (by decide)⟩

end TypedClient.OpenApi
