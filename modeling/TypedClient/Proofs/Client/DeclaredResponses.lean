import Mathlib.Data.List.DropRight
import Mathlib.Data.Option.Basic
import TypedClient.Client.Validation
import TypedClient.Proofs.Declaration.Lexing
import TypedClient.Proofs.Text.Lines
import TypedClient.Proofs.Url.Segments

/-!
# Which responses are declared

A response is read against what its operation declares for its status and its media type.

* `Operation.declaredFor?` is the response that is meant for a status.  The number of a hundred is
  taken in eight bits, so from 25600 on a status can be taken for another one: `Operation.Misread`
  says when, and `response_declared_iff` that the response that is meant is found just otherwise;
* `Covers` says that a media type is for a content type, of both without parameters.  Only those of
  the content type are left out when the two are compared: `accepts_iff` says that a declared type
  that is not bare (`IsBare`) is for nothing, and `wrongContentType_iff_uncovered` which responses
  are refused.
-/

set_option autoImplicit false

/-! ## Responses for a status -/

namespace TypedClient.Api

/-- The key is for a hundred of status codes, and the status is one of them. -/
def StatusKey.HasInHundred : StatusKey → Nat → Prop
  | .range digit, status => 100 * digit ≤ status ∧ status < 100 * digit + 100
  | _, _ => False

instance (key : StatusKey) (status : Nat) : Decidable (key.HasInHundred status) :=
  match key with
  | .range digit => inferInstanceAs (Decidable (100 * digit ≤ status ∧ status < 100 * digit + 100))
  | .code _ | .default => inferInstanceAs (Decidable False)

/-- The response that is meant for a status: the first that is declared for this code, else the
first for a hundred with the code in it, else the first for everything else. -/
def Operation.declaredFor? (op : Operation) (status : Nat) : Option Response :=
  op.responses.find? (·.status = .code status) <|>
    op.responses.find? (·.status.HasInHundred status) <|>
      op.responses.find? (·.status = .default)

/-- The digits of hundreds are numbers of eight bits. -/
def Operation.DigitsFit (op : Operation) : Prop :=
  ∀ r ∈ op.responses, ∀ digit, r.status = .range digit → digit < 256

/-- A status that is beyond all hundreds of eight bits has no response of its own, and there is one
for the hundred whose number eight bits make of it. -/
def Operation.Misread (op : Operation) (status : Nat) : Prop :=
  25600 ≤ status ∧ (∀ r ∈ op.responses, r.status ≠ .code status) ∧
    ∃ r ∈ op.responses, r.status = .range (status / 100 % 256)

variable {op : Operation} {status : Nat} {key : StatusKey} {r : Response}

theorem status_of_responseAt? (h : op.responseAt? key = some r) : r.status = key := by
  simpa using List.find?_some h

theorem responseAt?_eq_none_iff :
    op.responseAt? key = none ↔ ∀ r ∈ op.responses, r.status ≠ key := by
  simp [Operation.responseAt?]

/-- Below 25600 eight bits are enough for the number of the hundred. -/
theorem hasInHundred_iff (hstatus : status < 25600) :
    key.HasInHundred status ↔ key = .range (status / 100 % 256) := by
  cases key with
  | range digit =>
    rw [StatusKey.HasInHundred, StatusKey.range.injEq]
    omega
  | code | default => exact iff_of_false id (by simp)

/-- From there on no hundred has the status in it. -/
theorem not_hasInHundred (hdigits : op.DigitsFit) (hstatus : 25600 ≤ status)
    (hr : r ∈ op.responses) :
    ¬r.status.HasInHundred status := by
  cases hkey : r.status with
  | range digit =>
    have hdigit := hdigits r hr digit hkey
    rw [StatusKey.HasInHundred]
    omega
  | code | default => exact id

/-- A response for a hundred is meant for a status only if the status is in it. -/
theorem hasInHundred_of_declaredFor? (h : op.declaredFor? status = some r) {digit : Nat}
    (hkey : r.status = .range digit) : r.status.HasInHundred status := by
  rw [Operation.declaredFor?, Option.orElse_eq_some, Option.orElse_eq_some] at h
  rcases h with hcode | ⟨-, hrange | ⟨-, hdefault⟩⟩
  · have hstatus : r.status = .code status := by simpa using List.find?_some hcode
    rw [hkey] at hstatus
    cases hstatus
  · simpa using List.find?_some hrange
  · have hstatus : r.status = .default := by simpa using List.find?_some hdefault
    rw [hkey] at hstatus
    cases hstatus

/-- A status that is misread gets a response for a hundred. -/
theorem exists_of_misread (h : op.Misread status) :
    ∃ r ∈ op.responses, op.responseFor? status = some r ∧
      r.status = .range (status / 100 % 256) := by
  obtain ⟨-, hcode, r, hr, hkey⟩ := h
  cases hrange : op.responseAt? (.range (status / 100 % 256)) with
  | none => exact absurd hkey (responseAt?_eq_none_iff.1 hrange r hr)
  | some found =>
    refine ⟨found, List.mem_of_find?_eq_some hrange, ?_, status_of_responseAt? hrange⟩
    rw [Operation.responseFor?, responseAt?_eq_none_iff.2 hcode, hrange]
    rfl

/-- Any other status gets the response that is meant for it. -/
theorem responseFor?_eq_of_not_misread (hdigits : op.DigitsFit) (h : ¬op.Misread status) :
    op.responseFor? status = op.declaredFor? status := by
  have hsame : op.responseAt? (.range (status / 100 % 256)) =
        op.responses.find? (·.status.HasInHundred status) ∨
          op.responseAt? (.code status) ≠ none := by
    rcases Nat.lt_or_ge status 25600 with hlow | hhigh
    · have htest (r : Response) : decide (r.status = .range (status / 100 % 256)) =
          decide (r.status.HasInHundred status) := decide_eq_decide.2 (hasInHundred_iff hlow).symm
      exact .inl (congrArg op.responses.find? (funext htest))
    · by_cases hcode : op.responseAt? (.code status) = none
      · have hrange : op.responseAt? (.range (status / 100 % 256)) = none := by
          rw [responseAt?_eq_none_iff] at hcode ⊢
          exact fun r hr hkey => h ⟨hhigh, hcode, r, hr, hkey⟩
        refine .inl (hrange.trans (List.find?_eq_none.2 fun r hr => ?_).symm)
        simpa using not_hasInHundred hdigits hhigh hr
      · exact .inr hcode
  have hexact : op.responses.find? (·.status = .code status) = op.responseAt? (.code status) := rfl
  have hrest : op.responses.find? (·.status = .default) = op.responseAt? .default := rfl
  rw [Operation.responseFor?, Operation.declaredFor?, hexact, hrest]
  rcases hsame with hsame | hcode
  · rw [hsame]
  · obtain ⟨r, hr⟩ := Option.ne_none_iff_exists'.1 hcode
    rw [hr]
    rfl

/-- **The response for a status** is the one that is meant for it, and no response for a hundred is
for a status outside of it, unless the status is misread: the number of its hundred is taken in
eight bits. -/
theorem response_declared_iff (hdigits : op.DigitsFit) (status : Nat) :
    (op.responseFor? status = op.declaredFor? status ↔ ¬op.Misread status) ∧
      ((∃ r digit, op.responseFor? status = some r ∧ r.status = .range digit ∧
        ¬r.status.HasInHundred status) ↔ op.Misread status) := by
  have houtside (h : op.Misread status) : ∃ r digit, op.responseFor? status = some r ∧
      r.status = .range digit ∧ ¬r.status.HasInHundred status := by
    obtain ⟨r, hr, hfound, hkey⟩ := exists_of_misread h
    exact ⟨r, _, hfound, hkey, not_hasInHundred hdigits h.1 hr⟩
  refine ⟨⟨fun hsame hmisread => ?_, responseFor?_eq_of_not_misread hdigits⟩, ?_, houtside⟩
  · obtain ⟨r, digit, hfound, hkey, hnot⟩ := houtside hmisread
    exact hnot (hasInHundred_of_declaredFor? (hsame ▸ hfound) hkey)
  · rintro ⟨r, digit, hfound, hkey, hnot⟩
    by_contra hmisread
    rw [responseFor?_eq_of_not_misread hdigits hmisread] at hfound
    exact hnot (hasInHundred_of_declaredFor? hfound hkey)

/-- An operation that declares responses for a code, for a hundred and for everything else. -/
def listShelves : Operation where
  id := "listShelves"
  declaredId := none
  method := .get
  path := "/shelves"
  summary := none
  parameters := []
  content := none
  responses := [⟨.default, none, []⟩, ⟨.range 2, none, []⟩, ⟨.code 201, none, []⟩]

theorem digitsFit_listShelves : listShelves.DigitsFit := by
  intro r hr digit hkey
  simp only [listShelves, List.mem_cons, List.not_mem_nil, or_false] at hr
  rcases hr with rfl | rfl | rfl
  · cases hkey
  · cases hkey
    decide
  · cases hkey

/-- Each of three statuses gets the response that is meant for it. -/
theorem response_declared_listShelves :
    listShelves.DigitsFit ∧
      (listShelves.responseFor? 201).map Response.status = some (.code 201) ∧
      (listShelves.responseFor? 299).map Response.status = some (.range 2) ∧
      (listShelves.responseFor? 300).map Response.status = some .default := by
  have hsame (status : Nat) (hstatus : status < 25600) :
      listShelves.responseFor? status = listShelves.declaredFor? status :=
    (response_declared_iff digitsFit_listShelves status).1.2 fun h => by
      have hhigh := h.1
      omega
  refine ⟨digitsFit_listShelves, ?_, ?_, ?_⟩
  · rw [hsame 201 (by decide)]
    rfl
  · rw [hsame 299 (by decide)]
    rfl
  · rw [hsame 300 (by decide)]
    rfl

/-- The status 25800 gets the response for successes, though one is declared for everything else. -/
theorem not_response_declared_listShelves :
    ¬∀ (op : Operation) (status : Nat), op.DigitsFit → status < 65536 →
      op.responseFor? status = op.declaredFor? status := by
  intro hclaim
  have hsame := hclaim listShelves 25800 digitsFit_listShelves (by decide)
  have hfound : listShelves.responseFor? 25800 = some ⟨.range 2, none, []⟩ := rfl
  have hmeant : listShelves.declaredFor? 25800 = some ⟨.default, none, []⟩ := rfl
  rw [hfound, hmeant] at hsame
  cases hsame

end TypedClient.Api

/-! ## Media types -/

namespace TypedClient.Text

/-- The text has no parameters of a media type in it, and no white space at its ends. -/
def IsBare (cs : List Char) : Prop :=
  ';' ∉ cs ∧ (∀ c ∈ cs.head?, isBlank c = false) ∧ ∀ c ∈ cs.getLast?, isBlank c = false

variable {cs : List Char}

theorem isBlank_head?_dropWhile (cs : List Char) :
    ∀ c ∈ (cs.dropWhile isBlank).head?, isBlank c = false := by
  intro c hc
  have hstop := List.head?_dropWhile_not isBlank cs
  rw [hc] at hstop
  simpa using hstop

/-- Without its white space, a text without parameters is bare. -/
theorem isBare_trim (h : ';' ∉ cs) : IsBare (trim cs) := by
  have htrim : trim cs <+: trimStart cs := List.rdropWhile_prefix isBlank _
  refine ⟨fun hmem => h ((List.dropWhile_suffix isBlank).subset (htrim.subset hmem)), ?_, ?_⟩
  · obtain ⟨after, hafter⟩ := htrim
    intro c hc
    refine isBlank_head?_dropWhile cs c ?_
    rw [← trimStart, ← hafter, List.head?_append, hc]
    rfl
  · intro c hc
    rw [trim, trimEnd, List.getLast?_reverse] at hc
    exact isBlank_head?_dropWhile _ c hc

theorem dropWhile_isBlank (h : ∀ c ∈ cs.head?, isBlank c = false) : cs.dropWhile isBlank = cs := by
  cases cs with
  | nil => rfl
  | cons c rest => exact List.dropWhile_cons_of_neg (Bool.not_eq_true _ ▸ h c rfl)

theorem IsBare.trim_eq (h : IsBare cs) : trim cs = cs := by
  have hend : cs.reverse.dropWhile isBlank = cs.reverse := by
    refine dropWhile_isBlank ?_
    rw [List.head?_reverse]
    exact h.2.2
  rw [trim, trimStart, dropWhile_isBlank h.2.1, trimEnd, hend, List.reverse_reverse]

theorem isBlank_toLower (c : Char) : isBlank c.toLower = isBlank c := by
  by_cases hupper : c.val ≥ 'A'.val ∧ c.val ≤ 'Z'.val
  · have hle : c.toNat ≤ 0x5A := UInt32.le_iff_toNat_le.1 hupper.2
    exact Declaration.forall_ascii (p := fun c => isBlank c.toLower = isBlank c) (by decide +kernel)
      (Nat.lt_of_le_of_lt hle (by decide))
  · exact congrArg isBlank (dif_neg hupper)

theorem toLower_eq_semicolon_iff {c : Char} : c.toLower = ';' ↔ c = ';' :=
  ⟨fun h => Url.eq_of_toLower h (by decide), fun h => h.symm ▸ rfl⟩

/-- Nothing but letters changes in lower case. -/
theorem isBare_map_toLower : IsBare (cs.map Char.toLower) ↔ IsBare cs := by
  simp [IsBare, toLower_eq_semicolon_iff, isBlank_toLower]

end TypedClient.Text

namespace TypedClient.Api

open TypedClient.Text

/-- The media type covers the content type: it is a wildcard for everything, the content type
itself, or a wildcard for the major type of it. -/
def Covers (mediaType contentType : String) : Prop :=
  mediaType = "*/*" ∨ mediaType = contentType ∨
    ∃ major minor, '/' ∉ major ∧ mediaType.toList = major ++ ['/', '*'] ∧
      contentType.toList = major ++ '/' :: minor

variable {mediaType contentType : String}

theorem isBare_essence (mediaType : String) : IsBare (essence mediaType).toList := by
  rw [essence, lowerAscii, String.toList_ofList, String.toList_ofList, isBare_map_toLower]
  refine isBare_trim fun hmem => ?_
  have hbefore := List.mem_takeWhile_imp hmem
  simp at hbefore

theorem isBare_lowerAscii_iff :
    IsBare (lowerAscii mediaType).toList ↔ IsBare mediaType.toList := by
  rw [lowerAscii, String.toList_ofList, isBare_map_toLower]

/-- Of a bare media type the essence is all there is. -/
theorem essence_of_isBare (h : IsBare mediaType.toList) :
    essence mediaType = lowerAscii mediaType := by
  have hall : mediaType.toList.takeWhile (· != ';') = mediaType.toList :=
    List.takeWhile_eq_self_iff.2 fun c hc => bne_iff_ne.2 fun heq => h.1 (heq ▸ hc)
  rw [essence, hall, h.trim_eq, String.ofList_toList]

/-- What covers a bare type is bare itself. -/
theorem Covers.isBare (h : Covers mediaType contentType) (hbare : IsBare contentType.toList) :
    IsBare mediaType.toList := by
  have hstar : isBlank '*' = false := (Declaration.isBlank_of_lt (by decide)).trans rfl
  rcases h with rfl | rfl | ⟨major, minor, -, hmedia, hcontent⟩
  · change IsBare (String.ofList ['*', '/', '*']).toList
    rw [String.toList_ofList]
    simp [IsBare, hstar]
  · exact hbare
  · rw [hcontent] at hbare
    obtain ⟨hparameters, hstart, -⟩ := hbare
    rw [hmedia]
    refine ⟨?_, ?_, by simp [hstar]⟩
    · simpa using fun hmem => hparameters (List.mem_append_left _ hmem)
    · simpa [List.head?_append] using hstart

/-- A declared media type is compared as it is written, but for the case of letters. -/
theorem accepts_iff_covers :
    accepts mediaType contentType = true ↔ Covers (lowerAscii mediaType) (essence contentType) := by
  rw [accepts, Bool.or_eq_true, Bool.or_eq_true, beq_iff_eq, beq_iff_eq, Covers, or_assoc]
  refine or_congr_right (or_congr_right ⟨fun h => ?_, ?_⟩)
  · split at h
    · rename_i major hmajor
      obtain ⟨⟨before, minor⟩, hcut, rfl⟩ := Option.map_eq_some_iff.1 (beq_iff_eq.1 h)
      obtain ⟨hnot, hcontent⟩ := cutAt?_eq_some_iff.1 hcut
      exact ⟨_, minor, hnot, beforeEnd?_eq_some_iff.1 hmajor, hcontent⟩
    · cases h
  · rintro ⟨major, minor, hnot, hmedia, hcontent⟩
    rw [beforeEnd?_eq_some_iff.2 hmedia, cutAt?_eq_some_iff.2 ⟨hnot, hcontent⟩]
    simp

/-- A declared media type is for a content type just if it has no parameters (and no white space) of
its own and its essence covers that of the content type. -/
theorem accepts_iff : accepts mediaType contentType = true ↔
    IsBare mediaType.toList ∧ Covers (essence mediaType) (essence contentType) := by
  rw [accepts_iff_covers]
  constructor
  · intro h
    have hbare := isBare_lowerAscii_iff.1 (h.isBare (isBare_essence contentType))
    rw [essence_of_isBare hbare]
    exact ⟨hbare, h⟩
  · rintro ⟨hbare, h⟩
    rwa [essence_of_isBare hbare] at h

end TypedClient.Api

namespace TypedClient.Client

open TypedClient.Api TypedClient.Text TypedClient.Types

variable {op : Operation} {g : TypeGraph} {r : Response}

theorem readDeclared_ne_wrongContentType (type : Option TypeId) (id : String) (status : Nat)
    (found : String) (expected : List String) :
    readDeclared op g type r ≠ .error (.wrongContentType id status found expected) := by
  rw [readDeclared]
  split
  · simp
  · split
    · simp
    · split
      · simp
      · simp

theorem validate_eq_wrongContentType {declared : Api.Response}
    (hdeclared : op.responseFor? r.status = some declared) (hcontent : declared.content ≠ [])
    (hmedia : ∀ media ∈ declared.content,
      ¬accepts media.mediaType (r.contentType?.getD "") = true) :
    validate op g r = .error (.wrongContentType op.id r.status (r.contentType?.getD "")
      (declared.content.map Media.mediaType)) := by
  have hnone : declared.content.find? (fun media =>
      accepts media.mediaType (r.contentType?.getD "")) = none := List.find?_eq_none.2 hmedia
  rw [validate, hdeclared]
  simp only [List.isEmpty_iff, hcontent, hnone, if_false]

/-- The content type of a response is refused just if content is declared and none is for it. -/
theorem validate_eq_wrongContentType_iff :
    (∃ id status found expected,
      validate op g r = .error (.wrongContentType id status found expected)) ↔
    ∃ declared, op.responseFor? r.status = some declared ∧ declared.content ≠ [] ∧
      ∀ media ∈ declared.content, ¬accepts media.mediaType (r.contentType?.getD "") = true := by
  refine ⟨fun ⟨id, status, found, expected, h⟩ => ?_, fun ⟨declared, hdeclared, hcontent, hmedia⟩ =>
    ⟨_, _, _, _, validate_eq_wrongContentType hdeclared hcontent hmedia⟩⟩
  rw [validate] at h
  split at h
  · cases h
  rename_i declared hdeclared
  split at h
  · cases h
  rename_i hcontent
  dsimp only at h
  split at h
  · rename_i hnone
    exact ⟨declared, hdeclared, fun hnil => hcontent (List.isEmpty_iff.2 hnil),
      List.find?_eq_none.1 hnone⟩
  · split at h
    · exact absurd h (readDeclared_ne_wrongContentType _ id status found expected)
    · cases h

/-- **A response has the wrong content type** just if content is declared for its status and each
media type of it has parameters (or white space) of its own or an essence that does not cover the
essence of the content type.  Of two media types of one essence the declared one is for the other
unless it has parameters of its own, and then it is for no response at all. -/
theorem wrongContentType_iff_uncovered (mediaType contentType : String) (op : Operation)
    (g : TypeGraph) (r : Response) :
    (accepts mediaType contentType = true ↔
      IsBare mediaType.toList ∧ Covers (essence mediaType) (essence contentType)) ∧
    (essence mediaType = essence contentType →
      (accepts mediaType contentType = true ↔ IsBare mediaType.toList)) ∧
    ((∃ id status found expected,
        validate op g r = .error (.wrongContentType id status found expected)) ↔
      ∃ declared, op.responseFor? r.status = some declared ∧ declared.content ≠ [] ∧
        ∀ media ∈ declared.content, ¬(IsBare media.mediaType.toList ∧
          Covers (essence media.mediaType) (essence (r.contentType?.getD "")))) := by
  refine ⟨accepts_iff, fun hsame => ?_, ?_⟩
  · rw [accepts_iff, hsame, and_iff_left (.inr (.inl rfl))]
  · simp only [← accepts_iff]
    exact validate_eq_wrongContentType_iff

/-- The operation of one response, of JSON with a charset. -/
def readLabel : Operation where
  id := "readLabel"
  declaredId := none
  method := .get
  path := "/label"
  summary := none
  parameters := []
  content := none
  responses := [⟨.code 200, none, [⟨"application/json; charset=utf-8", none⟩]⟩]

/-- What is declared, literally. -/
def labelResponse : Response :=
  ⟨200, ⟨[("content-type", "application/json; charset=utf-8")]⟩, []⟩

/-- A declared media type with a charset is not for a response of the very same content type. -/
theorem not_accepts_readLabel :
    ¬((∀ mediaType contentType, essence mediaType = essence contentType →
        accepts mediaType contentType = true) ∨
      ∀ (op : Operation) (g : TypeGraph) (r : Response) (declared : Api.Response) (media : Media),
        op.responseFor? r.status = some declared → media ∈ declared.content →
        r.contentType? = some media.mediaType →
        ∀ id status found expected,
          validate op g r ≠ .error (.wrongContentType id status found expected)) := by
  have hrefused :
      ¬accepts "application/json; charset=utf-8" "application/json; charset=utf-8" = true :=
    fun h => (accepts_iff.1 h).1.1 (by decide)
  rintro (hclaim | hclaim)
  · exact hrefused (hclaim _ _ rfl)
  · have hall : ∀ media ∈ [(⟨"application/json; charset=utf-8", none⟩ : Media)],
        ¬accepts media.mediaType (labelResponse.contentType?.getD "") = true :=
      fun media hmedia => List.mem_singleton.1 hmedia ▸ hrefused
    exact hclaim readLabel .empty labelResponse _ _ rfl (.head _) rfl _ _ _ _
      (validate_eq_wrongContentType rfl (List.cons_ne_nil _ _) hall)

end TypedClient.Client
