import TypedClient.Proofs.Api.PathTemplate
import TypedClient.Proofs.Client.Placement
import TypedClient.Proofs.Client.Supplied
import TypedClient.Proofs.Lists
import TypedClient.Proofs.OpenApi.Operations

/-!
# Arguments in their places

What a bound request of an OpenAPI operation holds: in each place just the arguments that are
supplied for it, and no placeholder is left in the path.

The placeholders of a path are found twice, by the scan that declares a parameter for each and by
that of the segment that is filled in.  A path parameter is required, so binding succeeds only if it
has a value.

* `WrittenAs` and `WrittenInHeader` relate values to texts: `writtenAs_iff` and
  `writtenInHeader_iff` say that these are the texts that are made of them;
* `InPlace` says where the arguments are;
* `bind_inPlace` says that they are there whenever binding succeeds.
-/

set_option autoImplicit false

namespace TypedClient.Client

open TypedClient.Api TypedClient.OpenApi TypedClient.Text TypedClient.Types

/-! ## Texts of values -/

/-- The text of a value: that of a string is the string, and that of any other value its JSON. -/
inductive WrittenAs : Json → List Char → Prop
  /-- A string stands for itself. -/
  | string (s : String) : WrittenAs (.string s) s.toList
  /-- Any other value is written as JSON. -/
  | json {value : Json} (h : ∀ s, value ≠ .string s) : WrittenAs value value.compact.toList

/-- The text of the items of a list, with a comma between one and the next. -/
inductive Listed : List Json → List Char → Prop
  /-- There are no items. -/
  | nil : Listed [] []
  /-- There is one item. -/
  | single {item : Json} {text : List Char} (h : WrittenAs item text) : Listed [item] text
  /-- There is an item before others. -/
  | cons {item next : Json} {rest : List Json} {text others : List Char} (h : WrittenAs item text)
    (hothers : Listed (next :: rest) others) :
    Listed (item :: next :: rest) (text ++ ',' :: others)

/-- The text of a value in a header: that of a list is the text of its items. -/
inductive WrittenInHeader : Json → List Char → Prop
  /-- A list is written item by item. -/
  | list {items : List Json} {text : List Char} (h : Listed items text) :
    WrittenInHeader (.array items) text
  /-- Any other value is written as everywhere. -/
  | plain {value : Json} {text : List Char} (hlist : ∀ items, value ≠ .array items)
    (h : WrittenAs value text) : WrittenInHeader value text

variable {value : Json} {items : List Json} {text : List Char}

theorem writtenAs_iff : WrittenAs value text ↔ text = (scalarText value).toList := by
  constructor
  · rintro (s | h)
    · rfl
    · rw [scalarText.eq_def]
      split
      · exact absurd rfl (h _)
      · rfl
  · rintro rfl
    cases value with
    | string s => exact .string s
    | _ => exact .json fun _ => Json.noConfusion

theorem listed_iff :
    Listed items text ↔ text = (",".intercalate (items.map scalarText)).toList := by
  induction items generalizing text with
  | nil =>
    refine ⟨fun h => ?_, fun h => h ▸ .nil⟩
    cases h
    rfl
  | cons item rest ih =>
    cases rest with
    | nil =>
      rw [List.map_singleton, String.intercalate_singleton, ← writtenAs_iff]
      exact ⟨fun | .single h => h, .single⟩
    | cons next rest =>
      rw [List.map_cons, List.map_cons, String.intercalate_cons_cons, ← List.map_cons,
        String.toList_append, String.toList_append, List.append_assoc]
      constructor
      · rintro (_ | _ | @⟨_, _, _, first, others, h, hothers⟩)
        rw [writtenAs_iff.1 h, ih.1 hothers]
        rfl
      · rintro rfl
        exact .cons (writtenAs_iff.2 rfl) (ih.2 rfl)

theorem writtenInHeader_iff : WrittenInHeader value text ↔ text = (headerText value).toList := by
  constructor
  · rintro (h | ⟨hlist, h⟩)
    · exact listed_iff.1 h
    · rw [headerText.eq_def]
      split
      · exact absurd rfl (hlist _)
      · exact writtenAs_iff.1 h
  · rintro rfl
    cases value with
    | array items => exact .list (listed_iff.2 rfl)
    | _ => exact .plain (fun _ => Json.noConfusion) (writtenAs_iff.2 rfl)

/-! ## What is given -/

/-- The text of the value that is supplied for a parameter of the path. -/
def PathText (supplied : Parameter → Json → Prop) (op : Operation) (name text : List Char) : Prop :=
  ∃ p ∈ op.parameters, p.location = .path ∧ p.name.toList = name ∧
    ∃ value, supplied p value ∧ WrittenAs value text

/-- The entries of a query: one for every query parameter that a value is supplied for, in order. -/
inductive QueryOf (supplied : Parameter → Json → Prop) :
    List Parameter → List (String × Json) → Prop
  /-- There are no parameters. -/
  | nil : QueryOf supplied [] []
  /-- A value is supplied for a query parameter. -/
  | entry {p : Parameter} {value : Json} {rest : List Parameter} {entries : List (String × Json)}
    (hplace : p.location = .query) (hvalue : supplied p value)
    (hrest : QueryOf supplied rest entries) :
    QueryOf supplied (p :: rest) ((p.name, value) :: entries)
  /-- The parameter is none of the query, or no value is supplied for it. -/
  | skip {p : Parameter} {rest : List Parameter} {entries : List (String × Json)}
    (hnone : p.location = .query → ∀ value, ¬supplied p value)
    (hrest : QueryOf supplied rest entries) : QueryOf supplied (p :: rest) entries

/-- The value that is supplied for the last header parameter of a name, where names that differ in
case are one name. -/
def LastOfHeader (supplied : Parameter → Json → Prop) (op : Operation) (name : String)
    (value : Json) : Prop :=
  ∃ before p after, op.parameters = before ++ p :: after ∧
    p.location = .header ∧ lowerAscii p.name = name ∧ supplied p value ∧
    ∀ q ∈ after, q.location = .header → lowerAscii q.name = name → ∀ other, ¬supplied q other

/-- The arguments of a request are in their places, where `supplied` says what is supplied for each
parameter. -/
structure InPlace (supplied : Parameter → Json → Prop) (op : Operation) (r : Bound) : Prop where
  /-- The segments are those of the path that are not empty, with texts in place of all
  placeholders. -/
  segments : List.Forall₂ (Filled (PathText supplied op))
    ((splitOn '/' op.path.toList).filter (!·.isEmpty)) (r.segments.map String.toList)
  /-- The query has one entry for every query parameter that a value is supplied for, in order. -/
  query : QueryOf supplied op.parameters r.query
  /-- No header occurs twice. -/
  nodup : (r.headers.entries.map Prod.fst).Nodup
  /-- The headers are those of header parameters, in lower case, with the text of the last value
  that is supplied for the name. -/
  headers : ∀ name text, (name, text) ∈ r.headers.entries ↔
    ∃ value, LastOfHeader supplied op name value ∧ WrittenInHeader value text.toList

variable {op : Operation} {g : TypeGraph} {a : Arguments} {input : CallInput} {fullRequest : Bool}

/-! ## The path -/

theorem mem_givenIn {location : Location} {name : String} {value : Json} :
    (name, value) ∈ givenIn op a location ↔
      ∃ p ∈ op.parameters, p.location = location ∧ p.name = name ∧ a.Gives p value := by
  simp only [givenIn, givenAmong, List.mem_filterMap, List.mem_filter, decide_eq_true_eq,
    Option.map_eq_some_iff, Prod.mk.injEq]
  constructor
  · rintro ⟨p, ⟨hp, hlocation⟩, _, hgiven, rfl, rfl⟩
    exact ⟨p, hp, hlocation, rfl, hgiven⟩
  · rintro ⟨p, hp, hlocation, rfl, hgiven⟩
    exact ⟨p, ⟨hp, hlocation⟩, value, hgiven, rfl, rfl⟩

/-- A path parameter with a value fills placeholders of its name. -/
theorem exists_pathText {p : Parameter} (hp : p ∈ op.parameters) (hlocation : p.location = .path)
    {value : Json} (hvalue : a.Gives p value) {name : List Char}
    (hname : p.name = String.ofList name) :
    ∃ text, ((Dict.get? (placedArguments op a).path (String.ofList name)).map fun value =>
      (scalarText value).toList) = some text ∧ PathText a.Gives op name text := by
  have hmem : (p.name, value) ∈ (givenIn op a .path).reverse :=
    List.mem_reverse.2 (mem_givenIn.2 ⟨p, hp, hlocation, rfl, hvalue⟩)
  have hcontains := Dict.contains_of_mem_keys (List.mem_map_of_mem hmem)
  obtain ⟨found, hfound⟩ := Option.isSome_iff_exists.1 hcontains
  obtain ⟨q, hq, hqlocation, hqname, hqvalue⟩ :=
    mem_givenIn.1 (List.mem_reverse.1 (Dict.mem_of_get? hfound))
  rw [placedArguments, Dict.get?_ofList, ← hname, hfound]
  refine ⟨_, rfl, q, hq, hqlocation, ?_, found, hqvalue, writtenAs_iff.2 rfl⟩
  rw [hqname, hname, String.toList_ofList]

/-- All placeholders of the path give way to values. -/
theorem filled_segments (harranged : Arranged op) (hpath : WellFormed op.path.toList)
    (hgiven : AllGiven op a) :
    List.Forall₂ (Filled (PathText a.Gives op))
      ((splitOn '/' op.path.toList).filter (!·.isEmpty))
      ((fillPath op.path (placedArguments op a).path).map String.toList) := by
  rw [fillPath, List.map_map, List.forall₂_map_right_iff, List.forall₂_same]
  intro segment hsegment
  obtain ⟨hwell, hnames⟩ := segments_of_wellFormed hpath segment (List.mem_filter.1 hsegment).1
  rw [Function.comp_apply, String.toList_ofList]
  refine filled_fill hwell fun name hname => ?_
  obtain ⟨p, hp, hlocation, hpname⟩ :=
    harranged.declared _ (mem_placeholders hpath (hnames name hname))
  have hplace : p.location ≠ .body := by
    rw [hlocation]
    exact Location.noConfusion
  obtain ⟨value, hvalue⟩ := hgiven p hp hplace (harranged.required p hp hlocation)
  exact exists_pathText hp hlocation hvalue hpname

/-! ## The query -/

/-- What is given for query parameters are the entries of a query. -/
theorem queryOf_givenAmong (parameters : List Parameter) :
    QueryOf a.Gives parameters (givenAmong a .query parameters) := by
  induction parameters with
  | nil => exact .nil
  | cons p rest ih =>
    rw [givenAmong_cons]
    by_cases hplace : p.location = .query
    · cases hvalue : given? (a.valueOf p) with
      | none =>
        have hnone : givenAmong a .query [p] = [] := by simp [givenAmong, hplace, hvalue]
        rw [hnone]
        refine .skip (fun _ value hgives => ?_) ih
        cases hvalue.symm.trans hgives
      | some value =>
        have hentry : givenAmong a .query [p] = [(p.name, value)] := by
          simp [givenAmong, hplace, hvalue]
        rw [hentry]
        exact .entry hplace hvalue ih
    · have hnone : givenAmong a .query [p] = [] := by simp [givenAmong, hplace]
      rw [hnone]
      exact .skip (fun hquery => absurd hquery hplace) ih

/-! ## Headers -/

/-- The value that is given for a parameter, if it is a header of the given name. -/
def headerValue? (a : Arguments) (name : String) (p : Parameter) : Option Json :=
  if p.location = .header ∧ lowerAscii p.name = name then given? (a.valueOf p) else none

theorem headerValue?_eq_some_iff {name : String} {p : Parameter} {value : Json} :
    headerValue? a name p = some value ↔
      p.location = .header ∧ lowerAscii p.name = name ∧ a.Gives p value := by
  rw [headerValue?, Option.ite_none_right_eq_some, and_assoc, Arguments.Gives]

/-- The search from the last parameter on finds the last value of a header. -/
theorem findSome?_headerValue?_iff {name : String} {value : Json} :
    op.parameters.reverse.findSome? (headerValue? a name) = some value ↔
      LastOfHeader a.Gives op name value := by
  have hpassed (q : Parameter) : headerValue? a name q = none ↔
      (q.location = .header → lowerAscii q.name = name → ∀ other, ¬a.Gives q other) := by
    simp only [Option.eq_none_iff_forall_ne_some, ne_eq, headerValue?_eq_some_iff]
    exact ⟨fun h hplace hname other hgives => h other ⟨hplace, hname, hgives⟩,
      fun h other ⟨hplace, hname, hgives⟩ => h hplace hname other hgives⟩
  rw [List.findSome?_eq_some_iff]
  constructor
  · rintro ⟨after, p, before, hsplit, hp, hafter⟩
    obtain ⟨hplace, hname, hgives⟩ := headerValue?_eq_some_iff.1 hp
    refine ⟨before.reverse, p, after.reverse, ?_, hplace, hname, hgives, fun q hq => ?_⟩
    · rw [List.reverse_eq_iff.1 hsplit, List.reverse_append, List.reverse_cons, List.append_assoc]
      rfl
    · exact (hpassed q).1 (hafter q (List.mem_reverse.1 hq))
  · rintro ⟨before, p, after, hsplit, hplace, hname, hgives, hafter⟩
    refine ⟨after.reverse, p, before.reverse, ?_,
      headerValue?_eq_some_iff.2 ⟨hplace, hname, hgives⟩, fun q hq => ?_⟩
    · rw [hsplit, List.reverse_append, List.reverse_cons, List.append_assoc]
      rfl
    · exact (hpassed q).2 (hafter q (List.mem_reverse.1 hq))

theorem get?_placedHeaders (name : String) :
    Dict.get? (placedArguments op a).headers.entries name
      = (op.parameters.reverse.findSome? (headerValue? a name)).map headerText := by
  rw [placedArguments, Dict.get?_ofList, givenIn, givenAmong, List.map_filterMap,
    List.filterMap_filter, ← List.filterMap_reverse, Dict.get?_filterMap, List.map_findSome?]
  refine findSome?_congr fun p _ => ?_
  rw [Function.comp_apply, headerValue?]
  by_cases hplace : p.location = .header
  · cases given? (a.valueOf p) <;> simp [hplace, headerEntry, eq_comm, apply_ite]
  · simp [hplace]

/-- The headers that are placed are the last of each name. -/
theorem mem_placedHeaders {name text : String} :
    (name, text) ∈ (placedArguments op a).headers.entries ↔
      ∃ value, LastOfHeader a.Gives op name value ∧ WrittenInHeader value text.toList := by
  have hordered : (placedArguments op a).headers.entries.Ordered := Dict.ordered_ofList _
  have hget : (name, text) ∈ (placedArguments op a).headers.entries ↔
      Dict.get? (placedArguments op a).headers.entries name = some text :=
    ⟨Dict.get?_of_mem hordered, Dict.mem_of_get?⟩
  rw [hget, get?_placedHeaders, Option.map_eq_some_iff]
  refine exists_congr fun value => ?_
  rw [findSome?_headerValue?_iff, writtenInHeader_iff, String.toList_inj]
  exact and_congr_right' eq_comm

/-! ## All places -/

/-- **Arguments are put in their places.**  Whenever the arguments of an OpenAPI operation are
bound, each segment of its path has the text of an argument in place of every placeholder, as it is;
the query holds the arguments for query parameters, in order; and the headers are those that
arguments are supplied for, by their names in lower case, each with the text of the last one. -/
theorem bind_inPlace {document : Json} {kind : Option SchemaKind} {api : Definition}
    (hnormal : normalize document kind = .ok api) (hkind : api.kind = .openApi)
    (hop : op ∈ api.operations) (hpath : WellFormed op.path.toList) {r : Bound}
    (hbind : bind op g input fullRequest = .ok r) :
    InPlace (Supplied fullRequest input.arguments) op r := by
  obtain ⟨a, hread, hbound⟩ := (bind_eq_ok_iff r).1 hbind
  obtain ⟨-, rfl⟩ := read_eq_ok_iff.1 hread
  obtain ⟨hmissing, placed, hplaced, -, hr⟩ := (bindRead_eq_ok_iff r).1 hbound
  obtain ⟨-, rfl⟩ := placeAll_eq_ok_iff.1 hplaced
  have harranged := arranged_of_normalize hnormal hkind op hop
  rw [hr, ← gives_argumentsOf]
  exact ⟨filled_segments harranged hpath (given_of_missing? hmissing), queryOf_givenAmong _,
    Dict.nodup_ofList _, fun _ _ => mem_placedHeaders⟩

/-! ## A request with arguments in all places -/

/-- The schema of lists. -/
def listSchema : Json := .object [("items", .object []), ("type", .string "array")]

/-- A document with one operation, whose path has a placeholder inside a segment and whose headers
differ in case alone. -/
def postersDocument : Json := .object [
  ("openapi", .string "3.0.3"),
  ("paths", .object [("/movies/\x7bid\x7d/posters/\x7bsize\x7d.png", .object [("get", .object [
    ("operationId", .string "findPoster"),
    ("parameters", .array [
      .object [("in", .string "query"), ("name", .string "dry"), ("schema", textSchema)],
      .object [("in", .string "query"), ("name", .string "lang"), ("schema", textSchema)],
      .object [("in", .string "header"), ("name", .string "X-Tag"), ("schema", textSchema)],
      .object [("in", .string "header"), ("name", .string "x-tag"), ("schema", listSchema)],
      .object [("in", .string "header"), ("name", .string "X-TAG"), ("schema", textSchema)]])])])])]

/-- The definition of the document. -/
def postersApi : Definition :=
  match normalize postersDocument none with
  | .ok api => api
  | .error _ => ⟨.openApi, "", "", [], [], .empty, none⟩

theorem normalize_posters : normalize postersDocument none = .ok postersApi := by
  obtain ⟨api, hapi⟩ := exists_eq_ok (m := normalize postersDocument none) (by decide +kernel)
  rw [postersApi, hapi]

theorem kind_posters : postersApi.kind = .openApi := kind_eq_openApi normalize_posters rfl

/-- The operation of the document. -/
def findPoster : Operation where
  id := "findPoster"
  declaredId := some "findPoster"
  method := .get
  path := "/movies/\x7bid\x7d/posters/\x7bsize\x7d.png"
  summary := none
  parameters := [⟨"dry", .query, false, 0, none⟩, ⟨"lang", .query, false, 1, none⟩,
    ⟨"X-Tag", .header, false, 2, none⟩, ⟨"x-tag", .header, false, 4, none⟩,
    ⟨"X-TAG", .header, false, 5, none⟩, ⟨"id", .path, true, 6, none⟩,
    ⟨"size", .path, true, 7, none⟩]
  content := none
  responses := []

theorem mem_posters : findPoster ∈ postersApi.operations := by decide +kernel

theorem wellFormed_findPoster : WellFormed findPoster.path.toList := by
  have hsize : WellFormed ('\x7b' :: ("size".toList ++ '\x7d' :: (".png".toList ++ []))) :=
    .placeholder (by decide) (by simp [IsNameChar]) (.prepend (by simp) .nil)
  have hid : WellFormed ('\x7b' :: ("id".toList ++ '\x7d' :: ("/posters/".toList ++ _))) :=
    .placeholder (by decide) (by simp [IsNameChar]) (hsize.prepend (by simp))
  have hpath : WellFormed ("/movies/".toList ++ _) := hid.prepend (by simp)
  exact hpath

/-- Types for the arguments of `findPoster`. -/
def posterTypes : TypeGraph where
  nodes := #[⟨none, .primitive .string, none⟩, ⟨none, .primitive .string, none⟩,
    ⟨none, .primitive .string, none⟩, ⟨none, .unknown, none⟩, ⟨none, .array 3, none⟩,
    ⟨none, .primitive .string, none⟩, ⟨none, .primitive .string, none⟩,
    ⟨none, .primitive .string, none⟩]
  names := []

/-- Arguments side by side.  No value is given for the query parameter `dry` and for the last of
three headers of one name. -/
def posterInput : CallInput where
  arguments := .object [("X-TAG", .null), ("X-Tag", .string "first"), ("dry", .null),
    ("id", .string "a/\x7bid\x7d"), ("lang", .string "en"), ("size", .ofInt 7),
    ("x-tag", .array [.string "b", .ofInt 7, .bool true])]

/-- Arguments sorted by place, with one header for three parameters. -/
def sortedPosterInput : CallInput where
  arguments := .object [("headers", .object [("x-Tag", .string "all")]),
    ("path", .object [("id", .string "a/\x7bid\x7d"), ("size", .ofInt 7)]),
    ("query", .object [("lang", .string "en")])]

/-- A request for a poster with the given header. -/
def boundPoster (tag : String) : Bound :=
  ⟨["movies", "a/\x7bid\x7d", "posters", "7.png"], [("lang", .string "en")], ⟨[("x-tag", tag)]⟩,
    .empty⟩

theorem bind_findPoster :
    bind findPoster posterTypes posterInput false = .ok (boundPoster "b,7,true") := rfl

theorem bind_findPoster_sorted :
    bind findPoster posterTypes sortedPosterInput true = .ok (boundPoster "all") := rfl

/-- A slash and braces in an argument stay in its segment, and of three headers of one name the last
that is given a value counts, which may be a list. -/
theorem bind_inPlace_findPoster :
    normalize postersDocument none = .ok postersApi ∧ postersApi.kind = .openApi ∧
      findPoster ∈ postersApi.operations ∧ WellFormed findPoster.path.toList ∧
      (bind findPoster posterTypes posterInput false = .ok (boundPoster "b,7,true") ∧
        InPlace (Supplied false posterInput.arguments) findPoster (boundPoster "b,7,true")) ∧
      bind findPoster posterTypes sortedPosterInput true = .ok (boundPoster "all") ∧
        InPlace (Supplied true sortedPosterInput.arguments) findPoster (boundPoster "all") := by
  have hplaces {input : CallInput} {fullRequest : Bool} {r : Bound}
      (hbind : bind findPoster posterTypes input fullRequest = .ok r) :=
    bind_inPlace normalize_posters kind_posters mem_posters wellFormed_findPoster hbind
  exact ⟨normalize_posters, kind_posters, mem_posters, wellFormed_findPoster,
    ⟨bind_findPoster, hplaces bind_findPoster⟩, bind_findPoster_sorted,
    hplaces bind_findPoster_sorted⟩

end TypedClient.Client
