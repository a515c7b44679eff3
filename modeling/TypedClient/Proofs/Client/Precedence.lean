import TypedClient.Client.Graphql
import TypedClient.Client.Headers
import TypedClient.Proofs.Client.Calls
import TypedClient.Proofs.Client.Placement
import TypedClient.Proofs.Dictionaries

/-!
# Which headers a request has

However a set of headers is made, its names are in lower case, so no two of them differ in case
alone.

* `Headers.Made` lists the ways to make a set of headers;
* `Headers.Proper` is the invariant, and `Made.proper` says that it holds of all of them;
* `Proper.get?_eq_some_iff` says that a header is looked up without regard to case, and
  `Proper.get?_overlay` that of two sets the one on top comes first.

The headers of a request come from several sources.  Where two of them define the same name, in
either case, one comes before the other: what the caller passes, then parameters, the header
provider, telemetry, the configuration, and last the transport.

* `InForce` says which value of a name is in force among sources;
* `Headers.Settles` says that headers are just what is in force, and `settles_resolveHeaders` that
  the headers of a call are;
* `sent_headers_settle` says so for all requests that leave a client, for operations and for
  GraphQL.
-/

set_option autoImplicit false

namespace TypedClient.Text

theorem toLower_toLower (c : Char) : c.toLower.toLower = c.toLower := by
  unfold Char.toLower
  split
  · rename_i hupper
    -- a small letter lies behind all capitals
    refine dif_neg fun hagain => ?_
    obtain ⟨hge, hle⟩ := hupper
    have hle' := hagain.2
    simp only [ge_iff_le, UInt32.le_iff_toNat_le, UInt32.toNat_add] at hge hle hle'
    have ha : 'A'.val.toNat = 65 := rfl
    have hz : 'Z'.val.toNat = 90 := rfl
    have hgap : ('a'.val - 'A'.val).toNat = 32 := rfl
    omega
  · rfl

theorem lowerAscii_lowerAscii (s : String) : lowerAscii (lowerAscii s) = lowerAscii s := by
  rw [lowerAscii, lowerAscii, String.toList_ofList, List.map_map]
  congr 2
  exact funext toLower_toLower

theorem sameIgnoringCase_iff {a b : String} :
    sameIgnoringCase a b = true ↔ lowerAscii a = lowerAscii b :=
  beq_iff_eq

end TypedClient.Text

namespace TypedClient.Client.Headers

open TypedClient.Text

variable {h top : Headers} {name value : String} {entry other : String × String}

/-- The sets of headers that there are. -/
inductive Made : Headers → Prop
  /-- There are no headers to begin with. -/
  | empty : Made empty
  /-- A header is set. -/
  | insert {h : Headers} (hmade : Made h) (name value : String) : Made (h.insert name value)
  /-- A header is taken away. -/
  | remove {h : Headers} (hmade : Made h) (name : String) : Made (h.remove name)
  /-- Others are laid over them. -/
  | overlay {h top : Headers} (hmade : Made h) (htop : Made top) : Made (h.overlay top)
  /-- Headers are collected from a list. -/
  | ofList (entries : List (String × String)) : Made (ofList entries)
  /-- Headers are read from a value. -/
  | decode {json : Json} {h : Headers} (hdecode : decode json = .ok h) : Made h

/-- All names are in lower case, and each occurs once. -/
structure Proper (h : Headers) : Prop where
  /-- Names are in lower case. -/
  lower : ∀ entry ∈ h.entries, lowerAscii entry.1 = entry.1
  /-- Names are in order. -/
  ordered : h.entries.Ordered

theorem proper_empty : empty.Proper := ⟨List.forall_mem_nil _, .nil⟩

theorem Proper.insert (hproper : h.Proper) (name value : String) :
    (h.insert name value).Proper := by
  refine ⟨fun entry hentry => ?_, Dict.ordered_insert hproper.ordered _ _⟩
  rcases Dict.mem_of_mem_insert hentry with rfl | hold
  · exact lowerAscii_lowerAscii name
  · exact hproper.lower entry hold

theorem Proper.remove (hproper : h.Proper) (name : String) : (h.remove name).Proper :=
  ⟨fun entry hentry => hproper.lower entry (List.mem_filter.1 hentry).1,
    Dict.ordered_erase hproper.ordered _⟩

theorem Proper.overlay (hproper : h.Proper) (htop : top.Proper) : (h.overlay top).Proper := by
  refine ⟨fun entry hentry => ?_, Dict.ordered_overlay hproper.ordered _⟩
  rcases Dict.mem_of_mem_overlay hentry with hentry | hentry
  · exact htop.lower entry hentry
  · exact hproper.lower entry hentry

/-- Headers that are collected are the last entries of their names, in lower case. -/
theorem entries_ofList (entries : List (String × String)) :
    (ofList entries).entries
      = Dict.ofList (entries.map fun entry => (lowerAscii entry.1, entry.2)) := by
  suffices hfold : ∀ h : Headers,
      (entries.foldl (fun h entry => h.insert entry.1 entry.2) h).entries
        = Dict.overlay h.entries (entries.map fun entry => (lowerAscii entry.1, entry.2)) from
    hfold empty
  induction entries with
  | nil => exact fun _ => rfl
  | cons entry entries ih => exact fun h => ih (h.insert entry.1 entry.2)

theorem proper_ofList (entries : List (String × String)) : (ofList entries).Proper := by
  refine ⟨fun entry hentry => ?_, ?_⟩
  · rw [entries_ofList] at hentry
    obtain ⟨given, -, rfl⟩ := List.mem_map.1 (Dict.mem_of_mem_ofList hentry)
    exact lowerAscii_lowerAscii given.1
  · rw [entries_ofList]
    exact Dict.ordered_ofList _

/-- **However headers are made, their names are in lower case and each occurs once.** -/
theorem Made.proper (hmade : h.Made) : h.Proper := by
  induction hmade with
  | empty => exact proper_empty
  | insert _ name value ih => exact ih.insert name value
  | remove _ name ih => exact ih.remove name
  | overlay _ _ ih ihtop => exact ih.overlay ihtop
  | ofList entries => exact proper_ofList entries
  | @decode json h hdecode =>
    rw [Headers.decode] at hdecode
    cases hdict : Json.dict Json.text json with
    | error e => rw [hdict] at hdecode; cases hdecode
    | ok entries =>
      rw [hdict] at hdecode
      cases hdecode
      exact proper_ofList entries

/-- There is one entry at most for a name, whatever its case. -/
theorem Proper.eq_of_sameIgnoringCase (hproper : h.Proper) (hentry : entry ∈ h.entries)
    (hother : other ∈ h.entries) (hsame : sameIgnoringCase entry.1 other.1 = true) :
    entry = other := by
  rw [sameIgnoringCase_iff, hproper.lower entry hentry, hproper.lower other hother] at hsame
  have hget := Dict.get?_of_mem hproper.ordered hentry
  have hget' := Dict.get?_of_mem hproper.ordered hother
  rw [hsame, hget'] at hget
  exact Prod.ext hsame (Option.some.inj hget).symm

/-! ## Looking headers up -/

/-- There is an entry of the name, whatever its case, with the value. -/
def Defines (h : Headers) (name value : String) : Prop :=
  ∃ entry ∈ h.entries, sameIgnoringCase entry.1 name = true ∧ entry.2 = value

theorem Proper.get?_eq_some_iff (hproper : h.Proper) :
    h.get? name = some value ↔ h.Defines name value := by
  constructor
  · intro hget
    refine ⟨(lowerAscii name, value), Dict.mem_of_get? hget, ?_, rfl⟩
    exact sameIgnoringCase_iff.2 (lowerAscii_lowerAscii name)
  · rintro ⟨entry, hentry, hsame, rfl⟩
    rw [sameIgnoringCase_iff, hproper.lower entry hentry] at hsame
    rw [get?, ← hsame]
    exact Dict.get?_of_mem hproper.ordered hentry

/-- A header is looked up on top, and then below. -/
theorem Proper.get?_overlay (htop : top.Proper) (h : Headers) (name : String) :
    (h.overlay top).get? name = (top.get? name).or (h.get? name) := by
  rw [get?, Headers.overlay, Dict.get?_overlay, Dict.get?_reverse htop.ordered]
  rfl

end TypedClient.Client.Headers

namespace TypedClient.Client

open TypedClient.Api TypedClient.Text

variable {σ : Type}

/-! ## Sources of headers -/

/-- The value of a name that is in force among sources: that of the first source that defines it. -/
inductive InForce : List Headers → String → String → Prop
  /-- The first source defines the name. -/
  | first {h : Headers} {rest : List Headers} {name value : String}
    (hdefines : h.Defines name value) : InForce (h :: rest) name value
  /-- The first source does not define the name. -/
  | later {h : Headers} {rest : List Headers} {name value : String}
    (hnone : ∀ other, ¬h.Defines name other) (hlater : InForce rest name value) :
    InForce (h :: rest) name value

theorem inForce_cons_iff {h : Headers} {rest : List Headers} {name value : String} :
    InForce (h :: rest) name value ↔
      h.Defines name value ∨ (∀ other, ¬h.Defines name other) ∧ InForce rest name value := by
  constructor
  · rintro (hdefines | ⟨hnone, hlater⟩)
    · exact .inl hdefines
    · exact .inr ⟨hnone, hlater⟩
  · rintro (hdefines | ⟨hnone, hlater⟩)
    · exact .first hdefines
    · exact .later hnone hlater

/-- A source without headers does not matter. -/
theorem inForce_empty_iff {rest : List Headers} {name value : String} :
    InForce (.empty :: rest) name value ↔ InForce rest name value := by
  have hnone (other : String) : ¬Headers.empty.Defines name other :=
    fun ⟨_, hentry, _⟩ => List.not_mem_nil hentry
  simp [inForce_cons_iff, hnone]

/-- The headers are just what is in force among sources. -/
structure Headers.Settles (h : Headers) (sources : List Headers) : Prop where
  /-- Names are in lower case, and each occurs once. -/
  proper : h.Proper
  /-- A header, looked up in either case, has the value in force. -/
  get?_iff : ∀ name value, h.get? name = some value ↔ InForce sources name value
  /-- There are no others. -/
  sound : ∀ entry ∈ h.entries, InForce sources entry.1 entry.2

theorem inForce_iff_findSome? {sources : List Headers} (hproper : ∀ h ∈ sources, h.Proper)
    {name value : String} :
    InForce sources name value ↔ sources.findSome? (·.get? name) = some value := by
  induction sources with
  | nil => exact iff_of_false (fun h => nomatch h) (by simp)
  | cons h rest ih =>
    obtain ⟨hfirst, hrest⟩ := List.forall_mem_cons.1 hproper
    simp only [inForce_cons_iff, ih hrest, ← hfirst.get?_eq_some_iff, List.findSome?_cons]
    cases h.get? name <;> simp

/-- Headers that are looked up as the sources are settle them. -/
theorem Headers.Settles.of_get? {h : Headers} {sources : List Headers} (hproper : h.Proper)
    (hsources : ∀ s ∈ sources, s.Proper)
    (hget : ∀ name, h.get? name = sources.findSome? (·.get? name)) : h.Settles sources where
  proper := hproper
  get?_iff name value := by rw [hget, inForce_iff_findSome? hsources]
  sound entry hentry := by
    rw [inForce_iff_findSome? hsources, ← hget, Headers.get?, hproper.lower entry hentry]
    exact Dict.get?_of_mem hproper.ordered hentry

theorem Headers.Settles.get?_eq {h : Headers} {sources : List Headers}
    (hsettles : h.Settles sources) (hsources : ∀ s ∈ sources, s.Proper) (name : String) :
    h.get? name = sources.findSome? (·.get? name) :=
  Option.ext fun value => (hsettles.get?_iff name value).trans (inForce_iff_findSome? hsources)

theorem Headers.Settles.erase_empty {h first : Headers} {rest : List Headers}
    (hsettles : h.Settles (first :: .empty :: rest)) : h.Settles (first :: rest) := by
  have hskip {name value : String} :
      InForce (first :: .empty :: rest) name value ↔ InForce (first :: rest) name value := by
    rw [inForce_cons_iff, inForce_empty_iff, ← inForce_cons_iff]
  exact ⟨hsettles.proper, fun name value => (hsettles.get?_iff name value).trans hskip,
    fun entry hentry => hskip.1 (hsettles.sound entry hentry)⟩

/-- The headers that the provider of a configuration answers for a call. -/
def Config.Provides (c : Config) (info : CallInfo) (provided : Headers) : Prop :=
  match c.provider with
  | none => provided = .empty
  | some provider => provider info = .ok provided

/-- The headers that a call is given have been made as all headers are. -/
structure MadeSources (c : Config) (defaults telemetry explicit : Headers) : Prop where
  /-- Those of the transport. -/
  defaults : defaults.Made
  /-- Those of the configuration. -/
  config : c.headers.Made
  /-- Those of telemetry. -/
  telemetry : telemetry.Made
  /-- Those of the provider. -/
  provided : ∀ info provided, c.Provides info provided → provided.Made
  /-- Those of the caller. -/
  explicit : explicit.Made

theorem resolveHeaders_eq_ok_iff (c : Config)
    (defaults telemetry parameters explicit headers : Headers) (info : CallInfo) :
    resolveHeaders c defaults info telemetry parameters explicit = .ok headers ↔
      ∃ provided, c.Provides info provided ∧
        ((((defaults.overlay c.headers).overlay telemetry).overlay provided).overlay
          parameters).overlay explicit = headers := by
  simp only [resolveHeaders, Config.Provides]
  cases c.provider with
  | none => simp [Bind.bind, Except.bind, pure, Except.pure]
  | some provider =>
    simp only
    cases provider info with
    | error reason => simp [Bind.bind, Except.bind, Except.mapError]
    | ok provided => simp [Bind.bind, Except.bind, pure, Except.pure, Except.mapError]

/-- **The headers of a call are what is in force among their sources.** -/
theorem settles_resolveHeaders {c : Config}
    {defaults telemetry parameters explicit headers : Headers} {info : CallInfo}
    (hmade : MadeSources c defaults telemetry explicit)
    (hparameters : parameters.Proper)
    (h : resolveHeaders c defaults info telemetry parameters explicit = .ok headers) :
    ∃ provided, c.Provides info provided ∧
      headers.Settles [explicit, parameters, provided, telemetry, c.headers, defaults] := by
  obtain ⟨provided, hprovides, rfl⟩ := (resolveHeaders_eq_ok_iff ..).1 h
  have hexplicit := hmade.explicit.proper
  have hprovided := (hmade.provided info provided hprovides).proper
  have htelemetry := hmade.telemetry.proper
  have hconfig := hmade.config.proper
  have hdefaults := hmade.defaults.proper
  have hbelow := ((hdefaults.overlay hconfig).overlay htelemetry).overlay hprovided
  refine ⟨provided, hprovides, .of_get? ((hbelow.overlay hparameters).overlay hexplicit) ?_ ?_⟩
  · simp [hexplicit, hparameters, hprovided, htelemetry, hconfig, hdefaults]
  · intro name
    have hcons (f : Headers → Option String) (first : Headers) (rest : List Headers) :
        (first :: rest).findSome? f = (f first).or (rest.findSome? f) := by
      rw [List.findSome?_cons]
      cases f first <;> rfl
    rw [hexplicit.get?_overlay, hparameters.get?_overlay, hprovided.get?_overlay,
      htelemetry.get?_overlay, hconfig.get?_overlay]
    simp only [hcons, List.findSome?_nil, Option.or_none]

/-! ## Headers that parameters declare -/

/-- The headers that parameters declare are collected from a list, so their names are proper. -/
theorem proper_of_bind {op : Operation} {g : Types.TypeGraph} {input : CallInput}
    {fullRequest : Bool} {bound : Bound} (h : bind op g input fullRequest = .ok bound) :
    bound.headers.Proper := by
  obtain ⟨a, -, hbound⟩ := (bind_eq_ok_iff _).1 h
  obtain ⟨-, placed, hplaced, -, hbound⟩ := (bindRead_eq_ok_iff _).1 hbound
  obtain ⟨-, rfl⟩ := placeAll_eq_ok_iff.1 hplaced
  rw [hbound]
  have hentries := Headers.entries_ofList
    ((givenIn op a .header).map fun entry => (entry.1, headerText entry.2))
  rw [List.map_map] at hentries
  have hmade : (placedArguments op a).headers = Headers.ofList _ :=
    congrArg Headers.mk hentries.symm
  exact hmade ▸ Headers.proper_ofList _

/-! ## Requests that are sent -/

/-- A call is prepared by binding its arguments and resolving its headers. -/
theorem exists_bound_of_prepare {api : Definition} {c : Config} {defaults : Headers} {id : String}
    {input : CallInput} {op : Operation} {request : Request}
    (h : prepare api c defaults id input = .ok (op, request)) :
    api.operation? id = some op ∧ ∃ bound headers,
      bind op api.types input c.fullRequest = .ok bound ∧
      resolveHeaders c defaults (callInfo op input) input.telemetry bound.headers input.headers
        = .ok headers ∧
      request = c.request op.method
        (addressOf c.base bound.segments (c.queryWriter bound.query)) headers bound.body := by
  rw [prepare] at h
  cases hop : api.operation? id with
  | none => rw [hop] at h; cases h
  | some found =>
    rw [hop] at h
    simp only [requestFor] at h
    cases hbind : bind found api.types input c.fullRequest with
    | error e => rw [hbind] at h; cases h
    | ok bound =>
      rw [hbind] at h
      cases hheaders : resolveHeaders c defaults (callInfo found input) input.telemetry
          bound.headers input.headers with
      | error e => simp [Bind.bind, Except.bind, hheaders] at h
      | ok headers =>
        simp only [Bind.bind, Except.bind, hheaders] at h
        cases h
        exact ⟨rfl, bound, headers, hbind, hheaders, rfl⟩

/-- The headers of a prepared call have been resolved. -/
theorem exists_of_prepare {api : Definition} {c : Config} {defaults : Headers} {id : String}
    {input : CallInput} {op : Operation} {request : Request}
    (h : prepare api c defaults id input = .ok (op, request)) :
    api.operation? id = some op ∧ ∃ bound, bind op api.types input c.fullRequest = .ok bound ∧
      resolveHeaders c defaults (callInfo op input) input.telemetry bound.headers input.headers
        = .ok request.headers := by
  obtain ⟨hop, bound, headers, hbind, hheaders, rfl⟩ := exists_bound_of_prepare h
  exact ⟨hop, bound, hbind, hheaders⟩

/-- So have those of a GraphQL request. -/
theorem resolveHeaders_of_graphqlRequest {c : Config} {defaults : Headers} {i : GraphqlInput}
    {request : Request} (h : graphqlRequest c defaults i = .ok request) :
    resolveHeaders c defaults (graphqlInfo c i) i.telemetry .empty i.headers
      = .ok request.headers := by
  rw [graphqlRequest] at h
  cases hheaders : resolveHeaders c defaults (graphqlInfo c i) i.telemetry .empty i.headers with
  | error e => rw [hheaders] at h; cases h
  | ok headers =>
    rw [hheaders] at h
    cases h
    rfl

/-- A call sends just the request that has been prepared. -/
theorem mem_sentBy_iff {api : Definition} {c : Config} {t : Transport σ} {id : String}
    {input : CallInput} {s : σ} {request : Request} :
    request ∈ sentBy api c t id input s ↔
      ∃ op, prepare api c t.defaults id input = .ok (op, request) := by
  have hdefaults : t.recorded.defaults = t.defaults := rfl
  rw [sentBy, invoke_eq, exchange, hdefaults]
  cases prepare api c t.defaults id input with
  | error e => simp
  | ok prepared =>
    obtain ⟨n, hn⟩ := sendFrom_recorded t c prepared.2 0 [] s
    simp [sendWithRetry, hn, Prod.ext_iff, eq_comm]

/-- The requests that a GraphQL request sends. -/
def sentByGraphql (c : Config) (t : Transport σ) (i : GraphqlInput) (s : σ) : List Request :=
  (graphql c t.recorded i ⟨[], s⟩).2.requests

theorem mem_sentByGraphql_iff {c : Config} {t : Transport σ} {i : GraphqlInput} {s : σ}
    {request : Request} :
    request ∈ sentByGraphql c t i s ↔ graphqlRequest c t.defaults i = .ok request := by
  have hdefaults : t.recorded.defaults = t.defaults := rfl
  rw [sentByGraphql, graphql, hdefaults]
  cases graphqlRequest c t.defaults i with
  | error e => simp
  | ok prepared =>
    obtain ⟨n, hn⟩ := sendFrom_recorded t c prepared 0 [] s
    simp only [sendWithRetry, hn]
    cases (sendFrom t c prepared 0 s).1 <;> simp [eq_comm]

/-! ## Whole clients -/

/-- **A request has just the headers that are in force among their sources.**  However headers are
made, their names are in lower case and no two differ in case alone.  Every request that leaves a
client, for an operation or for GraphQL, has a header, looked up in either case, just if a source
defines it, with the value of the first source that does: the caller, parameters, the provider,
telemetry, the configuration and the transport, in this order. -/
theorem sent_headers_settle :
    (∀ h : Headers, h.Made → (∀ entry ∈ h.entries, lowerAscii entry.1 = entry.1) ∧
      ∀ entry ∈ h.entries, ∀ other ∈ h.entries,
        sameIgnoringCase entry.1 other.1 = true → entry = other) ∧
    (∀ {σ : Type} (api : Definition) (c : Config) (t : Transport σ) (id : String)
        (input : CallInput) (s : σ),
      MadeSources c t.defaults input.telemetry input.headers →
      ∀ request ∈ sentBy api c t id input s, ∃ op bound provided,
        api.operation? id = some op ∧ bind op api.types input c.fullRequest = .ok bound ∧
        c.Provides (callInfo op input) provided ∧
        request.headers.Settles [input.headers, bound.headers, provided, input.telemetry, c.headers,
          t.defaults]) ∧
    ∀ {σ : Type} (c : Config) (t : Transport σ) (i : GraphqlInput) (s : σ),
      MadeSources c t.defaults i.telemetry i.headers →
      ∀ request ∈ sentByGraphql c t i s, ∃ provided,
        c.Provides (graphqlInfo c i) provided ∧
        request.headers.Settles [i.headers, provided, i.telemetry, c.headers, t.defaults] := by
  refine ⟨fun h hmade => ?_, fun api c t id input s hmade request hrequest => ?_,
    fun c t i s hmade request hrequest => ?_⟩
  · exact ⟨hmade.proper.lower, fun entry hentry other => hmade.proper.eq_of_sameIgnoringCase hentry⟩
  · obtain ⟨op, hprepare⟩ := mem_sentBy_iff.1 hrequest
    obtain ⟨hop, bound, hbind, hheaders⟩ := exists_of_prepare hprepare
    obtain ⟨provided, hprovides, hsettles⟩ :=
      settles_resolveHeaders hmade (proper_of_bind hbind) hheaders
    exact ⟨op, bound, provided, hop, hbind, hprovides, hsettles⟩
  · have hheaders := resolveHeaders_of_graphqlRequest (mem_sentByGraphql_iff.1 hrequest)
    obtain ⟨provided, hprovides, hsettles⟩ :=
      settles_resolveHeaders hmade Headers.proper_empty hheaders
    exact ⟨provided, hprovides, hsettles.erase_empty⟩

/-- An operation with two headers among its arguments. -/
def tracedQuote : Operation :=
  { getQuote with
    parameters := [⟨"quoteId", .path, true, 0, none⟩, ⟨"X-Tag", .header, false, 0, none⟩,
      ⟨"X-User", .header, false, 0, none⟩] }

/-- The API of this operation. -/
def tracedApi : Definition := { quotesApi with operations := [tracedQuote] }

/-- The headers of a provider. -/
def providedHeaders : Headers := .ofList [("X-TAG", "provider"), ("x-span", "provider")]

/-- The headers of telemetry. -/
def telemetryHeaders : Headers := .ofList [("X-Span", "telemetry"), ("TraceParent", "telemetry")]

/-- The headers of a caller. -/
def callerHeaders : Headers := .ofList [("x-user", "caller")]

/-- A configuration with headers of its own and a provider. -/
def tracedConfig : Config :=
  { quotesConfig with
    headers := .ofList [("traceparent", "configuration"), ("Accept", "configuration")]
    provider := some fun _ => .ok providedHeaders }

/-- A transport that sends headers with every request. -/
def tracedTransport : Transport Nat :=
  .scripted (.ofList [("ACCEPT", "transport"), ("User-Agent", "transport")])
    fun _ => .error (.other "lost")

/-- A call with headers among its arguments and beside them. -/
def tracedInput : CallInput where
  arguments := .object [("X-Tag", .string "parameter"), ("X-User", .string "parameter"),
    ("quoteId", .string "7")]
  headers := callerHeaders
  telemetry := telemetryHeaders

/-- A GraphQL request for a quote. -/
def quoteQuery : GraphqlInput where
  query := "query \x7b quote \x7d"
  headers := callerHeaders
  telemetry := telemetryHeaders

theorem madeSources_traced :
    MadeSources tracedConfig tracedTransport.defaults telemetryHeaders callerHeaders where
  defaults := .ofList _
  config := .ofList _
  telemetry := .ofList _
  provided := by
    rintro info provided ⟨⟩
    exact .ofList _
  explicit := .ofList _

theorem proper_traced : ∀ h ∈ [providedHeaders, telemetryHeaders, tracedConfig.headers,
    tracedTransport.defaults], h.Proper := by
  have hproper (entries : List (String × String)) := Headers.proper_ofList entries
  simp [tracedConfig, tracedTransport, providedHeaders, telemetryHeaders,
    Transport.scripted, hproper]

/-- Each source comes before the next one, in whatever case names are written: the caller,
parameters, the provider, telemetry, the configuration and the transport. -/
theorem sent_headers_settle_traced :
    (callerHeaders.Made ∧ ∀ entry ∈ callerHeaders.entries, lowerAscii entry.1 = entry.1) ∧
    MadeSources tracedConfig tracedTransport.defaults telemetryHeaders callerHeaders ∧
    (∃ request ∈ sentBy tracedApi tracedConfig tracedTransport "getQuote" tracedInput 0,
      request.headers.get? "X-USER" = some "caller" ∧
      request.headers.get? "x-Tag" = some "parameter" ∧
      request.headers.get? "X-SPAN" = some "provider" ∧
      request.headers.get? "Traceparent" = some "telemetry" ∧
      request.headers.get? "accept" = some "configuration" ∧
      request.headers.get? "user-agent" = some "transport" ∧
      request.headers.get? "Cookie" = none) ∧
    ∃ request ∈ sentByGraphql tracedConfig tracedTransport quoteQuery 0,
      request.headers.get? "X-USER" = some "caller" ∧
      request.headers.get? "x-Tag" = some "provider" ∧
      request.headers.get? "Traceparent" = some "telemetry" ∧
      request.headers.get? "accept" = some "configuration" ∧
      request.headers.get? "USER-AGENT" = some "transport" := by
  obtain ⟨hnames, hcalls, hgraphql⟩ := sent_headers_settle
  have hcaller : callerHeaders.Proper := Headers.proper_ofList _
  refine ⟨⟨.ofList _, (hnames _ (.ofList _)).1⟩, madeSources_traced, ?_, ?_⟩
  · obtain ⟨request, hprepare⟩ : ∃ request, prepare tracedApi tracedConfig tracedTransport.defaults
        "getQuote" tracedInput = .ok (tracedQuote, request) := ⟨_, rfl⟩
    have hrequest :
        request ∈ sentBy tracedApi tracedConfig tracedTransport "getQuote" tracedInput 0 :=
      mem_sentBy_iff.2 ⟨tracedQuote, hprepare⟩
    obtain ⟨op, bound, provided, hop, hbind, hprovides, hsettles⟩ :=
      hcalls _ _ _ _ _ _ madeSources_traced request hrequest
    have hparameters := proper_of_bind hbind
    cases hop
    cases hbind
    cases hprovides
    have hget := hsettles.get?_eq
      (List.forall_mem_cons.2 ⟨hcaller, List.forall_mem_cons.2 ⟨hparameters, proper_traced⟩⟩)
    refine ⟨request, hrequest, ?_, ?_, ?_, ?_, ?_, ?_, ?_⟩ <;> rw [hget] <;> decide
  · obtain ⟨request, hprepare⟩ : ∃ request, graphqlRequest tracedConfig tracedTransport.defaults
        quoteQuery = .ok request := ⟨_, rfl⟩
    have hrequest : request ∈ sentByGraphql tracedConfig tracedTransport quoteQuery 0 :=
      mem_sentByGraphql_iff.2 hprepare
    obtain ⟨provided, hprovides, hsettles⟩ :=
      hgraphql _ _ _ _ madeSources_traced request hrequest
    cases hprovides
    have hget := hsettles.get?_eq (List.forall_mem_cons.2 ⟨hcaller, proper_traced⟩)
    refine ⟨request, hrequest, ?_, ?_, ?_, ?_, ?_⟩ <;> rw [hget] <;> decide

end TypedClient.Client
