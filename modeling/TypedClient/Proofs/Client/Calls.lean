import TypedClient.Client.Call

/-!
# Which calls send requests

To speak of the requests that leave a client, a transport is watched: `Transport.recorded` notes
every request and otherwise does what the transport does.

* `Transport.scripted` is the transport that answers from a script, one entry for each request;
* `sendFrom_recorded` says that watching changes nothing: the answer and the state of the transport
  are the same, and what is noted is the one request that was to be sent, once or more;
* `sendFrom_congr` says which settings matter for sending: those that decide about further attempts.

A call sends requests just if it can be prepared: there is the operation, its arguments can be bound
and the header provider does not fail.  Whatever is wrong with what the caller passes is noticed
while the call is prepared, so an error that is the caller's fault means that nothing has been sent.

* `Unprepared` lists why a call cannot be prepared;
* `sentBy` are the requests that a call sends, and `invoke_eq` takes a call apart into sending and
  reading the response;
* `sentBy_eq_nil_iff_unprepared` and `unprepared_of_isCallersFault` are the two sides, and
  `invoke_reports` joins them.
-/

set_option autoImplicit false

namespace TypedClient.Client

variable {σ : Type}

/-! ## Watching a transport -/

/-- The requests carried so far, above the state of a transport. -/
structure Recorded (σ : Type) where
  /-- The requests, in order. -/
  requests : List Request
  /-- The state of the transport. -/
  inner : σ

/-- The transport that also notes the requests; its answers are those of the other. -/
def Transport.recorded (t : Transport σ) : Transport (Recorded σ) where
  defaults := t.defaults
  clock s := t.clock s.inner
  send request s :=
    let (answer, inner) := t.send request s.inner
    (answer, ⟨s.requests ++ [request], inner⟩)

theorem send_recorded (t : Transport σ) (request : Request) (seen : List Request) (s : σ) :
    t.recorded.send request ⟨seen, s⟩
      = ((t.send request s).1, ⟨seen ++ [request], (t.send request s).2⟩) := rfl

/-- The transport that answers from a script.  Its state is the number of requests so far. -/
def Transport.scripted (defaults : Headers) (script : Nat → Exchanged) : Transport Nat where
  defaults := defaults
  clock n := n
  send _ n := (script n, n + 1)

/-! ## Sending -/

/-- One attempt: its answer is the result unless there is a further attempt. -/
theorem sendFrom_eq (t : Transport σ) (c : Config) (request : Request) (attempt : UInt32) (s : σ) :
    sendFrom t c request attempt s
      = if c.retries attempt (t.send request s).1 then
          sendFrom t c request (attempt + 1) (t.send request s).2
        else ((t.send request s).1.mapError failureError, (t.send request s).2) := by
  rw [sendFrom]

/-- **Watching changes nothing.**  The watched transport answers as the transport itself, and notes
the request once for each attempt. -/
theorem sendFrom_recorded (t : Transport σ) (c : Config) (request : Request) (attempt : UInt32)
    (seen : List Request) (s : σ) :
    ∃ n, sendFrom t.recorded c request attempt ⟨seen, s⟩
      = ((sendFrom t c request attempt s).1,
        ⟨seen ++ List.replicate (n + 1) request, (sendFrom t c request attempt s).2⟩) := by
  induction attempt, s using sendFrom.induct t c request generalizing seen with
  | case1 attempt s answer after hsend hretries ih =>
    obtain ⟨n, hn⟩ := ih (seen ++ [request])
    refine ⟨n + 1, ?_⟩
    rw [sendFrom_eq, sendFrom_eq t, send_recorded, hsend, if_pos hretries, if_pos hretries, hn,
      List.append_assoc, List.singleton_append, ← List.replicate_succ]
  | case2 attempt s answer after hsend hretries =>
    refine ⟨0, ?_⟩
    rw [sendFrom_eq, sendFrom_eq t, send_recorded, hsend, if_neg hretries, if_neg hretries]
    rfl

/-- Configurations that decide alike about further attempts send alike. -/
theorem sendFrom_congr (t : Transport σ) {c d : Config} (h : c.retries = d.retries)
    (request : Request) (attempt : UInt32) (s : σ) :
    sendFrom t c request attempt s = sendFrom t d request attempt s := by
  induction attempt, s using sendFrom.induct t c request with
  | case1 attempt s answer after hsend hretries ih =>
    rw [sendFrom_eq, sendFrom_eq t d, hsend, if_pos hretries, if_pos (h ▸ hretries), ih]
  | case2 attempt s answer after hsend hretries =>
    rw [sendFrom_eq, sendFrom_eq t d, hsend, if_neg hretries, if_neg (h ▸ hretries)]

/-! ## Preparing a call -/

open TypedClient.Api TypedClient.Types

variable {api : Definition} {c : Config} {id : String} {input : CallInput}

/-- Why a call cannot be prepared. -/
inductive Unprepared (api : Definition) (c : Config) (id : String) (input : CallInput) : Prop
  /-- There is no operation of this id. -/
  | unknown (hop : api.operation? id = none)
  /-- The arguments cannot be bound. -/
  | unbound {op : Operation} {e : ClientError} (hop : api.operation? id = some op)
    (hbind : bind op api.types input c.fullRequest = .error e)
  /-- The header provider fails. -/
  | unprovided {op : Operation} {provider : HeaderProvider} {reason : String}
    (hop : api.operation? id = some op) (hprovider : c.provider = some provider)
    (hfails : provider (callInfo op input) = .error reason)

/-- Headers are resolved unless the provider fails. -/
theorem resolveHeaders_eq_error_iff (c : Config)
    (defaults telemetry parameters explicit : Headers) (info : CallInfo) :
    (∃ e, resolveHeaders c defaults info telemetry parameters explicit = .error e) ↔
      ∃ provider reason, c.provider = some provider ∧ provider info = .error reason := by
  rw [resolveHeaders]
  cases c.provider with
  | none => simp [Bind.bind, Except.bind, pure, Except.pure]
  | some provider =>
    cases hprovided : provider info with
    | error reason =>
      refine iff_of_true ⟨.caused ("header provider failed for " ++ info.operation) reason, ?_⟩
        ⟨provider, reason, rfl, hprovided⟩
      simp only [hprovided]
      rfl
    | ok provided =>
      simp only [hprovided]
      refine iff_of_false (fun ⟨_, he⟩ => nomatch he) ?_
      rintro ⟨_, reason, ⟨⟩, hfails⟩
      rw [hprovided] at hfails
      cases hfails

theorem prepare_eq_error_iff (defaults : Headers) :
    (∃ e, prepare api c defaults id input = .error e) ↔ Unprepared api c id input := by
  rw [prepare]
  cases hop : api.operation? id with
  | none => exact iff_of_true ⟨_, rfl⟩ (.unknown hop)
  | some op =>
    simp only [requestFor]
    cases hbind : bind op api.types input c.fullRequest with
    | error e => exact iff_of_true ⟨e, rfl⟩ (.unbound hop hbind)
    | ok bound =>
      have hheaders := resolveHeaders_eq_error_iff c defaults input.telemetry bound.headers
        input.headers (callInfo op input)
      cases hresolved : resolveHeaders c defaults (callInfo op input) input.telemetry bound.headers
          input.headers with
      | error e =>
        obtain ⟨provider, reason, hprovider, hfails⟩ := hheaders.1 ⟨e, hresolved⟩
        exact iff_of_true ⟨e, by simp [Bind.bind, Except.bind, hresolved]⟩
          (.unprovided hop hprovider hfails)
      | ok headers =>
        refine iff_of_false (by simp [Bind.bind, Except.bind, pure, Except.pure, hresolved]) ?_
        intro h
        cases h with
        | unknown hnone => rw [hop] at hnone; cases hnone
        | unbound hop' hbind' =>
          cases hop.symm.trans hop'
          rw [hbind] at hbind'
          cases hbind'
        | unprovided hop' hprovider hfails =>
          cases hop.symm.trans hop'
          obtain ⟨e, he⟩ := hheaders.2 ⟨_, _, hprovider, hfails⟩
          rw [hresolved] at he
          cases he

/-! ## Sending and reading -/

/-- A call up to the response: the operation that was called, and the response. -/
def exchange (api : Definition) (c : Config) (t : Transport σ) (id : String) (input : CallInput)
    (s : σ) : Outcome (Operation × Response) × σ :=
  match prepare api c t.defaults id input with
  | .error e => (.error e, s)
  | .ok (op, request) =>
    ((sendWithRetry t c request s).1.map (op, ·), (sendWithRetry t c request s).2)

/-- A call is an exchange whose response is read. -/
theorem invoke_eq (t : Transport σ) (s : σ) :
    invoke api c t id input s
      = ((exchange api c t id input s).1.bind fun (op, r) => receive c api op r,
        (exchange api c t id input s).2) := by
  rw [invoke, exchange]
  cases prepare api c t.defaults id input with
  | error e => rfl
  | ok prepared =>
    simp only
    rcases sendWithRetry t c prepared.2 s with ⟨e | response, after⟩ <;> rfl

/-- Without a delay between attempts there is only one. -/
theorem retries_of_retryDelay_eq_none (hdelay : c.retryDelay = none) (attempt : UInt32)
    (answer : Exchanged) : c.retries attempt answer = false := by
  rw [Config.retries, hdelay]
  rfl

/-- Without a delay between attempts, a call that can be prepared answers the one answer there
is. -/
theorem invoke_of_retryDelay_eq_none {t : Transport σ} {op : Operation} {request : Request}
    (hprepare : prepare api c t.defaults id input = .ok (op, request))
    (hdelay : c.retryDelay = none) (s : σ) :
    (invoke api c t id input s).1
      = ((t.send request s).1.mapError failureError).bind (receive c api op) := by
  rw [invoke_eq, exchange, hprepare]
  simp only [sendWithRetry, sendFrom_eq t c request 0 s, retries_of_retryDelay_eq_none hdelay,
    Bool.false_eq_true, if_false]
  cases (t.send request s).1 <;> rfl

/-- The requests that a call sends. -/
def sentBy (api : Definition) (c : Config) (t : Transport σ) (id : String) (input : CallInput)
    (s : σ) : List Request :=
  (invoke api c t.recorded id input ⟨[], s⟩).2.requests

/-- Without a delay between attempts, a call sends the request that is prepared, once. -/
theorem sentBy_of_retryDelay_eq_none {t : Transport σ} {op : Operation} {request : Request}
    (hprepare : prepare api c t.defaults id input = .ok (op, request))
    (hdelay : c.retryDelay = none) (s : σ) : sentBy api c t id input s = [request] := by
  have hprepared : prepare api c t.recorded.defaults id input = .ok (op, request) := hprepare
  rw [sentBy, invoke_eq, exchange, hprepared]
  simp only [sendWithRetry, sendFrom_eq t.recorded c request 0, send_recorded,
    retries_of_retryDelay_eq_none hdelay, Bool.false_eq_true, if_false, List.nil_append]

/-- Up to the response the same is answered whether or not the transport is watched, and nothing is
noted just if the call cannot be prepared. -/
theorem exchange_recorded (api : Definition) (c : Config) (t : Transport σ) (id : String)
    (input : CallInput) (seen : List Request) (s : σ) :
    ∃ sent, exchange api c t.recorded id input ⟨seen, s⟩
        = ((exchange api c t id input s).1, ⟨seen ++ sent, (exchange api c t id input s).2⟩) ∧
      (sent = [] ↔ ∃ e, prepare api c t.defaults id input = .error e) := by
  have hdefaults : t.recorded.defaults = t.defaults := rfl
  rw [exchange, exchange, hdefaults]
  cases prepare api c t.defaults id input with
  | error e => exact ⟨[], by rw [List.append_nil], iff_of_true rfl ⟨e, rfl⟩⟩
  | ok prepared =>
    obtain ⟨op, request⟩ := prepared
    obtain ⟨n, hn⟩ := sendFrom_recorded t c request 0 seen s
    refine ⟨List.replicate (n + 1) request, ?_, by simp⟩
    simp only [sendWithRetry, hn]

/-- A call answers the same whether or not the transport is watched. -/
theorem invoke_recorded (t : Transport σ) (seen : List Request) (s : σ) :
    (invoke api c t.recorded id input ⟨seen, s⟩).1 = (invoke api c t id input s).1 := by
  obtain ⟨sent, hsent, -⟩ := exchange_recorded api c t id input seen s
  rw [invoke_eq, invoke_eq, hsent]

/-- **Nothing is sent just if the call cannot be prepared.** -/
theorem sentBy_eq_nil_iff_unprepared (api : Definition) (c : Config) (t : Transport σ) (id : String)
    (input : CallInput) (s : σ) :
    sentBy api c t id input s = [] ↔ Unprepared api c id input := by
  obtain ⟨sent, hsent, hnil⟩ := exchange_recorded api c t id input [] s
  rw [sentBy, invoke_eq, hsent, ← prepare_eq_error_iff t.defaults, ← hnil, List.nil_append]

/-! ## Errors after sending -/

/-- A step none of whose errors is the caller's fault. -/
def Blameless {α : Type} (step : Outcome α) : Prop :=
  ∀ e, step = .error e → e.isCallersFault = false

theorem blameless_ok {α : Type} (x : α) : Blameless (.ok x) := fun _ h => nomatch h

theorem blameless_error {α : Type} {e : ClientError} (h : e.isCallersFault = false) :
    Blameless (.error e : Outcome α) := fun _ he => by cases he; exact h

theorem Blameless.bind {α β : Type} {step : Outcome α} {next : α → Outcome β}
    (h : Blameless step) (hnext : ∀ x, Blameless (next x)) : Blameless (step.bind next) := by
  cases step with
  | ok x => exact hnext x
  | error e => exact blameless_error (h e rfl)

theorem Blameless.map {α β : Type} {step : Outcome α} (f : α → β) (h : Blameless step) :
    Blameless (step.map f) := by
  cases step with
  | ok x => exact blameless_ok _
  | error e => exact blameless_error (h e rfl)

theorem blameless_sendFrom (t : Transport σ) (request : Request) (attempt : UInt32) (s : σ) :
    Blameless (sendFrom t c request attempt s).1 := by
  induction attempt, s using sendFrom.induct t c request with
  | case1 attempt s answer after hsend hretries ih =>
    rw [sendFrom_eq, hsend, if_pos hretries]
    exact ih
  | case2 attempt s answer after hsend hretries =>
    rw [sendFrom_eq, hsend, if_neg hretries]
    cases answer with
    | error failure => exact blameless_error rfl
    | ok response => exact blameless_ok _

theorem blameless_validate (op : Operation) (g : TypeGraph) (r : Response) :
    Blameless (validate op g r) := by
  have hdeclared (type : Option TypeId) : Blameless (readDeclared op g type r) := by
    rw [readDeclared.eq_def]
    split
    · exact blameless_error rfl
    · split
      · exact blameless_ok _
      · split
        · exact blameless_ok _
        · exact blameless_error rfl
  rw [validate.eq_def]
  split
  · exact blameless_error rfl
  · split
    · exact blameless_ok _
    · simp only
      split
      · exact blameless_error rfl
      · split
        · exact hdeclared _
        · exact blameless_ok _

theorem blameless_receive (c : Config) (api : Definition) (op : Operation) (r : Response) :
    Blameless (receive c api op r) := by
  have hbody : Blameless (readBody c api op r) := by
    rw [readBody]
    split
    · exact blameless_validate op api.types r
    · exact blameless_ok _
  rw [receive]
  split
  · exact blameless_error rfl
  · refine hbody.bind fun body => ?_
    split <;> exact blameless_ok _

/-- A call that fails through the caller's fault cannot be prepared. -/
theorem unprepared_of_isCallersFault {t : Transport σ} {s : σ} {e : ClientError}
    (he : (invoke api c t id input s).1 = .error e) (hfault : e.isCallersFault = true) :
    Unprepared api c id input := by
  rw [← prepare_eq_error_iff t.defaults]
  rw [invoke_eq, exchange] at he
  cases hprepared : prepare api c t.defaults id input with
  | error e => exact ⟨e, rfl⟩
  | ok prepared =>
    rw [hprepared] at he
    have hblameless := ((blameless_sendFrom (c := c) t prepared.2 0 s).map (prepared.1, ·)).bind
      fun answer => blameless_receive c api answer.1 answer.2
    rw [hblameless e he] at hfault
    cases hfault

/-- The codes of the errors that are about a response or its absence. -/
def reportedCodes : List String :=
  ["INVALID_RESPONSE_SCHEMA", "INVALID_CONTENT_TYPE", "INVALID_RESPONSE_FORMAT",
    "UNEXPECTED_CALL_FAILURE"]

theorem code_mem_reportedCodes {e : ClientError} (h : e.isCallersFault = false) :
    e.code ∈ reportedCodes := by
  cases e with
  | urlRequired | wrongOption | missingParameter | formRequired => cases h
  | _ => simp [ClientError.code, reportedCodes]

/-- **An error that is the caller's fault means that nothing was sent.**  A call sends nothing just
if its operation is unknown, its arguments cannot be bound or the header provider fails, and then it
fails.  A call that fails after sending reports that the response is not as declared, or that there
is none that it can answer. -/
theorem invoke_reports (api : Definition) (c : Config) (t : Transport σ) (id : String)
    (input : CallInput) (s : σ) :
    (sentBy api c t id input s = [] ↔ Unprepared api c id input) ∧
      (Unprepared api c id input → ∃ e, (invoke api c t id input s).1 = .error e) ∧
      ∀ e, (invoke api c t id input s).1 = .error e →
        (e.isCallersFault = true → sentBy api c t id input s = []) ∧
        (sentBy api c t id input s ≠ [] → e.code ∈ reportedCodes) := by
  have hnil := sentBy_eq_nil_iff_unprepared api c t id input s
  refine ⟨hnil, fun hunprepared => ?_, fun e he => ?_⟩
  · obtain ⟨e, he⟩ := (prepare_eq_error_iff t.defaults).2 hunprepared
    exact ⟨e, by rw [invoke, he]⟩
  · have hfault (h : e.isCallersFault = true) : sentBy api c t id input s = [] :=
      hnil.2 (unprepared_of_isCallersFault he h)
    exact ⟨hfault, fun hsent => code_mem_reportedCodes (eq_false_of_ne_true (hsent ∘ hfault))⟩

/-- An operation with an argument in its path and one kind of response. -/
def getQuote : Operation where
  id := "getQuote"
  declaredId := none
  method := .get
  path := "/quotes/\x7bquoteId\x7d"
  summary := none
  parameters := [⟨"quoteId", .path, true, 0, none⟩]
  content := none
  responses := [⟨.code 200, none, [⟨"application/json", some 0⟩]⟩]

/-- An API of one operation. -/
def quotesApi : Definition :=
  ⟨.openApi, "Quotes", "1", [], [getQuote], ⟨#[⟨none, .primitive .string, none⟩], []⟩, none⟩

/-- A configuration that lets every request be sent once. -/
def quotesConfig : Config where
  base := ⟨"http", "", none, .domain "localhost", some 3042, [[]], none, none⟩
  headers := .empty
  fullRequest := false
  fullResponse := false
  throwOnError := true
  validateResponse := true
  headersTimeout := 30000
  bodyTimeout := 30000
  retryDelay := none
  maxRetries := 3
  graphqlPath := "/graphql"
  provider := none
  queryWriter := queryText

/-- A transport that loses every request. -/
def lostTransport : Transport Nat := .scripted .empty fun _ => .error (.other "lost")

/-- The identifier of a quote. -/
def quoteInput : CallInput where
  arguments := .object [("quoteId", .string "7")]

/-- The request that asks for a quote. -/
def quoteRequest : Request :=
  quotesConfig.request .get
    ⟨"http", "", none, .domain "localhost", some 3042, ["quotes".toList, ['7']], none, none⟩ .empty
    .empty

theorem prepare_getQuote :
    prepare quotesApi quotesConfig .empty "getQuote" quoteInput = .ok (getQuote, quoteRequest) :=
  rfl

theorem invoke_getQuote_lost :
    (invoke quotesApi quotesConfig lostTransport "getQuote" quoteInput 0).1
      = .error (failureError (.other "lost")) :=
  invoke_of_retryDelay_eq_none prepare_getQuote rfl 0

/-- Without its argument a call is not prepared, and with it the call fails after sending. -/
theorem invoke_reports_getQuote :
    (Unprepared quotesApi quotesConfig "getQuote" { } ∧
      (invoke quotesApi quotesConfig lostTransport "getQuote" { } 0).1
        = .error (.missingParameter "getQuote" "quoteId") ∧
      (ClientError.missingParameter "getQuote" "quoteId").isCallersFault = true ∧
      sentBy quotesApi quotesConfig lostTransport "getQuote" { } 0 = []) ∧
    (invoke quotesApi quotesConfig lostTransport "getQuote" quoteInput 0).1
        = .error (failureError (.other "lost")) ∧
      sentBy quotesApi quotesConfig lostTransport "getQuote" quoteInput 0 ≠ [] ∧
      (failureError (.other "lost")).code ∈ reportedCodes := by
  obtain ⟨-, -, hmissing⟩ := invoke_reports quotesApi quotesConfig lostTransport "getQuote" { } 0
  obtain ⟨hnil, -, hlost⟩ :=
    invoke_reports quotesApi quotesConfig lostTransport "getQuote" quoteInput 0
  have hsent : sentBy quotesApi quotesConfig lostTransport "getQuote" quoteInput 0 ≠ [] := by
    rw [Ne, hnil, ← prepare_eq_error_iff .empty, prepare_getQuote]
    simp
  refine ⟨⟨.unbound (e := .missingParameter "getQuote" "quoteId") rfl rfl, rfl, rfl,
    (hmissing _ rfl).1 rfl⟩, invoke_getQuote_lost, hsent, (hlost _ invoke_getQuote_lost).2 hsent⟩

end TypedClient.Client
