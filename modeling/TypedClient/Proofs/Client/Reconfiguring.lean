import TypedClient.Client.Host
import TypedClient.Proofs.Client.Precedence
import TypedClient.Proofs.Lists

/-!
# Clients that are changed while calls are under way

All clones of a client share one configuration, also the clones that plugins register for a request.
A change replaces the configuration as a whole and at once.  A call looks at it only when it begins;
it then prepares its request, sends it, waits for the answer and may try again, and anything may
happen between these steps.

* `Job` is a call together with the client as the call found it, and `Job.run` does it in one go;
* `Serving` is a host with the clones it has handed out, the requests it serves and the calls under
  way; `Serving.Step` is one step and `Serving.Steps` any run of steps;
* `exists_steps_run` says that a call that is not interrupted takes these steps;
* `Serving.Traced` is the invariant: the clients are what the changes so far make of them, and each
  call goes on as it would with the client it has found;
* `Steps.calls_keep_configuration` draws the conclusions for the requests that are sent, for
  finished calls and for the changes themselves.
-/

set_option autoImplicit false

namespace TypedClient.Client

open TypedClient.Api TypedClient.Text

variable {σ : Type} {defaults : Headers}

/-! ## Calls -/

/-- What a caller asks a client for. -/
inductive Ask where
  /-- To call an operation. -/
  | operation (id : String) (input : CallInput)
  /-- To send a GraphQL request. -/
  | graphql (input : GraphqlInput)

/-- What a caller gets. -/
inductive Answer where
  /-- What an operation answers. -/
  | output (output : Output)
  /-- The data that a GraphQL request asks for. -/
  | data (value : Json)

/-- A call, with the client as it is when the call begins. -/
inductive Job where
  /-- The call of an operation. -/
  | operation (client : OpenApiClient) (id : String) (input : CallInput)
  /-- A GraphQL request. -/
  | graphql (client : GraphqlClient) (input : GraphqlInput)

/-- The call that a client makes when it is asked. -/
def AnyClient.job? : AnyClient → Ask → Option Job
  | openApi client, .operation id input => some (.operation client id input)
  | graphql client, .graphql input => some (.graphql client input)
  | openApi _, .graphql _ | graphql _, .operation .. => none

namespace Job

/-- The configuration of the client. -/
def config : Job → Config
  | operation client _ _ => client.config
  | graphql client _ => client.config

/-- The request of a call, and how the response is read. -/
def prepared (defaults : Headers) : Job → Outcome (Request × (Response → Outcome Answer))
  | operation client id input =>
    (prepare client.api client.config defaults id input).map fun (op, request) =>
      (request, fun r => (receive client.config client.api op r).map .output)
  | graphql client input =>
    (graphqlRequest client.config defaults input).map fun request =>
      (request, fun r => (graphqlAnswer r).map .data)

/-- The call in one go. -/
def run (t : Transport σ) (job : Job) (s : σ) : Outcome Answer × σ :=
  match job with
  | operation client name input =>
    (invoke client.api client.config t name input s).map (·.map .output) id
  | graphql client input => (Client.graphql client.config t input s).map (·.map .data) id

/-- A response, or why there is none, as the caller gets it. -/
def conclude (read : Response → Outcome Answer) (result : Outcome Response × σ) :
    Outcome Answer × σ :=
  result.map (·.bind read) id

/-- A call prepares its request, sends it and reads the response. -/
theorem run_eq (t : Transport σ) (job : Job) (s : σ) :
    job.run t s =
      match job.prepared t.defaults with
      | .error e => (.error e, s)
      | .ok (request, read) => conclude read (sendFrom t job.config request 0 s) := by
  cases job with
  | operation client name input =>
    simp only [run, prepared, invoke, sendWithRetry]
    cases prepare client.api client.config t.defaults name input with
    | error e => rfl
    | ok prepared =>
      simp only [Except.map, config]
      rcases sendFrom t client.config prepared.2 0 s with ⟨e | response, after⟩ <;> rfl
  | graphql client input =>
    simp only [run, prepared, Client.graphql, sendWithRetry]
    cases graphqlRequest client.config t.defaults input with
    | error e => rfl
    | ok request =>
      simp only [Except.map, config]
      rcases sendFrom t client.config request 0 s with ⟨e | response, after⟩ <;> rfl

end Job

/-- The request goes to the base URL of a configuration, and the headers of the configuration lie
over those of the transport and below all others. -/
structure Config.Makes (c : Config) (defaults : Headers) (request : Request) : Prop where
  /-- The address is the base URL with segments and a query. -/
  url_eq : ∃ segments query, request.url = addressOf c.base segments query
  /-- The headers are laid on top of each other. -/
  headers_eq : ∃ telemetry provided parameters explicit, request.headers =
    ((((defaults.overlay c.headers).overlay telemetry).overlay provided).overlay
      parameters).overlay explicit

theorem Config.makes_request {c : Config} {method : Method} {segments : List String}
    {query : String} {body : Body} {info : CallInfo}
    {telemetry parameters explicit headers : Headers}
    (h : resolveHeaders c defaults info telemetry parameters explicit = .ok headers) :
    c.Makes defaults (c.request method (addressOf c.base segments query) headers body) := by
  obtain ⟨provided, -, rfl⟩ := (resolveHeaders_eq_ok_iff ..).1 h
  exact ⟨⟨segments, query, rfl⟩, telemetry, provided, parameters, explicit, rfl⟩

theorem Config.makes_of_prepare {api : Definition} {c : Config} {name : String} {input : CallInput}
    {op : Operation} {request : Request}
    (h : prepare api c defaults name input = .ok (op, request)) : c.Makes defaults request := by
  rw [prepare] at h
  cases hop : api.operation? name with
  | none => rw [hop] at h; cases h
  | some found =>
    rw [hop] at h
    simp only [requestFor] at h
    cases hbind : bind found api.types input c.fullRequest with
    | error e => rw [hbind] at h; cases h
    | ok bound =>
      rw [hbind] at h
      cases hheaders : resolveHeaders c defaults (callInfo found input) input.telemetry
          bound.headers input.headers with
      | error e => simp [Bind.bind, Except.bind, hheaders] at h
      | ok headers =>
        simp only [Bind.bind, Except.bind, hheaders] at h
        cases h
        exact makes_request hheaders

theorem Config.makes_of_graphqlRequest {c : Config} {input : GraphqlInput} {request : Request}
    (h : graphqlRequest c defaults input = .ok request) : c.Makes defaults request := by
  rw [graphqlRequest] at h
  cases hheaders : resolveHeaders c defaults (graphqlInfo c input) input.telemetry .empty
      input.headers with
  | error e => rw [hheaders] at h; cases h
  | ok headers =>
    rw [hheaders] at h
    cases h
    exact makes_request hheaders

theorem Job.makes_of_prepared {job : Job} {request : Request}
    {read : Response → Outcome Answer} (h : job.prepared defaults = .ok (request, read)) :
    job.config.Makes defaults request := by
  cases job with
  | operation client name input =>
    simp only [prepared] at h
    cases hprepare : prepare client.api client.config defaults name input with
    | error e => rw [hprepare] at h; cases h
    | ok made =>
      rw [hprepare] at h
      cases h
      exact Config.makes_of_prepare hprepare
  | graphql client input =>
    simp only [prepared] at h
    cases hrequest : graphqlRequest client.config defaults input with
    | error e => rw [hrequest] at h; cases h
    | ok made =>
      rw [hrequest] at h
      cases h
      exact Config.makes_of_graphqlRequest hrequest

/-- How far a call has got. -/
inductive Phase where
  /-- It has found its client. -/
  | begun
  /-- The request is about to be sent, after a number of further attempts. -/
  | ready (request : Request) (read : Response → Outcome Answer) (attempt : UInt32)
  /-- The request is on its way. -/
  | sent (request : Request) (read : Response → Outcome Answer) (attempt : UInt32)
  /-- The caller has got the answer. -/
  | done (answer : Outcome Answer)

namespace Phase

/-- The phase after the request has been prepared. -/
def afterPreparing : Outcome (Request × (Response → Outcome Answer)) → Phase
  | .error e => done (.error e)
  | .ok (request, read) => ready request read 0

/-- The phase after an answer: the request is sent again, or the answer counts. -/
def afterAnswer (c : Config) (request : Request) (read : Response → Outcome Answer)
    (attempt : UInt32) (answer : Exchanged) : Phase :=
  if c.retries attempt answer then ready request read (attempt + 1)
  else done ((answer.mapError failureError).bind read)

/-- What is left to do, on a transport that has not carried the request that is on its way. -/
def finish (job : Job) (t : Transport σ) : Phase → σ → Outcome Answer × σ
  | begun, s => job.run t s
  | ready request read attempt, s | sent request read attempt, s =>
    Job.conclude read (sendFrom t job.config request attempt s)
  | done answer, s => (answer, s)

/-- The request that is on its way. -/
def underWay : Phase → List Request
  | begun | ready .. | done _ => []
  | sent request .. => [request]

/-- What is sent has been prepared. -/
def Prepared (defaults : Headers) (job : Job) : Phase → Prop
  | begun | done _ => True
  | ready request read _ | sent request read _ => job.prepared defaults = .ok (request, read)

theorem finish_afterPreparing (t : Transport σ) (job : Job) (s : σ) :
    (afterPreparing (job.prepared t.defaults)).finish job t s = job.run t s := by
  rw [Job.run_eq]
  cases job.prepared t.defaults <;> rfl

theorem finish_sent (t : Transport σ) (job : Job) (request : Request)
    (read : Response → Outcome Answer) (attempt : UInt32) (s : σ) :
    (sent request read attempt).finish job t s
      = (afterAnswer job.config request read attempt (t.send request s).1).finish job t
        (t.send request s).2 := by
  rw [finish, sendFrom_eq, afterAnswer]
  split <;> rfl

theorem prepared_afterPreparing (defaults : Headers) (job : Job) :
    (afterPreparing (job.prepared defaults)).Prepared defaults job := by
  cases h : job.prepared defaults with
  | error e => trivial
  | ok made => exact h

theorem Prepared.afterAnswer {job : Job} {request : Request} {read : Response → Outcome Answer}
    {attempt : UInt32} (h : (sent request read attempt).Prepared defaults job)
    (answer : Exchanged) :
    (Phase.afterAnswer job.config request read attempt answer).Prepared defaults job := by
  rw [Phase.afterAnswer]
  split
  · exact h
  · trivial

end Phase

/-! ## Steps of a host -/

/-- A way to a client: a clone that somebody holds, or a name that it is registered under for a
request. -/
inductive Reference where
  /-- A clone. -/
  | clone (i : Nat)
  /-- A registered clone. -/
  | registered (context : Nat) (name : String)

/-- A call under way. -/
structure ServingCall where
  /-- The call. -/
  job : Job
  /-- How far it has got. -/
  phase : Phase

/-- A host that serves requests. -/
structure Serving where
  /-- The host. -/
  host : Host
  /-- The clones that somebody holds: the numbers of their clients. -/
  clones : List ClientId
  /-- The requests it serves. -/
  contexts : List RequestContext
  /-- The calls, by number. -/
  calls : List ServingCall

namespace Serving

/-- The client that a reference leads to. -/
def refersTo? (s : Serving) : Reference → Option ClientId
  | .clone i => s.clones[i]?
  | .registered context name => s.contexts[context]?.bind fun r => Dict.get? r.clients name

/-- What may happen.  Where a client is concerned, it is told by a reference and by its number. -/
inductive Event where
  /-- A client is cloned. -/
  | clone (via : Reference) (id : ClientId)
  /-- The host begins to serve a request. -/
  | serve
  /-- A plugin registers a client for a request. -/
  | register (via : Reference) (id : ClientId) (name : String) (context : Nat)
  /-- A client is pointed to another base URL, and the caller gets an answer. -/
  | setBaseUrl (via : Reference) (id : ClientId) (text : String) (answer : Outcome Unit)
  /-- The headers of a client are replaced. -/
  | setHeaders (via : Reference) (id : ClientId) (headers : Headers)
  /-- A call begins. -/
  | invoke (via : Reference) (id : ClientId) (ask : Ask)
  /-- A call prepares its request. -/
  | prepare (i : Nat)
  /-- A call sends its request. -/
  | send (i : Nat) (request : Request)
  /-- A call receives the answer. -/
  | receive (i : Nat) (answer : Exchanged)

/-- The calls with one in another phase. -/
def advance (s : Serving) (i : Nat) (job : Job) (phase : Phase) : List ServingCall :=
  s.calls.set i ⟨job, phase⟩

/-- One step.  Clients share a transport; `defaults` are the headers that it sends with every
request. -/
inductive Step (defaults : Headers) : Event → Serving → Serving → Prop
  /-- A clone leads to the same client. -/
  | clone {s : Serving} {via : Reference} {id : ClientId} (hvia : s.refersTo? via = some id) :
    Step defaults (.clone via id) s { s with clones := s.clones ++ [id] }
  /-- A request without clients. -/
  | serve {s : Serving} :
    Step defaults .serve s { s with contexts := s.contexts ++ [.empty] }
  /-- So does what a plugin registers. -/
  | register {s : Serving} {via : Reference} {id : ClientId} {name : String} {context : Nat}
    {r : RequestContext} (hvia : s.refersTo? via = some id)
    (hcontext : s.contexts[context]? = some r) :
    Step defaults (.register via id name context) s
      { s with contexts := s.contexts.set context ((Plugin.mk name id).register r) }
  /-- The base URL is read, and the configuration replaced at once. -/
  | setBaseUrl {s : Serving} {via : Reference} {id : ClientId} {text : String} {client : AnyClient}
    (hvia : s.refersTo? via = some id) (hclient : s.host.client? id = some client) :
    Step defaults (.setBaseUrl via id text (s.host.setBaseUrl id text).1) s
      { s with host := (s.host.setBaseUrl id text).2 }
  /-- The configuration is replaced at once. -/
  | setHeaders {s : Serving} {via : Reference} {id : ClientId} {headers : Headers}
    {client : AnyClient} (hvia : s.refersTo? via = some id)
    (hclient : s.host.client? id = some client) :
    Step defaults (.setHeaders via id headers) s
      { s with host := s.host.setHeaders id headers }
  /-- A call finds its client. -/
  | invoke {s : Serving} {via : Reference} {id : ClientId} {ask : Ask} {client : AnyClient}
    {job : Job} (hvia : s.refersTo? via = some id) (hclient : s.host.client? id = some client)
    (hjob : client.job? ask = some job) :
    Step defaults (.invoke via id ask) s { s with calls := s.calls ++ [⟨job, .begun⟩] }
  /-- The request is prepared, or the call fails. -/
  | prepare {s : Serving} {i : Nat} {job : Job} (hcall : s.calls[i]? = some ⟨job, .begun⟩) :
    Step defaults (.prepare i) s
      { s with calls := s.advance i job (.afterPreparing (job.prepared defaults)) }
  /-- The request is sent. -/
  | send {s : Serving} {i : Nat} {job : Job} {request : Request}
    {read : Response → Outcome Answer} {attempt : UInt32}
    (hcall : s.calls[i]? = some ⟨job, .ready request read attempt⟩) :
    Step defaults (.send i request) s
      { s with calls := s.advance i job (.sent request read attempt) }
  /-- The answer arrives. -/
  | receive {s : Serving} {i : Nat} {job : Job} {request : Request}
    {read : Response → Outcome Answer} {attempt : UInt32} {answer : Exchanged}
    (hcall : s.calls[i]? = some ⟨job, .sent request read attempt⟩) :
    Step defaults (.receive i answer) s
      { s with calls := s.advance i job (.afterAnswer job.config request read attempt answer) }

/-- Any number of steps in a row. -/
inductive Steps (defaults : Headers) (start : Serving) : List Event → Serving → Prop
  /-- No step. -/
  | nil : Steps defaults start [] start
  /-- One more step. -/
  | snoc {events : List Event} {event : Event} {s s' : Serving}
    (hsteps : Steps defaults start events s) (hstep : Step defaults event s s') :
    Steps defaults start (events ++ [event]) s'

/-! ## Calls that are not interrupted -/

theorem Steps.trans {start s s' : Serving} {events more : List Event}
    (h : Steps defaults start events s) (hmore : Steps defaults s more s') :
    Steps defaults start (events ++ more) s' := by
  induction hmore with
  | nil => rwa [List.append_nil]
  | snoc _ hstep ih =>
    rw [← List.append_assoc]
    exact ih.snoc hstep

/-- The state with one more call. -/
def withCall (s : Serving) (job : Job) (phase : Phase) : Serving :=
  { s with calls := s.calls ++ [⟨job, phase⟩] }

theorem withCall_advance (s : Serving) (job : Job) (phase phase' : Phase) :
    { s.withCall job phase with calls := (s.withCall job phase).advance s.calls.length job phase' }
      = s.withCall job phase' := by
  simp [withCall, advance]

section

variable (t : Transport σ) (s : Serving) (job : Job) (request : Request)
  (read : Response → Outcome Answer) (attempt : UInt32)

/-- The last call sends its request and receives an answer. -/
theorem steps_exchange (answer : Exchanged) :
    Steps defaults (s.withCall job (.ready request read attempt))
      [.send s.calls.length request, .receive s.calls.length answer]
      (s.withCall job (.afterAnswer job.config request read attempt answer)) := by
  have hsend : Step defaults (.send s.calls.length request)
      (s.withCall job (.ready request read attempt))
      (s.withCall job (.sent request read attempt)) := by
    rw [← withCall_advance s job (.ready request read attempt) (.sent request read attempt)]
    exact .send List.getElem?_concat_length
  have hreceive : Step defaults (.receive s.calls.length answer)
      (s.withCall job (.sent request read attempt))
      (s.withCall job (.afterAnswer job.config request read attempt answer)) := by
    rw [← withCall_advance s job (.sent request read attempt)
      (.afterAnswer job.config request read attempt answer)]
    exact .receive List.getElem?_concat_length
  exact (Steps.nil.snoc hsend).snoc hreceive

/-- The last call sends its request until an answer counts. -/
theorem exists_steps_sendFrom (inner : σ) :
    ∃ events, Steps defaults (s.withCall job (.ready request read attempt)) events
      (s.withCall job
        (.done (Job.conclude read (sendFrom t job.config request attempt inner)).1)) := by
  induction attempt, inner using sendFrom.induct t job.config request with
  | case1 attempt inner answer after hsend hretries ih =>
    obtain ⟨events, hevents⟩ := ih
    have hexchange : Steps defaults _ _ _ := steps_exchange s job request read attempt answer
    rw [Phase.afterAnswer, if_pos hretries] at hexchange
    rw [sendFrom_eq, hsend, if_pos hretries]
    exact ⟨_, hexchange.trans hevents⟩
  | case2 attempt inner answer after hsend hretries =>
    have hexchange : Steps defaults _ _ _ := steps_exchange s job request read attempt answer
    rw [Phase.afterAnswer, if_neg hretries] at hexchange
    rw [sendFrom_eq, hsend, if_neg hretries]
    exact ⟨_, hexchange⟩

end

/-- **A call that is not interrupted takes these steps**, and answers what it answers in one go. -/
theorem exists_steps_run (t : Transport σ) {s : Serving} {via : Reference} {id : ClientId}
    {ask : Ask} {client : AnyClient} {job : Job} (hvia : s.refersTo? via = some id)
    (hclient : s.host.client? id = some client) (hjob : client.job? ask = some job) (inner : σ) :
    ∃ events, Steps t.defaults s events (s.withCall job (.done (job.run t inner).1)) := by
  have hinvoke : Step t.defaults (.invoke via id ask) s (s.withCall job .begun) :=
    .invoke hvia hclient hjob
  have hprepare : Step t.defaults (.prepare s.calls.length) (s.withCall job .begun)
      (s.withCall job (.afterPreparing (job.prepared t.defaults))) := by
    rw [← withCall_advance s job .begun (.afterPreparing (job.prepared t.defaults))]
    exact .prepare List.getElem?_concat_length
  have hprepared := (Steps.nil.snoc hinvoke).snoc hprepare
  rw [Job.run_eq]
  cases hmade : job.prepared t.defaults with
  | error e =>
    rw [hmade] at hprepared
    exact ⟨_, hprepared⟩
  | ok made =>
    rw [hmade] at hprepared
    obtain ⟨events, hsent⟩ := exists_steps_sendFrom t s job made.1 made.2 0 inner
    exact ⟨_, hprepared.trans hsent⟩

/-! ## What changes make of a client -/

/-- The base URL that an event gives a client, if it is a change of it that is accepted. -/
def Event.base? (id : ClientId) : Event → Option Url
  | .setBaseUrl _ other text (.ok ()) =>
    if other = id then (baseUrl (trimText text)).toOption else none
  | _ => none

/-- The headers that an event gives a client, if it replaces them. -/
def Event.headers? (id : ClientId) : Event → Option Headers
  | .setHeaders _ other headers => if other = id then some headers else none
  | _ => none

end Serving

open Serving

/-- The configuration of a client after events.  It has the base URL of the last change that was
accepted and the headers of the last change of these; all else is as it was. -/
def Config.after (c : Config) (id : ClientId) (events : List Event) : Config :=
  { c with
    base := (events.filterMap (Event.base? id)).getLast?.getD c.base
    headers := (events.filterMap (Event.headers? id)).getLast?.getD c.headers }

/-- A client after events. -/
def AnyClient.after (client : AnyClient) (id : ClientId) (events : List Event) : AnyClient :=
  client.withConfig (client.config.after id events)

namespace AnyClient

@[simp] theorem config_withConfig (client : AnyClient) (c : Config) :
    (client.withConfig c).config = c := by
  cases client <;> rfl

@[simp] theorem withConfig_withConfig (client : AnyClient) (c d : Config) :
    (client.withConfig c).withConfig d = client.withConfig d := by
  cases client <;> rfl

@[simp] theorem withConfig_config (client : AnyClient) :
    client.withConfig client.config = client := by
  cases client <;> rfl

theorem config_of_job? {client : AnyClient} {ask : Ask} {job : Job}
    (h : client.job? ask = some job) : job.config = client.config := by
  cases client <;> cases ask <;> cases h <;> rfl

end AnyClient

theorem Config.after_append (c : Config) (id : ClientId) (events more : List Event) :
    c.after id (events ++ more) = (c.after id events).after id more := by
  simp [Config.after, List.getLast?_append, Option.getD_or]

theorem AnyClient.after_append (client : AnyClient) (id : ClientId) (events more : List Event) :
    client.after id (events ++ more) = (client.after id events).after id more := by
  simp [AnyClient.after, Config.after_append]

theorem AnyClient.after_nil (client : AnyClient) (id : ClientId) : client.after id [] = client := by
  cases client <;> rfl

/-- An event that gives a client neither base URL nor headers leaves it as it is. -/
theorem AnyClient.after_of_none (client : AnyClient) {id : ClientId} {event : Event}
    (hbase : event.base? id = none) (hheaders : event.headers? id = none) :
    client.after id [event] = client := by
  have hconfig : client.config.after id [event] = client.config := by
    simp [Config.after, hbase, hheaders]
  rw [AnyClient.after, hconfig, withConfig_config]

namespace Host

variable {h : Host} {id : ClientId} {client : AnyClient}

theorem client?_replace (hclient : h.client? id = some client) (c : AnyClient) (other : ClientId) :
    (h.replace id c).client? other = if other = id then some c else h.client? other := by
  have hlt : id < h.clients.length := (List.getElem?_eq_some_iff.1 hclient).1
  simp only [client?, replace, List.getElem?_set, eq_comm (a := other)]
  split <;> simp_all

/-- A base URL that cannot be read changes nothing; one that can is all that changes. -/
theorem setBaseUrl_cases (hclient : h.client? id = some client) (text : String) :
    (∃ e, baseUrl (trimText text) = .error e ∧ h.setBaseUrl id text = (.error e, h)) ∨
      ∃ url, baseUrl (trimText text) = .ok url ∧
        h.setBaseUrl id text
          = (.ok (), h.replace id (client.withConfig { client.config with base := url })) := by
  simp only [setBaseUrl, hclient, AnyClient.withBaseUrl, Config.withBaseUrl]
  cases baseUrl (trimText text) with
  | error e => exact .inl ⟨e, rfl, rfl⟩
  | ok url => exact .inr ⟨url, rfl, rfl⟩

theorem setHeaders_eq (hclient : h.client? id = some client) (headers : Headers) :
    h.setHeaders id headers
      = h.replace id (client.withConfig { client.config with headers := headers }) := by
  simp only [setHeaders, hclient, AnyClient.withHeaders, Config.withHeaders]

end Host

namespace Serving

section

variable {start s s' : Serving} {events : List Event} {event : Event} {i : Nat}

/-- A step leaves each client with what its event gives it. -/
theorem Step.client? (h : Step defaults event s s') (id : ClientId) :
    s'.host.client? id = (s.host.client? id).map (·.after id [event]) := by
  have hsame (hbase : event.base? id = none) (hheaders : event.headers? id = none) :
      s.host.client? id = (s.host.client? id).map (·.after id [event]) := by
    simp [AnyClient.after_of_none, hbase, hheaders]
  cases h with
  | clone | serve | register | invoke | prepare | send | receive => exact hsame rfl rfl
  | @setBaseUrl _ via changed text client hvia hclient =>
    obtain ⟨e, hurl, hset⟩ | ⟨url, hurl, hset⟩ := s.host.setBaseUrl_cases hclient text
    · simp only [hset]
      rw [hset] at hsame
      exact hsame rfl rfl
    · simp only [hset, Host.client?_replace hclient]
      by_cases heq : id = changed
      · subst heq
        simp [hclient, AnyClient.after, Config.after, Event.base?, Event.headers?, hurl,
          Except.toOption]
      · rw [if_neg heq]
        rw [hset] at hsame
        exact hsame (if_neg (Ne.symm heq)) rfl
  | @setHeaders _ via changed headers client hvia hclient =>
    simp only [Host.setHeaders_eq hclient, Host.client?_replace hclient]
    by_cases heq : id = changed
    · subst heq
      simp [hclient, AnyClient.after, Config.after, Event.base?, Event.headers?]
    · rw [if_neg heq]
      exact hsame rfl (if_neg (Ne.symm heq))

/-! ## What is known of the calls -/

/-- The request that an event sends for a call. -/
def Event.request? (i : Nat) : Event → Option Request
  | .send j request => if j = i then some request else none
  | _ => none

/-- The answer that an event brings to a call. -/
def Event.answer? (i : Nat) : Event → Option Exchanged
  | .receive j answer => if j = i then some answer else none
  | _ => none

/-- Whether a call begins. -/
def Event.isInvoke : Event → Bool
  | .invoke .. => true
  | _ => false

/-- The requests that a call has sent. -/
def requestsOf (i : Nat) (events : List Event) : List Request := events.filterMap (Event.request? i)

/-- The answers that a call has received. -/
def answersOf (i : Nat) (events : List Event) : List Exchanged := events.filterMap (Event.answer? i)

/-- A script goes on some answers. -/
def GoesOn (answers : List Exchanged) (script : Nat → Exchanged) : Prop :=
  ∀ (k : Nat) (answer : Exchanged), answers[k]? = some answer → script k = answer

/-- The call of a number has begun with the client as it was after the events before. -/
def BegunWith (start : Serving) (events : List Event) (i : Nat) (job : Job) : Prop :=
  ∃ before behind via id ask client, events = before ++ .invoke via id ask :: behind ∧
    before.countP Event.isInvoke = i ∧ start.host.client? id = some client ∧
    (client.after id before).job? ask = some job

/-- What events say of a call is what it has done so far. -/
structure Told (defaults : Headers) (events : List Event) (i : Nat) (call : ServingCall) :
    Prop where
  /-- What is about to be sent, or on its way, has been prepared. -/
  prepared : call.phase.Prepared defaults call.job
  /-- So has what was sent. -/
  requests : ∀ request ∈ requestsOf i events,
    ∃ read, call.job.prepared defaults = .ok (request, read)
  /-- In one go, on a transport that gives the same answers, the call would have got as far. -/
  rest : ∃ sent, requestsOf i events = sent ++ call.phase.underWay ∧
    ∀ script, GoesOn (answersOf i events) script →
      call.job.run (Transport.scripted defaults script).recorded ⟨[], 0⟩
        = call.phase.finish call.job (Transport.scripted defaults script).recorded
          ⟨sent, (answersOf i events).length⟩

/-- What holds after any run of steps. -/
structure Traced (defaults : Headers) (start : Serving) (events : List Event) (s : Serving) :
    Prop where
  /-- The clients are what the events make of them. -/
  clients : ∀ id, s.host.client? id = (start.host.client? id).map (·.after id events)
  /-- Calls are numbered as they begin. -/
  length_eq : s.calls.length = events.countP Event.isInvoke
  /-- Each has its client as it was when it began. -/
  begun : ∀ i call, s.calls[i]? = some call → BegunWith start events i call.job
  /-- Each is where its events have brought it. -/
  told : ∀ i call, s.calls[i]? = some call → Told defaults events i call
  /-- There are no events of other calls. -/
  unheard : ∀ i, s.calls.length ≤ i → requestsOf i events = [] ∧ answersOf i events = []

/-! ### One step -/

theorem BegunWith.snoc {job : Job} (h : BegunWith start events i job) (event : Event) :
    BegunWith start (events ++ [event]) i job := by
  obtain ⟨before, behind, via, id, ask, client, rfl, hbegun⟩ := h
  exact ⟨before, behind ++ [event], via, id, ask, client, by simp, hbegun⟩

theorem requestsOf_snoc (i : Nat) (events : List Event) (event : Event) :
    requestsOf i (events ++ [event]) = requestsOf i events ++ (event.request? i).toList := by
  cases h : event.request? i <;> simp [requestsOf, h]

theorem answersOf_snoc (i : Nat) (events : List Event) (event : Event) :
    answersOf i (events ++ [event]) = answersOf i events ++ (event.answer? i).toList := by
  cases h : event.answer? i <;> simp [answersOf, h]

theorem requestsOf_snoc_of_none (h : event.request? i = none) :
    requestsOf i (events ++ [event]) = requestsOf i events := by
  rw [requestsOf_snoc, h, Option.toList_none, List.append_nil]

theorem answersOf_snoc_of_none (h : event.answer? i = none) :
    answersOf i (events ++ [event]) = answersOf i events := by
  rw [answersOf_snoc, h, Option.toList_none, List.append_nil]

/-- An event of no call, or of another. -/
theorem Told.snoc {call : ServingCall} (h : Told defaults events i call)
    (hrequest : event.request? i = none) (hanswer : event.answer? i = none) :
    Told defaults (events ++ [event]) i call := by
  have hrequests : requestsOf i (events ++ [event]) = requestsOf i events :=
    requestsOf_snoc_of_none hrequest
  have hanswers : answersOf i (events ++ [event]) = answersOf i events :=
    answersOf_snoc_of_none hanswer
  exact ⟨h.prepared, hrequests ▸ h.requests, hrequests ▸ hanswers ▸ h.rest⟩

theorem told_begun {job : Job} (hrequests : requestsOf i events = [])
    (hanswers : answersOf i events = []) : Told defaults events i ⟨job, .begun⟩ where
  prepared := trivial
  requests := by simp [hrequests]
  rest := ⟨[], hrequests, fun script _ => by rw [hanswers]; rfl⟩

theorem Told.prepare {job : Job} (h : Told defaults events i ⟨job, .begun⟩) :
    Told defaults (events ++ [.prepare i]) i ⟨job, .afterPreparing (job.prepared defaults)⟩ := by
  have h : Told defaults (events ++ [.prepare i]) i ⟨job, .begun⟩ := h.snoc rfl rfl
  obtain ⟨sent, hsent, hrest⟩ := h.rest
  refine ⟨Phase.prepared_afterPreparing defaults job, h.requests, sent, ?_,
    fun script hscript => ?_⟩
  · rw [hsent]
    cases job.prepared defaults <;> rfl
  · rw [hrest script hscript]
    exact (Phase.finish_afterPreparing (Transport.scripted defaults script).recorded job _).symm

theorem Told.send {job : Job} {request : Request} {read : Response → Outcome Answer}
    {attempt : UInt32} (h : Told defaults events i ⟨job, .ready request read attempt⟩) :
    Told defaults (events ++ [.send i request]) i ⟨job, .sent request read attempt⟩ := by
  have hrequests : requestsOf i (events ++ [.send i request]) =
      requestsOf i events ++ [request] := by
    rw [requestsOf_snoc, Event.request?, if_pos rfl, Option.toList_some]
  have hanswers : answersOf i (events ++ [.send i request]) = answersOf i events :=
    answersOf_snoc_of_none rfl
  obtain ⟨sent, hsent, hrest⟩ := h.rest
  refine ⟨h.prepared, ?_, sent, ?_, hanswers ▸ hrest⟩
  · rw [hrequests]
    exact List.forall_mem_append.2 ⟨h.requests, List.forall_mem_singleton.2 ⟨read, h.prepared⟩⟩
  · rw [hrequests, hsent]
    exact List.append_nil _ ▸ rfl

theorem GoesOn.of_append {answers more : List Exchanged} {script : Nat → Exchanged}
    (h : GoesOn (answers ++ more) script) : GoesOn answers script := by
  intro k answer hanswer
  exact h k answer (List.getElem?_append_left (List.getElem?_eq_some_iff.1 hanswer).1 ▸ hanswer)

theorem Told.receive {job : Job} {request : Request} {read : Response → Outcome Answer}
    {attempt : UInt32} (h : Told defaults events i ⟨job, .sent request read attempt⟩)
    (answer : Exchanged) :
    Told defaults (events ++ [.receive i answer]) i
      ⟨job, .afterAnswer job.config request read attempt answer⟩ := by
  have hrequests : requestsOf i (events ++ [.receive i answer]) = requestsOf i events :=
    requestsOf_snoc_of_none rfl
  have hanswers : answersOf i (events ++ [.receive i answer]) = answersOf i events ++ [answer] := by
    rw [answersOf_snoc, Event.answer?, if_pos rfl, Option.toList_some]
  obtain ⟨sent, hsent, hrest⟩ := h.rest
  refine ⟨h.prepared.afterAnswer answer, hrequests ▸ h.requests, requestsOf i events, ?_,
    fun script hscript => ?_⟩
  · rw [hrequests, Phase.afterAnswer]
    split <;> exact (List.append_nil _).symm
  · rw [hanswers] at hscript ⊢
    have hanswer : script (answersOf i events).length = answer :=
      hscript _ _ List.getElem?_concat_length
    rw [hrest script hscript.of_append, Phase.finish_sent, send_recorded, hsent,
      List.length_append]
    simp only [Transport.scripted, hanswer]
    rfl

/-- What a step does to the calls: nothing, or one more begins, or one of them goes on. -/
theorem Step.calls_cases (h : Step defaults event s s') :
    event.isInvoke = false ∧ s'.calls = s.calls ∧
        (∀ i, event.request? i = none ∧ event.answer? i = none) ∨
      (∃ via id ask client job, event = .invoke via id ask ∧ s.host.client? id = some client ∧
        client.job? ask = some job ∧ s'.calls = s.calls ++ [⟨job, .begun⟩]) ∨
      ∃ i job phase phase', event.isInvoke = false ∧ s.calls[i]? = some ⟨job, phase⟩ ∧
        s'.calls = s.advance i job phase' ∧
        (∀ j, j ≠ i → event.request? j = none ∧ event.answer? j = none) ∧
        ∀ events, Told defaults events i ⟨job, phase⟩ →
          Told defaults (events ++ [event]) i ⟨job, phase'⟩ := by
  cases h with
  | clone | serve | register | setBaseUrl | setHeaders =>
    exact .inl ⟨rfl, rfl, fun _ => ⟨rfl, rfl⟩⟩
  | @invoke _ via id ask client job hvia hclient hjob =>
    exact .inr (.inl ⟨via, id, ask, client, job, rfl, hclient, hjob, rfl⟩)
  | @prepare _ i job hcall =>
    exact .inr (.inr ⟨i, job, _, _, rfl, hcall, rfl, fun _ _ => ⟨rfl, rfl⟩, fun _ => .prepare⟩)
  | @send _ i job request read attempt hcall =>
    exact .inr (.inr ⟨i, job, _, _, rfl, hcall, rfl, fun _ hne => ⟨if_neg hne.symm, rfl⟩,
      fun _ => .send⟩)
  | @receive _ i job request read attempt answer hcall =>
    exact .inr (.inr ⟨i, job, _, _, rfl, hcall, rfl, fun _ hne => ⟨rfl, if_neg hne.symm⟩,
      fun _ htold => htold.receive answer⟩)

theorem traced_start (hstart : start.calls = []) : Traced defaults start [] start where
  clients id := by simp [AnyClient.after_nil]
  length_eq := by simp [hstart]
  begun := by simp [hstart]
  told := by simp [hstart]
  unheard _ _ := ⟨rfl, rfl⟩

/-- The invariant is kept by a step. -/
theorem Traced.step (h : Traced defaults start events s) (hstep : Step defaults event s s') :
    Traced defaults start (events ++ [event]) s' := by
  have hclients (id : ClientId) :
      s'.host.client? id = (start.host.client? id).map (·.after id (events ++ [event])) := by
    rw [hstep.client?, h.clients, Option.map_map]
    exact congrArg (Option.map · _) (funext fun client => (client.after_append id events _).symm)
  have hunheard {i : Nat} (hi : s.calls.length ≤ i)
      (hevent : event.request? i = none ∧ event.answer? i = none) :
      requestsOf i (events ++ [event]) = [] ∧ answersOf i (events ++ [event]) = [] := by
    rw [requestsOf_snoc_of_none hevent.1, answersOf_snoc_of_none hevent.2]
    exact h.unheard i hi
  obtain ⟨hinvoke, hcalls, hevent⟩ | ⟨via, id, ask, client, job, rfl, hclient, hjob, hcalls⟩ |
    ⟨i, job, phase, phase', hinvoke, hcall, hcalls, hevent, htold⟩ := hstep.calls_cases
  · refine ⟨hclients, ?_, ?_, ?_, ?_⟩ <;> rw [hcalls]
    · simp [h.length_eq, hinvoke]
    · exact fun i call hcall => (h.begun i call hcall).snoc event
    · exact fun i call hcall => (h.told i call hcall).snoc (hevent i).1 (hevent i).2
    · exact fun i hi => hunheard hi (hevent i)
  · refine ⟨hclients, ?_, ?_, ?_, ?_⟩ <;> rw [hcalls]
    · simp [h.length_eq, Event.isInvoke]
    · intro i call hcall
      obtain ⟨rfl, rfl⟩ | hcall := getElem?_concat_cases hcall
      · rw [h.clients] at hclient
        obtain ⟨first, hfirst, rfl⟩ := Option.map_eq_some_iff.1 hclient
        exact ⟨events, [], via, id, ask, first, rfl, h.length_eq.symm, hfirst, hjob⟩
      · exact (h.begun i call hcall).snoc _
    · intro i call hcall
      obtain ⟨rfl, rfl⟩ | hcall := getElem?_concat_cases hcall
      · exact told_begun (hunheard le_rfl ⟨rfl, rfl⟩).1 (hunheard le_rfl ⟨rfl, rfl⟩).2
      · exact (h.told i call hcall).snoc rfl rfl
    · intro i hi
      rw [List.length_append] at hi
      exact hunheard (Nat.le_of_add_right_le hi) ⟨rfl, rfl⟩
  · have hlength : s'.calls.length = s.calls.length := by rw [hcalls, advance, List.length_set]
    have hlt : i < s.calls.length := (List.getElem?_eq_some_iff.1 hcall).1
    refine ⟨hclients, ?_, ?_, ?_, ?_⟩
    · simp [hlength, h.length_eq, hinvoke]
    · intro j call hj
      rw [hcalls] at hj
      obtain ⟨heq, rfl⟩ | ⟨-, hj⟩ := getElem?_set_cases hj
      · exact heq ▸ (h.begun i _ hcall).snoc event
      · exact (h.begun j call hj).snoc event
    · intro j call hj
      rw [hcalls] at hj
      obtain ⟨heq, rfl⟩ | ⟨hne, hj⟩ := getElem?_set_cases hj
      · exact heq ▸ htold events (h.told i _ hcall)
      · exact (h.told j call hj).snoc (hevent j hne).1 (hevent j hne).2
    · intro j hj
      rw [hlength] at hj
      exact hunheard hj (hevent j (by omega))

/-- The invariant holds after any run. -/
theorem Steps.traced (hstart : start.calls = []) (h : Steps defaults start events s) :
    Traced defaults start events s := by
  induction h with
  | nil => exact traced_start hstart
  | snoc _ hstep ih => exact ih.step hstep

/-- A call of which there are events has begun. -/
theorem Traced.exists_call (h : Traced defaults start events s) {request : Request}
    (hsend : .send i request ∈ events) : ∃ call, s.calls[i]? = some call := by
  have hmem : request ∈ requestsOf i events :=
    List.mem_filterMap.2 ⟨.send i request, hsend, if_pos rfl⟩
  have hlt : i < s.calls.length := by
    refine Nat.lt_of_not_ge fun hge => ?_
    rw [(h.unheard i hge).1] at hmem
    exact List.not_mem_nil hmem
  exact ⟨s.calls[i], List.getElem?_eq_getElem hlt⟩

theorem refersTo?_registered {context : Nat} {r : RequestContext}
    (hcontext : s.contexts[context]? = some r) (name : String) (id : ClientId) :
    Serving.refersTo? { s with contexts := s.contexts.set context ((Plugin.mk name id).register r) }
      (.registered context name) = some id := by
  have hlt : context < s.contexts.length := (List.getElem?_eq_some_iff.1 hcontext).1
  simp [refersTo?, Plugin.register, hlt]

/-! ## Whole runs -/

/-- **Every call keeps the configuration that it finds.**  A clone, and what a plugin registers,
lead to the same client.  Clients differ from what they were in their base URL and headers alone,
and these are the last ones accepted, whichever clones were used.  Every request of a call, at the
first attempt and at further ones, is the one that the client as it was when the call began
prepares: it goes to the base URL and has the headers that were in force then.  What a finished call
answers, how often it has sent the request and how it has read the response is what that client does
in one go, if it is given the same answers.  A base URL that cannot be read changes nothing; any
other change replaces the base URL, or the headers, of one client. -/
theorem Steps.calls_keep_configuration (hstart : start.calls = [])
    (h : Steps defaults start events s) :
    (∀ via id r r', Step defaults (.clone via id) r r' → r'.host = r.host ∧
      r.refersTo? via = some id ∧ r'.refersTo? (.clone r.clones.length) = some id) ∧
    (∀ via id name context r r', Step defaults (.register via id name context) r r' →
      r'.host = r.host ∧ r.refersTo? via = some id ∧
        r'.refersTo? (.registered context name) = some id) ∧
    (∀ id, s.host.client? id = (start.host.client? id).map (·.after id events)) ∧
    (∀ i request, .send i request ∈ events →
      ∃ before behind via id ask client job read,
        events = before ++ .invoke via id ask :: behind ∧ before.countP Event.isInvoke = i ∧
        start.host.client? id = some client ∧ (client.after id before).job? ask = some job ∧
        job.prepared defaults = .ok (request, read) ∧
        (client.config.after id before).Makes defaults request) ∧
    (∀ i job answer, s.calls[i]? = some ⟨job, .done answer⟩ →
      BegunWith start events i job ∧ ∀ script, GoesOn (answersOf i events) script →
        job.run (Transport.scripted defaults script).recorded ⟨[], 0⟩
          = (answer, ⟨requestsOf i events, (answersOf i events).length⟩)) ∧
    (∀ via id text answer r r', Step defaults (.setBaseUrl via id text answer) r r' →
      (∃ e, baseUrl (trimText text) = .error e ∧ answer = .error e ∧ r' = r) ∨
      ∃ url client, baseUrl (trimText text) = .ok url ∧ answer = .ok () ∧
        r.host.client? id = some client ∧
        r' = { r with
          host := r.host.replace id (client.withConfig { client.config with base := url }) }) ∧
    ∀ via id headers r r', Step defaults (.setHeaders via id headers) r r' →
      ∃ client, r.host.client? id = some client ∧
        r' = { r with
          host := r.host.replace id (client.withConfig { client.config with headers }) } := by
  have htraced := h.traced hstart
  refine ⟨fun via id r r' hstep => ?_, fun via id name context r r' hstep => ?_, htraced.clients,
    fun i request hsend => ?_, fun i job answer hdone => ?_,
    fun via id text answer r r' hstep => ?_, fun via id headers r r' hstep => ?_⟩
  · cases hstep with
    | clone hvia => exact ⟨rfl, hvia, List.getElem?_concat_length⟩
  · cases hstep with
    | register hvia hcontext => exact ⟨rfl, hvia, refersTo?_registered hcontext name id⟩
  · obtain ⟨call, hcall⟩ := htraced.exists_call hsend
    obtain ⟨before, behind, via, id, ask, client, hevents, hcount, hclient, hjob⟩ :=
      htraced.begun i call hcall
    obtain ⟨read, hprepared⟩ := (htraced.told i call hcall).requests request
      (List.mem_filterMap.2 ⟨.send i request, hsend, if_pos rfl⟩)
    have hmakes := Job.makes_of_prepared hprepared
    rw [AnyClient.config_of_job? hjob, AnyClient.after, AnyClient.config_withConfig] at hmakes
    exact ⟨before, behind, via, id, ask, client, call.job, read, hevents, hcount, hclient, hjob,
      hprepared, hmakes⟩
  · obtain ⟨sent, hsent, hrest⟩ := (htraced.told i _ hdone).rest
    rw [hsent, Phase.underWay, List.append_nil]
    exact ⟨htraced.begun i _ hdone, hrest⟩
  · generalize hevent : Event.setBaseUrl via id text answer = event at hstep
    cases hstep with
    | @setBaseUrl _ _ _ _ client hvia hclient =>
      cases hevent
      obtain ⟨e, hurl, hset⟩ | ⟨url, hurl, hset⟩ := r.host.setBaseUrl_cases hclient text
      · exact .inl ⟨e, hurl, congrArg Prod.fst hset, by rw [hset]⟩
      · exact .inr ⟨url, client, hurl, congrArg Prod.fst hset, hclient, by rw [hset]⟩
    | _ => cases hevent
  · cases hstep with
    | @setHeaders _ _ _ _ client hvia hclient =>
      exact ⟨client, hclient, by rw [Host.setHeaders_eq hclient]⟩

end

/-! ## A change while a call is under way -/

/-- Where a client is moved to. -/
def secureServer : Url := ⟨"https", "", none, .domain "localhost", none, [[]], none, none⟩

theorem baseUrl_secureServer : baseUrl (trimText " https://localhost") = .ok secureServer := by
  have hsome : (baseUrl (trimText " https://localhost")).toOption = some secureServer := by
    decide +kernel
  revert hsome
  cases baseUrl (trimText " https://localhost") with
  | error e => exact fun h => nomatch h
  | ok url => exact fun h => congrArg _ (Option.some.inj h)

/-- A client for quotes that tries again. -/
def quotesClient : OpenApiClient := ⟨quotesApi, { quotesConfig with retryDelay := some 5 }⟩

/-- The client after it has been moved. -/
def movedClient : OpenApiClient :=
  { quotesClient with config := { quotesClient.config with base := secureServer } }

/-- A host with a client that is registered for one request. -/
def quotesServing (client : OpenApiClient) (calls : List ServingCall) : Serving :=
  ⟨⟨[.openApi client]⟩, [0], [(Plugin.mk "quotes" 0).register .empty], calls⟩

/-- A call for a quote. -/
def quoteCall (client : OpenApiClient) (phase : Phase) : ServingCall :=
  ⟨.operation client "getQuote" quoteInput, phase⟩

/-- How a client reads a quote. -/
def readQuote (client : OpenApiClient) (r : Response) : Outcome Answer :=
  (receive client.config client.api getQuote r).map .output

/-- Between two attempts of a call the client is moved through the clone that is registered for a
request; then it is called again. -/
def quotesMoved : List Event :=
  [.invoke (.clone 0) 0 (.operation "getQuote" quoteInput), .prepare 0, .send 0 quoteRequest,
    .setBaseUrl (.registered 0 "quotes") 0 " https://localhost" (.ok ()),
    .receive 0 (.error (.other "lost")), .send 0 quoteRequest,
    .invoke (.registered 0 "quotes") 0 (.operation "getQuote" quoteInput)]

theorem steps_quotesMoved :
    Steps .empty (quotesServing quotesClient []) quotesMoved
      (quotesServing movedClient
        [quoteCall quotesClient (.sent quoteRequest (readQuote quotesClient) 1),
          quoteCall movedClient .begun]) := by
  have hinvoke : Step .empty (.invoke (.clone 0) 0 (.operation "getQuote" quoteInput))
      (quotesServing quotesClient [])
      (quotesServing quotesClient [quoteCall quotesClient .begun]) :=
    .invoke rfl rfl rfl
  have hprepare : Step .empty (.prepare 0)
      (quotesServing quotesClient [quoteCall quotesClient .begun])
      (quotesServing quotesClient
        [quoteCall quotesClient (.ready quoteRequest (readQuote quotesClient) 0)]) :=
    .prepare rfl
  have hsend (client : OpenApiClient) (attempt : UInt32) : Step .empty (.send 0 quoteRequest)
      (quotesServing client
        [quoteCall quotesClient (.ready quoteRequest (readQuote quotesClient) attempt)])
      (quotesServing client
        [quoteCall quotesClient (.sent quoteRequest (readQuote quotesClient) attempt)]) :=
    .send rfl
  have hmove (calls : List ServingCall) : Step .empty
      (.setBaseUrl (.registered 0 "quotes") 0 " https://localhost" (.ok ()))
      (quotesServing quotesClient calls) (quotesServing movedClient calls) := by
    have hset : (quotesServing quotesClient calls).host.setBaseUrl 0 " https://localhost"
        = (.ok (), ⟨[.openApi movedClient]⟩) := by
      simp only [Host.setBaseUrl, Host.client?, quotesServing, List.getElem?_cons_zero,
        AnyClient.withBaseUrl, Config.withBaseUrl, AnyClient.config, baseUrl_secureServer]
      rfl
    have hstep : Step .empty (.setBaseUrl (.registered 0 "quotes") 0 " https://localhost" _)
        (quotesServing quotesClient calls) _ := .setBaseUrl rfl rfl
    rw [hset] at hstep
    exact hstep
  have hlost : Step .empty (.receive 0 (.error (.other "lost")))
      (quotesServing movedClient
        [quoteCall quotesClient (.sent quoteRequest (readQuote quotesClient) 0)])
      (quotesServing movedClient
        [quoteCall quotesClient (.ready quoteRequest (readQuote quotesClient) 1)]) := by
    have hretry : Phase.afterAnswer quotesClient.config quoteRequest (readQuote quotesClient) 0
        (.error (.other "lost")) = .ready quoteRequest (readQuote quotesClient) 1 :=
      if_pos (by decide)
    rw [← hretry]
    exact .receive rfl
  have hwaiting := (((Steps.nil.snoc hinvoke).snoc hprepare).snoc (hsend _ 0)).snoc (hmove _)
  exact ((hwaiting.snoc hlost).snoc (hsend _ 1)).snoc (.invoke rfl rfl rfl)

/-- The client has moved, and both attempts of the call under way go to where it was before. -/
theorem Steps.calls_keep_configuration_moved :
    ∃ s, (quotesServing quotesClient []).calls = [] ∧
      Steps .empty (quotesServing quotesClient []) quotesMoved s ∧
      s.host.client? 0 = some (.openApi movedClient) ∧
      s.host.client? 0 = some ((AnyClient.openApi quotesClient).after 0 quotesMoved) ∧
      requestsOf 0 quotesMoved = [quoteRequest, quoteRequest] ∧
      ∃ before behind via ask, quotesMoved = before ++ .invoke via 0 ask :: behind ∧
        before.countP Event.isInvoke = 0 ∧
        (quotesClient.config.after 0 before).Makes .empty quoteRequest := by
  obtain ⟨-, -, hclients, hrequests, -⟩ := steps_quotesMoved.calls_keep_configuration rfl
  refine ⟨_, rfl, steps_quotesMoved, rfl, hclients 0, rfl, ?_⟩
  obtain ⟨before, behind, via, id, ask, client, -, -, hevents, hcount, hclient, -, -, hmakes⟩ :=
    hrequests 0 quoteRequest (by simp [quotesMoved])
  obtain ⟨hid, hfirst⟩ := List.getElem?_eq_some_iff.1 hclient
  obtain rfl : id = 0 := Nat.lt_one_iff.1 hid
  cases hfirst
  exact ⟨before, behind, via, ask, hevents, hcount, hmakes⟩

end Serving

end TypedClient.Client
