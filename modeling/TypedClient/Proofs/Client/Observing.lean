import TypedClient.Proofs.Client.Calls

/-!
# Checking and shaping only observe

Whether responses are checked, and whether a call answers status and headers beside the body,
matters after the response has arrived.  Neither changes what is sent, and neither changes the body
that is answered: checking can only turn an answer into an error.

* `exchange_congr` says which settings matter up to the response;
* `decodeBody_of_validate` says that a body that passes is read as without the check, although it is
  read in another way;
* `invoke_observes` puts this together for whole calls.
-/

set_option autoImplicit false

namespace TypedClient.Client

open TypedClient.Api TypedClient.Types

variable {σ : Type} {api : Definition} {c d : Config} {id : String} {input : CallInput}

/-- The configuration with the check of responses switched on or off. -/
def Config.checking (c : Config) (on : Bool) : Config := { c with validateResponse := on }

/-- The configuration with full answers switched on or off. -/
def Config.answeringInFull (c : Config) (on : Bool) : Config := { c with fullResponse := on }

/-! ## Up to the response -/

/-- Configurations that prepare a call alike and decide alike about further attempts exchange the
same. -/
theorem exchange_congr (t : Transport σ)
    (hprepare : prepare api c t.defaults id input = prepare api d t.defaults id input)
    (hretries : c.retries = d.retries) (s : σ) :
    exchange api c t id input s = exchange api d t id input s := by
  rw [exchange, exchange, hprepare]
  cases prepare api d t.defaults id input with
  | error e => rfl
  | ok prepared =>
    have hsend := sendFrom_congr t hretries prepared.2 0 s
    simp only [sendWithRetry, hsend]

/-! ## The body of a response -/

/-- No bytes are no JSON. -/
theorem jsonOf?_nil : jsonOf? [] = none := by
  have hread : Json.read "" = none := rfl
  rw [jsonOf?, Text.decodeUtf8?, Text.decodeUtf8]
  exact hread

/-- What is declared as JSON and is JSON is read as such without the check. -/
theorem decodeBody_of_jsonOf? {r : Response} {body : Json} (hstated : saysJson r = true)
    (hjson : jsonOf? r.body = some body) : decodeBody r = body := by
  have hbody : r.body.isEmpty = false := by
    cases hbytes : r.body with
    | nil => rw [hbytes, jsonOf?_nil] at hjson; cases hjson
    | cons b bytes => rfl
  rw [decodeBody, hbody, hstated, hjson]
  rfl

theorem jsonOf?_of_readDeclared {op : Operation} {g : TypeGraph} {type : Option TypeId}
    {r : Response} {body : Json} (h : readDeclared op g type r = .ok body) :
    jsonOf? r.body = some body := by
  rw [readDeclared.eq_def] at h
  cases hjson : jsonOf? r.body with
  | none => rw [hjson] at h; cases h
  | some read =>
    rw [hjson] at h
    cases type with
    | none => cases h; rfl
    | some type =>
      simp only at h
      cases hcheck : check g type read with
      | error mismatch => rw [hcheck] at h; cases h
      | ok _ => rw [hcheck] at h; cases h; rfl

/-- No media type is not that of JSON. -/
theorem isJson_empty : isJson "" = false := rfl

/-- A response whose media type, or the empty one in its absence, is that of JSON says that it is
JSON. -/
theorem saysJson_of_isJson {r : Response} (h : isJson (r.contentType?.getD "") = true) :
    saysJson r = true := by
  rw [saysJson]
  cases htype : r.contentType? with
  | none => rw [htype, Option.getD_none, isJson_empty] at h; cases h
  | some type =>
    rw [htype, Option.getD_some] at h
    rw [Option.map_some, Option.getD_some, h]

/-- **A body that passes the check is the body that is read without it.** -/
theorem decodeBody_of_validate {op : Operation} {g : TypeGraph} {r : Response} {body : Json}
    (h : validate op g r = .ok body) : decodeBody r = body := by
  rw [validate.eq_def] at h
  cases hdeclared : op.responseFor? r.status with
  | none => rw [hdeclared] at h; cases h
  | some declared =>
    rw [hdeclared] at h
    simp only at h
    split at h
    · cases h; rfl
    · split at h
      · cases h
      · split at h
        case _ hjson =>
          exact decodeBody_of_jsonOf? (saysJson_of_isJson hjson) (jsonOf?_of_readDeclared h)
        case _ => cases h; rfl

/-! ## The answer -/

/-- A response of a status that is an error answers the same whatever is checked or shaped. -/
theorem receive_of_error {op : Operation} {r : Response}
    (h : 400 ≤ r.status ∧ c.throwOnError = true) :
    receive c api op r = .error (statusError r.status (decodeBody r)) := by
  rw [receive, if_pos h]

/-- A response of any other status answers the body in the shape that is asked for. -/
theorem receive_eq {op : Operation} {r : Response}
    (h : ¬(400 ≤ r.status ∧ c.throwOnError = true)) :
    receive c api op r = (readBody c api op r).map fun body =>
      if c.fullResponse || 400 ≤ r.status then .full r.status r.headers body else .body body := by
  rw [receive, if_neg h]
  cases readBody c api op r with
  | error e => rfl
  | ok body =>
    simp only [Bind.bind, Except.bind, Except.map, pure, Except.pure]
    split <;> rfl

/-- An answer that passes the check is the answer without it, and an error without the check is an
error with it. -/
theorem receive_checking (op : Operation) (r : Response) :
    (∀ o, receive (c.checking true) api op r = .ok o →
      receive (c.checking false) api op r = .ok o) ∧
    ∀ e, receive (c.checking false) api op r = .error e →
      receive (c.checking true) api op r = .error e := by
  by_cases hstatus : 400 ≤ r.status ∧ c.throwOnError = true
  · rw [receive_of_error (c := c.checking true) hstatus,
      receive_of_error (c := c.checking false) hstatus]
    exact ⟨fun _ h => h, fun _ h => h⟩
  · rw [receive_eq (c := c.checking true) hstatus, receive_eq (c := c.checking false) hstatus]
    have hchecked : readBody (c.checking true) api op r = validate op api.types r := rfl
    have hunchecked : readBody (c.checking false) api op r = .ok (decodeBody r) := rfl
    rw [hchecked, hunchecked]
    refine ⟨fun o ho => ?_, fun e he => by cases he⟩
    cases hvalid : validate op api.types r with
    | error e => rw [hvalid] at ho; cases ho
    | ok body => rw [hvalid] at ho; rw [decodeBody_of_validate hvalid]; exact ho

/-- The shape of an answer changes neither errors nor bodies. -/
theorem receive_answeringInFull (op : Operation) (r : Response) (on : Bool) :
    (receive (c.answeringInFull on) api op r).map Output.value
      = (receive c api op r).map Output.value := by
  by_cases hstatus : 400 ≤ r.status ∧ c.throwOnError = true
  · rw [receive_of_error (c := c.answeringInFull on) hstatus, receive_of_error hstatus]
  · rw [receive_eq (c := c.answeringInFull on) hstatus, receive_eq hstatus]
    have hbody : readBody (c.answeringInFull on) api op r = readBody c api op r := rfl
    rw [hbody]
    cases readBody c api op r with
    | error e => rfl
    | ok body =>
      simp only [Except.map, Except.ok.injEq]
      split <;> split <;> rfl

/-! ## Whole calls -/

/-- What is sent depends on the exchange only. -/
theorem sentBy_eq (t : Transport σ) (s : σ) :
    sentBy api c t id input s = (exchange api c t.recorded id input ⟨[], s⟩).2.requests := by
  rw [sentBy, invoke_eq]

/-- **Checking and shaping only observe.**  With and without the check a call sends the same
requests; what it answers with the check it answers without, and an error without the check is an
error with it.  With and without full answers it sends the same requests, fails with the same error
or answers the same body. -/
theorem invoke_observes (api : Definition) (c : Config) (t : Transport σ) (id : String)
    (input : CallInput) (s : σ) :
    (sentBy api (c.checking true) t id input s = sentBy api (c.checking false) t id input s ∧
      (∀ o, (invoke api (c.checking true) t id input s).1 = .ok o →
        (invoke api (c.checking false) t id input s).1 = .ok o) ∧
      ∀ e, (invoke api (c.checking false) t id input s).1 = .error e →
        (invoke api (c.checking true) t id input s).1 = .error e) ∧
    sentBy api (c.answeringInFull true) t id input s
        = sentBy api (c.answeringInFull false) t id input s ∧
      (invoke api (c.answeringInFull true) t id input s).1.map Output.value
        = (invoke api (c.answeringInFull false) t id input s).1.map Output.value := by
  have hchecking (on : Bool) {τ : Type} (t : Transport τ) (s : τ) :
      exchange api (c.checking on) t id input s = exchange api c t id input s :=
    exchange_congr (c := c.checking on) (d := c) t rfl rfl s
  have hshaping (on : Bool) {τ : Type} (t : Transport τ) (s : τ) :
      exchange api (c.answeringInFull on) t id input s = exchange api c t id input s :=
    exchange_congr (c := c.answeringInFull on) (d := c) t rfl rfl s
  refine ⟨⟨?_, ?_⟩, ?_, ?_⟩
  · rw [sentBy_eq, sentBy_eq, hchecking, hchecking]
  · rw [invoke_eq, invoke_eq, hchecking, hchecking]
    cases (exchange api c t id input s).1 with
    | error e => exact ⟨fun _ h => h, fun _ h => h⟩
    | ok answered => exact receive_checking answered.1 answered.2
  · rw [sentBy_eq, sentBy_eq, hshaping, hshaping]
  · rw [invoke_eq, invoke_eq, hshaping, hshaping]
    cases (exchange api c t id input s).1 with
    | error e => rfl
    | ok answered =>
      exact (receive_answeringInFull answered.1 answered.2 true).trans
        (receive_answeringInFull answered.1 answered.2 false).symm

/-- A quote. -/
def quoteResponse : Response where
  status := 200
  headers := ⟨[("content-type", "application/json")]⟩
  body := Text.encodeUtf8 "\"To be\""

/-- A transport that answers every request with the quote. -/
def quoteTransport : Transport Nat := .scripted .empty fun _ => .ok quoteResponse

theorem validate_quote :
    validate getQuote quotesApi.types quoteResponse = .ok (.string "To be") := by
  have hagrees : (validate getQuote quotesApi.types quoteResponse).toOption.any
      (Json.agrees (.string "To be")) = true := by decide +kernel
  cases hvalid : validate getQuote quotesApi.types quoteResponse with
  | error e => rw [hvalid] at hagrees; cases hagrees
  | ok body =>
    rw [hvalid] at hagrees
    cases body with
    | string s => rw [eq_of_beq (show ("To be" == s) = true from hagrees)]
    | _ => cases hagrees

/-- A call with these settings receives the quote. -/
theorem invoke_getQuote {c : Config}
    (hprepare : prepare quotesApi c quoteTransport.defaults "getQuote" quoteInput =
      .ok (getQuote, quoteRequest))
    (hdelay : c.retryDelay = none) (hchecked : c.validateResponse = true) :
    (invoke quotesApi c quoteTransport "getQuote" quoteInput 0).1
      = .ok (if c.fullResponse then .full 200 quoteResponse.headers (.string "To be")
          else .body (.string "To be")) := by
  have hread : readBody c quotesApi getQuote quoteResponse = .ok (.string "To be") := by
    rw [readBody, if_pos hchecked]
    exact validate_quote
  have hstatus : ¬(400 ≤ quoteResponse.status ∧ c.throwOnError = true) :=
    fun h => absurd h.1 (by decide)
  rw [invoke_of_retryDelay_eq_none hprepare hdelay]
  change receive c quotesApi getQuote quoteResponse = _
  rw [receive_eq hstatus, hread]
  cases c.fullResponse <;> rfl

/-- A quote that passes the check is answered without it, and one that is lost is lost with it.  An
answer in full has the same body as one that is the body alone, and the request is the same. -/
theorem invoke_observes_getQuote :
    ((invoke quotesApi (quotesConfig.checking true) quoteTransport "getQuote" quoteInput 0).1
        = .ok (.body (.string "To be")) ∧
      (invoke quotesApi (quotesConfig.checking false) quoteTransport "getQuote" quoteInput 0).1
        = .ok (.body (.string "To be"))) ∧
    ((invoke quotesApi (quotesConfig.checking false) lostTransport "getQuote" quoteInput 0).1
        = .error (failureError (.other "lost")) ∧
      (invoke quotesApi (quotesConfig.checking true) lostTransport "getQuote" quoteInput 0).1
        = .error (failureError (.other "lost"))) ∧
    ((invoke quotesApi (quotesConfig.answeringInFull true) quoteTransport "getQuote"
        quoteInput 0).1 = .ok (.full 200 quoteResponse.headers (.string "To be")) ∧
      (invoke quotesApi (quotesConfig.answeringInFull false) quoteTransport "getQuote"
        quoteInput 0).1.map Output.value = .ok (.string "To be")) ∧
    sentBy quotesApi (quotesConfig.answeringInFull false) quoteTransport "getQuote" quoteInput 0
        = [quoteRequest] ∧
      sentBy quotesApi (quotesConfig.answeringInFull true) quoteTransport "getQuote" quoteInput 0
        = [quoteRequest] := by
  have hlost : (invoke quotesApi (quotesConfig.checking false) lostTransport "getQuote"
      quoteInput 0).1 = .error (failureError (.other "lost")) :=
    invoke_of_retryDelay_eq_none (c := quotesConfig.checking false) prepare_getQuote rfl 0
  have hchecked := invoke_getQuote (c := quotesConfig.checking true) rfl rfl rfl
  have hfull := invoke_getQuote (c := quotesConfig.answeringInFull true) rfl rfl rfl
  have hsent : sentBy quotesApi (quotesConfig.answeringInFull false) quoteTransport "getQuote"
      quoteInput 0 = [quoteRequest] := sentBy_of_retryDelay_eq_none rfl rfl 0
  obtain ⟨⟨-, hanswered, -⟩, hsame, hbodies⟩ :=
    invoke_observes quotesApi quotesConfig quoteTransport "getQuote" quoteInput 0
  obtain ⟨⟨-, -, hfailed⟩, -⟩ :=
    invoke_observes quotesApi quotesConfig lostTransport "getQuote" quoteInput 0
  refine ⟨⟨hchecked, hanswered _ hchecked⟩, ⟨hlost, hfailed _ hlost⟩, ⟨hfull, ?_⟩, hsent,
    hsame.trans hsent⟩
  rw [← hbodies, hfull]
  rfl

end TypedClient.Client
