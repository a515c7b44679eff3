import TypedClient.Client.Config
import TypedClient.Client.Request

/-!
# Transports

A transport carries requests.  It may remember what it has carried, so it comes with a state.

* `Transport` sends one request in a state;
* `Transport.logged` also keeps a log;
* `Cache` holds responses to requests that only read, and `Transport.cached` looks there first.
  Looking up and storing are separate steps, so that exchanges which overlap in time can be
  described as well;
* `sendWithRetry` repeats a request that failed for reasons that may pass.
-/

set_option autoImplicit false

namespace TypedClient.Client

/-- A way to carry requests, with states of the given type. -/
structure Transport (σ : Type) where
  /-- Headers that every request starts from. -/
  defaults : Headers
  /-- The time in a state, in milliseconds. -/
  clock : σ → Nat
  /-- Sends a request. -/
  send : Request → σ → Exchanged × σ

/-! ## Logging -/

/-- A note of an exchange. -/
structure LogEntry where
  /-- The method of the request. -/
  method : Api.Method
  /-- The address of the request. -/
  url : String
  /-- The status of the response, or why there is none. -/
  outcome : Except String Nat
  /-- How long the exchange took. -/
  elapsed : Nat

/-- A log, the last exchange first, above the state of a transport. -/
structure Logged (σ : Type) where
  /-- The exchanges. -/
  exchanges : List LogEntry
  /-- The state of the transport. -/
  inner : σ

/-- The note of an exchange. -/
def logEntry (request : Request) (answer : Exchanged) (elapsed : Nat) : LogEntry where
  method := request.method
  url := request.url.text
  outcome := (answer.map Response.status).mapError Failure.message
  elapsed := elapsed

/-- The transport that also notes what it carries; its answers are those of the other. -/
def Transport.logged {σ : Type} (t : Transport σ) : Transport (Logged σ) where
  defaults := t.defaults
  clock s := t.clock s.inner
  send request s :=
    let (answer, inner) := t.send request s.inner
    let entry := logEntry request answer (t.clock inner - t.clock s.inner)
    (answer, ⟨entry :: s.exchanges, inner⟩)

/-! ## Caching -/

/-- A response that is held. -/
structure CacheEntry where
  /-- What the request is told from others by. -/
  key : String
  /-- When the response was stored. -/
  stored : Nat
  /-- The response. -/
  response : Response

/-- Responses that are held. -/
structure Cache where
  /-- How many responses there is room for. -/
  capacity : Nat
  /-- How long a response is held, if there is a limit. -/
  lifetime : Option Nat
  /-- The responses. -/
  entries : List CacheEntry

/-- A cache without responses.  There is always room for one. -/
def Cache.new (capacity : Nat := 256) (lifetime : Option Nat := none) : Cache :=
  ⟨max capacity 1, lifetime, []⟩

/-- What a request is told from others by: its address and headers.  There is none for requests that
may change something. -/
def cacheKey? (r : Request) : Option String :=
  if r.method = .get ∧ r.body.isEmpty then
    some (r.url.text ++
      String.join (r.headers.entries.map fun (name, value) => "\n" ++ name ++ ":" ++ value))
  else none

namespace Cache

/-- Whether an entry is too old at a time. -/
def isExpired (c : Cache) (now : Nat) (e : CacheEntry) : Bool :=
  match c.lifetime with
  | some lifetime => e.stored + lifetime ≤ now
  | none => false

/-- The cache without the entry of a key. -/
def drop (c : Cache) (key : String) : Cache :=
  { c with entries := c.entries.filter (·.key != key) }

/-- Looks a response up at a time; an entry that is too old goes. -/
def lookup (c : Cache) (key : String) (now : Nat) : Option Response × Cache :=
  match c.entries.find? (·.key == key) with
  | none => (none, c)
  | some e => if c.isExpired now e then (none, c.drop key) else (some e.response, c)

/-- The oldest entry. -/
def oldest? (c : Cache) : Option CacheEntry :=
  c.entries.foldl
    (fun best e =>
      match best with
      | none => some e
      | some b => if e.stored < b.stored then some e else some b)
    none

/-- The cache with room for one more: the oldest entry goes if all room is taken. -/
def makeRoom (c : Cache) : Cache :=
  if c.entries.length < c.capacity then c
  else
    match c.oldest? with
    | some e => c.drop e.key
    | none => c

/-- Stores a response at a time.  It takes the place of one with the same key. -/
def store (c : Cache) (key : String) (response : Response) (now : Nat) : Cache :=
  let roomy := if c.entries.any (·.key == key) then c.drop key else c.makeRoom
  { roomy with entries := roomy.entries ++ [⟨key, now, response⟩] }

/-- The cache without any responses. -/
def invalidate (c : Cache) : Cache := { c with entries := [] }

end Cache

/-- Whether a response is worth holding. -/
def isCacheable (r : Response) : Bool := 200 ≤ r.status && r.status < 300

/-- A cache above the state of a transport. -/
structure Cached (σ : Type) where
  /-- The cache. -/
  cache : Cache
  /-- The state of the transport. -/
  inner : σ

/-- The transport that first looks whether it holds a response. -/
def Transport.cached {σ : Type} (t : Transport σ) : Transport (Cached σ) where
  defaults := t.defaults
  clock s := t.clock s.inner
  send request s :=
    match cacheKey? request with
    | none =>
      let (answer, inner) := t.send request s.inner
      (answer, { s with inner })
    | some key =>
      match s.cache.lookup key (t.clock s.inner) with
      | (some response, cache) => (.ok response, { s with cache })
      | (none, cache) =>
        match t.send request s.inner with
        | (.ok response, inner) =>
          let held :=
            if isCacheable response then cache.store key response (t.clock inner) else cache
          (.ok response, ⟨held, inner⟩)
        | (.error failure, inner) => (.error failure, ⟨cache, inner⟩)

/-! ## Retrying -/

/-- Whether another attempt may succeed. -/
def isRetryable : Exchanged → Bool
  | .ok response => 500 ≤ response.status
  | .error _ => true

/-- An exchange without response as an error. -/
def failureError (f : Failure) : ClientError :=
  .caused ("request failed: " ++ f.message) f.message

/-- Whether there is a further attempt after an answer, when there have been `attempt` of them. -/
def Config.retries (c : Config) (attempt : UInt32) (answer : Exchanged) : Bool :=
  c.retryDelay.isSome && isRetryable answer && attempt < c.maxRetries

/-- Attempts are counted below their limit, so the count never overflows. -/
theorem Config.toNat_add_one_of_retries {c : Config} {attempt : UInt32} {answer : Exchanged}
    (h : c.retries attempt answer = true) :
    (attempt + 1).toNat = attempt.toNat + 1 ∧ attempt.toNat < c.maxRetries.toNat := by
  simp only [Config.retries, Bool.and_eq_true, decide_eq_true_eq] at h
  have hlt : attempt.toNat < c.maxRetries.toNat := UInt32.lt_iff_toNat_lt.1 h.2
  have hlimit : c.maxRetries.toNat < 2 ^ 32 := c.maxRetries.toNat_lt
  refine ⟨?_, hlt⟩
  rw [UInt32.toNat_add, UInt32.toNat_one, Nat.mod_eq_of_lt (by omega)]

/-- Sends a request after `attempt` further attempts, and repeats it as the configuration allows.
The last answer counts. -/
def sendFrom {σ : Type} (t : Transport σ) (c : Config) (request : Request) (attempt : UInt32)
    (s : σ) : Outcome Response × σ :=
  match t.send request s with
  | (answer, s) =>
    if c.retries attempt answer then sendFrom t c request (attempt + 1) s
    else (answer.mapError failureError, s)
termination_by c.maxRetries.toNat - attempt.toNat
decreasing_by
  have := Config.toNat_add_one_of_retries ‹c.retries attempt answer = true›
  omega

/-- Sends a request and repeats it as the configuration allows. -/
def sendWithRetry {σ : Type} (t : Transport σ) (c : Config) (request : Request) (s : σ) :
    Outcome Response × σ :=
  sendFrom t c request 0 s

end TypedClient.Client
