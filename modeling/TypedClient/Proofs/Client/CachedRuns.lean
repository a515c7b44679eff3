import Mathlib.Data.List.Induction
import TypedClient.Proofs.Client.CacheEntries
import TypedClient.Proofs.Client.Observing
import TypedClient.Proofs.Url.Segments

/-!
# Where a held response comes from

A transport with a cache either asks the transport below it, or answers a response that it holds.
What it holds, the transport below has answered to an earlier request of the same key.

* `Turn` is what may happen, and `after` the state that a run of turns leads to; the transport below
  is watched, so that it can be seen whether it has been asked;
* `PassesOn` and `AnswersHeld` are the two ways to answer, and `StoredBy` says how an entry has come
  about;
* `exists_storedBy` is the invariant of runs, and `send_cached_comes_from` the outcome;
* the headers of the earlier request are the same if they are `Headers.Plain`, and
  `not_headers_eq_lineBreak` says that otherwise they need not be.
-/

set_option autoImplicit false

namespace TypedClient.Client

variable {σ : Type}

/-! ## One request -/

/-- The cache after the answer to a request of a key. -/
def Cache.keep (c : Cache) (key : String) (answer : Exchanged) (now : Nat) : Cache :=
  match answer with
  | .ok response => if isCacheable response then c.store key response now else c
  | .error _ => c

section

variable (t : Transport σ) {request : Request} {key : String} {s : Cached σ} {cache : Cache}

theorem send_cached_of_none (h : cacheKey? request = none) :
    t.cached.send request s
      = ((t.send request s.inner).1, ⟨s.cache, (t.send request s.inner).2⟩) := by
  simp only [Transport.cached, h]

theorem send_cached_of_found {response : Response} (hkey : cacheKey? request = some key)
    (hfound : s.cache.lookup key (t.clock s.inner) = (some response, cache)) :
    t.cached.send request s = (.ok response, ⟨cache, s.inner⟩) := by
  simp only [Transport.cached, hkey, hfound]

theorem send_cached_of_missed (hkey : cacheKey? request = some key)
    (hmissed : s.cache.lookup key (t.clock s.inner) = (none, cache)) :
    t.cached.send request s
      = ((t.send request s.inner).1,
        ⟨cache.keep key (t.send request s.inner).1 (t.clock (t.send request s.inner).2),
          (t.send request s.inner).2⟩) := by
  simp only [Transport.cached, hkey, hmissed]
  rcases t.send request s.inner with ⟨failure | response, after⟩ <;> rfl

end

/-- An answer adds the entry of a response that is worth holding, at most. -/
theorem Cache.keep_eq (c : Cache) (key : String) (answer : Exchanged) (now : Nat) :
    ∃ entries, c.keep key answer now = { c with entries } ∧
      ∀ e ∈ entries, e ∈ c.entries ∨
        e.key = key ∧ answer = .ok e.response ∧ isCacheable e.response = true ∧ e.stored = now := by
  rw [keep.eq_def]
  split
  · split
    · rename_i response hcacheable
      obtain ⟨kept, hkept, hstore⟩ := store_eq c key response now
      refine ⟨_, hstore, List.forall_mem_append.2 ⟨fun e he => .inl (hkept.subset he), ?_⟩⟩
      exact List.forall_mem_singleton.2 (.inr ⟨rfl, rfl, hcacheable, rfl⟩)
    · exact ⟨c.entries, rfl, fun e he => .inl he⟩
  · exact ⟨c.entries, rfl, fun e he => .inl he⟩

/-- The transport below is asked for the request, once, and its answer is passed on. -/
structure PassesOn (t : Transport σ) (request : Request) (s : Cached (Recorded σ)) : Prop where
  /-- Its answer is passed on. -/
  answer : (t.recorded.cached.send request s).1 = (t.send request s.inner.inner).1
  /-- It is asked once. -/
  asked : (t.recorded.cached.send request s).2.inner
    = ⟨s.inner.requests ++ [request], (t.send request s.inner.inner).2⟩

/-- The response is answered, and the transport below is not asked. -/
structure AnswersHeld (t : Transport σ) (request : Request) (response : Response)
    (s : Cached (Recorded σ)) : Prop where
  /-- The response is answered. -/
  answer : (t.recorded.cached.send request s).1 = .ok response
  /-- The transport below is as before. -/
  unasked : (t.recorded.cached.send request s).2.inner = s.inner

/-- The entry holds what the transport below has answered to the request. -/
structure StoredBy (t : Transport σ) (request : Request) (s : Cached (Recorded σ))
    (e : CacheEntry) : Prop where
  /-- The transport below was asked. -/
  passesOn : PassesOn t request s
  /-- The key is that of the request. -/
  key : cacheKey? request = some e.key
  /-- The response is the answer. -/
  answer : (t.send request s.inner.inner).1 = .ok e.response
  /-- It is worth holding. -/
  cacheable : isCacheable e.response = true
  /-- It was stored when it had arrived. -/
  stored : e.stored = t.clock (t.send request s.inner.inner).2

/-- A request is answered by an entry of its key that is not too old, or passed on; then it may have
left an entry. -/
theorem send_cached_cases (t : Transport σ) (request : Request) (s : Cached (Recorded σ)) :
    (∃ e ∈ s.cache.entries, cacheKey? request = some e.key ∧
      s.cache.isExpired (t.clock s.inner.inner) e = false ∧
      AnswersHeld t request e.response s ∧ (t.recorded.cached.send request s).2.cache = s.cache) ∨
    PassesOn t request s ∧
      (t.recorded.cached.send request s).2.cache.lifetime = s.cache.lifetime ∧
      ∀ e ∈ (t.recorded.cached.send request s).2.cache.entries,
        e ∈ s.cache.entries ∨ StoredBy t request s e := by
  cases hkey : cacheKey? request with
  | none =>
    have hsend := send_cached_of_none t.recorded (s := s) hkey
    exact .inr ⟨⟨by rw [hsend]; rfl, by rw [hsend]; rfl⟩, by rw [hsend],
      fun e he => .inl (by rwa [hsend] at he)⟩
  | some key =>
    rcases hlookup : s.cache.lookup key (t.recorded.clock s.inner) with ⟨_ | response, cache⟩
    · have hsend := send_cached_of_missed t.recorded hkey hlookup
      have hpasses : PassesOn t request s := ⟨by rw [hsend]; rfl, by rw [hsend]; rfl⟩
      obtain ⟨left, hleft, hcache⟩ := s.cache.lookup_snd_eq key (t.recorded.clock s.inner)
      rw [hlookup] at hcache
      obtain ⟨entries, hkeep, hentries⟩ := cache.keep_eq key (t.recorded.send request s.inner).1
        (t.recorded.clock (t.recorded.send request s.inner).2)
      refine .inr ⟨hpasses, ?_, fun e he => ?_⟩
      · rw [hsend]
        dsimp only
        rw [hkeep, show cache = _ from hcache]
      · rw [hsend] at he
        dsimp only at he
        rw [hkeep] at he
        rcases hentries e he with hold | ⟨rfl, hanswer, hcacheable, hstored⟩
        · rw [show cache = _ from hcache] at hold
          exact .inl (hleft.subset hold)
        · exact .inr ⟨hpasses, hkey, hanswer, hcacheable, hstored⟩
    · have hsend := send_cached_of_found t.recorded hkey hlookup
      obtain ⟨e, he, rfl, rfl, hexpired, rfl⟩ := Cache.exists_mem_of_lookup hlookup
      exact .inl ⟨e, he, rfl, hexpired, ⟨by rw [hsend], by rw [hsend]⟩, by rw [hsend]⟩

/-! ## Runs -/

/-- What may happen to a transport with a cache. -/
inductive Turn (σ : Type) where
  /-- A request is sent. -/
  | dispatch (request : Request)
  /-- The cache is emptied. -/
  | invalidate
  /-- The transport below gets to another state by itself, as when time passes. -/
  | goOn (inner : σ)

/-- The state after a turn. -/
def Turn.next (t : Transport σ) (s : Cached (Recorded σ)) : Turn σ → Cached (Recorded σ)
  | dispatch request => (t.recorded.cached.send request s).2
  | invalidate => { s with cache := s.cache.invalidate }
  | goOn inner => { s with inner := { s.inner with inner } }

/-- An empty cache above a state of a transport that has not been asked. -/
def fresh (capacity : Nat) (lifetime : Option Nat) (inner : σ) : Cached (Recorded σ) :=
  ⟨.new capacity lifetime, ⟨[], inner⟩⟩

/-- The state after a run. -/
def after (t : Transport σ) (start : Cached (Recorded σ)) (turns : List (Turn σ)) :
    Cached (Recorded σ) :=
  turns.foldl (Turn.next t) start

theorem after_append_singleton (t : Transport σ) (start : Cached (Recorded σ))
    (turns : List (Turn σ)) (turn : Turn σ) :
    after t start (turns ++ [turn]) = turn.next t (after t start turns) := by
  rw [after, List.foldl_append]
  rfl

variable {t : Transport σ} {capacity : Nat} {lifetime : Option Nat} {inner : σ}
  {turns : List (Turn σ)}

theorem lifetime_after (t : Transport σ) (capacity : Nat) (lifetime : Option Nat) (inner : σ)
    (turns : List (Turn σ)) :
    (after t (fresh capacity lifetime inner) turns).cache.lifetime = lifetime := by
  induction turns using List.reverseRecOn with
  | nil => rfl
  | append_singleton turns turn ih =>
    rw [after_append_singleton]
    cases turn with
    | dispatch request =>
      obtain ⟨-, -, -, -, -, hcache⟩ | ⟨-, hlifetime, -⟩ :=
        send_cached_cases t request (after t (fresh capacity lifetime inner) turns)
      · exact (congrArg Cache.lifetime hcache).trans ih
      · exact hlifetime.trans ih
    | invalidate => exact ih
    | goOn inner => exact ih

/-- Each entry has been stored by a request since the cache was last emptied. -/
theorem exists_storedBy {e : CacheEntry}
    (h : e ∈ (after t (fresh capacity lifetime inner) turns).cache.entries) :
    ∃ earlier request between, turns = earlier ++ .dispatch request :: between ∧
      .invalidate ∉ between ∧
      StoredBy t request (after t (fresh capacity lifetime inner) earlier) e := by
  induction turns using List.reverseRecOn with
  | nil => cases h
  | append_singleton turns turn ih =>
    -- an entry that was there before is still that of the same request
    have hbefore (hne : turn ≠ .invalidate)
        (hmem : e ∈ (after t (fresh capacity lifetime inner) turns).cache.entries) :
        ∃ earlier request between, turns ++ [turn] = earlier ++ .dispatch request :: between ∧
          .invalidate ∉ between ∧
          StoredBy t request (after t (fresh capacity lifetime inner) earlier) e := by
      obtain ⟨earlier, request, between, hturns, hkept, hstored⟩ := ih hmem
      refine ⟨earlier, request, between ++ [turn], by simp [hturns], ?_, hstored⟩
      simpa [hkept] using hne.symm
    rw [after_append_singleton] at h
    cases turn with
    | dispatch request =>
      obtain ⟨-, -, -, -, -, hcache⟩ | ⟨-, -, hentries⟩ :=
        send_cached_cases t request (after t (fresh capacity lifetime inner) turns)
      · refine hbefore (by simp) ?_
        rwa [Turn.next, hcache] at h
      · rcases hentries e h with hold | hstored
        · exact hbefore (by simp) hold
        · exact ⟨turns, request, [], rfl, List.not_mem_nil, hstored⟩
    | invalidate => cases h
    | goOn inner => exact hbefore (by simp) h

/-! ## What is answered -/

/-- The response was answered to an earlier request of the run, which asks for the same. -/
structure ComesFrom (t : Transport σ) (start : Cached (Recorded σ)) (turns : List (Turn σ))
    (request : Request) (response : Response) (earlier : List (Turn σ)) (first : Request)
    (between : List (Turn σ)) : Prop where
  /-- The request came earlier in the run. -/
  turns_eq : turns = earlier ++ .dispatch first :: between
  /-- The cache has not been emptied since then. -/
  held : .invalidate ∉ between
  /-- It was passed on. -/
  passesOn : PassesOn t first (after t start earlier)
  /-- The response was the answer. -/
  answer : (t.send first (after t start earlier).inner.inner).1 = .ok response
  /-- It had a status of success. -/
  success : 200 ≤ response.status ∧ response.status < 300
  /-- The earlier request only reads. -/
  reads : first.IsPlainRead
  /-- And so does the later one. -/
  readsAgain : request.IsPlainRead
  /-- The response is not too old. -/
  young : ∀ lifetime, start.cache.lifetime = some lifetime →
    t.clock (after t start turns).inner.inner
      < t.clock (t.send first (after t start earlier).inner.inner).2 + lifetime
  /-- The address is the same. -/
  text_eq : first.url.text = request.url.text
  /-- The lines of headers are the same. -/
  lines_eq : first.headers.lines = request.headers.lines

/-- Headers that can be read off their lines are the same. -/
theorem ComesFrom.headers_eq {start : Cached (Recorded σ)} {request first : Request}
    {response : Response} {earlier between : List (Turn σ)}
    (h : ComesFrom t start turns request response earlier first between)
    (hplain : first.headers.Plain) (hplain' : request.headers.Plain) :
    first.headers = request.headers :=
  Headers.eq_of_lines_eq hplain hplain' h.lines_eq

/-- **A held response comes from an earlier request.**  After any run, a request is passed on and
its answer is what the transport below answers, or it is answered with what the transport below has
answered to an earlier request since the cache was last emptied; then both requests only read, have
the same address and the same lines of headers, and the response is a success and not too old.  If
no name of a header has a colon and no value a line feed, the headers are the same. -/
theorem send_cached_comes_from (t : Transport σ) (capacity : Nat) (lifetime : Option Nat)
    (inner : σ) (turns : List (Turn σ)) (request : Request)
    (hmade : ∀ r, .dispatch r ∈ turns ++ [.dispatch request] → r.url.Made) :
    PassesOn t request (after t (fresh capacity lifetime inner) turns) ∨
      ∃ response earlier first between,
        AnswersHeld t request response (after t (fresh capacity lifetime inner) turns) ∧
        ComesFrom t (fresh capacity lifetime inner) turns request response earlier first between ∧
        (first.headers.Plain → request.headers.Plain → first.headers = request.headers) := by
  obtain ⟨e, he, hkey, hexpired, hheld, -⟩ | ⟨hpasses, -⟩ :=
    send_cached_cases t request (after t (fresh capacity lifetime inner) turns)
  · obtain ⟨earlier, first, between, hturns, hkept, hstored⟩ := exists_storedBy he
    obtain ⟨htext, hlines⟩ := text_eq_of_cacheKey? hstored.key hkey
      (hmade first (by simp [hturns])) (hmade request (by simp))
    have hcomes : ComesFrom t (fresh capacity lifetime inner) turns request e.response earlier first
        between :=
      { turns_eq := hturns
        held := hkept
        passesOn := hstored.passesOn
        answer := hstored.answer
        success := isCacheable_iff.1 hstored.cacheable
        reads := (cacheKey?_eq_some_iff.1 hstored.key).1
        readsAgain := (cacheKey?_eq_some_iff.1 hkey).1
        young := fun limit hlimit =>
          hstored.stored ▸ Cache.isExpired_eq_false_iff.1 hexpired limit
            ((lifetime_after t capacity lifetime inner turns).trans hlimit)
        text_eq := htext
        lines_eq := hlines }
    exact .inr ⟨e.response, earlier, first, between, hheld, hcomes, hcomes.headers_eq⟩
  · exact .inl hpasses

/-- A request with the given headers that only reads. -/
def plainRequest (headers : Headers) : Request :=
  quotesConfig.request .get localServer headers .empty

theorem made_of_plainRequests (headers : List Headers) {r : Request}
    (h : Turn.dispatch r ∈ (headers.map fun h => Turn.dispatch (σ := Nat) (plainRequest h))) :
    r.url.Made := by
  obtain ⟨_, -, heq⟩ := List.mem_map.1 h
  cases heq
  exact .ofText ofText_localServer

theorem eq_of_turns_eq_singleton {a first : Request} {earlier between : List (Turn σ)}
    (h : [Turn.dispatch a] = earlier ++ .dispatch first :: between) : first = a := by
  obtain ⟨-, h⟩ | ⟨-, h⟩ := List.singleton_eq_append_iff.1 h
  · cases h
    rfl
  · cases h

/-- The second of two like requests is answered with the quote that the first one got. -/
theorem send_cached_comes_from_repeated :
    (∀ r, Turn.dispatch r ∈ [Turn.dispatch (plainRequest ⟨[("a", "1")]⟩)] ++
        [Turn.dispatch (σ := Nat) (plainRequest ⟨[("a", "1")]⟩)] → r.url.Made) ∧
      ∃ earlier first between,
        AnswersHeld quoteTransport (plainRequest ⟨[("a", "1")]⟩) quoteResponse
          (after quoteTransport (fresh 0 (some 5) 0)
            [.dispatch (plainRequest ⟨[("a", "1")]⟩)]) ∧
        ComesFrom quoteTransport (fresh 0 (some 5) 0) [.dispatch (plainRequest ⟨[("a", "1")]⟩)]
          (plainRequest ⟨[("a", "1")]⟩) quoteResponse earlier first between ∧
        first.headers = ⟨[("a", "1")]⟩ := by
  have hmade : ∀ r, Turn.dispatch r ∈ [Turn.dispatch (plainRequest ⟨[("a", "1")]⟩)] ++
      [Turn.dispatch (σ := Nat) (plainRequest ⟨[("a", "1")]⟩)] → r.url.Made :=
    fun r hr => made_of_plainRequests [⟨[("a", "1")]⟩, ⟨[("a", "1")]⟩] hr
  refine ⟨hmade, ?_⟩
  obtain hpasses | ⟨response, earlier, first, between, hheld, hcomes, -⟩ :=
    send_cached_comes_from quoteTransport 0 (some 5) 0 [.dispatch (plainRequest ⟨[("a", "1")]⟩)]
      (plainRequest ⟨[("a", "1")]⟩) hmade
  · have hasked := congrArg (fun watched => watched.requests.length) hpasses.asked
    exact absurd hasked (by decide +kernel)
  · cases hcomes.answer
    refine ⟨earlier, first, between, hheld, hcomes, ?_⟩
    rw [eq_of_turns_eq_singleton hcomes.turns_eq]
    rfl

/-- A line feed in the value of a header lets a response be answered to a request with other
headers. -/
theorem not_headers_eq_lineBreak :
    ¬∀ (t : Transport Nat) (capacity : Nat) (lifetime : Option Nat) (inner : Nat)
      (turns : List (Turn Nat)) (request : Request),
      (∀ r, .dispatch r ∈ turns ++ [.dispatch request] → r.url.Made) →
      PassesOn t request (after t (fresh capacity lifetime inner) turns) ∨
        ∃ response earlier first between,
          AnswersHeld t request response (after t (fresh capacity lifetime inner) turns) ∧
          ComesFrom t (fresh capacity lifetime inner) turns request response earlier first
            between ∧
          first.headers = request.headers := by
  intro h
  obtain hpasses | ⟨response, earlier, first, between, -, hcomes, heq⟩ :=
    h quoteTransport 256 none 0 [.dispatch (plainRequest ⟨[("a", "1\nb:2")]⟩)]
      (plainRequest ⟨[("a", "1"), ("b", "2")]⟩)
      fun r hr => made_of_plainRequests [⟨[("a", "1\nb:2")]⟩, ⟨[("a", "1"), ("b", "2")]⟩] hr
  · have hasked := congrArg (fun watched => watched.requests.length) hpasses.asked
    exact absurd hasked (by decide +kernel)
  · rw [eq_of_turns_eq_singleton hcomes.turns_eq] at heq
    exact absurd heq (by decide)

end TypedClient.Client
