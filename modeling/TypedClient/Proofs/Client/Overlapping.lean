import TypedClient.Proofs.Client.CachedRuns
import TypedClient.Proofs.Lists

/-!
# Calls that overlap

A cache is shared by calls that run at the same time.  A call looks its request up; if nothing is
found it sends the request, waits for the answer, and stores a response that is worth holding.  Only
looking up, storing and emptying the cache happen at once, and anything may come between the steps
of a call.

* `Sharing` is a cache with the calls that share it, `Sharing.Step` one step of one of them, and
  `Sharing.Steps` any interleaving of steps;
* `exists_steps_send` and `exists_steps_after` say that a call that is not interrupted, and a run of
  such calls, takes these steps;
* `Sharing.Traced` is the invariant: a call is where its events have brought it, and each entry has
  been left by a call since the cache was last emptied;
* `Steps.storing_of_new` says what the cache holds, and what storing does to it, at any point;
* `Steps.found_since_invalidate` says where a response comes from that is found after the cache has
  been emptied, and `not_sent_since_invalidate` that it can have been asked for before.
-/

set_option autoImplicit false

namespace TypedClient.Client

/-- How far a call has got. -/
inductive Stage where
  /-- Nothing was found. -/
  | missed
  /-- The request is on its way. -/
  | sent
  /-- The answer has arrived. -/
  | received (answer : Exchanged)
  /-- The response has been stored. -/
  | stored (response : Response)
  /-- A response was found. -/
  | found (response : Response)

/-- What a call answers, if it needs no further step for that. -/
def Stage.answer? : Stage → Option Exchanged
  | missed | sent => none
  | received answer => some answer
  | stored response | found response => some (.ok response)

/-- A call that shares a cache. -/
structure SharingCall where
  /-- The request. -/
  request : Request
  /-- How far it has got. -/
  stage : Stage

/-- A cache with the calls that share it. -/
structure Sharing where
  /-- The cache. -/
  cache : Cache
  /-- The calls, by number. -/
  calls : List SharingCall

namespace Sharing

/-- What may happen.  Calls are told by their numbers. -/
inductive Event where
  /-- A call begins and looks its request up at a time. -/
  | look (request : Request) (now : Nat)
  /-- A call sends its request. -/
  | send (i : Nat)
  /-- A call receives the answer. -/
  | receive (i : Nat) (answer : Exchanged)
  /-- A call stores the response at a time. -/
  | store (i : Nat) (now : Nat)
  /-- The cache is emptied. -/
  | invalidate

/-- The calls with one at another stage. -/
def advance (s : Sharing) (i : Nat) (request : Request) (stage : Stage) : List SharingCall :=
  s.calls.set i ⟨request, stage⟩

/-- One step. -/
inductive Step : Event → Sharing → Sharing → Prop
  /-- A request without a key is not looked up. -/
  | skip {s : Sharing} {request : Request} {now : Nat} (hkey : cacheKey? request = none) :
    Step (.look request now) s ⟨s.cache, s.calls ++ [⟨request, .missed⟩]⟩
  /-- Nothing is found. -/
  | miss {s : Sharing} {request : Request} {now : Nat} {key : String} {cache : Cache}
    (hkey : cacheKey? request = some key) (hlookup : s.cache.lookup key now = (none, cache)) :
    Step (.look request now) s ⟨cache, s.calls ++ [⟨request, .missed⟩]⟩
  /-- A response is found. -/
  | find {s : Sharing} {request : Request} {now : Nat} {key : String} {response : Response}
    {cache : Cache} (hkey : cacheKey? request = some key)
    (hlookup : s.cache.lookup key now = (some response, cache)) :
    Step (.look request now) s ⟨cache, s.calls ++ [⟨request, .found response⟩]⟩
  /-- A request that was not found is sent. -/
  | send {s : Sharing} {i : Nat} {request : Request}
    (hcall : s.calls[i]? = some ⟨request, .missed⟩) :
    Step (.send i) s ⟨s.cache, s.advance i request .sent⟩
  /-- The answer to a request arrives. -/
  | receive {s : Sharing} {i : Nat} {request : Request} {answer : Exchanged}
    (hcall : s.calls[i]? = some ⟨request, .sent⟩) :
    Step (.receive i answer) s ⟨s.cache, s.advance i request (.received answer)⟩
  /-- A response that is worth holding is stored. -/
  | store {s : Sharing} {i now : Nat} {request : Request} {key : String} {response : Response}
    (hcall : s.calls[i]? = some ⟨request, .received (.ok response)⟩)
    (hkey : cacheKey? request = some key) (hcacheable : isCacheable response = true) :
    Step (.store i now) s ⟨s.cache.store key response now, s.advance i request (.stored response)⟩
  /-- The cache is emptied. -/
  | invalidate {s : Sharing} : Step .invalidate s ⟨s.cache.invalidate, s.calls⟩

/-- Any number of steps in a row. -/
inductive Steps (start : Sharing) : List Event → Sharing → Prop
  /-- No step. -/
  | nil : Steps start [] start
  /-- One more step. -/
  | snoc {events : List Event} {event : Event} {s s' : Sharing} (hsteps : Steps start events s)
    (hstep : Step event s s') : Steps start (events ++ [event]) s'

/-- An empty cache that no call shares yet. -/
def new (capacity : Nat) (lifetime : Option Nat) : Sharing := ⟨.new capacity lifetime, []⟩

/-! ## Calls that are not interrupted -/

theorem Steps.trans {start s s' : Sharing} {events more : List Event} (h : Steps start events s)
    (hmore : Steps s more s') : Steps start (events ++ more) s' := by
  induction hmore with
  | nil => rwa [List.append_nil]
  | snoc _ hstep ih =>
    rw [← List.append_assoc]
    exact ih.snoc hstep

section

variable (cache : Cache) (calls : List SharingCall) (request : Request)

theorem advance_append_singleton (stage stage' : Stage) :
    advance ⟨cache, calls ++ [⟨request, stage⟩]⟩ calls.length request stage'
      = calls ++ [⟨request, stage'⟩] := by
  simp [advance]

/-- The last call sends its request and receives the answer. -/
theorem steps_exchange (answer : Exchanged) :
    Steps ⟨cache, calls ++ [⟨request, .missed⟩]⟩
      [.send calls.length, .receive calls.length answer]
      ⟨cache, calls ++ [⟨request, .received answer⟩]⟩ := by
  have hsend : Step (.send calls.length) ⟨cache, calls ++ [⟨request, .missed⟩]⟩
      ⟨cache, calls ++ [⟨request, .sent⟩]⟩ := by
    rw [← advance_append_singleton cache calls request .missed .sent]
    exact .send List.getElem?_concat_length
  have hreceive : Step (.receive calls.length answer) ⟨cache, calls ++ [⟨request, .sent⟩]⟩
      ⟨cache, calls ++ [⟨request, .received answer⟩]⟩ := by
    rw [← advance_append_singleton cache calls request .sent (.received answer)]
    exact .receive List.getElem?_concat_length
  exact (Steps.nil.snoc hsend).snoc hreceive

/-- The last call stores a response that is worth holding. -/
theorem step_store {key : String} {response : Response} (hkey : cacheKey? request = some key)
    (hcacheable : isCacheable response = true) (now : Nat) :
    Step (.store calls.length now) ⟨cache, calls ++ [⟨request, .received (.ok response)⟩]⟩
      ⟨cache.store key response now, calls ++ [⟨request, .stored response⟩]⟩ := by
  rw [← advance_append_singleton cache calls request (.received (.ok response)) (.stored response)]
  exact .store List.getElem?_concat_length hkey hcacheable

end

/-- **A call that is not interrupted takes these steps.**  It leaves the cache that the transport
leaves, and it answers what the transport answers. -/
theorem exists_steps_send {σ : Type} (t : Transport σ) (request : Request) (s : Cached σ)
    (calls : List SharingCall) :
    ∃ events stage, .invalidate ∉ events ∧
      Steps ⟨s.cache, calls⟩ events
        ⟨(t.cached.send request s).2.cache, calls ++ [⟨request, stage⟩]⟩ ∧
      stage.answer? = some (t.cached.send request s).1 := by
  have hexchange (cache : Cache) := steps_exchange cache calls request (t.send request s.inner).1
  cases hkey : cacheKey? request with
  | none =>
    have hlook : Step (.look request (t.clock s.inner)) ⟨s.cache, calls⟩ _ := .skip hkey
    rw [send_cached_of_none t hkey]
    exact ⟨_, _, by simp, (Steps.nil.snoc hlook).trans (hexchange s.cache), rfl⟩
  | some key =>
    rcases hlookup : s.cache.lookup key (t.clock s.inner) with ⟨_ | response, cache⟩
    · have hlook : Step (.look request (t.clock s.inner)) ⟨s.cache, calls⟩ _ := .miss hkey hlookup
      have hreceived := (Steps.nil.snoc hlook).trans (hexchange cache)
      rw [send_cached_of_missed t hkey hlookup]
      cases hanswer : (t.send request s.inner).1 with
      | error failure =>
        rw [hanswer] at hreceived
        exact ⟨_, _, by simp, hreceived, rfl⟩
      | ok response =>
        rw [hanswer] at hreceived
        dsimp only [Cache.keep]
        split
        · rename_i hcacheable
          have hstore := step_store cache calls request hkey hcacheable
            (t.clock (t.send request s.inner).2)
          exact ⟨_, _, by simp, hreceived.snoc hstore, rfl⟩
        · exact ⟨_, _, by simp, hreceived, rfl⟩
    · have hlook : Step (.look request (t.clock s.inner)) ⟨s.cache, calls⟩ _ := .find hkey hlookup
      rw [send_cached_of_found t hkey hlookup]
      exact ⟨_, _, by simp, Steps.nil.snoc hlook, rfl⟩

/-- **Calls one after another are an interleaving.** -/
theorem exists_steps_after {σ : Type} (t : Transport σ) (capacity : Nat) (lifetime : Option Nat)
    (inner : σ) (turns : List (Turn σ)) :
    ∃ events calls, Steps (new capacity lifetime) events
      ⟨(after t (fresh capacity lifetime inner) turns).cache, calls⟩ := by
  induction turns using List.reverseRecOn with
  | nil => exact ⟨[], [], .nil⟩
  | append_singleton turns turn ih =>
    obtain ⟨events, calls, hsteps⟩ := ih
    rw [after_append_singleton]
    cases turn with
    | dispatch request =>
      obtain ⟨more, stage, -, hsend, -⟩ := exists_steps_send t.recorded request
        (after t (fresh capacity lifetime inner) turns) calls
      exact ⟨events ++ more, _, hsteps.trans hsend⟩
    | invalidate => exact ⟨events ++ [.invalidate], calls, hsteps.snoc .invalidate⟩
    | goOn inner => exact ⟨events, calls, hsteps⟩

/-! ## What is known of a state -/

section

variable {capacity : Nat} {lifetime : Option Nat} {events : List Event} {event : Event}
  {s s' : Sharing} {i : Nat} {e : CacheEntry}

/-- The events that bring the call of a number to a stage. -/
def Reached (events : List Event) (i : Nat) : Stage → Prop
  | .missed | .found _ => True
  | .sent => .send i ∈ events
  | .received answer => .send i ∈ events ∧ .receive i answer ∈ events
  | .stored response => .send i ∈ events ∧ .receive i (.ok response) ∈ events

theorem Reached.append {stage : Stage} (h : Reached events i stage) (event : Event) :
    Reached (events ++ [event]) i stage := by
  have hmem {e : Event} (he : e ∈ events) : e ∈ events ++ [event] := List.mem_append_left _ he
  cases stage with
  | missed | found => trivial
  | sent => exact hmem h
  | received | stored => exact ⟨hmem h.1, hmem h.2⟩

/-- The entry was left by the call of a number since the cache was last emptied, and the call had
left none before. -/
structure LeftBy (events : List Event) (s : Sharing) (i : Nat) (e : CacheEntry) : Prop where
  /-- The call is done, and its request has the key. -/
  call : ∃ request, s.calls[i]? = some ⟨request, .stored e.response⟩ ∧
    cacheKey? request = some e.key
  /-- The response is worth holding. -/
  cacheable : isCacheable e.response = true
  /-- It was stored since the cache was last emptied. -/
  since : ∃ earlier between, events = earlier ++ .store i e.stored :: between ∧
    .invalidate ∉ between ∧ ∀ now, .store i now ∉ earlier

/-- What holds after any interleaving of steps. -/
structure Traced (capacity : Nat) (lifetime : Option Nat) (events : List Event) (s : Sharing) :
    Prop where
  /-- The cache has one entry for a key, and not too many. -/
  kept : s.cache.Kept
  /-- There is the room that was asked for, and always room for one. -/
  capacity_eq : s.cache.capacity = max capacity 1
  /-- The lifetime is the given one. -/
  lifetime_eq : s.cache.lifetime = lifetime
  /-- Each call is where its events have brought it. -/
  reached : ∀ i call, s.calls[i]? = some call → Reached events i call.stage
  /-- Only calls that are done have stored a response. -/
  stores : ∀ i now, .store i now ∈ events →
    ∃ request response, s.calls[i]? = some ⟨request, .stored response⟩
  /-- Each entry has been left by a call. -/
  entries : ∀ e ∈ s.cache.entries, ∃ i, LeftBy events s i e

/-! ### One step -/

/-- A call that is done stays so. -/
theorem Step.stored {request : Request} {response : Response} (h : Step event s s')
    (hcall : s.calls[i]? = some ⟨request, .stored response⟩) :
    s'.calls[i]? = some ⟨request, .stored response⟩ := by
  have hlt : i < s.calls.length := (List.getElem?_eq_some_iff.1 hcall).1
  have hothers {j : Nat} {request' : Request} {stage : Stage} (stage' : Stage)
      (hother : s.calls[j]? = some ⟨request', stage⟩) (hne : stage ≠ .stored response) :
      (s.advance j request' stage')[i]? = some ⟨request, .stored response⟩ := by
    rw [advance, List.getElem?_set_ne, hcall]
    rintro rfl
    cases hother.symm.trans hcall
    exact hne rfl
  cases h with
  | skip | miss | find => exact (List.getElem?_append_left hlt).trans hcall
  | send hother => exact hothers _ hother (by simp)
  | receive hother => exact hothers _ hother (by simp)
  | store hother => exact hothers _ hother (by simp)
  | invalidate => exact hcall

theorem Step.reached (h : Step event s s')
    (hreached : ∀ i call, s.calls[i]? = some call → Reached events i call.stage) :
    ∀ i call, s'.calls[i]? = some call → Reached (events ++ [event]) i call.stage := by
  intro i call hcall
  have hold (hcall : s.calls[i]? = some call) : Reached (events ++ [event]) i call.stage :=
    (hreached i call hcall).append event
  cases h with
  | skip | miss | find =>
    obtain ⟨-, rfl⟩ | hcall := getElem?_concat_cases hcall
    · trivial
    · exact hold hcall
  | send hmissed =>
    obtain ⟨rfl, rfl⟩ | ⟨-, hcall⟩ := getElem?_set_cases hcall
    · exact List.mem_append_right _ List.mem_cons_self
    · exact hold hcall
  | receive hsent =>
    obtain ⟨rfl, rfl⟩ | ⟨-, hcall⟩ := getElem?_set_cases hcall
    · exact ⟨List.mem_append_left _ (hreached _ _ hsent), by simp⟩
    · exact hold hcall
  | store hreceived =>
    obtain ⟨rfl, rfl⟩ | ⟨-, hcall⟩ := getElem?_set_cases hcall
    · exact (hreached _ _ hreceived).append _
    · exact hold hcall
  | invalidate => exact hold hcall

/-- What a step does to the cache: it stores the response that a call has received, or takes away
entries, and all of them if it empties the cache. -/
theorem Step.cache_cases (h : Step event s s') :
    (∃ i request key response now, event = .store i now ∧
      s.calls[i]? = some ⟨request, .received (.ok response)⟩ ∧ cacheKey? request = some key ∧
      isCacheable response = true ∧ s'.calls[i]? = some ⟨request, .stored response⟩ ∧
      s'.cache = s.cache.store key response now) ∨
    (∀ i now, event ≠ .store i now) ∧ ∃ kept, kept.Sublist s.cache.entries ∧
      (event = .invalidate → kept = []) ∧ s'.cache = { s.cache with entries := kept } := by
  cases h with
  | @store _ i now request key response hcall hkey hcacheable =>
    have hlt : i < s.calls.length := (List.getElem?_eq_some_iff.1 hcall).1
    exact .inl ⟨i, request, key, response, now, rfl, hcall, hkey, hcacheable,
      List.getElem?_set_self hlt, rfl⟩
  | @miss _ request now key cache hkey hlookup =>
    obtain ⟨kept, hkept, hcache⟩ := s.cache.lookup_snd_eq key now
    rw [hlookup] at hcache
    exact .inr ⟨by simp, kept, hkept, by simp, hcache⟩
  | @find _ request now key response cache hkey hlookup =>
    obtain ⟨kept, hkept, hcache⟩ := s.cache.lookup_snd_eq key now
    rw [hlookup] at hcache
    exact .inr ⟨by simp, kept, hkept, by simp, hcache⟩
  | skip | send | receive =>
    exact .inr ⟨by simp, s.cache.entries, List.Sublist.refl _, by simp, rfl⟩
  | invalidate => exact .inr ⟨by simp, [], List.nil_sublist _, fun _ => rfl, rfl⟩

/-- An entry that is still there was left by the same call. -/
theorem LeftBy.step (h : LeftBy events s i e) (hstep : Step event s s')
    (hne : event ≠ .invalidate) :
    LeftBy (events ++ [event]) s' i e := by
  obtain ⟨⟨request, hcall, hkey⟩, hcacheable, earlier, between, hevents, hbetween, hearlier⟩ := h
  refine ⟨⟨request, hstep.stored hcall, hkey⟩, hcacheable, earlier, between ++ [event],
    by simp [hevents], ?_, hearlier⟩
  simpa [hbetween] using hne.symm

theorem traced_new (capacity : Nat) (lifetime : Option Nat) :
    Traced capacity lifetime [] (new capacity lifetime) where
  kept := Cache.kept_new capacity lifetime
  capacity_eq := rfl
  lifetime_eq := rfl
  reached := by simp [new]
  stores := by simp
  entries := List.forall_mem_nil _

/-- The invariant is kept by a step. -/
theorem Traced.step (h : Traced capacity lifetime events s) (hstep : Step event s s') :
    Traced capacity lifetime (events ++ [event]) s' := by
  have hold (i : Nat) (now : Nat) (hmem : .store i now ∈ events) :
      ∃ request response, s'.calls[i]? = some ⟨request, .stored response⟩ := by
    obtain ⟨request, response, hcall⟩ := h.stores i now hmem
    exact ⟨request, response, hstep.stored hcall⟩
  obtain ⟨i, request, key, response, now, rfl, hcall, hkey, hcacheable, hstored, hcache⟩ |
    ⟨hother, kept, hkept, hempty, hcache⟩ := hstep.cache_cases
  · obtain ⟨kept, hkept, hstore⟩ := s.cache.store_eq key response now
    refine ⟨hcache ▸ h.kept.store key response now, ?_, ?_, hstep.reached h.reached,
      fun j n hmem => ?_, ?_⟩
    · rw [hcache, hstore, h.capacity_eq]
    · rw [hcache, hstore, h.lifetime_eq]
    · rcases List.mem_append.1 hmem with hmem | hmem
      · exact hold j n hmem
      · cases List.mem_singleton.1 hmem
        exact ⟨request, response, hstored⟩
    · rw [hcache, hstore]
      refine List.forall_mem_append.2 ⟨fun e he => ?_, List.forall_mem_singleton.2 ?_⟩
      · obtain ⟨j, hleft⟩ := h.entries e (hkept.subset he)
        exact ⟨j, hleft.step hstep (by simp)⟩
      · refine ⟨i, ⟨request, hstored, hkey⟩, hcacheable, events, [], rfl, List.not_mem_nil, ?_⟩
        intro n hmem
        obtain ⟨_, _, hdone⟩ := h.stores i n hmem
        cases hcall.symm.trans hdone
  · refine ⟨hcache ▸ h.kept.sublist hkept, by rw [hcache, h.capacity_eq],
      by rw [hcache, h.lifetime_eq], hstep.reached h.reached, fun j n hmem => ?_, ?_⟩
    · rcases List.mem_append.1 hmem with hmem | hmem
      · exact hold j n hmem
      · exact absurd (List.mem_singleton.1 hmem).symm (hother j n)
    · intro e he
      rw [hcache] at he
      have hne : event ≠ .invalidate := fun heq => by simp [hempty heq] at he
      obtain ⟨j, hleft⟩ := h.entries e (hkept.subset he)
      exact ⟨j, hleft.step hstep hne⟩

/-- The invariant holds after any interleaving. -/
theorem Steps.traced (h : Steps (new capacity lifetime) events s) :
    Traced capacity lifetime events s := by
  induction h with
  | nil => exact traced_new capacity lifetime
  | snoc _ hstep ih => exact ih.step hstep

/-! ## What the cache holds -/

/-- **What the cache holds at any point.**  There are no more entries than there is room for, and
there is room for one at least.  Each entry holds a success that a call has received for a request
of the key.  Storing under a key that is there lets its entry give way and nothing else; under a new
key an entry gives way just if all room is taken, and none has been stored before it. -/
theorem Steps.storing_of_new (h : Steps (new capacity lifetime) events s) :
    s.cache.entries.length ≤ max capacity 1 ∧
      (∀ e ∈ s.cache.entries, (200 ≤ e.response.status ∧ e.response.status < 300) ∧
        ∃ i request, s.calls[i]? = some ⟨request, .stored e.response⟩ ∧
          cacheKey? request = some e.key ∧ .receive i (.ok e.response) ∈ events) ∧
      ∀ key response now, Cache.Storing (max capacity 1) ⟨key, now, response⟩ s.cache.entries
        (s.cache.store key response now).entries := by
  have htraced := h.traced
  rw [← htraced.capacity_eq]
  refine ⟨htraced.kept.fits, fun e he => ?_, htraced.kept.storing_store⟩
  obtain ⟨i, ⟨request, hcall, hkey⟩, hcacheable, -⟩ := htraced.entries e he
  exact ⟨isCacheable_iff.1 hcacheable, i, request, hcall, hkey, (htraced.reached i _ hcall).2⟩

/-- Where a response that is found comes from. -/
structure FoundFrom (lifetime : Option Nat) (events : List Event) (s : Sharing) (request : Request)
    (now : Nat) (response : Response) (i : Nat) : Prop where
  /-- A call with the same key has stored it. -/
  call : ∃ first, s.calls[i]? = some ⟨first, .stored response⟩ ∧ cacheKey? first = cacheKey? request
  /-- It was the answer to its request. -/
  received : .receive i (.ok response) ∈ events
  /-- It is a success. -/
  success : 200 ≤ response.status ∧ response.status < 300
  /-- It was stored, and is not too old. -/
  young : ∃ stored, .store i stored ∈ events ∧ ∀ limit, lifetime = some limit → now < stored + limit
  /-- It was stored after the cache was emptied; if the request had been sent before, it was still
  to be stored. -/
  since : ∀ before behind, events = before ++ .invalidate :: behind →
    (∃ stored, .store i stored ∈ behind) ∧
      (.send i ∈ behind ∨ .send i ∈ before ∧ ∀ stored, .store i stored ∉ before)

/-- Of two ways to part a list at different items, the second item stands behind the first if the
first does not stand behind the second. -/
theorem exists_append_of_notMem {α : Type} {a b : α} {before behind earlier between : List α}
    (h : before ++ a :: behind = earlier ++ b :: between) (hne : a ≠ b) (hnot : a ∉ between) :
    ∃ middle, earlier = before ++ a :: middle ∧ behind = middle ++ b :: between := by
  obtain ⟨middle, hearlier, hmiddle⟩ | ⟨middle, hbefore, hmiddle⟩ := List.append_eq_append_iff.1 h
  · cases middle with
    | nil => exact absurd (List.cons.inj hmiddle).1 hne
    | cons c middle =>
      obtain ⟨rfl, rfl⟩ := List.cons.inj hmiddle
      exact ⟨middle, hearlier, rfl⟩
  · cases middle with
    | nil => exact absurd (List.cons.inj hmiddle).1.symm hne
    | cons c middle =>
      obtain ⟨rfl, rfl⟩ := List.cons.inj hmiddle
      exact absurd (List.mem_append_right _ List.mem_cons_self) hnot

/-- **A response that is found was stored since the cache was last emptied.**  It comes from a call
with the same key.  Wherever the cache was emptied before, the call stored the response later; it
sent its request later too, or it was still under way. -/
theorem Steps.found_since_invalidate (h : Steps (new capacity lifetime) events s)
    {request : Request} {now : Nat} {response : Response} (hlook : Step (.look request now) s s')
    (hfound : s'.calls = s.calls ++ [⟨request, .found response⟩]) :
    ∃ i, FoundFrom lifetime events s request now response i := by
  have htraced := h.traced
  obtain ⟨key, cache, hkey, hlookup⟩ : ∃ key cache, cacheKey? request = some key ∧
      s.cache.lookup key now = (some response, cache) := by
    cases hlook with
    | skip | miss => simp at hfound
    | find hkey hlookup =>
      simp only [List.append_cancel_left_eq, List.cons.injEq, SharingCall.mk.injEq,
        Stage.found.injEq, true_and, and_true] at hfound
      exact ⟨_, _, hkey, hfound ▸ hlookup⟩
  obtain ⟨e, he, rfl, rfl, hyoung, -⟩ := Cache.exists_mem_of_lookup hlookup
  obtain ⟨i, ⟨first, hcall, hfirst⟩, hcacheable, earlier, between, hevents, hbetween, hearlier⟩ :=
    htraced.entries e he
  obtain ⟨hsend, hreceive⟩ := htraced.reached i _ hcall
  refine ⟨i, ⟨first, hcall, hfirst.trans hkey.symm⟩, hreceive,
    isCacheable_iff.1 hcacheable, ⟨e.stored, by simp [hevents], ?_⟩, fun before behind hsplit => ?_⟩
  · rwa [Cache.isExpired_eq_false_iff, htraced.lifetime_eq] at hyoung
  · obtain ⟨middle, rfl, rfl⟩ :=
      exists_append_of_notMem (hsplit.symm.trans hevents) (by simp) hbetween
    refine ⟨⟨e.stored, by simp⟩, ?_⟩
    rw [hsplit] at hsend
    rcases List.mem_append.1 hsend with hsend | hsend
    · exact .inr ⟨hsend, fun n hn => hearlier n (List.mem_append_left _ hn)⟩
    · exact .inl ((List.mem_cons.1 hsend).resolve_left (by simp))

/-! ## A call under way while the cache is emptied -/

/-- A call sends its request, the cache is emptied, and the call stores its response. -/
def underWay (request : Request) (response : Response) : List Event :=
  [.look request 0, .send 0, .invalidate, .receive 0 (.ok response), .store 0 0]

theorem steps_underWay (capacity : Nat) (lifetime : Option Nat) {request : Request}
    {response : Response} {key : String} (hkey : cacheKey? request = some key)
    (hcacheable : isCacheable response = true) :
    Steps (new capacity lifetime) (underWay request response)
      ⟨(Cache.new capacity lifetime).store key response 0, [⟨request, .stored response⟩]⟩ := by
  have hmissed : Steps (new capacity lifetime) [.look request 0] ⟨_, [⟨request, .missed⟩]⟩ :=
    Steps.nil.snoc (.miss hkey rfl)
  have hemptied := (hmissed.snoc (.send (i := 0) rfl)).snoc .invalidate
  exact (hemptied.snoc (.receive (i := 0) rfl)).snoc (.store (i := 0) rfl hkey hcacheable)

/-- The same request is answered with that response. -/
theorem step_look_underWay (capacity : Nat) {request : Request} (response : Response)
    {key : String} (hkey : cacheKey? request = some key) :
    Step (.look request 0)
      ⟨(Cache.new capacity none).store key response 0, [⟨request, .stored response⟩]⟩
      ⟨(Cache.new capacity none).store key response 0,
        [⟨request, .stored response⟩, ⟨request, .found response⟩]⟩ := by
  exact .find hkey ((Cache.kept_new capacity none).lookup_store key response rfl)

/-- A call that asks for a quote is under way. -/
def quoteUnderWay : List Event := underWay (plainRequest .empty) quoteResponse

theorem cacheKey?_plainRequest :
    cacheKey? (plainRequest .empty) = some (localServer.text ++ Headers.empty.lines) :=
  cacheKey?_eq_some_iff.2 ⟨⟨rfl, rfl⟩, rfl⟩

end

/-- With no room asked for there is room for one response, and it is that of the call that was under
way. -/
theorem Steps.storing_of_new_underWay :
    ∃ s, Steps (new 0 none) quoteUnderWay s ∧
      s.cache.entries.length ≤ 1 ∧
      (∀ e ∈ s.cache.entries, (200 ≤ e.response.status ∧ e.response.status < 300) ∧
        ∃ i request, s.calls[i]? = some ⟨request, .stored e.response⟩ ∧
          cacheKey? request = some e.key ∧
          .receive i (.ok e.response) ∈ quoteUnderWay) ∧
      Cache.Storing 1 ⟨"", 1, quoteResponse⟩ s.cache.entries
        (s.cache.store "" quoteResponse 1).entries := by
  have hsteps : Steps (new 0 none) quoteUnderWay _ :=
    steps_underWay 0 none cacheKey?_plainRequest rfl
  obtain ⟨hfits, hentries, hstoring⟩ := hsteps.storing_of_new
  exact ⟨_, hsteps, hfits, hentries, hstoring "" quoteResponse 1⟩

/-- The response that is found was asked for before the cache was emptied and stored afterwards. -/
theorem Steps.found_since_invalidate_underWay :
    ∃ s s' i, Steps (new 1 none) quoteUnderWay s ∧
      Step (.look (plainRequest .empty) 0) s s' ∧
      s'.calls = s.calls ++ [⟨plainRequest .empty, .found quoteResponse⟩] ∧
      FoundFrom none quoteUnderWay s (plainRequest .empty) 0
        quoteResponse i := by
  have hsteps : Steps (new 1 none) quoteUnderWay _ :=
    steps_underWay 1 none cacheKey?_plainRequest rfl
  have hlook := step_look_underWay 1 quoteResponse cacheKey?_plainRequest
  obtain ⟨i, hfrom⟩ := hsteps.found_since_invalidate hlook rfl
  exact ⟨_, _, i, hsteps, hlook, rfl, hfrom⟩

/-- A response that was asked for before the cache was emptied can be found afterwards. -/
theorem not_sent_since_invalidate :
    ¬∀ (capacity : Nat) (lifetime : Option Nat) (events : List Event) (s s' : Sharing)
      (request : Request) (now : Nat) (response : Response),
      Steps (new capacity lifetime) events s → Step (.look request now) s s' →
      s'.calls = s.calls ++ [⟨request, .found response⟩] →
      ∃ i, .receive i (.ok response) ∈ events ∧
        ∀ before behind, events = before ++ .invalidate :: behind → .send i ∈ behind := by
  intro h
  have hsteps : Steps (new 1 none) quoteUnderWay _ :=
    steps_underWay 1 none cacheKey?_plainRequest rfl
  have hlook := step_look_underWay 1 quoteResponse cacheKey?_plainRequest
  obtain ⟨i, -, hsent⟩ := h _ _ _ _ _ _ _ _ hsteps hlook rfl
  have hbehind := hsent [.look (plainRequest .empty) 0, .send 0]
    [.receive 0 (.ok quoteResponse), .store 0 0] rfl
  simp at hbehind

end Sharing

end TypedClient.Client
