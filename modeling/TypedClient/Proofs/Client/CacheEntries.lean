import Mathlib.Data.List.Nodup
import TypedClient.Client.Transport
import TypedClient.Proofs.Url.OneLine

/-!
# What a cache holds

A cache tells requests apart by a key: the address and then, each on a line of its own, the headers.
An address is written on one line, so the key ends it and the headers begin where the first line
ends.  The lines of the headers can be read back only if no name has a colon and no value has a line
feed.

* `cacheKey?_eq_some_iff` says which requests have a key, and which it is;
* `text_eq_of_cacheKey?` says that requests of one key have the same address and the same lines of
  headers;
* `Headers.eq_of_lines_eq` says that these lines stand for the headers, if the headers are
  `Headers.Plain`.

A cache has at most one entry for a key, and no more entries than there is room for.

* `Cache.lookup_cases` and `Cache.lookup_snd_eq` say what looking up answers and what it leaves;
* `isCacheable_iff` and `Cache.isExpired_eq_false_iff` say which responses may be held, and for how
  long;
* `Cache.Storing` lists what storing may do to the entries, and `Kept.storing_store` says that it
  does just that, if the cache is `Cache.Kept`: one entry for a key, and not too many of them;
* `Kept.lookup`, `Kept.store` and `Kept.invalidate` say that all that is done to a cache leaves it
  so, and `Kept.lookup_store` that what has been stored is found.
-/

set_option autoImplicit false

namespace TypedClient.Client

open TypedClient.Text

/-- The headers, each on a line of its own. -/
def Headers.lines (h : Headers) : String :=
  String.join (h.entries.map fun (name, value) => "\n" ++ name ++ ":" ++ value)

/-- A request that only reads, and sends nothing along. -/
structure Request.IsPlainRead (r : Request) : Prop where
  /-- It only reads. -/
  method : r.method = .get
  /-- It has no body. -/
  body : r.body = .empty

theorem isEmpty_body_iff {body : Body} : body.isEmpty = true ↔ body = .empty := by
  cases body <;> simp [Body.isEmpty]

theorem cacheKey?_eq_some_iff {r : Request} {key : String} :
    cacheKey? r = some key ↔ r.IsPlainRead ∧ r.url.text ++ r.headers.lines = key := by
  rw [cacheKey?]
  by_cases hread : r.method = .get ∧ r.body.isEmpty = true
  · have hplain : r.IsPlainRead := ⟨hread.1, isEmpty_body_iff.1 hread.2⟩
    rw [if_pos hread, Option.some.injEq]
    exact ⟨fun h => ⟨hplain, h⟩, And.right⟩
  · rw [if_neg hread]
    refine iff_of_false (fun h => nomatch h) fun h => hread ?_
    exact ⟨h.1.method, isEmpty_body_iff.2 h.1.body⟩

/-! ## Up to a separator -/

/-- What stands before the first separator of a text, and what begins with it, can be read off. -/
theorem append_inj_of_notMem {sep : Char} {xs xs' ys ys' : List Char} (hxs : sep ∉ xs)
    (hxs' : sep ∉ xs') (hys : ∀ c ∈ ys.head?, c = sep) (hys' : ∀ c ∈ ys'.head?, c = sep)
    (h : xs ++ ys = xs' ++ ys') : xs = xs' ∧ ys = ys' := by
  have hcut {xs ys : List Char} (hxs : sep ∉ xs) (hys : ∀ c ∈ ys.head?, c = sep) :
      (xs ++ ys).takeWhile (· != sep) = xs := by
    have hbefore : ∀ c ∈ xs, (c != sep) = true :=
      fun c hc => bne_iff_ne.2 (ne_of_mem_of_not_mem hc hxs)
    rw [List.takeWhile_append_of_pos hbefore]
    cases ys with
    | nil => exact List.append_nil xs
    | cons c ys => simp [hys c rfl]
  obtain rfl : xs = xs' := by rw [← hcut hxs hys, h, hcut hxs' hys']
  exact ⟨rfl, List.append_cancel_left h⟩

/-! ## Lines of headers -/

/-- The characters of the lines of headers. -/
def lineChars (entries : Dict String) : List Char :=
  entries.flatMap fun (name, value) => '\n' :: (name.toList ++ ':' :: value.toList)

theorem toList_lines (h : Headers) : h.lines.toList = lineChars h.entries := by
  rw [Headers.lines, String.toList_join, List.flatMap_map, lineChars]
  simp [String.toList_append]

/-- Lines of headers begin with a line feed. -/
theorem eq_newline_of_head?_lineChars (entries : Dict String) :
    ∀ c ∈ (lineChars entries).head?, c = '\n' := by
  cases entries with
  | nil => simp [lineChars]
  | cons entry rest => simp [lineChars]

/-- No name has a colon and no value has a line feed. -/
def Headers.Plain (h : Headers) : Prop :=
  ∀ entry ∈ h.entries, ':' ∉ entry.1.toList ∧ OneLine entry.2

theorem lineChars_inj {entries others : Dict String}
    (hentries : ∀ entry ∈ entries, ':' ∉ entry.1.toList ∧ OneLine entry.2)
    (hothers : ∀ entry ∈ others, ':' ∉ entry.1.toList ∧ OneLine entry.2)
    (h : lineChars entries = lineChars others) : entries = others := by
  induction entries generalizing others with
  | nil =>
    cases others with
    | nil => rfl
    | cons other others => cases h
  | cons entry entries ih =>
    cases others with
    | nil => cases h
    | cons other others =>
      obtain ⟨⟨hname, hvalue⟩, hentries⟩ := List.forall_mem_cons.1 hentries
      obtain ⟨⟨hname', hvalue'⟩, hothers⟩ := List.forall_mem_cons.1 hothers
      simp only [lineChars, List.flatMap_cons, List.cons_append, List.append_assoc] at h
      obtain ⟨-, h⟩ := List.cons.inj h
      -- the name ends with the first colon, and then the value with the first line feed
      obtain ⟨hnames, h⟩ := append_inj_of_notMem hname hname' (by simp) (by simp) h
      obtain ⟨-, h⟩ := List.cons.inj h
      obtain ⟨hvalues, h⟩ := append_inj_of_notMem hvalue hvalue'
        (eq_newline_of_head?_lineChars _) (eq_newline_of_head?_lineChars _) h
      rw [ih hentries hothers h,
        Prod.ext (String.toList_inj.1 hnames) (String.toList_inj.1 hvalues)]

/-- Headers in which no name has a colon and no value a line feed can be read off their lines. -/
theorem Headers.eq_of_lines_eq {h h' : Headers} (hplain : h.Plain) (hplain' : h'.Plain)
    (heq : h.lines = h'.lines) : h = h' := by
  have hchars : lineChars h.entries = lineChars h'.entries := by
    rw [← toList_lines, ← toList_lines, heq]
  cases h
  cases h'
  exact congrArg _ (lineChars_inj hplain hplain' hchars)

/-! ## Keys -/

/-- **Requests of one key have the same address and the same lines of headers.** -/
theorem text_eq_of_cacheKey? {a b : Request} {key : String} (ha : cacheKey? a = some key)
    (hb : cacheKey? b = some key) (hurl : a.url.Made) (hurl' : b.url.Made) :
    a.url.text = b.url.text ∧ a.headers.lines = b.headers.lines := by
  obtain ⟨-, ha⟩ := cacheKey?_eq_some_iff.1 ha
  obtain ⟨-, hb⟩ := cacheKey?_eq_some_iff.1 hb
  have hkey : (a.url.text ++ a.headers.lines).toList = (b.url.text ++ b.headers.lines).toList := by
    rw [ha, hb]
  rw [String.toList_append, String.toList_append, toList_lines, toList_lines] at hkey
  obtain ⟨htext, hlines⟩ := append_inj_of_notMem hurl.oneLine_text hurl'.oneLine_text
    (eq_newline_of_head?_lineChars _) (eq_newline_of_head?_lineChars _) hkey
  rw [← toList_lines, ← toList_lines] at hlines
  exact ⟨String.toList_inj.1 htext, String.toList_inj.1 hlines⟩

end TypedClient.Client

/-! ## Entries -/

namespace TypedClient.Client

/-- Only a success is worth holding. -/
theorem isCacheable_iff {r : Response} :
    isCacheable r = true ↔ 200 ≤ r.status ∧ r.status < 300 := by
  simp [isCacheable]

namespace Cache

variable {c : Cache} {key : String} {now : Nat} {response : Response} {e : CacheEntry}

/-! ## Looking up -/

/-- An entry is not too old if it was stored less than the lifetime ago. -/
theorem isExpired_eq_false_iff :
    c.isExpired now e = false ↔
      ∀ lifetime, c.lifetime = some lifetime → now < e.stored + lifetime := by
  rw [isExpired]
  cases c.lifetime <;> simp

/-- What is found is an entry of the key that is not too old; finding nothing leaves the entries as
they are, or all but that of the key. -/
theorem lookup_cases (c : Cache) (key : String) (now : Nat) :
    (∃ e ∈ c.entries, e.key = key ∧ c.isExpired now e = false ∧
      c.lookup key now = (some e.response, c)) ∨
    c.lookup key now = (none, c) ∨ c.lookup key now = (none, c.drop key) := by
  rw [lookup]
  cases hfind : c.entries.find? (·.key == key) with
  | none => exact .inr (.inl rfl)
  | some e =>
    cases hexpired : c.isExpired now e with
    | true => exact .inr (.inr (by simp [hexpired]))
    | false =>
      have hkey : e.key = key := by simpa using List.find?_some hfind
      exact .inl ⟨e, List.mem_of_find?_eq_some hfind, hkey, hexpired, by simp [hexpired]⟩

/-- Looking up takes away entries at most. -/
theorem lookup_snd_eq (c : Cache) (key : String) (now : Nat) :
    ∃ kept, kept.Sublist c.entries ∧ (c.lookup key now).2 = { c with entries := kept } := by
  obtain ⟨e, -, -, -, h⟩ | h | h := lookup_cases c key now
  · exact ⟨c.entries, List.Sublist.refl _, by rw [h]⟩
  · exact ⟨c.entries, List.Sublist.refl _, by rw [h]⟩
  · exact ⟨_, List.filter_sublist, by rw [h]; rfl⟩

/-- What is found is held, and not too old. -/
theorem exists_mem_of_lookup {after : Cache} (h : c.lookup key now = (some response, after)) :
    ∃ e ∈ c.entries, e.key = key ∧ e.response = response ∧ c.isExpired now e = false ∧
      after = c := by
  obtain ⟨e, he, hkey, hexpired, hfound⟩ | hnone | hnone := lookup_cases c key now
  · cases h.symm.trans hfound
    exact ⟨e, he, hkey, rfl, hexpired, rfl⟩
  · cases h.symm.trans hnone
  · cases h.symm.trans hnone

/-! ## Storing -/

theorem makeRoom_eq (c : Cache) :
    ∃ kept, kept.Sublist c.entries ∧ c.makeRoom = { c with entries := kept } := by
  rw [makeRoom]
  split
  · exact ⟨c.entries, List.Sublist.refl _, rfl⟩
  · split
    · exact ⟨_, List.filter_sublist, rfl⟩
    · exact ⟨c.entries, List.Sublist.refl _, rfl⟩

/-- Storing takes away entries at most, and adds one. -/
theorem store_eq (c : Cache) (key : String) (response : Response) (now : Nat) :
    ∃ kept, kept.Sublist c.entries ∧
      c.store key response now = { c with entries := kept ++ [⟨key, now, response⟩] } := by
  rw [store]
  split
  · exact ⟨_, List.filter_sublist, rfl⟩
  · obtain ⟨kept, hkept, hroom⟩ := makeRoom_eq c
    exact ⟨kept, hkept, by rw [hroom]⟩

/-- What storing does to the entries of a cache with room for a number of them. -/
inductive Storing (capacity : Nat) (new : CacheEntry) : List CacheEntry → List CacheEntry → Prop
  /-- The entry of the same key gives way, and nothing else. -/
  | replaces {old : CacheEntry} {before behind : List CacheEntry} (hkey : old.key = new.key) :
    Storing capacity new (before ++ old :: behind) (before ++ behind ++ [new])
  /-- The key is new and there is room left: nothing gives way. -/
  | adds {entries : List CacheEntry} (hnew : ∀ e ∈ entries, e.key ≠ new.key)
    (hroom : entries.length < capacity) : Storing capacity new entries (entries ++ [new])
  /-- The key is new and all room is taken: one entry gives way, and none has been stored before it.
  -/
  | evicts {oldest : CacheEntry} {before behind : List CacheEntry}
    (hnew : ∀ e ∈ before ++ oldest :: behind, e.key ≠ new.key)
    (hfull : (before ++ oldest :: behind).length = capacity)
    (holdest : ∀ e ∈ before ++ oldest :: behind, oldest.stored ≤ e.stored) :
    Storing capacity new (before ++ oldest :: behind) (before ++ behind ++ [new])

/-- A fold that turns to an earlier entry wherever there is one ends with one that is as early as
any. -/
theorem foldl_oldest (entries : List CacheEntry) (best : CacheEntry) :
    ∃ oldest ∈ best :: entries,
      entries.foldl (fun best e =>
        match best with
        | none => some e
        | some b => if e.stored < b.stored then some e else some b) (some best) = some oldest ∧
      ∀ e ∈ best :: entries, oldest.stored ≤ e.stored := by
  induction entries generalizing best with
  | nil => exact ⟨best, List.mem_cons_self, rfl, by simp⟩
  | cons e entries ih =>
    rw [List.foldl_cons]
    dsimp only
    split
    · rename_i hlt
      obtain ⟨oldest, hmem, hfold, hle⟩ := ih e
      have hbest : oldest.stored ≤ best.stored :=
        Nat.le_trans (hle e List.mem_cons_self) (Nat.le_of_lt hlt)
      exact ⟨oldest, List.mem_cons_of_mem _ hmem, hfold, List.forall_mem_cons.2 ⟨hbest, hle⟩⟩
    · rename_i hge
      obtain ⟨oldest, hmem, hfold, hle⟩ := ih best
      obtain ⟨hbest, hrest⟩ := List.forall_mem_cons.1 hle
      have he : oldest.stored ≤ e.stored := Nat.le_trans hbest (Nat.le_of_not_lt hge)
      refine ⟨oldest, ?_, hfold, List.forall_mem_cons.2 ⟨hbest, List.forall_mem_cons.2 ⟨he, hrest⟩⟩⟩
      exact (List.mem_cons.1 hmem).elim (fun h => h ▸ List.mem_cons_self) fun h =>
        List.mem_cons_of_mem _ (List.mem_cons_of_mem _ h)

/-- A cache that holds something has an oldest entry. -/
theorem exists_oldest (h : c.entries ≠ []) :
    ∃ oldest ∈ c.entries, c.oldest? = some oldest ∧ ∀ e ∈ c.entries, oldest.stored ≤ e.stored := by
  cases hentries : c.entries with
  | nil => exact absurd hentries h
  | cons first rest =>
    rw [oldest?, hentries]
    exact foldl_oldest rest first

/-- One entry at most for a key, and no more entries than there is room for; there is room for one.
-/
structure Kept (c : Cache) : Prop where
  /-- There is room for one entry. -/
  room : 1 ≤ c.capacity
  /-- The entries fit in. -/
  fits : c.entries.length ≤ c.capacity
  /-- No two entries have the same key. -/
  distinct : (c.entries.map CacheEntry.key).Nodup

/-- Among entries of distinct keys, the others have other keys. -/
theorem key_ne_of_distinct {before behind : List CacheEntry}
    (h : ((before ++ e :: behind).map CacheEntry.key).Nodup) :
    (∀ other ∈ before ++ behind, other.key ≠ e.key) ∧
      ((before ++ behind).map CacheEntry.key).Nodup := by
  rw [List.map_append, List.map_cons, List.nodup_middle, List.nodup_cons, ← List.map_append] at h
  exact ⟨fun other hother heq => h.1 (heq ▸ List.mem_map_of_mem hother), h.2⟩

/-- Only the entry of the key is dropped. -/
theorem Kept.entries_drop {before behind : List CacheEntry} (h : c.Kept)
    (hsplit : c.entries = before ++ e :: behind) : (c.drop e.key).entries = before ++ behind := by
  obtain ⟨hothers, -⟩ := key_ne_of_distinct (hsplit ▸ h.distinct)
  have hkeeps : (before ++ behind).filter (·.key != e.key) = before ++ behind :=
    List.filter_eq_self.2 fun other hother => bne_iff_ne.2 (hothers other hother)
  rw [drop, hsplit]
  simpa using hkeeps

/-- **What storing does.** -/
theorem Kept.storing_store (h : c.Kept) (key : String) (response : Response) (now : Nat) :
    Storing c.capacity ⟨key, now, response⟩ c.entries (c.store key response now).entries := by
  rw [store]
  dsimp only
  by_cases hheld : ∃ e ∈ c.entries, e.key = key
  · obtain ⟨old, hold, rfl⟩ := hheld
    obtain ⟨before, behind, hsplit⟩ := List.append_of_mem hold
    rw [if_pos (by simpa using ⟨old, hold, rfl⟩), h.entries_drop hsplit, hsplit]
    exact .replaces rfl
  · have hnew : ∀ e ∈ c.entries, e.key ≠ key := fun e he hkey => hheld ⟨e, he, hkey⟩
    rw [if_neg (by simpa using hnew), makeRoom]
    by_cases hroom : c.entries.length < c.capacity
    · rw [if_pos hroom]
      exact .adds hnew hroom
    · have hfull : c.entries.length = c.capacity := Nat.le_antisymm h.fits (Nat.le_of_not_lt hroom)
      have hnonempty : c.entries ≠ [] := List.ne_nil_of_length_pos (by have := h.room; omega)
      obtain ⟨oldest, hmem, holdest, hle⟩ := exists_oldest hnonempty
      obtain ⟨before, behind, hsplit⟩ := List.append_of_mem hmem
      rw [if_neg hroom, holdest]
      dsimp only
      rw [h.entries_drop hsplit, hsplit]
      exact .evicts (hsplit ▸ hnew) (hsplit ▸ hfull) (hsplit ▸ hle)

section

variable {capacity : Nat} {new : CacheEntry} {entries entries' : List CacheEntry}

theorem Storing.length_le (h : Storing capacity new entries entries')
    (hfits : entries.length ≤ capacity) : entries'.length ≤ capacity := by
  cases h <;> simp only [List.length_append, List.length_cons, List.length_nil] at * <;> omega

theorem distinct_append_singleton (hnew : ∀ e ∈ entries, e.key ≠ new.key)
    (h : (entries.map CacheEntry.key).Nodup) : ((entries ++ [new]).map CacheEntry.key).Nodup := by
  rw [List.map_append, List.map_singleton, List.nodup_append]
  refine ⟨h, List.nodup_singleton _, ?_⟩
  simpa using hnew

theorem Storing.distinct (h : Storing capacity new entries entries')
    (hdistinct : (entries.map CacheEntry.key).Nodup) : (entries'.map CacheEntry.key).Nodup := by
  cases h with
  | replaces hkey =>
    obtain ⟨hothers, hrest⟩ := key_ne_of_distinct hdistinct
    exact distinct_append_singleton (hkey ▸ hothers) hrest
  | adds hnew => exact distinct_append_singleton hnew hdistinct
  | evicts hnew =>
    refine distinct_append_singleton (fun e he => hnew e ?_) (key_ne_of_distinct hdistinct).2
    exact ((List.sublist_cons_self _ _).append_left _).subset he

end

/-! ## A cache that is kept -/

theorem kept_new (capacity : Nat) (lifetime : Option Nat) : (Cache.new capacity lifetime).Kept :=
  ⟨Nat.le_max_right _ _, Nat.zero_le _, .nil⟩

/-- A cache stays as it should be when entries are taken away. -/
theorem Kept.sublist (h : c.Kept) {kept : List CacheEntry} (hkept : kept.Sublist c.entries) :
    Kept { c with entries := kept } :=
  ⟨h.room, Nat.le_trans hkept.length_le h.fits, (hkept.map _).nodup h.distinct⟩

theorem Kept.invalidate (h : c.Kept) : c.invalidate.Kept := h.sublist (List.nil_sublist _)

theorem Kept.lookup (h : c.Kept) (key : String) (now : Nat) : (c.lookup key now).2.Kept := by
  obtain ⟨kept, hkept, heq⟩ := lookup_snd_eq c key now
  exact heq ▸ h.sublist hkept

theorem Kept.store (h : c.Kept) (key : String) (response : Response) (now : Nat) :
    (c.store key response now).Kept := by
  obtain ⟨kept, -, heq⟩ := store_eq c key response now
  have hcapacity : (c.store key response now).capacity = c.capacity := by rw [heq]
  have hstoring := h.storing_store key response now
  exact ⟨hcapacity ▸ h.room, hcapacity ▸ hstoring.length_le h.fits, hstoring.distinct h.distinct⟩

/-- An entry that is not too old is found. -/
theorem Kept.lookup_of_mem (h : c.Kept) (he : e ∈ c.entries) (hyoung : c.isExpired now e = false) :
    c.lookup e.key now = (some e.response, c) := by
  rw [Cache.lookup]
  cases hfind : c.entries.find? (·.key == e.key) with
  | none => exact absurd (List.find?_eq_none.1 hfind e he) (by simp)
  | some other =>
    have hkey : other.key = e.key := by simpa using List.find?_some hfind
    obtain rfl := List.inj_on_of_nodup_map h.distinct (List.mem_of_find?_eq_some hfind) he hkey
    dsimp only
    rw [hyoung]
    rfl

/-- What has been stored is found as long as it is not too old. -/
theorem Kept.lookup_store (h : c.Kept) (key : String) (response : Response) {stored : Nat}
    (hyoung : c.isExpired now ⟨key, stored, response⟩ = false) :
    (c.store key response stored).lookup key now
      = (some response, c.store key response stored) := by
  obtain ⟨kept, -, hstore⟩ := store_eq c key response stored
  refine (h.store key response stored).lookup_of_mem (e := ⟨key, stored, response⟩) ?_ ?_
  · rw [hstore]
    exact List.mem_append_right _ List.mem_cons_self
  · rw [hstore]
    exact hyoung

end Cache

end TypedClient.Client
