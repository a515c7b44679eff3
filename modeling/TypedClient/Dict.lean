/-!
# Dictionaries

A dictionary is a list of pairs in increasing order of their keys.  The order is that of code
points, which for texts is also the order of their UTF-8 bytes, and everything that walks a
dictionary walks it in this order: members of objects, paths, component schemas, headers.

* `Dict.insert`, `Dict.erase`, `Dict.ofList` build dictionaries; a later entry replaces an earlier
  one of the same key;
* `Dict.get?` looks a key up;
* `Dict.Ordered` says that the keys increase strictly; `ordered_insert`, `ordered_erase` and
  `ordered_ofList` say that the operations keep it.
-/

set_option autoImplicit false

namespace TypedClient

universe u

/-- A list of pairs in increasing order of keys. -/
abbrev Dict (β : Type u) := List (String × β)

namespace Dict

variable {β : Type u}

/-- The keys increase strictly, so each occurs once. -/
def Ordered (d : Dict β) : Prop := (d.map Prod.fst).Pairwise (· < ·)

/-- The value of a key. -/
def get? (d : Dict β) (key : String) : Option β := List.lookup key d

/-- Whether the key has a value. -/
def contains (d : Dict β) (key : String) : Bool := (get? d key).isSome

/-- The keys, in order. -/
def keys (d : Dict β) : List String := d.map Prod.fst

/-- The dictionary with the value of `key` set. -/
def insert (d : Dict β) (key : String) (value : β) : Dict β :=
  match d with
  | [] => [(key, value)]
  | entry :: rest =>
    if key = entry.1 then (key, value) :: rest
    else if key < entry.1 then (key, value) :: entry :: rest
    else entry :: insert rest key value

/-- The dictionary without `key`. -/
def erase (d : Dict β) (key : String) : Dict β := d.filter fun entry => entry.1 != key

/-- The entries of `d` with those of `top` laid over them. -/
def overlay (d top : Dict β) : Dict β := top.foldl (fun d entry => insert d entry.1 entry.2) d

/-- The dictionary of a list of entries; the last entry of a key wins. -/
def ofList (entries : List (String × β)) : Dict β := overlay [] entries

/-! ## Looking up after a change -/

@[simp] theorem get?_nil (key : String) : get? ([] : Dict β) key = none := rfl

theorem get?_cons (entry : String × β) (rest : Dict β) (key : String) :
    get? (entry :: rest) key = if key = entry.1 then some entry.2 else get? rest key := by
  obtain ⟨k, v⟩ := entry
  by_cases h : key = k
  · simp [get?, h]
  · have hb : (key == k) = false := by simpa using h
    simp [get?, List.lookup_cons, h, hb]

@[simp] theorem get?_insert_self (d : Dict β) (key : String) (value : β) :
    get? (insert d key value) key = some value := by
  induction d with
  | nil => simp [insert, get?_cons]
  | cons entry rest ih =>
    rw [insert]
    split
    · simp [get?_cons]
    · split
      · simp [get?_cons]
      · rename_i hne _
        simp [get?_cons, hne, ih]

theorem get?_insert_of_ne (d : Dict β) {key other : String} (value : β) (h : other ≠ key) :
    get? (insert d key value) other = get? d other := by
  induction d with
  | nil => simp [insert, get?_cons, h]
  | cons entry rest ih =>
    rw [insert]
    split
    · rename_i he
      simp [get?_cons, h, he ▸ h]
    · split
      · simp [get?_cons, h]
      · simp [get?_cons, ih]

/-- Behind an insertion a key has the value that was inserted, or the one it had. -/
theorem get?_insert_eq_some_iff {d : Dict β} {key other : String} {value found : β} :
    get? (insert d key value) other = some found ↔
      (other = key ∧ value = found) ∨ (other ≠ key ∧ get? d other = some found) := by
  by_cases hother : other = key
  · simp [hother]
  · simp [hother, get?_insert_of_ne]

/-! ## Order -/

theorem mem_keys_insert {d : Dict β} {key : String} {value : β} {k : String}
    (h : k ∈ (insert d key value).map Prod.fst) : k = key ∨ k ∈ d.map Prod.fst := by
  induction d with
  | nil => simpa [insert] using h
  | cons entry rest ih =>
    rw [insert] at h
    split at h
    · simp only [List.map_cons, List.mem_cons] at h ⊢
      exact h.imp id .inr
    · split at h
      · simpa using h
      · simp only [List.map_cons, List.mem_cons] at h ⊢
        rcases h with h | h
        · exact .inr (.inl h)
        · exact (ih h).imp id .inr

/-- Insertion keeps the order. -/
theorem ordered_insert {d : Dict β} (h : Ordered d) (key : String) (value : β) :
    Ordered (insert d key value) := by
  induction d with
  | nil => simp [insert, Ordered]
  | cons entry rest ih =>
    simp only [Ordered, List.map_cons, List.pairwise_cons] at h
    obtain ⟨hhead, hrest⟩ := h
    rw [insert]
    split
    · rename_i he
      subst he
      exact List.pairwise_cons.2 ⟨hhead, hrest⟩
    · rename_i hne
      split
      · rename_i hlt
        refine List.pairwise_cons.2 ⟨fun k hk => ?_, List.pairwise_cons.2 ⟨hhead, hrest⟩⟩
        rcases List.mem_cons.1 hk with rfl | hk
        · exact hlt
        · exact String.lt_trans hlt (hhead k hk)
      · rename_i hnlt
        refine List.pairwise_cons.2 ⟨fun k hk => ?_, ih hrest⟩
        rcases mem_keys_insert hk with rfl | hk
        · exact Std.lt_of_le_of_ne (String.not_lt.1 hnlt) (Ne.symm hne)
        · exact hhead k hk

/-- Erasure keeps the order. -/
theorem ordered_erase {d : Dict β} (h : Ordered d) (key : String) : Ordered (erase d key) :=
  List.Pairwise.sublist (List.Sublist.map _ List.filter_sublist) h

theorem ordered_overlay {d : Dict β} (h : Ordered d) (top : Dict β) :
    Ordered (overlay d top) := by
  induction top generalizing d with
  | nil => exact h
  | cons entry rest ih => exact ih (ordered_insert h entry.1 entry.2)

/-- A dictionary made from any list of entries is in order. -/
theorem ordered_ofList (entries : List (String × β)) : Ordered (ofList entries) :=
  ordered_overlay (d := []) (List.Pairwise.nil) entries

/-! ## Entries -/

theorem mem_of_get? {d : Dict β} {key : String} {value : β} (h : get? d key = some value) :
    (key, value) ∈ d := by
  induction d with
  | nil => cases h
  | cons entry rest ih =>
    rw [get?_cons] at h
    split at h
    · rename_i hkey
      cases h
      rw [hkey]
      exact List.mem_cons_self
    · exact List.mem_cons_of_mem _ (ih h)

theorem contains_of_mem_keys {d : Dict β} {key : String} (h : key ∈ keys d) :
    contains d key = true := by
  induction d with
  | nil => cases h
  | cons entry rest ih =>
    rw [contains, get?_cons]
    split
    · rfl
    · rename_i hne
      exact ih ((List.mem_cons.1 h).resolve_left hne)

theorem get?_eq_none_of_not_mem_keys {d : Dict β} {key : String} (h : key ∉ keys d) :
    get? d key = none := by
  cases hget : get? d key with
  | none => rfl
  | some value => exact absurd (List.mem_map_of_mem (mem_of_get? hget)) h

/-- In a dictionary in order every entry is found. -/
theorem get?_of_mem {d : Dict β} (hordered : Ordered d) {key : String} {value : β}
    (h : (key, value) ∈ d) : get? d key = some value := by
  induction d with
  | nil => cases h
  | cons entry rest ih =>
    simp only [Ordered, List.map_cons, List.pairwise_cons] at hordered
    rw [get?_cons]
    rcases List.mem_cons.1 h with rfl | h
    · rw [if_pos rfl]
    · have hlt := hordered.1 key (List.mem_map_of_mem h)
      rw [if_neg fun heq => String.lt_irrefl key (by rwa [← heq] at hlt), ih hordered.2 h]

end Dict

end TypedClient
