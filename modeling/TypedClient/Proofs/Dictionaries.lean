import Mathlib.Data.List.Forall2
import Mathlib.Data.List.Sort
import TypedClient.Dict

/-!
# Looking up in dictionaries of many entries

* `Dict.get?_overlay` looks a key up among entries that have been laid over a dictionary: the last
  entry of the key counts;
* `Dict.get?_ofList` does so for a dictionary made of a list of entries;
* `Dict.get?_filter`, `Dict.find?_eq_get?`, `Dict.get?_map` and `Dict.get?_filterMap` look a key up
  in lists of entries that are made of others;
* `Dict.mem_of_mem_ofList`, `Dict.mem_keys_ofList`, `Dict.nodup_ofList` and `Dict.perm_ofList` say
  what entries and keys such a dictionary has, and `Dict.forall₂_ofList` that entries of the same
  keys make dictionaries of the same keys;
* `Dict.ext_of_get?` says that dictionaries in order are the same if all keys are looked up alike,
  and `Dict.get?_reverse` that it does not matter from which end they are looked up.
-/

set_option autoImplicit false

namespace TypedClient.Dict

universe u

variable {β : Type u}

theorem get?_append (first second : List (String × β)) (key : String) :
    get? (first ++ second) key = (get? first key).or (get? second key) := by
  induction first with
  | nil => rfl
  | cons entry rest ih =>
    rw [List.cons_append, get?_cons, get?_cons, ih]
    split <;> rfl

/-- A key is looked up among the entries on top, the last one first, and then below them. -/
theorem get?_overlay (d top : Dict β) (key : String) :
    get? (overlay d top) key = (get? top.reverse key).or (get? d key) := by
  induction top generalizing d with
  | nil => rfl
  | cons entry rest ih =>
    have hstep : overlay d (entry :: rest) = overlay (insert d entry.1 entry.2) rest := rfl
    rw [hstep, ih, List.reverse_cons, get?_append, Option.or_assoc, get?_cons]
    congr 1
    by_cases hkey : key = entry.1
    · rw [if_pos hkey, hkey, get?_insert_self]
      rfl
    · rw [if_neg hkey, get?_insert_of_ne _ _ hkey]
      rfl

theorem overlay_append (d first second : Dict β) :
    overlay d (first ++ second) = overlay (overlay d first) second :=
  List.foldl_append

/-- The last entry of a key counts. -/
theorem get?_ofList (entries : List (String × β)) (key : String) :
    get? (ofList entries) key = get? entries.reverse key := by
  rw [ofList, get?_overlay, get?_nil, Option.or_none]

/-! ## Lists of entries -/

/-- Entries of other keys do not matter. -/
theorem get?_filter (keep : String → Bool) (d : Dict β) {key : String} (h : keep key = true) :
    get? (d.filter fun entry => keep entry.1) key = get? d key := by
  induction d with
  | nil => rfl
  | cons entry rest ih =>
    rw [List.filter_cons, get?_cons]
    by_cases hkeep : keep entry.1 = true
    · rw [if_pos hkeep, get?_cons, ih]
    · have hne : key ≠ entry.1 := fun heq => hkeep (heq ▸ h)
      rw [if_neg hkeep, if_neg hne, ih]

/-- Looking a key up is finding the first entry that matches it, if none but its own matches. -/
theorem find?_eq_get? (matching : String → Bool) {d : Dict β} {key : String}
    (h : ∀ entry ∈ d, matching entry.1 = true ↔ key = entry.1) :
    (d.find? fun entry => matching entry.1).map Prod.snd = get? d key := by
  induction d with
  | nil => rfl
  | cons entry rest ih =>
    rw [List.find?_cons, get?_cons]
    by_cases heq : key = entry.1
    · rw [(h entry List.mem_cons_self).2 heq, if_pos heq]
      rfl
    · have hmatch : matching entry.1 = false :=
        Bool.eq_false_iff.2 fun hmatch => heq ((h entry List.mem_cons_self).1 hmatch)
      rw [hmatch, if_neg heq]
      exact ih fun other hother => h other (List.mem_cons_of_mem _ hother)

/-- Values are changed one by one. -/
theorem get?_map {γ : Type u} (f : β → γ) (d : Dict β) (key : String) :
    get? (d.map fun entry => (entry.1, f entry.2)) key = (get? d key).map f := by
  induction d with
  | nil => rfl
  | cons entry rest ih =>
    rw [List.map_cons, get?_cons, get?_cons, ih]
    split <;> rfl

theorem get?_filterMap {α : Type u} (f : α → Option (String × β)) (xs : List α) (key : String) :
    get? (xs.filterMap f) key
      = xs.findSome? fun x =>
        (f x).bind fun entry => if key = entry.1 then some entry.2 else none := by
  induction xs with
  | nil => rfl
  | cons x xs ih =>
    rw [List.findSome?_cons]
    cases hx : f x with
    | none =>
      rw [List.filterMap_cons_none hx, ih]
      rfl
    | some entry =>
      rw [List.filterMap_cons_some hx, get?_cons, ih, Option.bind_some]
      split <;> rfl

/-! ## Entries -/

theorem mem_of_mem_insert {d : Dict β} {key : String} {value : β} {entry : String × β}
    (h : entry ∈ insert d key value) : entry = (key, value) ∨ entry ∈ d := by
  induction d with
  | nil => exact .inl (List.mem_singleton.1 h)
  | cons first rest ih =>
    rw [insert] at h
    split at h
    · exact (List.mem_cons.1 h).imp id (List.mem_cons_of_mem _)
    · split at h
      · exact List.mem_cons.1 h
      · rcases List.mem_cons.1 h with rfl | h
        · exact .inr List.mem_cons_self
        · exact (ih h).imp id (List.mem_cons_of_mem _)

theorem mem_of_mem_overlay {d top : Dict β} {entry : String × β} (h : entry ∈ overlay d top) :
    entry ∈ top ∨ entry ∈ d := by
  induction top generalizing d with
  | nil => exact .inr h
  | cons first rest ih =>
    rcases ih h with h | h
    · exact .inl (List.mem_cons_of_mem _ h)
    · rcases mem_of_mem_insert h with rfl | h
      · exact .inl List.mem_cons_self
      · exact .inr h

/-- A dictionary has no entries but those it is made of. -/
theorem mem_of_mem_ofList {entries : List (String × β)} {entry : String × β}
    (h : entry ∈ ofList entries) : entry ∈ entries :=
  (mem_of_mem_overlay h).resolve_right List.not_mem_nil

/-- The keys of a dictionary are those of the entries it is made of. -/
theorem mem_keys_ofList {entries : List (String × β)} {key : String} :
    key ∈ keys (ofList entries) ↔ key ∈ entries.map Prod.fst := by
  constructor
  · intro h
    obtain ⟨entry, hentry, rfl⟩ := List.mem_map.1 h
    exact List.mem_map_of_mem (mem_of_mem_ofList hentry)
  · intro h
    have hcontains : contains entries.reverse key = true := by
      refine contains_of_mem_keys ?_
      rwa [keys, List.map_reverse, List.mem_reverse]
    obtain ⟨value, hvalue⟩ := Option.isSome_iff_exists.1 hcontains
    rw [← get?_ofList] at hvalue
    exact List.mem_map_of_mem (mem_of_get? hvalue)

theorem perm_insert {d : Dict β} {key : String} (h : key ∉ d.map Prod.fst) (value : β) :
    (insert d key value).Perm ((key, value) :: d) := by
  induction d with
  | nil => exact .refl _
  | cons entry rest ih =>
    rw [List.map_cons, List.mem_cons, not_or] at h
    rw [insert, if_neg h.1]
    split
    · exact .refl _
    · exact ((ih h.2).cons entry).trans (.swap ..)

/-- Entries of distinct keys are just put in order. -/
theorem perm_ofList {entries : List (String × β)} (h : (entries.map Prod.fst).Nodup) :
    (ofList entries).Perm entries := by
  suffices hoverlay : ∀ d : Dict β, (∀ key ∈ entries.map Prod.fst, key ∉ d.map Prod.fst) →
      (overlay d entries).Perm (d ++ entries) from hoverlay [] fun _ _ => List.not_mem_nil
  induction entries with
  | nil =>
    intro d _
    rw [List.append_nil]
    exact .refl _
  | cons entry rest ih =>
    intro d hnew
    obtain ⟨hentry, hrest⟩ := List.nodup_cons.1 h
    have hinsert := perm_insert (hnew entry.1 List.mem_cons_self) entry.2
    refine (ih hrest (insert d entry.1 entry.2) fun key hkey hmem => ?_).trans ?_
    · rcases mem_keys_insert hmem with rfl | hmem
      · exact hentry hkey
      · exact hnew key (List.mem_cons_of_mem _ hkey) hmem
    · exact (hinsert.append_right rest).trans List.perm_middle.symm

/-- The keys of a dictionary in order are distinct. -/
theorem Ordered.nodup {d : Dict β} (h : Ordered d) : (d.map Prod.fst).Nodup := by
  refine List.Pairwise.imp (fun {a b} hlt heq => ?_) h
  rw [heq] at hlt
  exact String.lt_irrefl b hlt

theorem nodup_ofList (entries : List (String × β)) : ((ofList entries).map Prod.fst).Nodup :=
  (ordered_ofList entries).nodup

/-- Where keys are distinct, every entry is found. -/
theorem get?_of_mem_of_nodup {d : Dict β} (hd : (d.map Prod.fst).Nodup) {key : String} {value : β}
    (h : (key, value) ∈ d) : get? d key = some value := by
  induction d with
  | nil => cases h
  | cons entry rest ih =>
    obtain ⟨hentry, hrest⟩ := List.nodup_cons.1 hd
    rw [get?_cons]
    rcases List.mem_cons.1 h with rfl | h
    · exact if_pos rfl
    · have hne : key ≠ entry.1 := fun heq => hentry (heq ▸ List.mem_map_of_mem h)
      rw [if_neg hne, ih hrest h]

/-- In order there is one way to write down the entries of a dictionary. -/
theorem ext_of_mem {d e : Dict β} (hd : Ordered d) (he : Ordered e)
    (h : ∀ entry, entry ∈ d ↔ entry ∈ e) : d = e := by
  have : Std.Irrefl fun a b : String × β => a.1 < b.1 := ⟨fun a => String.lt_irrefl a.1⟩
  have : Std.Antisymm fun a b : String × β => a.1 < b.1 :=
    ⟨fun a b hab hba => absurd (String.lt_trans hab hba) (String.lt_irrefl a.1)⟩
  exact (List.pairwise_map.1 hd).eq_of_mem_iff (List.pairwise_map.1 he) h

/-- In order there is one way to write down what a dictionary holds. -/
theorem ext_of_get? {d e : Dict β} (hd : Ordered d) (he : Ordered e)
    (h : ∀ key, get? d key = get? e key) : d = e := by
  have hmem {d e : Dict β} (hd : Ordered d) (h : ∀ key, get? d key = get? e key) :
      ∀ entry ∈ d, entry ∈ e := fun entry hentry =>
    mem_of_get? ((h entry.1).symm.trans (get?_of_mem hd hentry))
  exact ext_of_mem hd he fun entry =>
    ⟨hmem hd h entry, hmem he (fun key => (h key).symm) entry⟩

/-- A dictionary is made of its entries, in whatever order these are. -/
theorem ofList_eq_of_perm {d entries : Dict β} (hd : Ordered d) (h : entries.Perm d) :
    ofList entries = d := by
  have hkeys : (entries.map Prod.fst).Nodup := (h.map Prod.fst).nodup_iff.2 hd.nodup
  exact ext_of_mem (ordered_ofList entries) hd fun _ => ((perm_ofList hkeys).trans h).mem_iff

/-- In order, entries are looked up from the end as from the beginning. -/
theorem get?_reverse {d : Dict β} (h : Ordered d) (key : String) :
    get? d.reverse key = get? d key := by
  induction d with
  | nil => rfl
  | cons entry rest ih =>
    simp only [Ordered, List.map_cons, List.pairwise_cons] at h
    obtain ⟨hfirst, hrest⟩ := h
    rw [List.reverse_cons, get?_append, ih hrest, get?_cons, get?_cons, get?_nil]
    by_cases hkey : key = entry.1
    · have hnone : get? rest key = none := get?_eq_none_of_not_mem_keys fun hmem =>
        String.lt_irrefl key (hkey ▸ hfirst key hmem)
      rw [hnone, Option.none_or, if_pos hkey]
    · rw [if_neg hkey, if_neg hkey, Option.or_none]

/-! ## Entries side by side -/

section

variable {γ : Type u} {R : β → γ → Prop}

/-- The entries have the same key and related values. -/
def Alike (R : β → γ → Prop) (entry : String × β) (other : String × γ) : Prop :=
  entry.1 = other.1 ∧ R entry.2 other.2

theorem forall₂_insert {d : Dict β} {e : Dict γ} (h : List.Forall₂ (Alike R) d e) (key : String)
    {value : β} {other : γ} (hvalue : R value other) :
    List.Forall₂ (Alike R) (insert d key value) (insert e key other) := by
  induction h with
  | nil => exact .cons ⟨rfl, hvalue⟩ .nil
  | cons hentry hrest ih =>
    rw [insert, insert, ← hentry.1]
    split
    · exact .cons ⟨rfl, hvalue⟩ hrest
    · split
      · exact .cons ⟨rfl, hvalue⟩ (.cons hentry hrest)
      · exact .cons hentry ih

/-- Entries that are alike make dictionaries whose entries are. -/
theorem forall₂_ofList {entries : List (String × β)} {others : List (String × γ)}
    (h : List.Forall₂ (Alike R) entries others) :
    List.Forall₂ (Alike R) (ofList entries) (ofList others) := by
  suffices hoverlay : ∀ (d : Dict β) (e : Dict γ), List.Forall₂ (Alike R) d e →
      List.Forall₂ (Alike R) (overlay d entries) (overlay e others) from hoverlay [] [] .nil
  induction h with
  | nil => exact fun _ _ hde => hde
  | @cons entry other entries others hentry _ ih =>
    intro d e hde
    refine ih (insert d entry.1 entry.2) (insert e other.1 other.2) ?_
    rw [← hentry.1]
    exact forall₂_insert hde entry.1 hentry.2

end

end TypedClient.Dict
