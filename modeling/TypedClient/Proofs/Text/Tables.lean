import Mathlib.Data.List.Basic
import TypedClient.Naming.Identifier

/-!
# Facts about the tables of characters

The tables of characters are compact texts.  What a proof needs of them is read off the tables once,
here, by evaluating them.

* `CodePointSet.contains_eq` says that membership in a set is the parity of the number of changes
  up to a code point, and `isAlphanumeric_ascii` and `isUppercase_ascii` what follows for ASCII;
* `upper_of_foreign` says that the upper case of a character outside of ASCII starts with a capital
  letter or outside of ASCII.
-/

set_option autoImplicit false

namespace TypedClient.Text

/-- A literal is the text of its characters, which is how a table is read from it. -/
theorem base36Numbers_literal (cs : List Char) :
    base36Numbers 0 (String.ofList cs).toList = base36Numbers 0 cs := by
  rw [String.toList_ofList]

/-! ## Sets -/

namespace CodePointSet

theorem le_of_mem_runningSums {total : Nat} {ds : List Nat} {n : Nat}
    (h : n ∈ runningSums total ds) : total ≤ n := by
  induction ds generalizing total with
  | nil => cases h
  | cons d ds ih =>
    rw [runningSums] at h
    rcases List.mem_cons.1 h with rfl | h
    · exact Nat.le_add_right total d
    · exact Nat.le_trans (Nat.le_add_right total d) (ih h)

theorem pairwise_runningSums (total : Nat) (ds : List Nat) :
    (runningSums total ds).Pairwise (· ≤ ·) := by
  induction ds generalizing total with
  | nil => exact .nil
  | cons d ds ih =>
    rw [runningSums]
    exact List.pairwise_cons.2 ⟨fun n hn => le_of_mem_runningSums hn, ih _⟩

/-- The changes before a position are at most `x` and those from it on are not. -/
structure Splits (changes : Array Nat) (x position : Nat) : Prop where
  /-- Changes before the position. -/
  before : ∀ i < position, changes.getD i 0 ≤ x
  /-- Changes from the position on. -/
  after : ∀ i, position ≤ i → i < changes.size → x < changes.getD i 0
  /-- The position is one of the array or its end. -/
  le : position ≤ changes.size

variable {changes : Array Nat} {x : Nat}

theorem getD_mono (h : changes.toList.Pairwise (· ≤ ·)) {i j : Nat} (hij : i ≤ j)
    (hj : j < changes.size) : changes.getD i 0 ≤ changes.getD j 0 := by
  rcases Nat.lt_or_eq_of_le hij with hlt | rfl
  · have hi := Nat.lt_trans hlt hj
    simpa [Array.getD, hi, hj] using List.pairwise_iff_getElem.1 h i j hi hj hlt
  · exact Nat.le_refl _

/-- Bisection finds where the changes split. -/
theorem splits_rank (hsorted : changes.toList.Pairwise (· ≤ ·)) (lo hi : Nat) (hle : lo ≤ hi)
    (hsize : hi ≤ changes.size) (hbefore : ∀ i < lo, changes.getD i 0 ≤ x)
    (hafter : ∀ i, hi ≤ i → i < changes.size → x < changes.getD i 0) :
    Splits changes x (rank changes x lo hi) := by
  induction lo, hi using rank.induct changes x with
  | case1 lo hi hlt mid hmid ih =>
    rw [rank, dif_pos hlt, if_pos hmid]
    refine ih (by omega) hsize (fun i hi' => ?_) hafter
    exact Nat.le_trans (getD_mono hsorted (Nat.le_of_lt_succ hi') (by omega)) hmid
  | case2 lo hi hlt mid hmid ih =>
    rw [rank, dif_pos hlt, if_neg hmid]
    refine ih (by omega) (by omega) hbefore fun i hi' hsize' => ?_
    exact Nat.lt_of_lt_of_le (Nat.lt_of_not_le hmid) (getD_mono hsorted hi' hsize')
  | case3 lo hi hlt =>
    rw [rank, dif_neg hlt]
    obtain rfl : lo = hi := by omega
    exact ⟨hbefore, hafter, hsize⟩

theorem Splits.countP {position : Nat} (h : Splits changes x position) :
    changes.toList.countP (· ≤ x) = position := by
  have hlength : (changes.toList.take position).length = position :=
    List.length_take_of_le h.le
  rw [← List.take_append_drop position changes.toList, List.countP_append]
  have hbefore : (changes.toList.take position).countP (· ≤ x) = position := by
    rw [List.countP_eq_length.2, hlength]
    intro n hn
    obtain ⟨i, hi, rfl⟩ := List.getElem_of_mem hn
    have hi' : i < changes.size := by
      rw [List.length_take] at hi
      exact Nat.lt_of_lt_of_le hi (Nat.min_le_right _ _)
    have := h.before i (by omega)
    simpa [Array.getD, hi'] using this
  have hafter : (changes.toList.drop position).countP (· ≤ x) = 0 := by
    rw [List.countP_eq_zero]
    intro n hn
    obtain ⟨i, hi, rfl⟩ := List.getElem_of_mem hn
    rw [List.length_drop, Array.length_toList] at hi
    have hi' : position + i < changes.size := by omega
    have := h.after (position + i) (Nat.le_add_right _ _) hi'
    simpa [Array.getD, hi'] using this
  omega

/-- A character belongs to a set of increasing changes when an odd number of them lies at or below
it. -/
theorem contains_eq (s : CodePointSet) (hsorted : s.changes.toList.Pairwise (· ≤ ·)) (c : Char) :
    s.contains c = (s.changes.toList.countP (· ≤ c.toNat) % 2 == 1) := by
  have h := splits_rank (x := c.toNat) hsorted 0 s.changes.size (Nat.zero_le _) (Nat.le_refl _)
    (fun i hi => absurd hi (Nat.not_lt_zero i)) fun i hi hsize => absurd hsize (Nat.not_lt.2 hi)
  rw [contains, h.countP]

/-- Membership in a set that is read from a literal. -/
theorem contains_literal (cs : List Char) (c : Char) :
    (ofDeltas (String.ofList cs)).contains c
      = ((runningSums 0 (base36Numbers 0 cs)).countP (· ≤ c.toNat) % 2 == 1) := by
  rw [contains_eq _ (pairwise_runningSums 0 _), ofDeltas, base36Numbers_literal]

/-- The changes below 128 tell which ASCII characters belong to a set. -/
theorem contains_ascii {cs : List Char} {changes : List Nat}
    (hchanges : (runningSums 0 (base36Numbers 0 cs)).filter (· < 128) = changes) {c : Char}
    (hc : c.toNat < 128) :
    (ofDeltas (String.ofList cs)).contains c = (changes.countP (· ≤ c.toNat) % 2 == 1) := by
  rw [contains_literal, ← hchanges, List.countP_filter]
  congr 3
  funext n
  grind

end CodePointSet

set_option maxRecDepth 100000 in
theorem isAlphanumeric_ascii {c : Char} (hc : c.toNat < 128) : isAlphanumeric c = c.isAlphanum := by
  have hchanges : isAlphanumeric c = ([48, 58, 65, 91, 97, 123].countP (· ≤ c.toNat) % 2 == 1) := by
    unfold isAlphanumeric alphanumericSet
    exact CodePointSet.contains_ascii (by decide +kernel) hc
  have hparity : ∀ n < 128, ([48, 58, 65, 91, 97, 123].countP (· ≤ n) % 2 == 1)
      = (Char.ofNat n).isAlphanum := by decide +kernel
  rw [hchanges, hparity c.toNat hc, Char.ofNat_toNat]

set_option maxRecDepth 100000 in
theorem isUppercase_ascii {c : Char} (hc : c.toNat < 128) : isUppercase c = c.isUpper := by
  have hchanges : isUppercase c = ([65, 91].countP (· ≤ c.toNat) % 2 == 1) := by
    unfold isUppercase uppercaseSet
    exact CodePointSet.contains_ascii (by decide +kernel) hc
  have hparity : ∀ n < 128, ([65, 91].countP (· ≤ n) % 2 == 1) = (Char.ofNat n).isUpper := by
    decide +kernel
  rw [hchanges, hparity c.toNat hc, Char.ofNat_toNat]

/-- The underscore is no letter. -/
theorem isAlphanumeric_underscore : isAlphanumeric '_' = false := by
  rw [isAlphanumeric_ascii (by decide)]
  decide

/-- The dollar sign is no letter. -/
theorem isAlphanumeric_dollar : isAlphanumeric '$' = false := by
  rw [isAlphanumeric_ascii (by decide)]
  decide

/-! ## Upper case -/

/-- A code point that is that of a capital letter or of no ASCII character, where 0 stands for code
points that are no characters. -/
def IsCapitalOrForeign (n : Nat) : Bool := n == 0 || (65 ≤ n && n < 91) || 128 ≤ n

set_option maxRecDepth 100000 in
theorem upperRuns_images :
    (upperRuns.toList.all fun r =>
      (65 ≤ r.image && r.image + r.count * r.stride ≤ 91) || 128 ≤ r.image) = true := by
  unfold upperRuns
  rw [base36Numbers_literal]
  decide +kernel

set_option maxRecDepth 100000 in
theorem upperExpansions_images :
    (upperExpansions.all fun e => (e.2.head?.map fun c => IsCapitalOrForeign c.toNat) == some true)
      = true := by
  unfold upperExpansions
  rw [base36Numbers_literal]
  decide +kernel

theorem isCapitalOrForeign_ofNat {n : Nat} (h : IsCapitalOrForeign n = true) :
    IsCapitalOrForeign (Char.ofNat n).toNat = true := by
  by_cases hvalid : n.isValidChar
  · have hchar : Char.ofNat n = Char.ofNatAux n hvalid := dif_pos hvalid
    exact hchar ▸ h
  · have hchar : Char.ofNat n = Char.ofNat 0 := dif_neg hvalid
    exact hchar ▸ rfl

variable {runs : Array CaseRun} {expansions : List (Nat × List Char)}

/-- Runs with such images map to such code points. -/
theorem isCapitalOrForeign_of_run
    (hruns : (runs.toList.all fun r =>
      (65 ≤ r.image && r.image + r.count * r.stride ≤ 91) || 128 ≤ r.image) = true)
    {x y : Nat} (h : runs.findSome? (·.map? x) = some y) : IsCapitalOrForeign y = true := by
  obtain ⟨r, hr, hy⟩ := Array.exists_of_findSome?_eq_some h
  have himage := List.all_eq_true.1 hruns r (Array.mem_toList_iff.2 hr)
  rw [CaseRun.map?] at hy
  split at hy
  · rename_i hrun
    cases hy
    simp only [Bool.or_eq_true, Bool.and_eq_true, decide_eq_true_eq] at himage
    simp only [IsCapitalOrForeign, Bool.or_eq_true, Bool.and_eq_true, decide_eq_true_eq]
    omega
  · cases hy

/-- Tables with such images map a character outside of ASCII to such characters. -/
theorem mapCase_eq_cons
    (hruns : (runs.toList.all fun r =>
      (65 ≤ r.image && r.image + r.count * r.stride ≤ 91) || 128 ≤ r.image) = true)
    (hexpansions : (expansions.all fun e =>
      (e.2.head?.map fun c => IsCapitalOrForeign c.toNat) == some true) = true)
    {c : Char} (hc : 128 ≤ c.toNat) :
    ∃ d ds, mapCase runs expansions c = d :: ds ∧ IsCapitalOrForeign d.toNat = true := by
  rw [mapCase]
  cases hlookup : expansions.lookup c.toNat with
  | some cs =>
    obtain ⟨before, after, hlist, -⟩ := List.lookup_eq_some_iff.1 hlookup
    have hmem : (c.toNat, cs) ∈ expansions := by
      rw [hlist]
      exact List.mem_append_right _ List.mem_cons_self
    have hhead := List.all_eq_true.1 hexpansions _ hmem
    cases cs with
    | nil => cases hhead
    | cons d ds => exact ⟨d, ds, rfl, by simpa using hhead⟩
  | none =>
    refine ⟨_, [], rfl, ?_⟩
    cases hrun : runs.findSome? (·.map? c.toNat) with
    | some y => exact isCapitalOrForeign_ofNat (isCapitalOrForeign_of_run hruns hrun)
    | none => simp [IsCapitalOrForeign, hc]

/-- The upper case of a character outside of ASCII starts with a capital letter or outside of
ASCII. -/
theorem upper_of_foreign {c : Char} (hc : 128 ≤ c.toNat) :
    ∃ d ds, upper c = d :: ds ∧ IsCapitalOrForeign d.toNat = true := by
  rw [upper, if_neg (Nat.not_lt.2 hc)]
  exact mapCase_eq_cons upperRuns_images upperExpansions_images hc

end TypedClient.Text
