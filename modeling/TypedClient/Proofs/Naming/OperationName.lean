import Mathlib.Data.List.Find
import Mathlib.Data.List.Forall2
import Mathlib.Data.List.Nodup
import Mathlib.Data.List.Perm.Basic
import Mathlib.Data.List.Sort
import Mathlib.Order.Lattice
import TypedClient.Naming.OperationName
import TypedClient.Proofs.Dictionaries
import TypedClient.Proofs.Text.Tables

/-!
# What the names of operations are

* `Candidate.NamedBy` says which names an operation can get: the one its schema gives, or the
  derived one with at most the suffix of one segment of its own path;
* `Candidate.Settled` says which of these it gets among others, by the first segment in which paths
  differ, and `settled_iff` that it does;
* `mem_sharedNames` and `sharedNames_eq_nil` say which names are reported as shared;
* `finalName_of_perm` says that the name of an operation depends on which others there are, not on
  their order;
* `resolveNames_distinct_or_shared` joins them: names are distinct or the shared ones are reported,
  and rearranged candidates get the same names rearranged.
-/

set_option autoImplicit false

namespace TypedClient.Naming

open TypedClient.Api TypedClient.Text

/-! ## The names of one operation -/

/-- The name is the explicit identifier of the candidate or, without one, the derived name followed
by nothing or by what one segment of the candidate's own path adds. -/
def Candidate.NamedBy (c : Candidate) (name : String) : Prop :=
  match c.explicit with
  | some id => name = id
  | none =>
    name = derivedName c.method c.path ∨
      ∃ segment ∈ pathSegments c.path, name = derivedName c.method c.path ++ suffix segment

/-! ## The name among others -/

/-- Of the candidates that start with a name, two have paths that differ in a segment, and before it
all of them agree.  A path that has ended differs from one that has not. -/
structure FirstDiffersAt (candidates : List Candidate) (name : String) (i : Nat) : Prop where
  /-- Two paths differ here. -/
  differ : ∃ c ∈ candidates, ∃ d ∈ candidates, c.firstName = name ∧ d.firstName = name ∧
    (pathSegments c.path)[i]? ≠ (pathSegments d.path)[i]?
  /-- Before, none do. -/
  agree : ∀ j < i, ∀ c ∈ candidates, ∀ d ∈ candidates, c.firstName = name → d.firstName = name →
    (pathSegments c.path)[j]? = (pathSegments d.path)[j]?

/-- The name that a candidate gets among others. -/
inductive Candidate.Settled (candidates : List Candidate) (c : Candidate) : String → Prop
  /-- An explicit identifier stays. -/
  | explicit {id : String} (h : c.explicit = some id) : Settled candidates c id
  /-- A derived name that others share is followed by what the segment adds in which the paths first
  differ. -/
  | suffixed (h : c.explicit = none) {i : Nat} {segment : String}
    (hdiffers : FirstDiffersAt candidates (derivedName c.method c.path) i)
    (hsegment : (pathSegments c.path)[i]? = some segment) :
    Settled candidates c (derivedName c.method c.path ++ suffix segment)
  /-- A derived name stays if no paths differ, or its own has ended where they do. -/
  | plain (h : c.explicit = none)
    (hends : ∀ i, FirstDiffersAt candidates (derivedName c.method c.path) i →
      (pathSegments c.path)[i]? = none) :
    Settled candidates c (derivedName c.method c.path)

/-- The name that a candidate gets is one of its own. -/
theorem Candidate.Settled.namedBy {candidates : List Candidate} {c : Candidate} {name : String}
    (h : c.Settled candidates name) : c.NamedBy name := by
  rw [Candidate.NamedBy]
  cases h with
  | explicit h => rw [h]
  | suffixed h _ hsegment =>
    rw [h]
    exact .inr ⟨_, List.mem_of_getElem? hsegment, rfl⟩
  | plain h =>
    rw [h]
    exact .inl rfl

/-- Some path differs from the first at a place exactly if two paths differ there. -/
theorem any_differs_iff {paths : List (List String)} {i : Nat} :
    (paths.any fun path => path[i]? != paths.head?.bind (·[i]?)) = true ↔
      ∃ path ∈ paths, ∃ other ∈ paths, path[i]? ≠ other[i]? := by
  cases paths with
  | nil => simp
  | cons first rest =>
    simp only [List.any_eq_true, bne_iff_ne, List.head?_cons, Option.bind_some]
    constructor
    · rintro ⟨path, hpath, hne⟩
      exact ⟨path, hpath, first, List.mem_cons_self, hne⟩
    · rintro ⟨path, hpath, other, hother, hne⟩
      -- of two paths that differ, one differs from the first
      by_cases hfirst : path[i]? = first[i]?
      · exact ⟨other, hother, fun heq => hne (hfirst.trans heq.symm)⟩
      · exact ⟨path, hpath, hfirst⟩

theorem le_foldl_max {ns : List Nat} {n : Nat} (h : n ∈ ns) : n ≤ ns.foldl max 0 := by
  cases hmax : ns.max? with
  | none =>
    rw [List.max?_eq_none_iff.1 hmax] at h
    cases h
  | some longest =>
    rw [List.foldl_max, hmax, Option.getD_some, Nat.zero_max]
    exact (List.max?_eq_some_iff.1 hmax).2 n h

/-- The first difference is looked for as far as the longest path goes, and behind it there is
none. -/
theorem firstDifference?_eq_some_iff {paths : List (List String)} {i : Nat} :
    firstDifference? paths = some i ↔
      (∃ path ∈ paths, ∃ other ∈ paths, path[i]? ≠ other[i]?) ∧
        ∀ j < i, ∀ path ∈ paths, ∀ other ∈ paths, path[j]? = other[j]? := by
  have hends {path : List String} (hpath : path ∈ paths)
      (h : (paths.map List.length).foldl max 0 ≤ i) : path[i]? = none :=
    List.getElem?_eq_none_iff.2 ((le_foldl_max (List.mem_map_of_mem hpath)).trans h)
  have hagrees (j : Nat) : (!paths.any fun path => path[j]? != paths.head?.bind (·[j]?)) = true ↔
      ∀ path ∈ paths, ∀ other ∈ paths, path[j]? = other[j]? := by
    rw [Bool.not_eq_true', ← Bool.not_eq_true, any_differs_iff]
    push Not
    rfl
  rw [firstDifference?, List.find?_range_eq_some, any_differs_iff, List.mem_range]
  simp only [hagrees]
  refine ⟨fun ⟨hdiffer, _, hagree⟩ => ⟨hdiffer, hagree⟩, fun ⟨hdiffer, hagree⟩ => ?_⟩
  refine ⟨hdiffer, Nat.lt_of_not_le fun hlong => ?_, hagree⟩
  obtain ⟨path, hpath, other, hother, hne⟩ := hdiffer
  exact hne ((hends hpath hlong).trans (hends hother hlong).symm)

theorem mem_rivalPaths {candidates : List Candidate} {name : String} {path : List String} :
    path ∈ rivalPaths candidates name ↔
      ∃ c ∈ candidates, c.firstName = name ∧ pathSegments c.path = path := by
  simp [rivalPaths, and_assoc]

/-- The search goes through the paths of the candidates that start with the name. -/
theorem firstDiffersAt_iff {candidates : List Candidate} {name : String} {i : Nat} :
    FirstDiffersAt candidates name i ↔
      firstDifference? (rivalPaths candidates name) = some i := by
  rw [firstDifference?_eq_some_iff]
  constructor
  · rintro ⟨⟨c, hc, d, hd, hcname, hdname, hne⟩, hagree⟩
    refine ⟨⟨_, mem_rivalPaths.2 ⟨c, hc, hcname, rfl⟩, _,
      mem_rivalPaths.2 ⟨d, hd, hdname, rfl⟩, hne⟩, fun j hj path hpath other hother => ?_⟩
    obtain ⟨c, hc, hcname, rfl⟩ := mem_rivalPaths.1 hpath
    obtain ⟨d, hd, hdname, rfl⟩ := mem_rivalPaths.1 hother
    exact hagree j hj c hc d hd hcname hdname
  · rintro ⟨⟨path, hpath, other, hother, hne⟩, hagree⟩
    obtain ⟨c, hc, hcname, rfl⟩ := mem_rivalPaths.1 hpath
    obtain ⟨d, hd, hdname, rfl⟩ := mem_rivalPaths.1 hother
    refine ⟨⟨c, hc, d, hd, hcname, hdname, hne⟩, fun j hj c hc d hd hcname hdname => ?_⟩
    exact hagree j hj _ (mem_rivalPaths.2 ⟨c, hc, hcname, rfl⟩) _
      (mem_rivalPaths.2 ⟨d, hd, hdname, rfl⟩)

/-- Where there are no two paths, none differ. -/
theorem firstDifference?_of_length_le {paths : List (List String)} (h : paths.length ≤ 1) :
    firstDifference? paths = none := by
  refine Option.eq_none_iff_forall_ne_some.2 fun i hi => ?_
  obtain ⟨⟨path, hpath, other, hother, hne⟩, -⟩ := firstDifference?_eq_some_iff.1 hi
  match paths, h with
  | [only], _ => rw [List.mem_singleton.1 hpath, List.mem_singleton.1 hother] at hne; exact hne rfl

/-- Of a derived name the last part is what the first difference of paths adds. -/
theorem finalName_of_explicit_eq_none {candidates : List Candidate} {c : Candidate}
    (h : c.explicit = none) : finalName candidates c =
      match firstDifference? (rivalPaths candidates (derivedName c.method c.path)) with
      | none => derivedName c.method c.path
      | some i =>
        match (pathSegments c.path)[i]? with
        | some segment => derivedName c.method c.path ++ suffix segment
        | none => derivedName c.method c.path := by
  have hname : c.firstName = derivedName c.method c.path := by
    rw [Candidate.firstName, h]
    rfl
  rw [finalName, h]
  simp only [hname]
  by_cases hfew : (rivalPaths candidates (derivedName c.method c.path)).length ≤ 1
  · rw [if_pos hfew, firstDifference?_of_length_le hfew]
  · exact if_neg hfew

/-- **The name of a candidate is the one it settles on.** -/
theorem settled_iff {candidates : List Candidate} {c : Candidate} {name : String} :
    c.Settled candidates name ↔ name = finalName candidates c := by
  cases hexplicit : c.explicit with
  | some id =>
    have hfinal : finalName candidates c = id := by rw [finalName, hexplicit]
    rw [hfinal]
    refine ⟨fun h => ?_, fun h => h ▸ .explicit hexplicit⟩
    cases h with
    | explicit h => exact Option.some.inj (h.symm.trans hexplicit)
    | suffixed h | plain h => cases h.symm.trans hexplicit
  | none =>
    rw [finalName_of_explicit_eq_none hexplicit]
    constructor
    · intro h
      cases h with
      | explicit h => cases h.symm.trans hexplicit
      | suffixed _ hdiffers hsegment => simp only [firstDiffersAt_iff.1 hdiffers, hsegment]
      | plain _ hends =>
        cases hdiffers : firstDifference? (rivalPaths candidates (derivedName c.method c.path)) with
        | none => rfl
        | some i => simp only [hends i (firstDiffersAt_iff.2 hdiffers)]
    · rintro rfl
      cases hdiffers : firstDifference? (rivalPaths candidates (derivedName c.method c.path)) with
      | none =>
        refine .plain hexplicit fun i hi => ?_
        rw [firstDiffersAt_iff, hdiffers] at hi
        cases hi
      | some i =>
        cases hsegment : (pathSegments c.path)[i]? with
        | some segment =>
          simp only [hsegment]
          exact .suffixed hexplicit (firstDiffersAt_iff.2 hdiffers) hsegment
        | none =>
          simp only [hsegment]
          refine .plain hexplicit fun j hj => ?_
          rw [firstDiffersAt_iff, hdiffers] at hj
          rwa [← Option.some.inj hj]

/-- Every candidate gets the name it settles on, in order. -/
theorem forall₂_settled (candidates : List Candidate) :
    List.Forall₂ (Candidate.Settled candidates) candidates
      (candidates.map (finalName candidates)) := by
  rw [List.forall₂_map_right_iff]
  exact List.forall₂_same.2 fun c _ => settled_iff.2 rfl

/-! ## Names that are shared -/

/-- The names reported are those that occur more than once. -/
theorem mem_sharedNames {names : List String} {name : String} :
    name ∈ sharedNames names ↔ 1 < names.count name := by
  rw [sharedNames, Dict.mem_keys_ofList, List.map_map]
  simp only [Function.comp_def, List.map_id', List.mem_filter, decide_eq_true_eq]
  exact and_iff_right_of_imp fun h => List.count_pos_iff.1 (Nat.zero_lt_of_lt h)

theorem sharedNames_sorted (names : List String) : (sharedNames names).Pairwise (· < ·) :=
  Dict.ordered_ofList _

theorem sharedNames_eq_nil {names : List String} : sharedNames names = [] ↔ names.Nodup := by
  rw [List.eq_nil_iff_forall_not_mem, List.nodup_iff_count_le_one]
  exact forall_congr' fun name => by rw [mem_sharedNames, Nat.not_lt]

theorem sharedNames_of_perm {names others : List String} (h : names.Perm others) :
    sharedNames names = sharedNames others := by
  refine List.Pairwise.eq_of_mem_iff (sharedNames_sorted names) (sharedNames_sorted others) ?_
  intro name
  rw [mem_sharedNames, mem_sharedNames, h.count_eq]

/-! ## The order of the candidates -/

theorem firstDifference?_of_perm {paths others : List (List String)} (h : paths.Perm others) :
    firstDifference? paths = firstDifference? others := by
  have hlongest : (paths.map List.length).foldl max 0 = (others.map List.length).foldl max 0 :=
    (h.map List.length).foldl_eq 0
  simp only [firstDifference?, hlongest]
  refine List.find?_congr fun i _ => ?_
  rw [Bool.eq_iff_iff, any_differs_iff, any_differs_iff]
  simp only [h.mem_iff]

theorem rivalPaths_perm {candidates others : List Candidate} (h : candidates.Perm others)
    (name : String) : (rivalPaths candidates name).Perm (rivalPaths others name) :=
  (h.filter _).map _

/-- The name of a candidate does not depend on the order of the candidates. -/
theorem finalName_of_perm {candidates others : List Candidate} (h : candidates.Perm others) :
    finalName candidates = finalName others := by
  funext c
  have hrivals := rivalPaths_perm h c.firstName
  simp only [finalName, hrivals.length_eq, firstDifference?_of_perm hrivals]

/-! ## Rearranging -/

section

variable {α β : Type}

/-- The items at the given places. -/
def arranged (order : List Nat) (xs : List α) : List α := order.filterMap (xs[·]?)

theorem map_arranged (order : List Nat) (f : α → β) (xs : List α) :
    (arranged order xs).map f = arranged order (xs.map f) := by
  simp only [arranged, List.map_filterMap, List.getElem?_map]

theorem arranged_range (xs : List α) : arranged (List.range xs.length) xs = xs := by
  induction xs with
  | nil => rfl
  | cons x xs ih =>
    have hrest : ((List.range xs.length).map Nat.succ).filterMap ((x :: xs)[·]?) = xs := by
      rw [List.filterMap_map]
      exact ih
    rw [List.length_cons, List.range_succ_eq_map, arranged, List.filterMap_cons, hrest]
    rfl

/-- Items taken once from every place are the same items in another order. -/
theorem arranged_perm {order : List Nat} {xs : List α} (h : order.Perm (List.range xs.length)) :
    (arranged order xs).Perm xs := by
  have hperm := h.filterMap (xs[·]?)
  rwa [show (List.range xs.length).filterMap (xs[·]?) = xs from arranged_range xs] at hperm

end

/-! ## All operations -/

theorem resolveNames_eq_ok {candidates : List Candidate} {names : List String}
    (h : resolveNames candidates = .ok names) :
    names = candidates.map (finalName candidates) ∧ names.Nodup := by
  simp only [resolveNames] at h
  split at h
  · rename_i hshared
    cases h
    exact ⟨rfl, sharedNames_eq_nil.1 hshared⟩
  · cases h

theorem resolveNames_eq_error {candidates : List Candidate} {shared : List String}
    (h : resolveNames candidates = .error shared) :
    shared ≠ [] ∧ shared = sharedNames (candidates.map (finalName candidates)) := by
  simp only [resolveNames] at h
  split at h
  · cases h
  · rename_i hshared
    cases h
    exact ⟨hshared, rfl⟩

/-- Rearranged candidates have the same names rearranged, and share the same names. -/
theorem resolveNames_arranged {candidates : List Candidate} {order : List Nat}
    (h : order.Perm (List.range candidates.length)) :
    resolveNames (arranged order candidates) = (resolveNames candidates).map (arranged order) := by
  have hperm := arranged_perm h
  have hnames : (arranged order candidates).map (finalName (arranged order candidates))
      = arranged order (candidates.map (finalName candidates)) := by
    rw [finalName_of_perm hperm, map_arranged]
  have hshared : sharedNames (arranged order (candidates.map (finalName candidates)))
      = sharedNames (candidates.map (finalName candidates)) := by
    refine sharedNames_of_perm (arranged_perm ?_)
    rwa [List.length_map]
  simp only [resolveNames, hnames, hshared]
  split <;> rfl

/-- **Operations are named apart or the names they share are reported, in whatever order they
come.**  A result has one name for each candidate, in order: one of its own, and the one it settles
on among the others, and no name twice.  A failure lists the names that two candidates still share
after suffixes, sorted and each once.  Candidates in another order get the same names in that order,
or the same failure. -/
theorem resolveNames_distinct_or_shared (candidates : List Candidate) :
    (∀ names, resolveNames candidates = .ok names →
      List.Forall₂ Candidate.NamedBy candidates names ∧
      List.Forall₂ (Candidate.Settled candidates) candidates names ∧ names.Nodup) ∧
    (∀ shared, resolveNames candidates = .error shared →
      shared ≠ [] ∧ shared.Pairwise (· < ·) ∧
      ∃ settled, List.Forall₂ (Candidate.Settled candidates) candidates settled ∧
        ∀ name, name ∈ shared ↔ 1 < settled.count name) ∧
    ∀ order : List Nat, order.Perm (List.range candidates.length) →
      resolveNames (arranged order candidates)
        = (resolveNames candidates).map (arranged order) := by
  have hsettled := forall₂_settled candidates
  refine ⟨fun names h => ?_, fun shared h => ?_, fun order h => resolveNames_arranged h⟩
  · obtain ⟨rfl, hnodup⟩ := resolveNames_eq_ok h
    exact ⟨hsettled.imp fun _ _ => Candidate.Settled.namedBy, hsettled, hnodup⟩
  · obtain ⟨hne, rfl⟩ := resolveNames_eq_error h
    exact ⟨hne, sharedNames_sorted _, _, hsettled, fun name => mem_sharedNames⟩

/-- An operation that gets a derived name and one that has an identifier. -/
def movieCandidates : List Candidate :=
  [⟨none, .get, "/"⟩, ⟨some "addMovie", .post, "/movies"⟩]

/-- Two operations whose derived names a suffix tells apart. -/
def idCandidates : List Candidate := [⟨none, .get, "/\x7bid\x7d"⟩, ⟨none, .get, "/id"⟩]

/-- Two operations on one path whose derived names nothing tells apart. -/
def updateCandidates : List Candidate := [⟨none, .put, "/"⟩, ⟨none, .patch, "/"⟩]

/-- Braces are no part of a word. -/
theorem pascalCase_id : pascalCase "id" = "Id" ∧ pascalCase "\x7bid\x7d" = "Id" := by
  have hi : isAlphanumeric 'i' = true := isAlphanumeric_ascii (by decide)
  have hd : isAlphanumeric 'd' = true := isAlphanumeric_ascii (by decide)
  have hopen : isAlphanumeric '\x7b' = false := isAlphanumeric_ascii (by decide)
  have hclose : isAlphanumeric '\x7d' = false := isAlphanumeric_ascii (by decide)
  have hstart : startsWord 'i' 'd' = false := by
    rw [startsWord, isUppercase_ascii (by decide)]
    exact Bool.and_false _
  have hplain : words "id" = ["id"] := by
    simp [words, wordsFrom, finishedWord, hi, hd, hstart]
  have hbraced : words "\x7bid\x7d" = ["id"] := by
    simp [words, wordsFrom, finishedWord, hi, hd, hopen, hclose, hstart]
  rw [pascalCase, pascalCase, hplain, hbraced]
  decide +kernel

/-- The paths of the two differ in their first segment. -/
theorem finalName_idCandidates :
    idCandidates.map (finalName idCandidates) = ["getIdById", "getIdId"] := by
  have hbraced : pathSegments "/\x7bid\x7d" = ["\x7bid\x7d"] := by decide +kernel
  have hplain : pathSegments "/id" = ["id"] := by decide +kernel
  have hnames : derivedName .get "/\x7bid\x7d" = "getId" ∧ derivedName .get "/id" = "getId" := by
    simp only [derivedName, hbraced, hplain, List.map_cons, pascalCase_id]
    decide +kernel
  have hdiffers : FirstDiffersAt idCandidates "getId" 0 :=
    ⟨⟨_, .head _, _, .tail _ (.head _), hnames.1, hnames.2, by decide +kernel⟩, nofun⟩
  have hfinal {path segment : String} (hpath : pathSegments path = [segment])
      (hname : derivedName .get path = "getId") :
      finalName idCandidates ⟨none, .get, path⟩ = "getId" ++ suffix segment := by
    rw [← hname] at hdiffers ⊢
    refine (settled_iff.1 (.suffixed rfl hdiffers ?_)).symm
    rw [hpath]
    rfl
  have hsuffix : suffix "\x7bid\x7d" = "ById" ∧ suffix "id" = "Id" := by
    rw [suffix, suffix, pascalCase_id.1, pascalCase_id.2]
    decide +kernel
  rw [idCandidates, List.map_cons, List.map_singleton, ← idCandidates, hfinal hbraced hnames.1,
    hfinal hplain hnames.2, hsuffix.1, hsuffix.2]
  decide +kernel

/-- Two operations in either order, two that a suffix tells apart, and two that share a name. -/
theorem resolveNames_movies :
    (resolveNames movieCandidates = .ok ["getRoot", "addMovie"] ∧
      ["getRoot", "addMovie"].Nodup ∧
      resolveNames (arranged [1, 0] movieCandidates) = .ok ["addMovie", "getRoot"]) ∧
    (resolveNames idCandidates = .ok ["getIdById", "getIdId"] ∧
      List.Forall₂ (Candidate.Settled idCandidates) idCandidates ["getIdById", "getIdId"]) ∧
    resolveNames updateCandidates = .error ["updateRoot"] ∧
      ∃ settled, List.Forall₂ (Candidate.Settled updateCandidates) updateCandidates settled ∧
        1 < settled.count "updateRoot" := by
  have hok : resolveNames movieCandidates = .ok ["getRoot", "addMovie"] := by decide +kernel
  have hid : resolveNames idCandidates = .ok ["getIdById", "getIdId"] := by
    rw [resolveNames, finalName_idCandidates]
    decide +kernel
  have herror : resolveNames updateCandidates = .error ["updateRoot"] := by decide +kernel
  obtain ⟨hdistinct, -, horder⟩ := resolveNames_distinct_or_shared movieCandidates
  obtain ⟨hsuffixed, -, -⟩ := resolveNames_distinct_or_shared idCandidates
  obtain ⟨-, hshared, -⟩ := resolveNames_distinct_or_shared updateCandidates
  obtain ⟨-, -, settled, hsettled, hcount⟩ := hshared _ herror
  refine ⟨⟨hok, (hdistinct _ hok).2.2, ?_⟩, ⟨hid, (hsuffixed _ hid).2.1⟩, herror, settled, hsettled,
    (hcount "updateRoot").1 List.mem_cons_self⟩
  rw [horder [1, 0] (by decide), hok]
  rfl

end TypedClient.Naming
