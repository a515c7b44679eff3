import Mathlib.Data.List.Induction
import TypedClient.Api.PathTemplate
import TypedClient.Proofs.Text.Lines

/-!
# Templates that are well formed

The pieces of a template are found by one scan of the whole, and the placeholders of a segment by a
scan of the segment alone.  In a template that is well formed no placeholder reaches into another
segment, so both scans find the same.

* `WellFormed` says that the braces of a template are balanced and not nested, and that its
  placeholders have names, without slashes;
* `Filled` relates a template to a text that has values in place of the placeholders;
* `segments_of_wellFormed` says what the segments of such a template are;
* `filled_fill` says that filling a template that is well formed leaves no placeholder.
-/

set_option autoImplicit false

namespace TypedClient.Api

open TypedClient.Text

/-- A character that can be part of the name of a placeholder. -/
def IsNameChar (c : Char) : Prop := c ≠ '\x7b' ∧ c ≠ '\x7d' ∧ c ≠ '/'

instance : DecidablePred IsNameChar :=
  fun c => inferInstanceAs (Decidable (c ≠ '\x7b' ∧ c ≠ '\x7d' ∧ c ≠ '/'))

/-- The braces of a template are balanced and not nested, and what they hold is a name without
slashes. -/
inductive WellFormed : List Char → Prop
  /-- The template is empty. -/
  | nil : WellFormed []
  /-- The template starts with a character that stands for itself. -/
  | text {c : Char} {rest : List Char} (hopen : c ≠ '\x7b') (hclose : c ≠ '\x7d')
      (hrest : WellFormed rest) : WellFormed (c :: rest)
  /-- The template starts with a placeholder. -/
  | placeholder {name rest : List Char} (hne : name ≠ []) (hname : ∀ c ∈ name, IsNameChar c)
      (hrest : WellFormed rest) : WellFormed ('\x7b' :: (name ++ '\x7d' :: rest))

/-- A text is a template with a value in place of every placeholder, where `R` relates names to
values.  All else is as it is in the template, and values are not looked into. -/
inductive Filled (R : List Char → List Char → Prop) : List Char → List Char → Prop
  /-- Nothing is filled in. -/
  | nil : Filled R [] []
  /-- A character stands for itself. -/
  | text {c : Char} {rest out : List Char} (hopen : c ≠ '\x7b') (hrest : Filled R rest out) :
      Filled R (c :: rest) (c :: out)
  /-- A placeholder gives way to a value. -/
  | placeholder {name value rest out : List Char} (hname : ∀ c ∈ name, IsNameChar c)
      (hvalue : R name value) (hrest : Filled R rest out) :
      Filled R ('\x7b' :: (name ++ '\x7d' :: rest)) (value ++ out)

/-- Text without braces may stand before a template that is well formed. -/
theorem WellFormed.prepend {text rest : List Char}
    (htext : ∀ c ∈ text, c ≠ '\x7b' ∧ c ≠ '\x7d') (hrest : WellFormed rest) :
    WellFormed (text ++ rest) := by
  induction text with
  | nil => exact hrest
  | cons c text ih =>
    obtain ⟨⟨hopen, hclose⟩, htext⟩ := List.forall_mem_cons.1 htext
    exact .text hopen hclose (ih htext)

/-! ## Pieces -/

variable {template rest name : List Char} {values : List Char → Option (List Char)}

/-- What has been read of a literal stands before all else. -/
theorem flatMap_piecesFrom (values : List Char → Option (List Char)) (rest text : List Char)
    (opened : Option (List Char)) :
    (piecesFrom text opened rest).flatMap (Piece.fill values)
      = text.reverse ++ (piecesFrom [] opened rest).flatMap (Piece.fill values) := by
  induction rest generalizing text opened with
  | nil => cases opened <;> simp [piecesFrom, Piece.fill]
  | cons c rest ih =>
    cases opened with
    | none =>
      rw [piecesFrom, piecesFrom]
      split
      · exact ih text _
      · rw [ih (c :: text), ih [c]]
        simp
    | some name =>
      rw [piecesFrom, piecesFrom]
      split
      · simp [Piece.fill]
      · exact ih text _

/-- What has been read of a literal holds no placeholders. -/
theorem namesOf_piecesFrom (rest text : List Char) (opened : Option (List Char)) :
    namesOf (piecesFrom text opened rest) = namesOf (piecesFrom [] opened rest) := by
  induction rest generalizing text opened with
  | nil => cases opened <;> rfl
  | cons c rest ih =>
    cases opened with
    | none =>
      rw [piecesFrom, piecesFrom]
      split
      · exact ih text _
      · rw [ih (c :: text), ih [c]]
    | some name =>
      rw [piecesFrom, piecesFrom]
      split
      · rfl
      · exact ih text _

/-- The name of a placeholder is read up to its end. -/
theorem piecesFrom_name (hname : '\x7d' ∉ name) (text read : List Char) :
    piecesFrom text (some read) (name ++ '\x7d' :: rest)
      = .literal text.reverse :: .placeholder (read.reverse ++ name) ::
        piecesFrom [] none rest := by
  induction name generalizing read with
  | nil => simp [piecesFrom]
  | cons c name ih =>
    obtain ⟨hc, hname⟩ := not_or.1 (mt List.mem_cons.2 hname)
    rw [List.cons_append, piecesFrom, if_neg (Ne.symm hc), ih hname]
    simp

theorem pieces_placeholder (hname : ∀ c ∈ name, IsNameChar c) :
    pieces ('\x7b' :: (name ++ '\x7d' :: rest)) =
      .literal [] :: .placeholder name :: pieces rest := by
  rw [pieces, piecesFrom, if_pos rfl, piecesFrom_name fun hmem => (hname _ hmem).2.1 rfl]
  rfl

/-! ## Filling -/

theorem fill_text {c : Char} (hopen : c ≠ '\x7b') :
    fill values (c :: rest) = c :: fill values rest := by
  rw [fill, pieces, piecesFrom, if_neg hopen, flatMap_piecesFrom]
  rfl

theorem fill_placeholder (hname : ∀ c ∈ name, IsNameChar c) {value : List Char}
    (hvalue : values name = some value) :
    fill values ('\x7b' :: (name ++ '\x7d' :: rest)) = value ++ fill values rest := by
  rw [fill, pieces_placeholder hname, List.flatMap_cons, List.flatMap_cons]
  simp [Piece.fill, hvalue, fill]

theorem namesOf_text {c : Char} (hopen : c ≠ '\x7b') :
    namesOf (pieces (c :: rest)) = namesOf (pieces rest) := by
  rw [pieces, piecesFrom, if_neg hopen, namesOf_piecesFrom]
  rfl

theorem namesOf_placeholder (hname : ∀ c ∈ name, IsNameChar c) :
    namesOf (pieces ('\x7b' :: (name ++ '\x7d' :: rest))) = name :: namesOf (pieces rest) := by
  rw [pieces_placeholder hname]
  rfl

/-- **Filling leaves no placeholder** of a template that is well formed, if all have values. -/
theorem filled_fill {R : List Char → List Char → Prop} (h : WellFormed template)
    (hvalues : ∀ name ∈ namesOf (pieces template),
      ∃ value, values name = some value ∧ R name value) :
    Filled R template (fill values template) := by
  induction h with
  | nil => exact .nil
  | text hopen _ _ ih =>
    rw [fill_text hopen]
    rw [namesOf_text hopen] at hvalues
    exact .text hopen (ih hvalues)
  | placeholder _ hname _ ih =>
    rw [namesOf_placeholder hname] at hvalues
    obtain ⟨⟨value, hvalue, hR⟩, hrest⟩ := List.forall_mem_cons.1 hvalues
    rw [fill_placeholder hname hvalue]
    exact .placeholder hname hR (ih hrest)

/-! ## Segments -/

/-- Each segment of a template that is well formed is so, and its placeholders are those of the
template. -/
theorem segments_of_wellFormed (h : WellFormed template) :
    ∀ segment ∈ splitOn '/' template, WellFormed segment ∧
      ∀ name ∈ namesOf (pieces segment), name ∈ namesOf (pieces template) := by
  induction h with
  | nil => exact List.forall_mem_singleton.2 ⟨.nil, fun _ h => h⟩
  | @text c rest hopen hclose hrest ih =>
    rw [namesOf_text hopen]
    by_cases hc : c = '/'
    · rw [splitOn, if_pos hc]
      exact List.forall_mem_cons.2 ⟨⟨.nil, List.forall_mem_nil _⟩, ih⟩
    · obtain ⟨first, others, hsplit⟩ := exists_splitOn '/' rest
      rw [hsplit] at ih
      obtain ⟨⟨hfirst, hnames⟩, hothers⟩ := List.forall_mem_cons.1 ih
      rw [splitOn_cons hc hsplit]
      refine List.forall_mem_cons.2 ⟨⟨.text hopen hclose hfirst, ?_⟩, hothers⟩
      rwa [namesOf_text hopen]
  | @placeholder name rest hne hname hrest ih =>
    rw [namesOf_placeholder hname]
    obtain ⟨first, others, hsplit⟩ := exists_splitOn '/' rest
    rw [hsplit] at ih
    obtain ⟨⟨hfirst, hnames⟩, hothers⟩ := List.forall_mem_cons.1 ih
    have hclosed : splitOn '/' ('\x7d' :: rest) = ('\x7d' :: first) :: others :=
      splitOn_cons (by decide) hsplit
    rw [splitOn_cons (by decide) (splitOn_append (fun hmem => (hname _ hmem).2.2 rfl) hclosed)]
    refine List.forall_mem_cons.2 ⟨⟨.placeholder hne hname hfirst, ?_⟩, fun segment hsegment => ?_⟩
    · rw [namesOf_placeholder hname]
      exact fun other hother => (List.mem_cons.1 hother).elim (fun h => h ▸ List.mem_cons_self)
        fun h => List.mem_cons_of_mem _ (hnames other h)
    · obtain ⟨hsegment, hothers⟩ := hothers segment hsegment
      exact ⟨hsegment, fun other hother => List.mem_cons_of_mem _ (hothers other hother)⟩

/-! ## Declared placeholders -/

theorem ne_nil_of_mem_namesOf (h : WellFormed template) : [] ∉ namesOf (pieces template) := by
  induction h with
  | nil => exact List.not_mem_nil
  | text hopen _ _ ih => rwa [namesOf_text hopen]
  | placeholder hne hname _ ih =>
    rw [namesOf_placeholder hname, List.mem_cons, not_or]
    exact ⟨Ne.symm hne, ih⟩

theorem mem_distinct {α : Type} [BEq α] [LawfulBEq α] {items : List α} {item : α} :
    item ∈ distinct items ↔ item ∈ items := by
  have hfold : ∀ (items seen : List α), item ∈ items.foldl
      (fun seen item => if seen.contains item then seen else item :: seen) seen ↔
        item ∈ seen ∨ item ∈ items := by
    intro items
    induction items with
    | nil => simp
    | cons first rest ih =>
      intro seen
      rw [List.foldl_cons, ih, List.mem_cons]
      split
      · rename_i hseen
        rw [List.contains_iff_mem] at hseen
        constructor
        · exact fun h => h.imp id .inr
        · rintro (h | rfl | h)
          · exact .inl h
          · exact .inl hseen
          · exact .inr h
      · rw [List.mem_cons, or_assoc, or_left_comm]
  rw [distinct, List.mem_reverse, hfold]
  simp

theorem distinct_concat {α : Type} [BEq α] [LawfulBEq α] (items : List α) (item : α) :
    distinct (items ++ [item]) =
      if item ∈ items then distinct items else distinct items ++ [item] := by
  have hseen : items.foldl (fun seen item => if seen.contains item then seen else item :: seen) []
      = (distinct items).reverse := by rw [distinct, List.reverse_reverse]
  rw [distinct, List.foldl_append, hseen, List.foldl_cons, List.foldl_nil]
  simp only [List.contains_iff_mem, List.mem_reverse, mem_distinct]
  split
  · exact List.reverse_reverse _
  · rw [List.reverse_cons, List.reverse_reverse]

theorem nodup_distinct {α : Type} [BEq α] [LawfulBEq α] (items : List α) :
    (distinct items).Nodup := by
  induction items using List.reverseRecOn with
  | nil => exact List.nodup_nil
  | append_singleton items item ih =>
    rw [distinct_concat]
    split
    · exact ih
    · rename_i hnew
      refine List.nodup_append.2 ⟨ih, List.pairwise_singleton _ item, fun a ha b hb heq => hnew ?_⟩
      rw [← List.mem_singleton.1 hb, ← heq]
      exact mem_distinct.1 ha

/-- Of what comes later, the items that are new are added. -/
theorem distinct_append {α : Type} [BEq α] [LawfulBEq α] (first second : List α) :
    distinct (first ++ second)
      = distinct first ++ (distinct second).filter fun item => !first.contains item := by
  induction second using List.reverseRecOn with
  | nil => rw [List.append_nil]; exact (List.append_nil _).symm
  | append_singleton second item ih =>
    rw [← List.append_assoc, distinct_concat, distinct_concat, ih]
    simp only [List.mem_append]
    by_cases hsecond : item ∈ second
    · rw [if_pos (.inr hsecond), if_pos hsecond]
    · by_cases hfirst : item ∈ first
      · rw [if_pos (.inl hfirst), if_neg hsecond, List.filter_append]
        simp [hfirst]
      · rw [if_neg (not_or.2 ⟨hfirst, hsecond⟩), if_neg hsecond, List.filter_append,
          List.append_assoc]
        simp [hfirst]

/-- The placeholders of a template that is well formed are found by the scan for them. -/
theorem mem_placeholders {path : String} (h : WellFormed path.toList)
    (hname : name ∈ namesOf (pieces path.toList)) : String.ofList name ∈ placeholders path := by
  refine List.mem_map_of_mem (mem_distinct.2 (List.mem_filter.2 ⟨hname, ?_⟩))
  have hne : name ≠ [] := fun heq => ne_nil_of_mem_namesOf h (heq ▸ hname)
  simpa using hne

end TypedClient.Api
