import TypedClient.Api.Operation

/-!
# What operations refer to

An operation refers to nodes of the type graph by its parameters and by its responses
(`Operation.types`).  A key of its responses is read as a status code only if the code has 16 bits
(`StatusKey.fits_of_ofText`).
-/

set_option autoImplicit false

namespace TypedClient.Api

open TypedClient.Types (TypeId)

/-! ## Nodes -/

/-- The nodes that a response refers to. -/
def Response.types (response : Response) : List TypeId := response.content.filterMap Media.type

/-- The nodes that an operation refers to. -/
def Operation.types (op : Operation) : List TypeId :=
  op.parameters.map Parameter.type ++ op.responses.flatMap Response.types

/-- An operation refers to what its parameters and its responses refer to. -/
theorem Operation.forall_mem_types {op : Operation} {p : TypeId → Prop} :
    (∀ id ∈ op.types, p id) ↔ (∀ parameter ∈ op.parameters, p parameter.type) ∧
      ∀ response ∈ op.responses, ∀ id ∈ response.types, p id := by
  simp only [types, List.mem_append, List.mem_map, List.mem_flatMap, or_imp, forall_and,
    forall_exists_index, and_imp, forall_apply_eq_imp_iff₂]
  exact and_congr_right fun _ =>
    ⟨fun h r hr id hid => h id r hr hid, fun h id r hr hid => h r hr id hid⟩

/-! ## Status codes -/

open TypedClient.Text

/-- A status code has 16 bits. -/
def StatusKey.Fits (status : StatusKey) : Prop := ∀ code, status = .code code → code < 65536

theorem lt_of_readUnsigned {bound : Nat} {cs : List Char} {n : Nat}
    (h : readUnsigned? bound cs = some n) : n < bound :=
  of_decide_eq_true (Option.filter_eq_some_iff.1 h).2

theorem StatusKey.fits_of_ofText {key : String} {status : StatusKey}
    (h : ofText? key = some status) :
    status.Fits := by
  rw [ofText?] at h
  split at h
  · cases h
    exact fun _ h => nomatch h
  · have hcode {cs : List Char} (h : (readUnsigned? 65536 cs).map code = some status) :
        status.Fits := by
      obtain ⟨n, hn, rfl⟩ := Option.map_eq_some_iff.1 h
      intro code hcode
      cases hcode
      exact lt_of_readUnsigned hn
    split at h
    · split at h
      · obtain ⟨digit, -, rfl⟩ := Option.map_eq_some_iff.1 h
        exact fun _ h => nomatch h
      · exact hcode h
    · exact hcode h

/-- The codes of all responses have 16 bits. -/
def Operation.CodesFit (op : Operation) : Prop := ∀ response ∈ op.responses, response.status.Fits

end TypedClient.Api
