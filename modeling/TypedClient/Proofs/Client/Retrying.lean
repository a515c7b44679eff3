import Mathlib.Data.Nat.Find
import Mathlib.Tactic.IntervalCases
import TypedClient.Proofs.Client.Calls

/-!
# How often a request is sent

An answer is final unless another attempt may succeed.  A request is sent until there is a final
answer or there are no attempts left; without a delay between attempts there is just one.

* `FirstFinal` is the place of the first final answer of a script, and `Config.lastAttempt` that of
  the last answer a configuration lets a request get to;
* `sendWithRetry_scripted` says that sending stops there, with that answer, whatever the limit.
-/

set_option autoImplicit false

namespace TypedClient.Client

variable {script : Nat → Exchanged} {c : Config} {final : Option Nat}

/-! ## The last attempt -/

/-- The place of the first final answer of a script; none if all answers let one try again. -/
def FirstFinal (script : Nat → Exchanged) : Option Nat → Prop
  | some place =>
    isRetryable (script place) = false ∧ ∀ i < place, isRetryable (script i) = true
  | none => ∀ i, isRetryable (script i) = true

theorem exists_firstFinal (script : Nat → Exchanged) : ∃ final, FirstFinal script final := by
  by_cases hfinal : ∃ i, isRetryable (script i) = false
  · refine ⟨some (Nat.find hfinal), Nat.find_spec hfinal, fun i hi => ?_⟩
    exact Bool.of_not_eq_false (Nat.find_min hfinal hi)
  · exact ⟨none, fun i => Bool.of_not_eq_false fun hi => hfinal ⟨i, hi⟩⟩

/-- How many further attempts come before the last one, given the place of the first final
answer. -/
def Config.lastAttempt (c : Config) (final : Option Nat) : Nat :=
  match c.retryDelay, final with
  | none, _ => 0
  | some _, some place => min place c.maxRetries.toNat
  | some _, none => c.maxRetries.toNat

/-- Up to the last attempt, another one follows just before it. -/
theorem retries_iff_lt_lastAttempt (hfinal : FirstFinal script final) (attempt : UInt32)
    (hle : attempt.toNat ≤ c.lastAttempt final) :
    c.retries attempt (script attempt.toNat) = true ↔ attempt.toNat < c.lastAttempt final := by
  rw [Config.retries, Bool.and_eq_true, Bool.and_eq_true, decide_eq_true_eq,
    UInt32.lt_iff_toNat_lt]
  rw [Config.lastAttempt.eq_def] at hle ⊢
  cases hdelay : c.retryDelay with
  | none => simp
  | some delay =>
    rw [hdelay] at hle
    cases final with
    | none => simp [hfinal attempt.toNat]
    | some place =>
      obtain ⟨hplace, hbefore⟩ := hfinal
      simp only [Option.isSome_some, true_and, Nat.lt_min, and_congr_left_iff]
      intro _
      refine ⟨fun hretryable => ?_, hbefore _⟩
      refine Nat.lt_of_le_of_ne (Nat.le_trans hle (Nat.min_le_left _ _)) fun heq => ?_
      rw [heq, hplace] at hretryable
      cases hretryable

/-! ## Sending -/

/-- From any attempt on, sending goes on to the last one. -/
theorem sendFrom_scripted (hfinal : FirstFinal script final) (defaults : Headers)
    (request : Request) (left : Nat) (attempt : UInt32)
    (hleft : attempt.toNat + left = c.lastAttempt final) (seen : List Request) :
    sendFrom (Transport.scripted defaults script).recorded c request attempt ⟨seen, attempt.toNat⟩
      = ((script (c.lastAttempt final)).mapError failureError,
        ⟨seen ++ List.replicate (left + 1) request, c.lastAttempt final + 1⟩) := by
  have hsend : (Transport.scripted defaults script).recorded.send request ⟨seen, attempt.toNat⟩
      = (script attempt.toNat, ⟨seen ++ [request], attempt.toNat + 1⟩) := rfl
  have hretries := retries_iff_lt_lastAttempt (c := c) hfinal attempt (by omega)
  induction left generalizing attempt seen with
  | zero =>
    rw [sendFrom_eq, hsend, if_neg (by rw [hretries]; omega)]
    rw [show attempt.toNat = c.lastAttempt final from hleft]
    rfl
  | succ left ih =>
    have hmore : c.retries attempt (script attempt.toNat) = true := hretries.2 (by omega)
    obtain ⟨hnext, -⟩ := Config.toNat_add_one_of_retries hmore
    rw [sendFrom_eq, hsend, if_pos hmore, ← hnext]
    rw [ih (attempt + 1) (by omega) (seen ++ [request]) rfl
      (retries_iff_lt_lastAttempt hfinal _ (by omega)), List.append_assoc, List.singleton_append,
      ← List.replicate_succ]

/-- **A request is sent until an answer is final.**  Without a delay it is sent once; with one it is
sent once more than there are answers before the first final one, or than there may be further
attempts, whichever is less.  All the requests are the given one, and the last answer counts; that
there is none is an error of the call.  The count of attempts has 32 bits and is exact at every
limit. -/
theorem sendWithRetry_scripted (defaults : Headers) (script : Nat → Exchanged) (c : Config)
    (request : Request) :
    (∃ final, FirstFinal script final) ∧
      (∀ final, FirstFinal script final →
        sendWithRetry (Transport.scripted defaults script).recorded c request ⟨[], 0⟩
          = ((script (c.lastAttempt final)).mapError failureError,
            ⟨List.replicate (c.lastAttempt final + 1) request, c.lastAttempt final + 1⟩)) ∧
      (∀ failure, (failureError failure).code = "UNEXPECTED_CALL_FAILURE") ∧
      ∀ attempt answer, c.retries attempt answer = true →
        (attempt + 1).toNat = attempt.toNat + 1 := by
  refine ⟨exists_firstFinal script, fun final hfinal => ?_, fun _ => rfl,
    fun attempt answer h => ?_⟩
  · exact sendFrom_scripted hfinal defaults request (c.lastAttempt final) 0 (Nat.zero_add _) []
  · exact (Config.toNat_add_one_of_retries h).1

/-- A request is lost, then refused by a busy server, and answered from then on. -/
def recoveringScript : Nat → Exchanged
  | 0 => .error (.other "lost")
  | 1 => .ok ⟨503, .empty, []⟩
  | _ => .ok ⟨200, .empty, []⟩

/-- The third attempt is the last one, although there might be two more. -/
theorem sendWithRetry_scripted_recovering :
    FirstFinal recoveringScript (some 2) ∧
      sendWithRetry (Transport.scripted .empty recoveringScript).recorded
          { quotesConfig with retryDelay := some 5, maxRetries := 4 } quoteRequest ⟨[], 0⟩
        = (.ok ⟨200, .empty, []⟩, ⟨[quoteRequest, quoteRequest, quoteRequest], 3⟩) := by
  have hfinal : FirstFinal recoveringScript (some 2) := by
    refine ⟨rfl, fun i hi => ?_⟩
    interval_cases i <;> rfl
  exact ⟨hfinal, (sendWithRetry_scripted .empty recoveringScript _ quoteRequest).2.1 _ hfinal⟩

end TypedClient.Client
