import Dymint.Core.Retry
import Dymint.Types.Tendermint
import Mathlib.Algebra.Order.Ring.Nat

/-!
# Sending a state update

`submitBatch` of the hub client broadcasts a state update and retries with
`retry.Do`.  The retried function returns the error of the transport both if there is one
and if the hub rejects the transaction, and in the second case that error is nil.
-/

namespace Dymint.Settlement

open Dymint.Types Retry

/-- What `BroadcastTx` returns; the code is read only if there is no error. -/
structure Broadcast (ε : Type) where
  err : Option ε
  code : UInt32
  deriving DecidableEq

namespace Broadcast

variable {ε : Type}

/-- The function that is retried. -/
def attempt (broadcast : Broadcast ε) : Option ε :=
  if broadcast.err.isSome ∨ broadcast.code ≠ 0 then broadcast.err else none

def Accepted (broadcast : Broadcast ε) : Prop := broadcast.err = none ∧ broadcast.code = 0

def Rejected (broadcast : Broadcast ε) : Prop := broadcast.err = none ∧ broadcast.code ≠ 0

/-- The response code does not matter to the retried function. -/
theorem attempt_eq (broadcast : Broadcast ε) : broadcast.attempt = broadcast.err := by
  rw [attempt]
  split
  case isTrue => rfl
  case isFalse h => exact (Option.not_isSome_iff_eq_none.1 (not_or.1 h).1).symm

theorem accepted_or_rejected {broadcast : Broadcast ε} (herr : broadcast.err = none) :
    broadcast.Accepted ∨ broadcast.Rejected := by
  by_cases hcode : broadcast.code = 0
  · exact .inl ⟨herr, hcode⟩
  · exact .inr ⟨herr, hcode⟩

end Broadcast

variable {ε : Type}

/-- The first `fuel` attempts of a call. -/
def submitBatch (retrier : Retrier (Broadcast ε) ε) (plan : Plan (Broadcast ε) ε) (fuel : ℕ) :
    Run (Broadcast ε) ε :=
  retrier.retry plan Broadcast.attempt fuel 0

/-- A call succeeds if and only if a transaction was accepted, and one that was rejected is
sent again or reported as an error. -/
structure Reports (run : Run (Broadcast ε) ε) : Prop where
  nil_iff : run.returned = some none ↔ ∃ broadcast ∈ run.made, broadcast.Accepted
  rejected : ∀ n broadcast, run.made[n]? = some broadcast → broadcast.Rejected →
    n + 1 < run.made.length ∨ run.returned = none ∨ ∃ err, run.returned = some (some err)

def FirstDeliveredAccepted (plan : Plan (Broadcast ε) ε) : Prop :=
  ∀ n, (plan.attempts = 0 ∨ n < plan.attempts) → (∀ m < n, (plan.outcome m).err ≠ none) →
    (∀ m ≤ n, plan.done m = none) → ¬ (plan.outcome n).Rejected

variable {retrier : Retrier (Broadcast ε) ε} {plan : Plan (Broadcast ε) ε}

theorem attempted_zero_iff {n : ℕ} :
    Attempted plan Broadcast.attempt 0 n ↔ (plan.attempts = 0 ∨ n < plan.attempts) ∧
      (∀ m < n, (plan.outcome m).err ≠ none) ∧ ∀ m ≤ n, plan.done m = none := by
  constructor
  · rintro ⟨hattempt, hfailed, hdone⟩
    exact ⟨hattempt, fun m hm => by rw [← Broadcast.attempt_eq]; exact hfailed m m.zero_le hm,
      fun m hm => hdone m m.zero_le hm⟩
  · rintro ⟨hattempt, hfailed, hdone⟩
    exact ⟨hattempt, fun m _ hm => by rw [Broadcast.attempt_eq]; exact hfailed m hm,
      fun m _ hm => hdone m hm⟩

/-- The transactions that a call sends. -/
theorem mem_made_submitBatch {fuel : ℕ} {broadcast : Broadcast ε} :
    broadcast ∈ (submitBatch retrier plan fuel).made ↔
      ∃ n < fuel, Attempted plan Broadcast.attempt 0 n ∧ plan.outcome n = broadcast := by
  rw [submitBatch, mem_made_iff (by omega)]
  simp

theorem submitBatch_nil_iff (fuel : ℕ) : (submitBatch retrier plan fuel).returned = some none ↔
      ∃ broadcast ∈ (submitBatch retrier plan fuel).made, broadcast.err = none := by
  rw [submitBatch, returned_nil_iff]
  simp only [Broadcast.attempt_eq]

theorem not_rejected_of_mem_made (hplan : FirstDeliveredAccepted plan) {fuel : ℕ}
    {broadcast : Broadcast ε} (hmade : broadcast ∈ (submitBatch retrier plan fuel).made) :
    ¬ broadcast.Rejected := by
  obtain ⟨n, _, hn, rfl⟩ := mem_made_submitBatch.1 hmade
  obtain ⟨hattempt, hfailed, hdone⟩ := attempted_zero_iff.1 hn
  exact hplan n hattempt hfailed hdone

theorem reports_of_firstDeliveredAccepted (hplan : FirstDeliveredAccepted plan) (fuel : ℕ) :
    Reports (submitBatch retrier plan fuel) where
  nil_iff := by
    rw [submitBatch_nil_iff]
    constructor
    · rintro ⟨broadcast, hmade, herr⟩
      refine ⟨broadcast, hmade, ?_⟩
      exact (Broadcast.accepted_or_rejected herr).resolve_right
        (not_rejected_of_mem_made hplan hmade)
    · rintro ⟨broadcast, hmade, herr, _⟩
      exact ⟨broadcast, hmade, herr⟩
  rejected n broadcast hn hrejected :=
    absurd hrejected (not_rejected_of_mem_made hplan (List.mem_of_getElem? hn))

theorem not_reports_of_rejected {n : ℕ} (hn : Attempted plan Broadcast.attempt 0 n)
    (hrejected : (plan.outcome n).Rejected) : ¬ Reports (submitBatch retrier plan (n + 1)) := by
  intro hreports
  have hmade : plan.outcome n ∈ (submitBatch retrier plan (n + 1)).made :=
    mem_made_submitBatch.2 ⟨n, Nat.lt_succ_self n, hn, rfl⟩
  have hnil := (submitBatch_nil_iff (n + 1)).2 ⟨_, hmade, hrejected.1⟩
  obtain ⟨broadcast, haccepted, herr, hcode⟩ := hreports.nil_iff.1 hnil
  obtain ⟨m, hm, _, rfl⟩ := mem_made_submitBatch.1 haccepted
  rcases Nat.lt_succ_iff_lt_or_eq.1 hm with hlt | rfl
  · -- an attempt before this one failed
    exact (attempted_zero_iff.1 hn).2.1 m hlt herr
  · exact hrejected.2 hcode

/-- At every point of a call `submitBatch` reports what happened to its transactions if and
only if the first one that is delivered is not rejected.  A call with a last attempt
returns. -/
theorem submitBatch_reports_iff (retrier : Retrier (Broadcast ε) ε) (plan : Plan (Broadcast ε) ε) :
    ((∀ fuel, Reports (submitBatch retrier plan fuel)) ↔ FirstDeliveredAccepted plan) ∧
      (0 < plan.attempts → (submitBatch retrier plan plan.attempts).returned ≠ none) := by
  refine ⟨⟨?_, reports_of_firstDeliveredAccepted⟩, ?_⟩
  · intro hreports n hattempt hfailed hdone hrejected
    have hn := attempted_zero_iff.2 ⟨hattempt, hfailed, hdone⟩
    exact not_reports_of_rejected hn hrejected (hreports (n + 1))
  · intro hpos
    exact returned_ne_none hpos (by omega)

/-- The first transaction is rejected with code 5, and the call returns nil without sending
another one. -/
theorem rejected_transaction_reported_as_success :
    let plan : Plan (Broadcast String) String := ⟨10, fun _ => ⟨none, 5⟩, fun _ => none⟩
    submitBatch .reference plan 10 = ⟨[⟨none, 5⟩], some none⟩ ∧
      ¬ Reports (submitBatch .reference plan 10) := by
  refine ⟨by decide, ?_⟩
  intro hreports
  obtain ⟨broadcast, hmade, haccepted⟩ := hreports.nil_iff.1 (by decide)
  have hsame : broadcast = ⟨none, 5⟩ := List.mem_singleton.1 hmade
  rw [hsame] at haccepted
  exact absurd haccepted.2 (by decide)

/-- Two transport errors and then an accepted transaction. -/
theorem submitBatch_reports_iff_third_accepted : let plan : Plan (Broadcast String) String :=
      ⟨10, fun n => if n < 2 then ⟨some "timeout", 0⟩ else ⟨none, 0⟩, fun _ => none⟩
    Reports (submitBatch .reference plan 3) ∧ (submitBatch .reference plan 3).returned = some none ∧
      (submitBatch .reference plan 10).returned ≠ none := by
  refine ⟨(submitBatch_reports_iff .reference _).1.2 ?_ 3, by decide,
    (submitBatch_reports_iff .reference _).2 (by decide)⟩
  intro n _ _ _ hrejected
  by_cases hn : n < 2
  · simp [hn, Broadcast.Rejected] at hrejected
  · simp [hn, Broadcast.Rejected] at hrejected

end Dymint.Settlement
