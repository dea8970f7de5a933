import Mathlib.Order.Nat

/-!
# Retried calls

A call is made again until it succeeds, until the number of attempts is used up, or until
its context is done; with the number 0 there is no last attempt.  The attempts that are
made are part of the result, so that it can be compared with what they met.
-/

namespace Dymint.Retry

variable {ρ ε : Type}

structure Plan (ρ ε : Type) where
  attempts : ℕ
  outcome : ℕ → ρ
  done : ℕ → Option ε

/-- The outcomes of the attempts made so far, and the returned error: `none` while the
call is going on, `some none` for success. -/
structure Run (ρ ε : Type) where
  made : List ρ
  returned : Option (Option ε)
  deriving DecidableEq

section

variable (plan : Plan ρ ε) (toErr : ρ → Option ε)

/-- The attempt with the number `n`; `rest` is what comes after it. -/
def attempt (n : ℕ) (rest : Run ρ ε) : Run ρ ε :=
  match plan.done n with
  | some err => ⟨[], some (some err)⟩
  | none =>
    match toErr (plan.outcome n) with
    | none => ⟨[plan.outcome n], some none⟩
    | some err =>
      -- the last attempt is not followed by a wait
      if n + 1 = plan.attempts then ⟨[plan.outcome n], some (some err)⟩
      else ⟨plan.outcome n :: rest.made, rest.returned⟩

/-- At most `fuel` attempts, the first of which has the number `n`. -/
def retryFrom : ℕ → ℕ → Run ρ ε
  | 0, _ => ⟨[], none⟩
  | fuel + 1, n => attempt plan toErr n (retryFrom fuel (n + 1))

structure Attempted (start n : ℕ) : Prop where
  exists_attempt : plan.attempts = 0 ∨ n < plan.attempts
  failed : ∀ m, start ≤ m → m < n → toErr (plan.outcome m) ≠ none
  not_done : ∀ m, start ≤ m → m ≤ n → plan.done m = none

end

/-- A retrying function, given by what its documentation says of each attempt. -/
structure Retrier (ρ ε : Type) where
  retry : Plan ρ ε → (ρ → Option ε) → ℕ → ℕ → Run ρ ε
  retry_zero : ∀ plan toErr n, retry plan toErr 0 n = ⟨[], none⟩
  retry_succ : ∀ plan toErr fuel n,
    retry plan toErr (fuel + 1) n = attempt plan toErr n (retry plan toErr fuel (n + 1))

def Retrier.reference : Retrier ρ ε where
  retry := retryFrom
  retry_zero _ _ _ := rfl
  retry_succ _ _ _ _ := rfl

variable {retrier : Retrier ρ ε} {plan : Plan ρ ε} {toErr : ρ → Option ε}

/-! ## One attempt -/

section

variable {fuel n : ℕ} {err : ε}

theorem retry_done (hdone : plan.done n = some err) :
    retrier.retry plan toErr (fuel + 1) n = ⟨[], some (some err)⟩ := by
  rw [retrier.retry_succ, attempt, hdone]

theorem retry_success (hdone : plan.done n = none) (herr : toErr (plan.outcome n) = none) :
    retrier.retry plan toErr (fuel + 1) n = ⟨[plan.outcome n], some none⟩ := by
  rw [retrier.retry_succ, attempt, hdone]
  dsimp only
  rw [herr]

theorem retry_last (hdone : plan.done n = none) (herr : toErr (plan.outcome n) = some err)
    (hlast : n + 1 = plan.attempts) :
    retrier.retry plan toErr (fuel + 1) n = ⟨[plan.outcome n], some (some err)⟩ := by
  rw [retrier.retry_succ, attempt, hdone]
  dsimp only
  rw [herr]
  exact if_pos hlast

theorem retry_next (hdone : plan.done n = none) (herr : toErr (plan.outcome n) = some err)
    (hlast : n + 1 ≠ plan.attempts) :
    retrier.retry plan toErr (fuel + 1) n =
      ⟨plan.outcome n :: (retrier.retry plan toErr fuel (n + 1)).made,
        (retrier.retry plan toErr fuel (n + 1)).returned⟩ := by
  rw [retrier.retry_succ, attempt, hdone]
  dsimp only
  rw [herr]
  exact if_neg hlast

end

/-! ## The whole call -/

variable {start : ℕ}

/-- The attempts from `start` on are the one with this number and those after it. -/
theorem attempted_iff {n : ℕ} (hle : start ≤ n) : Attempted plan toErr start n ↔
      plan.done start = none ∧ (plan.attempts = 0 ∨ n < plan.attempts) ∧
        (n = start ∨ toErr (plan.outcome start) ≠ none ∧ start + 1 ≤ n ∧
          Attempted plan toErr (start + 1) n) := by
  constructor
  · rintro ⟨hattempt, hfailed, hdone⟩
    refine ⟨hdone start le_rfl hle, hattempt, ?_⟩
    rcases hle.eq_or_lt with rfl | hlt
    · exact .inl rfl
    · exact .inr ⟨hfailed start le_rfl hlt, hlt, hattempt,
        fun m hm => hfailed m (Nat.le_of_succ_le hm),
        fun m hm => hdone m (Nat.le_of_succ_le hm)⟩
  · rintro ⟨hdone, hattempt, rfl | ⟨hfailed, _, hrest⟩⟩
    · refine ⟨hattempt, fun m hm hlt => absurd hm (not_le.2 hlt), fun m hm hmn => ?_⟩
      rw [le_antisymm hmn hm, hdone]
    · refine ⟨hattempt, fun m hm hlt => ?_, fun m hm hmn => ?_⟩
      · rcases hm.eq_or_lt with rfl | hm
        · exact hfailed
        · exact hrest.failed m hm hlt
      · rcases hm.eq_or_lt with rfl | hm
        · exact hdone
        · exact hrest.not_done m hm hmn

/-- The outcomes that a call meets. -/
theorem mem_made_iff {fuel : ℕ} {outcome : ρ} (hstart : plan.attempts = 0 ∨ start < plan.attempts) :
    outcome ∈ (retrier.retry plan toErr fuel start).made ↔
      ∃ n, start ≤ n ∧ n < start + fuel ∧ Attempted plan toErr start n ∧
        plan.outcome n = outcome := by
  induction fuel generalizing start with
  | zero =>
    simp only [retrier.retry_zero, List.not_mem_nil, false_iff]
    rintro ⟨n, hle, hlt, _⟩
    omega
  | succ fuel ih =>
    have hsplit : (∃ n, start ≤ n ∧ n < start + (fuel + 1) ∧
        Attempted plan toErr start n ∧ plan.outcome n = outcome) ↔
        plan.done start = none ∧ (plan.outcome start = outcome ∨
          toErr (plan.outcome start) ≠ none ∧ ∃ n, start + 1 ≤ n ∧
            n < start + 1 + fuel ∧ Attempted plan toErr (start + 1) n ∧
            plan.outcome n = outcome) := by
      constructor
      · rintro ⟨n, hle, hlt, hn, hout⟩
        obtain ⟨hdone, _, rfl | ⟨hfailed, hle', hrest⟩⟩ := (attempted_iff hle).1 hn
        · exact ⟨hdone, .inl hout⟩
        · exact ⟨hdone, .inr ⟨hfailed, n, hle', by omega, hrest, hout⟩⟩
      · rintro ⟨hdone, hout | ⟨hfailed, n, hle, hlt, hrest, hout⟩⟩
        · exact ⟨start, le_rfl, by omega, (attempted_iff le_rfl).2 ⟨hdone, hstart, .inl rfl⟩, hout⟩
        · exact ⟨n, by omega, by omega, (attempted_iff (by omega)).2
            ⟨hdone, hrest.exists_attempt, .inr ⟨hfailed, hle, hrest⟩⟩, hout⟩
    rw [hsplit]
    cases hdone : plan.done start with
    | some err => simp [retry_done hdone]
    | none =>
      cases herr : toErr (plan.outcome start) with
      | none => simp [retry_success hdone herr, eq_comm]
      | some err =>
        by_cases hlast : start + 1 = plan.attempts
        · -- there is no attempt after the last one
          have hnone : ¬ ∃ n, start + 1 ≤ n ∧ n < start + 1 + fuel ∧
              Attempted plan toErr (start + 1) n ∧ plan.outcome n = outcome := by
            rintro ⟨n, hle, _, hn, _⟩
            have hattempt := hn.exists_attempt
            omega
          rw [retry_last hdone herr hlast, List.mem_singleton]
          simp only [hnone, and_false, or_false, true_and]
          exact eq_comm
        · have hnext : start + 1 < plan.attempts ∨ plan.attempts = 0 := by omega
          rw [retry_next hdone herr hlast, List.mem_cons, ih hnext.symm]
          simp only [ne_eq, reduceCtorEq, not_false_eq_true, true_and]
          exact or_congr_left eq_comm

/-- A call succeeds if and only if one of its attempts does. -/
theorem returned_nil_iff (fuel start : ℕ) :
    (retrier.retry plan toErr fuel start).returned = some none ↔
      ∃ outcome ∈ (retrier.retry plan toErr fuel start).made, toErr outcome = none := by
  induction fuel generalizing start with
  | zero => simp [retrier.retry_zero]
  | succ fuel ih =>
    cases hdone : plan.done start with
    | some err => simp [retry_done hdone]
    | none =>
      cases herr : toErr (plan.outcome start) with
      | none => simp [retry_success hdone herr, herr]
      | some err =>
        by_cases hlast : start + 1 = plan.attempts
        · simp [retry_last hdone herr hlast, herr]
        · simp [retry_next hdone herr hlast, herr, ih]

theorem returned_ne_none {fuel : ℕ} (hstart : start < plan.attempts)
    (hfuel : plan.attempts ≤ start + fuel) :
    (retrier.retry plan toErr fuel start).returned ≠ none := by
  induction fuel generalizing start with
  | zero => omega
  | succ fuel ih =>
    cases hdone : plan.done start with
    | some err => simp [retry_done hdone]
    | none =>
      cases herr : toErr (plan.outcome start) with
      | none => simp [retry_success hdone herr]
      | some err =>
        by_cases hlast : start + 1 = plan.attempts
        · simp [retry_last hdone herr hlast]
        · rw [retry_next hdone herr hlast]
          exact ih (by omega) (by omega)

end Dymint.Retry
