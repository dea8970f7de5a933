import Dymint.Core.Procedure

/-!
# Runs with a single fault

One step of a procedure gets the answer `fault`, and all the others get `fine`.
`afterFault` is the weakest precondition for it: whichever step it is, the
postcondition holds at the end.  It is exact, so that it also says which faults
lead to a bad end.
-/

namespace Dymint.Procedure.Proc

variable {σ ι ε α β : Type}

/-- The answers of a run in which step number `point` gets another one. -/
def failAt (fine fault : ι) (point : ℕ) : ℕ → ι := fun step => if step = point then fault else fine

def EndsIn (post : Result ε α → σ → Prop) (outcome : σ × Result ε α) : Prop :=
  post outcome.2 outcome.1

/-- The run without a fault. -/
def execFine (fine : ι) (proc : Proc σ ι ε α) (state : σ) : σ × Result ε α :=
  proc.exec (fun _ => fine) state

/-- Whichever single step gets the answer `fault`, the procedure ends with `post`. -/
def afterFault (fine fault : ι) : Proc σ ι ε α → (Result ε α → σ → Prop) → σ → Prop
  | done _, _, _ => True
  | atom update next, post, state =>
    EndsIn post ((next fault state).execFine fine (update fault state)) ∧
      (next fine state).afterFault fine fault post (update fine state)

variable {fine fault : ι}

variable {proc : Proc σ ι ε α} {state : σ}

/-- `afterFault` covers all runs with at most one fault. -/
theorem forall_failAt_iff {post : Result ε α → σ → Prop} :
    (∀ point, EndsIn post (proc.exec (failAt fine fault point) state)) ↔
      EndsIn post (proc.execFine fine state) ∧ proc.afterFault fine fault post state := by
  induction proc generalizing state with
  | done result =>
    constructor
    · intro hall
      exact ⟨hall 0, trivial⟩
    · rintro ⟨hfine, -⟩ point
      exact hfine
  | atom update next ih =>
    have hfirst : (atom update next).exec (failAt fine fault 0) state =
        (next fault state).execFine fine (update fault state) := by
      have hanswers : (fun step => failAt fine fault 0 (step + 1)) = fun _ => fine := by
        funext step
        exact if_neg (Nat.succ_ne_zero step)
      rw [exec, hanswers]
      rfl
    have hlater (point : ℕ) : (atom update next).exec (failAt fine fault (point + 1)) state =
        (next fine state).exec (failAt fine fault point) (update fine state) := by
      have hanswers : (fun step => failAt fine fault (point + 1) (step + 1)) =
          failAt fine fault point := by
        funext step
        simp [failAt]
      rw [exec, hanswers]
      rfl
    have hnext := @ih fine state (update fine state)
    constructor
    · intro hall
      have hrest := hnext.1 fun point => hlater point ▸ hall (point + 1)
      exact ⟨hrest.1, hfirst ▸ hall 0, hrest.2⟩
    · rintro ⟨hfine, hfault, hrest⟩ point
      cases point with
      | zero =>
        rw [hfirst]
        exact hfault
      | succ point =>
        rw [hlater]
        exact hnext.2 ⟨hfine, hrest⟩ point

/-! ## Composition -/

theorem execFine_bind (proc : Proc σ ι ε α) (rest : α → Proc σ ι ε β) (state : σ) :
    (proc >>= rest).execFine fine state =
      match proc.execFine fine state with
      | (later, .ok value) => (rest value).execFine fine later
      | (later, .err error) => (later, .err error)
      | (later, .panic) => (later, .panic) := by
  change (proc.bind rest).exec _ state = _
  induction proc generalizing state with
  | done result => cases result <;> rfl
  | atom update next ih => exact ih fine state (update fine state)

end Dymint.Procedure.Proc
