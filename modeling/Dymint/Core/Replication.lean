import Mathlib.Data.Nat.Notation

/-!
# Replicated machines

A machine that takes one command after another, of which it accepts at most one
in each of its states.  Wherever the commands come from and in whatever order
they are tried, the number of accepted commands determines the state.
-/

namespace Dymint.Replication

variable {ρ κ : Type*}

structure Machine (ρ κ : Type*) where
  start : ρ
  accepts : ρ → κ → Prop
  next : ρ → κ → ρ

namespace Machine

inductive Reaches (machine : Machine ρ κ) : ℕ → ρ → Prop
  | start : Reaches machine 0 machine.start
  | step {count : ℕ} {state : ρ} {command : κ}
      (hstate : Reaches machine count state)
      (haccepts : machine.accepts state command) :
      Reaches machine (count + 1) (machine.next state command)

/-- A state accepts at most one command. -/
def Determined (machine : Machine ρ κ) : Prop :=
  ∀ state command command', machine.accepts state command →
    machine.accepts state command' → command = command'

/-- Two replicas that have counted as many commands agree. -/
theorem Reaches.unique {machine : Machine ρ κ} (hdet : machine.Determined) {count : ℕ}
    {state state' : ρ} (hstate : machine.Reaches count state)
    (hstate' : machine.Reaches count state') : state = state' := by
  induction count generalizing state state' with
  | zero =>
    cases hstate
    cases hstate'
    rfl
  | succ count ih =>
    cases hstate with
    | @step _ before command hbefore haccepts =>
      cases hstate' with
      | @step _ before' command' hbefore' haccepts' =>
        obtain rfl := ih hbefore hbefore'
        rw [hdet before command command' haccepts haccepts']

theorem Reaches.measure {machine : Machine ρ κ} (measure : ρ → ℕ)
    (hstart : measure machine.start = 0)
    (hnext : ∀ state command, machine.accepts state command → measure (machine.next state command) =
      measure state + 1) {count : ℕ} {state : ρ} (hstate : machine.Reaches count state) :
    measure state = count := by
  induction hstate with
  | start => exact hstart
  | step _ haccepts ih => rw [hnext _ _ haccepts, ih]

end Machine

end Dymint.Replication
