import Mathlib.Data.Nat.Notation

/-!
# Machines that answer commands

Two machines with the same commands and the same replies.  If a relation between
their states is kept by every command that is admitted, and related states reply
alike, then no sequence of such commands tells the machines apart.
-/

namespace Dymint.Simulation

variable {σ τ κ ρ : Type*}

structure Machine (σ κ ρ : Type*) where
  step : σ → κ → σ × ρ

def Machine.replies (machine : Machine σ κ ρ) : σ → List κ → List ρ
  | _, [] => []
  | state, command :: commands =>
    (machine.step state command).2 :: machine.replies (machine.step state command).1 commands

def Machine.after (machine : Machine σ κ ρ) : σ → List κ → σ :=
  List.foldl fun state command => (machine.step state command).1

/-- Every admitted command keeps the relation and is answered alike. -/
structure Simulates (concrete : Machine σ κ ρ) (abstract : Machine τ κ ρ)
    (admits : κ → Prop) (rel : σ → τ → Prop) : Prop where
  step : ∀ state contents command, rel state contents → admits command →
    rel (concrete.step state command).1 (abstract.step contents command).1
  reply : ∀ state contents command, rel state contents → admits command →
    (concrete.step state command).2 = (abstract.step contents command).2

variable {concrete : Machine σ κ ρ} {abstract : Machine τ κ ρ}
variable {admits : κ → Prop} {rel : σ → τ → Prop}

theorem Simulates.replies_eq (hsim : Simulates concrete abstract admits rel) {state : σ}
    {contents : τ} (hrel : rel state contents) {commands : List κ}
    (hcommands : ∀ command ∈ commands, admits command) :
    concrete.replies state commands = abstract.replies contents commands := by
  induction commands generalizing state contents with
  | nil => rfl
  | cons command commands ih =>
    rw [List.forall_mem_cons] at hcommands
    have hnext := hsim.step state contents command hrel hcommands.1
    have hreply := hsim.reply state contents command hrel hcommands.1
    rw [Machine.replies, Machine.replies, hreply, ih hnext hcommands.2]

end Dymint.Simulation
