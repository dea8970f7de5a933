import Dymint.Core.CrashSystem

/-!
# What single moves do

A procedure respects a relation if every step of every run of it relates the
states before and after that step.  Unlike `Follows`, which quantifies over the
state at every step anew, the run is followed from its first state, so that what
a procedure has read is still known when it writes.  A system whose procedures
respect a relation respects it in every move of every run.
-/

namespace Dymint.Procedure.Proc

variable {σ ι ε α β : Type}

/-- Every step of every run from the state relates the states before and after
it, and what the procedure returns satisfies `returns`. -/
def Respects (rel : σ → σ → Prop) (returns : α → Prop) : Proc σ ι ε α → σ → Prop
  | done (.ok value), _ => returns value
  | done _, _ => True
  | atom update next, state =>
    ∀ answer, rel state (update answer state) ∧
      (next answer state).Respects rel returns (update answer state)

variable {rel : σ → σ → Prop} {returns : α → Prop} {returns' : β → Prop}
variable {state : σ}

variable {proc : Proc σ ι ε α}

variable {rest : α → Proc σ ι ε β}

theorem Respects.bind (hproc : proc.Respects rel returns state)
    (hrest : ∀ value later, returns value → (rest value).Respects rel returns' later) :
    (proc >>= rest).Respects rel returns' state := by
  change (proc.bind rest).Respects rel returns' state
  induction proc generalizing state with
  | done result =>
    cases result with
    | ok value => exact hrest value state hproc
    | err | panic => trivial
  | atom update next ih =>
    intro answer
    exact ⟨(hproc answer).1, ih answer state (hproc answer).2⟩

theorem respects_read_bind {project : σ → α} (hrefl : rel state state)
    (hrest : (rest (project state)).Respects rel returns' state) :
    (read project >>= rest).Respects rel returns' state :=
  fun _ => ⟨hrefl, hrest⟩

theorem Respects.attempt (hproc : proc.Respects rel returns state) :
    proc.attempt.Respects rel (fun _ => True) state := by
  induction proc generalizing state with
  | done result => cases result <;> trivial
  | atom update next ih =>
    intro answer
    exact ⟨(hproc answer).1, ih answer state (hproc answer).2⟩

theorem Follows.respects_of {rel' : σ → σ → Prop} (hproc : proc.Follows rel' returns)
    (invariant : σ → Prop)
    (hstep : ∀ before after, invariant before → rel' before after → rel before after ∧ invariant
      after) (hstate : invariant state) : proc.Respects rel returns state := by
  induction proc generalizing state with
  | done result => cases result <;> exact hproc
  | atom update next ih =>
    intro answer
    obtain ⟨hfirst, hrest⟩ := hproc answer state
    obtain ⟨hrel, hlater⟩ := hstep state (update answer state) hstate hfirst
    exact ⟨hrel, ih answer state hrest hlater⟩

theorem Follows.respects (hproc : proc.Follows rel returns) (state : σ) :
    proc.Respects rel returns state :=
  Follows.respects_of hproc (fun _ => True) (fun _ _ _ hrel => ⟨hrel, trivial⟩) trivial

end Dymint.Procedure.Proc

namespace Dymint.CrashSystem

open Procedure

variable {σ ι ε κ : Type} {system : System σ ι ε κ} {guard : Guard σ ι κ}
variable {start : σ} {rel : σ → σ → Prop}

def RespectsRest (rel : σ → σ → Prop) (config : Config σ ι ε) : Prop :=
  match config.phase with
  | .booting rest | .serving rest =>
    rest.Respects rel (fun _ => True) config.state
  | _ => True

structure System.Respects (system : System σ ι ε κ) (rel : σ → σ → Prop) :
    Prop where
  refl : ∀ state, rel state state
  boot : ∀ state, system.boot.Respects rel (fun _ => True) state
  serve : ∀ request state, (system.serve request).Respects rel (fun _ => True) state
  crash : ∀ state, rel state (system.crash state)

variable {config : Config σ ι ε}

variable {next : Config σ ι ε} {label : Label ι κ}

theorem System.Respects.step (hsystem : system.Respects rel) (hconfig : RespectsRest rel config)
    (hstep : system.step config label = some next) :
    rel config.state next.state ∧ RespectsRest rel next := by
  unfold System.step at hstep
  split at hstep <;> simp only [Option.some.injEq, reduceCtorEq] at hstep <;>
    subst hstep
  · exact ⟨hsystem.refl _, hsystem.boot _⟩
  · exact hconfig _
  · exact ⟨hsystem.refl _, trivial⟩
  · exact ⟨hsystem.refl _, hsystem.serve _ _⟩
  · exact hconfig _
  · exact ⟨hsystem.refl _, trivial⟩
  · exact ⟨hsystem.refl _, trivial⟩
  · exact ⟨hsystem.crash _, trivial⟩

theorem System.Respects.rest (hsystem : system.Respects rel)
    (hreach : Reachable system guard start config) : RespectsRest rel config := by
  induction hreach with
  | start => trivial
  | move _ _ hstep ih => exact (hsystem.step ih hstep).2

theorem System.Respects.move (hsystem : system.Respects rel)
    (hreach : Reachable system guard start config)
    (hstep : system.step config label = some next) : rel config.state next.state :=
  (hsystem.step (hsystem.rest hreach) hstep).1

end Dymint.CrashSystem
