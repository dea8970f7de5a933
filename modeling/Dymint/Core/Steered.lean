import Dymint.Core.CrashSystem
import Dymint.Core.Runs

/-!
# Conditions on the moves of a system

What a run of a system is restricted to may depend on what the process is about to do:
one call may fail where another one may not, and a crash may be ruled out in the middle
of a procedure.  Such a condition sees the whole configuration.

`wpAt` is the weakest precondition under a condition on what is left of the procedure.
Where the condition does not look at that, it follows from `wp`.
-/

namespace Dymint.Procedure.Proc

variable {σ ι ε α β : Type}

/-- Started in `state`, the procedure ends with `post` whatever it is answered that the
condition allows for what is left of it, and `crash` holds before each of its steps. -/
def wpAt (allowed : Proc σ ι ε α → σ → ι → Prop) (crash : σ → Prop) :
    Proc σ ι ε α → (Result ε α → σ → Prop) → σ → Prop
  | done result, post, state => post result state
  | atom update next, post, state =>
    crash state ∧ ∀ answer, allowed (atom update next) state answer →
      (next answer state).wpAt allowed crash post (update answer state)

variable {allowed : Proc σ ι ε β → σ → ι → Prop} {crash : σ → Prop}
variable {rules : Rules σ ι} {post : Result ε β → σ → Prop} {state : σ}

theorem wpAt_of_wp {proc : Proc σ ι ε β} (hproc : proc.wp rules post state)
    (hallowed : ∀ rest state answer, allowed rest state answer → rules.allowed state answer)
    (hcrash : ∀ state, rules.crash state → crash state) : proc.wpAt allowed crash post state := by
  induction proc generalizing state with
  | done result => exact hproc
  | atom update next ih =>
    refine ⟨hcrash state hproc.1, fun answer hanswer => ?_⟩
    exact ih answer state (hproc.2 answer (hallowed _ state answer hanswer))

/-- The first part of a composition may be verified by itself if it does not depend on
the condition. -/
theorem wpAt_bind {proc : Proc σ ι ε α} {rest : α → Proc σ ι ε β} {returned : α → σ → Prop}
    {failed panicked : σ → Prop}
    (hproc : proc.wp (.anyAnswer ι crash) (Ends returned failed panicked) state)
    (hrest : ∀ value later, returned value later → (rest value).wpAt allowed crash post later)
    (hfailed : ∀ error later, failed later → post (.err error) later)
    (hpanicked : ∀ later, panicked later → post .panic later) :
    (proc >>= rest).wpAt allowed crash post state := by
  change (proc.bind rest).wpAt allowed crash post state
  induction proc generalizing state with
  | done result =>
    cases result with
    | ok value => exact hrest value state hproc
    | err error => exact hfailed error state hproc
    | panic => exact hpanicked state hproc
  | atom update next ih =>
    refine ⟨hproc.1, fun answer _ => ?_⟩
    exact ih answer state (hproc.2 answer trivial)

theorem wpAt_read_bind {project : σ → α} {rest : α → Proc σ ι ε β} (hcrash : crash state)
    (hrest : (rest (project state)).wpAt allowed crash post state) :
    (read project >>= rest).wpAt allowed crash post state :=
  ⟨hcrash, fun _ _ => hrest⟩

theorem wpAt_crash {proc : Proc σ ι ε β} (hproc : proc.wpAt allowed crash post state)
    (hpost : ∀ result later, post result later → crash later) : crash state := by
  cases proc with
  | done result => exact hpost result state hproc
  | atom update next => exact hproc.1

end Dymint.Procedure.Proc

namespace Dymint.CrashSystem

open Procedure Runs

variable {σ ι ε κ : Type}

def System.lts (system : System σ ι ε κ) (start : σ) : Lts (Config σ ι ε) (Label ι κ) where
  start := ⟨start, .down⟩
  step := system.step

abbrev Condition (σ ι ε κ : Type) := Config σ ι ε → Label ι κ → Prop

section

variable (system : System σ ι ε κ) (condition : Condition σ ι ε κ)
variable (start : σ) (idle always durable : σ → Prop)

abbrev SteeredBoot (rest : Proc σ ι ε Unit) (state : σ) : Prop :=
  rest.wpAt (fun rest state answer => condition ⟨state, .booting rest⟩ (.step answer))
    always (Proc.Ends (fun _ => idle) always always) state

abbrev SteeredCall (rest : Proc σ ι ε Unit) (state : σ) : Prop :=
  rest.wpAt (fun rest state answer => condition ⟨state, .serving rest⟩ (.step answer))
    always (Proc.Ends (fun _ => idle) idle always) state

/-- The proof obligations of an invariant, as in `Certificate`. -/
structure Steered : Prop where
  start : durable start
  always_of_durable : ∀ state, durable state → always state
  always_of_idle : ∀ state, idle state → always state
  crash : ∀ config : Config σ ι ε, always config.state → condition config .crash →
    durable (system.crash config.state)
  boot : ∀ state, durable state → SteeredBoot condition idle always system.boot state
  serve : ∀ state request, idle state → condition ⟨state, .idle⟩ (.call request) →
    SteeredCall condition idle always (system.serve request) state

def SteeredHolds (config : Config σ ι ε) : Prop :=
  match config.phase with
  | .down => durable config.state
  | .booting rest => SteeredBoot condition idle always rest config.state
  | .idle => idle config.state
  | .serving rest => SteeredCall condition idle always rest config.state

variable {system condition start idle always durable} {config next : Config σ ι ε}

section

variable (hsteered : Steered system condition start idle always durable)

include hsteered

theorem Steered.at_all_times
    (hholds : SteeredHolds condition idle always durable config) : always config.state := by
  obtain ⟨state, phase⟩ := config
  cases phase with
  | down => exact hsteered.always_of_durable state hholds
  | idle => exact hsteered.always_of_idle state hholds
  | booting rest =>
    apply Proc.wpAt_crash hholds
    intro result later hlater
    cases result with
    | ok value => exact hsteered.always_of_idle later hlater
    | err | panic => exact hlater
  | serving rest =>
    apply Proc.wpAt_crash hholds
    intro result later hlater
    cases result with
    | ok | err => exact hsteered.always_of_idle later hlater
    | panic => exact hlater

theorem Steered.step
    {label : Label ι κ} (hholds : SteeredHolds condition idle always durable config)
    (hcondition : condition config label) (hstep : system.step config label = some next) :
    SteeredHolds condition idle always durable next := by
  have halways := hsteered.at_all_times hholds
  unfold System.step at hstep
  split at hstep <;> simp only [Option.some.injEq, reduceCtorEq] at hstep <;>
    subst hstep
  · exact hsteered.boot _ hholds
  · exact hholds.2 _ hcondition
  · exact hholds
  · exact hsteered.serve _ _ hholds hcondition
  · exact hholds.2 _ hcondition
  · exact hholds
  · exact hholds
  · exact hsteered.crash _ halways hcondition

/-- The invariant holds throughout every run whose moves meet the condition. -/
theorem Steered.forall_path {labels : List (Label ι κ)}
    (hcondition : ∀ move ∈ (system.lts start).path (system.lts start).start labels, condition
      move.source move.label) :
    ∀ move ∈ (system.lts start).path (system.lts start).start labels, always move.target.state := by
  have hstep (config : Config σ ι ε) (label : Label ι κ) (next : Config σ ι ε)
      (hholds : SteeredHolds condition idle always durable config)
      (hlabel : condition config label)
      (hnext : (system.lts start).step config label = some next) :
      SteeredHolds condition idle always durable next :=
    hsteered.step hholds hlabel hnext
  have hstart : SteeredHolds condition idle always durable
      (system.lts start).start := hsteered.start
  intro move hmove
  exact hsteered.at_all_times (Lts.forall_path_of_guard hstep hstart hcondition move hmove).2.2

end

end

end Dymint.CrashSystem
