import Dymint.Core.Procedure

/-!
# Systems that serve calls and crash

A system runs a boot procedure when its process starts and then serves calls one
after another.  Between any two atomic steps the process may crash, which maps
the state to what survives, and the next thing it can do is boot again.

`Certificate` packages the induction over all runs: what holds between calls,
what holds at every moment, and what holds while the process is down.
-/

namespace Dymint.CrashSystem

open Procedure

variable {σ ι ε κ : Type}

structure System (σ ι ε κ : Type) where
  boot : Proc σ ι ε Unit
  serve : κ → Proc σ ι ε Unit
  crash : σ → σ

/-- What the process is doing. -/
inductive Phase (σ ι ε : Type) where
  | down
  | booting (rest : Proc σ ι ε Unit)
  | idle
  | serving (rest : Proc σ ι ε Unit)

structure Config (σ ι ε : Type) where
  state : σ
  phase : Phase σ ι ε

/-- The moves of a run. -/
inductive Label (ι κ : Type) where
  | boot
  | call (request : κ)
  | step (answer : ι)
  | ret
  | crash

def System.step (system : System σ ι ε κ) : Config σ ι ε → Label ι κ → Option (Config σ ι ε)
  | ⟨state, .down⟩, .boot => some ⟨state, .booting system.boot⟩
  | ⟨state, .booting (.atom update next)⟩, .step answer =>
    some ⟨update answer state, .booting (next answer state)⟩
  | ⟨state, .booting (.done (.ok ()))⟩, .ret => some ⟨state, .idle⟩
  | ⟨state, .idle⟩, .call request =>
    some ⟨state, .serving (system.serve request)⟩
  | ⟨state, .serving (.atom update next)⟩, .step answer =>
    some ⟨update answer state, .serving (next answer state)⟩
  | ⟨state, .serving (.done (.ok ()))⟩, .ret => some ⟨state, .idle⟩
  | ⟨state, .serving (.done (.err _))⟩, .ret => some ⟨state, .idle⟩
  | ⟨state, _⟩, .crash => some ⟨system.crash state, .down⟩
  | _, _ => none

def System.run (system : System σ ι ε κ) : Config σ ι ε → List (Label ι κ) → Option (Config σ ι ε)
  | config, [] => some config
  | config, label :: labels => do
      let next ← system.step config label
      system.run next labels

/-- The moves that the environment of a run is restricted to. -/
structure Guard (σ ι κ : Type) where
  answer : σ → ι → Prop
  call : σ → κ → Prop
  crash : σ → Prop

/-- No restriction. -/
def Guard.none (σ ι κ : Type) : Guard σ ι κ where
  answer _ _ := True
  call _ _ := True
  crash _ := True

def Guard.Permits (guard : Guard σ ι κ) (state : σ) : Label ι κ → Prop
  | .step answer => guard.answer state answer
  | .call request => guard.call state request
  | .crash => guard.crash state
  | _ => True

def Guard.decidablePermits (guard : Guard σ ι κ) (state : σ)
    (answer : ∀ answer, Decidable (guard.answer state answer))
    (call : ∀ request, Decidable (guard.call state request))
    (crash : Decidable (guard.crash state)) (label : Label ι κ) :
    Decidable (guard.Permits state label) :=
  match label with
  | .step given => answer given
  | .call request => call request
  | .crash => crash
  | .boot | .ret => .isTrue trivial

theorem Guard.none_permits (state : σ) (label : Label ι κ) :
    (Guard.none σ ι κ).Permits state label := by
  cases label <;> trivial

/-- The configurations that guarded runs from `start` pass through. -/
inductive Reachable (system : System σ ι ε κ) (guard : Guard σ ι κ)
    (start : σ) : Config σ ι ε → Prop
  | start : Reachable system guard start ⟨start, .down⟩
  | move {config next : Config σ ι ε} {label : Label ι κ}
      (hconfig : Reachable system guard start config)
      (hguard : guard.Permits config.state label)
      (hstep : system.step config label = some next) :
      Reachable system guard start next

section

variable (system : System σ ι ε κ) (guard : Guard σ ι κ)
variable [∀ state label, Decidable (guard.Permits state label)]

def System.runGuarded : Config σ ι ε → List (Label ι κ) → Option (Config σ ι ε)
  | config, [] => some config
  | config, label :: labels =>
    if guard.Permits config.state label then do
      let next ← system.step config label
      System.runGuarded next labels
    else none

variable {system guard}

theorem reachable_of_runGuarded {start : σ} {config next : Config σ ι ε} (labels : List (Label ι κ))
    (hconfig : Reachable system guard start config)
    (hrun : system.runGuarded guard config labels = some next) :
    Reachable system guard start next := by
  induction labels generalizing config with
  | nil =>
    rw [System.runGuarded, Option.some.injEq] at hrun
    exact hrun ▸ hconfig
  | cons label labels ih =>
    rw [System.runGuarded, Option.ite_none_right_eq_some, Option.bind_eq_bind,
      Option.bind_eq_some_iff] at hrun
    obtain ⟨hpermits, middle, hstep, hrest⟩ := hrun
    exact ih (Reachable.move hconfig hpermits hstep) hrest

theorem exists_reachable_of_runGuarded {start : σ} (labels : List (Label ι κ)) {ν : Type}
    {view : Config σ ι ε → ν} {value : ν}
    (hrun : (system.runGuarded guard ⟨start, .down⟩ labels).map view = some value) :
    ∃ config, Reachable system guard start config ∧ view config = value := by
  obtain ⟨config, hconfig, hview⟩ := Option.map_eq_some_iff.1 hrun
  exact ⟨config, reachable_of_runGuarded labels .start hconfig, hview⟩

theorem runGuarded_eq_run (hpermits : ∀ state label, guard.Permits state label)
    (config : Config σ ι ε) (labels : List (Label ι κ)) :
    system.runGuarded guard config labels = system.run config labels := by
  induction labels generalizing config with
  | nil => rfl
  | cons label labels ih => simp only [System.runGuarded, System.run, hpermits, if_true, ih]

end

/-- Without a restriction, the runs need not be checked against it. -/
theorem exists_reachable_of_run {system : System σ ι ε κ} {start : σ} (labels : List (Label ι κ))
    {ν : Type} {view : Config σ ι ε → ν} {value : ν}
    (hrun : (system.run ⟨start, .down⟩ labels).map view = some value) :
    ∃ config, Reachable system (Guard.none σ ι κ) start config ∧ view config = value := by
  classical
  rw [← runGuarded_eq_run Guard.none_permits] at hrun
  exact exists_reachable_of_runGuarded labels hrun

def Guard.rules (guard : Guard σ ι κ) (always : σ → Prop) : Proc.Rules σ ι where
  allowed := guard.answer
  crash := always

/-- The proof obligations of an invariant: `idle` holds between calls, `always`
at every moment and `durable` while the process is down. -/
structure Certificate (system : System σ ι ε κ) (guard : Guard σ ι κ)
    (start : σ) (idle always durable : σ → Prop) : Prop where
  start : durable start
  always_of_durable : ∀ state, durable state → always state
  always_of_idle : ∀ state, idle state → always state
  crash : ∀ state, always state → guard.crash state → durable (system.crash state)
  boot : ∀ state, durable state →
    system.boot.wp (guard.rules always) (Proc.Ends (fun _ => idle) always always) state
  serve : ∀ state request, idle state → guard.call state request →
    (system.serve request).wp (guard.rules always) (Proc.Ends (fun _ => idle) idle always) state

def Holds (guard : Guard σ ι κ) (idle always durable : σ → Prop)
    (config : Config σ ι ε) : Prop :=
  match config.phase with
  | .down => durable config.state
  | .booting rest =>
    rest.wp (guard.rules always) (Proc.Ends (fun _ => idle) always always) config.state
  | .idle => idle config.state
  | .serving rest =>
    rest.wp (guard.rules always) (Proc.Ends (fun _ => idle) idle always) config.state

theorem Holds.always {guard : Guard σ ι κ} {idle always durable : σ → Prop}
    {system : System σ ι ε κ} {start : σ}
    (cert : Certificate system guard start idle always durable) {config : Config σ ι ε}
    (hholds : Holds guard idle always durable config) : always config.state := by
  obtain ⟨state, phase⟩ := config
  cases phase with
  | down => exact cert.always_of_durable state hholds
  | idle => exact cert.always_of_idle state hholds
  | booting rest =>
    apply Proc.wp_crash hholds
    intro result later hlater
    cases result with
    | ok value => exact cert.always_of_idle later hlater
    | err | panic => exact hlater
  | serving rest =>
    apply Proc.wp_crash hholds
    intro result later hlater
    cases result with
    | ok | err => exact cert.always_of_idle later hlater
    | panic => exact hlater

theorem Certificate.step {system : System σ ι ε κ} {guard : Guard σ ι κ} {start : σ}
    {idle always durable : σ → Prop} (cert : Certificate system guard start idle always durable)
    {config next : Config σ ι ε} {label : Label ι κ}
    (hholds : Holds guard idle always durable config) (hguard : guard.Permits config.state label)
    (hstep : system.step config label = some next) : Holds guard idle always durable next := by
  have halways := hholds.always cert
  unfold System.step at hstep
  split at hstep <;> simp only [Option.some.injEq, reduceCtorEq] at hstep <;>
    subst hstep
  · exact cert.boot _ hholds
  · exact hholds.2 _ hguard
  · exact hholds
  · exact cert.serve _ _ hholds hguard
  · exact hholds.2 _ hguard
  · exact hholds
  · exact hholds
  · exact cert.crash _ halways hguard

section

variable {config : Config σ ι ε} {guard : Guard σ ι κ} {start : σ} {system : System σ ι ε κ}
variable (hreach : Reachable system guard start config)

include hreach

theorem Certificate.holds
    {idle always durable : σ → Prop} (cert : Certificate system guard start idle always durable) :
    Holds guard idle always durable config := by
  induction hreach with
  | start => exact cert.start
  | move _ hguard hstep ih => exact cert.step ih hguard hstep

theorem Certificate.sound
    {idle always durable : σ → Prop} (cert : Certificate system guard start idle always durable)
     : always config.state :=
  (cert.holds hreach).always cert

end

end Dymint.CrashSystem
