import Dymint.Core.Runs

/-!
# Threads on a shared state

A program says what one step from each of its points does to the shared state and
which point is next.  Any number of threads run it; their steps interleave
freely.

`Certificate` proves an invariant of all such runs: an assertion at each point
holds of the thread that is there, and the steps of the other threads do not
disturb it.  Some points may form a window that the threads enter one at a time;
then only threads outside of it can be disturbed by what is done inside.
-/

namespace Dymint.Threads

open Runs

structure Program (σ ι τ : Type*) where
  step : τ → ι → σ → Option (σ × τ)
  /-- The points at which a call begins. -/
  entry : τ → Bool
  /-- The points at which a thread takes a new call. -/
  free : τ → Bool

structure Config (σ τ : Type*) where
  state : σ
  point : ℕ → τ

inductive Label (ι τ : Type*) where
  | call (thread : ℕ) (entry : τ)
  | step (thread : ℕ) (answer : ι)

variable {σ ι τ : Type*}

def Label.thread : Label ι τ → ℕ
  | .call thread _ => thread
  | .step thread _ => thread

namespace Program

def move (program : Program σ ι τ) (config : Config σ τ) : Label ι τ → Option (Config σ τ)
  | .call thread entry =>
    if program.free (config.point thread) && program.entry entry then
      some { config with point := Function.update config.point thread entry }
    else none
  | .step thread answer =>
    (program.step (config.point thread) answer config.state).map fun next =>
      ⟨next.1, Function.update config.point thread next.2⟩

/-- All threads start at `idle`. -/
def lts (program : Program σ ι τ) (state : σ) (idle : τ) : Lts (Config σ τ) (Label ι τ) where
  start := ⟨state, fun _ => idle⟩
  step := program.move

end Program

theorem Program.point_eq_idle (program : Program σ ι τ) (state : σ) (idle : τ)
    {labels : List (Label ι τ)} {bound : ℕ} (hlabels : ∀ label ∈ labels, label.thread < bound) :
    ∀ move ∈ (program.lts state idle).path ⟨state, fun _ => idle⟩ labels,
      ∀ thread, bound ≤ thread → move.source.point thread = idle := by
  have hstep (config : Config σ τ) (label : Label ι τ) (next : Config σ τ)
      (hconfig : ∀ thread, bound ≤ thread → config.point thread = idle)
      (hlabel : label.thread < bound)
      (hmove : (program.lts state idle).step config label = some next) :
      ∀ thread, bound ≤ thread → next.point thread = idle := by
    intro thread hthread
    have hne : thread ≠ label.thread := by omega
    cases label with
    | call called entry =>
      have hnext := (Option.ite_none_right_eq_some.1 hmove).2
      obtain rfl := Option.some.inj hnext
      exact (Function.update_of_ne hne _ _).trans (hconfig thread hthread)
    | step stepped answer =>
      obtain ⟨after, -, rfl⟩ := Option.map_eq_some_iff.1 hmove
      exact (Function.update_of_ne hne _ _).trans (hconfig thread hthread)
  intro move hmove
  exact (Lts.forall_path_of_guard hstep (fun _ _ => rfl)
    (fun move hmove => hlabels move.label (Lts.label_mem_of_mem_path hmove))
    move hmove).1

/-- The proof obligations: `inv` is kept by every step, `holds` is established at
each point, the window is entered by one thread at a time, and the assertions of
the other threads survive. -/
structure Certificate (program : Program σ ι τ)
    (guard : Config σ τ → Label ι τ → Prop) (inv : σ → Prop)
    (holds : τ → σ → Prop) (window : τ → Prop) : Prop where
  call : ∀ config thread entry, inv config.state →
    guard config (.call thread entry) → program.entry entry = true →
    holds entry config.state ∧ ¬ window entry
  step : ∀ config thread answer next, inv config.state → holds (config.point thread) config.state →
    guard config (.step thread answer) →
    program.step (config.point thread) answer config.state = some next →
    inv next.1 ∧ holds next.2 next.1 ∧
      (window next.2 → ∀ other, other ≠ thread → ¬ window (config.point other))
  others : ∀ config thread answer next point, inv config.state →
    holds (config.point thread) config.state →
    guard config (.step thread answer) →
    program.step (config.point thread) answer config.state = some next →
    holds point config.state →
    (window (config.point thread) → ¬ window point) → holds point next.1

/-- What a certificate establishes. -/
structure Holds (inv : σ → Prop) (holds : τ → σ → Prop) (window : τ → Prop)
    (config : Config σ τ) : Prop where
  inv : inv config.state
  holds : ∀ thread, holds (config.point thread) config.state
  exclusive : ∀ thread other, thread ≠ other →
    window (config.point thread) → ¬ window (config.point other)

variable {program : Program σ ι τ} {guard : Config σ τ → Label ι τ → Prop}
variable {inv : σ → Prop} {holds : τ → σ → Prop} {window : τ → Prop}

theorem Certificate.move (cert : Certificate program guard inv holds window)
    {config next : Config σ τ} {label : Label ι τ} (hconfig : Holds inv holds window config)
    (hguard : guard config label) (hmove : program.move config label = some next) :
    Holds inv holds window next := by
  cases label with
  | call thread entry =>
    rw [Program.move, Option.ite_none_right_eq_some, Bool.and_eq_true] at hmove
    obtain ⟨⟨-, hentry⟩, hnext⟩ := hmove
    obtain rfl := Option.some.inj hnext
    obtain ⟨hholds, hwindow⟩ := cert.call config thread entry hconfig.inv hguard hentry
    constructor
    · exact hconfig.inv
    · intro other
      by_cases hother : other = thread
      · subst hother
        simpa using hholds
      · simpa [Function.update_of_ne hother] using hconfig.holds other
    · intro first second hne hfirst
      by_cases hsame : first = thread
      · subst hsame
        simp only [Function.update_self] at hfirst
        exact absurd hfirst hwindow
      · simp only [Function.update_of_ne hsame] at hfirst
        by_cases hsecond : second = thread
        · subst hsecond
          simpa using hwindow
        · simpa [Function.update_of_ne hsecond] using hconfig.exclusive first second hne hfirst
  | step thread answer =>
    obtain ⟨after, hstep, rfl⟩ := Option.map_eq_some_iff.1 hmove
    have hthread := hconfig.holds thread
    obtain ⟨hinv, hholds, henter⟩ :=
      cert.step config thread answer after hconfig.inv hthread hguard hstep
    constructor
    · exact hinv
    · intro other
      by_cases hother : other = thread
      · subst hother
        simpa using hholds
      · have hkept := cert.others config thread answer after
          (config.point other) hconfig.inv hthread hguard hstep
          (hconfig.holds other) (hconfig.exclusive thread other (Ne.symm hother))
        simpa [Function.update_of_ne hother] using hkept
    · intro first second hne hfirst
      by_cases hsame : first = thread
      · subst hsame
        simp only [Function.update_self] at hfirst
        have hsecond := henter hfirst second hne.symm
        simpa [Function.update_of_ne hne.symm] using hsecond
      · simp only [Function.update_of_ne hsame] at hfirst
        by_cases hsecond : second = thread
        · subst hsecond
          simp only [Function.update_self]
          intro hwindow
          exact henter hwindow first hsame hfirst
        · simpa [Function.update_of_ne hsecond] using hconfig.exclusive first second hne hfirst

theorem Certificate.sound (cert : Certificate program guard inv holds window) {state : σ} {idle : τ}
    (hinv : inv state) (hidle : holds idle state) (hwindow : ¬ window idle)
    {labels : List (Label ι τ)}
    (hguard : ∀ move ∈ (program.lts state idle).path ⟨state, fun _ => idle⟩ labels,
      guard move.source move.label) :
    ∀ move ∈ (program.lts state idle).path ⟨state, fun _ => idle⟩ labels,
      Holds inv holds window move.source ∧ program.move move.source move.label = some move.target ∧
        Holds inv holds window move.target := by
  have hstart : Holds inv holds window ⟨state, fun _ => idle⟩ :=
    ⟨hinv, fun _ => hidle, fun _ _ _ hfirst => absurd hfirst hwindow⟩
  have hstep (config : Config σ τ) (label : Label ι τ) (next : Config σ τ)
      (hconfig : Holds inv holds window config) (hlabel : guard config label)
      (hmove : (program.lts state idle).step config label = some next) :
      Holds inv holds window next := cert.move hconfig hlabel hmove
  exact Lts.forall_path_of_guard hstep hstart hguard

end Dymint.Threads
