import Dymint.Core.Procedure
import Dymint.Core.Runs

/-!
# Procedures cut into sections

A program gives a procedure for each point of a thread, its section, which returns the
point where to go on.  The threads share a state, and their atomic steps interleave.
What matters is often only at which point a thread is when another one makes its step.

An invariant of the points and the state holds throughout a run if it is kept by every
single step of every section, whatever state the step finds and wherever the other
threads are.  A condition on the points may rule out some of the steps.
-/

namespace Dymint.Sections

open Procedure Runs

variable {σ ι ε θ : Type} {κ : θ → Type}

structure Program (σ ι ε : Type) {θ : Type} (κ : θ → Type) where
  body : (thread : θ) → κ thread → Proc σ ι ε (κ thread)

structure Thread (σ ι ε π : Type) where
  point : π
  rest : Proc σ ι ε π

structure Config (σ ι ε : Type) {θ : Type} (κ : θ → Type) where
  state : σ
  thread : (thread : θ) → Thread σ ι ε (κ thread)

/-- The point at which each thread is. -/
def Config.points (config : Config σ ι ε κ) (thread : θ) : κ thread := (config.thread thread).point

namespace Program

variable (program : Program σ ι ε κ)

/-- The sections of a thread in a row, without the others. -/
def whole (thread : θ) : ℕ → κ thread → Proc σ ι ε Unit
  | 0, _ => pure ()
  | sections + 1, point => do
      let next ← program.body thread point
      whole thread sections next

variable {thread : θ}

def enter (point : κ thread) : Thread σ ι ε (κ thread) := ⟨point, program.body thread point⟩

/-- A section that has returned hands over to the next one. -/
def settle (point : κ thread) : Proc σ ι ε (κ thread) → Thread σ ι ε (κ thread)
  | .done (.ok next) => program.enter next
  | rest => ⟨point, rest⟩

theorem settle_of_ne {point : κ thread} {rest : Proc σ ι ε (κ thread)}
    (hrest : ∀ next, rest ≠ .done (.ok next)) : program.settle point rest = ⟨point, rest⟩ := by
  unfold settle
  split
  case h_1 next => exact absurd rfl (hrest next)
  case h_2 => rfl

/-- One atomic step of one thread. -/
def move [DecidableEq θ] (config : Config σ ι ε κ) (label : θ × ι) : Option (Config σ ι ε κ) :=
  match config.thread label.1 with
  | ⟨_, .done _⟩ => none
  | ⟨point, .atom update next⟩ =>
    some ⟨update label.2 config.state,
      Function.update config.thread label.1 (program.settle point (next label.2 config.state))⟩

def lts [DecidableEq θ] (state : σ) (points : (thread : θ) → κ thread) :
    Lts (Config σ ι ε κ) (θ × ι) where
  start := ⟨state, fun thread => program.enter (points thread)⟩
  step := program.move

end Program

/-! ## What the steps of a section do -/

/-- Every step stays within `rel`, at the point where it leads. -/
def Steps {π : Type} (rel : π → σ → σ → Prop) (point : π) : Proc σ ι ε π → Prop
  | .done _ => True
  | .atom update next => ∀ answer state,
      (match next answer state with
        | .done (.ok next) => rel next state (update answer state)
        | _ => rel point state (update answer state)) ∧
      Steps rel point (next answer state)

section

variable {π β : Type} {rel : π → σ → σ → Prop} {point : π}

theorem steps_of_follows {proc : Proc σ ι ε π} {kind : σ → σ → Prop} {returns : π → Prop}
    (hproc : proc.Follows kind returns)
    (hstay : ∀ before after, kind before after → rel point before after)
    (hleave : ∀ before after next, kind before after → returns next → rel next before after) :
    Steps rel point proc := by
  induction proc with
  | done result => trivial
  | atom update next ih =>
    intro answer state
    obtain ⟨hstep, hrest⟩ := hproc answer state
    refine ⟨?_, ih answer state hrest⟩
    split
    case h_1 next hdone =>
      rw [hdone] at hrest
      exact hleave _ _ next hstep hrest
    case h_2 => exact hstay _ _ hstep

theorem steps_op {run : ι → σ → σ × Result ε β} {next : β → π}
    (hstay : ∀ answer state, rel point state (run answer state).1)
    (hleave : ∀ answer state value, (run answer state).2 = .ok value → rel (next value) state (run
      answer state).1) : Steps rel point (Proc.op run >>= fun value => pure (next value)) := by
  intro answer state
  dsimp only
  cases hresult : (run answer state).2 with
  | ok value => exact ⟨hleave answer state value hresult, trivial⟩
  | err | panic => exact ⟨hstay answer state, trivial⟩

theorem steps_read {view : σ → β} {next : β → π}
    (hleave : ∀ state, rel (next (view state)) state state) :
    Steps (ε := ε) (ι := ι) rel point (Proc.read view >>= fun value => pure (next value)) :=
  fun _ state => ⟨hleave state, trivial⟩

theorem steps_write {update : σ → σ} {next : π} (hleave : ∀ state, rel next state (update state)) :
    Steps (ε := ε) (ι := ι) rel point (Proc.write update >>= fun _ => pure next) :=
  fun _ state => ⟨hleave state, trivial⟩

end

/-! ## Invariants -/

section

variable [DecidableEq θ] {program : Program σ ι ε κ}
variable {permits : ((thread : θ) → κ thread) → θ → Prop}
variable {inv : ((thread : θ) → κ thread) → σ → Prop}

/-- A step keeps `inv`, wherever the other threads are. -/
def KeepsInv (permits : ((thread : θ) → κ thread) → θ → Prop)
    (inv : ((thread : θ) → κ thread) → σ → Prop) (thread : θ) (point next : κ thread)
    (before after : σ) : Prop :=
  ∀ points, points thread = point → permits points thread → inv points before →
    inv (Function.update points thread next) after

structure Holds (permits : ((thread : θ) → κ thread) → θ → Prop)
    (inv : ((thread : θ) → κ thread) → σ → Prop) (config : Config σ ι ε κ) : Prop where
  holds : inv config.points config.state
  rest : ∀ thread, Steps (KeepsInv permits inv thread (config.points thread))
    (config.points thread) (config.thread thread).rest

theorem steps_settle
    (hbody : ∀ thread point, Steps (KeepsInv permits inv thread point) point (program.body thread
      point)) {thread : θ} {point : κ thread} {rest : Proc σ ι ε (κ thread)}
    (hrest : Steps (KeepsInv permits inv thread point) point rest) :
    Steps (KeepsInv permits inv thread (program.settle point rest).point)
      (program.settle point rest).point (program.settle point rest).rest := by
  by_cases hdone : ∃ next, rest = .done (.ok next)
  · obtain ⟨next, rfl⟩ := hdone
    exact hbody thread next
  · rw [program.settle_of_ne fun next hnext => hdone ⟨next, hnext⟩]
    exact hrest

theorem Config.points_update (state : σ) (threads : (thread : θ) → Thread σ ι ε (κ thread))
    (thread : θ) (moved : Thread σ ι ε (κ thread)) :
    Config.points ⟨state, Function.update threads thread moved⟩ =
      Function.update (fun other => (threads other).point) thread moved.point := by
  funext other
  by_cases hsame : other = thread
  · subst hsame
    simp [Config.points]
  · simp [Config.points, Function.update_of_ne hsame]

theorem Holds.move
    (hbody : ∀ thread point, Steps (KeepsInv permits inv thread point) point (program.body thread
      point)) {config next : Config σ ι ε κ} {label : θ × ι} (hconfig : Holds permits inv config)
    (hpermits : permits config.points label.1) (hmove : program.move config label = some next) :
    Holds permits inv next := by
  obtain ⟨thread, answer⟩ := label
  rw [Program.move] at hmove
  split at hmove
  case h_1 => cases hmove
  case h_2 point update after hthread =>
    obtain rfl := Option.some.inj hmove
    have hpoint : config.points thread = point := by
      rw [Config.points, hthread]
    have hsteps := hconfig.rest thread
    rw [hpoint, hthread] at hsteps
    obtain ⟨hstep, hrest⟩ := hsteps answer config.state
    constructor
    · rw [Config.points_update]
      dsimp only at hstep ⊢
      split at hstep
      case h_1 target hdone =>
        rw [hdone]
        exact hstep config.points hpoint hpermits hconfig.holds
      case h_2 hdone =>
        rw [program.settle_of_ne hdone]
        exact hstep config.points hpoint hpermits hconfig.holds
    · intro other
      by_cases hsame : other = thread
      · subst hsame
        simp only [Config.points, Function.update_self]
        exact steps_settle hbody hrest
      · simp only [Config.points, Function.update_of_ne hsame]
        exact hconfig.rest other

theorem forall_path_of_steps
    (hbody : ∀ thread point, Steps (KeepsInv permits inv thread point) point (program.body thread
      point)) {state : σ} {points : (thread : θ) → κ thread} (hinv : inv points state)
    {labels : List (θ × ι)}
    (hpermits : ∀ move ∈ (program.lts state points).path (program.lts state points).start labels,
      permits move.source.points move.label.1) :
    ∀ move ∈ (program.lts state points).path (program.lts state points).start labels,
      inv move.target.points move.target.state := by
  have hstart : Holds permits inv (program.lts (ι := ι) state points).start :=
    ⟨hinv, fun thread => hbody thread (points thread)⟩
  have hstep (config : Config σ ι ε κ) (label : θ × ι) (next : Config σ ι ε κ)
      (hconfig : Holds permits inv config) (hlabel : permits config.points label.1)
      (hnext : (program.lts state points).step config label = some next) :
      Holds permits inv next := hconfig.move hbody hlabel hnext
  intro move hmove
  exact (Lts.forall_path_of_guard hstep hstart hpermits move hmove).2.2.holds

end

end Dymint.Sections
