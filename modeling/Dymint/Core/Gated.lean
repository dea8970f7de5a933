import Dymint.Core.Procedure
import Dymint.Core.Runs

/-!
# Calls behind a check

Threads make calls that look at the shared state in one step and then either return
at once or go on with a procedure, whose steps interleave with those of the other
threads.  Nothing keeps two calls from being let in one after the other.  If a call
is let in only while no other one runs, then what is proved of each call alone holds
in every such run.
-/

namespace Dymint.Gated

open Procedure Runs

variable {σ ι ε κ θ : Type}

/-- What is left to do for a call that finds this state; nothing if the call
returns. -/
abbrev Gate (σ ι ε κ : Type) := κ → σ → Option (Proc σ ι ε Unit)

inductive Task (σ ι ε κ : Type) where
  | idle
  | waiting (request : κ)
  | running (rest : Proc σ ι ε Unit)

/-- The call has been let in. -/
def Task.Running : Task σ ι ε κ → Prop
  | .running _ => True
  | _ => False

instance (task : Task σ ι ε κ) : Decidable task.Running :=
  match task with
  | .running _ => .isTrue trivial
  | .idle | .waiting _ => .isFalse id

/-- A panic of any thread ends the process. -/
structure Config (σ ι ε κ θ : Type) where
  state : σ
  task : θ → Task σ ι ε κ
  panicked : Bool

inductive Label (ι κ θ : Type) where
  | call (thread : θ) (request : κ)
  | enter (thread : θ)
  | step (thread : θ) (answer : ι)
  | ret (thread : θ)

def panics : Proc σ ι ε Unit → Bool
  | .done .panic => true
  | _ => false

section

variable [DecidableEq θ] (gate : Gate σ ι ε κ)

def Config.set (config : Config σ ι ε κ θ) (thread : θ) (task : Task σ ι ε κ) : Config σ ι ε κ θ :=
  { config with task := Function.update config.task thread task }

/-- The check of a call. -/
def enter (request : κ) (state : σ) : Task σ ι ε κ :=
  match gate request state with
  | none => .idle
  | some rest => .running rest

def move (config : Config σ ι ε κ θ) : Label ι κ θ → Option (Config σ ι ε κ θ)
  | .call thread request =>
    match config.panicked, config.task thread with
    | false, .idle => some (config.set thread (.waiting request))
    | _, _ => none
  | .enter thread =>
    match config.panicked, config.task thread with
    | false, .waiting request =>
      some (config.set thread (enter gate request config.state))
    | _, _ => none
  | .step thread answer =>
    match config.panicked, config.task thread with
    | false, .running (.atom update next) =>
      some ⟨update answer config.state,
        Function.update config.task thread (.running (next answer config.state)),
        panics (next answer config.state)⟩
    | _, _ => none
  | .ret thread =>
    match config.panicked, config.task thread with
    | false, .running (.done (.ok _)) | false, .running (.done (.err _)) =>
      some (config.set thread .idle)
    | _, _ => none

def lts (state : σ) : Lts (Config σ ι ε κ θ) (Label ι κ θ) where
  start := ⟨state, fun _ => .idle, false⟩
  step := move gate

def Exclusive (ready : σ → Prop) (config : Config σ ι ε κ θ) : Label ι κ θ → Prop
  | .enter thread =>
    ∀ request, config.task thread = .waiting request → (gate request config.state).isSome →
        ready config.state ∧ ∀ other, ¬ (config.task other).Running
  | _ => True

end

/-! ## The rule for calls that exclude each other -/

/-- Between calls `quiet` holds; while a call runs, it is the only one, and its
specification holds of what is left of it. -/
inductive Holds (quiet always : σ → Prop) (config : Config σ ι ε κ θ) : Prop
  | quiet (htasks : ∀ thread, ¬ (config.task thread).Running)
      (hstate : quiet config.state)
  | running (thread : θ) (rest : Proc σ ι ε Unit)
      (htask : config.task thread = .running rest)
      (hothers : ∀ other, other ≠ thread → ¬ (config.task other).Running)
      (hrest : rest.wp (.anyAnswer ι always) (Proc.Ends (fun _ => quiet) quiet always) config.state)

variable {thread : θ}

section

variable [DecidableEq θ] {gate : Gate σ ι ε κ} {ready quiet always : σ → Prop}
variable (halways : ∀ state, quiet state → always state)
variable (hgate : ∀ state request rest, quiet state → ready state → gate request state = some rest →
    rest.wp (.anyAnswer ι always) (Proc.Ends (fun _ => quiet) quiet always) state)
variable {config next : Config σ ι ε κ θ}

include halways

omit [DecidableEq θ] in
theorem Holds.state (hconfig : Holds quiet always config) : always config.state := by
  cases hconfig with
  | quiet _ hstate => exact halways _ hstate
  | running thread rest _ _ hrest =>
    apply Proc.wp_crash hrest
    intro result later hlater
    cases result with
    | ok | err => exact halways later hlater
    | panic => exact hlater

omit halways in
theorem Holds.set (hconfig : Holds quiet always config) {task : Task σ ι ε κ}
    (hthread : ¬ (config.task thread).Running) (htask : ¬ task.Running) :
    Holds quiet always (config.set thread task) := by
  have hset (other : θ) (hother : ¬ (config.task other).Running) :
      ¬ (Function.update config.task thread task other).Running := by
    by_cases hsame : other = thread
    · rw [hsame, Function.update_self]
      exact htask
    · rw [Function.update_of_ne hsame]
      exact hother
  cases hconfig with
  | quiet htasks hstate =>
    exact .quiet (fun other => hset other (htasks other)) hstate
  | running runner rest hrunner hothers hrest =>
    have hne : runner ≠ thread := by
      rintro rfl
      rw [hrunner] at hthread
      exact hthread trivial
    refine .running runner rest ?_ ?_ hrest
    · exact (Function.update_of_ne hne _ _).trans hrunner
    · exact fun other hother => hset other (hothers other hother)

include hgate

omit halways in
theorem Holds.enter (hconfig : Holds quiet always config) {request : κ}
    (htask : config.task thread = .waiting request)
    (hexclusive : Exclusive gate ready config (.enter thread)) :
    Holds quiet always (config.set thread (Gated.enter gate request config.state)) := by
  have hthread : ¬ (config.task thread).Running := by
    rw [htask]
    exact id
  cases hopen : gate request config.state with
  | none =>
    rw [Gated.enter, hopen]
    exact hconfig.set hthread id
  | some rest =>
    obtain ⟨hready, hnone⟩ := hexclusive request htask (by rw [hopen]; rfl)
    have hquiet : quiet config.state := by
      cases hconfig with
      | quiet _ hstate => exact hstate
      | running runner rest hrunner =>
        exact absurd (hrunner ▸ trivial) (hnone runner)
    rw [Gated.enter, hopen]
    refine .running thread rest (Function.update_self _ _ _) ?_ (hgate _ _ _ hquiet hready hopen)
    intro other hother
    change ¬ (Function.update config.task thread _ other).Running
    rw [Function.update_of_ne hother]
    exact hnone other

omit hgate halways in
theorem Holds.of_running (hconfig : Holds quiet always config) {rest : Proc σ ι ε Unit}
    (htask : config.task thread = .running rest) :
    (∀ other, other ≠ thread → ¬ (config.task other).Running) ∧
      rest.wp (.anyAnswer ι always) (Proc.Ends (fun _ => quiet) quiet always) config.state := by
  cases hconfig with
  | quiet htasks => exact absurd (htask ▸ trivial) (htasks thread)
  | running runner found hrunner hothers hrest =>
    obtain rfl : runner = thread := by
      by_contra hne
      exact absurd (htask ▸ trivial) (hothers thread (Ne.symm hne))
    obtain rfl := Task.running.inj (hrunner.symm.trans htask)
    exact ⟨hothers, hrest⟩

omit halways in
theorem Holds.move (hconfig : Holds quiet always config) {label : Label ι κ θ}
    (hexclusive : Exclusive gate ready config label)
    (hmove : Gated.move gate config label = some next) : Holds quiet always next := by
  cases label with
  | call thread request =>
    rw [Gated.move] at hmove
    split at hmove
    case h_1 hpanicked htask =>
      obtain rfl := Option.some.inj hmove
      exact hconfig.set (by rw [htask]; exact id) id
    case h_2 => cases hmove
  | enter thread =>
    rw [Gated.move] at hmove
    split at hmove
    case h_1 request hpanicked htask =>
      obtain rfl := Option.some.inj hmove
      exact hconfig.enter hgate htask hexclusive
    case h_2 => cases hmove
  | step thread answer =>
    rw [Gated.move] at hmove
    split at hmove
    case h_1 update after hpanicked htask =>
      obtain rfl := Option.some.inj hmove
      obtain ⟨hothers, hrest⟩ := hconfig.of_running htask
      refine .running thread _ (Function.update_self _ _ _) ?_ (hrest.2 answer trivial)
      intro other hother
      dsimp only
      rw [Function.update_of_ne hother]
      exact hothers other hother
    case h_2 => cases hmove
  | ret thread =>
    have hreturned {result : Result ε Unit} (htask : config.task thread = .running (.done result))
        (hquiet : quiet config.state) :
        Holds quiet always (config.set thread .idle) := by
      have hothers := (hconfig.of_running htask).1
      refine .quiet (fun other => ?_) hquiet
      change ¬ (Function.update config.task thread _ other).Running
      by_cases hsame : other = thread
      · rw [hsame, Function.update_self]
        exact id
      · rw [Function.update_of_ne hsame]
        exact hothers other hsame
    rw [Gated.move] at hmove
    split at hmove
    case h_1 value hpanicked htask =>
      obtain rfl := Option.some.inj hmove
      exact hreturned htask (hconfig.of_running htask).2
    case h_2 error hpanicked htask =>
      obtain rfl := Option.some.inj hmove
      exact hreturned htask (hconfig.of_running htask).2
    case h_3 => cases hmove

/-- What is promised at every moment of a call that runs alone holds throughout every
run in which the calls exclude each other. -/
theorem forall_path_of_exclusive {state : σ} (hstate : quiet state) {labels : List (Label ι κ θ)}
    (hexclusive : ∀ move ∈ (lts gate state).path (lts gate state).start labels, Exclusive gate ready
      move.source move.label) :
    ∀ move ∈ (lts gate state).path (lts (θ := θ) gate state).start labels,
      always move.target.state := by
  have hstep (config : Config σ ι ε κ θ) (label : Label ι κ θ)
      (next : Config σ ι ε κ θ) (hconfig : Holds quiet always config)
      (hlabel : Exclusive gate ready config label)
      (hnext : (lts gate state).step config label = some next) :
      Holds quiet always next := hconfig.move hgate hlabel hnext
  have hstart : Holds quiet always (lts (θ := θ) gate state).start := .quiet (fun _ => id) hstate
  intro move hmove
  exact ((Lts.forall_path_of_guard hstep hstart hexclusive move hmove).2.2).state halways

end

end Dymint.Gated
