import Dymint.Core.Channels
import Dymint.Core.Runs

/-!
# The loop that produces blocks and the health of the node

`ProduceBlockLoop` is told by the callback for health events, through
`shouldProduceBlocksCh`, when to stop and to resume.  When producing a block fails,
the loop sends `false` to that channel itself.  The channel holds one value and the
loop is its only receiver.
-/

namespace Dymint.ProduceLoop

open Runs Channels

/-- What `produceBlock` returns. -/
inductive Outcome where
  | produced
  | skipped
  | failed
  deriving DecidableEq

/-- Where `ProduceBlockLoop` stands: in `waitForSync`, at its `select`, in
`produceBlock`, before its own send, in the loop that waits to resume, or at its
end. -/
inductive Point where
  | syncing
  | select
  | producing
  | reporting
  | stopped
  | done
  deriving DecidableEq

/-- The loop with its flag, the channel, and the value that the callback is about to
send. -/
structure Production where
  point : Point
  produceEmptyBlock : Bool
  shouldProduceBlocksCh : Channel Bool 1
  callback : Option Bool

/-- The loop is released by `waitForSync` or panics, sees that its context is
cancelled, gets a request for an empty block, the tick of a timer, or the outcome of
`produceBlock`, completes its send, or receives.  An event reaches the callback, or
the callback completes its send. -/
inductive Label where
  | synced (ok : Bool)
  | cancel
  | emptyBlock
  | tick
  | produced (outcome : Outcome)
  | report
  | receive
  | event (healthy : Bool)
  | deliver

namespace Production

/-- What a received value makes of the loop. -/
def resume (shouldProduceBlocks : Bool) : Point :=
  if shouldProduceBlocks then .select else .stopped

/-- `emptyBlocksMaxTime` says whether there is a timer for empty blocks. -/
def step (emptyBlocksMaxTime : Bool) (state : Production) : Label → Option Production
  | .synced ok =>
    if state.point = .syncing then
      some { state with point := if ok then .select else .done }
    else none
  | .cancel =>
    if state.point = .select then some { state with point := .done } else none
  | .emptyBlock =>
    if state.point = .select then some { state with produceEmptyBlock := true }
    else none
  | .tick =>
    if state.point = .select then some { state with point := .producing } else none
  | .produced outcome =>
    if state.point = .producing then
      match outcome with
      | .skipped => some { state with point := .select }
      | .failed => some { state with point := .reporting }
      | .produced =>
        some { state with
          point := .select
          produceEmptyBlock :=
            if emptyBlocksMaxTime then false else state.produceEmptyBlock }
    else none
  | .report =>
    if state.point = .reporting then
      (state.shouldProduceBlocksCh.send false).map fun channel =>
        { state with
          point := .select
          shouldProduceBlocksCh := channel }
    else none
  | .receive =>
    if state.point = .select ∨ state.point = .stopped then
      state.shouldProduceBlocksCh.receive.map fun (shouldProduceBlocks, channel) =>
        { state with
          point := resume shouldProduceBlocks
          shouldProduceBlocksCh := channel }
    else none
  | .event healthy =>
    if state.callback = none then some { state with callback := some healthy }
    else none
  | .deliver => do
      let healthy ← state.callback
      let channel ← state.shouldProduceBlocksCh.send healthy
      return { state with
        shouldProduceBlocksCh := channel
        callback := none }

def lts (emptyBlocksMaxTime : Bool) : Lts Production Label where
  start :=
    { point := .syncing
      produceEmptyBlock := true
      shouldProduceBlocksCh := .empty Bool 1
      callback := none }
  step := step emptyBlocksMaxTime

/-- The loop waits for room in the channel that only it can empty. -/
def Blocked (state : Production) : Prop :=
  state.point = .reporting ∧ state.shouldProduceBlocksCh.Full

instance (state : Production) : Decidable state.Blocked := inferInstanceAs (Decidable (_ ∧ _))

/-- `produceBlock` fails while the channel is empty, and the callback sends nothing
before the loop has reported. -/
def Unobstructed (state : Production) : Label → Prop
  | .produced .failed => ¬ state.shouldProduceBlocksCh.Full
  | .deliver => state.point ≠ .reporting
  | _ => True

variable {emptyBlocksMaxTime : Bool} {state next : Production} {label : Label}

theorem full_of_send {channel later : Channel Bool 1} {value : Bool}
    (hsend : channel.send value = some later) : later.Full := by
  have hlength := congrArg List.length (Channel.buffer_of_send hsend)
  rw [List.length_append, List.length_singleton] at hlength
  have hle := later.length_le
  rw [Channel.Full]
  omega

/-- A move blocks the loop exactly if it fails a block while the channel is full or
fills the channel before the loop's own send. -/
theorem not_blocked_step_iff (hstate : ¬ state.Blocked)
    (hstep : step emptyBlocksMaxTime state label = some next) :
    ¬ next.Blocked ↔ state.Unobstructed label := by
  cases label with
  | synced ok =>
    obtain ⟨-, hnext⟩ := Option.ite_none_right_eq_some.1 hstep
    obtain rfl := Option.some.inj hnext
    refine iff_of_true ?_ trivial
    rintro ⟨hpoint, -⟩
    cases ok <;> cases hpoint
  | cancel | tick =>
    obtain ⟨-, hnext⟩ := Option.ite_none_right_eq_some.1 hstep
    obtain rfl := Option.some.inj hnext
    refine iff_of_true ?_ trivial
    rintro ⟨hpoint, -⟩
    cases hpoint
  | emptyBlock | event =>
    obtain ⟨-, hnext⟩ := Option.ite_none_right_eq_some.1 hstep
    obtain rfl := Option.some.inj hnext
    exact iff_of_true hstate trivial
  | produced outcome =>
    obtain ⟨-, hnext⟩ := Option.ite_none_right_eq_some.1 hstep
    cases outcome with
    | skipped | produced =>
      obtain rfl := Option.some.inj hnext
      refine iff_of_true ?_ trivial
      rintro ⟨hpoint, -⟩
      cases hpoint
    | failed =>
      obtain rfl := Option.some.inj hnext
      exact not_congr (and_iff_right rfl)
  | report =>
    obtain ⟨-, hmap⟩ := Option.ite_none_right_eq_some.1 hstep
    obtain ⟨channel, -, rfl⟩ := Option.map_eq_some_iff.1 hmap
    refine iff_of_true ?_ trivial
    rintro ⟨hpoint, -⟩
    cases hpoint
  | receive =>
    obtain ⟨-, hmap⟩ := Option.ite_none_right_eq_some.1 hstep
    obtain ⟨⟨shouldProduceBlocks, channel⟩, -, rfl⟩ := Option.map_eq_some_iff.1 hmap
    refine iff_of_true ?_ trivial
    rintro ⟨hpoint, -⟩
    cases shouldProduceBlocks <;> cases hpoint
  | deliver =>
    obtain ⟨healthy, -, hbind⟩ := Option.bind_eq_some_iff.1 hstep
    obtain ⟨channel, hsend, hnext⟩ := Option.bind_eq_some_iff.1 hbind
    obtain rfl := Option.some.inj hnext
    exact not_congr (and_iff_left (full_of_send hsend))

theorem Blocked.step (hstate : state.Blocked)
    (hstep : step emptyBlocksMaxTime state label = some next) : next.Blocked := by
  obtain ⟨hpoint, hfull⟩ := hstate
  cases label with
  | report =>
    rw [Production.step, hpoint, if_pos rfl, Channel.send_eq_none_of_full hfull] at hstep
    cases hstep
  | event healthy =>
    obtain ⟨-, hnext⟩ := Option.ite_none_right_eq_some.1 hstep
    obtain rfl := Option.some.inj hnext
    exact ⟨hpoint, hfull⟩
  | deliver =>
    obtain ⟨healthy, -, hbind⟩ := Option.bind_eq_some_iff.1 hstep
    rw [Channel.send_eq_none_of_full hfull] at hbind
    cases hbind
  | receive =>
    obtain ⟨hwhere, -⟩ := Option.ite_none_right_eq_some.1 hstep
    rw [hpoint] at hwhere
    rcases hwhere with hwhere | hwhere <;> cases hwhere
  | _ =>
    obtain ⟨hwhere, -⟩ := Option.ite_none_right_eq_some.1 hstep
    rw [hpoint] at hwhere
    cases hwhere

end Production

/-- The loop is never blocked in a run exactly when no block fails while the channel
is full and no health status is delivered between the failure of a block and its
report. -/
theorem never_blocked_iff_unobstructed (emptyBlocksMaxTime : Bool) (labels : List Label) :
    (∀ move ∈ (Production.lts emptyBlocksMaxTime).path
        (Production.lts emptyBlocksMaxTime).start labels, ¬ move.target.Blocked) ↔
    ∀ move ∈ (Production.lts emptyBlocksMaxTime).path
        (Production.lts emptyBlocksMaxTime).start labels,
      move.source.Unobstructed move.label := by
  have hbase (state : Production) (label : Label) (next : Production) (_ : True)
      (_ : (Production.lts emptyBlocksMaxTime).step state label = some next) : True :=
    trivial
  have hstep (state : Production) (label : Label) (next : Production) (_ : True)
      (hstate : ¬ state.Blocked)
      (hnext : (Production.lts emptyBlocksMaxTime).step state label = some next) :
      ¬ next.Blocked ↔ state.Unobstructed label :=
    Production.not_blocked_step_iff hstate hnext
  have hstart : ¬ (Production.lts emptyBlocksMaxTime).start.Blocked := by
    rintro ⟨hpoint, -⟩
    cases hpoint
  exact Lts.forall_path_iff hbase hstep trivial hstart labels

namespace Reference

def healthyWhileFailing : List Label :=
  [.synced true, .tick, .event true, .deliver, .produced .failed]

end Reference

open Reference in
/-- The loop blocks on its own send, and nothing that can happen afterwards changes
that. -/
theorem production_blocked_forever : ∃ move ∈ (Production.lts true).path (Production.lts true).start
        healthyWhileFailing,
      move.target.Blocked ∧
      ∀ labels, ∀ later ∈ (Production.lts true).path move.target labels, later.target.Blocked := by
  have hrun : ((Production.lts true).path (Production.lts true).start
      healthyWhileFailing).any (fun move => decide move.target.Blocked) = true := by
    decide +kernel
  obtain ⟨move, hmove, hblocked⟩ := List.any_eq_true.1 hrun
  have hstep (state : Production) (label : Label) (next : Production) (hstate : state.Blocked)
      (hnext : (Production.lts true).step state label = some next) : next.Blocked :=
    hstate.step hnext
  have htarget := of_decide_eq_true hblocked
  exact ⟨move, hmove, htarget, Lts.forall_path hstep htarget⟩

end Dymint.ProduceLoop
