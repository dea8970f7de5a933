import Dymint.Block.Submit
import Dymint.Core.Channels
import Dymint.Core.Runs

/-!
# The loops of an aggregator

`ProduceBlockLoop` waits until the node is synced and then produces blocks.
`SubmitLoop` produces a block too and then submits what was produced as a batch.
The settlement client hears that a batch was accepted, records its end height and
tells `SyncTargetLoop`, which sets the sync target and lets the next batch be
submitted.  All of them read and write the same few variables, and their steps
interleave freely.
-/

namespace Dymint.Loops

open Procedure Dymint.Types Submit Runs Channels

/-! ## Where the goroutines stand -/

/-- What is left of a call of `produceBlock`: it waits for its mutex, reads the
height, loads the last commit and block and looks for a pending block, creates a
block, or gossips and applies it. -/
inductive Production where
  | locking
  | reading
  | looking (height : UInt64)
  | creating (height : UInt64)
  | applying
  deriving DecidableEq

/-- `ProduceBlockLoop`, with `waitForSync` up to its release. -/
inductive ProducePoint where
  | starting
  | waiting
  | comparing (height : UInt64)
  | select
  | producing (production : Production)
  deriving DecidableEq

/-- `SubmitLoop` and `submitNextBatch`, by what comes next. -/
inductive SubmitPoint where
  | select
  | height (syncTarget : UInt64)
  | flag
  | claim
  | producing (production : Production)
  | target
  | last (startHeight : UInt64)
  | check (startHeight endHeight : UInt64)
  | request (startHeight endHeight : UInt64)
  | create (startHeight endHeight : UInt64)
  | toDA (batch : Batch)
  | toSettlement (batch : Batch)
  | posting (batch : Batch)
  | panicked
  deriving DecidableEq

inductive SyncPoint where
  | starting
  | subscribed
  | running
  | clearing (endHeight : UInt64)
  | ended
  deriving DecidableEq

/-- `stateUpdatesHandler` of the settlement client. -/
inductive HandlerPoint where
  | running
  | publishing (endHeight : UInt64)
  | ended
  deriving DecidableEq

/-- The shared variables, the subscriptions of the settlement client and of
`SyncTargetLoop`, and the goroutines.  `pending` and `unannounced` record the end
heights of the batches that were handed to the settlement client and whose
acceptance has not been processed by `SyncTargetLoop`, or not been announced to
the settlement client. -/
structure Aggregator where
  syncTarget : UInt64
  batchInProcess : Bool
  height : UInt64
  lastBlockHeight : Int64
  produceBlockMutex : Bool
  latestHeight : UInt64
  stateUpdates : Subscription UInt64 1
  newBatches : Option (Subscription UInt64 1)
  produce : ProducePoint
  submit : SubmitPoint
  sync : SyncPoint
  handler : HandlerPoint
  pending : List UInt64
  unannounced : List UInt64

/-! ## Their steps -/

inductive ProductionLabel where
  | lock
  | height
  | look (pending : Bool)
  | create
  | ret

/-- `waitForSync` stores the answer of the settlement layer, reads the height and
compares it with the sync target; the loop gets a tick, or its call of
`produceBlock` makes a step. -/
inductive ProduceLabel where
  | store (answer : Option UInt64)
  | height
  | compare
  | tick
  | call (label : ProductionLabel)

/-- The steps of `SubmitLoop` with what it finds: the last block of the range, the
blocks and commits of the batch, and whether the data availability layer takes
the batch. -/
inductive SubmitLabel where
  | tick
  | height
  | flag
  | claim
  | call (label : ProductionLabel)
  | target
  | last
  | check (lastBlock : Result Error Block)
  | request
  | create (reader : Reader)
  | toDA (accepted : Bool)
  | toSettlement
  | posted

inductive SyncLabel where
  | subscribe
  | store (answer : Option UInt64)
  | event
  | clear
  | cancelled

inductive HandlerLabel where
  | event
  | publish
  | cancelled

/-- A step of a goroutine; the settlement layer announces a batch; someone who
applies the next block records it in the state, and then in the height of the
store. -/
inductive Label where
  | produce (label : ProduceLabel)
  | submit (label : SubmitLabel)
  | sync (label : SyncLabel)
  | handler (label : HandlerLabel)
  | announce (endHeight : UInt64)
  | execute
  | setHeight

namespace Aggregator

variable (limits : Limits) (initialHeight : Int64) (state : Aggregator)

/-- A step of `produceBlock`; nothing is left of the call when it returns. -/
def produceBlock : Production → ProductionLabel → Option (Aggregator × Option Production)
  | .locking, .lock =>
    if state.produceBlockMutex then none
    else some ({ state with produceBlockMutex := true }, some .reading)
  | .reading, .height => some (state, some (.looking state.height))
  | .looking _, .look true => some (state, some .applying)
  | .looking height, .look false => some (state, some (.creating height))
  | .creating _, .create => some (state, some .applying)
  | .looking _, .ret | .applying, .ret =>
    some ({ state with produceBlockMutex := false }, none)
  | _, _ => none

/-- What `waitForSync` stores. -/
def waitTarget (answer : Option UInt64) : UInt64 := answer.getD (initialHeight - 1).toUInt64

def produceStep : ProducePoint → ProduceLabel → Option Aggregator
  | .starting, .store answer =>
    some { state with
      syncTarget := waitTarget initialHeight answer
      -- without any batch there is nothing to wait for
      produce := if answer.isSome then .waiting else .select }
  | .waiting, .height => some { state with produce := .comparing state.height }
  | .comparing height, .compare =>
    some { state with
      produce := if height < state.syncTarget then .waiting else .select }
  | .select, .tick => some { state with produce := .producing .locking }
  | .producing production, .call label =>
    (state.produceBlock production label).map fun (later, rest) =>
      { later with produce := rest.elim .select .producing }
  | _, _ => none

def validateLastBlock (startHeight endHeight : UInt64) : Result Error Block → SubmitPoint
  | .ok lastBlock =>
    if lastBlock.data.txs.length ≠ 0 then .request startHeight endHeight
    else .create startHeight endHeight
  | .err _ => .select
  | .panic => .panicked

/-- The difference of the two heights is only compared with zero. -/
def submitStep : SubmitPoint → SubmitLabel → Option Aggregator
  | .select, .tick => some { state with submit := .height state.syncTarget }
  | .height syncTarget, .height =>
    some { state with
      submit := if state.height - syncTarget = 0 then .select else .flag }
  | .flag, .flag =>
    some { state with
      submit := if state.batchInProcess then .select else .claim }
  | .claim, .claim =>
    some { state with
      batchInProcess := true
      submit := .producing .locking }
  | .producing production, .call label =>
    (state.produceBlock production label).map fun (later, rest) =>
      { later with submit := rest.elim .target .producing }
  | .target, .target => some { state with submit := .last (state.syncTarget + 1) }
  | .last startHeight, .last =>
    some { state with
      submit := .check startHeight state.lastBlockHeight.toUInt64 }
  | .check startHeight endHeight, .check lastBlock =>
    some { state with
      submit := validateLastBlock startHeight endHeight lastBlock }
  | .request startHeight endHeight, .request =>
    some { state with submit := .create startHeight endHeight }
  | .create startHeight endHeight, .create reader =>
    some { state with
      submit :=
        match createNextDABatch limits reader startHeight endHeight with
        | .ok batch => .toDA batch
        | .err _ => .select
        | .panic => .panicked }
  | .toDA batch, .toDA accepted =>
    some { state with
      submit := if accepted then .toSettlement batch else .panicked }
  | .toSettlement batch, .toSettlement =>
    match validateBatch state.latestHeight batch with
    | .ok () =>
      some { state with
        submit := .posting batch
        pending := state.pending ++ [batch.endHeight]
        unannounced := state.unannounced ++ [batch.endHeight] }
    | _ => some { state with submit := .panicked }
  | .posting _, .posted => some { state with submit := .select }
  | _, _ => none

def syncStep : SyncPoint → SyncLabel → Option Aggregator
  | .starting, .subscribe =>
    some { state with
      newBatches := some (.new UInt64 1)
      sync := .subscribed }
  | .subscribed, .store answer =>
    some { state with
      syncTarget := answer.getD state.syncTarget
      sync := .running }
  | .running, .event =>
    state.newBatches.bind fun subscription =>
      subscription.out.receive.map fun (endHeight, out) =>
        { state with
          newBatches := some { subscription with out := out }
          syncTarget := endHeight
          sync := .clearing endHeight }
  | .clearing endHeight, .clear =>
    some { state with
      batchInProcess := false
      pending := state.pending.filter (· ≠ endHeight)
      sync := .running }
  | .running, .cancelled =>
    state.newBatches.bind fun subscription =>
      if subscription.cancelled then some { state with sync := .ended } else none
  | _, _ => none

def handlerStep : HandlerPoint → HandlerLabel → Option Aggregator
  | .running, .event =>
    state.stateUpdates.out.receive.map fun (endHeight, out) =>
      { state with
        stateUpdates := { state.stateUpdates with out := out }
        latestHeight := endHeight
        handler := .publishing endHeight }
  | .publishing endHeight, .publish =>
    some { state with
      newBatches := state.newBatches.map fun subscription =>
        subscription.publish endHeight
      handler := .running }
  | .running, .cancelled =>
    if state.stateUpdates.cancelled then some { state with handler := .ended }
    else none
  | _, _ => none

def move : Label → Option Aggregator
  | .produce label => state.produceStep initialHeight state.produce label
  | .submit label => state.submitStep limits state.submit label
  | .sync label => state.syncStep state.sync label
  | .handler label => state.handlerStep state.handler label
  | .announce endHeight =>
    some { state with
      stateUpdates := state.stateUpdates.publish endHeight
      unannounced := state.unannounced.erase endHeight }
  | .execute =>
    some { state with lastBlockHeight := (state.height + 1).toInt64 }
  | .setHeight =>
    if state.lastBlockHeight = (state.height + 1).toInt64 then
      some { state with height := state.height + 1 }
    else none

/-- A panic of `SubmitLoop` ends the process. -/
def step (label : Label) : Option Aggregator :=
  if state.submit = .panicked then none
  else state.move limits initialHeight label

def start (height : UInt64) (lastBlockHeight : Int64) (latestHeight : UInt64) : Aggregator where
  syncTarget := 0
  batchInProcess := false
  height := height
  lastBlockHeight := lastBlockHeight
  produceBlockMutex := false
  latestHeight := latestHeight
  stateUpdates := .new UInt64 1
  newBatches := none
  produce := .starting
  submit := .select
  sync := .starting
  handler := .running
  pending := []
  unannounced := []

def lts (start : Aggregator) : Lts Aggregator Label where
  start := start
  step := step limits initialHeight

/-! ## What the steps leave alone -/

variable {limits initialHeight state} {next : Aggregator}

theorem move_of_step {label : Label} (hstep : state.step limits initialHeight label = some next) :
    state.move limits initialHeight label = some next := by
  rw [step] at hstep
  split at hstep
  · cases hstep
  · exact hstep

/-- `produceBlock` itself only takes and returns its mutex. -/
theorem produceBlock_eq {production : Production} {label : ProductionLabel}
    {rest : Option Production} (hstep : state.produceBlock production label = some (next, rest)) :
    next = { state with produceBlockMutex := next.produceBlockMutex } := by
  unfold produceBlock at hstep
  split at hstep
  case h_1 =>
    split at hstep
    · cases hstep
    · obtain ⟨rfl, -⟩ := Prod.mk.inj (Option.some.inj hstep)
      rfl
  case h_8 => cases hstep
  all_goals
    obtain ⟨rfl, -⟩ := Prod.mk.inj (Option.some.inj hstep)
    rfl

/-- `ProduceBlockLoop` stores a sync target once. -/
theorem produceStep_eq {point : ProducePoint} {label : ProduceLabel}
    (hstep : state.produceStep initialHeight point label = some next) :
    next = { state with
      syncTarget := next.syncTarget
      produceBlockMutex := next.produceBlockMutex
      produce := next.produce } := by
  unfold produceStep at hstep
  split at hstep
  case h_5 =>
    obtain ⟨⟨later, rest⟩, hlater, rfl⟩ := Option.map_eq_some_iff.1 hstep
    rw [produceBlock_eq hlater]
  case h_6 => cases hstep
  all_goals
    obtain rfl := Option.some.inj hstep
    rfl

theorem produceStep_of_ne_starting {point : ProducePoint} {label : ProduceLabel}
    (hpoint : point ≠ .starting) (hstep : state.produceStep initialHeight point label = some next) :
    next.syncTarget = state.syncTarget ∧ next.produce ≠ .starting := by
  unfold produceStep at hstep
  split at hstep
  case h_1 => exact absurd rfl hpoint
  case h_3 =>
    obtain rfl := Option.some.inj hstep
    refine ⟨rfl, ?_⟩
    dsimp only
    split <;> simp
  case h_5 =>
    obtain ⟨⟨later, rest⟩, hlater, rfl⟩ := Option.map_eq_some_iff.1 hstep
    rw [produceBlock_eq hlater]
    exact ⟨rfl, by cases rest <;> simp⟩
  case h_6 => cases hstep
  all_goals
    obtain rfl := Option.some.inj hstep
    exact ⟨rfl, by simp⟩

theorem handlerStep_eq {point : HandlerPoint} {label : HandlerLabel}
    (hstep : state.handlerStep point label = some next) :
    next = { state with
      latestHeight := next.latestHeight
      stateUpdates := next.stateUpdates
      newBatches := next.newBatches
      handler := next.handler } := by
  unfold handlerStep at hstep
  split at hstep
  case h_1 =>
    obtain ⟨⟨endHeight, out⟩, -, rfl⟩ := Option.map_eq_some_iff.1 hstep
    rfl
  case h_2 =>
    obtain rfl := Option.some.inj hstep
    rfl
  case h_3 =>
    split at hstep
    · obtain rfl := Option.some.inj hstep
      rfl
    · cases hstep
  case h_4 => cases hstep

end Aggregator

/-! ## Batches in process -/

/-- `SubmitLoop` has set `batchInProcess` and not yet handed over its batch. -/
def SubmitPoint.Claimed : SubmitPoint → Prop
  | .select | .height _ | .flag | .claim | .posting _ => False
  | _ => True

def Readable (reader : Reader) (startHeight endHeight : UInt64) : Prop :=
  ∀ offset : ℕ, startHeight + UInt64.ofNat offset ≤ endHeight → ∀ error,
    reader.block (startHeight + UInt64.ofNat offset) ≠ .err error ∧
      reader.commit (startHeight + UInt64.ofNat offset) ≠ .err error

theorem Readable.next {reader : Reader} {height endHeight : UInt64}
    (hreadable : Readable reader height endHeight) : Readable reader (height + 1) endHeight := by
  intro offset hoffset error
  have hheight : height + 1 + UInt64.ofNat offset = height + UInt64.ofNat (1 + offset) := by
    rw [UInt64.ofNat_add, UInt64.add_assoc]
    rfl
  rw [hheight] at hoffset ⊢
  exact hreadable (1 + offset) hoffset error

theorem Readable.populate_ne_err {limits : Limits} {reader : Reader} {fuel : ℕ} {height : UInt64}
    {batch : Batch} (hreadable : Readable reader height batch.endHeight) (error : Error) :
    populate limits reader fuel height batch ≠ .err error := by
  induction fuel generalizing height batch with
  | zero => simp [populate]
  | succ fuel ih =>
    rw [populate]
    split
    case isFalse => simp
    case isTrue hwithin =>
      have hzero : height + UInt64.ofNat 0 = height := UInt64.add_zero height
      have hread := hreadable 0 (by rw [hzero]; exact hwithin)
      rw [hzero] at hread
      cases hblock : reader.block height with
      | panic => simp
      | err blockError => exact absurd hblock (hread blockError).1
      | ok block =>
        cases hcommit : reader.commit height with
        | panic => simp
        | err commitError => exact absurd hcommit (hread commitError).2
        | ok commit =>
          simp only [Result.ok_bind]
          split
          · simp
          · apply ih
            exact hreadable.next

theorem Readable.createNextDABatch_ne_err {limits : Limits} {reader : Reader}
    {startHeight endHeight : UInt64} (hreadable : Readable reader startHeight endHeight)
    (error : Error) : createNextDABatch limits reader startHeight endHeight ≠ .err error := by
  have hpopulate (error : Error) : populate limits reader
      (limits.blockBatchMaxSizeBytes.toNat + 1) startHeight
      ⟨startHeight, endHeight, [], []⟩ ≠ .err error :=
    Readable.populate_ne_err hreadable error
  dsimp only [createNextDABatch]
  split
  · simp
  · cases hresult : populate limits reader (limits.blockBatchMaxSizeBytes.toNat + 1) startHeight
        ⟨startHeight, endHeight, [], []⟩ with
    | ok result => simp
    | err readError => exact absurd hresult (hpopulate readError)
    | panic => simp

namespace Aggregator

variable {limits : Limits} {initialHeight : Int64} {state next : Aggregator}

/-- The reads of `submitNextBatch` succeed. -/
def ReadsSucceed (state : Aggregator) : Label → Prop
  | .submit (.check lastBlock) => ∀ error, lastBlock ≠ .err error
  | .submit (.create reader) =>
    ∀ startHeight endHeight, state.submit = .create startHeight endHeight →
      Readable reader startHeight endHeight
  | _ => True

def Explained (state : Aggregator) : Prop := state.batchInProcess = true → state.pending ≠ []

/-- While `SubmitLoop` prepares a batch, the flag is its own. -/
def Accounted (state : Aggregator) : Prop := ¬ state.submit.Claimed → state.Explained

section

variable (hstate : state.Accounted)

include hstate

theorem Accounted.of_eq (hsubmit : next.submit = state.submit)
    (hflag : next.batchInProcess = state.batchInProcess) (hpending : next.pending = state.pending) :
    next.Accounted := by
  intro hclaimed
  rw [Explained, hflag, hpending]
  rw [hsubmit] at hclaimed
  exact hstate hclaimed

theorem Accounted.submit {label : SubmitLabel}
    (hreads : state.ReadsSucceed (.submit label))
    (hstep : state.submitStep limits state.submit label = some next) : next.Accounted := by
  unfold submitStep at hstep
  split at hstep
  case h_1 hpoint =>
    obtain rfl := Option.some.inj hstep
    exact fun _ => hstate (by rw [hpoint]; exact id)
  case h_2 hpoint =>
    obtain rfl := Option.some.inj hstep
    exact fun _ => hstate (by rw [hpoint]; exact id)
  case h_3 hpoint =>
    obtain rfl := Option.some.inj hstep
    exact fun _ => hstate (by rw [hpoint]; exact id)
  case h_4 =>
    obtain rfl := Option.some.inj hstep
    exact fun hclaimed => absurd trivial hclaimed
  case h_5 =>
    obtain ⟨⟨later, rest⟩, hlater, rfl⟩ := Option.map_eq_some_iff.1 hstep
    intro hclaimed
    cases rest with
    | none | some => exact absurd trivial hclaimed
  case h_8 hpoint =>
    obtain rfl := Option.some.inj hstep
    intro hclaimed
    rename_i startHeight endHeight lastBlock
    cases lastBlock with
    | ok lastBlock =>
      exfalso
      apply hclaimed
      dsimp only [validateLastBlock]
      split <;> trivial
    | err error => exact absurd rfl (hreads error)
    | panic => exact absurd trivial hclaimed
  case h_10 hpoint =>
    obtain rfl := Option.some.inj hstep
    rename_i startHeight endHeight reader
    intro hclaimed
    cases hcreate : createNextDABatch limits reader startHeight endHeight with
    | ok | panic =>
      simp only [hcreate] at hclaimed
      exact absurd trivial hclaimed
    | err error =>
      exact absurd hcreate ((hreads startHeight endHeight hpoint).createNextDABatch_ne_err error)
  case h_11 =>
    obtain rfl := Option.some.inj hstep
    intro hclaimed
    exfalso
    apply hclaimed
    dsimp only
    split <;> trivial
  case h_12 =>
    split at hstep
    · obtain rfl := Option.some.inj hstep
      intro _ _
      exact List.concat_ne_nil _ _
    · obtain rfl := Option.some.inj hstep
      exact fun hclaimed => absurd trivial hclaimed
  case h_13 hpoint =>
    obtain rfl := Option.some.inj hstep
    exact fun _ => hstate (by rw [hpoint]; exact id)
  case h_14 => cases hstep
  all_goals
    obtain rfl := Option.some.inj hstep
    exact fun hclaimed => absurd trivial hclaimed

theorem Accounted.sync {label : SyncLabel}
    (hstep : state.syncStep state.sync label = some next) : next.Accounted := by
  unfold syncStep at hstep
  split at hstep
  case h_3 =>
    obtain ⟨subscription, -, hmap⟩ := Option.bind_eq_some_iff.1 hstep
    obtain ⟨received, -, rfl⟩ := Option.map_eq_some_iff.1 hmap
    exact hstate.of_eq rfl rfl rfl
  case h_4 =>
    obtain rfl := Option.some.inj hstep
    intro _ hflag
    cases hflag
  case h_5 =>
    obtain ⟨subscription, -, hcancelled⟩ := Option.bind_eq_some_iff.1 hstep
    split at hcancelled
    · obtain rfl := Option.some.inj hcancelled
      exact hstate.of_eq rfl rfl rfl
    · cases hcancelled
  case h_6 => cases hstep
  all_goals
    obtain rfl := Option.some.inj hstep
    exact hstate.of_eq rfl rfl rfl

theorem Accounted.step {label : Label}
    (hreads : state.ReadsSucceed label)
    (hstep : state.step limits initialHeight label = some next) :
    next.Accounted := by
  have hmove := move_of_step hstep
  cases label with
  | submit label => exact hstate.submit hreads hmove
  | sync label => exact hstate.sync hmove
  | produce label =>
    rw [produceStep_eq hmove]
    exact hstate.of_eq rfl rfl rfl
  | handler label =>
    rw [handlerStep_eq hmove]
    exact hstate.of_eq rfl rfl rfl
  | announce | execute =>
    obtain rfl := Option.some.inj hmove
    exact hstate.of_eq rfl rfl rfl
  | setHeight =>
    rw [move] at hmove
    obtain ⟨-, hnext⟩ := Option.ite_none_right_eq_some.1 hmove
    obtain rfl := Option.some.inj hnext
    exact hstate.of_eq rfl rfl rfl

end

/-- The events that wait for `SyncTargetLoop`. -/
def waiting (state : Aggregator) : List UInt64 :=
  state.newBatches.elim [] fun subscription => subscription.out.buffer

/-- The flag is set, but no batch was handed over, no acceptance is on its way and
`SubmitLoop` is not preparing one. -/
structure Stuck (state : Aggregator) : Prop where
  flag : state.batchInProcess = true
  pending : state.pending = []
  submit : state.submit = .select ∨ (∃ target, state.submit = .height target) ∨ state.submit = .flag
  updates : state.stateUpdates.out.buffer = []
  handler : ∀ endHeight, state.handler ≠ .publishing endHeight
  waiting : state.waiting = []
  sync : ∀ endHeight, state.sync ≠ .clearing endHeight

section

variable (hstate : state.Stuck)

include hstate

theorem Stuck.submitStep {label : SubmitLabel}
    (hstep : state.submitStep limits state.submit label = some next) : next.Stuck := by
  obtain hpoint | ⟨target, hpoint⟩ | hpoint := hstate.submit
  · rw [hpoint] at hstep
    cases label <;> cases hstep
    exact { hstate with submit := .inr (.inl ⟨_, rfl⟩) }
  · rw [hpoint] at hstep
    cases label <;> cases hstep
    refine { hstate with submit := ?_ }
    dsimp only
    split
    · exact .inl rfl
    · exact .inr (.inr rfl)
  · rw [hpoint] at hstep
    cases label <;> cases hstep
    refine { hstate with submit := .inl ?_ }
    simp only [hstate.flag, if_true]

theorem Stuck.syncStep {label : SyncLabel}
    (hstep : state.syncStep state.sync label = some next) : next.Stuck := by
  unfold Aggregator.syncStep at hstep
  split at hstep
  case h_1 =>
    obtain rfl := Option.some.inj hstep
    exact { hstate with waiting := rfl, sync := by simp }
  case h_2 =>
    obtain rfl := Option.some.inj hstep
    exact { hstate with sync := by simp }
  case h_3 =>
    obtain ⟨subscription, hsubscription, hmap⟩ := Option.bind_eq_some_iff.1 hstep
    obtain ⟨⟨endHeight, out⟩, hreceive, -⟩ := Option.map_eq_some_iff.1 hmap
    have hwaiting := hstate.waiting
    rw [Aggregator.waiting, hsubscription, Option.elim_some,
      Channel.buffer_of_receive hreceive] at hwaiting
    cases hwaiting
  case h_4 endHeight hpoint => exact absurd hpoint (hstate.sync endHeight)
  case h_5 =>
    obtain ⟨subscription, -, hcancelled⟩ := Option.bind_eq_some_iff.1 hstep
    obtain ⟨-, hnext⟩ := Option.ite_none_right_eq_some.1 hcancelled
    obtain rfl := Option.some.inj hnext
    exact { hstate with sync := by simp }
  case h_6 => cases hstep

theorem Stuck.handlerStep {label : HandlerLabel}
    (hstep : state.handlerStep state.handler label = some next) : next.Stuck := by
  unfold Aggregator.handlerStep at hstep
  split at hstep
  case h_1 =>
    obtain ⟨⟨endHeight, out⟩, hreceive, -⟩ := Option.map_eq_some_iff.1 hstep
    have hupdates := hstate.updates
    rw [Channel.buffer_of_receive hreceive] at hupdates
    cases hupdates
  case h_2 endHeight hpoint => exact absurd hpoint (hstate.handler endHeight)
  case h_3 =>
    obtain ⟨-, hnext⟩ := Option.ite_none_right_eq_some.1 hstep
    obtain rfl := Option.some.inj hnext
    exact { hstate with handler := by simp }
  case h_4 => cases hstep

/-- Only the announcement of some batch could clear the flag. -/
theorem Stuck.step {label : Label}
    (hlabel : ∀ endHeight, label ≠ .announce endHeight)
    (hstep : state.step limits initialHeight label = some next) : next.Stuck := by
  have hmove := move_of_step hstep
  cases label with
  | submit label => exact hstate.submitStep hmove
  | sync label => exact hstate.syncStep hmove
  | handler label => exact hstate.handlerStep hmove
  | produce label =>
    rw [produceStep_eq hmove]
    exact { hstate with }
  | announce endHeight => exact absurd rfl (hlabel endHeight)
  | execute =>
    obtain rfl := Option.some.inj hmove
    exact { hstate with }
  | setHeight =>
    rw [move] at hmove
    obtain ⟨-, hnext⟩ := Option.ite_none_right_eq_some.1 hmove
    obtain rfl := Option.some.inj hnext
    exact { hstate with }

theorem Stuck.path {start : Aggregator} {labels : List Label}
    (hlabels : ∀ label ∈ labels, ∀ endHeight, label ≠ .announce endHeight) :
    ∀ move ∈ (lts limits initialHeight start).path state labels, move.target.Stuck := by
  have hstep (state : Aggregator) (label : Label) (next : Aggregator)
      (hstate : state.Stuck) (hlabel : ∀ endHeight, label ≠ .announce endHeight)
      (hnext : (lts limits initialHeight start).step state label = some next) :
      next.Stuck := hstate.step hlabel hnext
  intro move hmove
  exact (Lts.forall_path_of_guard hstep hstate
    (fun move hmove => hlabels move.label (Lts.label_mem_of_mem_path hmove))
    move hmove).2.2

end

end Aggregator

/-- In every run in which the reads of `submitNextBatch` succeed, the flag is set at
the end of an iteration of `SubmitLoop` only if the acceptance of a batch that was
handed over has not been processed. -/
theorem in_process_only_if_pending (limits : Limits) (initialHeight : Int64) (height : UInt64)
    (lastBlockHeight : Int64) (latestHeight : UInt64) (labels : List Label)
    (hreads : ∀ move ∈ (Aggregator.lts limits initialHeight (.start height lastBlockHeight
      latestHeight)).path (.start height lastBlockHeight latestHeight) labels,
      move.source.ReadsSucceed move.label) :
    ∀ move ∈ (Aggregator.lts limits initialHeight (.start height lastBlockHeight latestHeight)).path
          (.start height lastBlockHeight latestHeight) labels,
      move.target.submit = .select → move.target.batchInProcess = true →
        move.target.pending ≠ [] := by
  have hstart : (Aggregator.start height lastBlockHeight latestHeight).Accounted := by
    intro _ hflag
    cases hflag
  have hstep (state : Aggregator) (label : Label) (next : Aggregator)
      (hstate : state.Accounted) (hlabel : state.ReadsSucceed label)
      (hnext : (Aggregator.lts limits initialHeight
        (.start height lastBlockHeight latestHeight)).step state label = some next) :
      next.Accounted := hstate.step hlabel hnext
  intro move hmove hselect
  have haccounted := (Lts.forall_path_of_guard hstep hstart hreads move hmove).2.2
  apply haccounted
  rw [hselect]
  exact id

namespace Reference

/-- A call of `produceBlock` that finds a pending block. -/
def producePending : List Label :=
  [.lock, .height, .look true, .ret].map fun label => .submit (.call label)

/-- Without any batch in the settlement layer, `SubmitLoop` sees a block and gets
ready to submit it. -/
def firstBatch : List Label :=
  [.produce (.store none), .sync .subscribe, .sync (.store none), .submit .tick,
    .submit .height, .submit .flag, .submit .claim] ++ producePending ++
  [.submit .target, .submit .last]

def lastBlockUnreadable : List Label := firstBatch ++ [.submit (.check (.err .fault))]

def reader : Reader where
  block _ := .ok (Submit.Reference.block 1 [])
  commit _ := .ok (Types.Reference.commitFor (Submit.Reference.block 1 []).header)

def firstBatchAccepted : List Label := firstBatch ++
    [.submit (.check (.ok (Submit.Reference.block 1 []))),
      .submit (.create reader), .submit (.toDA true), .submit .toSettlement, .announce 1, .submit
    .posted, .handler .event, .handler .publish, .submit .tick, .submit .height,
      .sync .event, .sync .clear]

end Reference

open Reference

/-- The last block cannot be loaded, so that no batch is handed over, but the flag
stays set, and as long as nothing is announced it does so for ever. -/
theorem failed_read_blocks_submission :
    ∃ move ∈ (Aggregator.lts Submit.Reference.oneBlock 1 (.start 1 1 0)).path
        (.start 1 1 0) lastBlockUnreadable,
      move.target.submit = .select ∧ move.target.batchInProcess = true ∧
      move.target.pending = [] ∧
      ∀ labels : List Label, (∀ label ∈ labels, ∀ endHeight, label ≠ .announce endHeight) →
        ∀ later ∈ (Aggregator.lts Submit.Reference.oneBlock 1 (.start 1 1 0)).path
            move.target labels,
          later.target.batchInProcess = true ∧ later.target.pending = [] := by
  have hrun : ((Aggregator.lts Submit.Reference.oneBlock 1 (.start 1 1 0)).path
      (.start 1 1 0) lastBlockUnreadable).any (fun move =>
        decide (move.target.submit = .select ∧ move.target.batchInProcess = true ∧
          move.target.pending = [] ∧ move.target.stateUpdates.out.buffer = [] ∧
          move.target.handler = .running ∧ move.target.waiting = [] ∧
          move.target.sync = .running)) = true := by
    decide +kernel
  obtain ⟨move, hmove, hview⟩ := List.any_eq_true.1 hrun
  obtain ⟨hsubmit, hflag, hpending, hupdates, hhandler, hwaiting, hsync⟩ := of_decide_eq_true hview
  have hstuck : move.target.Stuck :=
    { flag := hflag
      pending := hpending
      submit := .inl hsubmit
      updates := hupdates
      handler := by simp [hhandler]
      waiting := hwaiting
      sync := by simp [hsync] }
  refine ⟨move, hmove, hsubmit, hflag, hpending, ?_⟩
  intro labels hlabels later hlater
  have hlast := hstuck.path hlabels later hlater
  exact ⟨hlast.flag, hlast.pending⟩

/-- The flag is set while the first batch waits to be accepted, and cleared after
that. -/
theorem in_process_only_if_pending_reference :
    (((Aggregator.lts Submit.Reference.oneBlock 1 (.start 1 1 0)).path
        (.start 1 1 0) firstBatchAccepted).map fun move =>
          (move.target.submit, move.target.batchInProcess, move.target.pending)).drop
            18 = [(.select, true, [1]), (.select, true, [1]), (.select, true, [1]),
              (.height 0, true, [1]), (.flag, true, [1]), (.flag, true, [1]),
              (.flag, false, [])] ∧
    ∀ move ∈ (Aggregator.lts Submit.Reference.oneBlock 1 (.start 1 1 0)).path
        (.start 1 1 0) firstBatchAccepted,
      move.target.submit = .select → move.target.batchInProcess = true →
        move.target.pending ≠ [] := by
  refine ⟨by decide +kernel, ?_⟩
  apply in_process_only_if_pending
  have hreadable (startHeight endHeight : UInt64) :
      Readable Reference.reader startHeight endHeight := by
    intro offset _ error
    exact ⟨by simp [Reference.reader], by simp [Reference.reader]⟩
  have hlabels (state : Aggregator) : ∀ label ∈ firstBatchAccepted, state.ReadsSucceed label := by
    simp [firstBatchAccepted, firstBatch, producePending, Aggregator.ReadsSucceed, hreadable]
  intro move hmove
  exact hlabels move.source move.label (Lts.label_mem_of_mem_path hmove)

end Dymint.Loops
