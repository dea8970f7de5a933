import Dymint.Block.Course

/-!
# The moments of `applyBlock`

What the manager, the store and the application hold at each moment of a call
that applies the next block, with any of its steps failing: while the block is
executed, once the new state is in memory, once it is persisted, once the
application has committed, and once the block is recorded as stored.
-/

namespace Dymint.Manager

open Procedure Dymint.Types Store

variable {α β : Type}

structure Snapshot (α : Type) where
  lastState : State
  height : UInt64
  record : Option Pb.State
  responses : UInt64 → Option ABCIResponses
  validators : UInt64 → Option ValidatorSet
  committed : α
  lastBlockHeight : Int64
  lastBlockAppHash : Bytes
  working : α
  workingHeight : Int64

def Node.snapshot (node : Node α) : Snapshot α where
  lastState := node.lastState
  height := node.height
  record := node.db .state
  responses height := node.db (.responses height)
  validators height := node.db (.validators height)
  committed := node.app.committed
  lastBlockHeight := node.app.lastBlockHeight
  lastBlockAppHash := node.app.lastBlockAppHash
  working := node.app.working
  workingHeight := node.app.workingHeight

/-! ## What the steps make of a snapshot -/

namespace Snapshot

variable (now : Snapshot α)

def atWork (working : α) (workingHeight : Int64) : Snapshot α :=
  { now with working := working, workingHeight := workingHeight }

def store (message : Pb.State) : Snapshot α :=
  { now with record := some message }

def remember (state : State) : Snapshot α :=
  { now with lastState := state }

def persist (height : UInt64) (responses : ABCIResponses) (message : Pb.State)
    (set : ValidatorSet) : Snapshot α :=
  { now with
    record := some message
    responses := Function.update now.responses height (some responses)
    validators := Function.update now.validators height (some set) }

def commit (committed : α) (appHash : Bytes) : Snapshot α :=
  { now with
    committed := committed
    working := committed
    lastBlockHeight := now.workingHeight
    lastBlockAppHash := appHash }

structure PrunedBelow (bound : UInt64) (now later : Snapshot α) : Prop where
  frame : later = { now with responses := later.responses, validators := later.validators }
  responses : ∀ height, bound ≤ height → later.responses height = now.responses height
  validators : ∀ height, bound ≤ height → later.validators height = now.validators height

abbrev Pruned (now later : Snapshot α) : Prop := PrunedBelow now.height now later

theorem PrunedBelow.refl (bound : UInt64) : PrunedBelow bound now now where
  frame := rfl
  responses _ _ := rfl
  validators _ _ := rfl

theorem PrunedBelow.trans {bound : UInt64} {first middle last : Snapshot α}
    (hfirst : PrunedBelow bound first middle) (hsecond : PrunedBelow bound middle last) :
    PrunedBelow bound first last where
  frame := by
    rw [hsecond.frame, hfirst.frame]
  responses height hheight :=
    (hsecond.responses height hheight).trans (hfirst.responses height hheight)
  validators height hheight :=
    (hsecond.validators height hheight).trans (hfirst.validators height hheight)

variable (env : Env α) (block : Block)

def run : α × ABCIResponses := runBlock env now.lastState block now.working

/-- The result of committing it. -/
def commitRun : α × ResponseCommit := env.app.commit (now.run env block).1

def executedState : State := Executor.updateState env.tm now.lastState block

def finishedState (base : UInt64) : State := storedState
    (committedState env.tm (now.executedState env block)
      (now.commitRun env block).2.data (now.run env block).2)
    (now.executedState env block).validators block.header.height base

def executed : Snapshot α := (now.atWork (now.run env block).1 block.header.height.toInt64).remember
    (now.executedState env block)

def persisted (message : Pb.State) (set : ValidatorSet) : Snapshot α :=
  (now.executed env block).persist block.header.height (now.run env block).2 message set

def committedBlock (message : Pb.State) (set : ValidatorSet) : Snapshot α :=
  (now.persisted env block message set).commit (now.commitRun env block).1
    (now.commitRun env block).2.data

end Snapshot

inductive Stop (env : Env α) (block : Block) (message : Pb.State)
    (set : ValidatorSet) (start : Snapshot α) : Snapshot α → Prop
  | executing (working : α) (workingHeight : Int64) :
      Stop env block message set start (start.atWork working workingHeight)
  | executed : Stop env block message set start (start.executed env block)
  | persisted :
      Stop env block message set start (start.persisted env block message set)
  | committed {later : Snapshot α}
      (hpruned : (start.committedBlock env block message set).Pruned later) :
      Stop env block message set start later
  | stored {later : Snapshot α} {base : UInt64} {message' : Pb.State}
      (hpruned : (start.committedBlock env block message set).Pruned later)
      (hmessage : (start.finishedState env block base).toProto env.tm = .ok message') :
      Stop env block message set start (later.store message')

structure Encoded (env : Env α) (block : Block) (start : Snapshot α)
    (message : Pb.State) (set : ValidatorSet) : Prop where
  state : (start.executedState env block).toProto env.tm = .ok message
  validators : env.tm.validatorSetToProto (start.executedState env block).validators = .ok set

def Finished (env : Env α) (block : Block) (start after : Snapshot α) : Prop :=
  ∃ message set later base message', Encoded env block start message set ∧
      (start.committedBlock env block message set).Pruned later ∧
      (start.finishedState env block base).toProto env.tm = .ok message' ∧
      after = (later.store message').remember (start.finishedState env block base)

variable {env : Env α} {block : Block} {message : Pb.State} {set : ValidatorSet}

theorem Encoded.unique {start : Snapshot α} {message' : Pb.State} {set' : ValidatorSet}
    (hencoded : Encoded env block start message set)
    (hencoded' : Encoded env block start message' set') : message = message' ∧ set = set' :=
  ⟨Except.ok.inj (hencoded.state.symm.trans hencoded'.state),
    Except.ok.inj (hencoded.validators.symm.trans hencoded'.validators)⟩

/-- Such a call has passed the moment at which it stores the last record. -/
theorem Finished.stop {start after : Snapshot α} (hencoded : Encoded env block start message set)
    (hfinished : Finished env block start after) :
    ∃ base now, Stop env block message set start now ∧
      after = now.remember (start.finishedState env block base) := by
  obtain ⟨message', set', later, base, message'', hencoded', hlater, hmessage, rfl⟩ := hfinished
  obtain ⟨rfl, rfl⟩ := hencoded.unique hencoded'
  exact ⟨base, _, .stored hlater hmessage, rfl⟩

def Aligned (env : Env α) (height : UInt64) (start after : Snapshot α) : Prop :=
  ∃ appHash responses message, FixedBytes.ofSlice? 32 start.lastBlockAppHash = some appHash ∧
      start.responses height = some responses ∧
      (alignedState env.tm start.lastState appHash height responses).toProto env.tm = .ok message ∧
      after = (start.remember (alignedState env.tm start.lastState appHash
        height responses)).store message

/-! ## What the steps of a call make of a snapshot -/

theorem snapshot_apply_state (node : Node α) (message : Pb.State) :
    Node.snapshot { node with db := node.db.apply ⟨.state, some message⟩ } =
      node.snapshot.store message := by
  have hother (key : Key) (hkey : key ≠ .state) :
      node.db.apply ⟨.state, some message⟩ key = node.db key :=
    Db.apply_of_ne node.db hkey
  simp [Node.snapshot, Snapshot.store, hother]

/-- The records that the batches of `applyBlock` leave alone. -/
theorem snapshot_of_records {node : Node α} {db : Db} (hstate : db .state = node.db .state)
    (hresponses : ∀ height, db (.responses height) = node.db (.responses height))
    (hvalidators : ∀ height, db (.validators height) = node.db (.validators height)) :
    Node.snapshot { node with db := db } = node.snapshot := by
  simp only [Node.snapshot, hstate, hresponses, hvalidators]

theorem snapshot_commit_execution (node : Node α) (height : UInt64) (responses : ABCIResponses)
    (message : Pb.State) (set : ValidatorSet) :
    Node.snapshot { node with
        db := node.db.commit [saveBlockResponses height responses,
          ⟨.state, some message⟩, ⟨.validators height, some set⟩] } =
      node.snapshot.persist height responses message set := by
  have hvalidators : (fun other => node.db.commit
      [saveBlockResponses height responses, ⟨.state, some message⟩,
        ⟨.validators height, some set⟩] (.validators other)) =
      Function.update (fun other => node.db (.validators other)) height (some set) := by
    funext other
    rw [Db.commit_cons, Db.commit_cons, Db.commit_cons, Db.commit_nil]
    by_cases hother : other = height
    · rw [hother, Function.update_self]
      exact Db.apply_self _ _ _
    · rw [Function.update_of_ne hother, Db.apply_of_ne _ (by simp [hother]),
        Db.apply_of_ne _ (by simp),
        Db.apply_of_ne _ (by simp [saveBlockResponses])]
  have hstate := executionWrite_state node.db height responses message set
  simp only [Node.snapshot, Snapshot.persist, hstate, executionWrite_responses, hvalidators]

theorem snapshot_pruneAll (node : Node α) (base : UInt64) {heights : List UInt64}
    (hheights : ∀ height ∈ heights, height.toNat < node.height.toNat) :
    node.snapshot.Pruned (Node.snapshot { node with
      db := node.db.pruneAll heights
      baseHeight := base }) := by
  have hresult {height : UInt64} {key : Key} (hkey : IsResult height key)
      (hheight : node.height ≤ height) :
      node.db.pruneAll heights key = node.db key := by
    apply Db.pruneAll_frame fun db => db key
    intro db other hother
    apply Db.prune_result_of_ne hkey
    rintro rfl
    exact absurd (hheights _ hother) (not_lt.2 (UInt64.le_iff_toNat_le.1 hheight))
  exact {
    frame := by simp only [Node.snapshot, Db.pruneAll_state]
    responses := fun height => hresult (.inl rfl)
    validators := fun height => hresult (.inr rfl) }

theorem snapshot_mapState (node : Node α) (update : State → State) :
    (node.mapState update).snapshot = node.snapshot.remember (update node.snapshot.lastState) :=
  rfl

theorem snapshot_working (node : Node α) (working : α) (call : AbciCall) : Node.snapshot
        { node with app := { node.app with working := working }.log call } =
      node.snapshot.atWork working node.snapshot.workingHeight :=
  rfl

def Point.Moment (env : Env α) (block : Block) (start : Snapshot α)
    (later : Node α) : Point → Prop
  | .start | .saved => later.snapshot = start
  | .hashed => ∃ appHash,
      FixedBytes.ofSlice? 32 start.lastBlockAppHash = some appHash ∧
        later.snapshot = start.remember (start.lastState.setAppHash appHash)
  | .recorded => ∃ appHash,
      FixedBytes.ofSlice? 32 start.lastBlockAppHash = some appHash ∧ later.snapshot = start.remember
          ((start.lastState.setAppHash appHash).setLastStoreHeight block.header.height)
  | .rotated => ∃ appHash,
      FixedBytes.ofSlice? 32 start.lastBlockAppHash = some appHash ∧
        later.snapshot = start.remember (rotatedState start.lastState appHash block.header.height)
  | .resulted => ∃ appHash responses,
      FixedBytes.ofSlice? 32 start.lastBlockAppHash = some appHash ∧
        start.responses block.header.height = some responses ∧
        later.snapshot = start.remember (alignedState env.tm start.lastState
          appHash block.header.height responses)
  | .caughtUp => Aligned env block.header.height start later.snapshot
  | .aligned => ∃ after, Aligned env block.header.height start after ∧
      later.snapshot = { after with height := block.header.height }
  | .delivering .. => ∃ working,
      later.snapshot = start.atWork working block.header.height.toInt64
  | .executed _ => later.snapshot =
      start.atWork (start.run env block).1 block.header.height.toInt64
  | .remembered _ => later.snapshot = start.executed env block
  | .persisted _ => ∃ message set, Encoded env block start message set ∧
      later.snapshot = start.persisted env block message set
  | .committed .. | .published .. | .pruned .. =>
    ∃ message set, Encoded env block start message set ∧
      (start.committedBlock env block message set).Pruned later.snapshot
  | .stored .. => ∃ message set now message',
      Encoded env block start message set ∧
        (start.committedBlock env block message set).Pruned now ∧
        (start.finishedState env block later.baseHeight).toProto env.tm = .ok message' ∧
        later.snapshot = now.store message'
  | .finished => Finished env block start later.snapshot
  | .done => ∃ after, Finished env block start after ∧
      later.snapshot = { after with height := block.header.height }

theorem Node.storedState_eq {start now : Node α} {response : ResponseCommit}
    {responses : ABCIResponses}
    (hresponses : (Point.pruned response responses).Responses env block start now)
    (hstate : now.lastState = start.snapshot.executedState env block) :
    now.storedState env block response responses =
      start.snapshot.finishedState env block now.baseHeight := by
  obtain ⟨rfl, rfl⟩ := hresponses
  rw [Node.storedState, hstate]
  rfl

theorem During.moment {commit : Commit} {start later : Node α} {point : Point}
    (hduring : During env block commit start point later) :
    point.Moment env block start.snapshot later := by
  induction hduring with
  | start => rfl
  | saved =>
    apply snapshot_of_records
    · exact saveBlock_state ..
    · intro height
      exact saveBlock_frame _ _ block commit (by simp) (by simp) (by simp)
    · intro height
      exact saveBlock_frame _ _ block commit (by simp) (by simp) (by simp)
  | hashed _ hhash => exact ⟨_, hhash, rfl⟩
  | recorded _ ih | rotated _ ih =>
    obtain ⟨appHash, hhash, hnow⟩ := ih
    refine ⟨appHash, hhash, ?_⟩
    rw [snapshot_mapState, hnow]
    rfl
  | @resulted now responses _ hresponses ih =>
    obtain ⟨appHash, hhash, hnow⟩ := ih
    refine ⟨appHash, responses, hhash, ?_, ?_⟩
    · rw [← hresponses]
      exact congrArg (Snapshot.responses · block.header.height) hnow.symm
    · rw [snapshot_mapState, hnow]
      rfl
  | @caughtUp now message _ hmessage ih =>
    obtain ⟨appHash, responses, hhash, hresponses, hnow⟩ := ih
    refine ⟨appHash, responses, message, hhash, hresponses, ?_, ?_⟩
    · rw [← hmessage]
      exact congrArg (fun seen => seen.lastState.toProto env.tm) hnow.symm
    · rw [snapshot_apply_state, hnow]
  | @aligned now _ ih => exact ⟨now.snapshot, ih, rfl⟩
  | @begun now _ _ ih =>
    have ih : now.snapshot = start.snapshot := ih
    refine ⟨(env.app.beginBlock now.app.working (beginBlockRequest env block now.lastState)).1, ?_⟩
    rw [← ih]
    rfl
  | @delivered now _ tx _ _ _ ih =>
    obtain ⟨working, hnow⟩ := ih
    refine ⟨(env.app.deliverTx now.app.working tx).1, (snapshot_working ..).trans ?_⟩
    rw [hnow]
    rfl
  | ended hnow ih =>
    obtain ⟨working, hworking⟩ := ih
    have hrun := congrArg Prod.fst hnow.ended.responses
    refine (snapshot_working ..).trans ?_
    rw [hworking]
    exact congrArg (start.snapshot.atWork · _) hrun
  | @remembered now _ _ ih =>
    rw [Point.Moment, snapshot_mapState, ih]
    rfl
  | @persisted now responses message set hnow hmessage hset ih =>
    have hstate : now.lastState = start.snapshot.executedState env block :=
      congrArg Snapshot.lastState ih
    have hresponses : responses = (start.snapshot.run env block).2 :=
      congrArg Prod.snd hnow.responses
    rw [hstate] at hmessage hset
    refine ⟨message, set, ⟨hmessage, hset⟩, ?_⟩
    rw [snapshot_commit_execution, ih, hresponses]
    rfl
  | @committed now responses hnow ih =>
    obtain ⟨message, set, hencoded, hpersisted⟩ := ih
    have hworking : now.app.working = (start.snapshot.run env block).1 :=
      congrArg Prod.fst hnow.responses
    have hcommit : Node.snapshot { now with
        app := now.app.commit (env.app.commit now.app.working).1
          (env.app.commit now.app.working).2.data } =
        start.snapshot.committedBlock env block message set := by
      rw [hworking, Snapshot.committedBlock, ← hpersisted]
      rfl
    exact ⟨message, set, hencoded, hcommit ▸ .refl _ _⟩
  | published _ ih => exact ih
  | @pruned now _ _ _ base _ _ hbound _ hheights _ ih =>
    obtain ⟨message, set, hencoded, hnow⟩ := ih
    refine ⟨message, set, hencoded, hnow.trans ?_⟩
    have hheight := congrArg Snapshot.height hnow.frame
    have hpruned := snapshot_pruneAll now base fun height h =>
      (hheights height h).trans_le hbound
    rwa [Snapshot.Pruned, hheight] at hpruned
  | @stored now _ _ message' hnow hmessage ih =>
    obtain ⟨message, set, hencoded, hpruned⟩ := ih
    have hstate : now.lastState = start.snapshot.executedState env block :=
      congrArg Snapshot.lastState hpruned.frame
    rw [Node.storedState_eq hnow.responses hstate] at hmessage
    exact ⟨message, set, now.snapshot, message', hencoded, hpruned, hmessage,
      snapshot_apply_state now message'⟩
  | @finished now _ _ hnow ih =>
    obtain ⟨message, set, seen, message', hencoded, hpruned, hmessage, hseen⟩ := ih
    refine ⟨message, set, seen, now.baseHeight, message', hencoded, hpruned, hmessage, ?_⟩
    have hstate : now.lastState = start.snapshot.executedState env block :=
      (congrArg Snapshot.lastState hseen).trans (congrArg Snapshot.lastState hpruned.frame)
    rw [snapshot_mapState, hseen, Node.storedState_eq hnow.responses hstate]
  | @done now _ ih => exact ⟨now.snapshot, ih, rfl⟩

/-! ## Specifications in terms of snapshots -/

/-- The environment lets steps fail only if `faults`, and asks for `safe` at
every moment. -/
structure Watches (rules : Proc.Rules (Node α) Answer) (faults : Prop)
    (safe : Snapshot α → Prop) : Prop where
  allowed : ∀ node answer, rules.allowed node answer → answer ≠ .ok → faults
  crash : ∀ node : Node α, safe node.snapshot → rules.crash node

/-- What must hold at the moments of an alignment. -/
structure AlignSpec (env : Env α) (height : UInt64) (faults : Prop)
    (safe failed : Snapshot α → Prop) (start : Snapshot α) : Prop where
  hash : ∀ appHash : Hash, safe (start.remember (start.lastState.setAppHash appHash))
  recorded : ∀ appHash : Hash, safe (start.remember
    ((start.lastState.setAppHash appHash).setLastStoreHeight height))
  rotated : ∀ appHash, safe (start.remember (rotatedState start.lastState appHash height))
  rotated_failed : ∀ appHash, (faults ∨ start.responses height = none) →
    failed (start.remember (rotatedState start.lastState appHash height))
  aligned : ∀ appHash responses, FixedBytes.ofSlice? 32 start.lastBlockAppHash = some appHash →
    start.responses height = some responses →
    ∃ message, (alignedState env.tm start.lastState appHash height
        responses).toProto env.tm = .ok message ∧
      (let now := start.remember
        (alignedState env.tm start.lastState appHash height responses)
       safe now ∧ safe (now.store message) ∧ (faults → failed now ∧ failed (now.store message)))

/-- What must hold at the moments of a call that executes the block. -/
structure ExecuteSpec (env : Env α) (block : Block) (message : Pb.State)
    (set : ValidatorSet) (faults : Prop) (safe failed : Snapshot α → Prop)
    (start : Snapshot α) : Prop
    extends Encoded env block start message set where
  encodes : ∀ base, ∃ message', (start.finishedState env block base).toProto env.tm = .ok message'
  safe_of_stop : ∀ now, Stop env block message set start now → safe now
  failed_of_stop : faults → ∀ now, Stop env block message set start now → failed now
  safe_of_finished : ∀ after, Finished env block start after → safe after

/-- What must hold at the moments of a call with the next block. -/
structure ApplySpec (env : Env α) (block : Block) (commit : Commit)
    (faults : Prop) (safe failed : Snapshot α → Prop)
    (start : Snapshot α) : Prop where
  executing : ∀ working workingHeight, safe (start.atWork working workingHeight)
  executing_failed : faults → ∀ working workingHeight, failed (start.atWork working workingHeight)
  align : start.lastBlockHeight.toUInt64 = block.header.height →
    AlignSpec env block.header.height faults safe failed start
  rejected : start.lastBlockHeight.toUInt64 ≠ block.header.height →
    ∀ error, Executor.validate env.tm start.lastState block commit
      env.getProposer = .err error → failed start
  execute : start.lastBlockHeight.toUInt64 ≠ block.header.height →
    Executor.validate env.tm start.lastState block commit env.getProposer = .ok () →
    ∃ message set, ExecuteSpec env block message set faults safe failed start

/-- How a call with the next block ends when it returns without an error: the
store has caught up with the application, or the block was accepted and
executed. -/
inductive Applied (env : Env α) (block : Block) (commit : Commit)
    (start : Snapshot α) : Snapshot α → Prop
  | aligned {after : Snapshot α}
      (happ : start.lastBlockHeight.toUInt64 = block.header.height)
      (haligned : Aligned env block.header.height start after) :
      Applied env block commit start { after with height := block.header.height }
  | executed {after : Snapshot α}
      (happ : start.lastBlockHeight.toUInt64 ≠ block.header.height)
      (hvalid : Executor.validate env.tm start.lastState block commit env.getProposer = .ok ())
      (hfinished : Finished env block start after) :
      Applied env block commit start { after with height := block.header.height }

section

variable {env : Env α} {block : Block} {commit : Commit} {start later : Node α}
variable {faults : Prop} {safe failed : Snapshot α → Prop} {point : Point}
variable {rules : Proc.Rules (Node α) Answer}

theorem During.stop (hduring : During env block commit start point later)
    (hreached : Accepts env block commit start) (hstops : point.Stops)
    (hencoded : Encoded env block start.snapshot message set) :
    Stop env block message set start.snapshot later.snapshot := by
  have hmoment := hduring.moment
  cases point with
  | start | saved =>
    rw [show later.snapshot = start.snapshot from hmoment]
    exact .executing _ _
  | hashed | recorded | finished | aligned | done => exact hstops.elim
  | rotated | resulted | caughtUp => exact absurd hduring.reached hreached.1
  | delivering =>
    obtain ⟨working, hmoment⟩ := hmoment
    exact hmoment ▸ .executing _ _
  | executed => exact Eq.symm hmoment ▸ .executing _ _
  | remembered => exact Eq.symm hmoment ▸ .executed
  | persisted =>
    obtain ⟨message', set', hencoded', hmoment⟩ := hmoment
    obtain ⟨rfl, rfl⟩ := hencoded.unique hencoded'
    exact hmoment ▸ .persisted
  | committed | published | pruned =>
    obtain ⟨message', set', hencoded', hpruned⟩ := hmoment
    obtain ⟨rfl, rfl⟩ := hencoded.unique hencoded'
    exact .committed hpruned
  | stored =>
    obtain ⟨message', set', now, message'', hencoded', hpruned, hmessage, hmoment⟩ := hmoment
    obtain ⟨rfl, rfl⟩ := hencoded.unique hencoded'
    exact hmoment ▸ .stored hpruned hmessage

section

variable (hspec : ApplySpec env block commit faults safe failed start.snapshot)
variable (hduring : During env block commit start point later)

include hspec hduring

/-- The specification at the moments of a call. -/
theorem ApplySpec.during (hfinal : ¬ point.Final) :
    safe later.snapshot ∧ (faults → point.Stops → failed later.snapshot) := by
  have hexecuting (working : α) (workingHeight : Int64) :
      safe (start.snapshot.atWork working workingHeight) ∧
        (faults → failed (start.snapshot.atWork working workingHeight)) :=
    ⟨hspec.executing _ _, fun hfaults => hspec.executing_failed hfaults _ _⟩
  have hmoment := hduring.moment
  have hreached := hduring.reached
  cases point with
  | aligned | done => exact absurd trivial hfinal
  | start | saved =>
    rw [show later.snapshot = start.snapshot from hmoment]
    exact ⟨(hexecuting _ _).1, fun hfaults _ => (hexecuting _ _).2 hfaults⟩
  | hashed =>
    obtain ⟨appHash, _, hmoment⟩ := hmoment
    exact ⟨hmoment ▸ (hspec.align hreached).hash appHash, fun _ => False.elim⟩
  | recorded =>
    obtain ⟨appHash, _, hmoment⟩ := hmoment
    exact ⟨hmoment ▸ (hspec.align hreached).recorded appHash, fun _ => False.elim⟩
  | rotated =>
    obtain ⟨appHash, _, hmoment⟩ := hmoment
    rw [hmoment]
    exact ⟨(hspec.align hreached).rotated appHash,
      fun hfaults _ => (hspec.align hreached).rotated_failed appHash (.inl hfaults)⟩
  | resulted =>
    obtain ⟨appHash, responses, hhash, hresponses, hmoment⟩ := hmoment
    obtain ⟨message, _, hsafe, _, hfailed⟩ :=
      (hspec.align hreached).aligned appHash responses hhash hresponses
    rw [hmoment]
    exact ⟨hsafe, fun hfaults _ => (hfailed hfaults).1⟩
  | caughtUp =>
    obtain ⟨appHash, responses, message, hhash, hresponses, hmessage, hmoment⟩ := hmoment
    obtain ⟨message', hmessage', _, hsafe, hfailed⟩ :=
      (hspec.align hreached).aligned appHash responses hhash hresponses
    obtain rfl : message = message' := Except.ok.inj (hmessage.symm.trans hmessage')
    rw [hmoment]
    exact ⟨hsafe, fun hfaults _ => (hfailed hfaults).2⟩
  | finished =>
    obtain ⟨message, set, hexecute⟩ := hspec.execute hreached.1 hreached.2
    exact ⟨hexecute.safe_of_finished _ hmoment, fun _ => False.elim⟩
  | delivering | executed | remembered | persisted | committed | published
  | pruned | stored =>
    obtain ⟨message, set, hexecute⟩ := hspec.execute hreached.1 hreached.2
    have hstop := hduring.stop hreached trivial hexecute.toEncoded
    exact ⟨hexecute.safe_of_stop _ hstop, fun hfaults _ => hexecute.failed_of_stop hfaults _ hstop⟩

/-- An error that no failing step explains is a missing record of the results or
a block that does not pass validation. -/
theorem ApplySpec.refuses
    (hrefuses : Refuses env block commit point later) : failed later.snapshot := by
  have hmoment := hduring.moment
  have hreached := hduring.reached
  cases hrefuses with
  | responses hnone =>
    obtain ⟨appHash, _, hmoment⟩ := hmoment
    have hnone : start.snapshot.responses block.header.height = none :=
      (congrArg (Snapshot.responses · _) hmoment).symm.trans hnone
    rw [hmoment]
    exact (hspec.align hreached).rotated_failed appHash (.inr hnone)
  | aligned hmessage =>
    obtain ⟨appHash, responses, hhash, hresponses, hmoment⟩ := hmoment
    obtain ⟨message, hmessage', _⟩ :=
      (hspec.align hreached).aligned appHash responses hhash hresponses
    have hstate : later.lastState = alignedState env.tm start.lastState appHash
        block.header.height responses :=
      congrArg Snapshot.lastState hmoment
    exact absurd (hstate ▸ hmessage') (hmessage message)
  | rejected hvalid =>
    rw [show later.snapshot = start.snapshot from hmoment]
    exact hspec.rejected hreached _ (hduring.eq_saved ▸ hvalid)
  | state hmessage =>
    obtain ⟨message, set, hexecute⟩ := hspec.execute hreached.1 hreached.2
    have hstate : later.lastState = start.snapshot.executedState env block :=
      congrArg Snapshot.lastState hmoment
    exact absurd (hstate ▸ hexecute.state) (hmessage message)
  | validators hset =>
    obtain ⟨message, set, hexecute⟩ := hspec.execute hreached.1 hreached.2
    have hstate : later.lastState = start.snapshot.executedState env block :=
      congrArg Snapshot.lastState hmoment
    exact absurd (hstate ▸ hexecute.validators) (hset set)
  | stored hmessage =>
    obtain ⟨message, set, hexecute⟩ := hspec.execute hreached.1 hreached.2
    obtain ⟨_, _, _, hpruned⟩ := hmoment
    have hstate : later.lastState = start.snapshot.executedState env block :=
      congrArg Snapshot.lastState hpruned.frame
    obtain ⟨message', hmessage'⟩ := hexecute.encodes later.baseHeight
    rw [← Node.storedState_eq hduring.responses hstate] at hmessage'
    exact absurd hmessage' (hmessage message')

end

theorem During.applied (hduring : During env block commit start point later)
    (hfinal : point.Final) :
    Applied env block commit start.snapshot later.snapshot := by
  have hmoment := hduring.moment
  have hreached := hduring.reached
  cases point with
  | aligned =>
    obtain ⟨after, haligned, hmoment⟩ := hmoment
    exact hmoment ▸ .aligned hreached haligned
  | done =>
    obtain ⟨after, hfinished, hmoment⟩ := hmoment
    exact hmoment ▸ .executed hreached.1 hreached.2 hfinished
  | _ => exact hfinal.elim

/-- The rule for `applyBlock` in terms of snapshots. -/
theorem wp_applyBlock_spec (hwatch : Watches rules faults safe) (hstart : safe start.snapshot)
    (hlt : start.height < start.height + 1)
    (hspec : block.header.height = start.height + 1 → ApplySpec env block commit faults safe failed
      start.snapshot) :
    (applyBlock env block commit).wp rules (Proc.Ends (fun _ later =>
          if block.header.height = start.height + 1 then
            Applied env block commit start.snapshot later.snapshot
          else start.snapshot = later.snapshot)
        (fun later => failed later.snapshot) fun later => safe later.snapshot)
      start := by
  by_cases hnext : block.header.height = start.height + 1
  · have hspec := hspec hnext
    simp only [if_pos hnext]
    apply wp_applyBlock_of hnext hlt
    · intro point later hlater hfinal
      exact hwatch.crash _ (hspec.during hlater hfinal).1
    · intro point later hlater hfinal
      exact hlater.applied hfinal
    · rintro point later hlater hstops (⟨node, answer, hanswer, hne, _⟩ | hrefuses)
      · exact (hspec.during hlater hstops.not_final).2
          (hwatch.allowed node answer hanswer hne) hstops
      · exact hspec.refuses hlater hrefuses
    · intro point later hlater hpanics
      have hfinal : ¬ point.Final := by
        cases hpanics <;> exact id
      exact (hspec.during hlater hfinal).1
  · apply wp_read_bind (hwatch.crash _ hstart)
    rw [if_pos hnext]
    simp only [if_neg hnext]
    exact rfl

end

end Dymint.Manager
