import Dymint.Block.Course
import Dymint.Block.System
import Dymint.Types.Codec

/-!
# Runs without failing steps

As long as no step fails, what a call does is determined by the records, the
heights and the states that it starts from.  This file computes it: the effect
of executing a block as a function on the application's states, and from it the
effect of `applyBlock` and of a restart.  In between, what a crash would leave
behind only changes at three steps: when the responses are persisted, when the
application commits and when the block is recorded as stored.
-/

namespace Dymint.Manager

open Procedure Dymint.Types Store

variable {α β : Type}

/-! ## What a run depends on -/

/-- What survives a crash. -/
structure Disk (α : Type) where
  blocks : BlockRecords
  state : Option Pb.State
  responses : UInt64 → Option ABCIResponses
  committed : α
  lastBlockHeight : Int64
  lastBlockAppHash : Bytes

structure Ledger (α : Type) where
  disk : Disk α
  lastState : State
  height : UInt64
  baseHeight : UInt64
  working : α
  workingHeight : Int64

def Node.disk (node : Node α) : Disk α where
  blocks := node.db.blockRecords
  state := node.db .state
  responses height := node.db (.responses height)
  committed := node.app.committed
  lastBlockHeight := node.app.lastBlockHeight
  lastBlockAppHash := node.app.lastBlockAppHash

def Node.ledger (node : Node α) : Ledger α where
  disk := node.disk
  lastState := node.lastState
  height := node.height
  baseHeight := node.baseHeight
  working := node.app.working
  workingHeight := node.app.workingHeight

/-- Steps do not fail, but the process may crash. -/
abbrev faultFree (safe : Disk α → Prop) : Proc.Rules (Node α) Answer where
  allowed _ answer := answer = .ok
  crash node := safe node.disk

/-- Nothing is asked of a crash. -/
abbrev anyDisk : Disk α → Prop := fun _ => True

/-- Without failing steps, the procedure takes one ledger to another. -/
abbrev Runs (safe : Disk α → Prop) (proc : M α β) (before : Ledger α)
    (result : Result Error β) (after : Ledger α) : Prop :=
  proc.Yields (faultFree safe) Node.ledger before result after

variable {message : Pb.State} {state : State} {after ledger : Ledger α} {height : UInt64}

theorem runs_callWith {onErr : Error → Error} {run : Node α → Node α × Result Error β} {value : β}
    (hrun : ∀ node, node.ledger = ledger → (run node).2 = .ok value ∧ (run node).1.ledger = after) :
    Runs anyDisk (callWith onErr run) ledger (.ok value) after := by
  intro node hnode
  obtain ⟨hvalue, hafter⟩ := hrun node hnode
  rw [wp_callWith, hvalue]
  exact ⟨trivial, fun _ => ⟨rfl, hafter⟩, nofun, nofun⟩

theorem runs_read {view : Node α → β} {value : β}
    (hview : ∀ node, node.ledger = ledger → view node = value) :
    Runs anyDisk (Proc.read view) ledger (.ok value) ledger :=
  fun node hnode => ⟨trivial, fun _ _ => ⟨congrArg Result.ok (hview node hnode), hnode⟩⟩

theorem runs_write {update : Node α → Node α}
    (hupdate : ∀ node, node.ledger = ledger → (update node).ledger = after) :
    Runs anyDisk (Proc.write update) ledger (.ok ()) after :=
  fun node hnode => ⟨trivial, fun _ _ => ⟨rfl, hupdate node hnode⟩⟩

theorem runs_storeHeight : Runs anyDisk storeHeight ledger (.ok ledger.height) ledger :=
  runs_read fun _ hnode => congrArg Ledger.height hnode

theorem runs_getLastState : Runs anyDisk getLastState ledger (.ok ledger.lastState) ledger :=
  runs_read fun _ hnode => congrArg Ledger.lastState hnode

theorem runs_modifyLastState (update : State → State) :
    Runs anyDisk (modifyLastState update) ledger (.ok ())
      { ledger with lastState := update ledger.lastState } :=
  runs_write fun _ hnode => by rw [← hnode]; rfl

/-! ## What the writes make of the disk -/

namespace Disk

variable (disk : Disk α)

def save (tm : Tendermint) (block : Block) (commit : Commit) : Disk α :=
  { disk with blocks := disk.blocks.save tm block commit }

def record (message : Pb.State) : Disk α :=
  { disk with state := some message }

def execute (height : UInt64) (message : Pb.State) (responses : ABCIResponses) : Disk α :=
  { disk with
    state := some message
    responses := Function.update disk.responses height (some responses) }

def commit (committed : α) (height : Int64) (appHash : Bytes) : Disk α :=
  { disk with
    committed := committed
    lastBlockHeight := height
    lastBlockAppHash := appHash }

end Disk

theorem ledger_saveBlock (tm : Tendermint) (node : Node α) (block : Block) (commit : Commit) :
    Node.ledger { node with db := node.db.commit (saveBlock tm block commit) } =
      { node.ledger with disk := node.disk.save tm block commit } := by
  have hresponses (height : UInt64) :
      node.db.commit (saveBlock tm block commit) (.responses height) =
        node.db (.responses height) :=
    saveBlock_frame tm node.db block commit (by simp) (by simp) (by simp)
  simp only [Node.ledger, Node.disk, Disk.save, saveBlock_state, hresponses, blockRecords_saveBlock]

theorem ledger_stateWrite (node : Node α) (message : Pb.State) :
    Node.ledger { node with db := node.db.apply ⟨.state, some message⟩ } =
      { node.ledger with disk := node.disk.record message } := by
  have hresponses (height : UInt64) :
      node.db.apply ⟨.state, some message⟩ (.responses height) = node.db (.responses height) :=
    Db.apply_of_ne node.db (by simp)
  have hblocks := blockRecords_stateWrite node.db message
  simp only [Node.ledger, Node.disk, Disk.record, hresponses, hblocks, Db.apply_self]

theorem ledger_executionWrite (node : Node α) (height : UInt64) (responses : ABCIResponses)
    (message : Pb.State) (set : ValidatorSet) :
    Node.ledger { node with
        db := node.db.commit [saveBlockResponses height responses, ⟨.state, some message⟩,
          ⟨.validators height, some set⟩] } =
      { node.ledger with disk := node.disk.execute height message responses } := by
  have hstate := executionWrite_state node.db height responses message set
  have hblocks := blockRecords_executionWrite node.db height responses message set
  simp only [Node.ledger, Node.disk, Disk.execute, hstate, executionWrite_responses, hblocks]

theorem runs_updateStoreState {env : Env α} (onErr : Error → Error)
    (hmessage : state.toProto env.tm = .ok message) :
    Runs anyDisk (updateStoreState env onErr state) ledger (.ok ())
      { ledger with disk := ledger.disk.record message } := by
  apply runs_callWith
  intro node hnode
  have hwrite : updateState env.tm state = .ok ⟨.state, some message⟩ :=
    updateState_eq_ok.2 ⟨message, hmessage, rfl⟩
  rw [hwrite, ← hnode]
  exact ⟨rfl, ledger_stateWrite node message⟩

/-! ## Applying a block -/

section

variable (env : Env α) (block : Block) (commit : Commit) (ledger : Ledger α)

def blockRun : α × ABCIResponses := runBlock env ledger.lastState block ledger.working

def blockCommit : α × ResponseCommit := env.app.commit (blockRun env block ledger).1

def executedState : State := Executor.updateState env.tm ledger.lastState block

def appliedState : State := storedState
    (committedState env.tm (executedState env block ledger)
      (blockCommit env block ledger).2.data (blockRun env block ledger).2)
    (executedState env block ledger).validators block.header.height
    ledger.baseHeight

/-- What a crash leaves between the batch and the application's commit. -/
def executedDisk (message : Pb.State) : Disk α :=
  (ledger.disk.save env.tm block commit).execute block.header.height message
    (blockRun env block ledger).2

def committedDisk (message : Pb.State) : Disk α :=
  (executedDisk env block commit ledger message).commit
    (blockCommit env block ledger).1 block.header.height.toInt64
    (blockCommit env block ledger).2.data

def appliedLedger (message message' : Pb.State) : Ledger α where
  disk := (committedDisk env block commit ledger message).record message'
  lastState := appliedState env block ledger
  height := block.header.height
  baseHeight := ledger.baseHeight
  working := (blockCommit env block ledger).1
  workingHeight := block.header.height.toInt64

def Ledger.executing (disk : Disk α) (working : α) (state : State) : Ledger α :=
  { ledger with
    disk := disk
    lastState := state
    working := working
    workingHeight := block.header.height.toInt64 }

/-- The ledger at the points of a call that executes the block and prunes nothing. -/
def Point.Executing (message message' : Pb.State) (later : Ledger α) : Point → Prop
  | .start => later = ledger
  | .saved => later = { ledger with disk := ledger.disk.save env.tm block commit }
  | .delivering .. => ∃ working, later = ledger.executing block
      (ledger.disk.save env.tm block commit) working ledger.lastState
  | .executed _ => later = ledger.executing block (ledger.disk.save env.tm block commit)
      (blockRun env block ledger).1 ledger.lastState
  | .remembered _ => later = ledger.executing block (ledger.disk.save env.tm block commit)
      (blockRun env block ledger).1 (executedState env block ledger)
  | .persisted _ => later = ledger.executing block
      (executedDisk env block commit ledger message) (blockRun env block ledger).1
      (executedState env block ledger)
  | .committed .. | .published .. | .pruned .. => later = ledger.executing block
      (committedDisk env block commit ledger message) (blockCommit env block ledger).1
      (executedState env block ledger)
  | .stored .. => later = ledger.executing block
      ((committedDisk env block commit ledger message).record message')
      (blockCommit env block ledger).1 (executedState env block ledger)
  | .finished => later = ledger.executing block
      ((committedDisk env block commit ledger message).record message')
      (blockCommit env block ledger).1 (appliedState env block ledger)
  | .done => later = appliedLedger env block commit ledger message message'
  | _ => True

/-- The ledger at the points of a call that aligns the store with the application. -/
def Point.Aligning (appHash : Hash) (responses : ABCIResponses) (message : Pb.State)
    (later : Ledger α) : Point → Prop
  | .start => later = ledger
  | .hashed => later = { ledger with lastState := ledger.lastState.setAppHash appHash }
  | .recorded => later = { ledger with
      lastState := (ledger.lastState.setAppHash appHash).setLastStoreHeight block.header.height }
  | .rotated => later = { ledger with
      lastState := rotatedState ledger.lastState appHash block.header.height }
  | .resulted => later = { ledger with
      lastState := alignedState env.tm ledger.lastState appHash block.header.height responses }
  | .caughtUp => later = { ledger with
      disk := ledger.disk.record message
      lastState := alignedState env.tm ledger.lastState appHash block.header.height responses }
  | .aligned => later = { ledger with
      disk := ledger.disk.record message
      lastState := alignedState env.tm ledger.lastState appHash block.header.height responses
      height := block.header.height }
  | _ => True

variable {env block commit ledger}
variable {start later : Node α} {point : Point} {message' : Pb.State}

section

variable (hduring : During env block commit start point later)

include hduring

theorem During.storedState_eq {response : ResponseCommit} {responses : ABCIResponses}
    (hpoint : point.Responses env block start later → responses =
      (blockRun env block start.ledger).2 ∧ response = (blockCommit env block start.ledger).2)
    (hstate : later.lastState = executedState env block start.ledger)
    (hbase : later.baseHeight = start.baseHeight) :
    later.storedState env block response responses = appliedState env block start.ledger := by
  obtain ⟨rfl, rfl⟩ := hpoint hduring.responses
  rw [Node.storedState, hstate, hbase]
  rfl

theorem During.executing (hretain : ∀ state, (env.app.commit state).2.retainHeight ≤ 0)
    (hmessage : (executedState env block start.ledger).toProto env.tm = .ok message)
    (hmessage' : (appliedState env block start.ledger).toProto env.tm = .ok message') :
    point.Executing env block commit start.ledger message message' later.ledger := by
  induction hduring with
  | start => rfl
  | saved => exact ledger_saveBlock ..
  | begun _ _ ih =>
    exact ⟨_, congrArg (fun now : Ledger α => now.executing block now.disk _ now.lastState) ih⟩
  | @delivered now _ tx _ _ _ ih =>
    obtain ⟨_, ih⟩ := ih
    exact ⟨(env.app.deliverTx now.app.working tx).1, congrArg (fun now' : Ledger α =>
      { now' with working := (env.app.deliverTx now.app.working tx).1 }) ih⟩
  | @ended now _ _ hnow ih =>
    obtain ⟨_, ih⟩ := ih
    have hworking := congrArg Prod.fst hnow.ended.responses
    refine (congrArg (fun now' : Ledger α => { now' with
      working := (env.app.endBlock now.app.working block.header.height.toInt64).1 }) ih).trans ?_
    exact congrArg (start.ledger.executing block _ · _) hworking
  | remembered _ ih =>
    exact congrArg (fun now : Ledger α =>
      { now with lastState := Executor.updateState env.tm now.lastState block }) ih
  | @persisted now responses written set hnow hwritten _ ih =>
    have hstate : now.lastState = executedState env block start.ledger :=
      congrArg Ledger.lastState ih
    have hresponses : responses = (blockRun env block start.ledger).2 :=
      congrArg Prod.snd hnow.responses
    rw [hstate, hmessage] at hwritten
    cases hwritten
    rw [ledger_executionWrite, hresponses]
    exact congrArg (fun now : Ledger α =>
      { now with
        disk := now.disk.execute block.header.height message (blockRun env block start.ledger).2 })
      ih
  | @committed now _ hnow ih =>
    have hworking : now.app.working = (blockRun env block start.ledger).1 :=
      congrArg Prod.fst hnow.responses
    rw [hworking]
    exact congrArg (fun now : Ledger α =>
      { now with
        disk := now.disk.commit (blockCommit env block start.ledger).1 now.workingHeight
          (blockCommit env block start.ledger).2.data
        working := (blockCommit env block start.ledger).1 }) ih
  | pruned hnow _ _ _ hsame ih =>
    rw [hsame (hnow.responses.2 ▸ hretain _)]
    exact ih
  | @stored now _ _ written hnow hwritten ih =>
    have hstate := congrArg Ledger.lastState ih
    rw [hnow.storedState_eq id hstate (congrArg Ledger.baseHeight ih), hmessage'] at hwritten
    cases hwritten
    rw [ledger_stateWrite]
    exact congrArg (fun now : Ledger α => { now with disk := now.disk.record message' }) ih
  | @finished now _ _ hnow ih =>
    have hstate := congrArg Ledger.lastState ih
    rw [hnow.storedState_eq id hstate (congrArg Ledger.baseHeight ih)]
    exact congrArg (fun now : Ledger α =>
      { now with lastState := appliedState env block start.ledger }) ih
  | done _ ih =>
    exact congrArg (fun now : Ledger α => { now with height := block.header.height }) ih
  | published => assumption
  | _ => trivial

theorem During.aligning {appHash : Hash} {responses : ABCIResponses}
    (hhash : FixedBytes.ofSlice? 32 start.app.lastBlockAppHash = some appHash)
    (hresponses : start.db (.responses block.header.height) = some responses)
    (hmessage : (alignedState env.tm start.lastState appHash block.header.height
      responses).toProto env.tm = .ok message) :
    point.Aligning env block start.ledger appHash responses message later.ledger := by
  induction hduring with
  | start => rfl
  | hashed _ hhash' =>
    cases hhash.symm.trans hhash'
    rfl
  | recorded _ ih =>
    exact congrArg (fun now : Ledger α =>
      { now with lastState := now.lastState.setLastStoreHeight block.header.height }) ih
  | rotated _ ih =>
    exact congrArg (fun now : Ledger α =>
      { now with lastState := now.lastState.setLastValidators now.lastState.validators }) ih
  | @resulted now responses' _ hresponses' ih =>
    have hsame := congrArg (fun now : Ledger α => now.disk.responses block.header.height) ih
    cases hresponses.symm.trans (hsame.symm.trans hresponses')
    exact congrArg (fun now : Ledger α =>
      { now with
        lastState := now.lastState.setLastResultsHash (now.lastState.lastResultsHash.copy
          (env.tm.resultsHash responses.deliverTxs).bytes) }) ih
  | @caughtUp now written _ hwritten ih =>
    rw [show now.lastState = _ from congrArg Ledger.lastState ih] at hwritten
    cases hmessage.symm.trans hwritten
    rw [ledger_stateWrite]
    exact congrArg (fun now : Ledger α => { now with disk := now.disk.record message }) ih
  | aligned _ ih =>
    exact congrArg (fun now : Ledger α => { now with height := block.header.height }) ih
  | _ => trivial

end

variable {safe : Disk α → Prop}

theorem runs_applyBlock_ignored (hheight : block.header.height ≠ ledger.height + 1) :
    Runs anyDisk (applyBlock env block commit) ledger (.ok ()) ledger := by
  apply runs_storeHeight.bind
  rw [if_pos hheight]
  exact Proc.yields_pure _

theorem safe_of_ledger (hledger : later.ledger = ledger) (hsafe : safe ledger.disk) :
    safe later.disk := by
  rw [← hledger] at hsafe
  exact hsafe

theorem lastState_of_ledger (hledger : later.ledger = ledger) :
    later.lastState = ledger.lastState :=
  congrArg Ledger.lastState hledger

/-- A call that neither refuses the block nor panics gets through. -/
theorem runs_applyBlock (hgate : block.header.height = ledger.height + 1)
    (hlt : ledger.height < block.header.height)
    (hsafe : ∀ start point later, Node.ledger start = ledger →
      During env block commit start point later → ¬ point.Final → safe later.disk)
    (hafter : ∀ start point later, Node.ledger start = ledger →
      During env block commit start point later → point.Final → later.ledger = after)
    (hstuck : ∀ start point later, Node.ledger start = ledger →
      During env block commit start point later →
      ¬ Refuses env block commit point later ∧ ¬ Panics env block commit point later) :
    Runs safe (applyBlock env block commit) ledger (.ok ()) after := by
  rintro start rfl
  have hends : (applyBlock env block commit).wp (faultFree safe)
      (Proc.Ends (fun _ later => later.ledger = after) (fun _ => False) fun _ => False) start := by
    apply wp_applyBlock_of hgate (hgate ▸ hlt)
    · intro point later hlater hfinal
      exact hsafe start point later rfl hlater hfinal
    · intro point later hlater hfinal
      exact hafter start point later rfl hlater hfinal
    · rintro point later hlater _ (⟨_, _, hallowed, hne, _⟩ | hrefuses)
      · exact hne hallowed
      · exact (hstuck start point later rfl hlater).1 hrefuses
    · intro point later hlater hpanics
      exact (hstuck start point later rfl hlater).2 hpanics
  apply Proc.wp_conseq hends
  intro result later hlater
  cases result with
  | ok => exact ⟨rfl, hlater⟩
  | err | panic => exact hlater.elim

end

/-! ## Restarting -/

section

variable {env : Env α}

theorem runs_loadStoreState (hdisk : ledger.disk.state = some message)
    (hstate : State.fromProto env.tm message = .ok state) :
    Runs anyDisk (loadStoreState env) ledger (.ok state)
      { ledger with
        height := state.lastStoreHeight
        baseHeight := state.baseHeight } := by
  rintro node rfl
  have hmessage : node.db .state = some message := hdisk
  have hload : loadState env.tm node.db = .ok state := by
    simp only [loadState, hmessage, hstate]
    rfl
  rw [loadStoreState, Proc.wp_bind, Proc.wp_op]
  refine ⟨trivial, fun answer hok => ?_⟩
  obtain rfl : answer = .ok := hok
  dsimp only
  rw [hload]
  exact ⟨trivial, fun _ _ => ⟨trivial, fun _ _ => ⟨rfl, rfl⟩⟩⟩

theorem runs_newManager (hdisk : ledger.disk.state = some message)
    (hstate : State.fromProto env.tm message = .ok state)
    (hblocks : state.lastBlockHeight + 1 ≠ env.genesis.initialHeight) :
    Runs anyDisk (newManager env) ledger (.ok ())
      { ledger with
        lastState := state
        height := state.lastStoreHeight
        baseHeight := state.baseHeight } := by
  have hinitial : Runs anyDisk (getInitialState env) ledger (.ok state)
      { ledger with
        height := state.lastStoreHeight
        baseHeight := state.baseHeight } := by
    apply (runs_loadStoreState hdisk hstate).attempt.bind
    exact Proc.yields_pure _
  apply hinitial.bind
  rw [if_neg hblocks]
  exact runs_modifyLastState _

end

end Dymint.Manager
