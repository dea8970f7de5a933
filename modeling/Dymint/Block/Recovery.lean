import Dymint.Block.Settled
import Dymint.Block.Reference

/-!
# Recovery from a crash while a block is applied

Wherever the process of a settled node crashes, restarting and applying the block
again ends as the uninterrupted call would have ended.  A node whose application
holds a block that it has executed and not committed is not settled: the process
that goes on executes the block over it, and the restarted one does not.
-/

namespace Dymint.Manager

open Procedure Dymint.Types Store CrashSystem

variable {α : Type}

/-! ## Outcomes -/

structure BlockRecord where
  lastBlockHeight : Int64
  lastBlockID : BlockID
  lastBlockTime : Time
  lastStoreHeight : UInt64
  appHash : Bytes
  lastResultsHash : Bytes
  deriving DecidableEq

def blockRecord (message : Pb.State) : BlockRecord where
  lastBlockHeight := message.lastBlockHeight
  lastBlockID := message.lastBlockID
  lastBlockTime := message.lastBlockTime
  lastStoreHeight := message.lastStoreHeight
  appHash := message.appHash
  lastResultsHash := message.lastResultsHash

structure Outcome (α : Type) where
  height : UInt64
  committed : α
  working : α
  lastBlockHeight : Int64
  lastBlockAppHash : Bytes
  persisted : Option BlockRecord
  deriving DecidableEq

def Ledger.outcome (ledger : Ledger α) : Outcome α where
  height := ledger.height
  committed := ledger.disk.committed
  working := ledger.working
  lastBlockHeight := ledger.disk.lastBlockHeight
  lastBlockAppHash := ledger.disk.lastBlockAppHash
  persisted := ledger.disk.state.map blockRecord

def Node.outcome (node : Node α) : Outcome α := node.ledger.outcome

variable {message : Pb.State} {responses : ABCIResponses}

section

variable {env : Env α} {valid : ValidatorSet → Prop} {block : Block}
variable {commit : Commit} {ledger : Ledger α} {disk : Disk α} {state : State}

theorem blockRecord_of_toProto {tm : Tendermint} (hmessage : state.toProto tm = .ok message) :
    blockRecord message =
      { lastBlockHeight := state.lastBlockHeight
        lastBlockID := tm.blockIDToProto state.lastBlockID
        lastBlockTime := state.lastBlockTime
        lastStoreHeight := state.lastStoreHeight
        appHash := state.appHash.bytes
        lastResultsHash := state.lastResultsHash.bytes } := by
  obtain ⟨_, _, _, _, _, _, rfl⟩ := State.toProto_eq_ok.1 hmessage
  rfl

def blockOutcome (env : Env α) (block : Block) (run : α × ABCIResponses) : Outcome α where
  height := block.header.height
  committed := (env.app.commit run.1).1
  working := (env.app.commit run.1).1
  lastBlockHeight := block.header.height.toInt64
  lastBlockAppHash := (env.app.commit run.1).2.data
  persisted := some
    { lastBlockHeight := block.header.height.toInt64
      lastBlockID := env.tm.blockIDToProto ⟨(block.header.hash env.tm).bytes, default⟩
      lastBlockTime := unixNano block.header.time
      lastStoreHeight := block.header.height
      appHash := (env.app.commit run.1).2.data
      lastResultsHash := (env.tm.resultsHash run.2.deliverTxs).bytes }

def alignedOutcome (env : Env α) (disk : Disk α) (state : State)
    (height : UInt64) (responses : ABCIResponses) : Outcome α where
  height := height
  committed := disk.committed
  working := disk.committed
  lastBlockHeight := disk.lastBlockHeight
  lastBlockAppHash := disk.lastBlockAppHash
  persisted := some
    { lastBlockHeight := state.lastBlockHeight
      lastBlockID := env.tm.blockIDToProto state.lastBlockID
      lastBlockTime := state.lastBlockTime
      lastStoreHeight := height
      appHash := disk.lastBlockAppHash
      lastResultsHash := (env.tm.resultsHash responses.deliverTxs).bytes }

theorem blockRecord_applied (hhash : ∀ state, (env.app.commit state).2.data.length = 32)
    (hmessage : (appliedState env block ledger).toProto env.tm = .ok message) :
    some (blockRecord message) =
      (blockOutcome env block (blockRun env block ledger)).persisted := by
  have hdata : ((appliedState env block ledger).appHash).bytes =
      (blockCommit env block ledger).2.data :=
    congrArg FixedBytes.bytes (FixedBytes.copy_of_length _ (hhash _))
  have hresults : ((appliedState env block ledger).lastResultsHash).bytes =
      (env.tm.resultsHash (blockRun env block ledger).2.deliverTxs).bytes :=
    congrArg FixedBytes.bytes (FixedBytes.copy_bytes _ _)
  rw [blockRecord_of_toProto hmessage, hdata, hresults]
  rfl

theorem blockRecord_aligned {height : UInt64} (hhash : disk.lastBlockAppHash.length = 32)
    (hmessage : (alignedState env.tm state ⟨_, hhash⟩ height responses).toProto
      env.tm = .ok message) :
    some (blockRecord message) = (alignedOutcome env disk state height responses).persisted := by
  have hresults : ((alignedState env.tm state ⟨_, hhash⟩ height responses).lastResultsHash).bytes =
      (env.tm.resultsHash responses.deliverTxs).bytes :=
    congrArg FixedBytes.bytes (FixedBytes.copy_bytes _ _)
  rw [blockRecord_of_toProto hmessage, hresults]
  rfl

theorem outcome_appliedLedger {message' : Pb.State}
    (hhash : ∀ state, (env.app.commit state).2.data.length = 32)
    (hmessage : (appliedState env block ledger).toProto env.tm = .ok message') :
    (appliedLedger env block commit ledger message message').outcome =
      blockOutcome env block (blockRun env block ledger) := by
  have hrecord := blockRecord_applied hhash hmessage
  calc
    (appliedLedger env block commit ledger message message').outcome =
        { blockOutcome env block (blockRun env block ledger) with
          persisted := some (blockRecord message') } := rfl
    _ = blockOutcome env block (blockRun env block ledger) := by rw [hrecord]

theorem outcome_aligned (hhash : ledger.disk.lastBlockAppHash.length = 32)
    (hworking : ledger.working = ledger.disk.committed)
    (hmessage : (alignedState env.tm ledger.lastState ⟨_, hhash⟩
      block.header.height responses).toProto env.tm = .ok message) (aligned : State) :
    Ledger.outcome
        { ledger with
          disk := ledger.disk.record message
          lastState := aligned
          height := block.header.height } =
      alignedOutcome env ledger.disk ledger.lastState block.header.height
        responses := by
  have hrecord := blockRecord_aligned hhash hmessage
  calc
    _ = { alignedOutcome env ledger.disk ledger.lastState block.header.height
            responses with
          working := ledger.working
          persisted := some (blockRecord message) } := rfl
    _ = alignedOutcome env ledger.disk ledger.lastState block.header.height
          responses := by rw [hrecord, hworking]; rfl

end

/-! ## Blocks that differ in their evidence -/

section

variable {env : Env α} {valid : ValidatorSet → Prop} {block again : Block}
variable {commit : Commit} {ledger : Ledger α}

section

variable (hagain : again.withoutEvidence = block.withoutEvidence)

include hagain

theorem eq_of_withoutEvidence : again =
      { block with
        data := { block.data with evidence := again.data.evidence } } := by
  obtain ⟨header, ⟨txs, roots, evidence⟩, lastCommit⟩ := again
  simp only [Block.withoutEvidence, Block.mk.injEq, Data.mk.injEq] at hagain
  obtain ⟨rfl, ⟨rfl, rfl, _⟩, rfl⟩ := hagain
  rfl

theorem IsNext.of_withoutEvidence (hnext : IsNext env valid block ledger) :
    IsNext env valid again ledger := by
  rw [eq_of_withoutEvidence hagain]
  exact ⟨hnext.height, hnext.next, hnext.sound⟩

theorem Executable.of_withoutEvidence (hexec : Executable env valid block commit ledger) :
    Executable env valid again commit ledger := by
  refine ⟨hexec.toIsNext.of_withoutEvidence hagain, hexec.app, ?_⟩
  rw [eq_of_withoutEvidence hagain]
  exact hexec.accepted

theorem Ahead.of_withoutEvidence (hahead : Ahead env valid block ledger responses) :
    Ahead env valid again ledger responses := by
  refine ⟨hahead.toIsNext.of_withoutEvidence hagain, ?_, hahead.appHash, ?_⟩
  · rw [eq_of_withoutEvidence hagain]
    exact hahead.app
  · rw [eq_of_withoutEvidence hagain]
    exact hahead.saved

theorem blockOutcome_of_withoutEvidence (state : State)
    (working : α) :
    blockOutcome env again (runBlock env state again working) =
      blockOutcome env block (runBlock env state block working) := by
  rw [eq_of_withoutEvidence hagain]
  rfl

end

end

/-! ## Restarting and applying the block again -/

section

def restarted (disk : Disk α) (state : State) : Ledger α where
  disk := disk
  lastState := state
  height := state.lastStoreHeight
  baseHeight := state.baseHeight
  working := disk.committed
  workingHeight := 0

/-- A restart from the disk and another try of the block lead to the target, and to a
settled node. -/
def Restores (env : Env α) (valid : ValidatorSet → Prop) (block : Block) (commit : Commit)
    (target : Outcome α) (disk : Disk α) : Prop :=
  ∃ message state, disk.state = some message ∧ State.fromProto env.tm message = .ok state ∧
    state.lastBlockHeight + 1 ≠ env.genesis.initialHeight ∧
    ∀ again : Block, again.withoutEvidence = block.withoutEvidence →
      ∃ after, Runs anyDisk (applyBlock env again commit)
          (restarted disk state) (.ok ()) after ∧
        after.outcome = target ∧ Settled env valid after

variable {env : Env α} {valid : ValidatorSet → Prop} {block again : Block}
variable {commit : Commit} {disk : Disk α} {state : State}
variable {message : Pb.State} {target : Outcome α}

theorem Restores.exec {node : Node α} (hrestores : Restores env valid block commit target node.disk)
    (hagain : again.withoutEvidence = block.withoutEvidence) :
    let recovered := (newManager env >>= fun _ =>
      applyBlock env again commit).exec (fun _ => .ok) (crash node)
    recovered.2 = .ok () ∧ recovered.1.outcome = target ∧ Settled env valid recovered.1.ledger := by
  obtain ⟨message, state, hmessage, hstate, hblocks, happly⟩ := hrestores
  obtain ⟨after, hruns, htarget, hafter⟩ := happly again hagain
  have hboot : Runs anyDisk (newManager env) (crash node).ledger
      (.ok ()) (restarted node.disk state) :=
    runs_newManager hmessage hstate hblocks
  have hboth : Runs anyDisk (newManager env >>= fun _ => applyBlock env again commit)
      (crash node).ledger (.ok ()) after := hboot.bind hruns
  obtain ⟨hresult, hledger⟩ := hboth.exec rfl (fun _ => .ok) fun _ _ => rfl
  rw [← hledger] at htarget hafter
  exact ⟨hresult, htarget, hafter⟩

section

variable (hcodec : Codec env.tm valid)
variable (hinitial : state.initialHeight = env.genesis.initialHeight)
variable (hmessage : disk.state = some message)
variable (hencodes : State.Encodes env.tm state message)
variable (hblocks : state.lastBlockHeight + 1 ≠ env.genesis.initialHeight)

include hcodec hinitial hmessage hencodes hblocks

theorem restores_of_executable (hhash : ∀ state, (env.app.commit state).2.data.length = 32)
    (hretain : ∀ state, (env.app.commit state).2.retainHeight ≤ 0)
    (hexec : Executable env valid block commit (restarted disk state)) :
    Restores env valid block commit
      (blockOutcome env block (runBlock env state block disk.committed)) disk := by
  refine ⟨message, state, hmessage, hencodes.2, hblocks, fun again hagain => ?_⟩
  have hexec' := hexec.of_withoutEvidence hagain
  obtain ⟨first, hfirst⟩ := (hexec'.executed_sound hcodec).encodes hcodec
  obtain ⟨last, hlast⟩ := (hexec'.applied_sound hcodec).encodes hcodec
  have hruns : Runs anyDisk (applyBlock env again commit) (restarted disk state) (.ok ())
      (appliedLedger env again commit (restarted disk state) first last) :=
    hexec'.runs hfirst.1 hlast.1 hretain trivial trivial trivial trivial trivial
  refine ⟨_, hruns, ?_, hexec'.settled hcodec hhash hinitial hlast⟩
  rw [outcome_appliedLedger hhash hlast.1]
  exact blockOutcome_of_withoutEvidence hagain state disk.committed

/-- The store catches up with the application. -/
theorem restores_of_ahead (hahead : Ahead env valid block (restarted disk state) responses) :
    Restores env valid block commit
      (alignedOutcome env disk state block.header.height responses) disk := by
  refine ⟨message, state, hmessage, hencodes.2, hblocks, fun again hagain => ?_⟩
  have hahead' := hahead.of_withoutEvidence hagain
  obtain ⟨last, hlast⟩ := (hahead'.aligned_sound ⟨_, hahead'.appHash⟩ responses).encodes hcodec
  have hruns : Runs anyDisk (applyBlock env again commit) (restarted disk state) (.ok ())
      { restarted disk state with
        disk := disk.record last
        lastState := alignedState env.tm state ⟨_, hahead'.appHash⟩ again.header.height responses
        height := again.header.height } :=
    hahead'.runs hlast.1 trivial trivial
  have hheight : again.header.height = block.header.height := by
    rw [eq_of_withoutEvidence hagain]
  refine ⟨_, hruns, ?_, hahead'.settled hinitial rfl hlast⟩
  rw [← hheight]
  exact outcome_aligned hahead'.appHash rfl hlast.1 _

omit hcodec hmessage hencodes

theorem restores_of_stored (hrecorded : Recorded env valid disk state)
    (happHash : disk.lastBlockAppHash.length = 32)
    (hstored : state.lastStoreHeight = block.header.height) :
    Restores env valid block commit (restarted disk state).outcome disk := by
  obtain ⟨message, hmessage, hencodes⟩ := hrecorded.message
  refine ⟨message, state, hmessage, hencodes.2, hblocks, fun again hagain => ?_⟩
  have hne : again.header.height ≠ (restarted disk state).height + 1 := by
    rw [eq_of_withoutEvidence hagain]
    intro heq
    have hself : block.header.height = block.header.height + 1 := by
      rw [← hstored] at heq ⊢
      exact heq
    simp at hself
  exact ⟨_, runs_applyBlock_ignored hne, rfl, hrecorded, rfl, hinitial, happHash, rfl⟩

end

end

/-! ## Every point of a crash -/

theorem add_one_ne_of_lt {initial height : Int64} (hpositive : 0 < initial)
    (hlt : initial < height) : height + 1 ≠ initial := by
  intro heq
  have hheight : height = initial - 1 := by rw [← heq]; simp
  rw [Int64.lt_iff_toInt_lt] at hpositive hlt
  have hbound := initial.toInt_lt
  have hzero : (0 : Int64).toInt = 0 := rfl
  have hone : (1 : Int64).toInt = 1 := rfl
  rw [hheight, Int64.toInt_sub, hone, Int.bmod_eq_of_le (by omega) (by omega)] at hlt
  omega

section

variable {env : Env α} {valid : ValidatorSet → Prop} {block : Block}
variable {commit : Commit} {ledger : Ledger α} {message message' : Pb.State}
variable {responses : ABCIResponses}

structure Recovers (env : Env α) (valid : ValidatorSet → Prop) (block : Block) (commit : Commit)
    (target : Outcome α) (before disk : Disk α) : Prop where
  blocks : disk.blocks = before.blocks ∨ disk.blocks = before.blocks.save env.tm block commit
  restores : Restores env valid block commit target disk

/-- The call ends in a settled node, and a crash at any of its steps can be made up
for. -/
def CallRecovers (env : Env α) (valid : ValidatorSet → Prop) (block : Block) (commit : Commit)
    (ledger : Ledger α) : Prop :=
  ∃ target after, Runs (Recovers env valid block commit target ledger.disk)
      (applyBlock env block commit) ledger (.ok ()) after ∧
    after.outcome = target ∧ Settled env valid after ∧
    Recovers env valid block commit target ledger.disk after.disk

/-- The state that counts the block accepts it as well. -/
theorem Executable.retry (hcodec : Codec env.tm valid)
    (hexec : Executable env valid block commit ledger)
    (hpos : 0 < block.header.height.toInt64) :
    Executable env valid block commit
      (restarted (executedDisk env block commit ledger message)
        (executedState env block ledger)) where
  height := rfl
  next := hexec.next
  sound := hexec.executed_sound hcodec
  app := hexec.app
  accepted := by
    obtain ⟨hheader, hlast⟩ := (Executor.validate_eq_ok env.tm).1 hexec.accepted
    apply (Executor.validate_eq_ok env.tm).2
    refine ⟨?_, hlast⟩
    exact
      { hheader with
        initialHeight := fun hle => absurd hpos (Int64.not_lt.2 hle)
        nextHeight := fun _ => eq_add_one_of_toNat hexec.next }

section

variable (hcodec : Codec env.tm valid)
variable (hhash : ∀ state, (env.app.commit state).2.data.length = 32)
variable (hsettled : Settled env valid ledger)
variable (hexec : Executable env valid block commit ledger)
variable (hnext : block.header.height.toInt64 + 1 ≠ env.genesis.initialHeight)

include hcodec hhash hsettled hexec

theorem Executable.restores_start (hretain : ∀ state, (env.app.commit state).2.retainHeight ≤ 0)
    (hblocks : ledger.lastState.lastBlockHeight + 1 ≠ env.genesis.initialHeight)
    {disk : Disk α} (hstate : disk.state = ledger.disk.state)
    (happ : disk.lastBlockHeight = ledger.disk.lastBlockHeight)
    (hcommitted : disk.committed = ledger.disk.committed) :
    Restores env valid block commit (blockOutcome env block (blockRun env block ledger)) disk := by
  obtain ⟨message, hmessage, hencodes⟩ := hsettled.recorded.message
  have hexec' : Executable env valid block commit (restarted disk ledger.lastState) :=
    ⟨⟨rfl, hexec.next, hexec.sound⟩, (congrArg Int64.toUInt64 happ).trans hexec.app, hexec.accepted⟩
  have hrun : blockRun env block ledger = runBlock env ledger.lastState block disk.committed := by
    rw [hcommitted, ← hsettled.working]
    rfl
  rw [hrun]
  exact restores_of_executable hcodec hsettled.initial (hstate.trans hmessage) hencodes hblocks
    hhash hretain hexec'

include hnext

theorem Executable.restores_executed (hretain : ∀ state, (env.app.commit state).2.retainHeight ≤ 0)
    (hpos : 0 < block.header.height.toInt64)
    (hmessage : State.Encodes env.tm (executedState env block ledger) message) :
    Restores env valid block commit (blockOutcome env block (blockRun env block ledger))
      (executedDisk env block commit ledger message) := by
  have hrun : blockRun env block ledger = runBlock env (executedState env block ledger) block
        ledger.disk.committed := by
    rw [← hsettled.working]
    exact (runBlock_of_validatorsHash hexec.sound.sameHash _ _).symm
  rw [hrun]
  exact restores_of_executable hcodec hsettled.initial rfl hmessage hnext hhash hretain
    (hexec.retry hcodec hpos)

/-- Until the block is recorded as stored, the store catches up with the
application. -/
theorem Executable.restores_committed
    (hmessage : State.Encodes env.tm (executedState env block ledger) message) :
    Restores env valid block commit (blockOutcome env block (blockRun env block ledger))
      (committedDisk env block commit ledger message) := by
  have hahead : Ahead env valid block (restarted (committedDisk env block commit ledger message)
        (executedState env block ledger)) (blockRun env block ledger).2 :=
    ⟨⟨rfl, hexec.next, hexec.executed_sound hcodec⟩,
      UInt64.toUInt64_toInt64 _, hhash _, Function.update_self _ _ _⟩
  have hinitial : (executedState env block ledger).initialHeight = env.genesis.initialHeight :=
    hsettled.initial
  exact restores_of_ahead hcodec hinitial rfl hmessage hnext hahead

theorem Executable.restores_applied
    (hmessage : State.Encodes env.tm (appliedState env block ledger) message') :
    Restores env valid block commit (blockOutcome env block (blockRun env block ledger))
      ((committedDisk env block commit ledger message).record message') := by
  have hinitial : (appliedState env block ledger).initialHeight = env.genesis.initialHeight :=
    hsettled.initial
  have hrestores : Restores env valid block commit _
      ((committedDisk env block commit ledger message).record message') :=
    restores_of_stored hinitial hnext (hexec.recorded_applied hcodec hmessage) (hhash _) rfl
  have houtcome : (restarted ((committedDisk env block commit ledger message).record message')
      (appliedState env block ledger)).outcome =
      { blockOutcome env block (blockRun env block ledger) with
        persisted := some (blockRecord message') } := rfl
  rw [houtcome, blockRecord_applied hhash hmessage.1] at hrestores
  exact hrestores

theorem Executable.recovers (hretain : ∀ state, (env.app.commit state).2.retainHeight ≤ 0)
    (hpos : 0 < block.header.height.toInt64)
    (hblocks : ledger.lastState.lastBlockHeight + 1 ≠ env.genesis.initialHeight) :
    CallRecovers env valid block commit ledger := by
  obtain ⟨message, hmessage⟩ := (hexec.executed_sound hcodec).encodes hcodec
  obtain ⟨message', hmessage'⟩ := (hexec.applied_sound hcodec).encodes hcodec
  have happlied : Recovers env valid block commit _ ledger.disk
      ((committedDisk env block commit ledger message).record message') :=
    ⟨Or.inr rfl, hexec.restores_applied hcodec hhash hsettled hnext hmessage'⟩
  refine ⟨_, appliedLedger env block commit ledger message message', ?_,
    outcome_appliedLedger hhash hmessage'.1,
    hexec.settled hcodec hhash hsettled.initial hmessage', happlied⟩
  apply hexec.runs hmessage.1 hmessage'.1 hretain
  · exact ⟨Or.inl rfl, hexec.restores_start hcodec hhash hsettled hretain hblocks rfl rfl rfl⟩
  · exact ⟨Or.inr rfl, hexec.restores_start hcodec hhash hsettled hretain hblocks rfl rfl rfl⟩
  · exact ⟨Or.inr rfl, hexec.restores_executed hcodec hhash hsettled hnext hretain hpos hmessage⟩
  · exact ⟨Or.inr rfl, hexec.restores_committed hcodec hhash hsettled hnext hmessage⟩
  · exact happlied

end

/-- A call that aligns the store with the application, with a crash at any of
its steps. -/
theorem Ahead.recovers (hcodec : Codec env.tm valid) (hsettled : Settled env valid ledger)
    (hahead : Ahead env valid block ledger responses)
    (hblocks : ledger.lastState.lastBlockHeight + 1 ≠ env.genesis.initialHeight) :
    CallRecovers env valid block commit ledger := by
  obtain ⟨before, hbefore, hencodes⟩ := hsettled.recorded.message
  obtain ⟨message, hmessage⟩ := (hahead.aligned_sound ⟨_, hahead.appHash⟩ responses).encodes hcodec
  have hahead' : Ahead env valid block (restarted ledger.disk ledger.lastState) responses :=
    ⟨⟨rfl, hahead.next, hahead.sound⟩, hahead.app, hahead.appHash, hahead.saved⟩
  have houtcome : (restarted (ledger.disk.record message)
      (alignedState env.tm ledger.lastState ⟨_, hahead.appHash⟩
        block.header.height responses)).outcome =
      alignedOutcome env ledger.disk ledger.lastState block.header.height responses :=
    outcome_aligned hahead'.appHash rfl hmessage.1 _
  have haligned : Recovers env valid block commit
      (alignedOutcome env ledger.disk ledger.lastState block.header.height
        responses) ledger.disk (ledger.disk.record message) := by
    refine ⟨Or.inl rfl, ?_⟩
    rw [← houtcome]
    exact restores_of_stored hsettled.initial hblocks (hahead.recorded_aligned hmessage)
      hahead.appHash rfl
  have hstart : Recovers env valid block commit
      (alignedOutcome env ledger.disk ledger.lastState block.header.height
        responses) ledger.disk ledger.disk :=
    ⟨Or.inl rfl, restores_of_ahead hcodec hsettled.initial hbefore hencodes hblocks hahead'⟩
  exact ⟨_, _, hahead.runs hmessage.1 hstart haligned,
    outcome_aligned hahead.appHash hsettled.working hmessage.1 _,
    hahead.settled hsettled.initial hsettled.working hmessage, haligned⟩

end

/-! ## Recovery -/

section

variable {env : Env α} {valid : ValidatorSet → Prop} {block : Block}
variable {commit : Commit} {node : Node α} {lost : Prop}

/-- What a valid block above the initial height says about the heights. -/
structure AboveInitial (env : Env α) (block : Block) (node : Node α) : Prop where
  next : block.header.height = node.height + 1
  height : node.height ≠ 0
  positive : 0 < env.genesis.initialHeight
  blocks : node.lastState.lastBlockHeight + 1 ≠ env.genesis.initialHeight

theorem aboveInitial_of_valid (hidle : node.core.Idle lost)
    (hsettled : Settled env valid node.ledger)
    (hgreater : env.genesis.initialHeight < block.header.height.toInt64)
    (hvalid : Executor.validate env.tm node.lastState block commit env.getProposer = .ok ()) :
    AboveInitial env block node := by
  obtain ⟨hheader, _⟩ := (Executor.validate_eq_ok env.tm).1 hvalid
  have hinitial : node.lastState.initialHeight = env.genesis.initialHeight := hsettled.initial
  have hpositive : 0 < env.genesis.initialHeight := hinitial ▸ hidle.memory.initial
  have hpos : node.lastState.lastBlockHeight > 0 := by
    by_contra hle
    have hfirst := hheader.initialHeight (Int64.not_lt.1 hle)
    rw [hfirst, hinitial, Int64.toInt64_toUInt64] at hgreater
    exact Int64.lt_irrefl hgreater
  have hgate : block.header.height = node.height + 1 := by
    rw [hheader.nextHeight hpos]
    exact congrArg (· + 1) hsettled.height.symm
  refine ⟨hgate, fun hzero => ?_, hpositive, ?_⟩
  · rw [hgate, hzero, Int64.lt_iff_toInt_lt] at hgreater
    rw [Int64.lt_iff_toInt_lt] at hpositive
    have hone : ((0 : UInt64) + 1).toInt64.toInt = 1 := rfl
    have hzero : (0 : Int64).toInt = 0 := rfl
    omega
  · rcases hidle.memory.lastBlock with hsame | hahead | ⟨_, hzero⟩
    · have hheight : node.lastState.lastBlockHeight.toUInt64 = node.height :=
        UInt64.toNat_inj.1 hsame
      have hnext : node.lastState.lastBlockHeight + 1 = block.header.height.toInt64 := by
        rw [hgate, ← hheight, UInt64.toInt64_add, Int64.toInt64_toUInt64]
        rfl
      rw [hnext]
      exact (Int64.ne_of_lt hgreater).symm
    · have hheight : node.lastState.lastBlockHeight.toUInt64 = block.header.height :=
        UInt64.toNat_inj.1 (hahead.trans (toNat_next hidle.always hgate).symm)
      rw [← Int64.toInt64_toUInt64 node.lastState.lastBlockHeight, hheight]
      exact add_one_ne_of_lt hpositive hgreater
    · have hnone : node.lastState.lastBlockHeight = 0 := hzero
      rw [hnone] at hpos
      exact absurd hpos (by decide)

/-- So a crash at any step of a call can be made up for. -/
theorem recovers_of_settled (hcodec : Codec env.tm valid)
    (hhash : ∀ state, (env.app.commit state).2.data.length = 32)
    (hretain : ∀ state, (env.app.commit state).2.retainHeight ≤ 0)
    (hidle : node.core.Idle lost) (hsettled : Settled env valid node.ledger)
    (hgreater : env.genesis.initialHeight < block.header.height.toInt64)
    (hvalid : Executor.validate env.tm node.lastState block commit env.getProposer = .ok ()) :
    CallRecovers env valid block commit node.ledger := by
  have habove := aboveInitial_of_valid hidle hsettled hgreater hvalid
  by_cases hahead : node.core.appHeight = block.header.height
  · obtain ⟨responses, hahead⟩ := ahead_of_settled hidle hsettled habove.next hahead
    exact hahead.recovers hcodec hsettled habove.blocks
  · have hexec := executable_of_settled hidle hsettled habove.height habove.next hahead hvalid
    exact hexec.recovers hcodec hhash hsettled (add_one_ne_of_lt habove.positive hgreater)
      hretain (Int64.lt_trans habove.positive hgreater) habove.blocks

end

open Reference

/-- The batch with the responses fails, and the application keeps what it has executed
of the second block. -/
def secondFailed : List (Label Answer Request) :=
  firstDelivered ++ .call (Reference.deliver poolSecond) ::
    Reference.steps 15 ++ [.step .failBefore, .ret]

end Dymint.Manager
