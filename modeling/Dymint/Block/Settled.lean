import Dymint.Block.ExactlyOnce
import Dymint.Block.FaultFree

/-!
# Settled nodes

A node is settled if the state in memory is the one on disk and records the height
of the store, and the application has no uncommitted work.  If no step fails, the
next block takes a settled node to a settled node.  Between the steps, the disk is
one from which the manager can restart: the block still has to be executed, or the
application has committed it and the store has to catch up, or the block is
recorded as stored.
-/

namespace Dymint.Manager

open Procedure Dymint.Types Store

variable {α : Type}

/-! ## What a restart relies on -/

variable {message : Pb.State}

section

variable (env : Env α) (valid : ValidatorSet → Prop)

/-- The record on disk encodes the state, and the responses of a block that the
application is ahead with are saved. -/
structure Recorded (disk : Disk α) (state : State) : Prop where
  message : ∃ message, disk.state = some message ∧ State.Encodes env.tm state message
  sound : state.Sound env.tm valid
  responses : disk.lastBlockHeight.toUInt64 ≠ state.lastStoreHeight →
    ∃ responses, disk.responses (state.lastStoreHeight + 1) = some responses

structure Settled (ledger : Ledger α) : Prop where
  recorded : Recorded env valid ledger.disk ledger.lastState
  height : ledger.height = ledger.lastState.lastStoreHeight
  initial : ledger.lastState.initialHeight = env.genesis.initialHeight
  appHash : ledger.disk.lastBlockAppHash.length = 32
  working : ledger.working = ledger.disk.committed

end

/-! ## Applying the next block -/

section

variable (env : Env α) (valid : ValidatorSet → Prop) (block : Block)
variable (commit : Commit) (ledger : Ledger α)

/-- The block follows the recorded state. -/
structure IsNext : Prop where
  height : ledger.height = ledger.lastState.lastStoreHeight
  next : block.header.height.toNat = ledger.lastState.lastStoreHeight.toNat + 1
  sound : ledger.lastState.Sound env.tm valid

/-- It still has to be executed. -/
structure Executable : Prop extends IsNext env valid block ledger where
  app : ledger.disk.lastBlockHeight.toUInt64 = ledger.lastState.lastStoreHeight
  accepted : Executor.validate env.tm ledger.lastState block commit env.getProposer = .ok ()

/-- The application has committed it already. -/
structure Ahead (responses : ABCIResponses) : Prop
    extends IsNext env valid block ledger where
  app : ledger.disk.lastBlockHeight.toUInt64 = block.header.height
  appHash : ledger.disk.lastBlockAppHash.length = 32
  saved : ledger.disk.responses block.header.height = some responses

variable {env valid block commit ledger}

namespace IsNext

section

variable (hnext : IsNext env valid block ledger)

include hnext

theorem gate : block.header.height = ledger.height + 1 := by
  rw [hnext.height]
  exact eq_add_one_of_toNat hnext.next

theorem lt : ledger.height < block.header.height := by
  rw [UInt64.lt_iff_toNat_lt, hnext.height, hnext.next]
  exact Nat.lt_succ_self _

theorem ne_zero : block.header.height ≠ 0 := by
  intro hzero
  have hnat := hnext.next
  rw [hzero, UInt64.toNat_zero] at hnat
  omega

theorem executed_notLegacy : ¬ (executedState env block ledger).Legacy := by
  intro hlegacy
  obtain ⟨hstore, hblock⟩ := hlegacy
  have hzero : ledger.lastState.lastStoreHeight = 0 := hstore
  have hnat := hnext.next
  rw [hzero, UInt64.toNat_zero] at hnat
  apply not_one_lt_of_toNat_le _ hblock
  simp only [executedState, Executor.updateState, UInt64.toUInt64_toInt64]
  omega

theorem executed_sound (hcodec : Codec env.tm valid) :
    (executedState env block ledger).Sound env.tm valid :=
  hnext.sound.updateState hcodec block hnext.executed_notLegacy

theorem applied_sound (hcodec : Codec env.tm valid) :
    (appliedState env block ledger).Sound env.tm valid := by
  have hexecuted := hnext.executed_sound hcodec
  exact hexecuted.of_eq rfl rfl rfl hexecuted.validators fun hlegacy => hnext.ne_zero hlegacy.1

theorem aligned_sound (appHash : Hash)
    (responses : ABCIResponses) :
    (alignedState env.tm ledger.lastState appHash block.header.height
      responses).Sound env.tm valid :=
  hnext.sound.of_eq rfl rfl rfl hnext.sound.validators fun hlegacy => hnext.ne_zero hlegacy.1

end

end IsNext

theorem Executable.runs (hexec : Executable env valid block commit ledger)
    {safe : Disk α → Prop} {message' : Pb.State}
    (hmessage : (executedState env block ledger).toProto env.tm = .ok message)
    (hmessage' : (appliedState env block ledger).toProto env.tm = .ok message')
    (hretain : ∀ state, (env.app.commit state).2.retainHeight ≤ 0)
    (hstart : safe ledger.disk) (hsaved : safe (ledger.disk.save env.tm block commit))
    (hexecuted : safe (executedDisk env block commit ledger message))
    (hcommitted : safe (committedDisk env block commit ledger message))
    (happlied : safe ((committedDisk env block commit ledger message).record message')) :
    Runs safe (applyBlock env block commit) ledger (.ok ())
      (appliedLedger env block commit ledger message message') := by
  have hne : ledger.disk.lastBlockHeight.toUInt64 ≠ block.header.height := by
    rw [hexec.app, ← hexec.height]
    exact UInt64.ne_of_lt hexec.lt
  apply runs_applyBlock hexec.gate hexec.lt
  · rintro start point later rfl hduring hfinal
    have hledger := hduring.executing hretain hmessage hmessage'
    cases point with
    | start => exact safe_of_ledger hledger hstart
    | hashed | recorded | rotated | resulted | caughtUp => exact absurd hduring.reached hne
    | saved | executed | remembered => exact safe_of_ledger hledger hsaved
    | delivering =>
      obtain ⟨_, hledger⟩ := hledger
      exact safe_of_ledger hledger hsaved
    | persisted => exact safe_of_ledger hledger hexecuted
    | committed | published | pruned => exact safe_of_ledger hledger hcommitted
    | stored | finished => exact safe_of_ledger hledger happlied
    | aligned | done => exact absurd trivial hfinal
  · rintro start point later rfl hduring hfinal
    cases point with
    | done => exact hduring.executing hretain hmessage hmessage'
    | aligned => exact absurd hduring.reached hne
    | _ => exact hfinal.elim
  · rintro start point later rfl hduring
    have hledger := hduring.executing hretain hmessage hmessage'
    refine ⟨fun hrefuses => ?_, fun hpanics => ?_⟩
    · cases hrefuses with
      | responses | aligned => exact hne hduring.reached
      | rejected hvalid =>
        obtain rfl := hduring.eq_saved
        cases hexec.accepted.symm.trans hvalid
      | state hnone => exact hnone message ((lastState_of_ledger hledger).symm ▸ hmessage)
      | validators hnone =>
        obtain ⟨_, set, _, _, hset, _, _⟩ := State.toProto_eq_ok.1 hmessage
        exact hnone set ((lastState_of_ledger hledger).symm ▸ hset)
      | stored hnone =>
        apply hnone message'
        rw [hduring.storedState_eq id (congrArg Ledger.lastState hledger)
          (congrArg Ledger.baseHeight hledger)]
        exact hmessage'
    · cases hpanics with
      | hash _ happ =>
        cases hduring
        exact hne happ
      | validation hvalid =>
        obtain rfl := hduring.eq_saved
        cases hexec.accepted.symm.trans hvalid
      | pruning hpos =>
        obtain ⟨_, rfl⟩ := hduring.responses
        exact absurd hpos (Int64.not_lt.2 (hretain _))

theorem Ahead.runs {responses : ABCIResponses}
    (hahead : Ahead env valid block ledger responses) {safe : Disk α → Prop}
    (hmessage : (alignedState env.tm ledger.lastState ⟨_, hahead.appHash⟩
      block.header.height responses).toProto env.tm = .ok message)
    (hstart : safe ledger.disk) (haligned : safe (ledger.disk.record message)) :
    Runs safe (applyBlock env block commit) ledger (.ok ())
      { ledger with
        disk := ledger.disk.record message
        lastState := alignedState env.tm ledger.lastState ⟨_, hahead.appHash⟩
          block.header.height responses
        height := block.header.height } := by
  have hhash := FixedBytes.ofSlice?_of_length hahead.appHash
  apply runs_applyBlock hahead.gate hahead.lt
  · rintro start point later rfl hduring hfinal
    have hledger := hduring.aligning hhash hahead.saved hmessage
    have hreached := hduring.reached
    cases point with
    | start | hashed | recorded | rotated | resulted =>
      exact safe_of_ledger hledger hstart
    | caughtUp => exact safe_of_ledger hledger haligned
    | aligned | done => exact absurd trivial hfinal
    | saved => exact absurd hahead.app hreached
    | _ => exact absurd hahead.app hreached.1
  · rintro start point later rfl hduring hfinal
    cases point with
    | aligned => exact hduring.aligning hhash hahead.saved hmessage
    | done => exact absurd hahead.app hduring.reached.1
    | _ => exact hfinal.elim
  · rintro start point later rfl hduring
    have hledger := hduring.aligning hhash hahead.saved hmessage
    have hreached := hduring.reached
    refine ⟨fun hrefuses => ?_, fun hpanics => ?_⟩
    · cases hrefuses with
      | responses hnone =>
        have hsaved := congrArg (fun now : Ledger α => now.disk.responses block.header.height)
          hledger
        cases hnone.symm.trans (hsaved.trans hahead.saved)
      | aligned hnone => exact hnone message ((lastState_of_ledger hledger).symm ▸ hmessage)
      | rejected => exact hreached hahead.app
      | state | validators | stored => exact hreached.1 hahead.app
    · cases hpanics with
      | hash hnone _ =>
        cases hduring
        cases hnone.symm.trans hhash
      | validation => exact hreached hahead.app
      | pruning => exact hreached.1 hahead.app

/-! ## What applying a block leaves on disk -/

section

variable {message message' : Pb.State} {responses : ABCIResponses}

theorem Executable.recorded_applied (hcodec : Codec env.tm valid)
    (hexec : Executable env valid block commit ledger)
    (hmessage : State.Encodes env.tm (appliedState env block ledger) message') :
    Recorded env valid ((committedDisk env block commit ledger message).record message')
      (appliedState env block ledger) where
  message := ⟨message', rfl, hmessage⟩
  sound := hexec.applied_sound hcodec
  responses hne := absurd (UInt64.toUInt64_toInt64 block.header.height) hne

theorem Ahead.recorded_aligned (hahead : Ahead env valid block ledger responses)
    (hmessage : State.Encodes env.tm (alignedState env.tm ledger.lastState ⟨_, hahead.appHash⟩
        block.header.height responses) message) :
    Recorded env valid (ledger.disk.record message)
      (alignedState env.tm ledger.lastState ⟨_, hahead.appHash⟩ block.header.height responses) where
  message := ⟨message, rfl, hmessage⟩
  sound := hahead.aligned_sound _ responses
  responses hne := absurd hahead.app hne

end

end

/-! ## Settled nodes -/

variable {state : State}

section

variable {env : Env α} {valid : ValidatorSet → Prop} {block : Block}
variable {commit : Commit} {ledger : Ledger α} {node : Node α}

theorem Executable.settled {message' : Pb.State} (hcodec : Codec env.tm valid)
    (hhash : ∀ state, (env.app.commit state).2.data.length = 32)
    (hexec : Executable env valid block commit ledger)
    (hinitial : ledger.lastState.initialHeight = env.genesis.initialHeight)
    (hmessage : State.Encodes env.tm (appliedState env block ledger) message') :
    Settled env valid (appliedLedger env block commit ledger message message') where
  recorded := hexec.recorded_applied hcodec hmessage
  height := rfl
  initial := hinitial
  appHash := hhash _
  working := rfl

theorem Ahead.settled {responses : ABCIResponses} (hahead : Ahead env valid block ledger responses)
    (hinitial : ledger.lastState.initialHeight = env.genesis.initialHeight)
    (hworking : ledger.working = ledger.disk.committed)
    (hmessage : State.Encodes env.tm (alignedState env.tm ledger.lastState ⟨_, hahead.appHash⟩
      block.header.height responses) message) :
    Settled env valid
      { ledger with
        disk := ledger.disk.record message
        lastState := alignedState env.tm ledger.lastState ⟨_, hahead.appHash⟩
          block.header.height responses
        height := block.header.height } where
  recorded := hahead.recorded_aligned hmessage
  height := rfl
  initial := hinitial
  appHash := hahead.appHash
  working := hworking

section

variable {lost : Prop} (hidle : node.core.Idle lost) (hsettled : Settled env valid node.ledger)

include hidle hsettled

theorem isNext_of_settled (hgate : block.header.height = node.height + 1) :
    IsNext env valid block node.ledger where
  height := hsettled.height
  next := by
    rw [← hsettled.height]
    exact toNat_next hidle.always hgate
  sound := hsettled.recorded.sound

theorem ahead_of_settled (hgate : block.header.height = node.height + 1)
    (happ : node.core.appHeight = block.header.height) :
    ∃ responses, Ahead env valid block node.ledger responses := by
  have hnext := isNext_of_settled hidle hsettled hgate
  have hheight := eq_add_one_of_toNat hnext.next
  have hahead : node.ledger.disk.lastBlockHeight.toUInt64 ≠
      node.ledger.lastState.lastStoreHeight := by
    intro hsame
    have hlt := hnext.lt
    rw [hnext.height, ← hsame] at hlt
    exact UInt64.lt_irrefl _ (happ ▸ hlt)
  obtain ⟨responses, hresponses⟩ := hsettled.recorded.responses hahead
  rw [← hheight] at hresponses
  exact ⟨responses, hnext, happ, hsettled.appHash, hresponses⟩

theorem executable_of_settled (hheight : node.height ≠ 0)
    (hgate : block.header.height = node.height + 1)
    (happ : node.core.appHeight ≠ block.header.height)
    (hvalid : Executor.validate env.tm node.lastState block commit env.getProposer = .ok ()) :
    Executable env valid block commit node.ledger := by
  obtain ⟨hsame, hlast⟩ := hidle.execute_or hgate happ
  have hsame := hsame.resolve_right fun hlost => hheight hlost.2
  exact ⟨isNext_of_settled hidle hsettled hgate, hsame.trans hlast.symm, hvalid⟩

end

theorem updateInitChainState_sound (hcodec : Codec env.tm valid)
    (response : ResponseInitChain) {validators : List Validator}
    (hvalidators : validators ≠ []) (hplain : PlainBlockID state.lastBlockID)
    (hlegacy : ¬ state.Legacy) :
    (updateInitChainState env state response validators).Sound env.tm valid := by
  have hset := hcodec.valid_increment _ (hcodec.valid_new _ hvalidators)
  have hid : (updateInitChainState env state response validators).lastBlockID =
      state.lastBlockID := by
    unfold updateInitChainState
    dsimp only
    split <;> split <;> rfl
  have hprogress := updateInitChainState_progress env state response validators
  have hlegacy' : ¬ (updateInitChainState env state response validators).Legacy := by
    have hstore : (updateInitChainState env state response
        validators).lastStoreHeight = state.lastStoreHeight :=
      congrArg Progress.lastStoreHeight hprogress
    have hblock : (updateInitChainState env state response
        validators).lastBlockHeight = state.lastBlockHeight :=
      congrArg Progress.lastBlockHeight hprogress
    rw [State.Legacy, hstore, hblock]
    exact hlegacy
  exact ⟨hset, hset, hset, rfl, hid ▸ hplain, hlegacy'⟩

end

end Dymint.Manager
