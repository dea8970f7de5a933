import Dymint.Types.Block

/-!
# Block creation, validation and state updates

The parts of `state/executor.go` that compute on their arguments alone.  The
calls into the application are in the manager's model, where they are atomic
steps.
-/

namespace Dymint.Executor

open Procedure Dymint.Types

/-- What a `BlockExecutor` writes into every block it creates. -/
structure BlockExecutor where
  proposerAddress : Bytes
  namespaceID : FixedBytes 8
  chainID : String
  deriving DecidableEq

variable (tm : Tendermint)

def getLastCommitHash (lastCommit : Commit) (header : Header) : Bytes :=
  (tm.commitHash (toABCICommit tm lastCommit header)).bytes

def getDataHash (block : Block) : Bytes :=
  (tm.dataHash (toABCIBlockDataTxs block.data)).bytes

def createBlock (exec : BlockExecutor) (height : UInt64) (lastCommit : Commit)
    (lastHeaderHash : Hash) (state : State) (mempoolTxs : List Tx)
    (now : UInt64) : Block :=
  let block : Block :=
    { header :=
        { version := ⟨state.version.consensus.block, state.version.consensus.app⟩
          chainID := exec.chainID
          namespaceID := exec.namespaceID
          height := height
          time := now
          lastHeaderHash := lastHeaderHash
          lastCommitHash := FixedBytes.zero 32
          dataHash := FixedBytes.zero 32
          consensusHash := FixedBytes.zero 32
          appHash := state.appHash
          lastResultsHash := state.lastResultsHash
          proposerAddress := exec.proposerAddress
          aggregatorsHash := FixedBytes.zero 32 }
      data := ⟨mempoolTxs, [], []⟩
      lastCommit := lastCommit }
  { block with
    header :=
      { block.header with
        lastCommitHash := block.header.lastCommitHash.copy
          (getLastCommitHash tm lastCommit block.header)
        dataHash := block.header.dataHash.copy (getDataHash tm block)
        aggregatorsHash := block.header.aggregatorsHash.copy
          (tm.validatorsHash state.validators).bytes } }

/-! ## Validation -/

def validateBlock (state : State) (block : Block) : Result Error Unit := do
  block.validateBasic
  if block.header.version.app ≠ state.version.consensus.app ∨
      block.header.version.block ≠ state.version.consensus.block then
    .err (.new "block version mismatch")
  else if state.lastBlockHeight ≤ 0 ∧
      block.header.height ≠ state.initialHeight.toUInt64 then
    .err (.new "initial block height mismatch")
  else if state.lastBlockHeight > 0 ∧
      block.header.height ≠ state.lastStoreHeight + 1 then
    .err (.new "block height mismatch")
  else if block.header.appHash ≠ state.appHash then
    .err (.new "AppHash mismatch")
  else if block.header.lastResultsHash ≠ state.lastResultsHash then
    .err (.new "LastResultsHash mismatch")
  else .ok ()

def validateCommit (proposer : Option Sequencer) (commit : Commit)
    (header : Header) : Result Error Unit := do
  let abciHeaderBytes ← .ofExcept (tm.marshalHeader (toABCIHeaderPB tm header))
  commit.validate tm proposer abciHeaderBytes

/-- `BlockExecutor.Validate`. -/
def validate (state : State) (block : Block) (commit : Commit)
    (proposer : Option Sequencer) : Result Error Unit := do
  validateBlock state block
  validateCommit tm proposer commit block.header

/-! ## State update -/

def updateState (state : State) (block : Block) : State where
  version := state.version
  chainID := state.chainID
  initialHeight := state.initialHeight
  slStateIndex := state.slStateIndex
  lastBlockHeight := block.header.height.toInt64
  lastBlockTime := unixNano block.header.time
  lastBlockID := ⟨(block.header.hash tm).bytes, default⟩
  nextValidators :=
    if state.nextValidators.validators.length > 0 then
      tm.incrementProposerPriority state.nextValidators
    else state.nextValidators
  validators := state.nextValidators
  lastHeightValidatorsChanged := state.lastHeightValidatorsChanged
  consensusParams := state.consensusParams
  lastHeightConsensusParamsChanged := state.lastHeightConsensusParamsChanged
  -- these are only updated after the application's commit
  appHash := state.appHash
  lastValidators := state.lastValidators
  lastStoreHeight := state.lastStoreHeight
  lastResultsHash := state.lastResultsHash
  baseHeight := state.baseHeight

/-! ## What an accepted block satisfies -/

/-- The checks that `validate` makes on the header and the commit, one field for
each. -/
structure HeaderAccepted (state : State) (header : Header) (commit : Commit)
    (proposer : Option Sequencer) : Prop where
  proposerAddress : header.proposerAddress ≠ []
  appVersion : header.version.app = state.version.consensus.app
  blockVersion : header.version.block = state.version.consensus.block
  initialHeight : state.lastBlockHeight ≤ 0 → header.height = state.initialHeight.toUInt64
  nextHeight : state.lastBlockHeight > 0 → header.height = state.lastStoreHeight + 1
  appHash : header.appHash = state.appHash
  lastResultsHash : header.lastResultsHash = state.lastResultsHash
  commit : validateCommit tm proposer commit header = .ok ()

theorem headerValidateBasic_eq_ok {header : Header} :
    header.validateBasic = .ok () ↔ header.proposerAddress ≠ [] := by
  rw [Header.validateBasic]
  split <;> simp_all

variable {block : Block}

theorem blockValidateBasic_eq_ok :
    block.validateBasic = .ok () ↔
      block.header.proposerAddress ≠ [] ∧ block.lastCommit.validateBasic = .ok () := by
  simp [Block.validateBasic, Result.check_bind_eq_ok, Data.validateBasic, headerValidateBasic_eq_ok]

theorem validateBlock_eq_ok {state : State} :
    validateBlock state block = .ok () ↔
      block.validateBasic = .ok () ∧ block.header.version.app = state.version.consensus.app ∧
        block.header.version.block = state.version.consensus.block ∧
        (state.lastBlockHeight ≤ 0 → block.header.height = state.initialHeight.toUInt64) ∧
        (state.lastBlockHeight > 0 → block.header.height = state.lastStoreHeight + 1) ∧
        block.header.appHash = state.appHash ∧
        block.header.lastResultsHash = state.lastResultsHash := by
  rw [validateBlock, Result.check_bind_eq_ok]
  refine and_congr_right fun _ => ?_
  split_ifs with hversion hinit hnext happ hres
  · simp only [false_iff]
    tauto
  · simp only [false_iff]
    tauto
  · simp only [false_iff]
    tauto
  · simp [happ]
  · simp [hres]
  · simp only [true_iff]
    tauto

/-- `validate` accepts a block exactly when its header and commit pass their
checks and its last commit is well formed. -/
theorem validate_eq_ok {state : State} {commit : Commit} {proposer : Option Sequencer} :
    validate tm state block commit proposer = .ok () ↔
      HeaderAccepted tm state block.header commit proposer ∧
        block.lastCommit.validateBasic = .ok () := by
  rw [validate, Result.check_bind_eq_ok, validateBlock_eq_ok, blockValidateBasic_eq_ok]
  constructor
  · rintro ⟨⟨⟨haddress, hlast⟩, happ, hblock, hinit, hnext, hhash, hres⟩, hcommit⟩
    exact ⟨⟨haddress, happ, hblock, hinit, hnext, hhash, hres, hcommit⟩, hlast⟩
  · rintro ⟨h, hlast⟩
    exact ⟨⟨⟨h.proposerAddress, hlast⟩, h.appVersion, h.blockVersion,
      h.initialHeight, h.nextHeight, h.appHash, h.lastResultsHash⟩, h.commit⟩

end Dymint.Executor
