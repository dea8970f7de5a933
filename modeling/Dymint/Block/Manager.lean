import Dymint.Block.Node

/-!
# The block manager

`NewManager`, `applyBlock` and what they call, in the order of the source.
Logging, metrics and the reset of timers are left out.
-/

namespace Dymint.Manager

open Procedure Dymint.Types Store

variable {α : Type} (env : Env α)

/-! ## Executing a block -/

def deliverTxs : List Tx → M α (List ResponseDeliverTx)
  | [] => return []
  | tx :: txs => do
    let response ← deliverTxAsync env tx
    let responses ← deliverTxs txs
    return response :: responses

/-- `BlockExecutor.Execute`. -/
def execute (state : State) (block : Block) : M α ABCIResponses := do
  let beginBlock ← beginBlockSync env
    { hash := (block.hash env.tm).bytes
      header := { toABCIHeaderPB env.tm block.header with
        chainID := env.exec.chainID
        validatorsHash := (env.tm.validatorsHash state.validators).bytes } }
  let responses ← deliverTxs env block.data.txs
  let endBlock ← endBlockSync env block.header.height.toInt64
  return ⟨beginBlock, responses, endBlock⟩

def executeBlock (block : Block) (commit : Commit) : M α ABCIResponses := do
  let lastState ← getLastState
  Proc.ofResult (Executor.validate env.tm lastState block commit env.getProposer)
  let lastState ← getLastState
  execute env lastState block

/-! ## Committing a block -/

def publishEvents (block : Block) : M α Unit := call fun node =>
    ({ node with published := node.published ++ [block.header.height] }, .ok ())

/-- `BlockExecutor.Commit`: the mempool is flushed before and updated after the
application's own commit.  It returns the state with the new hashes and the
height from which the application wants blocks to be retained. -/
def commitBlock (state : State) (block : Block) (responses : ABCIResponses) :
    M α (State × Int64) := do
  external
  let response ← commitSync env
  external
  let state := { state with
    appHash := state.appHash.copy response.data
    lastResultsHash := state.lastResultsHash.copy (env.tm.resultsHash responses.deliverTxs).bytes }
  publishEvents block
  return (state, response.retainHeight)

/-! ## Pruning -/

def flush (batch : WriteBatch) (base : UInt64) : M α Unit := do
  commitBatch (.wrap "failed to prune up to height") batch
  setBase base

def pruneHeight (height : UInt64) (hash : Hash) : WriteBatch :=
  [⟨.block hash, none⟩, ⟨.commit hash, none⟩, ⟨.index height, none⟩,
    ⟨.responses height, none⟩, ⟨.validators height, none⟩]

def enterDeletions : M α Unit := do
  external
  external
  external
  external
  external

/-- The loop of `PruneBlocks` over `count` heights from `height` on.  Heights
without an index entry are skipped, and every 1000 pruned heights are flushed.
-/
def pruneLoop : ℕ → UInt64 → UInt64 → WriteBatch → M α (UInt64 × WriteBatch)
  | 0, _, pruned, batch => return (pruned, batch)
  | count + 1, height, pruned, batch => do
    match ← (query id (loadHashFromIndex · height)).attempt with
    | .error _ => pruneLoop count (height + 1) pruned batch
    | .ok hash =>
      enterDeletions
      let batch := batch ++ pruneHeight height hash
      let pruned := pruned + 1
      if pruned % 1000 = 0 ∧ pruned > 0 then
        flush batch height
        pruneLoop count (height + 1) pruned []
      else pruneLoop count (height + 1) pruned batch

/-- `DefaultStore.PruneBlocks`. -/
def storePruneBlocks (heightInt : Int64) : M α UInt64 := do
  if heightInt ≤ 0 then
    Proc.fail (.new "height must be greater than 0")
  else
    let height := heightInt.toUInt64
    let latest ← storeHeight
    if height > latest then
      Proc.fail (.new "cannot prune beyond the latest height")
    else
      let base ← storeBase
      if height < base then
        Proc.fail (.new "cannot prune to height, it is lower than base height")
      else
        let (pruned, batch) ← pruneLoop (height.toNat - base.toNat) base 0 []
        flush batch height
        return pruned

/-- `Manager.pruneBlocks` refuses heights that are not settled yet. -/
def pruneBlocks (retainHeight : Int64) : M α UInt64 := do
  let syncTarget ← Proc.read Node.syncTarget
  if retainHeight > syncTarget.toInt64 then
    Proc.fail (.new "cannot prune uncommitted blocks")
  else storePruneBlocks retainHeight

/-! ## Applying a block -/

def alignStoreWithApp (block : Block) : M α Bool := do
  let proxyAppInfo ← getAppInfo (.wrap "failed to get app info")
  if proxyAppInfo.lastBlockHeight.toUInt64 ≠ block.header.height then
    return false
  else
    match FixedBytes.ofSlice? 32 proxyAppInfo.lastBlockAppHash with
    | none => Proc.abort
    | some appHash =>
      modifyLastState fun state => state.setAppHash appHash
      modifyLastState fun state => state.setLastStoreHeight block.header.height
      modifyLastState fun state => state.setLastValidators state.validators
      let responses ← query (.wrap "failed to load block responses")
        (loadBlockResponses · block.header.height)
      modifyLastState fun state => state.setLastResultsHash
        (state.lastResultsHash.copy (env.tm.resultsHash responses.deliverTxs).bytes)
      let state ← getLastState
      updateStoreState env (.wrap "failed to update state") state
      setHeight block.header.height
      return true

def persistExecution (block : Block) (responses : ABCIResponses)
    (newState : State) : M α Unit := do
  external
  modifyLastState fun _ => newState
  let lastState ← getLastState
  let stateWrite ← Proc.ofResult (.ofExcept (Store.updateState env.tm lastState))
  external
  let lastState ← getLastState
  let validatorsWrite ← Proc.ofResult
    (.ofExcept (saveValidators env.tm block.header.height lastState.validators))
  external
  commitBatch id [saveBlockResponses block.header.height responses, stateWrite, validatorsWrite]

def pruneOnRequest (retainHeight : Int64) : M α Unit :=
  if retainHeight > 0 then do
    let _ ← (pruneBlocks retainHeight).attempt
    pure ()
  else pure ()

/-- The last part of `applyBlock`: record that the store holds the block. -/
def finishBlock (block : Block) (newState : State) : M α Unit := do
  let lastState ← getLastState
  let base ← storeBase
  let newState := { newState with
    lastValidators := lastState.validators
    lastStoreHeight := block.header.height
    baseHeight := base }
  updateStoreState env id newState
  modifyLastState fun _ => newState
  setHeight block.header.height

/-- `applyBlock` after the block has been executed. -/
def commitExecutedBlock (block : Block) (responses : ABCIResponses) : M α Unit := do
  let lastState ← getLastState
  let newState := Executor.updateState env.tm lastState block
  persistExecution env block responses newState
  let (newState, retainHeight) ← commitBlock env newState block responses
  pruneOnRequest retainHeight
  finishBlock env block newState

/-- `applyBlock` from `SaveBlock` on. -/
def applyNextBlock (block : Block) (commit : Commit) : M α Unit := do
  commitBatch (.wrap "failed to commit db batch") (saveBlock env.tm block commit)
  let responses ← executeBlock env block commit
  commitExecutedBlock env block responses

/-- `Manager.applyBlock`.  A block of any height but the next is ignored. -/
def applyBlock (block : Block) (commit : Commit) : M α Unit := do
  let height ← storeHeight
  if block.header.height ≠ height + 1 then
    return ()
  else
    let isAlignRequired ← alignStoreWithApp env block
    if isAlignRequired then return ()
    else applyNextBlock env block commit

/-! ## Starting the manager -/

/-- The state after the application's answer to `InitChain`. -/
def updateInitChainState (state : State) (response : ResponseInitChain)
    (validators : List Validator) : State :=
  let state :=
    if response.appHash.length > 0 then
      { state with appHash := state.appHash.copy response.appHash }
    else state
  let state :=
    match response.consensusParams with
    | none => state
    | some updates =>
      let old := state.consensusParams
      let params : ConsensusParams :=
        { block := updates.block.getD old.block
          evidence := updates.evidence.getD old.evidence
          validator := updates.validator.getD old.validator
          version := updates.version.getD old.version }
      { state with
        consensusParams := params
        version := { state.version with
          consensus := { state.version.consensus with
            app := params.version.appVersion } } }
  let set := env.tm.incrementProposerPriority (env.tm.newValidatorSet validators)
  { state with
    lastResultsHash := state.lastResultsHash.copy (env.tm.resultsHash []).bytes
    validators := set
    nextValidators := set
    lastValidators := set }

def initChain (validators : List Validator) : M α ResponseInitChain := initChainSync env
    { time := env.genesis.genesisTime
      chainID := env.genesis.chainID
      consensusParams := env.genesis.consensusParams
      validators := validators.map fun validator =>
        (validator.pubKey, validator.votingPower)
      appStateBytes := env.genesis.appState
      initialHeight := env.genesis.initialHeight }

def getInitialState : M α State := do
  match ← (loadStoreState env).attempt with
  | .ok state => return state
  | .error .errNoStateFound => return newFromGenesisDoc env.tm env.genesis
  | .error error => Proc.fail (.wrap "failed to get initial state" error)

/-- `NewManager`, run when the process starts. -/
def newManager : M α Unit := do
  let state ← getInitialState env
  if state.lastBlockHeight + 1 = env.genesis.initialHeight then
    let validators := env.sequencersList.map fun sequencer =>
      env.tm.newValidator sequencer.publicKey 1
    let response ← initChain env validators
    if validators.length ≤ 0 then
      Proc.abort
    else
      let state := updateInitChainState env state response validators
      updateStoreState env id state
      modifyLastState fun _ => state
  else modifyLastState fun _ => state

end Dymint.Manager
