import Dymint.Block.Manager

/-!
# Block production

`produceBlock` of an aggregator.  The clock readings and the transactions that
are reaped from the mempool are inputs of each call.
-/

namespace Dymint.Manager

open Procedure Dymint.Types Store

variable {α : Type} (env : Env α)

structure ProduceInput where
  allowEmpty : Bool
  mempoolTxs : List Tx
  now : UInt64
  voteTimestamp : Time

def Env.proposerAddress : Bytes := env.tm.addressHash env.proposerPubKey

def createTMSignature (chainID : String) (block : Block)
    (voteTimestamp : Time) : Result Error Bytes := do
  let headerHash := (block.header.hash env.tm).bytes
  let vote : Vote :=
    { height := block.header.height.toInt64
      round := 0
      timestamp := voteTimestamp
      blockID := ⟨headerHash, 1, headerHash⟩
      validatorAddress := env.proposerAddress
      validatorIndex := 0 }
  let voteSignBytes := env.tm.voteSignBytes chainID vote
  let signature ← .ofExcept (env.tmSign voteSignBytes)
  if env.tm.verifySignature env.proposerPubKey voteSignBytes signature then
    return signature
  else .err (.new "wrong signature")

def createCommit (chainID : String) (block : Block) (voteTimestamp : Time) :
    Result Error Commit := do
  let abciHeaderBytes ← .ofExcept (env.tm.marshalHeader (toABCIHeaderPB env.tm block.header))
  let sign ← .ofExcept (env.sign abciHeaderBytes)
  let tmSignature ← createTMSignature env chainID block voteTimestamp
  return {
    height := block.header.height
    headerHash := block.header.hash env.tm
    signatures := [sign]
    tmSignature := ⟨2, env.proposerAddress, voteTimestamp, tmSignature⟩ }

/-- The commit and the header hash that a block of height `height + 1` refers
to.  The first block has no predecessor. -/
def loadLast (height : UInt64) : M α (Commit × Hash) :=
  if height + 1 = env.genesis.initialHeight.toUInt64 then
    return (⟨height, FixedBytes.zero 32, [], default⟩, FixedBytes.zero 32)
  else do
    let lastCommit ← query (.wrap "error while loading last commit")
      (loadCommit · height)
    let lastBlock ← query (.wrap "error while loading last block")
      (loadBlock · height)
    return (lastCommit, lastBlock.header.hash env.tm)

def createSignedBlock (input : ProduceInput) (newHeight : UInt64)
    (lastCommit : Commit) (lastHeaderHash : Hash) : M α (Block × Commit) := do
  let lastState ← getLastState
  let block := Executor.createBlock env.tm env.exec newHeight lastCommit
    lastHeaderHash lastState input.mempoolTxs input.now
  if ¬ input.allowEmpty ∧ block.data.txs.length = 0 then
    Proc.fail .errSkippedEmptyBlock
  else
    let lastState ← getLastState
    let commit ← Proc.ofResult (createCommit env lastState.chainID block input.voteTimestamp)
    return (block, commit)

def pendingOrNewBlock (input : ProduceInput) (newHeight : UInt64)
    (lastCommit : Commit) (lastHeaderHash : Hash) : M α (Block × Commit) := do
  match ← (query id (loadBlock · newHeight)).attempt with
  | .ok pendingBlock =>
    let commit ← query id (loadCommit · newHeight)
    return (pendingBlock, commit)
  | .error _ => createSignedBlock env input newHeight lastCommit lastHeaderHash

def gossipBlock (block : Block) (commit : Commit) : M α Unit :=
  call fun node =>
    ({ node with gossiped := node.gossiped ++ [(block, commit)] }, .ok ())

/-- `Manager.produceBlock`. -/
def produceBlock (input : ProduceInput) : M α Unit := do
  let height ← storeHeight
  let (lastCommit, lastHeaderHash) ← loadLast env height
  let (block, commit) ← pendingOrNewBlock env input (height + 1) lastCommit lastHeaderHash
  gossipBlock block commit
  applyBlock env block commit

end Dymint.Manager
