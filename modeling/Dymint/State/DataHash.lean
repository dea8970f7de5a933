import Dymint.State.Executor
import Dymint.Types.Reference

/-!
# What the block validation says about the transactions

`CreateBlock` writes the hash of the transactions into the header, and the
proposer signs the header.  This file determines what `Validate` makes of it:
the verdict never depends on the block's data, so that a header either rejects
every block or accepts it with any transactions.
-/

namespace Dymint.Executor

open Procedure Dymint.Types

variable (tm : Tendermint)

theorem createBlock_dataHash (exec : BlockExecutor) (height : UInt64) (lastCommit : Commit)
    (lastHeaderHash : Hash) (state : State) (mempoolTxs : List Tx) (now : UInt64) :
    let block := createBlock tm exec height lastCommit lastHeaderHash state mempoolTxs now
    block.header.dataHash.bytes = getDataHash tm block := by
  simp [createBlock, getDataHash]

theorem exists_accepted_with_txs {state : State} {header : Header} {commit : Commit}
    {proposer : Option Sequencer} (haccepted : HeaderAccepted tm state header commit proposer)
    (txs : List Tx) :
    ∃ block : Block, block.header = header ∧ block.data.txs = txs ∧
      validate tm state block commit proposer = .ok () := by
  refine ⟨⟨header, ⟨txs, [], []⟩, default⟩, rfl, rfl, ?_⟩
  rw [validate_eq_ok]
  exact ⟨haccepted, rfl⟩

open Reference

/-- The header pins down the transactions of the blocks accepted with it, and
commits to their hash, only where it is accepted with no block at all. -/
theorem txs_pinned_iff_header_rejected (hhash : ∃ left right, tm.dataHash left ≠ tm.dataHash right)
    (state : State) (proposer : Option Sequencer) (commit : Commit) (header : Header) :
    ((∀ left right : Block, left.header = header → right.header = header →
        validate tm state left commit proposer = .ok () →
        validate tm state right commit proposer = .ok () →
        left.data.txs = right.data.txs) ↔
      ¬ HeaderAccepted tm state header commit proposer) ∧
    ((∀ block : Block, block.header = header → validate tm state block commit proposer = .ok () →
        block.header.dataHash.bytes = getDataHash tm block) ↔
      ¬ HeaderAccepted tm state header commit proposer) := by
  refine ⟨⟨?_, ?_⟩, ⟨?_, ?_⟩⟩
  · intro hpinned haccepted
    obtain ⟨left, hleft, hltxs, hlok⟩ := exists_accepted_with_txs tm haccepted []
    obtain ⟨right, hright, hrtxs, hrok⟩ := exists_accepted_with_txs tm haccepted [[]]
    have htxs := hpinned left right hleft hright hlok hrok
    rw [hltxs, hrtxs] at htxs
    simp at htxs
  · intro hrejected left right hleft _ hlok _
    rw [validate_eq_ok, hleft] at hlok
    exact absurd hlok.1 hrejected
  · intro hcommits haccepted
    obtain ⟨txs, txs', hne⟩ := hhash
    obtain ⟨left, hleft, hltxs, hlok⟩ := exists_accepted_with_txs tm haccepted txs
    obtain ⟨right, hright, hrtxs, hrok⟩ := exists_accepted_with_txs tm haccepted txs'
    have hlhash := hcommits left hleft hlok
    have hrhash := hcommits right hright hrok
    rw [hleft, getDataHash, toABCIBlockDataTxs, hltxs] at hlhash
    rw [hright, getDataHash, toABCIBlockDataTxs, hrtxs] at hrhash
    exact hne (FixedBytes.ext (hlhash.symm.trans hrhash))
  · intro hrejected block hblock hok
    rw [validate_eq_ok, hblock] at hok
    exact absurd hok.1 hrejected

/-! ## A signed block with exchanged transactions -/

namespace SwappedTxs

def state : State :=
  { (default : State) with
    version := ⟨⟨11, 0⟩, "0.34.28"⟩
    initialHeight := 1
    validators := validatorSet
    nextValidators := validatorSet
    lastValidators := validatorSet }

def honest : Block := createBlock Reference.tendermint ⟨proposerKey, default, "rollapp"⟩ 1
    default default state [[1, 2, 3]] 1000

def swapped : Block := { honest with data := ⟨[[9]], [], []⟩ }

end SwappedTxs

/-- The proposer's commit for an honestly created block also carries a block
with the same header, other transactions and another data hash. -/
theorem swapped_txs_accepted : validate Reference.tendermint SwappedTxs.state SwappedTxs.honest
        (commitFor SwappedTxs.honest.header)
        (some Reference.proposer) = .ok () ∧
      validate Reference.tendermint SwappedTxs.state SwappedTxs.swapped
        (commitFor SwappedTxs.honest.header)
        (some Reference.proposer) = .ok () ∧
      SwappedTxs.swapped.header = SwappedTxs.honest.header ∧
      SwappedTxs.swapped.data.txs ≠ SwappedTxs.honest.data.txs ∧
      SwappedTxs.swapped.header.dataHash.bytes ≠
        getDataHash Reference.tendermint SwappedTxs.swapped := by
  decide

theorem txs_pinned_iff_header_rejected_reference :
    (∃ left right, Reference.tendermint.dataHash left ≠ Reference.tendermint.dataHash right) ∧
    ((∀ left right : Block, left.header = SwappedTxs.honest.header →
        right.header = SwappedTxs.honest.header →
        validate Reference.tendermint SwappedTxs.state left default
          (some Reference.proposer) = .ok () →
        validate Reference.tendermint SwappedTxs.state right default
          (some Reference.proposer) = .ok () →
        left.data.txs = right.data.txs) ↔
      ¬ HeaderAccepted Reference.tendermint SwappedTxs.state
        SwappedTxs.honest.header default (some Reference.proposer)) :=
  have hhash : ∃ left right, Reference.tendermint.dataHash left ≠
      Reference.tendermint.dataHash right := ⟨[], [[1]], by decide⟩
  ⟨hhash, (txs_pinned_iff_header_rejected Reference.tendermint hhash
    SwappedTxs.state (some Reference.proposer) default
    SwappedTxs.honest.header).1⟩

end Dymint.Executor
