import Dymint.Block.System
import Dymint.Types.Reference
import Dymint.Types.Codec

/-!
# A reference node

An executable environment for the manager: one sequencer, and an application
that collects the transactions of its blocks.
-/

namespace Dymint.Manager.Reference

open Procedure Dymint.Types Types.Reference CrashSystem

def application : Application (List Tx) where
  initChain txs _ := (txs, ⟨none, []⟩)
  beginBlock txs _ := (txs, ⟨[]⟩)
  deliverTx txs tx := (txs ++ [tx], ⟨0, [], "", 0, 0⟩)
  endBlock txs _ := (txs, ⟨[]⟩)
  commit txs := (txs, ⟨(digest (txsBytes txs)).bytes, 0⟩)

def env : Env (List Tx) where
  tm := tendermint
  app := application
  exec := ⟨proposerKey, FixedBytes.zero 8, "rollapp"⟩
  genesis := ⟨0, "rollapp", 1, default, [], [], by decide⟩
  sequencersList := [proposer]
  proposerPubKey := proposerKey
  sign msg := .ok (sign proposerKey msg)
  tmSign msg := .ok (sign proposerKey msg)

theorem hashesHeight : Store.HashesHeight env.tm := fun _ _ => height_eq_of_headerHash_eq

theorem codec : Codec env.tm fun set => set.validators ≠ [] where
  valid_new _ hvalidators := hvalidators
  valid_increment _ hset := hset
  hash_increment _ _ := rfl
  validatorSet set hset := ⟨set, rfl, if_neg hset⟩
  blockID _ _ := rfl

theorem commit_length (txs : List Tx) : (env.app.commit txs).2.data.length = 32 :=
  (digest (txsBytes txs)).length_bytes

theorem commit_retains (txs : List Tx) : (env.app.commit txs).2.retainHeight ≤ 0 := by
  change (0 : Int64) ≤ 0
  decide

/-- The inputs of a call to `produceBlock` at the given time. -/
def produceInput (now : UInt64) (txs : List Tx) : ProduceInput := ⟨true, txs, now, 0⟩

def produceAt (now : UInt64) (txs : List Tx) : Request := .produce (produceInput now txs)

/-- `count` steps that all succeed. -/
def steps (count : ℕ) : List (Label Answer Request) := List.replicate count (.step .ok)

/-- Start the process and let `NewManager` finish on an empty database. -/
def firstBoot : List (Label Answer Request) := .boot :: steps 4 ++ [.ret]

def firstBlock : List (Label Answer Request) :=
  firstBoot ++ .call (produceAt 5 [[1]]) :: steps 31 ++ [.ret]

def nextBlock (node : Node (List Tx)) (txs : List Tx) : Block :=
  Executor.createBlock env.tm env.exec (node.height + 1)
    ⟨node.height, FixedBytes.zero 32, [[1]], default⟩ (FixedBytes.zero 32)
    node.lastState txs 6

def nextCommit (node : Node (List Tx)) (txs : List Tx) : Commit :=
  commitFor (nextBlock node txs).header

def poolBlock (height time : UInt64) (appHash lastResultsHash : Hash)
    (txs : List Tx) : Block :=
  Executor.createBlock env.tm env.exec height
    ⟨height - 1, FixedBytes.zero 32, [[1]], default⟩ (FixedBytes.zero 32)
    { newFromGenesisDoc env.tm env.genesis with
      appHash := appHash
      lastResultsHash := lastResultsHash } txs time

def poolFirst : Block := poolBlock 1 5 (FixedBytes.zero 32) (FixedBytes.zero 32) [[1]]

def poolSecond : Block := poolBlock 2 6 (digest (txsBytes [[1]])) (digest [0]) [[2]]

def deliver (block : Block) : Request := .gossip block (commitFor block.header)

def firstDelivered : List (Label Answer Request) :=
  firstBoot ++ .call (deliver poolFirst) :: steps 26 ++ [.ret]

def secondDelivered : List (Label Answer Request) :=
  firstDelivered ++ .call (deliver poolSecond) :: steps 26 ++ [.ret]

/-- A crash, after which `LoadState` fails. -/
def lostBoot : List (Label Answer Request) :=
  .crash :: .boot :: .step .failBefore :: steps 3 ++ [.ret]

end Dymint.Manager.Reference
