import Dymint.Block.Produced
import Dymint.Conv.Block
import Mathlib.Data.Nat.SuccPred

/-!
# Commits for light clients

`produceBlock` signs a vote that it builds from the block.  The RPC method `Commit` builds
a Tendermint commit from what the store has of the block, and a light client builds the
vote from that commit.  The bytes that it verifies are the ones that were signed.
-/

namespace Dymint.RPC

open Procedure Dymint.Types Store Manager Abci

/-! ## The vote in a commit -/

/-- The block that a signature of a commit is for; only the flag `Commit` names one. -/
def blockIDOf (signature : CommitSig) (blockID : BlockID) : BlockID :=
  if signature.blockIDFlag = 2 then blockID else default

def voteOf (commit : TmCommit) (index : ℕ) (signature : CommitSig) : Vote where
  height := commit.height
  round := commit.round
  timestamp := signature.timestamp
  blockID := blockIDOf signature commit.blockID
  validatorAddress := signature.validatorAddress
  validatorIndex := .ofNat index

/-- Tendermint's `Commit.GetVote`, which panics beyond the signatures, and
`Commit.VoteSignBytes`. -/
structure CommitVotes (tm : Tendermint) where
  getVote : TmCommit → ℕ → Option Vote
  voteSignBytes : String → TmCommit → ℕ → Option Bytes
  getVote_eq : ∀ commit index,
    getVote commit index = commit.signatures[index]?.map (voteOf commit index)
  voteSignBytes_eq : ∀ chainID commit index,
    voteSignBytes chainID commit index = (getVote commit index).map (tm.voteSignBytes chainID)

/-! ## `Client.Commit` -/

def normalizeHeight (storeHeight : UInt64) : Option Int64 → UInt64
  | none => storeHeight
  | some height => if height = 0 then storeHeight else height.toUInt64

structure ResultCommit where
  header : TmHeader
  commit : TmCommit
  deriving DecidableEq

def commit (tm : Tendermint) (db : Db) (storeHeight : UInt64)
    (height : Option Int64) : Result Error ResultCommit := do
  let heightValue := normalizeHeight storeHeight height
  let com ← loadCommit db heightValue
  let b ← loadBlock db heightValue
  return ⟨(toABCIBlock tm b).header, toABCICommit tm com b.header⟩

/-! ## Stored blocks -/

structure HoldsBlock (tm : Tendermint) (db : Db) (block : Block) (commit : Commit) :
    Prop where
  hash : db (.index block.header.height) = some (block.header.hash tm).bytes
  data : db (.block (block.header.hash tm)) = some block.toProto
  signatures : db (.commit (block.header.hash tm)) = some commit.toProto

theorem holdsBlock_saveBlock (tm : Tendermint) (db : Db) (block : Block) (commit : Commit) :
    HoldsBlock tm (db.commit (saveBlock tm block commit)) block commit :=
  ⟨saveBlock_index tm db block commit, saveBlock_block tm db block commit,
    saveBlock_commit tm db block commit⟩

section

variable {tm : Tendermint} {db : Db} {block : Block} {com : Commit}

theorem HoldsBlock.loadBlock (hstored : HoldsBlock tm db block com) :
    loadBlock db block.header.height = .ok block.withoutEvidence :=
  loadBlock_eq_ok.2 ⟨_, hstored.hash, loadBlockByHash_eq_ok.2
    ⟨_, hstored.data, Block.fromProto_toProto block⟩⟩

theorem HoldsBlock.loadCommit (hstored : HoldsBlock tm db block com) :
    loadCommit db block.header.height = .ok com :=
  loadCommit_eq_ok.2 ⟨_, hstored.hash, _, hstored.signatures, Commit.fromProto_toProto com⟩

theorem commit_of_holdsBlock (hstored : HoldsBlock tm db block com) {storeHeight : UInt64}
    {height : Option Int64} (hheight : normalizeHeight storeHeight height = block.header.height) :
    commit tm db storeHeight height =
      .ok ⟨toABCIHeader tm block.header, toABCICommit tm com block.header⟩ := by
  rw [commit, hheight, hstored.loadCommit, hstored.loadBlock]
  rfl

end

/-! ## What was signed -/

section

variable {α : Type} (env : Env α)

/-- The vote of `createTMSignature`. -/
def signedVote (block : Block) (voteTimestamp : Time) : Vote where
  height := block.header.height.toInt64
  round := 0
  timestamp := voteTimestamp
  blockID := ⟨(block.header.hash env.tm).bytes, 1, (block.header.hash env.tm).bytes⟩
  validatorAddress := env.proposerAddress
  validatorIndex := 0

/-- The bytes that `createTMSignature` signs and verifies. -/
def signedBytes (chainID : String) (block : Block) (voteTimestamp : Time) : Bytes :=
  env.tm.voteSignBytes chainID (signedVote env block voteTimestamp)

variable {env}

theorem createTMSignature_eq_ok {chainID : String} {block : Block} {voteTimestamp : Time}
    {signature : Bytes}
    (hsigned : createTMSignature env chainID block voteTimestamp = .ok signature) :
    env.tmSign (signedBytes env chainID block voteTimestamp) = .ok signature ∧
      env.tm.verifySignature env.proposerPubKey
        (signedBytes env chainID block voteTimestamp) signature = true := by
  obtain ⟨given, hsign, hverify⟩ := Result.bind_eq_ok.1 hsigned
  have hgiven := Result.ofExcept_eq_ok.1 hsign
  rw [ite_eq_iff] at hverify
  rcases hverify with ⟨hvalid, hresult⟩ | ⟨_, hresult⟩
  · obtain rfl := Result.ok.inj hresult
    exact ⟨hgiven, hvalid⟩
  · cases hresult

theorem tmSignature_createCommit {chainID : String} {block : Block} {voteTimestamp : Time}
    {com : Commit} (hcommit : createCommit env chainID block voteTimestamp = .ok com) :
    com.height = block.header.height ∧ ∃ signature,
      createTMSignature env chainID block voteTimestamp = .ok signature ∧
      com.tmSignature = ⟨2, env.proposerAddress, voteTimestamp, signature⟩ := by
  simp only [createCommit, Result.bind_eq_ok, Result.pure_eq, Result.ok.injEq] at hcommit
  obtain ⟨_, _, _, _, signature, hsigned, rfl⟩ := hcommit
  exact ⟨rfl, signature, hsigned, rfl⟩

structure Verifies (env : Env α) (votes : CommitVotes env.tm) (chainID : String) (signed : Bytes)
    (served : ResultCommit) : Prop where
  signBytes : votes.voteSignBytes chainID served.commit 0 = some signed
  signature : ∃ signature, served.commit.signatures = [signature] ∧
    env.tmSign signed = .ok signature.signature ∧
    env.tm.verifySignature env.proposerPubKey signed signature.signature = true
  blockID : served.commit.blockID.hash = (env.tm.headerHash served.header).bytes

/-- The commit that is served for a created and stored block verifies.  An empty byte
string is no signature. -/
theorem served_commit_verifies (votes : CommitVotes env.tm)
    (hempty : ∀ msg, env.tm.verifySignature env.proposerPubKey msg [] = false)
    (input : ProduceInput) (newHeight : UInt64) (lastCommit : Commit) (lastHeaderHash : Hash)
    (answers : ℕ → Answer) (node : Node α) {block : Block} {com : Commit}
    (hcreated : ((createSignedBlock env input newHeight lastCommit lastHeaderHash).exec answers
      node).2 = .ok (block, com)) {db : Db} (hstored : HoldsBlock env.tm db block com)
    (storeHeight : UInt64) (height : Option Int64)
    (hheight : normalizeHeight storeHeight height = block.header.height) :
    ∃ served, commit env.tm db storeHeight height = .ok served ∧
      Verifies env votes node.lastState.chainID
        (signedBytes env node.lastState.chainID block input.voteTimestamp) served := by
  obtain ⟨_, hcommit⟩ := createSignedBlock_eq_ok hcreated
  obtain ⟨hcomHeight, signature, hsigned, htm⟩ := tmSignature_createCommit hcommit
  obtain ⟨hsign, hverify⟩ := createTMSignature_eq_ok hsigned
  have hsignature : signature.length ≠ 0 := by
    intro hlength
    rw [List.length_eq_zero_iff.1 hlength, hempty] at hverify
    cases hverify
  have hsignatures : (toABCICommit env.tm com block.header).signatures =
      [⟨2, env.proposerAddress, input.voteTimestamp, signature⟩] := by
    simp only [toABCICommit, htm, hsignature, if_false]
  have hvote : votes.getVote (toABCICommit env.tm com block.header) 0 =
      some (signedVote env block input.voteTimestamp) := by
    rw [votes.getVote_eq, hsignatures]
    simp [toABCICommit, hcomHeight, voteOf, blockIDOf, signedVote]
  refine ⟨_, commit_of_holdsBlock hstored hheight, ?_, ?_, rfl⟩
  · rw [votes.voteSignBytes_eq, hvote]
    rfl
  · exact ⟨_, hsignatures, hsign, hverify⟩

end

def Reference.votes : CommitVotes Manager.Reference.env.tm where
  getVote commit index := commit.signatures[index]?.map (voteOf commit index)
  voteSignBytes chainID commit index := (commit.signatures[index]?.map
    (voteOf commit index)).map (Manager.Reference.env.tm.voteSignBytes chainID)
  getVote_eq _ _ := rfl
  voteSignBytes_eq _ _ _ := rfl

/-- The commit of the first block of the reference chain. -/
theorem served_commit_verifies_reference : ∃ node, ReachableNode Reference.env [] ⟨node, .idle⟩ ∧
      ∃ served, commit Reference.env.tm (node.db.commit (saveBlock Reference.env.tm
            (FirstBlock.block Reference.env node) (FirstBlock.commit Reference.env node)))
          1 none = .ok served ∧
        Verifies Reference.env Reference.votes node.lastState.chainID
          (signedBytes Reference.env node.lastState.chainID
            (FirstBlock.block Reference.env node) 0) served := by
  obtain ⟨node, hreach, hheight, hcreated⟩ :
      ∃ node, ReachableNode Reference.env [] ⟨node, .idle⟩ ∧ node.height = 0 ∧
        ((createSignedBlock Reference.env (Reference.produceInput 5 [[1]])
          (node.height + 1) (FirstBlock.lastCommit node.height)
          (FixedBytes.zero 32)).exec (fun _ => .ok) node).2 =
            .ok (FirstBlock.block Reference.env node, FirstBlock.commit Reference.env node) := by
    apply exists_idleNode Reference.firstBoot
    decide +kernel
  have hempty (msg : Bytes) :
      Reference.env.tm.verifySignature Reference.env.proposerPubKey msg [] = false := by
    change decide ([] = Types.Reference.sign Types.Reference.proposerKey msg) = false
    simp [Types.Reference.sign, Types.Reference.proposerKey, maxSignatureSize]
  refine ⟨node, hreach, ?_⟩
  apply served_commit_verifies _ hempty _ _ _ _ _ node hcreated (holdsBlock_saveBlock _ _ _ _)
  change (1 : UInt64) = node.height + 1
  rw [hheight]
  rfl

end Dymint.RPC
