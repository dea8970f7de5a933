import Dymint.DA.Celestia

/-!
# Produced blocks at their receivers

What `produceBlock` creates travels as a gossiped block or in a batch and is
then checked by other nodes against their own state.  This file says exactly
which of the created blocks they accept.
-/

namespace Dymint.Manager

open Procedure Dymint.Types Store

variable {α : Type}

/-! ## Assumptions on keys and states -/

/-- The node signs with the key of the proposer: verification accepts exactly its
signatures, which are not longer than Tendermint allows, and the address that it
writes into its blocks is not empty. -/
structure SignsFor (env : Env α) (proposer : Sequencer) : Prop where
  verify : ∀ msg signature,
    env.tm.verifySignature proposer.publicKey msg signature = true ↔ env.sign msg = .ok signature
  size : ∀ msg signature, env.sign msg = .ok signature → signature.length ≤ maxSignatureSize
  address : env.exec.proposerAddress ≠ []

/-- The fields of the state that validation reads. -/
structure Alike (state other : State) : Prop where
  version : other.version = state.version
  initialHeight : other.initialHeight = state.initialHeight
  lastBlockHeight : other.lastBlockHeight = state.lastBlockHeight
  lastStoreHeight : other.lastStoreHeight = state.lastStoreHeight
  appHash : other.appHash = state.appHash
  lastResultsHash : other.lastResultsHash = state.lastResultsHash

structure Fits (state : State) (lastCommit : Commit) : Prop where
  first : state.lastBlockHeight ≤ 0 → state.lastStoreHeight + 1 = state.initialHeight.toUInt64
  lastCommit : lastCommit.validateBasic = .ok ()

/-! ## What is created -/

section

variable {env : Env α} {node : Node α} {input : ProduceInput}
variable {lastCommit : Commit} {lastHeaderHash : Hash} {block : Block}
variable {commit : Commit}

theorem createSignedBlock_eq_ok {newHeight : UInt64} {answers : ℕ → Answer}
    (hcreated : ((createSignedBlock env input newHeight lastCommit lastHeaderHash).exec answers
      node).2 = .ok (block, commit)) :
    block = Executor.createBlock env.tm env.exec newHeight lastCommit
        lastHeaderHash node.lastState input.mempoolTxs input.now ∧
      createCommit env node.lastState.chainID block input.voteTimestamp = .ok commit := by
  have hspec : (createSignedBlock env input newHeight lastCommit
      lastHeaderHash).wp (.anyAnswer Answer fun _ => True)
      (fun result _ => result = .ok (block, commit) →
        block = Executor.createBlock env.tm env.exec newHeight lastCommit
            lastHeaderHash node.lastState input.mempoolTxs input.now ∧
          createCommit env node.lastState.chainID block input.voteTimestamp = .ok commit) node := by
    apply wp_getLastState_bind trivial
    dsimp only
    split
    · intro hfail
      cases hfail
    · apply wp_getLastState_bind trivial
      rw [Proc.wp_bind, Proc.wp_ofResult]
      cases hcommit : createCommit env node.lastState.chainID
          (Executor.createBlock env.tm env.exec newHeight lastCommit
            lastHeaderHash node.lastState input.mempoolTxs input.now)
          input.voteTimestamp with
      | ok value =>
        intro hpair
        obtain ⟨rfl, rfl⟩ := Prod.mk.inj (Result.ok.inj hpair)
        exact ⟨rfl, hcommit⟩
      | err error =>
        intro hfail
        cases hfail
      | panic =>
        intro hfail
        cases hfail
  exact Proc.exec_of_wp hspec answers (fun _ _ => trivial) hcreated

theorem createCommit_eq_ok {chainID : String} {voteTimestamp : Time}
    (hcommit : createCommit env chainID block voteTimestamp = .ok commit) :
    ∃ bytes signature, env.tm.marshalHeader (toABCIHeaderPB env.tm block.header) = .ok bytes ∧
      env.sign bytes = .ok signature ∧ commit.height = block.header.height ∧
      commit.signatures = [signature] := by
  simp only [createCommit, Result.bind_eq_ok, Result.ofExcept_eq_ok,
    Result.pure_eq, Result.ok.injEq] at hcommit
  rcases hcommit with ⟨bytes, hbytes, signature, hsign, _, _, rfl⟩
  exact ⟨bytes, signature, hbytes, hsign, rfl, rfl⟩

theorem validateCommit_created {proposer : Sequencer} (hkey : SignsFor env proposer)
    {chainID : String} {voteTimestamp : Time}
    (hcommit : createCommit env chainID block voteTimestamp = .ok commit) :
    Executor.validateCommit env.tm (some proposer) commit block.header = .ok () := by
  rcases createCommit_eq_ok hcommit with
    ⟨bytes, signature, hbytes, hsign, _, hsignatures⟩
  have hsize : ¬ signature.length > maxSignatureSize :=
    Nat.not_lt.2 (hkey.size bytes signature hsign)
  have hverify := (hkey.verify bytes signature).2 hsign
  have hbasic : commit.validateBasic = .ok () := by
    simp [Commit.validateBasic, hsignatures, hsize]
  simp [Executor.validateCommit, hbytes, Result.ofExcept, Commit.validate,
    hbasic, hsignatures, hverify]

theorem validateBlock_created {state other : State} (halike : Alike state other)
    (haddress : env.exec.proposerAddress ≠ []) (txs : List Tx) (now : UInt64) :
    Executor.validateBlock other (Executor.createBlock env.tm env.exec (state.lastStoreHeight + 1)
          lastCommit lastHeaderHash state txs now) = .ok () ↔
      Fits state lastCommit := by
  rw [Executor.validateBlock_eq_ok, Executor.blockValidateBasic_eq_ok,
    halike.version, halike.initialHeight, halike.lastBlockHeight,
    halike.lastStoreHeight, halike.appHash, halike.lastResultsHash]
  constructor
  · intro h
    exact ⟨h.2.2.2.1, h.1.2⟩
  · intro h
    exact ⟨⟨haddress, h.lastCommit⟩, rfl, rfl, h.first, fun _ => rfl, rfl, rfl⟩

end

/-! ## Encoding and decoding -/

theorem mem_pairs_decoded {batch : Batch} {block : Block} {commit : Commit}
    (hblock : block.withoutEvidence = block) (hpair : (block, commit) ∈ DA.pairs batch) :
    (block, commit) ∈ DA.pairs { batch with blocks := batch.blocks.map Block.withoutEvidence } := by
  simp only [DA.pairs, List.zip_map_left]
  rw [← hblock]
  exact List.mem_map_of_mem (f := Prod.map Block.withoutEvidence id) hpair

/-! ## Acceptance -/

/-- What a node creates on top of its store arrives unchanged, and every node
whose state agrees in the fields that validation reads accepts it exactly when
it fits. -/
theorem produced_block_accepted_iff {env : Env α} {proposer : Sequencer}
    (hkey : SignsFor env proposer) {node : Node α} {input : ProduceInput} {lastCommit : Commit}
    {lastHeaderHash : Hash} {block : Block} {commit : Commit} {answers : ℕ → Answer}
    (hheight : node.height = node.lastState.lastStoreHeight)
    (hcreated : ((createSignedBlock env input (node.height + 1) lastCommit lastHeaderHash).exec
      answers node).2 = .ok (block, commit)) :
    P2P.GossipedBlock.fromProto (P2P.GossipedBlock.toProto ⟨block, commit⟩) = .ok ⟨block, commit⟩ ∧
      (∀ batch, (block, commit) ∈ DA.pairs batch →
        ∃ decoded, Batch.fromProto batch.toProto = .ok decoded ∧
          (block, commit) ∈ DA.pairs decoded) ∧
      ∀ other, Alike node.lastState other →
        (Executor.validate env.tm other block commit (some proposer) = .ok () ↔
          Fits node.lastState lastCommit) := by
  rcases createSignedBlock_eq_ok hcreated with ⟨hblock, hcommit⟩
  have hevidence : block.withoutEvidence = block := by
    rw [hblock]
    rfl
  refine ⟨?_, ?_, ?_⟩
  · rw [P2P.GossipedBlock.fromProto_toProto, hevidence]
  · intro batch hpair
    exact ⟨_, Batch.fromProto_toProto batch, mem_pairs_decoded hevidence hpair⟩
  · intro other halike
    rw [Executor.validate, Result.check_bind_eq_ok,
      and_iff_left (validateCommit_created hkey hcommit), hblock, hheight]
    exact validateBlock_created halike hkey.address _ _

/-! ## The first block of a chain -/

namespace FirstBlock

open Manager.Reference Types.Reference

theorem signsFor : SignsFor Reference.env proposer where
  verify msg signature := by
    change decide (signature = sign proposerKey msg) = true ↔
      Except.ok (sign proposerKey msg) = .ok signature
    rw [decide_eq_true_eq, Except.ok.injEq, eq_comm]
  size msg signature hsign := by
    obtain rfl := Except.ok.inj hsign
    exact List.length_take_le _ _
  address := by decide

def lastCommit (height : UInt64) : Commit := ⟨height, FixedBytes.zero 32, [], default⟩

/-- What `produceBlock` creates as the first block. -/
def created (env : Env (List Tx)) (node : Node (List Tx)) : Result Error (Block × Commit) :=
  ((do let (lastCommit, lastHeaderHash) ← loadLast env node.height
       createSignedBlock env (produceInput 5 [[1]]) (node.height + 1) lastCommit
         lastHeaderHash).exec (fun _ => .ok) node).2

def block (env : Env (List Tx)) (node : Node (List Tx)) : Block :=
  Executor.createBlock env.tm env.exec (node.height + 1)
    (lastCommit node.height) (FixedBytes.zero 32) node.lastState [[1]] 5

def commit (env : Env (List Tx)) (node : Node (List Tx)) : Commit :=
  match createCommit env node.lastState.chainID (block env node) 0 with
  | .ok commit => commit
  | _ => default

/-- The reference chain with a genesis document that starts at height 2. -/
def lateEnv : Env (List Tx) :=
  { Reference.env with genesis := ⟨0, "rollapp", 2, default, [], [], by decide⟩ }

end FirstBlock

/-- A node at height 1 that is restarted on its store with such a document takes its
next block for the first one.  The block refers to a commit with a height and without
a signature, and its own producer rejects it. -/
theorem late_first_block_rejected : ∃ node, ReachableNode Reference.env [] ⟨node, .idle⟩ ∧
      let started := (newManager FirstBlock.lateEnv).exec (fun _ => .ok) (crash node)
      let later := started.1
      started.2 = .ok () ∧ later.height = 1 ∧ later.height = later.lastState.lastStoreHeight ∧
        FirstBlock.created FirstBlock.lateEnv later =
          .ok (FirstBlock.block FirstBlock.lateEnv later,
            FirstBlock.commit FirstBlock.lateEnv later) ∧
        Executor.validate FirstBlock.lateEnv.tm later.lastState
          (FirstBlock.block FirstBlock.lateEnv later) (FirstBlock.commit FirstBlock.lateEnv later)
          (some Types.Reference.proposer) = .err (.new "there should be 1 signature") :=
  exists_idleNode Reference.firstBlock (by decide +kernel)

/-- The first block of the reference chain is accepted. -/
theorem produced_block_accepted_iff_reference : SignsFor Reference.env Types.Reference.proposer ∧
      ∃ node, ReachableNode Reference.env [] ⟨node, .idle⟩ ∧
        ((createSignedBlock Reference.env (Reference.produceInput 5 [[1]])
          (node.height + 1) (FirstBlock.lastCommit node.height)
          (FixedBytes.zero 32)).exec (fun _ => .ok) node).2 =
            .ok (FirstBlock.block Reference.env node, FirstBlock.commit Reference.env node) ∧
        Executor.validate Reference.env.tm node.lastState (FirstBlock.block Reference.env node)
          (FirstBlock.commit Reference.env node)
          (some Types.Reference.proposer) = .ok () := by
  obtain ⟨node, hreach, hheight, hstore, hinitial, hcreated⟩ :
      ∃ node, ReachableNode Reference.env [] ⟨node, .idle⟩ ∧
        node.height = node.lastState.lastStoreHeight ∧
        node.lastState.lastStoreHeight = 0 ∧
        node.lastState.initialHeight = 1 ∧
        ((createSignedBlock Reference.env (Reference.produceInput 5 [[1]])
          (node.height + 1) (FirstBlock.lastCommit node.height)
          (FixedBytes.zero 32)).exec (fun _ => .ok) node).2 =
            .ok (FirstBlock.block Reference.env node, FirstBlock.commit Reference.env node) :=
    exists_idleNode Reference.firstBoot (by decide)
  have hfits : Fits node.lastState (FirstBlock.lastCommit node.height) := by
    rw [hheight, hstore]
    constructor
    · intro _
      rw [hstore, hinitial]
      rfl
    · rfl
  have haccepted := produced_block_accepted_iff FirstBlock.signsFor hheight hcreated
  have hsame : Alike node.lastState node.lastState := ⟨rfl, rfl, rfl, rfl, rfl, rfl⟩
  exact ⟨FirstBlock.signsFor, node, hreach, hcreated, (haccepted.2.2 node.lastState hsame).2 hfits⟩

end Dymint.Manager
