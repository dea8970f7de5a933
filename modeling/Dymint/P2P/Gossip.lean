import Dymint.Types.Decoding
import Dymint.Types.Wire
import Dymint.State.Executor
import Dymint.Block.Reference

/-!
# Gossiped blocks

The event data of `p2p/events.go` with its codec, and the callback of
`p2p/validator.go` that runs on every message of the block topic.  The generated
`Unmarshal` and the local event bus are parameters.
-/

namespace Dymint.P2P

open Procedure Dymint.Types

/-- The message `p2p.events.GossipedBlock`. -/
structure Pb.GossipedBlock where
  block : Option Types.Pb.Block
  commit : Option Types.Pb.Commit
  deriving DecidableEq

structure GossipedBlock where
  block : Block
  commit : Commit
  deriving DecidableEq

namespace GossipedBlock

def toProto (gossiped : GossipedBlock) : Pb.GossipedBlock where
  block := some gossiped.block.toProto
  commit := some gossiped.commit.toProto

/-- Neither sub-message is checked before it is dereferenced. -/
def fromProto (other : Pb.GossipedBlock) : Result Error GossipedBlock := do
  let pbBlock ← .deref other.block
  let block ← Block.fromProto pbBlock
  let pbCommit ← .deref other.commit
  let commit ← Commit.fromProto pbCommit
  return ⟨block, commit⟩

def unmarshalBinary (unmarshal : Bytes → Except Error Pb.GossipedBlock)
    (data : Bytes) : Result Error GossipedBlock := do
  let pbGossipedBlock ← .ofExcept (unmarshal data)
  fromProto pbGossipedBlock

def marshalBinary (wire : Wire Pb.GossipedBlock) (gossiped : GossipedBlock) : Except Error Bytes :=
  wire.marshal gossiped.toProto

def validate (gossiped : GossipedBlock) : Result Error Unit := do
  gossiped.block.validateBasic
  gossiped.commit.validateBasic

end GossipedBlock

/-- The callback of `BlockValidator`: a message is rejected when it does not
decode, when it fails the basic checks or when it cannot be published. -/
def blockValidator (unmarshal : Bytes → Except Error Pb.GossipedBlock)
    (publish : GossipedBlock → Except Error Unit) (data : Bytes) :
    Result Error Bool :=
  match GossipedBlock.unmarshalBinary unmarshal data with
  | .panic => .panic
  | .err _ => .ok false
  | .ok gossiped =>
    match gossiped.validate with
    | .panic => .panic
    | .err _ => .ok false
    | .ok () =>
      match publish gossiped with
      | .error _ => .ok false
      | .ok () => .ok true

/-! ## The codec -/

theorem GossipedBlock.fromProto_toProto (gossiped : GossipedBlock) : fromProto gossiped.toProto =
      .ok ⟨gossiped.block.withoutEvidence, gossiped.commit⟩ := by
  simp [fromProto, toProto, Result.deref]

/-- A block with an empty transaction between two equal ones. -/
def sampleGossip : GossipedBlock where
  block := ⟨default, ⟨[[1], [], [1]], default, []⟩, default⟩
  commit := default

def sampleBatch : Batch := ⟨1, 1, [sampleGossip.block], [sampleGossip.commit]⟩

def Pb.GossipedBlock.Readable (message : Pb.GossipedBlock) : Prop :=
  ∃ block, message.block = some block ∧ block.Readable ∧ (block.WellFormed → message.commit ≠ none)

def Pb.GossipedBlock.WellFormed (message : Pb.GossipedBlock) : Prop :=
  ∃ block commit, message.block = some block ∧ block.WellFormed ∧
    message.commit = some commit ∧ commit.Sized

section

variable {message : Pb.GossipedBlock}

theorem GossipedBlock.fromProto_ne_panic : fromProto message ≠ .panic ↔ message.Readable := by
  cases hblock : message.block with
  | none => simp [fromProto, hblock, Result.deref, Pb.GossipedBlock.Readable]
  | some block =>
    have hreadable : message.Readable ↔
        block.Readable ∧ (block.WellFormed → message.commit ≠ none) := by
      simp [Pb.GossipedBlock.Readable, hblock]
    rw [hreadable, fromProto, hblock]
    simp only [Result.deref, Result.ok_bind, Result.bind_ne_panic, Block.fromProto_ne_panic]
    refine and_congr_right fun _ => ?_
    rw [← Block.fromProto_succeeds]
    cases hcommit : message.commit with
    | none => simp [Result.Succeeds]
    | some commit => simp [Commit.fromProto_ne_panic]

theorem GossipedBlock.fromProto_succeeds : (fromProto message).Succeeds ↔ message.WellFormed := by
  cases hblock : message.block with
  | none => simp [fromProto, hblock, Result.deref, Pb.GossipedBlock.WellFormed]
  | some block =>
    cases hcommit : message.commit with
    | none =>
      simp [fromProto, hblock, hcommit, Result.deref, Result.succeeds_bind,
        Pb.GossipedBlock.WellFormed]
    | some commit =>
      have hwell : message.WellFormed ↔ block.WellFormed ∧ commit.Sized := by
        simp [Pb.GossipedBlock.WellFormed, hblock, hcommit]
      rw [hwell, ← Block.fromProto_succeeds, ← Commit.fromProto_succeeds,
        fromProto, hblock, hcommit]
      simp only [Result.deref, Result.ok_bind, Result.succeeds_bind,
        Result.pure_eq, Result.succeeds_ok, and_true]
      exact exists_and_right

end

/-! ## The validator callback -/

section

variable (unmarshal : Bytes → Except Error Pb.GossipedBlock)
variable (publish : GossipedBlock → Except Error Unit) (data : Bytes)

theorem commit_validateBasic_ne_panic (commit : Commit) : commit.validateBasic ≠ .panic := by
  unfold Commit.validateBasic
  split
  · split
    · split <;> simp
    · simp
  · simp

theorem block_validateBasic_ne_panic (block : Block) : block.validateBasic ≠ .panic := by
  have hheader : block.header.validateBasic ≠ .panic := by
    unfold Header.validateBasic
    split <;> simp
  simp [Block.validateBasic, Result.bind_ne_panic, hheader, Data.validateBasic,
    commit_validateBasic_ne_panic]

theorem GossipedBlock.validate_ne_panic (gossiped : GossipedBlock) :
    gossiped.validate ≠ .panic := by
  simp [validate, Result.bind_ne_panic, block_validateBasic_ne_panic, commit_validateBasic_ne_panic]

/-- The callback answers exactly when the message can be decoded or fails to. -/
theorem blockValidator_succeeds : (blockValidator unmarshal publish data).Succeeds ↔
      GossipedBlock.unmarshalBinary unmarshal data ≠ .panic := by
  unfold blockValidator
  cases hdecoded : GossipedBlock.unmarshalBinary unmarshal data with
  | panic | err => simp
  | ok gossiped =>
    cases hvalid : gossiped.validate with
    | panic => exact absurd hvalid gossiped.validate_ne_panic
    | err error => simp [hvalid]
    | ok value => cases hpublished : publish gossiped <;>
        simp [hvalid, hpublished]

theorem unmarshalBinary_ne_panic : GossipedBlock.unmarshalBinary unmarshal data ≠ .panic ↔
      ∀ message, unmarshal data = .ok message → message.Readable := by
  simp only [GossipedBlock.unmarshalBinary, Result.bind_ne_panic,
    Result.ofExcept_eq_ok, GossipedBlock.fromProto_ne_panic]
  exact and_iff_right (Result.ofExcept_ne_panic _)

theorem unmarshalBinary_not_succeeds {message : Pb.GossipedBlock}
    (hmessage : unmarshal data = .ok message) (hmalformed : ¬ message.WellFormed) :
    ¬ (GossipedBlock.unmarshalBinary unmarshal data).Succeeds := by
  intro hdecoded
  apply hmalformed
  rw [GossipedBlock.unmarshalBinary, hmessage] at hdecoded
  exact GossipedBlock.fromProto_succeeds.1 hdecoded

/-- The callback answers, and malformed messages are reported as errors, exactly
on the messages that have a block with a header and a version, that have data
unless the header is malformed, and that have a commit unless the block is. -/
theorem blockValidator_answers_iff :
    ((∃ accepted, blockValidator unmarshal publish data = .ok accepted) ∧
      ∀ message, unmarshal data = .ok message → ¬ message.WellFormed →
        ∃ error, GossipedBlock.unmarshalBinary unmarshal data = .err error) ↔
      ∀ message, unmarshal data = .ok message → message.Readable := by
  rw [← unmarshalBinary_ne_panic, ← blockValidator_succeeds unmarshal publish]
  constructor
  · intro h
    exact h.1
  · intro hanswers
    have hpanic := (blockValidator_succeeds unmarshal publish data).1 hanswers
    exact ⟨hanswers, fun message hmessage hmalformed =>
      Result.eq_err_of_not_succeeds hpanic
        (unmarshalBinary_not_succeeds unmarshal data hmessage hmalformed)⟩

end

/-- The empty byte string is the encoding of a message that has nothing. -/
def decodesEmpty : Bytes → Except Error Pb.GossipedBlock
  | [] => .ok ⟨none, none⟩
  | _ => .error (.new "unexpected EOF")

/-- Whoever publishes an empty message to the block topic stops the node. -/
theorem empty_message_panics : blockValidator decodesEmpty (fun _ => .ok ()) [] = .panic := rfl

/-! ## From the callback to the executor -/

section

variable (tm : Tendermint) (state : State) (block : Block) (commit : Commit)

theorem validateBlock_ne_panic : Executor.validateBlock state block ≠ .panic := by
  unfold Executor.validateBlock
  rw [Result.bind_ne_panic]
  refine ⟨block_validateBasic_ne_panic block, fun _ _ => ?_⟩
  split_ifs <;> simp

theorem commit_validate_ne_panic (proposer : Sequencer) (msg : Bytes) :
    commit.validate tm (some proposer) msg ≠ .panic ↔
      (commit.height = 0 → commit.signatures ≠ []) := by
  unfold Commit.validate
  rw [Result.bind_ne_panic, and_iff_right (commit_validateBasic_ne_panic commit)]
  cases hsignatures : commit.signatures with
  | nil =>
    simp [Commit.validateBasic, hsignatures]
  | cons signature signatures =>
    simp only [ne_eq, reduceCtorEq, not_false_eq_true, implies_true, iff_true]
    intro _ _
    split <;> simp

/-- `BlockExecutor.Validate` returns exactly on the pairs whose commit has a
signature or a height, or that fail an earlier check. -/
theorem validate_returns_iff (proposer : Sequencer) :
    Executor.validate tm state block commit (some proposer) ≠ .panic ↔
      (Executor.validateBlock state block = .ok () →
        (∃ bytes, tm.marshalHeader (toABCIHeaderPB tm block.header) = .ok bytes) →
          commit.height = 0 → commit.signatures ≠ []) := by
  unfold Executor.validate Executor.validateCommit
  simp only [Result.bind_ne_panic, Result.ofExcept_eq_ok,
    commit_validate_ne_panic, and_iff_right (validateBlock_ne_panic state block),
    and_iff_right (Result.ofExcept_ne_panic _)]
  constructor
  · intro h hblock hbytes
    rcases hbytes with ⟨bytes, hbytes⟩
    exact h () hblock bytes hbytes
  · intro h _ hblock bytes hbytes
    exact h hblock ⟨bytes, hbytes⟩

end

/-! ## A commit without a signature -/

namespace UnsignedCommit

open Manager Manager.Reference CrashSystem

def commit : Commit := ⟨0, FixedBytes.zero 32, [], default⟩

/-- The pair survives the wire, passes the check of the gossip callback, and
makes the executor and with it `applyBlock` panic. -/
def Panics (node : Node (List Tx)) : Prop :=
  let block := nextBlock node [[1]]
  GossipedBlock.fromProto (GossipedBlock.toProto ⟨block, commit⟩) = .ok ⟨block, commit⟩ ∧
    GossipedBlock.validate ⟨block, commit⟩ = .ok () ∧
    Executor.validate env.tm node.lastState block commit (some Types.Reference.proposer) = .panic ∧
    ((applyBlock env block commit).exec (fun _ => .ok) node).2 = .panic

instance : DecidablePred Panics := fun _ => inferInstanceAs (Decidable (_ ∧ _))

end UnsignedCommit

open Manager in
theorem unsigned_commit_panics : ∃ node, ReachableNode Reference.env [] ⟨node, .idle⟩ ∧
      UnsignedCommit.Panics node :=
  exists_idleNode Reference.firstBoot (by decide)

end Dymint.P2P
