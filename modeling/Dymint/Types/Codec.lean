import Dymint.State.Executor
import Dymint.Types.Serialization

/-!
# States that survive their encoding

What the encoding of a state needs of Tendermint's codecs, and the states that
come back unchanged from their message.  The states of a running chain are of
this kind: their validator sets are the rotations of one set, their last block
id is empty or a header hash, and the rule for old state files does not apply
to them.
-/

namespace Dymint.Types

/-- What Tendermint documents about validator sets and block ids.  `valid` is
the invariant of the validator sets that its functions build. -/
structure Codec (tm : Tendermint) (valid : ValidatorSet → Prop) : Prop where
  valid_new : ∀ validators, validators ≠ [] → valid (tm.newValidatorSet validators)
  valid_increment : ∀ set, valid set → valid (tm.incrementProposerPriority set)
  /-- The hash covers keys and voting powers, but no priorities. -/
  hash_increment : ∀ set, valid set →
    tm.validatorsHash (tm.incrementProposerPriority set) = tm.validatorsHash set
  validatorSet : ∀ set, valid set →
    ∃ message, tm.validatorSetToProto set = .ok message ∧ tm.validatorSetFromProto message = .ok set
  blockID : ∀ hash : Bytes, hash.length = 0 ∨ hash.length = 32 →
    tm.blockIDFromProto (tm.blockIDToProto ⟨hash, default⟩) = .ok ⟨hash, default⟩

def State.Encodes (tm : Tendermint) (state : State) (message : Pb.State) : Prop :=
  state.toProto tm = .ok message ∧ State.fromProto tm message = .ok state

def PlainBlockID (blockID : BlockID) : Prop :=
  ∃ hash : Bytes, (hash.length = 0 ∨ hash.length = 32) ∧ blockID = ⟨hash, default⟩

def State.Legacy (state : State) : Prop := state.lastStoreHeight = 0 ∧ state.lastBlockHeight > 1

/-- The states that a chain passes through. -/
structure State.Sound (tm : Tendermint) (valid : ValidatorSet → Prop)
    (state : State) : Prop where
  nextValidators : valid state.nextValidators
  validators : valid state.validators
  lastValidators : valid state.lastValidators
  sameHash : tm.validatorsHash state.nextValidators = tm.validatorsHash state.validators
  blockID : PlainBlockID state.lastBlockID
  notLegacy : ¬ state.Legacy

section

variable {tm : Tendermint} {valid : ValidatorSet → Prop} {state : State}

theorem State.ofMessage_message (hlegacy : ¬ state.Legacy) (next validators last : ValidatorSet) :
    State.ofMessage (state.message tm next validators last) state.version
      state.lastBlockID state.nextValidators state.validators
      state.lastValidators = state := by
  have hstore : (state.message tm next validators last).storeHeight =
      state.lastStoreHeight := if_neg hlegacy
  rw [State.ofMessage, hstore]
  simp [State.message]

section

variable (hsound : state.Sound tm valid)

include hsound

theorem State.Sound.encodes (hcodec : Codec tm valid) :
    ∃ message, State.Encodes tm state message := by
  obtain ⟨next, hnext, hnext'⟩ := hcodec.validatorSet _ hsound.nextValidators
  obtain ⟨current, hcurrent, hcurrent'⟩ := hcodec.validatorSet _ hsound.validators
  obtain ⟨last, hlast, hlast'⟩ := hcodec.validatorSet _ hsound.lastValidators
  obtain ⟨hash, hlength, hid⟩ := hsound.blockID
  have hid' : tm.blockIDFromProto (tm.blockIDToProto state.lastBlockID) =
      .ok state.lastBlockID := by
    rw [hid]
    exact hcodec.blockID hash hlength
  have hto := State.toProto_eq_ok.2 ⟨next, current, last, hnext, hcurrent, hlast, rfl⟩
  have hfrom := State.fromProto_eq_ok.2
    ⟨state.version, state.lastBlockID, state.nextValidators, state.validators,
      state.lastValidators, rfl, hid', hnext', hcurrent', hlast',
      (State.ofMessage_message hsound.notLegacy next current last).symm⟩
  exact ⟨_, hto, hfrom⟩

theorem State.Sound.of_eq {state' : State}
    (hnext : state'.nextValidators = state.nextValidators)
    (hvalidators : state'.validators = state.validators)
    (hid : state'.lastBlockID = state.lastBlockID) (hlast : valid state'.lastValidators)
    (hlegacy : ¬ state'.Legacy) : state'.Sound tm valid where
  nextValidators := hnext ▸ hsound.nextValidators
  validators := hvalidators ▸ hsound.validators
  lastValidators := hlast
  sameHash := by
    rw [hnext, hvalidators]
    exact hsound.sameHash
  blockID := hid ▸ hsound.blockID
  notLegacy := hlegacy

theorem State.Sound.setSLStateIndex (index : UInt64) :
    (state.setSLStateIndex index).Sound tm valid :=
  hsound.of_eq rfl rfl rfl hsound.lastValidators hsound.notLegacy

theorem State.Sound.updateState (hcodec : Codec tm valid)
    (block : Block) (hlegacy : ¬ (Executor.updateState tm state block).Legacy) :
    (Executor.updateState tm state block).Sound tm valid where
  nextValidators := by
    simp only [Executor.updateState]
    split
    · exact hcodec.valid_increment _ hsound.nextValidators
    · exact hsound.nextValidators
  validators := hsound.nextValidators
  lastValidators := hsound.lastValidators
  sameHash := by
    simp only [Executor.updateState]
    split
    · exact hcodec.hash_increment _ hsound.nextValidators
    · rfl
  blockID := ⟨_, Or.inr (block.header.hash tm).length_bytes, rfl⟩
  notLegacy := hlegacy

end

end

end Dymint.Types
