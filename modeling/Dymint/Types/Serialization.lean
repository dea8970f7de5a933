import Dymint.Types.Block

/-!
# Protobuf messages and their conversions

The wire messages of `types/pb/dymint` and the hand-written conversions of
`types/serialization.go`.  A sub-message that is absent on the wire is `none`;
the elements of a repeated message field are always present.  The generated
`Marshal` and `Unmarshal` are not modelled: a stored or transmitted value is
represented by its message.
-/

namespace Dymint.Types

open Procedure

namespace Pb

structure Version where
  block : UInt64
  app : UInt64
  deriving DecidableEq

structure Header where
  version : Option Version
  namespaceId : Bytes
  height : UInt64
  time : UInt64
  lastHeaderHash : Bytes
  lastCommitHash : Bytes
  dataHash : Bytes
  consensusHash : Bytes
  appHash : Bytes
  lastResultsHash : Bytes
  proposerAddress : Bytes
  aggregatorsHash : Bytes
  chainId : String
  deriving DecidableEq

structure CommitSig where
  blockIdFlag : UInt32
  validatorAddress : Bytes
  timestamp : Time
  signature : Bytes
  deriving DecidableEq

structure Commit where
  height : UInt64
  headerHash : Bytes
  signatures : List Bytes
  tmSignature : Option CommitSig
  deriving DecidableEq

structure Data where
  txs : List Bytes
  intermediateStateRoots : List Bytes
  evidence : List Bytes
  deriving DecidableEq

structure Block where
  header : Option Header
  data : Option Data
  lastCommit : Option Commit
  deriving DecidableEq

structure Batch where
  startHeight : UInt64
  endHeight : UInt64
  blocks : List Block
  commits : List Commit
  deriving DecidableEq

structure State where
  version : Option StateVersion
  chainId : String
  initialHeight : Int64
  lastBlockHeight : Int64
  lastBlockID : BlockID
  lastBlockTime : Time
  slStateIndex : UInt64
  nextValidators : ValidatorSet
  validators : ValidatorSet
  lastValidators : ValidatorSet
  lastHeightValidatorsChanged : Int64
  consensusParams : ConsensusParams
  lastHeightConsensusParamsChanged : Int64
  lastResultsHash : Bytes
  appHash : Bytes
  lastStoreHeight : UInt64
  baseHeight : UInt64
  deriving DecidableEq

end Pb

/-! ## To protobuf -/

def Header.toProto (header : Header) : Pb.Header where
  version := some ⟨header.version.block, header.version.app⟩
  namespaceId := header.namespaceID.bytes
  height := header.height
  time := header.time
  chainId := header.chainID
  lastHeaderHash := header.lastHeaderHash.bytes
  lastCommitHash := header.lastCommitHash.bytes
  dataHash := header.dataHash.bytes
  consensusHash := header.consensusHash.bytes
  appHash := header.appHash.bytes
  lastResultsHash := header.lastResultsHash.bytes
  proposerAddress := header.proposerAddress
  aggregatorsHash := header.aggregatorsHash.bytes

def Commit.toProto (commit : Commit) : Pb.Commit where
  height := commit.height
  headerHash := commit.headerHash.bytes
  signatures := commit.signatures
  tmSignature := some
    { blockIdFlag := commit.tmSignature.blockIDFlag.toUInt32
      validatorAddress := commit.tmSignature.validatorAddress
      timestamp := commit.tmSignature.timestamp
      signature := commit.tmSignature.signature }

/-- The loop appends the address of its own variable, so that every entry made
for one piece of evidence ends up as the last one. -/
def evidenceToProto (evidence : List Evidence) : List Bytes := evidence.flatMap fun e =>
    e.abci.filterMap fun _ => e.abci.getLast?

def Data.toProto (data : Data) : Pb.Data where
  txs := data.txs
  intermediateStateRoots := data.intermediateStateRoots
  evidence := evidenceToProto data.evidence

def Block.toProto (block : Block) : Pb.Block where
  header := some block.header.toProto
  data := some block.data.toProto
  lastCommit := some block.lastCommit.toProto

def Batch.toProto (batch : Batch) : Pb.Batch where
  startHeight := batch.startHeight
  endHeight := batch.endHeight
  blocks := batch.blocks.map Block.toProto
  commits := batch.commits.map Commit.toProto

def State.message (tm : Tendermint) (state : State)
    (nextValidators validators lastValidators : ValidatorSet) : Pb.State where
  version := some state.version
  chainId := state.chainID
  initialHeight := state.initialHeight
  lastBlockHeight := state.lastBlockHeight
  slStateIndex := state.slStateIndex
  lastBlockID := tm.blockIDToProto state.lastBlockID
  lastBlockTime := state.lastBlockTime
  nextValidators := nextValidators
  validators := validators
  lastValidators := lastValidators
  lastStoreHeight := state.lastStoreHeight
  baseHeight := state.baseHeight
  lastHeightValidatorsChanged := state.lastHeightValidatorsChanged
  consensusParams := state.consensusParams
  lastHeightConsensusParamsChanged := state.lastHeightConsensusParamsChanged
  lastResultsHash := state.lastResultsHash.bytes
  appHash := state.appHash.bytes

def State.toProto (tm : Tendermint) (state : State) : Except Error Pb.State := do
  let nextValidators ← tm.validatorSetToProto state.nextValidators
  let validators ← tm.validatorSetToProto state.validators
  let lastValidators ← tm.validatorSetToProto state.lastValidators
  return state.message tm nextValidators validators lastValidators

/-! ## From protobuf -/

/-- Copy `src` into an array of the same length; `text` names the field. -/
def safeCopy (n : ℕ) (src : Bytes) (text : String) : Result Error (FixedBytes n) :=
  if h : src.length = n then .ok ⟨src, h⟩ else .err (.new text)

/-- `none` is a nil message or a nil version, which the source dereferences. -/
def Header.fromProto : Option Pb.Header → Result Error Header
  | none => .panic
  | some other =>
    match other.version with
    | none => .panic
    | some version => do
      let namespaceID ←
        safeCopy 8 other.namespaceId "invalid length of 'NamespaceId'"
      let lastHeaderHash ←
        safeCopy 32 other.lastHeaderHash "invalid length of 'LastHeaderHash'"
      let lastCommitHash ←
        safeCopy 32 other.lastCommitHash "invalid length of 'LastCommitHash'"
      let dataHash ← safeCopy 32 other.dataHash "invalid length of 'DataHash'"
      let consensusHash ←
        safeCopy 32 other.consensusHash "invalid length of 'ConsensusHash'"
      let appHash ← safeCopy 32 other.appHash "invalid length of 'AppHash'"
      let lastResultsHash ←
        safeCopy 32 other.lastResultsHash "invalid length of 'LastResultsHash'"
      let aggregatorsHash ←
        safeCopy 32 other.aggregatorsHash "invalid length of 'AggregatorsHash'"
      return {
        version := ⟨version.block, version.app⟩
        namespaceID := namespaceID
        height := other.height
        time := other.time
        lastHeaderHash := lastHeaderHash
        lastCommitHash := lastCommitHash
        dataHash := dataHash
        consensusHash := consensusHash
        appHash := appHash
        lastResultsHash := lastResultsHash
        proposerAddress := other.proposerAddress
        aggregatorsHash := aggregatorsHash
        chainID := other.chainId }

def Commit.fromProto (other : Pb.Commit) : Result Error Commit := do
  let headerHash ← safeCopy 32 other.headerHash "invalid length of HeaderHash"
  return {
    height := other.height
    headerHash := headerHash
    signatures := other.signatures
    tmSignature :=
      -- old state files do not have this field
      match other.tmSignature with
      | none => default
      | some signature =>
        { blockIDFlag := signature.blockIdFlag.toUInt8
          validatorAddress := signature.validatorAddress
          timestamp := signature.timestamp
          signature := signature.signature } }

/-- Evidence is dropped on the way back: the interface has no implementations.
-/
def Block.fromProto (other : Pb.Block) : Result Error Block := do
  let header ← Header.fromProto other.header
  match other.data with
  | none => .panic
  | some data =>
    let lastCommit ←
      match other.lastCommit with
      | none => .ok default
      | some commit => Commit.fromProto commit
    return {
      header := header
      data := ⟨data.txs, data.intermediateStateRoots, []⟩
      lastCommit := lastCommit }

def convertAll {α β : Type} (convert : α → Result Error β) : List α → Result Error (List β)
  | [] => .ok []
  | value :: values =>
    match convert value with
    | .ok converted => do
      let rest ← convertAll convert values
      return converted :: rest
    | _ => .panic

def protoToBlocks (blocks : List Pb.Block) : Result Error (List Block) :=
  convertAll Block.fromProto blocks

def protoToCommits (commits : List Pb.Commit) : Result Error (List Commit) :=
  convertAll Commit.fromProto commits

def Batch.fromProto (other : Pb.Batch) : Result Error Batch := do
  let blocks ← protoToBlocks other.blocks
  let commits ← protoToCommits other.commits
  return ⟨other.startHeight, other.endHeight, blocks, commits⟩

def Pb.State.storeHeight (other : Pb.State) : UInt64 :=
  if other.lastStoreHeight = 0 ∧ other.lastBlockHeight > 1 then
    other.lastBlockHeight.toUInt64
  else other.lastStoreHeight

def State.ofMessage (other : Pb.State) (version : StateVersion) (lastBlockID : BlockID)
    (nextValidators validators lastValidators : ValidatorSet) : State where
  version := version
  chainID := other.chainId
  initialHeight := other.initialHeight
  lastBlockHeight := other.lastBlockHeight
  lastStoreHeight := other.storeHeight
  baseHeight := other.baseHeight
  slStateIndex := other.slStateIndex
  lastBlockID := lastBlockID
  lastBlockTime := other.lastBlockTime
  nextValidators := nextValidators
  validators := validators
  lastValidators := lastValidators
  lastHeightValidatorsChanged := other.lastHeightValidatorsChanged
  consensusParams := other.consensusParams
  lastHeightConsensusParamsChanged := other.lastHeightConsensusParamsChanged
  lastResultsHash := (FixedBytes.zero 32).copy other.lastResultsHash
  appHash := (FixedBytes.zero 32).copy other.appHash

def State.fromProto (tm : Tendermint) (other : Pb.State) : Result Error State := do
  match other.version with
  | none => .panic
  | some version =>
    let lastBlockID ← .ofExcept (tm.blockIDFromProto other.lastBlockID)
    let nextValidators ← .ofExcept (tm.validatorSetFromProto other.nextValidators)
    let validators ← .ofExcept (tm.validatorSetFromProto other.validators)
    let lastValidators ← .ofExcept (tm.validatorSetFromProto other.lastValidators)
    return State.ofMessage other version lastBlockID nextValidators validators lastValidators

/-! ## Round trips -/

@[simp]
theorem safeCopy_bytes {n : ℕ} (value : FixedBytes n) (text : String) :
    safeCopy n value.bytes text = .ok value := by
  rw [safeCopy, dif_pos value.length_bytes]

@[simp]
theorem Header.fromProto_toProto (header : Header) :
    Header.fromProto (some header.toProto) = .ok header := by
  simp [Header.fromProto, Header.toProto]

@[simp]
theorem Commit.fromProto_toProto (commit : Commit) :
    Commit.fromProto commit.toProto = .ok commit := by
  simp [Commit.fromProto, Commit.toProto]

/-- What a block looks like after its encoding. -/
def Block.withoutEvidence (block : Block) : Block :=
  { block with data := { block.data with evidence := [] } }

@[simp]
theorem Block.fromProto_toProto (block : Block) :
    Block.fromProto block.toProto = .ok block.withoutEvidence := by
  simp [Block.fromProto, Block.toProto, Data.toProto, Block.withoutEvidence]

theorem convertAll_map {α β γ : Type} {convert : β → Result Error γ}
    {encode : α → β} {decode : α → γ}
    (hconvert : ∀ value, convert (encode value) = .ok (decode value))
    (values : List α) :
    convertAll convert (values.map encode) = .ok (values.map decode) := by
  induction values with
  | nil => rfl
  | cons value values ih => simp [convertAll, hconvert, ih]

theorem Batch.fromProto_toProto (batch : Batch) : Batch.fromProto batch.toProto =
      .ok { batch with blocks := batch.blocks.map Block.withoutEvidence } := by
  have hblocks : protoToBlocks (batch.blocks.map Block.toProto) =
      .ok (batch.blocks.map Block.withoutEvidence) :=
    convertAll_map Block.fromProto_toProto batch.blocks
  have hcommits : protoToCommits (batch.commits.map Commit.toProto) = .ok (batch.commits.map id) :=
    convertAll_map Commit.fromProto_toProto batch.commits
  simp [Batch.fromProto, Batch.toProto, hblocks, hcommits]

theorem State.toProto_eq_ok {tm : Tendermint} {state : State} {pb : Pb.State} :
    state.toProto tm = .ok pb ↔ ∃ next validators last,
        tm.validatorSetToProto state.nextValidators = .ok next ∧
        tm.validatorSetToProto state.validators = .ok validators ∧
        tm.validatorSetToProto state.lastValidators = .ok last ∧
        pb = state.message tm next validators last := by
  simp only [State.toProto, except_bind_eq_ok, pure, Except.pure, Except.ok.injEq]
  constructor
  · rintro ⟨next, hnext, validators, hvalidators, last, hlast, rfl⟩
    exact ⟨next, validators, last, hnext, hvalidators, hlast, rfl⟩
  · rintro ⟨next, validators, last, hnext, hvalidators, hlast, rfl⟩
    exact ⟨next, hnext, validators, hvalidators, last, hlast, rfl⟩

theorem State.fromProto_eq_ok {tm : Tendermint} {other : Pb.State} {state : State} :
    State.fromProto tm other = .ok state ↔
      ∃ version lastBlockID next validators last, other.version = some version ∧
        tm.blockIDFromProto other.lastBlockID = .ok lastBlockID ∧
        tm.validatorSetFromProto other.nextValidators = .ok next ∧
        tm.validatorSetFromProto other.validators = .ok validators ∧
        tm.validatorSetFromProto other.lastValidators = .ok last ∧
        state = State.ofMessage other version lastBlockID next validators last := by
  cases hversion : other.version with
  | none => simp [State.fromProto, hversion]
  | some version =>
    simp only [State.fromProto, hversion, Result.bind_eq_ok,
      Result.ofExcept_eq_ok, Result.pure_eq, Result.ok.injEq]
    constructor
    · rintro ⟨lastBlockID, hid, next, hnext, validators, hvalidators, last, hlast, rfl⟩
      exact ⟨version, lastBlockID, next, validators, last, rfl, hid, hnext, hvalidators, hlast, rfl⟩
    · rintro ⟨_, lastBlockID, next, validators, last, hsame, hid, hnext, hvalidators, hlast, rfl⟩
      cases hsame
      exact ⟨lastBlockID, hid, next, hnext, validators, hvalidators, last, hlast, rfl⟩

end Dymint.Types
