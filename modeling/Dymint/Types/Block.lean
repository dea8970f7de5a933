import Dymint.Core.Procedure
import Dymint.Types.Tendermint

/-!
# Blocks, commits and the chain state

The data types of the `types` package, the header conversions that the block
hash and the proposer's signature are taken over, and the stateless checks of
`types/validation.go`.
-/

namespace Dymint.Types

open Procedure

structure Version where
  block : UInt64
  app : UInt64
  deriving DecidableEq, Inhabited

structure Header where
  version : Version
  namespaceID : FixedBytes 8
  height : UInt64
  time : UInt64
  lastHeaderHash : Hash
  lastCommitHash : Hash
  dataHash : Hash
  consensusHash : Hash
  appHash : Hash
  lastResultsHash : Hash
  proposerAddress : Bytes
  aggregatorsHash : Hash
  chainID : String
  deriving DecidableEq, Inhabited

abbrev Tx := Bytes

abbrev Signature := Bytes

/-- `Evidence` is an interface without implementations; what is read of a value
is its ABCI form. -/
structure Evidence where
  abci : List Bytes
  deriving DecidableEq

structure Data where
  txs : List Tx
  intermediateStateRoots : List Bytes
  evidence : List Evidence
  deriving DecidableEq, Inhabited

structure Commit where
  height : UInt64
  headerHash : Hash
  signatures : List Signature
  tmSignature : CommitSig
  deriving DecidableEq, Inhabited

structure Block where
  header : Header
  data : Data
  lastCommit : Commit
  deriving DecidableEq, Inhabited

structure Batch where
  startHeight : UInt64
  endHeight : UInt64
  blocks : List Block
  commits : List Commit
  deriving DecidableEq

inductive SequencerStatus where
  | proposer
  | inactive
  deriving DecidableEq

structure Sequencer where
  publicKey : Bytes
  status : SequencerStatus
  deriving DecidableEq

structure State where
  version : StateVersion
  chainID : String
  initialHeight : Int64
  lastBlockHeight : Int64
  lastBlockID : BlockID
  lastBlockTime : Time
  slStateIndex : UInt64
  nextValidators : ValidatorSet
  validators : ValidatorSet
  lastValidators : ValidatorSet
  lastHeightValidatorsChanged : Int64
  consensusParams : ConsensusParams
  lastHeightConsensusParamsChanged : Int64
  lastResultsHash : Hash
  lastStoreHeight : UInt64
  baseHeight : UInt64
  appHash : Hash
  deriving DecidableEq, Inhabited

namespace State

/-! Assignments to single fields of the state. -/

def setAppHash (state : State) (appHash : Hash) : State :=
  { state with appHash := appHash }

def setLastResultsHash (state : State) (hash : Hash) : State :=
  { state with lastResultsHash := hash }

def setLastStoreHeight (state : State) (height : UInt64) : State :=
  { state with lastStoreHeight := height }

def setLastValidators (state : State) (validators : ValidatorSet) : State :=
  { state with lastValidators := validators }

def setSLStateIndex (state : State) (index : UInt64) : State :=
  { state with slStateIndex := index }

end State

/-- `NewFromGenesisDoc`. -/
def newFromGenesisDoc (tm : Tendermint) (genDoc : GenesisDoc) : State where
  version := ⟨⟨tm.blockProtocol, 0⟩, tm.coreSemVer⟩
  chainID := genDoc.chainID
  initialHeight := genDoc.initialHeight
  lastBlockHeight := 0
  lastBlockID := default
  lastBlockTime := genDoc.genesisTime
  slStateIndex := 0
  nextValidators := tm.newValidatorSet []
  validators := tm.newValidatorSet []
  lastValidators := tm.newValidatorSet []
  lastHeightValidatorsChanged := genDoc.initialHeight
  consensusParams := genDoc.consensusParams
  lastHeightConsensusParamsChanged := genDoc.initialHeight
  lastResultsHash := FixedBytes.zero 32
  lastStoreHeight := 0
  baseHeight := 0
  appHash := (FixedBytes.zero 32).copy genDoc.appHash

/-! ## Conversions to Tendermint's types -/

/-- Go's `time.Unix(0, int64(t))`. -/
def unixNano (time : UInt64) : Time := time.toInt64.toInt

def toABCIHeaderPB (tm : Tendermint) (header : Header) : TmHeader where
  version := ⟨header.version.block, header.version.app⟩
  chainID := header.chainID
  height := header.height.toInt64
  time := unixNano header.time
  lastBlockID := ⟨header.lastHeaderHash.bytes, 1, header.lastHeaderHash.bytes⟩
  lastCommitHash := header.lastCommitHash.bytes
  dataHash := header.dataHash.bytes
  validatorsHash := header.aggregatorsHash.bytes
  nextValidatorsHash := header.aggregatorsHash.bytes
  consensusHash := header.consensusHash.bytes
  appHash := header.appHash.bytes
  lastResultsHash := header.lastResultsHash.bytes
  evidenceHash := tm.noEvidenceHash
  proposerAddress := header.proposerAddress

def Header.hash (tm : Tendermint) (header : Header) : Hash := tm.headerHash
    { version := ⟨header.version.block, header.version.app⟩
      chainID := header.chainID
      height := header.height.toInt64
      time := unixNano header.time
      lastBlockID :=
        ⟨header.lastHeaderHash.bytes, 1, header.lastHeaderHash.bytes⟩
      lastCommitHash := header.lastCommitHash.bytes
      dataHash := header.dataHash.bytes
      validatorsHash := header.aggregatorsHash.bytes
      nextValidatorsHash := header.aggregatorsHash.bytes
      consensusHash := header.consensusHash.bytes
      appHash := header.appHash.bytes
      lastResultsHash := header.lastResultsHash.bytes
      evidenceHash := tm.noEvidenceHash
      proposerAddress := header.proposerAddress }

def Block.hash (tm : Tendermint) (block : Block) : Hash := block.header.hash tm

def toABCIBlockDataTxs (data : Data) : List Bytes := data.txs

def toABCICommit (tm : Tendermint) (commit : Commit) (header : Header) : TmCommit where
  height := commit.height.toInt64
  round := 0
  blockID := ⟨(header.hash tm).bytes, 1, (header.hash tm).bytes⟩
  signatures :=
    if commit.tmSignature.signature.length = 0 then
      match commit.signatures with
      -- the signer's address and time are only known for a single signature
      | [signature] =>
        [⟨2, header.proposerAddress, unixNano header.time, signature⟩]
      | signatures => signatures.map fun signature => ⟨2, [], 0, signature⟩
    else [commit.tmSignature]

/-! ## Stateless checks -/

def Header.validateBasic (header : Header) : Result Error Unit :=
  if header.proposerAddress.length = 0 then
    .err (.new "no proposer address")
  else .ok ()

/-- The source calls this check a placeholder: nothing is checked. -/
def Data.validateBasic (_ : Data) : Result Error Unit := .ok ()

def Commit.validateBasic (commit : Commit) : Result Error Unit :=
  if commit.height > 0 then
    match commit.signatures with
    | [signature] =>
      if signature.length > maxSignatureSize then
        .err (.new "signature is too big")
      else .ok ()
    | _ => .err (.new "there should be 1 signature")
  else .ok ()

def Block.validateBasic (block : Block) : Result Error Unit := do
  block.header.validateBasic
  block.data.validateBasic
  block.lastCommit.validateBasic

def Commit.validate (tm : Tendermint) (commit : Commit)
    (proposer : Option Sequencer) (msg : Bytes) : Result Error Unit := do
  commit.validateBasic
  match proposer, commit.signatures with
  | none, _ => .panic
  | some _, [] => .panic
  | some proposer, signature :: _ =>
    if tm.verifySignature proposer.publicKey msg signature then .ok ()
    else .err .errInvalidSignature

end Dymint.Types
