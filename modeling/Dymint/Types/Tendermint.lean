import Mathlib.Algebra.Order.Ring.Int

/-!
# Byte strings, errors and the Tendermint interface

The block manager rests on code outside the repository: Tendermint's data types,
its hashes and encodings, signature verification and the ABCI application.  The
data types are transcribed here with the fields that dymint reads or writes.
The functions are the fields of `Tendermint` and `Application`, so that every
result names what it needs of them.
-/

namespace Dymint.Types

abbrev Bytes := List UInt8

/-- Nanoseconds since the Unix epoch. -/
abbrev Time := ℤ

/-- Go's `[n]byte`: a byte string that carries its length. -/
structure FixedBytes (n : ℕ) where
  bytes : Bytes
  length_bytes : bytes.length = n
  deriving DecidableEq

abbrev Hash := FixedBytes 32

namespace FixedBytes

variable {n : ℕ}

@[ext]
theorem ext {left right : FixedBytes n} (h : left.bytes = right.bytes) : left = right := by
  cases left
  cases right
  simpa using h

def zero (n : ℕ) : FixedBytes n := ⟨List.replicate n 0, by simp⟩

instance : Inhabited (FixedBytes n) := ⟨zero n⟩

/-- Go's `copy(dst[:], src)`: a shorter source keeps the old tail and a longer
one is cut. -/
def copy (dst : FixedBytes n) (src : Bytes) : FixedBytes n where
  bytes := src.take n ++ dst.bytes.drop src.length
  length_bytes := by
    rw [List.length_append, List.length_take, List.length_drop, dst.length_bytes]
    omega

/-- Go's conversion `*(*[n]byte)(src)`, which panics on a shorter slice. -/
def ofSlice? (n : ℕ) (src : Bytes) : Option (FixedBytes n) :=
  if h : n ≤ src.length then
    some ⟨src.take n, by rw [List.length_take, Nat.min_eq_left h]⟩
  else none

theorem copy_of_length (dst : FixedBytes n) {src : Bytes} (hlength : src.length = n) :
    dst.copy src = ⟨src, hlength⟩ := by
  apply ext
  change src.take n ++ dst.bytes.drop src.length = src
  rw [List.take_of_length_le hlength.le,
    List.drop_eq_nil_of_le (by rw [dst.length_bytes, hlength]), List.append_nil]

theorem ofSlice?_of_length {src : Bytes} (hlength : src.length = n) :
    ofSlice? n src = some ⟨src, hlength⟩ := by
  rw [ofSlice?, dif_pos hlength.ge]
  congr 1
  apply ext
  exact List.take_of_length_le hlength.le

@[simp]
theorem copy_bytes (dst src : FixedBytes n) : dst.copy src.bytes = src :=
  copy_of_length dst src.length_bytes

/-- The same copy again changes nothing. -/
theorem copy_copy (dst : FixedBytes n) (src : Bytes) : (dst.copy src).copy src = dst.copy src := by
  apply ext
  change src.take n ++ (src.take n ++ dst.bytes.drop src.length).drop src.length =
    src.take n ++ dst.bytes.drop src.length
  rcases le_total src.length n with hle | hle
  · rw [List.take_of_length_le hle, List.drop_left]
  · have hdst : dst.bytes.drop src.length = [] :=
      List.drop_eq_nil_of_le (dst.length_bytes.le.trans hle)
    rw [hdst, List.append_nil, List.drop_eq_nil_of_le (List.length_take_le' _ _), List.append_nil]

end FixedBytes

/-- The errors that dymint returns.  `fault` stands for the error of a call
into the database, the application, the network or another outside component. -/
inductive Error where
  | new (text : String)
  | wrap (text : String) (cause : Error)
  | errInvalidSignature
  | errNoStateFound
  | errSkippedEmptyBlock
  | errKeyNotFound
  | fault
  deriving DecidableEq

/-! ## Tendermint's data types -/

structure PartSetHeader where
  total : UInt32
  hash : Bytes
  deriving DecidableEq, Inhabited

structure BlockID where
  hash : Bytes
  partSetHeader : PartSetHeader
  deriving DecidableEq, Inhabited

/-- `tmversion.Consensus`. -/
structure ConsensusVersion where
  block : UInt64
  app : UInt64
  deriving DecidableEq, Inhabited

/-- `tmstate.Version`. -/
structure StateVersion where
  consensus : ConsensusVersion
  software : String
  deriving DecidableEq, Inhabited

/-- The header type shared by `tmtypes.Header` and `tmproto.Header`. -/
structure TmHeader where
  version : ConsensusVersion
  chainID : String
  height : Int64
  time : Time
  lastBlockID : BlockID
  lastCommitHash : Bytes
  dataHash : Bytes
  validatorsHash : Bytes
  nextValidatorsHash : Bytes
  consensusHash : Bytes
  appHash : Bytes
  lastResultsHash : Bytes
  evidenceHash : Bytes
  proposerAddress : Bytes
  deriving DecidableEq

structure CommitSig where
  blockIDFlag : UInt8
  validatorAddress : Bytes
  timestamp : Time
  signature : Bytes
  deriving DecidableEq, Inhabited

structure TmCommit where
  height : Int64
  round : Int32
  blockID : BlockID
  signatures : List CommitSig
  deriving DecidableEq

/-- A precommit vote without its signature. -/
structure Vote where
  height : Int64
  round : Int32
  timestamp : Time
  blockID : BlockID
  validatorAddress : Bytes
  validatorIndex : Int32
  deriving DecidableEq

structure Validator where
  address : Bytes
  pubKey : Bytes
  votingPower : Int64
  proposerPriority : Int64
  deriving DecidableEq

structure ValidatorSet where
  validators : List Validator
  proposer : Option Validator
  deriving DecidableEq, Inhabited

structure BlockParams where
  maxBytes : Int64
  maxGas : Int64
  deriving DecidableEq, Inhabited

structure EvidenceParams where
  maxAgeNumBlocks : Int64
  maxAgeDuration : Int64
  maxBytes : Int64
  deriving DecidableEq, Inhabited

structure ValidatorParams where
  pubKeyTypes : List String
  deriving DecidableEq, Inhabited

structure VersionParams where
  appVersion : UInt64
  deriving DecidableEq, Inhabited

structure ConsensusParams where
  block : BlockParams
  evidence : EvidenceParams
  validator : ValidatorParams
  version : VersionParams
  deriving DecidableEq, Inhabited

/-- A genesis document that has passed `ValidateAndComplete`. -/
structure GenesisDoc where
  genesisTime : Time
  chainID : String
  initialHeight : Int64
  consensusParams : ConsensusParams
  appHash : Bytes
  appState : Bytes
  initialHeight_pos : 0 < initialHeight
  deriving DecidableEq

/-! ## ABCI messages -/

structure RequestInitChain where
  time : Time
  chainID : String
  consensusParams : ConsensusParams
  validators : List (Bytes × Int64)
  appStateBytes : Bytes
  initialHeight : Int64
  deriving DecidableEq

/-- The parameter groups of `abci.ConsensusParams` are optional one by one. -/
structure ConsensusParamUpdates where
  block : Option BlockParams
  evidence : Option EvidenceParams
  validator : Option ValidatorParams
  version : Option VersionParams
  deriving DecidableEq

structure ResponseInitChain where
  consensusParams : Option ConsensusParamUpdates
  appHash : Bytes
  deriving DecidableEq

structure RequestBeginBlock where
  hash : Bytes
  header : TmHeader
  deriving DecidableEq

structure ResponseBeginBlock where
  events : List Bytes
  deriving DecidableEq, Inhabited

structure ResponseDeliverTx where
  code : UInt32
  data : Bytes
  log : String
  gasWanted : Int64
  gasUsed : Int64
  deriving DecidableEq

structure ResponseEndBlock where
  events : List Bytes
  deriving DecidableEq, Inhabited

structure ResponseCommit where
  data : Bytes
  retainHeight : Int64
  deriving DecidableEq

structure ResponseInfo where
  lastBlockHeight : Int64
  lastBlockAppHash : Bytes
  deriving DecidableEq

structure ABCIResponses where
  beginBlock : ResponseBeginBlock
  deliverTxs : List ResponseDeliverTx
  endBlock : ResponseEndBlock
  deriving DecidableEq

/-- `tmtypes.MaxSignatureSize`. -/
def maxSignatureSize : ℕ := 64

/-- Tendermint's and the key libraries' functions. -/
structure Tendermint where
  headerHash : TmHeader → Hash
  marshalHeader : TmHeader → Except Error Bytes
  dataHash : List Bytes → Hash
  commitHash : TmCommit → Hash
  resultsHash : List ResponseDeliverTx → Hash
  /-- The hash of `new(EvidenceData)`. -/
  noEvidenceHash : Bytes
  validatorsHash : ValidatorSet → Hash
  newValidator : Bytes → Int64 → Validator
  newValidatorSet : List Validator → ValidatorSet
  incrementProposerPriority : ValidatorSet → ValidatorSet
  /-- Conversions to and from the protobuf messages, which have the fields of
  the Go types. -/
  validatorSetToProto : ValidatorSet → Except Error ValidatorSet
  validatorSetFromProto : ValidatorSet → Except Error ValidatorSet
  blockIDToProto : BlockID → BlockID
  blockIDFromProto : BlockID → Except Error BlockID
  addressHash : Bytes → Bytes
  /-- The bytes that a validator of the given chain signs for a precommit. -/
  voteSignBytes : String → Vote → Bytes
  verifySignature : Bytes → Bytes → Bytes → Bool
  /-- `version.BlockProtocol` and `version.TMCoreSemVer`. -/
  blockProtocol : UInt64
  coreSemVer : String

/-- A deterministic ABCI application over states of type `α`. -/
structure Application (α : Type) where
  initChain : α → RequestInitChain → α × ResponseInitChain
  beginBlock : α → RequestBeginBlock → α × ResponseBeginBlock
  deliverTx : α → Bytes → α × ResponseDeliverTx
  endBlock : α → Int64 → α × ResponseEndBlock
  commit : α → α × ResponseCommit

end Dymint.Types
