import Dymint.State.DataHash

/-!
# Headers and blocks in Tendermint's form

Three hand-written conversions take a header to Tendermint's: one for the block hash,
one for the bytes that the proposer signs, and one for the blocks that are served.  They
agree, and all of them leave out the namespace.

The last commit of a block is converted twice.  `CreateBlock` hashes it as it was signed;
`ToABCIBlock` puts the proposer of the block in the place of the signer.
-/

namespace Dymint.Abci

open Dymint.Types Executor

/-- `tmtypes.Block`, as far as it is filled in. -/
structure TmBlock where
  header : TmHeader
  txs : List Bytes
  lastCommit : TmCommit
  deriving DecidableEq

def toABCIHeader (tm : Tendermint) (header : Header) : TmHeader where
  version := ⟨header.version.block, header.version.app⟩
  chainID := header.chainID
  height := header.height.toInt64
  time := unixNano header.time
  lastBlockID := ⟨header.lastHeaderHash.bytes, 1, header.lastHeaderHash.bytes⟩
  lastCommitHash := header.lastCommitHash.bytes
  dataHash := header.dataHash.bytes
  validatorsHash := header.aggregatorsHash.bytes
  nextValidatorsHash := header.aggregatorsHash.bytes
  consensusHash := header.consensusHash.bytes
  appHash := header.appHash.bytes
  lastResultsHash := header.lastResultsHash.bytes
  evidenceHash := tm.noEvidenceHash
  proposerAddress := header.proposerAddress

def withAddress (address : Bytes) (signature : CommitSig) : CommitSig :=
  { signature with validatorAddress := address }

/-- `ToABCIBlock` writes an address into a commit that has a single signature. -/
def signedBy (address : Bytes) (commit : TmCommit) : TmCommit :=
  match commit.signatures with
  | [signature] => { commit with signatures := [withAddress address signature] }
  | _ => commit

/-- The source also returns an error, which is always nil. -/
def toABCIBlock (tm : Tendermint) (block : Block) : TmBlock where
  header :=
    { toABCIHeader tm block.header with dataHash := block.header.dataHash.bytes }
  txs := toABCIBlockDataTxs block.data
  lastCommit := signedBy block.header.proposerAddress
    (toABCICommit tm block.lastCommit block.header)

/-! ## What a header commits to -/

section

variable (tm : Tendermint)

theorem unixNano_injective : Function.Injective unixNano := by
  intro left right htime
  have hint : left.toInt64 = right.toInt64 := Int64.toInt.inj htime
  rw [← UInt64.toUInt64_toInt64 left, hint, UInt64.toUInt64_toInt64]

def SameButNamespace (left right : Header) : Prop :=
  { left with namespaceID := right.namespaceID } = right

theorem toABCIHeaderPB_eq_iff {left right : Header} :
    toABCIHeaderPB tm left = toABCIHeaderPB tm right ↔ SameButNamespace left right := by
  constructor
  · intro heq
    have hheight : left.height = right.height := by
      have hint : left.height.toInt64 = right.height.toInt64 := congrArg TmHeader.height heq
      rw [← UInt64.toUInt64_toInt64 left.height, hint, UInt64.toUInt64_toInt64]
    have htime : left.time = right.time := unixNano_injective (congrArg TmHeader.time heq)
    have hversion : left.version = right.version := by
      have hconsensus := congrArg TmHeader.version heq
      cases hleft : left.version
      cases hright : right.version
      simpa [toABCIHeaderPB, hleft, hright] using hconsensus
    have hlast : left.lastHeaderHash = right.lastHeaderHash :=
      FixedBytes.ext (congrArg (fun header => header.lastBlockID.hash) heq)
    have hcommit : left.lastCommitHash = right.lastCommitHash :=
      FixedBytes.ext (congrArg TmHeader.lastCommitHash heq)
    have hdata : left.dataHash = right.dataHash := FixedBytes.ext (congrArg TmHeader.dataHash heq)
    have hconsensus : left.consensusHash = right.consensusHash :=
      FixedBytes.ext (congrArg TmHeader.consensusHash heq)
    have happ : left.appHash = right.appHash := FixedBytes.ext (congrArg TmHeader.appHash heq)
    have hresults : left.lastResultsHash = right.lastResultsHash :=
      FixedBytes.ext (congrArg TmHeader.lastResultsHash heq)
    have hproposer : left.proposerAddress = right.proposerAddress :=
      congrArg TmHeader.proposerAddress heq
    have haggregators : left.aggregatorsHash = right.aggregatorsHash :=
      FixedBytes.ext (congrArg TmHeader.validatorsHash heq)
    have hchain : left.chainID = right.chainID := congrArg TmHeader.chainID heq
    rw [SameButNamespace, hheight, htime, hversion, hlast, hcommit, hdata, hconsensus,
      happ, hresults, hproposer, haggregators, hchain]
  · intro hsame
    rw [← show _ = right from hsame]
    rfl

/-- The hash of a header, and the bytes that its proposer signs, tell it from another one
unless the two differ in the namespace alone. -/
theorem header_committed_iff (left right : Header)
    (hhash : tm.headerHash (toABCIHeader tm left) = tm.headerHash (toABCIHeader tm right) →
      toABCIHeader tm left = toABCIHeader tm right)
    (hmarshal : ∀ bytes, tm.marshalHeader (toABCIHeaderPB tm left) = .ok bytes → tm.marshalHeader
      (toABCIHeaderPB tm right) = .ok bytes → toABCIHeaderPB tm left = toABCIHeaderPB tm right)
    (hencodes : ∃ bytes, tm.marshalHeader (toABCIHeaderPB tm left) = .ok bytes) :
    ((left.hash tm = right.hash tm → left = right) ↔
      (SameButNamespace left right → left.namespaceID = right.namespaceID)) ∧
    ((∀ bytes, tm.marshalHeader (toABCIHeaderPB tm left) = .ok bytes →
        tm.marshalHeader (toABCIHeaderPB tm right) = .ok bytes → left = right) ↔
      (SameButNamespace left right → left.namespaceID = right.namespaceID)) := by
  have hequal (hsame : SameButNamespace left right)
      (hnamespace : left.namespaceID = right.namespaceID) : left = right := by
    rw [SameButNamespace, ← hnamespace] at hsame
    exact hsame
  constructor
  · constructor
    · intro hpinned hsame
      have hconverted := (toABCIHeaderPB_eq_iff tm).2 hsame
      rw [hpinned (congrArg tm.headerHash hconverted)]
    · intro hnamespace hequalHash
      have hsame := (toABCIHeaderPB_eq_iff tm).1 (hhash hequalHash)
      exact hequal hsame (hnamespace hsame)
  · constructor
    · intro hpinned hsame
      obtain ⟨bytes, hbytes⟩ := hencodes
      have hconverted := (toABCIHeaderPB_eq_iff tm).2 hsame
      rw [hpinned bytes hbytes (hconverted ▸ hbytes)]
    · intro hnamespace bytes hleft hright
      have hsame := (toABCIHeaderPB_eq_iff tm).1 (hmarshal bytes hleft hright)
      exact hequal hsame (hnamespace hsame)

end

namespace Reference

open Types.Reference

/-- The header of a first block, and the same for another namespace. -/
def served : Header := SwappedTxs.honest.header

def renamed : Header :=
  { served with namespaceID := (FixedBytes.zero 8).copy [1] }

end Reference

/-- The namespace of a signed header can be exchanged: hash and signed bytes stay. -/
theorem namespace_not_committed : Reference.renamed ≠ Reference.served ∧
      Reference.renamed.hash Types.Reference.tendermint =
        Reference.served.hash Types.Reference.tendermint ∧
      Types.Reference.tendermint.marshalHeader
          (toABCIHeaderPB Types.Reference.tendermint Reference.renamed) =
        Types.Reference.tendermint.marshalHeader
          (toABCIHeaderPB Types.Reference.tendermint Reference.served) := by
  decide

/-- A header and its successor. -/
theorem header_committed_iff_reference :
    let next : Header := { Reference.served with height := 2 }
    ((Reference.served.hash Types.Reference.tendermint =
        next.hash Types.Reference.tendermint → Reference.served = next) ↔
      (SameButNamespace Reference.served next →
        Reference.served.namespaceID = next.namespaceID)) := by
  refine (header_committed_iff Types.Reference.tendermint Reference.served
    { Reference.served with height := 2 } ?_ ?_ ⟨_, rfl⟩).1
  · decide
  · intro bytes hleft hright
    have hbytes := Except.ok.inj (hleft.trans hright.symm)
    exact absurd hbytes (by decide)

/-! ## What a served block says of itself -/

/-- The checks of `ValidateBasic` that relate the parts of a block, and that its header
has the hash under which dymint knows it. -/
structure SelfConsistent (tm : Tendermint) (header : Header) (block : TmBlock) :
    Prop where
  lastCommit : (tm.commitHash block.lastCommit).bytes = block.header.lastCommitHash
  data : (tm.dataHash block.txs).bytes = block.header.dataHash
  hash : tm.headerHash block.header = header.hash tm

section

variable (tm : Tendermint)

theorem signatures_toABCICommit_congr (commit : Commit) {left right : Header}
    (hproposer : left.proposerAddress = right.proposerAddress) (htime : left.time = right.time) :
    (toABCICommit tm commit left).signatures = (toABCICommit tm commit right).signatures := by
  simp only [toABCICommit, hproposer, htime]

/-- `CreateBlock` hashes the commit under a header that still lacks its own hashes. -/
theorem lastCommitHash_createBlock (exec : BlockExecutor) (height : UInt64) (lastCommit : Commit)
    (lastHeaderHash : Hash) (state : State) (mempoolTxs : List Tx) (now : UInt64) :
    let header := (createBlock tm exec height lastCommit lastHeaderHash state mempoolTxs now).header
    ∃ draft : Header, header.lastCommitHash = tm.commitHash (toABCICommit tm lastCommit draft) ∧
      draft.proposerAddress = header.proposerAddress ∧ draft.time = header.time :=
  ⟨_, FixedBytes.copy_bytes _ _, rfl, rfl⟩

theorem signedBy_toABCICommit {commit : Commit} (header : Header)
    (hsingle : commit.signatures.length ≤ 1) (hnone : commit.tmSignature.signature = []) :
    signedBy header.proposerAddress (toABCICommit tm commit header) =
      toABCICommit tm commit header := by
  match hsignatures : commit.signatures with
  | [] => simp [signedBy, toABCICommit, hnone, hsignatures]
  | [signature] => simp [signedBy, withAddress, toABCICommit, hnone, hsignatures]
  | _ :: _ :: _ => simp [hsignatures] at hsingle

/-- A block is served as it was created exactly if the signer of the last commit is the
proposer of the block, or the commit has no Tendermint signature.  The hash of a commit
is a hash of its signatures, and `merkle` does not take the signature for another one. -/
theorem served_self_consistent_iff (merkle : List CommitSig → Hash)
    (hmerkle : ∀ commit, tm.commitHash commit = merkle commit.signatures) (exec : BlockExecutor)
    (height : UInt64) (lastCommit : Commit) (hsingle : lastCommit.signatures.length ≤ 1)
    (lastHeaderHash : Hash) (state : State) (mempoolTxs : List Tx) (now : UInt64)
    (hcollision : merkle [withAddress exec.proposerAddress lastCommit.tmSignature] = merkle
      [lastCommit.tmSignature] → withAddress exec.proposerAddress lastCommit.tmSignature =
      lastCommit.tmSignature) :
    let block := createBlock tm exec height lastCommit lastHeaderHash state mempoolTxs now
    SelfConsistent tm block.header (toABCIBlock tm block) ↔ lastCommit.tmSignature.signature = [] ∨
        lastCommit.tmSignature.validatorAddress = exec.proposerAddress := by
  intro block
  obtain ⟨draft, hhash, hproposer, htime⟩ := lastCommitHash_createBlock tm exec height
    lastCommit lastHeaderHash state mempoolTxs now
  have hcommit : block.header.lastCommitHash =
      merkle (toABCICommit tm lastCommit block.header).signatures := by
    rw [hhash, hmerkle, signatures_toABCICommit_congr tm lastCommit hproposer htime]
  have hdata : (tm.dataHash (toABCIBlock tm block).txs).bytes =
      (toABCIBlock tm block).header.dataHash :=
    (createBlock_dataHash tm exec height lastCommit lastHeaderHash state mempoolTxs now).symm
  have hserved : (tm.commitHash (toABCIBlock tm block).lastCommit).bytes =
        (toABCIBlock tm block).header.lastCommitHash ↔
      merkle (signedBy exec.proposerAddress (toABCICommit tm lastCommit block.header)).signatures =
        merkle (toABCICommit tm lastCommit block.header).signatures := by
    rw [hmerkle]
    change (merkle _).bytes = block.header.lastCommitHash.bytes ↔ _
    rw [hcommit]
    exact ⟨FixedBytes.ext, congrArg FixedBytes.bytes⟩
  constructor
  · intro hconsistent
    by_cases hnone : lastCommit.tmSignature.signature = []
    · exact .inl hnone
    · have hequal := hserved.1 hconsistent.lastCommit
      simp only [toABCICommit, signedBy, List.length_eq_zero_iff, hnone, if_false] at hequal
      have haddress := congrArg CommitSig.validatorAddress (hcollision hequal)
      exact .inr haddress.symm
  · intro hsigner
    refine ⟨hserved.2 ?_, hdata, rfl⟩
    by_cases hnone : lastCommit.tmSignature.signature = []
    · have hsame := signedBy_toABCICommit tm block.header hsingle hnone
      exact congrArg (fun commit => merkle commit.signatures) hsame
    · have haddress := hsigner.resolve_left hnone
      simp [toABCICommit, signedBy, withAddress, hnone, ← haddress]

end

namespace Reference

open Types.Reference

def signerMerkle (signatures : List CommitSig) : Hash := digest (signatures.flatMap fun signature =>
    signature.validatorAddress ++ signature.signature)

def signerTendermint : Tendermint :=
  { tendermint with commitHash := fun commit => signerMerkle commit.signatures }

def formerCommit : Commit := ⟨1, default, [[3]], ⟨2, [5], 1000, [4]⟩⟩

def secondBlock (proposerAddress : Bytes) : Block :=
  createBlock signerTendermint ⟨proposerAddress, default, "rollapp"⟩ 2 formerCommit
    default SwappedTxs.state [[1, 2, 3]] 2000

end Reference

open Reference

/-- After a change of the proposer the served commit does not have the hash that the
header gives. -/
theorem served_block_inconsistent : ¬ SelfConsistent signerTendermint (secondBlock [7]).header
      (toABCIBlock signerTendermint (secondBlock [7])) := by
  intro hconsistent
  have hcommit := hconsistent.lastCommit
  revert hcommit
  decide

theorem served_self_consistent_iff_reference :
    SelfConsistent signerTendermint (secondBlock [5]).header
        (toABCIBlock signerTendermint (secondBlock [5])) ↔
      formerCommit.tmSignature.signature = [] ∨ formerCommit.tmSignature.validatorAddress = [5] :=
  served_self_consistent_iff signerTendermint signerMerkle
    (fun _ => rfl) ⟨[5], default, "rollapp"⟩ 2 formerCommit (by decide)
    default SwappedTxs.state [[1, 2, 3]] 2000 (by decide)

end Dymint.Abci
