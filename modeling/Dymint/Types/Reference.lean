import Dymint.Types.Block
import Mathlib.Algebra.Order.Ring.Nat
import Mathlib.Data.UInt

/-!
# A reference instance of the Tendermint interface

An executable instance on which the model can be run.  Its hashes and encodings
are short prefixes of their inputs instead of digests: they separate the blocks
of the runs that use them.  The signature of a message is the key followed by
the message, cut to the size of a signature.  Rotating the proposer of a set
with a single validator leaves the set as it is.
-/

namespace Dymint.Types.Reference

def wordBytes (word : UInt64) : Bytes :=
  (List.range 8).map fun index => (word >>> (8 * UInt64.ofNat index)).toUInt8

def digest (bytes : Bytes) : Hash := (FixedBytes.zero 32).copy bytes

def txsBytes (txs : List Bytes) : Bytes := txs.flatMap fun tx => UInt8.ofNat tx.length :: tx

def headerBytes (header : TmHeader) : Bytes := wordBytes header.height.toUInt64 ++
    wordBytes header.time.toInt64.toUInt64 ++ header.dataHash.take 16

def sign (key msg : Bytes) : Signature := (key ++ msg).take maxSignatureSize

/-- The reference instance. -/
def tendermint : Tendermint where
  headerHash header := digest (headerBytes header)
  marshalHeader header := .ok (headerBytes header)
  dataHash txs := digest (txsBytes txs)
  commitHash commit := digest (commit.signatures.flatMap CommitSig.signature)
  resultsHash results := digest (results.map fun result => result.code.toUInt8)
  noEvidenceHash := []
  validatorsHash set := digest (set.validators.flatMap Validator.pubKey)
  newValidator pubKey power := ⟨pubKey, pubKey, power, 0⟩
  newValidatorSet validators := ⟨validators, validators.head?⟩
  incrementProposerPriority set := set
  validatorSetToProto := .ok
  validatorSetFromProto set :=
    if set.validators = [] then .error (.new "validator set is nil or empty")
    else .ok set
  blockIDToProto := id
  blockIDFromProto := .ok
  addressHash := id
  voteSignBytes _ vote := wordBytes vote.height.toUInt64 ++ vote.blockID.hash.take 16
  verifySignature key msg signature := signature = sign key msg
  blockProtocol := 11
  coreSemVer := "0.34.28"

def proposerKey : Bytes := [7]

def proposer : Sequencer := ⟨proposerKey, .proposer⟩

def signHeader (header : Header) : Signature :=
  sign proposerKey (headerBytes (toABCIHeaderPB tendermint header))

def commitFor (header : Header) : Commit where
  height := header.height
  headerHash := header.hash tendermint
  signatures := [signHeader header]
  tmSignature := default

def validatorSet : ValidatorSet :=
  tendermint.newValidatorSet [tendermint.newValidator proposerKey 1]

/-! ## The header hash separates heights -/

theorem wordBytes_injective {left right : UInt64} (hbytes : wordBytes left = wordBytes right) :
    left = right := by
  simp only [wordBytes, List.range_succ, List.range_zero, List.map_cons,
    List.map_nil, List.nil_append, List.cons_append, List.cons.injEq, and_true,
    ← UInt8.toNat_inj, UInt64.toNat_toUInt8, UInt64.toNat_shiftRight,
    Nat.shiftRight_eq_div_pow] at hbytes
  simp [UInt64.toNat_ofNat] at hbytes
  have hleft := left.toNat_lt
  have hright := right.toNat_lt
  apply UInt64.toNat_inj.1
  omega

theorem digest_take {bytes : Bytes} {n : ℕ} (hn : n ≤ 32) (hlength : n ≤ bytes.length) :
    (digest bytes).bytes.take n = bytes.take n := by
  simp only [digest, FixedBytes.copy]
  rw [List.take_append_of_le_length (by rw [List.length_take]; omega),
    List.take_take, min_eq_left hn]

theorem headerBytes_take (header : TmHeader) :
    (headerBytes header).take 8 = wordBytes header.height.toUInt64 := by
  rw [headerBytes, List.append_assoc]
  exact List.take_left' (by simp [wordBytes])

theorem height_eq_of_headerHash_eq {left right : TmHeader}
    (hhash : tendermint.headerHash left = tendermint.headerHash right) :
    left.height = right.height := by
  have hlength (header : TmHeader) : 8 ≤ (headerBytes header).length := by
    rw [headerBytes, List.append_assoc, List.length_append]
    simp [wordBytes]
  have hbytes : (digest (headerBytes left)).bytes =
      (digest (headerBytes right)).bytes := congrArg FixedBytes.bytes hhash
  have htake := congrArg (List.take 8) hbytes
  rw [digest_take (by omega) (hlength left), digest_take (by omega) (hlength right),
    headerBytes_take, headerBytes_take] at htake
  have hheight := congrArg UInt64.toInt64 (wordBytes_injective htake)
  rwa [Int64.toInt64_toUInt64, Int64.toInt64_toUInt64] at hheight

end Dymint.Types.Reference
