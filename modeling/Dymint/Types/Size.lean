import Dymint.Types.Serialization
import Mathlib.Data.Nat.Log

/-!
# Encoded sizes

The generated `Size` methods of the messages in `types/pb/dymint`: how many bytes
the encoding of a message takes.  The size of a Tendermint signature, whose
message lives in another package, is a parameter, and the entries of the
evidence are their own encodings.
-/

namespace Dymint.Types

/-- The length of a number as a base-128 varint. -/
def sovDymint (x : ℕ) : ℕ := (Nat.log2 (x ||| 1) + 7) / 7

namespace Pb

/-- A number that is left out if it is zero. -/
def uintSize (x : UInt64) : ℕ := if x ≠ 0 then 1 + sovDymint x.toNat else 0

def fieldSize (length : ℕ) : ℕ := 1 + length + sovDymint length

def bytesSize (length : ℕ) : ℕ := if length > 0 then fieldSize length else 0

def repeatedSize {μ : Type} (size : μ → ℕ) (messages : List μ) : ℕ :=
  (messages.map fun message => fieldSize (size message)).sum

/-- A message, left out if it is nil. -/
def messageSize {μ : Type} (size : μ → ℕ) (message : Option μ) : ℕ :=
  message.elim 0 fun message => fieldSize (size message)

def Version.size (version : Version) : ℕ := uintSize version.block + uintSize version.app

def Header.size (header : Header) : ℕ :=
  messageSize Version.size header.version + bytesSize header.namespaceId.length +
    uintSize header.height + uintSize header.time +
    bytesSize header.lastHeaderHash.length +
    bytesSize header.lastCommitHash.length + bytesSize header.dataHash.length +
    bytesSize header.consensusHash.length + bytesSize header.appHash.length +
    bytesSize header.lastResultsHash.length +
    bytesSize header.proposerAddress.length +
    bytesSize header.aggregatorsHash.length + bytesSize header.chainId.utf8ByteSize

def Data.size (data : Data) : ℕ := repeatedSize List.length data.txs +
    repeatedSize List.length data.intermediateStateRoots +
    repeatedSize List.length data.evidence

variable (commitSigSize : CommitSig → ℕ)

def Commit.size (commit : Commit) : ℕ :=
  uintSize commit.height + bytesSize commit.headerHash.length +
    repeatedSize List.length commit.signatures +
    messageSize commitSigSize commit.tmSignature

def Block.size (block : Block) : ℕ :=
  messageSize Header.size block.header + messageSize Data.size block.data +
    messageSize (Commit.size commitSigSize) block.lastCommit

def Batch.size (batch : Batch) : ℕ := uintSize batch.startHeight + uintSize batch.endHeight +
    repeatedSize (Block.size commitSigSize) batch.blocks +
    repeatedSize (Commit.size commitSigSize) batch.commits

end Pb

/-! ## How sizes grow -/

theorem or_one_eq (x : ℕ) : x ||| 1 = 2 * (x / 2) + 1 := by
  have hdiv : (x ||| 1) / 2 = x / 2 := by
    rw [Nat.or_div_two]
    simp
  have hmod : (x ||| 1) % 2 = 1 := by
    simp
  omega

theorem sovDymint_mono {x y : ℕ} (hle : x ≤ y) : sovDymint x ≤ sovDymint y := by
  have hor : x ||| 1 ≤ y ||| 1 := by
    rw [or_one_eq, or_one_eq]
    omega
  have hlog : Nat.log2 (x ||| 1) ≤ Nat.log2 (y ||| 1) := by
    rw [Nat.log2_eq_log_two, Nat.log2_eq_log_two]
    exact Nat.log_mono_right hor
  exact Nat.div_le_div_right (Nat.add_le_add_right hlog 7)

theorem sovDymint_pos (x : ℕ) : 0 < sovDymint x := by
  unfold sovDymint
  omega

namespace Pb

theorem uintSize_mono {x y : UInt64} (hle : x.toNat ≤ y.toNat) : uintSize x ≤ uintSize y := by
  unfold uintSize
  split
  case isTrue hx =>
    have hy : y ≠ 0 := by
      rintro rfl
      apply hx
      apply UInt64.toNat_inj.1
      exact Nat.le_zero.1 hle
    rw [if_pos hy]
    exact Nat.add_le_add_left (sovDymint_mono hle) 1
  case isFalse => exact Nat.zero_le _

theorem two_le_fieldSize (length : ℕ) : 2 ≤ fieldSize length := by
  have hpos := sovDymint_pos length
  unfold fieldSize
  omega

theorem length_le_repeatedSize {μ : Type} (size : μ → ℕ) (messages : List μ) :
    messages.length ≤ repeatedSize size messages := by
  induction messages with
  | nil => exact Nat.zero_le _
  | cons message messages ih =>
    have htwo := two_le_fieldSize (size message)
    simp only [repeatedSize, List.map_cons, List.sum_cons, List.length_cons] at ih ⊢
    omega

theorem repeatedSize_take_le {μ : Type} (size : μ → ℕ) (messages : List μ) (count : ℕ) :
    repeatedSize size (messages.take count) ≤ repeatedSize size messages := by
  nth_rewrite 2 [← List.take_append_drop count messages]
  simp only [repeatedSize, List.map_append, List.sum_append]
  exact Nat.le_add_right _ _

variable (commitSigSize : CommitSig → ℕ)

theorem Batch.size_take_le (batch : Batch) (count : ℕ) : Batch.size commitSigSize { batch with
          blocks := batch.blocks.take count
          commits := batch.commits.take count } ≤
      batch.size commitSigSize := by
  have hblocks := repeatedSize_take_le (Block.size commitSigSize) batch.blocks count
  have hcommits := repeatedSize_take_le (Commit.size commitSigSize) batch.commits count
  unfold Batch.size
  dsimp only
  omega

theorem Batch.size_le_of_endHeight_le (batch : Batch) {endHeight : UInt64}
    (hle : batch.endHeight.toNat ≤ endHeight.toNat) :
    batch.size commitSigSize ≤ Batch.size commitSigSize { batch with endHeight := endHeight } := by
  have hend := uintSize_mono hle
  unfold Batch.size
  dsimp only
  omega

/-- Every block takes at least one byte. -/
theorem Batch.length_le_size (batch : Batch) : batch.blocks.length ≤ batch.size commitSigSize := by
  have hblocks := length_le_repeatedSize (Block.size commitSigSize) batch.blocks
  unfold Batch.size
  omega

end Pb

end Dymint.Types
