import Dymint.State.Executor
import Dymint.Store.Blocks
import Dymint.Types.Reference
import Dymint.Types.Size

/-!
# Batches for the data availability layer

`createNextDABatch` collects the stored blocks of a range of heights as far as
the byte limit allows, and `submitNextBatch` hands the batch to the data
availability layer and then to the settlement layer.  Before that it looks
whether the last block of the range has transactions, and if so requests an empty
block.
-/

namespace Dymint.Submit

open Procedure Dymint.Types Store

/-- What `LoadBlock` and `LoadCommit` return during a call. -/
structure Reader where
  block : UInt64 → Result Error Block
  commit : UInt64 → Result Error Commit

/-- The reads of a store in which no read fails for other reasons. -/
def Reader.ofDb (db : Db) : Reader := ⟨loadBlock db, loadCommit db⟩

/-- Every read fails or returns what the store holds. -/
structure Reader.Reads (reader : Reader) (db : Db) : Prop where
  block : ∀ height block, reader.block height = .ok block → loadBlock db height = .ok block
  commit : ∀ height commit, reader.commit height = .ok commit → loadCommit db height = .ok commit

theorem Reader.ofDb_reads (db : Db) : (Reader.ofDb db).Reads db :=
  ⟨fun _ _ hblock => hblock, fun _ _ hcommit => hcommit⟩

/-- Go's conversion from `uint64` to `int`. -/
theorem toInt_toInt64 (x : UInt64) :
    x.toInt64.toInt = if x.toNat < 2 ^ 63 then (x.toNat : ℤ)
      else (x.toNat : ℤ) - 2 ^ 64 := by
  have hcond := BitVec.toInt_eq_toNat_cond x.toBitVec
  change x.toBitVec.toInt = _
  rw [hcond]
  change (if 2 * x.toNat < 2 ^ 64 then (x.toNat : ℤ)
    else (x.toNat : ℤ) - (2 ^ 64 : ℕ)) = _
  split <;> split <;> omega

/-- The size of a Tendermint signature, and `BlockBatchMaxSizeBytes`. -/
structure Limits where
  commitSigSize : Pb.CommitSig → ℕ
  blockBatchMaxSizeBytes : UInt64

namespace Limits

variable (limits : Limits)

def size (batch : Batch) : ℕ := batch.toProto.size limits.commitSigSize

/-- The limit as the source compares it, an `int`. -/
def maxSize : ℤ := limits.blockBatchMaxSizeBytes.toInt64.toInt

theorem maxSize_le : limits.maxSize ≤ limits.blockBatchMaxSizeBytes.toNat := by
  rw [maxSize, toInt_toInt64]
  split <;> omega

theorem maxSize_eq (hlimit : limits.blockBatchMaxSizeBytes.toNat < 2 ^ 63) :
    limits.maxSize = limits.blockBatchMaxSizeBytes.toNat := by
  rw [maxSize, toInt_toInt64, if_pos hlimit]

end Limits

def Batch.add (batch : Batch) (block : Block) (commit : Commit) : Batch :=
  { batch with
    blocks := batch.blocks ++ [block]
    commits := batch.commits ++ [commit] }

variable (limits : Limits)

/-- The loop of `createNextDABatch`.  The height at which it stops is one of its
results.  Every block takes a byte, so it makes at most one more iteration than
the limit has bytes. -/
def populate (reader : Reader) : ℕ → UInt64 → Batch →
    Result Error (UInt64 × Batch)
  | 0, _, _ => .panic
  | fuel + 1, height, batch =>
    if height ≤ batch.endHeight then do
      let block ← reader.block height
      let commit ← reader.commit height
      let longer := Batch.add batch block commit
      -- the last block and commit are removed again
      if limits.size longer > limits.maxSize then return (height, batch)
      else populate reader fuel (height + 1) longer
    else return (height, batch)

/-- `make` panics if the capacity is not an `int`.  It also panics if the slices would not
fit into the address space; ranges are taken to be shorter than that. -/
def createNextDABatch (reader : Reader) (startHeight endHeight : UInt64) :
    Result Error Batch := do
  let batchSize := endHeight - startHeight + 1
  if batchSize.toInt64 < 0 then .panic
  else
    let (height, batch) ← populate limits reader
      (limits.blockBatchMaxSizeBytes.toNat + 1) startHeight
      ⟨startHeight, endHeight, [], []⟩
    return { batch with endHeight := height - 1 }

/-! ## What the loop collects -/

/-- `count` heights from `start` on. -/
def heights (start : UInt64) (count : ℕ) : List UInt64 :=
  (List.range count).map fun offset => start + UInt64.ofNat offset

theorem heights_succ (start : UInt64) (count : ℕ) :
    heights start (count + 1) = heights start count ++ [start + UInt64.ofNat count] := by
  simp [heights, List.range_succ]

/-- The batch holds the first `count` stored blocks and commits of the range, and
they fit into the limit. -/
structure Filled (db : Db) (start last : UInt64) (count : ℕ) (batch : Batch) :
    Prop where
  startHeight : batch.startHeight = start
  endHeight : batch.endHeight = last
  blocks : (heights start count).map (loadBlock db) = batch.blocks.map .ok
  commits : (heights start count).map (loadCommit db) = batch.commits.map .ok
  fits : count ≠ 0 → limits.size batch ≤ limits.maxSize
  within : ∀ offset < count, start + UInt64.ofNat offset ≤ last

/-- The loop stops here: the range is exhausted, or one more block does not fit. -/
structure Cut (db : Db) (start last : UInt64) (count : ℕ) (batch : Batch) : Prop
    extends Filled limits db start last count batch where
  stop : last < start + UInt64.ofNat count ∨
    ∃ block commit, loadBlock db (start + UInt64.ofNat count) = .ok block ∧
      loadCommit db (start + UInt64.ofNat count) = .ok commit ∧
      start + UInt64.ofNat count ≤ last ∧
      limits.maxSize < limits.size (Batch.add batch block commit)

variable {limits} {db : Db} {start last : UInt64} {count : ℕ} {batch : Batch}

theorem filled_zero (start last : UInt64) :
    Filled limits db start last 0 ⟨start, last, [], []⟩ where
  startHeight := rfl
  endHeight := rfl
  blocks := rfl
  commits := rfl
  fits hne := absurd rfl hne
  within _ hoffset := absurd hoffset (Nat.not_lt_zero _)

namespace Filled

section

variable (hfilled : Filled limits db start last count batch)

include hfilled

theorem length : batch.blocks.length = count ∧ batch.commits.length = count := by
  have hblocks := congrArg List.length hfilled.blocks
  have hcommits := congrArg List.length hfilled.commits
  simp only [heights, List.length_map, List.length_range] at hblocks hcommits
  exact ⟨hblocks.symm, hcommits.symm⟩

theorem add {block : Block} {commit : Commit}
    (hblock : loadBlock db (start + UInt64.ofNat count) = .ok block)
    (hcommit : loadCommit db (start + UInt64.ofNat count) = .ok commit)
    (hwithin : start + UInt64.ofNat count ≤ last)
    (hfits : limits.size (Batch.add batch block commit) ≤ limits.maxSize) :
    Filled limits db start last (count + 1) (Batch.add batch block commit) where
  startHeight := hfilled.startHeight
  endHeight := hfilled.endHeight
  blocks := by
    rw [heights_succ, List.map_append, hfilled.blocks]
    simp [Batch.add, hblock]
  commits := by
    rw [heights_succ, List.map_append, hfilled.commits]
    simp [Batch.add, hcommit]
  fits _ := hfits
  within offset hoffset := by
    rcases Nat.lt_succ_iff_lt_or_eq.1 hoffset with hlt | rfl
    · exact hfilled.within offset hlt
    · exact hwithin

/-- The heights of the collected blocks do not wrap around. -/
theorem toNat_add (hlast : last.toNat + 1 < 2 ^ 64) {offset : ℕ} (hle : offset ≤ count) :
    (start + UInt64.ofNat offset).toNat = start.toNat + offset := by
  induction offset with
  | zero => simp
  | succ offset ih =>
    have hwithin := UInt64.le_iff_toNat_le.1 (hfilled.within offset hle)
    rw [ih (Nat.le_of_succ_le hle)] at hwithin
    rw [UInt64.toNat_add, UInt64.toNat_ofNat', Nat.add_mod_mod, Nat.mod_eq_of_lt (by omega)]

theorem add_count_le (hlast : last.toNat + 1 < 2 ^ 64) (hle : start ≤ last) :
    start.toNat + count ≤ last.toNat + 1 := by
  cases count with
  | zero => exact Nat.le_succ_of_le (UInt64.le_iff_toNat_le.1 hle)
  | succ count =>
    have hwithin := UInt64.le_iff_toNat_le.1 (hfilled.within count (Nat.lt_succ_self count))
    rw [hfilled.toNat_add hlast (Nat.le_succ count)] at hwithin
    omega

/-- The height before the one at which the loop stands. -/
theorem toNat_pred (hlast : last.toNat + 1 < 2 ^ 64) (hstart : 1 ≤ start) :
    (start + UInt64.ofNat count - 1).toNat = start.toNat + count - 1 := by
  have hpos := UInt64.le_iff_toNat_le.1 hstart
  rw [UInt64.toNat_one] at hpos
  have hone : (1 : UInt64) ≤ start + UInt64.ofNat count := by
    rw [UInt64.le_iff_toNat_le, hfilled.toNat_add hlast le_rfl, UInt64.toNat_one]
    omega
  rw [UInt64.toNat_sub_of_le _ _ hone, hfilled.toNat_add hlast le_rfl, UInt64.toNat_one]

theorem count_le : count ≤ limits.blockBatchMaxSizeBytes.toNat := by
  by_cases hzero : count = 0
  · omega
  · have hfits := (hfilled.fits hzero).trans limits.maxSize_le
    have hlength : batch.blocks.length ≤ limits.size batch := by
      have hle := batch.toProto.length_le_size limits.commitSigSize
      rw [Types.Batch.toProto, List.length_map] at hle
      exact hle
    rw [hfilled.length.1] at hlength
    omega

end

end Filled

variable {reader : Reader} {fuel : ℕ} {height : UInt64} {final : Batch}

theorem cut_of_populate (hreads : reader.Reads db) {stop : UInt64}
    (hfilled : Filled limits db start last count batch)
    (hheight : height = start + UInt64.ofNat count)
    (hpopulate : populate limits reader fuel height batch = .ok (stop, final)) :
    ∃ total, Cut limits db start last total final ∧ stop = start + UInt64.ofNat total := by
  induction fuel generalizing height batch count with
  | zero => cases hpopulate
  | succ fuel ih =>
    rw [populate, hfilled.endHeight] at hpopulate
    split at hpopulate
    case isFalse hdone =>
      obtain ⟨rfl, rfl⟩ := Prod.mk.inj (Result.ok.inj hpopulate)
      refine ⟨count, ⟨hfilled, Or.inl ?_⟩, hheight⟩
      rw [← hheight]
      exact UInt64.not_le.1 hdone
    case isTrue hwithin =>
      simp only [Result.bind_eq_ok] at hpopulate
      obtain ⟨block, hblock, commit, hcommit, hrest⟩ := hpopulate
      have hblock' := hreads.block height block hblock
      have hcommit' := hreads.commit height commit hcommit
      rw [hheight] at hblock' hcommit' hwithin
      split at hrest
      case isTrue hlarge =>
        obtain ⟨rfl, rfl⟩ := Prod.mk.inj (Result.ok.inj hrest)
        exact ⟨count, ⟨hfilled, Or.inr ⟨block, commit, hblock', hcommit',
          hwithin, hlarge⟩⟩, hheight⟩
      case isFalse hfits =>
        apply ih (hfilled.add hblock' hcommit' hwithin (not_lt.1 hfits)) _ hrest
        rw [hheight, UInt64.ofNat_add, UInt64.add_assoc]
        rfl

def Loadable (db : Db) (start last : UInt64) : Prop :=
  ∀ height, start ≤ height → height ≤ last →
    (∃ block, loadBlock db height = .ok block) ∧ ∃ commit, loadCommit db height = .ok commit

/-- If all blocks of the range can be read, the loop returns. -/
theorem exists_populate (hfilled : Filled limits db start last count batch)
    (hheight : height = start + UInt64.ofNat count)
    (hfuel : fuel + count = limits.blockBatchMaxSizeBytes.toNat + 1)
    (hlast : last.toNat + 1 < 2 ^ 64) (hload : Loadable db start last) :
    ∃ result, populate limits (Reader.ofDb db) fuel height batch = .ok result := by
  induction fuel generalizing height batch count with
  | zero =>
    have hle := hfilled.count_le
    omega
  | succ fuel ih =>
    rw [populate, hfilled.endHeight]
    split
    case isFalse => exact ⟨_, rfl⟩
    case isTrue hwithin =>
      rw [hheight] at hwithin ⊢
      have hstart : start ≤ start + UInt64.ofNat count := by
        rw [UInt64.le_iff_toNat_le, hfilled.toNat_add hlast le_rfl]
        exact Nat.le_add_right _ _
      obtain ⟨⟨block, hblock⟩, commit, hcommit⟩ := hload _ hstart hwithin
      simp only [Reader.ofDb, hblock, hcommit, Result.ok_bind]
      split
      case isTrue => exact ⟨_, rfl⟩
      case isFalse hfits =>
        apply ih (hfilled.add hblock hcommit hwithin (not_lt.1 hfits)) _ (by omega)
        rw [UInt64.ofNat_add, UInt64.add_assoc]
        rfl

/-! ## The created batch -/

theorem createNextDABatch_eq (hsize : (last - start + 1).toNat < 2 ^ 63) {stop : UInt64}
    (hpopulate : populate limits reader
      (limits.blockBatchMaxSizeBytes.toNat + 1) start ⟨start, last, [], []⟩ = .ok (stop, final)) :
    createNextDABatch limits reader start last = .ok { final with endHeight := stop - 1 } := by
  have hcap : ¬ (last - start + 1).toInt64 < 0 := by
    rw [Int64.lt_iff_toInt_lt, toInt_toInt64, if_pos hsize]
    exact not_lt.2 (Int.natCast_nonneg _)
  simp only [createNextDABatch, if_neg hcap, hpopulate, Result.ok_bind, Result.pure_eq]

theorem Filled.size_le (hfilled : Filled limits db start last count batch)
    (hlast : last.toNat + 1 < 2 ^ 64) (hstart : 1 ≤ start) (hle : start ≤ last)
    (hempty : limits.size ⟨start, start - 1, [], []⟩ ≤ limits.maxSize) :
    limits.size { batch with endHeight := start + UInt64.ofNat count - 1 } ≤ limits.maxSize := by
  by_cases hzero : count = 0
  · subst hzero
    have hbatch : { batch with endHeight := start + UInt64.ofNat 0 - 1 } =
        (⟨start, start - 1, [], []⟩ : Batch) := by
      have hblocks := List.map_eq_nil_iff.1 hfilled.blocks.symm
      have hcommits := List.map_eq_nil_iff.1 hfilled.commits.symm
      rw [hblocks, hcommits, hfilled.startHeight]
      simp
    rw [hbatch]
    exact hempty
  · have hend : (start + UInt64.ofNat count - 1).toNat ≤
        batch.endHeight.toNat := by
      have hcount := hfilled.add_count_le hlast hle
      rw [hfilled.toNat_pred hlast hstart, hfilled.endHeight]
      omega
    have hsize := Pb.Batch.size_le_of_endHeight_le limits.commitSigSize
      { batch.toProto with endHeight := start + UInt64.ofNat count - 1 } hend
    exact (Int.ofNat_le.2 hsize).trans (hfilled.fits hzero)

/-- The batch holds the stored blocks and commits from `start` up to its end
height, within the limit, and one block more would not fit into it. -/
structure MaximalBatch (limits : Limits) (db : Db) (start last : UInt64)
    (batch : Batch) : Prop where
  startHeight : batch.startHeight = start
  start_le : start - 1 ≤ batch.endHeight
  endHeight_le : batch.endHeight ≤ last
  blocks : (heights start (batch.endHeight.toNat + 1 - start.toNat)).map
    (loadBlock db) = batch.blocks.map .ok
  commits : (heights start (batch.endHeight.toNat + 1 - start.toNat)).map
    (loadCommit db) = batch.commits.map .ok
  blocks_length : batch.blocks.length = batch.endHeight.toNat + 1 - start.toNat
  commits_length : batch.commits.length = batch.endHeight.toNat + 1 - start.toNat
  size_le : limits.size batch ≤ limits.blockBatchMaxSizeBytes.toNat
  maximal : batch.endHeight = last ∨ ∃ block commit,
    loadBlock db (batch.endHeight + 1) = .ok block ∧
      loadCommit db (batch.endHeight + 1) = .ok commit ∧
      limits.blockBatchMaxSizeBytes.toNat < limits.size
        (Batch.add { batch with endHeight := last } block commit)

theorem Cut.maximalBatch (hcut : Cut limits db start last count batch)
    (hstart : 1 ≤ start) (hle : start ≤ last) (hlast : last.toNat + 1 < 2 ^ 64)
    (hlimit : limits.blockBatchMaxSizeBytes.toNat < 2 ^ 63)
    (hempty : limits.size ⟨start, start - 1, [], []⟩ ≤ limits.blockBatchMaxSizeBytes.toNat) :
    MaximalBatch limits db start last
      { batch with endHeight := start + UInt64.ofNat count - 1 } := by
  have hfilled := hcut.toFilled
  have hmax := limits.maxSize_eq hlimit
  have hpred := hfilled.toNat_pred hlast hstart
  have hcount := hfilled.add_count_le hlast hle
  have hpos : 1 ≤ start.toNat := by
    have hpos := UInt64.le_iff_toNat_le.1 hstart
    rw [UInt64.toNat_one] at hpos
    exact hpos
  have hlength : (start + UInt64.ofNat count - 1).toNat + 1 - start.toNat =
      count := by
    rw [hpred]
    omega
  have hnext : start + UInt64.ofNat count - 1 + 1 = start + UInt64.ofNat count :=
    UInt64.sub_add_cancel _ _
  refine ⟨hfilled.startHeight, ?_, ?_, ?_, ?_, ?_, ?_, ?_, ?_⟩
  · rw [UInt64.le_iff_toNat_le, hpred, UInt64.toNat_sub_of_le _ _ hstart, UInt64.toNat_one]
    omega
  · rw [UInt64.le_iff_toNat_le, hpred]
    omega
  · rw [hlength]
    exact hfilled.blocks
  · rw [hlength]
    exact hfilled.commits
  · rw [hlength]
    exact hfilled.length.1
  · rw [hlength]
    exact hfilled.length.2
  · have hsize := hfilled.size_le hlast hstart hle (by rw [hmax]; exact_mod_cast hempty)
    rw [hmax] at hsize
    exact_mod_cast hsize
  · dsimp only
    rw [hnext]
    rcases hcut.stop with hdone | ⟨block, commit, hblock, hcommit, _, hlarge⟩
    · left
      have hdone' := UInt64.lt_iff_toNat_lt.1 hdone
      rw [hfilled.toNat_add hlast le_rfl] at hdone'
      apply UInt64.toNat_inj.1
      rw [hpred]
      omega
    · right
      rw [hmax] at hlarge
      have hbatch : { batch with endHeight := last } = batch := by
        rw [← hfilled.endHeight]
      refine ⟨block, commit, hblock, hcommit, ?_⟩
      rw [hbatch]
      exact_mod_cast hlarge

/-- `createNextDABatch` returns the stored blocks of the range, in order, up to
the first one that does not fit into the limit.  The number of heights is an `int`
and small enough for `make`. -/
theorem created_batch_maximal (limits : Limits) (db : Db)
    {start last : UInt64} (hstart : 1 ≤ start) (hle : start ≤ last)
    (hlast : last.toNat < 2 ^ 63)
    (hlimit : limits.blockBatchMaxSizeBytes.toNat < 2 ^ 63)
    (hempty : limits.size ⟨start, start - 1, [], []⟩ ≤ limits.blockBatchMaxSizeBytes.toNat)
    (hload : Loadable db start last) :
    ∃ batch, createNextDABatch limits (Reader.ofDb db) start last = .ok batch ∧
      MaximalBatch limits db start last batch := by
  have hlast' : last.toNat + 1 < 2 ^ 64 := by omega
  have hsize : (last - start + 1).toNat < 2 ^ 63 := by
    have hpos := UInt64.le_iff_toNat_le.1 hstart
    have hle' := UInt64.le_iff_toNat_le.1 hle
    rw [UInt64.toNat_one] at hpos
    rw [UInt64.toNat_add, UInt64.toNat_sub_of_le _ _ hle, UInt64.toNat_one]
    omega
  obtain ⟨⟨stop, final⟩, hpopulate⟩ := exists_populate (filled_zero start last)
    (UInt64.add_zero start).symm rfl hlast' hload
  obtain ⟨count, hcut, rfl⟩ := cut_of_populate (Reader.ofDb_reads db)
    (filled_zero start last) (UInt64.add_zero start).symm hpopulate
  exact ⟨_, createNextDABatch_eq hsize hpopulate, hcut.maximalBatch hstart hle hlast' hlimit hempty⟩

namespace Reference

open Types.Reference

def block (height : UInt64) (txs : List Tx) : Block :=
  Executor.createBlock tendermint ⟨proposerKey, FixedBytes.zero 8, "rollapp"⟩
    height ⟨height - 1, FixedBytes.zero 32, [], default⟩ (FixedBytes.zero 32)
    default txs height

def save (db : Db) (block : Block) : Db :=
  db.commit (saveBlock tendermint block (commitFor block.header))

def store : Db := save (save Db.empty (block 1 [[1]])) (block 2 [])

def oneBlock : Limits := ⟨fun signature => signature.signature.length, 500⟩

theorem loadable : Loadable store 1 2 := by
  intro height hone htwo
  have hcases : height = 1 ∨ height = 2 := by
    rw [UInt64.le_iff_toNat_le] at hone htwo
    rw [← UInt64.toNat_inj, ← UInt64.toNat_inj]
    simp only [UInt64.reduceToNat] at hone htwo ⊢
    omega
  rcases hcases with rfl | rfl
  · exact ⟨⟨block 1 [[1]], by decide⟩, commitFor (block 1 [[1]]).header, by decide⟩
  · exact ⟨⟨block 2 [], by decide⟩, commitFor (block 2 []).header, by decide⟩

end Reference

open Reference

theorem created_batch_maximal_reference :
    ∃ batch, createNextDABatch oneBlock (Reader.ofDb Reference.store) 1 2 =
        .ok batch ∧
      MaximalBatch oneBlock Reference.store 1 2 batch :=
  created_batch_maximal oneBlock Reference.store (by decide) (by decide)
    (by decide) (by decide) (by decide) loadable

/-! ## What the loop returns for a given store -/

variable {total : ℕ}

section

variable (hfilled : Filled limits db start last count batch)

include hfilled

theorem Filled.eq_take (hfinal : Filled limits db start last total final) (hle : count ≤ total) :
    batch = { final with
      blocks := final.blocks.take count
      commits := final.commits.take count } := by
  have htake : heights start count = (heights start total).take count := by
    rw [heights, heights, ← List.map_take, List.take_range, min_eq_left hle]
  have hblocks : batch.blocks = final.blocks.take count := by
    have hmap := hfilled.blocks
    rw [htake, List.map_take, hfinal.blocks, ← List.map_take] at hmap
    exact (List.map_injective_iff.2 (fun _ _ => Result.ok.inj) hmap).symm
  have hcommits : batch.commits = final.commits.take count := by
    have hmap := hfilled.commits
    rw [htake, List.map_take, hfinal.commits, ← List.map_take] at hmap
    exact (List.map_injective_iff.2 (fun _ _ => Result.ok.inj) hmap).symm
  rw [← hblocks, ← hcommits, hfinal.startHeight, hfinal.endHeight,
    ← hfilled.startHeight, ← hfilled.endHeight]

theorem Filled.eq (hfinal : Filled limits db start last count final) : batch = final := by
  have hbatch := hfilled.eq_take hfinal le_rfl
  rw [List.take_of_length_le hfinal.length.1.le,
    List.take_of_length_le hfinal.length.2.le] at hbatch
  exact hbatch

theorem Filled.next (hfinal : Filled limits db start last total final) (hlt : count < total) :
    ∃ block commit, loadBlock db (start + UInt64.ofNat count) = .ok block ∧
      loadCommit db (start + UInt64.ofNat count) = .ok commit ∧
      limits.size (Batch.add batch block commit) ≤ limits.maxSize := by
  have hget : (heights start total)[count]? = some (start + UInt64.ofNat count) := by
    simp [heights, hlt]
  have hblocks := congrArg (fun loads => loads[count]?) hfinal.blocks
  have hcommits := congrArg (fun loads => loads[count]?) hfinal.commits
  simp only [List.getElem?_map, hget, Option.map_some] at hblocks hcommits
  obtain ⟨block, hblock, hload⟩ := Option.map_eq_some_iff.1 hblocks.symm
  obtain ⟨commit, hcommit, hload'⟩ := Option.map_eq_some_iff.1 hcommits.symm
  refine ⟨block, commit, hload.symm, hload'.symm, ?_⟩
  have hadd : Batch.add batch block commit = { final with
      blocks := final.blocks.take (count + 1)
      commits := final.commits.take (count + 1) } := by
    rw [hfilled.eq_take hfinal hlt.le, List.take_add_one, List.take_add_one, hblock, hcommit]
    rfl
  have hsize : limits.size (Batch.add batch block commit) ≤
      limits.size final := by
    have hle := final.toProto.size_take_le limits.commitSigSize (count + 1)
    rw [hadd]
    simp only [Limits.size, Types.Batch.toProto, List.map_take] at hle ⊢
    exact hle
  exact (Int.ofNat_le.2 hsize).trans (hfinal.fits (Nat.ne_zero_of_lt hlt))

end

theorem populate_of_cut (hcut : Cut limits db start last total final)
    (hfilled : Filled limits db start last count batch) (hle : count ≤ total)
    (hheight : height = start + UInt64.ofNat count)
    (hfuel : fuel + count = limits.blockBatchMaxSizeBytes.toNat + 1) :
    populate limits (Reader.ofDb db) fuel height batch =
      .ok (start + UInt64.ofNat total, final) := by
  induction fuel generalizing height batch count with
  | zero =>
    have hle := hfilled.count_le
    omega
  | succ fuel ih =>
    rw [populate, hfilled.endHeight, hheight]
    rcases Nat.lt_or_eq_of_le hle with hlt | rfl
    · obtain ⟨block, commit, hblock, hcommit, hfits⟩ := hfilled.next hcut.toFilled hlt
      have hwithin := hcut.within count hlt
      rw [if_pos hwithin]
      simp only [Reader.ofDb, hblock, hcommit, Result.ok_bind]
      rw [if_neg (not_lt.2 hfits)]
      apply ih (hfilled.add hblock hcommit hwithin hfits) hlt _ (by omega)
      rw [UInt64.ofNat_add, UInt64.add_assoc]
      rfl
    · obtain rfl := hfilled.eq hcut.toFilled
      rcases hcut.stop with hdone | ⟨block, commit, hblock, hcommit, hwithin, hlarge⟩
      · rw [if_neg (UInt64.not_le.2 hdone)]
        rfl
      · rw [if_pos hwithin]
        simp only [Reader.ofDb, hblock, hcommit, Result.ok_bind]
        rw [if_pos hlarge]
        rfl

/-! ## Submitting a batch -/

/-- `BaseLayerClient.validateBatch`. -/
def validateBatch (latestHeight : UInt64) (batch : Batch) :
    Result Error Unit :=
  let start := batch.startHeight
  let last := batch.endHeight
  if start ≠ latestHeight + 1 then
    .err
    (.new s!"batch start height != latest height + 1. StartHeight {start}, lastetHeight {latestHeight}")
  else if last < start then
    .err
    (.new s!"batch end height must be greater than start height. EndHeight {last}, StartHeight {start}")
  else .ok ()

theorem validateBatch_eq_ok {latestHeight : UInt64} {batch : Batch} :
    validateBatch latestHeight batch = .ok () ↔
      batch.startHeight = latestHeight + 1 ∧ batch.startHeight ≤ batch.endHeight := by
  simp only [validateBatch]
  constructor
  · intro hvalid
    split at hvalid
    case isTrue => cases hvalid
    case isFalse hstart =>
      split at hvalid
      case isTrue => cases hvalid
      case isFalse hle => exact ⟨not_not.1 hstart, UInt64.not_lt.1 hle⟩
  · rintro ⟨hstart, hle⟩
    rw [if_neg (not_not.2 hstart), if_neg (UInt64.not_lt.2 hle)]

def validateLastBlockInBatchIsEmpty (reader : Reader) (endHeight : UInt64) :
    Result Error Bool := do
  let lastBlock ← reader.block endHeight
  if lastBlock.data.txs.length ≠ 0 then return false
  else return true

/-- What a call of `submitNextBatch` meets: its reads for the check of the last
block and for the batch, whether the data availability layer takes the batch,
and the latest height of the settlement client. -/
structure Call where
  check : Reader
  build : Reader
  daAccepts : Bool
  latestHeight : UInt64

/-- What a call has done: whether it has requested an empty block, which batch it
has handed to each layer, and whether it has panicked. -/
structure Outcome where
  requested : Bool
  toDA : Option Batch
  toSettlement : Option Batch
  panicked : Bool

/-- `Manager.submitNextBatch`.  Errors of the check and of the creation are only
logged. -/
def submitNextBatch (limits : Limits) (call : Call) (syncTarget : UInt64)
    (lastBlockHeight : Int64) : Outcome :=
  let startHeight := syncTarget + 1
  let endHeight := lastBlockHeight.toUInt64
  match validateLastBlockInBatchIsEmpty call.check endHeight with
  | .panic => ⟨false, none, none, true⟩
  | .err _ => ⟨false, none, none, false⟩
  | .ok isLastBlockEmpty =>
    match createNextDABatch limits call.build startHeight endHeight with
    | .panic => ⟨!isLastBlockEmpty, none, none, true⟩
    | .err _ => ⟨!isLastBlockEmpty, none, none, false⟩
    | .ok nextBatch =>
      if call.daAccepts then
        match validateBatch call.latestHeight nextBatch with
        | .ok () => ⟨!isLastBlockEmpty, some nextBatch, some nextBatch, false⟩
        | _ => ⟨!isLastBlockEmpty, some nextBatch, some nextBatch, true⟩
      else ⟨!isLastBlockEmpty, some nextBatch, none, true⟩

def EndsEmpty (batch : Batch) : Prop :=
  ∃ block, batch.blocks.getLast? = some block ∧ block.data.txs = []

def Announces (limits : Limits) (db : Db) (syncTarget : UInt64)
    (lastBlockHeight : Int64) : Prop :=
  ∀ call : Call, call.check.Reads db → call.build.Reads db →
    ∀ batch, (submitNextBatch limits call syncTarget lastBlockHeight).toDA =
        some batch →
      EndsEmpty batch ∨ (submitNextBatch limits call syncTarget lastBlockHeight).requested = true

def CutsAtEmptyBlock (limits : Limits) (db : Db) (start last : UInt64) : Prop :=
  ∀ lastBlock, loadBlock db last = .ok lastBlock → lastBlock.data.txs = [] →
    0 ≤ (last - start + 1).toInt64 →
    ∀ count batch, Cut limits db start last count batch →
      ∃ previous block, count = previous + 1 ∧
        loadBlock db (start + UInt64.ofNat previous) = .ok block ∧
        block.data.txs = []

theorem cut_of_createNextDABatch (hreads : reader.Reads db)
    (hcreate : createNextDABatch limits reader start last = .ok batch) :
    0 ≤ (last - start + 1).toInt64 ∧ ∃ count final,
      Cut limits db start last count final ∧
        batch = { final with endHeight := start + UInt64.ofNat count - 1 } := by
  rw [createNextDABatch] at hcreate
  split at hcreate
  case isTrue => cases hcreate
  case isFalse hcap =>
    obtain ⟨⟨stop, final⟩, hpopulate, hbatch⟩ := Result.bind_eq_ok.1 hcreate
    obtain ⟨count, hcut, rfl⟩ := cut_of_populate hreads (filled_zero start last)
      (UInt64.add_zero start).symm hpopulate
    exact ⟨Int64.not_lt.1 hcap, count, final, hcut, (Result.ok.inj hbatch).symm⟩

theorem createNextDABatch_of_cut (hcap : 0 ≤ (last - start + 1).toInt64)
    (hcut : Cut limits db start last count batch) :
    createNextDABatch limits (Reader.ofDb db) start last =
      .ok { batch with endHeight := start + UInt64.ofNat count - 1 } := by
  have hpopulate := populate_of_cut hcut (filled_zero start last)
    (Nat.zero_le count) (UInt64.add_zero start).symm rfl
  simp only [createNextDABatch, if_neg (Int64.not_lt.2 hcap), hpopulate,
    Result.ok_bind, Result.pure_eq]

theorem Filled.endsEmpty_iff (hfilled : Filled limits db start last count batch) :
    EndsEmpty batch ↔ ∃ previous block, count = previous + 1 ∧
      loadBlock db (start + UInt64.ofNat previous) = .ok block ∧
      block.data.txs = [] := by
  cases count with
  | zero =>
    have hnil : batch.blocks = [] := List.map_eq_nil_iff.1 hfilled.blocks.symm
    simp [EndsEmpty, hnil]
  | succ previous =>
    have hlast := congrArg List.getLast? hfilled.blocks
    rw [heights_succ, List.map_append, List.map_singleton, List.getLast?_concat,
      List.getLast?_map] at hlast
    constructor
    · rintro ⟨block, hblock, hempty⟩
      rw [hblock] at hlast
      exact ⟨previous, block, rfl, Option.some.inj hlast, hempty⟩
    · rintro ⟨_, block, heq, hload, hempty⟩
      obtain rfl := Nat.succ.inj heq
      rw [hload] at hlast
      obtain ⟨other, hother, hok⟩ := Option.map_eq_some_iff.1 hlast.symm
      obtain rfl := Result.ok.inj hok
      exact ⟨other, hother, hempty⟩

section

variable {call : Call} {syncTarget : UInt64} {lastBlockHeight : Int64}

theorem validateLastBlockInBatchIsEmpty_eq_ok {endHeight : UInt64} {isLastBlockEmpty : Bool} :
    validateLastBlockInBatchIsEmpty reader endHeight = .ok isLastBlockEmpty ↔
      ∃ lastBlock, reader.block endHeight = .ok lastBlock ∧
        isLastBlockEmpty = decide (lastBlock.data.txs = []) := by
  rw [validateLastBlockInBatchIsEmpty, Result.bind_eq_ok]
  refine exists_congr fun lastBlock => and_congr_right fun _ => ?_
  cases htxs : lastBlock.data.txs with
  | nil | cons => simp [eq_comm]

theorem submitNextBatch_of_created {lastBlock : Block}
    (hread : call.check.block lastBlockHeight.toUInt64 = .ok lastBlock)
    (hcreate : createNextDABatch limits call.build (syncTarget + 1)
      lastBlockHeight.toUInt64 = .ok batch) :
    (submitNextBatch limits call syncTarget lastBlockHeight).toDA = some batch ∧
      ((submitNextBatch limits call syncTarget lastBlockHeight).requested = true ↔
        lastBlock.data.txs ≠ []) := by
  have hcheck := validateLastBlockInBatchIsEmpty_eq_ok.2 ⟨lastBlock, hread, rfl⟩
  simp only [submitNextBatch, hcheck, hcreate]
  split
  · split <;> simp
  · simp

theorem created_of_submitNextBatch
    (hbatch : (submitNextBatch limits call syncTarget lastBlockHeight).toDA = some batch) :
    (∃ lastBlock, call.check.block lastBlockHeight.toUInt64 = .ok lastBlock) ∧
      createNextDABatch limits call.build (syncTarget + 1)
        lastBlockHeight.toUInt64 = .ok batch := by
  cases hcheck : validateLastBlockInBatchIsEmpty call.check lastBlockHeight.toUInt64 with
  | panic | err => simp [submitNextBatch, hcheck] at hbatch
  | ok isLastBlockEmpty =>
    obtain ⟨lastBlock, hread, _⟩ := validateLastBlockInBatchIsEmpty_eq_ok.1 hcheck
    refine ⟨⟨lastBlock, hread⟩, ?_⟩
    cases hcreate : createNextDABatch limits call.build (syncTarget + 1)
        lastBlockHeight.toUInt64 with
    | panic | err => simp [submitNextBatch, hcheck, hcreate] at hbatch
    | ok nextBatch =>
      rw [(submitNextBatch_of_created hread hcreate).1] at hbatch
      rw [Option.some.inj hbatch]

end

/-- A call announces its batch on every store exactly if the byte limit never
cuts the batch off at a block with transactions while the last block of the range
is empty. -/
theorem announces_iff_cuts_at_empty_block (limits : Limits) (db : Db)
    (syncTarget : UInt64) (lastBlockHeight : Int64) :
    Announces limits db syncTarget lastBlockHeight ↔
      CutsAtEmptyBlock limits db (syncTarget + 1) lastBlockHeight.toUInt64 := by
  constructor
  · intro hannounces lastBlock hlast hempty hcap count batch hcut
    -- the call in which nothing fails
    let call : Call := ⟨Reader.ofDb db, Reader.ofDb db, true, 0⟩
    have hread : call.check.block lastBlockHeight.toUInt64 = .ok lastBlock := hlast
    obtain ⟨hbatch, hrequested⟩ := submitNextBatch_of_created hread
      (createNextDABatch_of_cut hcap hcut)
    have hannounced := hannounces call (Reader.ofDb_reads db) (Reader.ofDb_reads db) _ hbatch
    rcases hannounced with hends | hannounced
    · exact hcut.endsEmpty_iff.1 hends
    · exact absurd hempty (hrequested.1 hannounced)
  · intro hcuts call hcheck hbuild batch hbatch
    obtain ⟨⟨lastBlock, hread⟩, hcreate⟩ := created_of_submitNextBatch hbatch
    obtain ⟨_, hrequested⟩ := submitNextBatch_of_created hread hcreate
    by_cases hempty : lastBlock.data.txs = []
    · left
      obtain ⟨hcap, count, final, hcut, rfl⟩ := cut_of_createNextDABatch hbuild hcreate
      exact hcut.endsEmpty_iff.2
        (hcuts lastBlock (hcheck.block _ _ hread) hempty hcap count final hcut)
    · exact Or.inr (hrequested.2 hempty)

/-- The last block of the range is empty, so nothing is requested, but the limit
cuts the batch off after a block with a transaction. -/
theorem unannounced_transaction_at_end :
    (let outcome := submitNextBatch oneBlock
      ⟨Reader.ofDb Reference.store, Reader.ofDb Reference.store, true, 0⟩ 0 2
    outcome.requested = false ∧ outcome.panicked = false ∧
      outcome.toSettlement.map (fun batch =>
        (batch.endHeight, batch.blocks.map fun block => block.data.txs)) = some (1, [[[1]]])) := by
  decide

end Dymint.Submit
