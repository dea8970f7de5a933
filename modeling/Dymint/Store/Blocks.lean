import Dymint.Store.Store

/-!
# Reading blocks back

What the three ways of loading a block see of a database: which records they
depend on, what `SaveBlock` changes for them, and what deleting records does.
-/

namespace Dymint.Store

open Procedure Dymint.Types

/-- The records that the loads read. -/
structure BlockRecords where
  index : UInt64 → Option Bytes
  block : Hash → Option Pb.Block
  commit : Hash → Option Pb.Commit

def Db.blockRecords (db : Db) : BlockRecords where
  index height := db (.index height)
  block hash := db (.block hash)
  commit hash := db (.commit hash)

/-- All loads return the same. -/
structure SameBlocks (before after : Db) : Prop where
  block : ∀ height, loadBlock after height = loadBlock before height
  commit : ∀ height, loadCommit after height = loadCommit before height
  blockByHash : ∀ hash, loadBlockByHash after hash = loadBlockByHash before hash

variable {before after : Db}

/-- The loads depend on these records only. -/
theorem sameBlocks_of_records (hrecords : after.blockRecords = before.blockRecords) :
    SameBlocks before after := by
  have hindex (height : UInt64) : after (.index height) = before (.index height) :=
    congrFun (congrArg BlockRecords.index hrecords) height
  have hblock (hash : Hash) : after (.block hash) = before (.block hash) :=
    congrFun (congrArg BlockRecords.block hrecords) hash
  have hcommit (hash : Hash) : after (.commit hash) = before (.commit hash) :=
    congrFun (congrArg BlockRecords.commit hrecords) hash
  constructor
  · intro height
    simp only [loadBlock, loadHashFromIndex, loadBlockByHash, hindex, hblock]
  · intro height
    simp only [loadCommit, loadHashFromIndex, loadCommitByHash, hindex, hcommit]
  · intro hash
    simp only [loadBlockByHash, hblock]

/-! ## Successful loads -/

theorem wrapErr_eq_ok {α : Type} {text : String} {result : Result Error α} {value : α} :
    wrapErr text result = .ok value ↔ result = .ok value := by
  cases result <;> simp [wrapErr, Result.mapErr]

variable {hash : Hash} {db : Db} {height : UInt64}

/-- The index returns a hash exactly if its 32 bytes are stored. -/
theorem loadHashFromIndex_eq_ok : loadHashFromIndex db height = .ok hash ↔
      db (.index height) = some hash.bytes := by
  unfold loadHashFromIndex
  cases hindex : db (.index height) with
  | none => simp
  | some blob =>
    by_cases hlength : blob.length = 32
    · simp only [hlength, dite_true, Result.ok.injEq, Option.some.injEq]
      constructor
      · rintro rfl
        rfl
      · rintro rfl
        rfl
    · simp only [hlength, dite_false, reduceCtorEq, Option.some.injEq, false_iff]
      rintro rfl
      exact hlength hash.length_bytes

variable {block : Block}

theorem loadBlockByHash_eq_ok : loadBlockByHash db hash = .ok block ↔
      ∃ pb, db (.block hash) = some pb ∧ Block.fromProto pb = .ok block := by
  unfold loadBlockByHash
  cases hblock : db (.block hash) with
  | none => simp
  | some pb => simp [wrapErr_eq_ok]

theorem loadBlock_eq_ok : loadBlock db height = .ok block ↔
      ∃ hash : Hash, db (.index height) = some hash.bytes ∧
        loadBlockByHash db hash = .ok block := by
  simp only [loadBlock, Result.bind_eq_ok, wrapErr_eq_ok, loadHashFromIndex_eq_ok]

variable {commit : Commit}

theorem loadCommit_eq_ok : loadCommit db height = .ok commit ↔
      ∃ hash : Hash, db (.index height) = some hash.bytes ∧
        ∃ pb, db (.commit hash) = some pb ∧ Commit.fromProto pb = .ok commit := by
  simp only [loadCommit, Result.bind_eq_ok, wrapErr_eq_ok, loadHashFromIndex_eq_ok]
  refine exists_congr fun hash => and_congr_right fun _ => ?_
  unfold loadCommitByHash
  cases hcommit : db (.commit hash) with
  | none => simp
  | some pb => simp [wrapErr_eq_ok]

/-! ## Saving a block -/

/-- The records after `SaveBlock`. -/
def BlockRecords.save (tm : Tendermint) (block : Block) (commit : Commit)
    (records : BlockRecords) : BlockRecords where
  index := Function.update records.index block.header.height (some (block.header.hash tm).bytes)
  block := Function.update records.block (block.header.hash tm) (some block.toProto)
  commit := Function.update records.commit (block.header.hash tm) (some commit.toProto)

theorem blockRecords_saveBlock (tm : Tendermint) (db : Db) (block : Block) (commit : Commit) :
    (db.commit (saveBlock tm block commit)).blockRecords =
      db.blockRecords.save tm block commit := by
  unfold Db.blockRecords BlockRecords.save
  congr 1
  · funext height
    by_cases hheight : height = block.header.height
    · rw [hheight, Function.update_self]
      exact saveBlock_index tm db block commit
    · rw [Function.update_of_ne hheight]
      exact saveBlock_frame tm db block commit (by simp) (by simp) (by simpa using hheight)
  · funext hash
    by_cases hhash : hash = block.header.hash tm
    · rw [hhash, Function.update_self]
      exact saveBlock_block tm db block commit
    · rw [Function.update_of_ne hhash]
      exact saveBlock_frame tm db block commit (by simpa using hhash) (by simp) (by simp)
  · funext hash
    by_cases hhash : hash = block.header.hash tm
    · rw [hhash, Function.update_self]
      exact saveBlock_commit tm db block commit
    · rw [Function.update_of_ne hhash]
      exact saveBlock_frame tm db block commit (by simp) (by simpa using hhash) (by simp)

/-- Headers with one hash have one height. -/
def HashesHeight (tm : Tendermint) : Prop :=
  ∀ left right : TmHeader, tm.headerHash left = tm.headerHash right → left.height = right.height

theorem HashesHeight.height_eq {tm : Tendermint} (hhash : HashesHeight tm) {left right : Header}
    (heq : left.hash tm = right.hash tm) : left.height = right.height := by
  have hheight : left.height.toInt64 = right.height.toInt64 := hhash _ _ heq
  have hword := congrArg Int64.toUInt64 hheight
  rwa [UInt64.toUInt64_toInt64, UInt64.toUInt64_toInt64] at hword

/-- Every index entry is the hash of a header of its height. -/
def Indexed (tm : Tendermint) (records : BlockRecords) : Prop :=
  ∀ height bytes, records.index height = some bytes →
    ∃ header : Header, header.height = height ∧ bytes = (header.hash tm).bytes

/-- For readers, the block and its commit have been stored and nothing else has
changed. -/
structure OnlySaved (tm : Tendermint) (block : Block) (commit : Commit)
    (before after : Db) : Prop where
  otherBlock : ∀ height, height ≠ block.header.height →
    loadBlock after height = loadBlock before height
  otherCommit : ∀ height, height ≠ block.header.height →
    loadCommit after height = loadCommit before height
  otherHash : ∀ hash, hash ≠ block.header.hash tm →
    loadBlockByHash after hash = loadBlockByHash before hash
  savedBlock : loadBlock after block.header.height = .ok block.withoutEvidence
  savedCommit : loadCommit after block.header.height = .ok commit
  savedHash : loadBlockByHash after (block.header.hash tm) = .ok block.withoutEvidence

/-- The store already returns this block and this commit. -/
def AlreadyStored (tm : Tendermint) (block : Block) (commit : Commit) (db : Db) : Prop :=
  loadBlock db block.header.height = .ok block.withoutEvidence ∧
    loadCommit db block.header.height = .ok commit ∧
    loadBlockByHash db (block.header.hash tm) = .ok block.withoutEvidence

/-- Saving a block changes nothing exactly if it was stored already. -/
theorem OnlySaved.same_iff {tm : Tendermint} {block : Block} {commit : Commit}
    (hsaved : OnlySaved tm block commit before after) :
    SameBlocks before after ↔ AlreadyStored tm block commit before := by
  constructor
  · intro hsame
    exact ⟨(hsame.block _).symm.trans hsaved.savedBlock,
      (hsame.commit _).symm.trans hsaved.savedCommit,
      (hsame.blockByHash _).symm.trans hsaved.savedHash⟩
  · rintro ⟨hblock, hcommit, hhash⟩
    refine ⟨fun height => ?_, fun height => ?_, fun hash => ?_⟩
    · by_cases heq : height = block.header.height
      · rw [heq, hsaved.savedBlock, hblock]
      · exact hsaved.otherBlock height heq
    · by_cases heq : height = block.header.height
      · rw [heq, hsaved.savedCommit, hcommit]
      · exact hsaved.otherCommit height heq
    · by_cases heq : hash = block.header.hash tm
      · rw [heq, hsaved.savedHash, hhash]
      · exact hsaved.otherHash hash heq

section

variable {tm : Tendermint} {db : Db} (block : Block) (commit : Commit)

theorem indexed_saveBlock (hindexed : Indexed tm db.blockRecords) :
    Indexed tm (db.commit (saveBlock tm block commit)).blockRecords := by
  intro height bytes hbytes
  by_cases hheight : height = block.header.height
  · subst hheight
    refine ⟨block.header, rfl, ?_⟩
    have hindex := saveBlock_index tm db block commit
    exact Option.some.inj (hbytes.symm.trans hindex)
  · apply hindexed height bytes
    rw [← hbytes]
    exact (saveBlock_frame tm db block commit (by simp) (by simp) (by simpa using hheight)).symm

/-- No other height is indexed with the hash of the saved block. -/
theorem index_ne_saved (hhash : HashesHeight tm) (hindexed : Indexed tm db.blockRecords)
    (hheight : height ≠ block.header.height) (hindex : db (.index height) = some hash.bytes) :
    hash ≠ block.header.hash tm := by
  rintro rfl
  obtain ⟨header, hheader, hbytes⟩ := hindexed height _ hindex
  have heq := hhash.height_eq (FixedBytes.ext hbytes)
  exact hheight (hheader.symm.trans heq.symm)

theorem loadHashFromIndex_saveBlock (hheight : height ≠ block.header.height) :
    loadHashFromIndex (db.commit (saveBlock tm block commit)) height =
      loadHashFromIndex db height := by
  unfold loadHashFromIndex
  rw [saveBlock_frame tm db block commit (by simp) (by simp) (by simpa using hheight)]

theorem loadBlockByHash_saveBlock (hne : hash ≠ block.header.hash tm) :
    loadBlockByHash (db.commit (saveBlock tm block commit)) hash = loadBlockByHash db hash := by
  unfold loadBlockByHash
  rw [saveBlock_frame tm db block commit (by simpa using hne) (by simp) (by simp)]

theorem loadCommitByHash_saveBlock (hne : hash ≠ block.header.hash tm) :
    loadCommitByHash (db.commit (saveBlock tm block commit)) hash = loadCommitByHash db hash := by
  unfold loadCommitByHash
  rw [saveBlock_frame tm db block commit (by simp) (by simpa using hne) (by simp)]

theorem loadBlockByHash_saved : loadBlockByHash (db.commit (saveBlock tm block commit))
      (block.header.hash tm) = .ok block.withoutEvidence :=
  loadBlockByHash_eq_ok.2 ⟨_, saveBlock_block tm db block commit, Block.fromProto_toProto block⟩

/-- The block comes back without its evidence. -/
theorem loadBlock_saved : loadBlock (db.commit (saveBlock tm block commit)) block.header.height =
      .ok block.withoutEvidence :=
  loadBlock_eq_ok.2 ⟨_, saveBlock_index tm db block commit, loadBlockByHash_saved block commit⟩

theorem loadCommit_saved : loadCommit (db.commit (saveBlock tm block commit)) block.header.height =
      .ok commit :=
  loadCommit_eq_ok.2 ⟨_, saveBlock_index tm db block commit, _,
      saveBlock_commit tm db block commit, Commit.fromProto_toProto commit⟩

/-- `SaveBlock` as its readers see it. -/
theorem onlySaved_saveBlock (hhash : HashesHeight tm) (hindexed : Indexed tm db.blockRecords) :
    OnlySaved tm block commit db (db.commit (saveBlock tm block commit)) := by
  constructor
  · intro height hheight
    rw [loadBlock, loadBlock, loadHashFromIndex_saveBlock block commit hheight]
    cases hload : loadHashFromIndex db height with
    | ok hash =>
      have hne := index_ne_saved block hhash hindexed hheight (loadHashFromIndex_eq_ok.1 hload)
      exact loadBlockByHash_saveBlock block commit hne
    | err | panic => rfl
  · intro height hheight
    rw [loadCommit, loadCommit, loadHashFromIndex_saveBlock block commit hheight]
    cases hload : loadHashFromIndex db height with
    | ok hash =>
      have hne := index_ne_saved block hhash hindexed hheight (loadHashFromIndex_eq_ok.1 hload)
      exact loadCommitByHash_saveBlock block commit hne
    | err | panic => rfl
  · intro hash hne
    exact loadBlockByHash_saveBlock block commit hne
  · exact loadBlock_saved block commit
  · exact loadCommit_saved block commit
  · exact loadBlockByHash_saved block commit

theorem OnlySaved.of_records {block : Block} {commit : Commit} {saved : Db}
    (hsaved : OnlySaved tm block commit before saved)
    (hrecords : after.blockRecords = saved.blockRecords) :
    OnlySaved tm block commit before after := by
  have hsame := sameBlocks_of_records hrecords
  constructor
  · intro height hheight
    rw [hsame.block, hsaved.otherBlock height hheight]
  · intro height hheight
    rw [hsame.commit, hsaved.otherCommit height hheight]
  · intro hash hne
    rw [hsame.blockByHash, hsaved.otherHash hash hne]
  · rw [hsame.block, hsaved.savedBlock]
  · rw [hsame.commit, hsaved.savedCommit]
  · rw [hsame.blockByHash, hsaved.savedHash]

end

/-! ## Deleting records -/

/-- Records have been deleted at most. -/
structure Shrinks (before after : BlockRecords) : Prop where
  index : ∀ height, after.index height = before.index height ∨ after.index height = none
  block : ∀ hash, after.block hash = before.block hash ∨ after.block hash = none
  commit : ∀ hash, after.commit hash = before.commit hash ∨ after.commit hash = none

theorem Shrinks.refl (records : BlockRecords) : Shrinks records records :=
  ⟨fun _ => .inl rfl, fun _ => .inl rfl, fun _ => .inl rfl⟩

theorem Indexed.shrinks {tm : Tendermint} {before after : BlockRecords}
    (hindexed : Indexed tm before) (hshrinks : Shrinks before after) : Indexed tm after := by
  intro height bytes hbytes
  rcases hshrinks.index height with h | h
  · exact hindexed height bytes (h.symm.trans hbytes)
  · rw [h] at hbytes
    cases hbytes

theorem eq_some_of_shrunk {γ : Type} {old new : Option γ} {value : γ}
    (hshrunk : new = old ∨ new = none) (hvalue : new = some value) : old = some value := by
  grind

/-- What can be loaded after a deletion could be before it. -/
theorem loadBlock_of_shrinks (hshrinks : Shrinks before.blockRecords after.blockRecords)
    (hload : loadBlock after height = .ok block) : loadBlock before height = .ok block := by
  obtain ⟨hash, hindex, hblock⟩ := loadBlock_eq_ok.1 hload
  obtain ⟨pb, hpb, hfrom⟩ := loadBlockByHash_eq_ok.1 hblock
  exact loadBlock_eq_ok.2 ⟨hash, eq_some_of_shrunk (hshrinks.index height) hindex,
    loadBlockByHash_eq_ok.2 ⟨pb, eq_some_of_shrunk (hshrinks.block hash) hpb, hfrom⟩⟩

theorem loadCommit_of_shrinks (hshrinks : Shrinks before.blockRecords after.blockRecords)
    (hload : loadCommit after height = .ok commit) : loadCommit before height = .ok commit := by
  obtain ⟨hash, hindex, pb, hpb, hfrom⟩ := loadCommit_eq_ok.1 hload
  exact loadCommit_eq_ok.2 ⟨hash, eq_some_of_shrunk (hshrinks.index height) hindex, pb,
    eq_some_of_shrunk (hshrinks.commit hash) hpb, hfrom⟩

/-! ## The blocks of a store -/

/-- A database whose blocks were written by `SaveBlock`.  Block records may be deleted,
and the other records may change in any way. -/
inductive SavedBlocks (tm : Tendermint) : Db → Prop where
  | empty : SavedBlocks tm Db.empty
  | save {db : Db} (block : Block) (commit : Commit) (hsaved : SavedBlocks tm db) :
      SavedBlocks tm (db.commit (saveBlock tm block commit))
  | shrink {before after : Db} (hsaved : SavedBlocks tm before)
      (hshrinks : Shrinks before.blockRecords after.blockRecords) : SavedBlocks tm after

namespace SavedBlocks

variable {tm : Tendermint} {db : Db}

theorem indexed (hsaved : SavedBlocks tm db) : Indexed tm db.blockRecords := by
  induction hsaved with
  | empty => exact fun _ _ hindex => nomatch hindex
  | save block commit _ ih => exact indexed_saveBlock block commit ih
  | shrink _ hshrinks ih => exact ih.shrinks hshrinks

/-- A block is found under its own height only. -/
theorem height_eq (hhash : HashesHeight tm) (hsaved : SavedBlocks tm db)
    (hload : loadBlock db height = .ok block) : block.header.height = height := by
  induction hsaved generalizing height block with
  | empty => cases hload
  | save saved commit hsaved ih =>
    have honly := onlySaved_saveBlock saved commit hhash hsaved.indexed
    by_cases hheight : height = saved.header.height
    · rw [hheight, honly.savedBlock] at hload
      obtain rfl := Result.ok.inj hload
      exact hheight.symm
    · rw [honly.otherBlock height hheight] at hload
      exact ih hload
  | shrink _ hshrinks ih => exact ih (loadBlock_of_shrinks hshrinks hload)

end SavedBlocks

end Dymint.Store
