import Dymint.Types.Serialization

/-!
# The block store

`DefaultStore` keeps six kinds of records in one key-value database.  The model
keeps the keys apart by their prefix and stores the protobuf message of each
record, so that a key can only hold a record of its own kind.  A batch is the
list of its writes and deletions and reaches the database as a whole.
-/

namespace Dymint.Store

open Procedure Dymint.Types

inductive Key where
  | block (hash : Hash)
  | index (height : UInt64)
  | commit (hash : Hash)
  | state
  | responses (height : UInt64)
  | validators (height : UInt64)
  deriving DecidableEq

abbrev Key.Value : Key → Type
  | .block _ => Pb.Block
  | .index _ => Bytes
  | .commit _ => Pb.Commit
  | .state => Pb.State
  | .responses _ => ABCIResponses
  | .validators _ => ValidatorSet

abbrev Db := (key : Key) → Option key.Value

/-- One entry of a batch; deletions carry `none`. -/
abbrev Write := (key : Key) × Option key.Value

abbrev WriteBatch := List Write

variable {key : Key} {write : Write}

namespace Db

def empty : Db := fun _ => none

def apply (db : Db) (write : Write) : Db := Function.update db write.1 write.2

def commit (db : Db) (batch : WriteBatch) : Db := batch.foldl apply db

@[simp]
theorem commit_nil (db : Db) : db.commit [] = db := rfl

@[simp]
theorem commit_cons (db : Db) (write : Write) (batch : WriteBatch) :
    db.commit (write :: batch) = (db.apply write).commit batch := rfl

@[simp]
theorem apply_self (db : Db) (key : Key) (value : Option key.Value) :
    db.apply ⟨key, value⟩ key = value := by
  simp [apply]

theorem apply_of_ne (db : Db) (hkey : key ≠ write.1) : db.apply write key = db key :=
  Function.update_of_ne hkey _ _

theorem commit_of_forall_ne (db : Db) {batch : WriteBatch}
    (hbatch : ∀ write ∈ batch, key ≠ write.1) : db.commit batch key = db key := by
  induction batch generalizing db with
  | nil => rfl
  | cons write batch ih =>
    rw [commit_cons, ih]
    · exact apply_of_ne db (hbatch write (by simp))
    · intro other hother
      exact hbatch other (by simp [hother])

/-- Deletions leave a record alone or remove it. -/
theorem commit_of_forall_none (db : Db) {batch : WriteBatch}
    (hbatch : ∀ write ∈ batch, write.2 = none) (key : Key) :
    db.commit batch key = db key ∨ db.commit batch key = none := by
  induction batch generalizing db with
  | nil => exact Or.inl rfl
  | cons write batch ih =>
    rw [commit_cons]
    have hrest := ih (db.apply write) fun other hother =>
      hbatch other (by simp [hother])
    by_cases hkey : key = write.1
    · subst hkey
      have hnone : db.apply write write.1 = none := by
        rw [apply, Function.update_self]
        exact hbatch write (by simp)
      rw [hnone] at hrest
      exact Or.inr (hrest.elim id id)
    · rw [apply_of_ne db hkey] at hrest
      exact hrest

end Db

def wrapErr {α : Type} (text : String) (result : Result Error α) : Result Error α :=
  result.mapErr (.wrap text)

/-! ## Blocks and commits -/

section

variable (tm : Tendermint)

/-- The batch that `SaveBlock` commits. -/
def saveBlock (block : Block) (commit : Commit) : WriteBatch :=
  [⟨.block (block.header.hash tm), some block.toProto⟩,
    ⟨.commit (block.header.hash tm), some commit.toProto⟩,
    ⟨.index block.header.height, some (block.header.hash tm).bytes⟩]

def loadHashFromIndex (db : Db) (height : UInt64) : Result Error Hash :=
  match db (.index height) with
  | none => .err (.wrap "failed to load block hash for height" .errKeyNotFound)
  | some blob =>
    if h : blob.length = 32 then .ok ⟨blob, h⟩
    else .err (.new "invalid hash length")

def loadBlockByHash (db : Db) (hash : Hash) : Result Error Block :=
  match db (.block hash) with
  | none => .err (.wrap "failed to load block data" .errKeyNotFound)
  | some blockData =>
    wrapErr "failed to unmarshal block data" (Block.fromProto blockData)

def loadBlock (db : Db) (height : UInt64) : Result Error Block := do
  let hash ← wrapErr "failed to load hash from index" (loadHashFromIndex db height)
  loadBlockByHash db hash

def loadCommitByHash (db : Db) (hash : Hash) : Result Error Commit :=
  match db (.commit hash) with
  | none => .err (.wrap "failed to retrieve commit from hash" .errKeyNotFound)
  | some commitData =>
    wrapErr "failed to marshal Commit into object" (Commit.fromProto commitData)

def loadCommit (db : Db) (height : UInt64) : Result Error Commit := do
  let hash ← wrapErr "failed to load hash from index" (loadHashFromIndex db height)
  loadCommitByHash db hash

end

/-! ## Responses, validators and the state -/

def saveBlockResponses (height : UInt64) (responses : ABCIResponses) : Write :=
  ⟨.responses height, some responses⟩

def loadBlockResponses (db : Db) (height : UInt64) : Result Error ABCIResponses :=
  match db (.responses height) with
  | none =>
    .err (.wrap "failed to retrieve block results from height" .errKeyNotFound)
  | some responses => .ok responses

def saveValidators (tm : Tendermint) (height : UInt64)
    (validatorSet : ValidatorSet) : Except Error Write := do
  let pbValSet ← (tm.validatorSetToProto validatorSet).mapError
    (.wrap "failed to marshal ValidatorSet to protobuf")
  return ⟨.validators height, some pbValSet⟩

def loadValidators (tm : Tendermint) (db : Db) (height : UInt64) : Result Error ValidatorSet :=
  match db (.validators height) with
  | none =>
    .err (.wrap "failed to load Validators for height" .errKeyNotFound)
  | some pbValSet => .ofExcept (tm.validatorSetFromProto pbValSet)

def updateState (tm : Tendermint) (state : State) : Except Error Write := do
  let pbState ← (state.toProto tm).mapError
    (.wrap "failed to marshal state to JSON")
  return ⟨.state, some pbState⟩

/-- The value that `LoadState` returns if the read of the record succeeds. -/
def loadState (tm : Tendermint) (db : Db) : Result Error State :=
  match db .state with
  | none => .err .errNoStateFound
  | some pbState =>
    wrapErr "failed to unmarshal state from proto" (State.fromProto tm pbState)

variable {tm : Tendermint}

theorem loadState_eq_ok {db : Db} {state : State} : loadState tm db = .ok state ↔
      ∃ message, db .state = some message ∧ State.fromProto tm message = .ok state := by
  unfold loadState
  cases hrecord : db .state with
  | none => simp
  | some message =>
    cases hstate : State.fromProto tm message <;>
      simp [wrapErr, Result.mapErr, hstate]

theorem loadState_eq_missing {db : Db} :
    loadState tm db = .err .errNoStateFound ↔ db .state = none := by
  unfold loadState
  cases hrecord : db .state with
  | none => simp
  | some message =>
    cases hstate : State.fromProto tm message <;>
      simp [wrapErr, Result.mapErr, hstate]

theorem updateState_eq_ok {state : State} : updateState tm state = .ok write ↔
      ∃ pb, state.toProto tm = .ok pb ∧ write = ⟨.state, some pb⟩ := by
  unfold updateState
  cases state.toProto tm with
  | error error => simp [Except.mapError, bind, Except.bind]
  | ok pb => simp [Except.mapError, bind, Except.bind, pure, Except.pure, eq_comm]

theorem saveValidators_eq_ok {height : UInt64} {validatorSet : ValidatorSet} :
    saveValidators tm height validatorSet = .ok write ↔
      ∃ pb, tm.validatorSetToProto validatorSet = .ok pb ∧
        write = ⟨.validators height, some pb⟩ := by
  unfold saveValidators
  cases tm.validatorSetToProto validatorSet with
  | error error => simp [Except.mapError, bind, Except.bind]
  | ok pb => simp [Except.mapError, bind, Except.bind, pure, Except.pure, eq_comm]

theorem saveValidators_key {height : UInt64} {validatorSet : ValidatorSet}
    (hwrite : saveValidators tm height validatorSet = .ok write) :
    write.1 = .validators height := by
  obtain ⟨pb, _, rfl⟩ := saveValidators_eq_ok.1 hwrite
  rfl

/-! ## What a saved block changes -/

section

variable (tm : Tendermint) (db : Db) (block : Block) (commit : Commit)

theorem saveBlock_frame (hblock : key ≠ .block (block.header.hash tm))
    (hcommit : key ≠ .commit (block.header.hash tm)) (hindex : key ≠ .index block.header.height) :
    db.commit (saveBlock tm block commit) key = db key := by
  apply Db.commit_of_forall_ne
  intro write hwrite
  simp only [saveBlock, List.mem_cons, List.not_mem_nil, or_false] at hwrite
  rcases hwrite with rfl | rfl | rfl
  · exact hblock
  · exact hcommit
  · exact hindex

@[simp]
theorem saveBlock_block : db.commit (saveBlock tm block commit) (.block (block.header.hash tm)) =
      some block.toProto := by
  simp only [saveBlock, Db.commit_cons, Db.commit_nil]
  rw [Db.apply_of_ne _ (by simp), Db.apply_of_ne _ (by simp), Db.apply_self]

@[simp]
theorem saveBlock_commit : db.commit (saveBlock tm block commit) (.commit (block.header.hash tm)) =
      some commit.toProto := by
  simp only [saveBlock, Db.commit_cons, Db.commit_nil]
  rw [Db.apply_of_ne _ (by simp), Db.apply_self]

@[simp]
theorem saveBlock_index : db.commit (saveBlock tm block commit) (.index block.header.height) =
      some (block.header.hash tm).bytes := by
  simp only [saveBlock, Db.commit_cons, Db.commit_nil, Db.apply_self]

end

end Dymint.Store
