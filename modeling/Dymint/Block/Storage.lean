import Dymint.Block.PruneFailure
import Dymint.Core.Simulation

/-!
# What the store is for

Behind its six kinds of records, its index and its batches, the store maps
heights to blocks with their commits, to responses and to validator sets, and it
holds one state.  Every sequence of its operations gets the replies that these
maps would give: a height is found until it is pruned, and pruning removes the
heights of a range that have a block.  A block comes back without its evidence,
and a state as the rule for old state files reads it.
-/

namespace Dymint.Storage

open Procedure Dymint.Types Store Manager
open Simulation

/-! ## The operations of the store -/

/-- What is saved, on its own or as part of a batch. -/
inductive Save where
  | block (block : Block) (commit : Commit)
  | responses (height : UInt64) (responses : ABCIResponses)
  | validators (height : UInt64) (validatorSet : ValidatorSet)
  | state (state : State)

/-- The writes of one save. -/
def saveWrites (tm : Tendermint) : Save → Except Error WriteBatch
  | .block block commit => .ok (saveBlock tm block commit)
  | .responses height responses => .ok [saveBlockResponses height responses]
  | .validators height validatorSet => do
      let write ← saveValidators tm height validatorSet
      return [write]
  | .state state => do
      let write ← updateState tm state
      return [write]

/-- The batch of several saves. -/
def writesOf (tm : Tendermint) : List Save → Except Error WriteBatch
  | [] => .ok []
  | save :: saves => do
      let first ← saveWrites tm save
      let rest ← writesOf tm saves
      return first ++ rest

/-- The operations of the store. -/
inductive Operation where
  | commit (saves : List Save)
  | pruneBlocks (heightInt : Int64)
  | setHeight (height : UInt64)
  | loadState
  | loadBlock (height : UInt64)
  | loadCommit (height : UInt64)
  | loadBlockResponses (height : UInt64)
  | loadValidators (height : UInt64)
  | height
  | base

/-- An operation with the answer to its accesses. -/
structure Command where
  operation : Operation
  answer : Answer

/-- What an operation returns. -/
inductive Reply where
  | done
  | failed
  | pruned (count : UInt64)
  | height (height : UInt64)
  | block (block : Block)
  | commit (commit : Commit)
  | responses (responses : ABCIResponses)
  | validators (validatorSet : ValidatorSet)
  | state (state : State)
  deriving DecidableEq

section

variable {α : Type}

/-- The operations as the store performs them. -/
def perform (env : Env α) : Operation → M α Reply
  | .commit saves => do
      let batch ← Proc.ofResult (.ofExcept (writesOf env.tm saves))
      commitBatch id batch
      return .done
  | .pruneBlocks heightInt => do
      let pruned ← storePruneBlocks heightInt
      return .pruned pruned
  | .setHeight height => do
      Manager.setHeight height
      return .done
  | .loadState => do
      let state ← loadStoreState env
      return .state state
  | .loadBlock height => do
      let block ← query id (Store.loadBlock · height)
      return .block block
  | .loadCommit height => do
      let commit ← query id (Store.loadCommit · height)
      return .commit commit
  | .loadBlockResponses height => do
      let responses ← query id (Store.loadBlockResponses · height)
      return .responses responses
  | .loadValidators height => do
      let validatorSet ← query id (Store.loadValidators env.tm · height)
      return .validators validatorSet
  | .height => do
      let height ← storeHeight
      return .height height
  | .base => do
      let base ← storeBase
      return .height base

def Reply.ofResult : Result Error Reply → Reply
  | .ok reply => reply
  | _ => .failed

/-- The store as a machine. -/
def defaultStore (env : Env α) : Machine (Node α) Command Reply where
  step node command :=
    let outcome := (perform env command.operation).exec (fun _ => command.answer) node
    (outcome.1, .ofResult outcome.2)

end

/-! ## The abstract store -/

/-- The maps that the store stands for. -/
structure Contents where
  blocks : UInt64 → Option (Block × Commit)
  responses : UInt64 → Option ABCIResponses
  validators : UInt64 → Option ValidatorSet
  state : Option State
  height : UInt64
  base : UInt64

namespace Contents

def empty : Contents where
  blocks _ := none
  responses _ := none
  validators _ := none
  state := none
  height := 0
  base := 0

/-- What saving means for the maps. -/
def save (contents : Contents) : Save → Contents
  | .block block commit =>
    { contents with
      blocks := Function.update contents.blocks block.header.height (some (block, commit)) }
  | .responses height responses =>
    { contents with
      responses := Function.update contents.responses height (some responses) }
  | .validators height validatorSet =>
    { contents with
      validators :=
        Function.update contents.validators height (some validatorSet) }
  | .state state => { contents with state := some state }

/-- The heights from the base to `bound` that have a block. -/
def indexed (contents : Contents) (bound : UInt64) : List UInt64 :=
  (heightsFrom contents.base (bound.toNat - contents.base.toNat)).filter
    fun height => (contents.blocks height).isSome

/-- What pruning means for the maps. -/
def prune (contents : Contents) (bound : UInt64) : Contents :=
  { contents with
    blocks := fun height =>
      if height ∈ contents.indexed bound then none else contents.blocks height
    responses := fun height =>
      if height ∈ contents.indexed bound then none else contents.responses height
    validators := fun height =>
      if height ∈ contents.indexed bound then none else contents.validators height
    base := bound }

end Contents

/-- A state as it is read back: one that counts blocks but none as stored is
taken for one from an old file. -/
def restored (state : State) : State :=
  { state with
    lastStoreHeight :=
      if state.lastStoreHeight = 0 ∧ state.lastBlockHeight > 1 then
        state.lastBlockHeight.toUInt64
      else state.lastStoreHeight }

def found {β : Type} (reply : β → Reply) (value : Option β) : Reply := value.elim .failed reply

/-- `PruneBlocks` is called within the stored heights. -/
def Prunable (heightInt : Int64) (height base : UInt64) : Prop :=
  0 < heightInt ∧ heightInt.toUInt64 ≤ height ∧ base ≤ heightInt.toUInt64

instance (heightInt : Int64) (height base : UInt64) : Decidable (Prunable heightInt height base) :=
  inferInstanceAs (Decidable (_ ∧ _))

/-- The operations on the maps. -/
def Contents.perform (accepts : Save → Bool) (contents : Contents) : Operation → Contents × Reply
  | .commit saves =>
    if saves.all accepts then (saves.foldl Contents.save contents, .done)
    else (contents, .failed)
  | .pruneBlocks heightInt =>
    if Prunable heightInt contents.height contents.base then
      (contents.prune heightInt.toUInt64,
        .pruned (UInt64.ofNat (contents.indexed heightInt.toUInt64).length))
    else (contents, .failed)
  | .setHeight height =>
    ({ contents with height := max contents.height height }, .done)
  | .loadState =>
    match contents.state with
    | none => (contents, .failed)
    | some state =>
      ({ contents with
          height := (restored state).lastStoreHeight
          base := state.baseHeight },
        .state (restored state))
  | .loadBlock height =>
    (contents, found .block ((contents.blocks height).map fun pair => pair.1.withoutEvidence))
  | .loadCommit height =>
    (contents, found .commit ((contents.blocks height).map Prod.snd))
  | .loadBlockResponses height =>
    (contents, found .responses (contents.responses height))
  | .loadValidators height =>
    (contents, found .validators (contents.validators height))
  | .height => (contents, .height contents.height)
  | .base => (contents, .height contents.base)

/-- Whether the operation calls the key-value store, so that it may fail. -/
def Operation.Accesses : Operation → Bool
  | .setHeight _ | .height | .base => false
  | _ => true

/-- Whether a call that fails may have had its effect. -/
def Operation.Writes : Operation → Bool
  | .commit _ | .pruneBlocks _ => true
  | _ => false

/-- The maps as a machine that fails where the store does. -/
def abstractStore (accepts : Save → Bool) : Machine Contents Command Reply where
  step contents command :=
    let outcome := contents.perform accepts command.operation
    if command.operation.Accesses then
      match command.answer with
      | .ok => outcome
      | .failBefore => (contents, .failed)
      | .failAfter => (if command.operation.Writes then outcome.1 else contents, .failed)
    else outcome

/-! ## The refinement relation -/

/-- A load returns the value, or there is no record. -/
def Reads {β γ : Type} (record : Option γ) (loaded : Result Error β) : Option β → Prop
  | some value => loaded = .ok value
  | none => record = none

/-- The records hold the contents of the maps. -/
structure Represents (tm : Tendermint) (db : Db) (contents : Contents) : Prop where
  indexed : Indexed tm db.blockRecords
  block : ∀ height, Reads (db (.index height)) (loadBlock db height)
    ((contents.blocks height).map fun pair => pair.1.withoutEvidence)
  commit : ∀ height, Reads (db (.index height)) (loadCommit db height)
    ((contents.blocks height).map Prod.snd)
  responses : ∀ height, db (.responses height) = contents.responses height
  validators : ∀ height, Reads (db (.validators height))
    (loadValidators tm db height) (contents.validators height)
  state : Reads (db .state) (loadState tm db) (contents.state.map restored)

/-- So do the two heights that are kept in memory. -/
structure Refines {α : Type} (env : Env α) (node : Node α)
    (contents : Contents) : Prop where
  records : Represents env.tm node.db contents
  height : node.height = contents.height
  base : node.baseHeight = contents.base

/-- The conversions read back what they write. -/
def Encodable (tm : Tendermint) (validatorSet : ValidatorSet) : Prop :=
  ∀ message, tm.validatorSetToProto validatorSet = .ok message →
    tm.validatorSetFromProto message = .ok validatorSet

/-- What is saved consists of values that Tendermint's conversions read back. -/
def Storable (tm : Tendermint) : Save → Prop
  | .validators _ validatorSet => Encodable tm validatorSet
  | .state state =>
    Encodable tm state.nextValidators ∧ Encodable tm state.validators ∧
      Encodable tm state.lastValidators ∧
      tm.blockIDFromProto (tm.blockIDToProto state.lastBlockID) = .ok state.lastBlockID
  | _ => True

/-- The values that can be converted at all. -/
def accepted (tm : Tendermint) (save : Save) : Bool := (saveWrites tm save).isOk

/-- The commands for which the store refines the maps: batches of such values, and
calls of `PruneBlocks` in which no access fails. -/
def Admissible (tm : Tendermint) : Command → Prop
  | ⟨.commit saves, _⟩ => ∀ save ∈ saves, Storable tm save
  | ⟨.pruneBlocks _, answer⟩ => answer = .ok
  | _ => True

theorem fromProto_toProto_restored {tm : Tendermint} {state : State}
    (hstate : Storable tm (.state state)) {message : Pb.State}
    (hmessage : state.toProto tm = .ok message) :
    State.fromProto tm message = .ok (restored state) := by
  obtain ⟨hnext', hvalidators', hlast', hblockID⟩ := hstate
  obtain ⟨next, validators, last, hnext, hvalidators, hlast, rfl⟩ := State.toProto_eq_ok.1 hmessage
  have hrestored : restored state =
      State.ofMessage (state.message tm next validators last) state.version
        state.lastBlockID state.nextValidators state.validators
        state.lastValidators := by
    simp [restored, State.ofMessage, State.message, Pb.State.storeHeight]
  exact State.fromProto_eq_ok.2
    ⟨state.version, state.lastBlockID, state.nextValidators, state.validators,
      state.lastValidators, rfl, hblockID, hnext' next hnext,
      hvalidators' validators hvalidators, hlast' last hlast, hrestored⟩

section

variable {tm : Tendermint} {db : Db} {contents : Contents}

namespace Represents

variable (hdb : Represents tm db contents)

include hdb

theorem validators_of_eq {db' : Db} {height : UInt64}
    (hrecord : db' (.validators height) = db (.validators height)) :
    Reads (db' (.validators height)) (loadValidators tm db' height)
      (contents.validators height) := by
  have hload : loadValidators tm db' height = loadValidators tm db height := by
    rw [loadValidators, loadValidators, hrecord]
  rw [hrecord, hload]
  exact hdb.validators height

theorem state_of_eq {db' : Db}
    (hrecord : db' .state = db .state) :
    Reads (db' .state) (loadState tm db') (contents.state.map restored) := by
  have hload : loadState tm db' = loadState tm db := by
    rw [loadState, loadState, hrecord]
  rw [hrecord, hload]
  exact hdb.state

/-- A batch that touches no block record. -/
theorem progress {contents' : Contents} {batch : WriteBatch}
    (hbatch : IsProgress batch) (hblocks : contents'.blocks = contents.blocks)
    (hresponses : ∀ height, db.commit batch (.responses height) = contents'.responses height)
    (hvalidators : ∀ height, Reads (db.commit batch (.validators height)) (loadValidators tm
      (db.commit batch) height) (contents'.validators height))
    (hstate : Reads (db.commit batch .state) (loadState tm (db.commit batch)) (contents'.state.map
      restored)) : Represents tm (db.commit batch) contents' := by
  have hrecords := blockRecords_of_isProgress db hbatch
  have hsame := sameBlocks_of_records hrecords
  have hindex (height : UInt64) : db.commit batch (.index height) = db (.index height) :=
    congrFun (congrArg BlockRecords.index hrecords) height
  constructor
  · rw [hrecords]
    exact hdb.indexed
  · intro height
    rw [hindex, hsame.block, hblocks]
    exact hdb.block height
  · intro height
    rw [hindex, hsame.commit, hblocks]
    exact hdb.commit height
  · exact hresponses
  · exact hvalidators
  · exact hstate

theorem saveBlock (hhash : HashesHeight tm) (block : Block)
    (commit : Commit) :
    Represents tm (db.commit (Store.saveBlock tm block commit))
      (contents.save (.block block commit)) := by
  have hsaved := onlySaved_saveBlock block commit hhash hdb.indexed
  have hframe {key : Key} (hblock : ∀ hash, key ≠ .block hash)
      (hcommit : ∀ hash, key ≠ .commit hash)
      (hindex : key ≠ .index block.header.height) :
      db.commit (Store.saveBlock tm block commit) key = db key :=
    saveBlock_frame tm db block commit (hblock _) (hcommit _) hindex
  constructor
  · exact indexed_saveBlock block commit hdb.indexed
  · intro height
    by_cases hheight : height = block.header.height
    · subst hheight
      simp only [Contents.save, Function.update_self]
      exact hsaved.savedBlock
    · simp only [Contents.save, Function.update_of_ne hheight]
      rw [hsaved.otherBlock height hheight, hframe (by simp) (by simp) (by simpa using hheight)]
      exact hdb.block height
  · intro height
    by_cases hheight : height = block.header.height
    · subst hheight
      simp only [Contents.save, Function.update_self]
      exact hsaved.savedCommit
    · simp only [Contents.save, Function.update_of_ne hheight]
      rw [hsaved.otherCommit height hheight, hframe (by simp) (by simp) (by simpa using hheight)]
      exact hdb.commit height
  · intro height
    exact (hframe (by simp) (by simp) (by simp)).trans (hdb.responses height)
  · intro height
    exact hdb.validators_of_eq (hframe (by simp) (by simp) (by simp))
  · exact hdb.state_of_eq (hframe (by simp) (by simp) (by simp))

theorem saveResponses (height : UInt64)
    (responses : ABCIResponses) :
    Represents tm (db.commit [saveBlockResponses height responses])
      (contents.save (.responses height responses)) := by
  have hframe {key : Key} (hkey : key ≠ .responses height) :
      db.commit [saveBlockResponses height responses] key = db key :=
    Db.apply_of_ne db hkey
  apply hdb.progress
  · simp [IsProgress, saveBlockResponses]
  · rfl
  · intro other
    by_cases hother : other = height
    · subst hother
      simp only [Contents.save, Function.update_self]
      exact Db.apply_self db (.responses other) (some responses)
    · simp only [Contents.save, Function.update_of_ne hother]
      rw [hframe (by simpa using hother)]
      exact hdb.responses other
  · intro other
    exact hdb.validators_of_eq (hframe (by simp))
  · exact hdb.state_of_eq (hframe (by simp))

theorem saveValidators (height : UInt64)
    {validatorSet message : ValidatorSet}
    (hfrom : tm.validatorSetFromProto message = .ok validatorSet) :
    Represents tm (db.commit [⟨.validators height, some message⟩])
      (contents.save (.validators height validatorSet)) := by
  have hframe {key : Key} (hkey : key ≠ .validators height) :
      db.commit [⟨.validators height, some message⟩] key = db key :=
    Db.apply_of_ne db hkey
  apply hdb.progress
  · simp [IsProgress]
  · rfl
  · intro other
    exact (hframe (by simp)).trans (hdb.responses other)
  · intro other
    by_cases hother : other = height
    · subst hother
      simp only [Contents.save, Function.update_self]
      have hrecord : db.commit [⟨.validators other, some message⟩]
          (.validators other) = some message :=
        Db.apply_self db (.validators other) (some message)
      change loadValidators _ _ _ = _
      rw [loadValidators, hrecord]
      exact congrArg Result.ofExcept hfrom
    · simp only [Contents.save, Function.update_of_ne hother]
      exact hdb.validators_of_eq (hframe (by simpa using hother))
  · exact hdb.state_of_eq (hframe (by simp))

theorem saveState {state : State} {message : Pb.State}
    (hfrom : State.fromProto tm message = .ok (restored state)) :
    Represents tm (db.commit [⟨.state, some message⟩]) (contents.save (.state state)) := by
  have hframe {key : Key} (hkey : key ≠ .state) : db.commit [⟨.state, some message⟩] key = db key :=
    Db.apply_of_ne db hkey
  have hrecord : db.commit [⟨.state, some message⟩] .state = some message :=
    Db.apply_self db .state (some message)
  apply hdb.progress
  · simp [IsProgress]
  · rfl
  · intro other
    exact (hframe (by simp)).trans (hdb.responses other)
  · intro other
    exact hdb.validators_of_eq (hframe (by simp))
  · exact loadState_eq_ok.2 ⟨message, hrecord, hfrom⟩

theorem save (hhash : HashesHeight tm) {save : Save}
    (hsave : Storable tm save) {writes : WriteBatch} (hwrites : saveWrites tm save = .ok writes) :
    Represents tm (db.commit writes) (contents.save save) := by
  cases save with
  | block block commit =>
    obtain rfl : Store.saveBlock tm block commit = writes := Except.ok.inj hwrites
    exact hdb.saveBlock hhash block commit
  | responses height responses =>
    obtain rfl : [saveBlockResponses height responses] = writes := Except.ok.inj hwrites
    exact hdb.saveResponses height responses
  | validators height validatorSet =>
    obtain ⟨write, hwrite, hwrites⟩ := except_bind_eq_ok.1 hwrites
    obtain ⟨message, hmessage, rfl⟩ := saveValidators_eq_ok.1 hwrite
    obtain rfl := Except.ok.inj hwrites
    exact hdb.saveValidators height (hsave message hmessage)
  | state state =>
    obtain ⟨write, hwrite, hwrites⟩ := except_bind_eq_ok.1 hwrites
    obtain ⟨message, hmessage, rfl⟩ := updateState_eq_ok.1 hwrite
    obtain rfl := Except.ok.inj hwrites
    exact hdb.saveState (fromProto_toProto_restored hsave hmessage)

theorem saves (hhash : HashesHeight tm) {saves : List Save}
    (hsaves : ∀ save ∈ saves, Storable tm save) {writes : WriteBatch}
    (hwrites : writesOf tm saves = .ok writes) :
    Represents tm (db.commit writes) (saves.foldl Contents.save contents) := by
  induction saves generalizing db contents writes with
  | nil =>
    obtain rfl : [] = writes := Except.ok.inj hwrites
    exact hdb
  | cons save saves ih =>
    rw [List.forall_mem_cons] at hsaves
    obtain ⟨first, hfirst, hwrites⟩ := except_bind_eq_ok.1 hwrites
    obtain ⟨rest, hrest, hwrites⟩ := except_bind_eq_ok.1 hwrites
    obtain rfl : first ++ rest = writes := Except.ok.inj hwrites
    rw [Db.commit_append]
    exact ih (hdb.save hhash hsaves.1 hfirst) hsaves.2 hrest

theorem hasIndex (height : UInt64) :
    Store.hasIndex db height = (contents.blocks height).isSome := by
  have hblock := hdb.block height
  cases hpair : contents.blocks height with
  | none =>
    rw [hpair] at hblock
    have hnone : db (.index height) = none := hblock
    simp [Store.hasIndex, loadHashFromIndex, hnone]
  | some pair =>
    rw [hpair] at hblock
    have hload : loadBlock db height = .ok pair.1.withoutEvidence := hblock
    obtain ⟨hash, hhash, -⟩ := Result.bind_eq_ok.1 hload
    rw [Option.isSome_some, hasIndex_eq_true]
    exact ⟨hash, wrapErr_eq_ok.1 hhash⟩

theorem indexedFrom_eq (bound : UInt64) :
    indexedFrom db contents.base (bound.toNat - contents.base.toNat) = contents.indexed bound := by
  apply List.filter_congr
  intro height _
  exact hdb.hasIndex height

/-- Deleting the records of the heights prunes the maps. -/
theorem prune (hhash : HashesHeight tm) (bound : UInt64) :
    Represents tm (db.pruneAll (contents.indexed bound)) (contents.prune bound) := by
  have hindex (height : UInt64) (hmem : height ∈ contents.indexed bound) :
      Store.hasIndex db height = true := by
    rw [hdb.hasIndex]
    exact (List.mem_filter.1 hmem).2
  have hresult {height : UInt64} {key : Key} (hkey : IsResult height key) :=
    Db.pruneAll_result hkey (hindex height)
  constructor
  · exact hdb.indexed.shrinks (shrinks_pruneAll db _)
  · intro height
    by_cases hmem : height ∈ contents.indexed bound
    · simp only [Contents.prune, if_pos hmem]
      exact index_pruneAll_of_mem hdb.indexed hmem
    · simp only [Contents.prune, if_neg hmem]
      rw [Db.pruneAll_index hmem, (sameAt_pruneAll hhash hdb.indexed hmem).block]
      exact hdb.block height
  · intro height
    by_cases hmem : height ∈ contents.indexed bound
    · simp only [Contents.prune, if_pos hmem]
      exact index_pruneAll_of_mem hdb.indexed hmem
    · simp only [Contents.prune, if_neg hmem]
      rw [Db.pruneAll_index hmem, (sameAt_pruneAll hhash hdb.indexed hmem).commit]
      exact hdb.commit height
  · intro height
    rw [hresult (.inl rfl), hdb.responses]
    rfl
  · intro height
    have hvalidators : IsResult height (.validators height) := .inr rfl
    have hrecord := hresult hvalidators
    by_cases hmem : height ∈ contents.indexed bound
    · rw [if_pos hmem] at hrecord
      simp only [Contents.prune, if_pos hmem]
      exact hrecord
    · rw [if_neg hmem] at hrecord
      simp only [Contents.prune, if_neg hmem]
      exact hdb.validators_of_eq hrecord
  · exact hdb.state_of_eq Db.pruneAll_state

theorem moved (height base : UInt64) :
    Represents tm db { contents with height := height, base := base } where
  indexed := hdb.indexed
  block := hdb.block
  commit := hdb.commit
  responses := hdb.responses
  validators := hdb.validators
  state := hdb.state

end Represents

end

/-! ## The simulation -/

variable {heightInt : Int64}

section

variable {α : Type} {env : Env α} {node : Node α} {contents : Contents}

theorem exec_query {β : Type} (view : Db → Result Error β) (reply : β → Reply) (answer : Answer) :
    (do let value ← query id view return reply value : M α Reply).exec (fun _ => answer) node =
      (node, match answer with
        | .ok => view node.db >>= fun value => .ok (reply value)
        | _ => .err .fault) := by
  cases answer with
  | failBefore | failAfter => rfl
  | ok =>
    change ((Proc.ofResult ((view node.db).mapErr id) >>= fun value =>
      (pure (reply value) : M α Reply)).exec (fun _ => .ok) node) = _
    cases view node.db <;> rfl

theorem reply_of_reads {β γ : Type} {record : Option γ} {loaded : Result Error β} {value : Option β}
    (hreads : Reads record loaded value) (hmissing : record = none → ∃ error, loaded = .err error)
    (reply : β → Reply) :
    Reply.ofResult (loaded >>= fun value => .ok (reply value)) = found reply value := by
  cases value with
  | some value =>
    have hloaded : loaded = .ok value := hreads
    rw [hloaded]
    rfl
  | none =>
    obtain ⟨error, herror⟩ := hmissing hreads
    rw [herror]
    rfl

/-- The two stores answer a command alike and refinement survives it. -/
def Simulated (env : Env α) (node : Node α) (contents : Contents)
    (command : Command) : Prop :=
  Refines env ((defaultStore env).step node command).1
      ((abstractStore (accepted env.tm)).step contents command).1 ∧
    ((defaultStore env).step node command).2 =
      ((abstractStore (accepted env.tm)).step contents command).2

def answering (answer : Answer) : Proc.Rules (Node α) Answer where
  allowed _ given := given = answer
  crash _ := True

theorem simulated_of_wp {operation : Operation} {answer : Answer}
    (hanswer : operation.Accesses = false ∨ answer = .ok) {outcome : Contents × Reply}
    (houtcome : contents.perform (accepted env.tm) operation = outcome)
    (hperform : (perform env operation).wp (answering answer) (fun result later =>
        Refines env later outcome.1 ∧ Reply.ofResult result = outcome.2) node) :
    Simulated env node contents ⟨operation, answer⟩ := by
  have habstract : (abstractStore (accepted env.tm)).step contents
      ⟨operation, answer⟩ = outcome := by
    rw [← houtcome]
    rcases hanswer with haccesses | rfl
    · simp [abstractStore, haccesses]
    · simp [abstractStore]
  rw [Simulated, habstract]
  exact Proc.exec_of_wp hperform (fun _ => answer) fun _ _ => rfl

/-- A load leaves the store as it is, and fails when its access does. -/
theorem simulated_query {β γ : Type} {operation : Operation} {answer : Answer}
    {view : Db → Result Error β} {reply : β → Reply} {value : Option β} {record : Option γ}
    (hrefines : Refines env node contents)
    (hperform : perform env operation = do
      let value ← query id view
      return reply value)
    (hcontents : contents.perform (accepted env.tm) operation = (contents, found reply value))
    (haccesses : operation.Accesses = true) (hreads : Reads record (view node.db) value)
    (hmissing : record = none → ∃ error, view node.db = .err error) :
    Simulated env node contents ⟨operation, answer⟩ := by
  have hreply := reply_of_reads hreads hmissing reply
  simp only [Simulated, defaultStore, abstractStore, hperform, exec_query, hcontents, haccesses,
    ite_self]
  cases answer with
  | ok => exact ⟨hrefines, hreply⟩
  | failBefore | failAfter => exact ⟨hrefines, rfl⟩

theorem writesOf_isOk (tm : Tendermint) (saves : List Save) :
    (writesOf tm saves).isOk = saves.all (accepted tm) := by
  induction saves with
  | nil => rfl
  | cons save saves ih =>
    rw [List.all_cons, accepted, ← ih, writesOf]
    cases saveWrites tm save with
    | error error => rfl
    | ok first => cases writesOf tm saves <;> rfl

theorem foldl_save_heights (contents : Contents) (saves : List Save) :
    (saves.foldl Contents.save contents).height = contents.height ∧
      (saves.foldl Contents.save contents).base = contents.base := by
  induction saves generalizing contents with
  | nil => exact ⟨rfl, rfl⟩
  | cons save saves ih =>
    have hsave : (contents.save save).height = contents.height ∧
        (contents.save save).base = contents.base := by
      cases save <;> exact ⟨rfl, rfl⟩
    have hrest := ih (contents.save save)
    exact ⟨hrest.1.trans hsave.1, hrest.2.trans hsave.2⟩

theorem simulated_commit (hhash : HashesHeight env.tm) (hrefines : Refines env node contents)
    {saves : List Save} (hsaves : ∀ save ∈ saves, Storable env.tm save) (answer : Answer) :
    Simulated env node contents ⟨.commit saves, answer⟩ := by
  have haccepted := writesOf_isOk env.tm saves
  cases hwrites : writesOf env.tm saves with
  | error error =>
    rw [hwrites] at haccepted
    have hrejected : saves.all (accepted env.tm) = false := haccepted.symm
    have hexec : (perform env (.commit saves)).exec (fun _ => answer) node =
        (node, .err error) := by
      rw [perform, hwrites]
      rfl
    simp only [Simulated, defaultStore, abstractStore, hexec, Contents.perform, hrejected]
    cases answer <;> exact ⟨hrefines, rfl⟩
  | ok batch =>
    rw [hwrites] at haccepted
    have hall : saves.all (accepted env.tm) = true := haccepted.symm
    have hsaved : Refines env { node with db := node.db.commit batch }
        (saves.foldl Contents.save contents) := by
      have hkept := foldl_save_heights contents saves
      exact ⟨hrefines.records.saves hhash hsaves hwrites,
        hrefines.height.trans hkept.1.symm, hrefines.base.trans hkept.2.symm⟩
    simp only [Simulated, defaultStore, abstractStore, perform, hwrites, Contents.perform, hall]
    cases answer with
    | ok | failAfter => exact ⟨hsaved, rfl⟩
    | failBefore => exact ⟨hrefines, rfl⟩

/-- A call of `PruneBlocks` in which no access fails succeeds within the stored heights and
is refused otherwise. -/
theorem step_pruneBlocks (env : Env α) (node : Node α) (heightInt : Int64) :
    let outcome := (defaultStore env).step node ⟨.pruneBlocks heightInt, .ok⟩
    (Prunable heightInt node.height node.baseHeight ∧ ∃ count, outcome.2 = .pruned count ∧
      Removed node heightInt.toUInt64 True count outcome.1) ∨
    (¬ Prunable heightInt node.height node.baseHeight ∧ outcome = (node, .failed)) := by
  have hread {β γ : Type} (view : Node α → γ) (rest : γ → M α β) :
      (Proc.read view >>= rest).execFine .ok node = (rest (view node)).execFine .ok node := rfl
  have hstep {later : Node α} {result : Result Error UInt64}
      (hexec : (storePruneBlocks heightInt).execFine .ok node = (later, result)) :
      (defaultStore env).step node ⟨.pruneBlocks heightInt, .ok⟩ =
        (later, .ofResult (result >>= fun count => .ok (.pruned count))) := by
    change (((perform env (.pruneBlocks heightInt)).execFine .ok node).1,
      Reply.ofResult ((perform env (.pruneBlocks heightInt)).execFine .ok node).2) = _
    rw [perform, Proc.execFine_bind, hexec]
    cases result <;> rfl
  by_cases hrange : Prunable heightInt node.height node.baseHeight
  · obtain ⟨later, count, hexec⟩ : ∃ later count,
        (storePruneBlocks heightInt).execFine .ok node = (later, .ok count) := by
      rw [storePruneBlocks, if_neg (Int64.not_le.2 hrange.1), storeHeight, hread,
        if_neg (UInt64.not_lt.2 hrange.2.1), storeBase, hread,
        if_neg (UInt64.not_lt.2 hrange.2.2)]
      exact returns_pruneRest node
    have hremoves := @wp_storePruneBlocks α (answering .ok) True node heightInt _
      (fun _ _ _ hallowed => hallowed) (fun _ => le_rfl) fun _ _ => trivial
    have hremoved := Proc.exec_of_wp hremoves (fun _ => .ok) fun _ _ => rfl
    rw [← Proc.execFine, hexec] at hremoved
    exact .inl ⟨hrange, count, by rw [hstep hexec]; rfl, hstep hexec ▸ hremoved.2⟩
  · obtain ⟨error, hexec⟩ : ∃ error,
        (storePruneBlocks heightInt).execFine .ok node = (node, .err error) := by
      rw [storePruneBlocks]
      split
      case isTrue => exact ⟨_, rfl⟩
      case isFalse hpos =>
        rw [storeHeight, hread]
        split
        case isTrue => exact ⟨_, rfl⟩
        case isFalse hheight =>
          rw [storeBase, hread]
          split
          case isTrue => exact ⟨_, rfl⟩
          case isFalse hbase =>
            exact absurd ⟨Int64.not_le.1 hpos, UInt64.not_lt.1 hheight,
              UInt64.not_lt.1 hbase⟩ hrange
    exact .inr ⟨hrange, hstep hexec⟩

theorem simulated_pruneBlocks (hhash : HashesHeight env.tm) (hrefines : Refines env node contents)
    (heightInt : Int64) : Simulated env node contents ⟨.pruneBlocks heightInt, .ok⟩ := by
  have habstract : (abstractStore (accepted env.tm)).step contents
      ⟨.pruneBlocks heightInt, .ok⟩ =
        if Prunable heightInt node.height node.baseHeight then
          (contents.prune heightInt.toUInt64,
            .pruned (UInt64.ofNat (contents.indexed heightInt.toUInt64).length))
        else (contents, .failed) := by
    rw [hrefines.height, hrefines.base]
    rfl
  rw [Simulated, habstract]
  rcases step_pruneBlocks env node heightInt with
    ⟨hrange, count, hreply, -, -, taken, -, htaken, hcount, hlater⟩ | ⟨hrange, hrefused⟩
  · have hall : taken = contents.indexed heightInt.toUInt64 := by
      rw [htaken trivial, hrefines.base, hrefines.records.indexedFrom_eq]
    rw [if_pos hrange, hlater, hreply, hcount, hall]
    exact ⟨⟨hrefines.records.prune hhash _, hrefines.height, rfl⟩, rfl⟩
  · rw [if_neg hrange, hrefused]
    exact ⟨hrefines, rfl⟩

theorem simulated_setHeight (hrefines : Refines env node contents) (height : UInt64)
    (answer : Answer) : Simulated env node contents ⟨.setHeight height, answer⟩ := by
  apply simulated_of_wp (.inl rfl) rfl
  apply Proc.wp_bind_of (wp_setHeight_max trivial)
  rintro _ later ⟨rfl, rfl⟩
  refine ⟨⟨hrefines.records.moved _ _, ?_, hrefines.base⟩, rfl⟩
  exact congrArg (max · height) hrefines.height

theorem simulated_loadState (hrefines : Refines env node contents) :
    Simulated env node contents ⟨.loadState, .ok⟩ := by
  have hstate := hrefines.records.state
  cases hcontents : contents.state with
  | none =>
    rw [hcontents] at hstate
    have hload : loadState env.tm node.db = .err .errNoStateFound := by
      rw [loadState, show node.db .state = none from hstate]
    have hfailed : contents.perform (accepted env.tm) .loadState = (contents, .failed) := by
      rw [Contents.perform, hcontents]
    apply simulated_of_wp (.inr rfl) hfailed
    rw [perform, loadStoreState, Proc.wp_bind, Proc.wp_bind, Proc.wp_op]
    refine ⟨trivial, fun answer hok => ?_⟩
    obtain rfl : answer = .ok := hok
    dsimp only
    rw [hload]
    exact ⟨⟨hrefines.records, hrefines.height, hrefines.base⟩, rfl⟩
  | some state =>
    rw [hcontents] at hstate
    have hload : loadState env.tm node.db = .ok (restored state) := hstate
    have hloaded : contents.perform (accepted env.tm) .loadState = ({ contents with
            height := (restored state).lastStoreHeight
            base := state.baseHeight }, .state (restored state)) := by
      rw [Contents.perform, hcontents]
    apply simulated_of_wp (.inr rfl) hloaded
    rw [perform, loadStoreState, Proc.wp_bind, Proc.wp_bind, Proc.wp_op]
    refine ⟨trivial, fun answer hok => ?_⟩
    obtain rfl : answer = .ok := hok
    dsimp only
    rw [hload, Proc.andThen_ok]
    apply wp_write_bind trivial
    apply wp_write_bind trivial
    exact ⟨⟨hrefines.records.moved _ _, rfl, rfl⟩, rfl⟩

theorem simulated (hhash : HashesHeight env.tm) (hrefines : Refines env node contents)
    {command : Command} (hcommand : Admissible env.tm command) :
    Simulated env node contents command := by
  obtain ⟨operation, answer⟩ := command
  cases operation with
  | commit saves => exact simulated_commit hhash hrefines hcommand answer
  | pruneBlocks heightInt =>
    obtain rfl : answer = .ok := hcommand
    exact simulated_pruneBlocks hhash hrefines heightInt
  | setHeight height => exact simulated_setHeight hrefines height answer
  | loadState =>
    have hfailed : Refines env { node with unread := false } contents :=
      ⟨hrefines.records, hrefines.height, hrefines.base⟩
    cases answer with
    | ok => exact simulated_loadState hrefines
    | failBefore | failAfter => exact ⟨hfailed, rfl⟩
  | loadBlock height =>
    apply simulated_query hrefines rfl rfl rfl (hrefines.records.block height)
    intro hnone
    simp [loadBlock, loadHashFromIndex, hnone, wrapErr, Result.mapErr]
  | loadCommit height =>
    apply simulated_query hrefines rfl rfl rfl (hrefines.records.commit height)
    intro hnone
    simp [loadCommit, loadHashFromIndex, hnone, wrapErr, Result.mapErr]
  | loadBlockResponses height =>
    have hrecord := hrefines.records.responses height
    have hreads : Reads (node.db (.responses height))
        (loadBlockResponses node.db height) (contents.responses height) := by
      rw [loadBlockResponses, hrecord]
      cases contents.responses height <;> rfl
    apply simulated_query hrefines rfl rfl rfl hreads
    intro hnone
    simp [loadBlockResponses, hnone]
  | loadValidators height =>
    apply simulated_query hrefines rfl rfl rfl (hrefines.records.validators height)
    intro hnone
    simp [loadValidators, hnone]
  | height =>
    apply simulated_of_wp (.inl rfl) rfl
    apply wp_read_bind trivial
    exact ⟨hrefines, congrArg _ hrefines.height⟩
  | base =>
    apply simulated_of_wp (.inl rfl) rfl
    apply wp_read_bind trivial
    exact ⟨hrefines, congrArg _ hrefines.base⟩

/-- The store simulates the maps. -/
theorem simulates (hhash : HashesHeight env.tm) :
    Simulates (defaultStore env) (abstractStore (accepted env.tm))
      (Admissible env.tm) (Refines env) where
  step _ _ _ hrefines hcommand := (simulated hhash hrefines hcommand).1
  reply _ _ _ hrefines hcommand := (simulated hhash hrefines hcommand).2

theorem refines_fresh (app : α) : Refines env (freshNode app) .empty where
  records :=
    { indexed := fun _ _ hbytes => by cases hbytes
      block := fun _ => rfl
      commit := fun _ => rfl
      responses := fun _ => rfl
      validators := fun _ => rfl
      state := rfl }
  height := rfl
  base := rfl

/-- The records of the heights are gone, and no others. -/
structure Erased (node : Node α) (bound count : UInt64) (later : Node α) :
    Prop where
  gone : ∀ height key, node.baseHeight.toNat ≤ height.toNat →
    height.toNat < bound.toNat → Owns node.db height key → later.db key = none
  kept : ∀ key, (∀ height, node.baseHeight.toNat ≤ height.toNat →
      height.toNat < bound.toNat → ¬ Owns node.db height key) →
    later.db key = node.db key
  counted : ∃ heights : List UInt64, heights.Nodup ∧
    (∀ height, height ∈ heights ↔ (node.baseHeight.toNat ≤ height.toNat ∧
      height.toNat < bound.toNat) ∧ hasIndex node.db height = true) ∧
    count = UInt64.ofNat heights.length
  base : later.baseHeight = bound

theorem Removed.erased {bound count : UInt64} {later : Node α}
    (hremoved : Removed node bound True count later) : Erased node bound count later := by
  obtain ⟨hbase, -, taken, -, htaken, rfl, rfl⟩ := hremoved
  have hall := htaken trivial
  have hrange : node.baseHeight.toNat +
      (bound.toNat - node.baseHeight.toNat) ≤ bound.toNat := by omega
  have hmem (height : UInt64) : height ∈ taken ↔
      (node.baseHeight.toNat ≤ height.toNat ∧ height.toNat < bound.toNat) ∧
        hasIndex node.db height = true := by
    rw [hall, mem_indexedFrom hrange, Nat.add_sub_cancel' hbase]
  constructor
  · intro height key hle hlt howns
    obtain ⟨hash, hhash, -⟩ := id howns
    have hheight := (hmem height).2 ⟨⟨hle, hlt⟩, hasIndex_eq_true.2 ⟨hash, hhash⟩⟩
    exact Db.pruneAll_of_owns hheight howns
  · intro key hkey
    apply Db.pruneAll_of_not_owns
    intro height hheight
    obtain ⟨⟨hle, hlt⟩, -⟩ := (hmem height).1 hheight
    exact hkey height hle hlt
  · refine ⟨taken, ?_, hmem, rfl⟩
    rw [hall]
    exact (nodup_heightsFrom hrange).filter _
  · rfl

/-- A call of `PruneBlocks` in which no access fails and that reports a number
has erased the heights that it counts. -/
theorem erased_of_pruned {count : UInt64}
    (hreply : ((defaultStore env).step node ⟨.pruneBlocks heightInt, .ok⟩).2 = .pruned count) :
    Erased node heightInt.toUInt64 count
      ((defaultStore env).step node ⟨.pruneBlocks heightInt, .ok⟩).1 := by
  rcases step_pruneBlocks env node heightInt with ⟨-, number, hnumber, hremoved⟩ | ⟨-, hrefused⟩
  · obtain rfl : number = count := Reply.pruned.inj (hnumber.symm.trans hreply)
    exact Removed.erased hremoved
  · rw [hrefused] at hreply
    cases hreply

/-- Every sequence of operations on the store gets the replies of the maps, and
every call of `PruneBlocks` that succeeds erases exactly the heights it
counts. -/
theorem store_replies_eq_maps (hhash : HashesHeight env.tm) (app : α) {commands : List Command}
    (hcommands : ∀ command ∈ commands, Admissible env.tm command) :
    (defaultStore env).replies (freshNode app) commands =
        (abstractStore (accepted env.tm)).replies .empty commands ∧
      ∀ (heightInt : Int64) (count : UInt64) (node : Node α),
        ((defaultStore env).step node ⟨.pruneBlocks heightInt, .ok⟩).2 = .pruned count →
        Erased node heightInt.toUInt64 count
          ((defaultStore env).step node ⟨.pruneBlocks heightInt, .ok⟩).1 :=
  ⟨(simulates hhash).replies_eq (refines_fresh app) hcommands, fun _ _ _ => erased_of_pruned⟩

end

namespace Reference

open Types.Reference Manager.Reference

def legacyState : State :=
  { (default : State) with
    lastBlockHeight := 2
    nextValidators := validatorSet
    validators := validatorSet
    lastValidators := validatorSet }

def twoSaved : List Command := [⟨.commit [.block poolFirst (commitFor poolFirst.header)], .ok⟩,
    ⟨.commit [.block poolSecond (commitFor poolSecond.header)], .ok⟩,
    ⟨.setHeight 2, .ok⟩]

/-- A call of `PruneBlocks` then fails to read the index of the first. -/
def skipped : Node (List Tx) × Result Error UInt64 :=
  (storePruneBlocks 2).exec (fun n => if n = 3 then .failBefore else .ok)
    ((defaultStore env).after (freshNode []) twoSaved)

def prunesFirst : List Command := [⟨.commit [.block poolFirst (commitFor poolFirst.header),
      .responses 1 ⟨⟨[]⟩, [], ⟨[]⟩⟩, .validators 1 validatorSet], .ok⟩,
    ⟨.commit [.block poolSecond (commitFor poolSecond.header),
      .responses 2 ⟨⟨[]⟩, [], ⟨[]⟩⟩, .validators 2 validatorSet], .failAfter⟩,
    ⟨.setHeight 2, .ok⟩, ⟨.loadBlock 1, .ok⟩, ⟨.pruneBlocks 2, .ok⟩,
    ⟨.loadBlock 1, .ok⟩, ⟨.loadValidators 1, .ok⟩, ⟨.loadCommit 2, .ok⟩,
    ⟨.loadValidators 2, .ok⟩, ⟨.base, .ok⟩]

theorem encodable_validatorSet : Encodable env.tm validatorSet := by
  intro message hmessage
  obtain rfl : validatorSet = message := Except.ok.inj hmessage
  rfl

theorem admissible_prunesFirst : ∀ command ∈ prunesFirst, Admissible env.tm command := by
  simp [prunesFirst, Admissible, Storable, encodable_validatorSet]

end Reference

open Types.Reference Manager.Reference in
/-- A state that looks like one from an old file comes back changed, and a height
whose index cannot be read stays behind in a call of `PruneBlocks` that moves
the base past it and returns. -/
theorem saved_state_changed_and_block_left : (defaultStore env).replies (freshNode [])
        [⟨.commit [.state Reference.legacyState], .ok⟩, ⟨.loadState, .ok⟩] =
        [.done, .state { Reference.legacyState with lastStoreHeight := 2 }] ∧
      Reference.skipped.2 = .ok 0 ∧ Reference.skipped.1.baseHeight = 2 ∧
      loadBlock Reference.skipped.1.db 1 = .ok poolFirst := by
  decide +kernel

open Types.Reference Manager.Reference in
theorem store_replies_eq_maps_reference :
    (∀ command ∈ Reference.prunesFirst, Admissible env.tm command) ∧
      (defaultStore env).replies (freshNode []) Reference.prunesFirst =
        (abstractStore (accepted env.tm)).replies .empty Reference.prunesFirst ∧
      (abstractStore (accepted env.tm)).replies .empty Reference.prunesFirst =
        [.done, .failed, .done, .block poolFirst, .pruned 1, .failed, .failed,
          .commit (commitFor poolSecond.header), .validators validatorSet,
          .height 2] ∧
      Erased ((defaultStore env).after (freshNode []) Reference.twoSaved) (2 : Int64).toUInt64 1
        ((defaultStore env).step ((defaultStore env).after (freshNode []) Reference.twoSaved)
          ⟨.pruneBlocks 2, .ok⟩).1 := by
  have hrefines := store_replies_eq_maps hashesHeight [] Reference.admissible_prunesFirst
  refine ⟨Reference.admissible_prunesFirst, hrefines.1, by decide +kernel, ?_⟩
  exact hrefines.2 2 1 _ (by decide +kernel)

end Dymint.Storage
