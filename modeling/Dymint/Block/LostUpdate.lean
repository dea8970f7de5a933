import Dymint.Block.Reference
import Dymint.Block.Retriever
import Dymint.Block.Steps
import Dymint.Core.Sections

/-!
# A new block and a new state index at once

`updateStateIndex` runs in the goroutine of `RetriveLoop`, while the gossip callback or
`produceBlock` may be within `applyBlock`.  Both change single fields of the state in
memory, and both copy the whole state and write the copy back later on, so either may
write back a state without what the other has recorded meanwhile.

`applyBlock` and `updateStateIndex` are cut into sections where one of them reads or
writes the state in memory or the stored one.
-/

namespace Dymint.LostUpdate

open Procedure Dymint.Types Store Manager Sections
open Runs

/-! ## What the two calls record -/

/-- The fields of the state that `updateStateIndex` and `applyBlock` are to set. -/
structure Progress where
  slStateIndex : UInt64
  lastBlockHeight : Int64
  lastStoreHeight : UInt64
  appHash : Bytes
  deriving DecidableEq

def progress (state : State) : Progress where
  slStateIndex := state.slStateIndex
  lastBlockHeight := state.lastBlockHeight
  lastStoreHeight := state.lastStoreHeight
  appHash := state.appHash.bytes

def recordProgress (message : Pb.State) : Progress where
  slStateIndex := message.slStateIndex
  lastBlockHeight := message.lastBlockHeight
  lastStoreHeight := message.lastStoreHeight
  appHash := message.appHash

variable {state : State}

theorem recordProgress_of_toProto {tm : Tendermint} {message : Pb.State}
    (hmessage : state.toProto tm = .ok message) :
    recordProgress message = progress state := by
  obtain ⟨_, _, _, _, _, _, rfl⟩ := State.toProto_eq_ok.1 hmessage
  rfl

structure Image where
  memory : Progress
  stored : Option Progress
  deriving DecidableEq

def image {α : Type} (node : Node α) : Image where
  memory := progress node.lastState
  stored := (node.db .state).map recordProgress

/-- What `applyBlock` has done: the block is not the next one, or the application had
committed it before, or it was applied.  The hash is the one that it has set. -/
inductive Outcome where
  | skipped
  | aligned (appHash : Hash)
  | applied (appHash : Hash)
  deriving DecidableEq

/-- The fields are as `applyBlock` has set them. -/
def Outcome.Recorded (block : Block) : Outcome → Progress → Prop
  | .skipped, _ => True
  | .aligned appHash, fields =>
    fields.lastStoreHeight = block.header.height ∧ fields.appHash = appHash.bytes
  | .applied appHash, fields =>
    fields.lastBlockHeight = block.header.height.toInt64 ∧
      fields.lastStoreHeight = block.header.height ∧ fields.appHash = appHash.bytes

structure Carries (block : Block) (index : UInt64) (outcome : Outcome) (now : Image) :
    Prop where
  memoryIndex : now.memory.slStateIndex = index
  memory : outcome.Recorded block now.memory
  stored : ∃ fields, now.stored = some fields ∧ fields.slStateIndex = index ∧
    outcome.Recorded block fields

/-! ## The sections -/

/-- The points of `applyBlock`.  A state in a point is the copy that the call holds. -/
inductive ApplyPoint where
  | compare
  | alignHash (appHash : Hash)
  | alignHeight (appHash : Hash)
  | alignRest (appHash : Hash)
  | alignCopy (appHash : Hash)
  | alignPersist (appHash : Hash) (state : State)
  | save
  | copy (responses : ABCIResponses)
  | record (responses : ABCIResponses) (newState : State)
  | persist (newState : State)
  | assign (newState : State)
  | setHeight (outcome : Outcome)
  | returned (outcome : Outcome)
  deriving DecidableEq

/-- The points of `updateStateIndex`. -/
inductive UpdatePoint where
  | setIndex
  | read
  | write (lastState : State)
  | updated
  deriving DecidableEq

inductive Side where
  | apply
  | update
  deriving DecidableEq

abbrev Point : Side → Type
  | .apply => ApplyPoint
  | .update => UpdatePoint

section

variable {α : Type} (env : Env α) (block : Block) (commit : Commit) (index : UInt64)

def applySection : ApplyPoint → M α ApplyPoint
  | .compare => do
      let height ← storeHeight
      if block.header.height ≠ height + 1 then
        return .returned .skipped
      else
        let proxyAppInfo ← getAppInfo (.wrap "failed to get app info")
        if proxyAppInfo.lastBlockHeight.toUInt64 ≠ block.header.height then
          return .save
        else
          match FixedBytes.ofSlice? 32 proxyAppInfo.lastBlockAppHash with
          | none => Proc.abort
          | some appHash => return .alignHash appHash
  | .alignHash appHash => do
      modifyLastState fun state => state.setAppHash appHash
      return .alignHeight appHash
  | .alignHeight appHash => do
      modifyLastState fun state => state.setLastStoreHeight block.header.height
      return .alignRest appHash
  | .alignRest appHash => do
      modifyLastState fun state => state.setLastValidators state.validators
      let responses ← query (.wrap "failed to load block responses")
        (loadBlockResponses · block.header.height)
      modifyLastState fun state => state.setLastResultsHash
        (state.lastResultsHash.copy (env.tm.resultsHash responses.deliverTxs).bytes)
      return .alignCopy appHash
  | .alignCopy appHash => do
      let state ← getLastState
      return .alignPersist appHash state
  | .alignPersist appHash state => do
      updateStoreState env (.wrap "failed to update state") state
      return .setHeight (.aligned appHash)
  | .save => do
      commitBatch (.wrap "failed to commit db batch") (saveBlock env.tm block commit)
      let responses ← executeBlock env block commit
      return .copy responses
  | .copy responses => do
      let lastState ← getLastState
      return .record responses (Executor.updateState env.tm lastState block)
  | .record responses newState => do
      persistExecution env block responses newState
      let (newState, retainHeight) ← commitBlock env newState block responses
      pruneOnRequest retainHeight
      let lastState ← getLastState
      let base ← storeBase
      return .persist { newState with
        lastValidators := lastState.validators
        lastStoreHeight := block.header.height
        baseHeight := base }
  | .persist newState => do
      updateStoreState env id newState
      return .assign newState
  | .assign newState => do
      modifyLastState fun _ => newState
      return .setHeight (.applied newState.appHash)
  | .setHeight outcome => do
      Manager.setHeight block.header.height
      return .returned outcome
  | .returned outcome => return .returned outcome

def updateSection : UpdatePoint → M α UpdatePoint
  | .setIndex => do
      modifyLastState fun state => state.setSLStateIndex index
      return .read
  | .read => do
      let lastState ← getLastState
      return .write lastState
  | .write lastState => do
      updateStoreState env id lastState
      return .updated
  | .updated => return .updated

def program : Program (Node α) Answer Error Point where
  body
    | .apply => applySection env block commit
    | .update => updateSection env index

/-- Both calls begin. -/
def start : (side : Side) → Point side
  | .apply => .compare
  | .update => .setIndex

abbrev calls (node : Node α) : Lts (Config (Node α) Answer Error Point) (Side × Answer) :=
  (program env block commit index).lts node start

theorem whole_apply_succ (sections : ℕ) (point : ApplyPoint) :
    (program env block commit index).whole .apply (sections + 1) point =
      applySection env block commit point >>=
        (program env block commit index).whole .apply sections := rfl

theorem whole_update_succ (sections : ℕ) (point : UpdatePoint) :
    (program env block commit index).whole .update (sections + 1) point =
      updateSection env index point >>=
        (program env block commit index).whole .update sections := rfl

theorem whole_returned (sections : ℕ) (outcome : Outcome) :
    (program env block commit index).whole .apply sections
      (ApplyPoint.returned outcome) = pure () := by
  induction sections with
  | zero => rfl
  | succ sections ih => exact ih

theorem whole_updated (sections : ℕ) :
    (program env block commit index).whole .update sections UpdatePoint.updated = pure () := by
  induction sections with
  | zero => rfl
  | succ sections ih => exact ih

theorem whole_alignHash (appHash : Hash) :
    (program env block commit index).whole .apply 6 (ApplyPoint.alignHash appHash) = (do
        modifyLastState fun state => state.setAppHash appHash
        modifyLastState fun state => state.setLastStoreHeight block.header.height
        modifyLastState fun state => state.setLastValidators state.validators
        let responses ← query (.wrap "failed to load block responses")
          (loadBlockResponses · block.header.height)
        modifyLastState fun state => state.setLastResultsHash (state.lastResultsHash.copy
            (env.tm.resultsHash responses.deliverTxs).bytes)
        let state ← getLastState
        updateStoreState env (.wrap "failed to update state") state
        Manager.setHeight block.header.height) := by
  simp only [whole_apply_succ, applySection, Proc.bind_assoc, Proc.pure_bind,
    whole_returned, Proc.bind_pure_unit]

theorem whole_save : (program env block commit index).whole .apply 6 ApplyPoint.save =
      applyNextBlock env block commit := by
  simp only [whole_apply_succ, applySection, Proc.bind_assoc, Proc.pure_bind,
    whole_returned, applyNextBlock, commitExecutedBlock, finishBlock,
    Proc.bind_pure_unit]

/-- The sections of `applyBlock` make up the whole of it. -/
theorem whole_compare : (program env block commit index).whole .apply 7 ApplyPoint.compare =
      applyBlock env block commit := by
  rw [whole_apply_succ, applySection, applyBlock, Proc.bind_assoc]
  congr 1
  funext height
  split
  case isTrue => exact whole_returned env block commit index 6 .skipped
  case isFalse =>
    rw [alignStoreWithApp, Proc.bind_assoc, Proc.bind_assoc]
    congr 1
    funext proxyAppInfo
    split
    case isTrue => exact whole_save env block commit index
    case isFalse =>
      cases FixedBytes.ofSlice? 32 proxyAppInfo.lastBlockAppHash with
      | none => rfl
      | some appHash =>
        simp only [Proc.bind_assoc, Proc.pure_bind, whole_alignHash, if_true, Proc.bind_pure_unit]

/-- The sections of `updateStateIndex` make up the whole of it. -/
theorem whole_setIndex : (program env block commit index).whole .update 3 UpdatePoint.setIndex =
      updateStateIndex env index := by
  simp only [whole_update_succ, updateSection, Proc.bind_assoc, Proc.pure_bind,
    whole_updated, updateStateIndex, Proc.bind_pure_unit]

end

/-! ## Where a step may be made -/

/-- The copy of the state that `applyBlock` holds and is going to write. -/
def ApplyPoint.held : ApplyPoint → Option State
  | .alignPersist _ state | .record _ state | .persist state | .assign state => some state
  | _ => none

/-- The copy that `updateStateIndex` holds. -/
def UpdatePoint.held : UpdatePoint → Option State
  | .write lastState => some lastState
  | _ => none

/-- `applyBlock` is about to write the stored record for the last time. -/
def ApplyPoint.persists : ApplyPoint → Bool
  | .alignPersist _ _ | .persist _ => true
  | _ => false

/-- The stored record is newer than the state in memory. -/
def ApplyPoint.ahead : ApplyPoint → Bool
  | .assign _ => true
  | _ => false

/-- `applyBlock` does not write its last record while `updateStateIndex` holds a copy.
`updateStateIndex` does not set the index while `applyBlock` holds a copy, and it does
not read the state in memory while the stored record is newer. -/
def Permits (points : (side : Side) → Point side) : Side → Prop
  | .apply => (points .apply).persists = true → (points .update).held = none
  | .update =>
    match points .update with
    | .setIndex => (points .apply).held = none
    | .read => (points .apply).ahead = false
    | _ => True

instance (points : (side : Side) → Point side) (side : Side) : Decidable (Permits points side) :=
  match side with
  | .apply => inferInstanceAs
      (Decidable ((points .apply).persists = true → (points .update).held = none))
  | .update =>
    match hpoint : points .update with
    | .setIndex => decidable_of_iff ((points .apply).held = none) (by
        simp [Permits, hpoint])
    | .read => decidable_of_iff ((points .apply).ahead = false) (by
        simp [Permits, hpoint])
    | .write _ | .updated => .isTrue (by simp [Permits, hpoint])

/-! ## The invariant -/

variable {outcome : Outcome}

section

variable (block : Block) (index : UInt64)

/-- What the state in memory carries when `applyBlock` is at this point. -/
def ApplyPoint.InMemory : ApplyPoint → Progress → Prop
  | .alignHeight appHash, fields => fields.appHash = appHash.bytes
  | .alignRest appHash, fields | .alignCopy appHash, fields
  | .alignPersist appHash _, fields => Outcome.Recorded block (.aligned appHash) fields
  | .setHeight outcome, fields | .returned outcome, fields =>
    outcome.Recorded block fields
  | _, _ => True

/-- What the copy carries that `applyBlock` holds at this point. -/
def ApplyPoint.InCopy : ApplyPoint → Prop
  | .alignPersist appHash state =>
    Outcome.Recorded block (.aligned appHash) (progress state)
  | .record _ newState => newState.lastBlockHeight = block.header.height.toInt64
  | .persist newState | .assign newState =>
    Outcome.Recorded block (.applied newState.appHash) (progress newState)
  | _ => True

/-- What the stored record carries, at the points after which `applyBlock` does not write
it any more. -/
def ApplyPoint.persisted : ApplyPoint → Option Outcome
  | .compare => some .skipped
  | .assign newState => some (.applied newState.appHash)
  | .setHeight outcome | .returned outcome => some outcome
  | _ => none

/-- The invariant of the two calls. -/
structure Sound (applying : ApplyPoint) (updating : UpdatePoint) (now : Image) :
    Prop where
  memoryIndex : updating ≠ .setIndex → now.memory.slStateIndex = index
  copyIndex : updating ≠ .setIndex → ∀ state, applying.held = some state →
    state.slStateIndex = index
  memory : applying.InMemory block now.memory
  copy : applying.InCopy block
  pending : ∀ lastState, updating = .write lastState →
    lastState.slStateIndex = index ∧ ∀ outcome, applying.persisted = some outcome →
      outcome.Recorded block (progress lastState)
  stored : ∀ outcome, applying.persisted = some outcome →
    updating = .updated ∨ outcome ≠ .skipped → ∃ fields, now.stored = some fields ∧
      (updating = .updated → fields.slStateIndex = index) ∧
      outcome.Recorded block fields

variable {block index} {applying next : ApplyPoint} {updating : UpdatePoint}
variable {before after : Image}

section

variable (hsound : Sound block index applying updating before)
variable (hindex : updating ≠ .setIndex → after.memory.slStateIndex = index)
variable (hheld : updating ≠ .setIndex → ∀ state, next.held = some state →
  state.slStateIndex = index)
variable (hmemory : next.InMemory block after.memory) (hcopy : next.InCopy block)

include hsound hindex hheld hmemory hcopy

/-- `applyBlock` goes on to a point from which it is going to write the record. -/
theorem Sound.unwritten
    (hpersisted : next.persisted = none) : Sound block index next updating after where
  memoryIndex := hindex
  copyIndex := hheld
  memory := hmemory
  copy := hcopy
  pending lastState hwrite := ⟨(hsound.pending lastState hwrite).1, by simp [hpersisted]⟩
  stored := by simp [hpersisted]

/-- `applyBlock` goes on and leaves the stored record alone. -/
theorem Sound.written (hpersisted : next.persisted = applying.persisted)
    (hstored : after.stored = before.stored) :
    Sound block index next updating after where
  memoryIndex := hindex
  copyIndex := hheld
  memory := hmemory
  copy := hcopy
  pending lastState hwrite := by
    rw [hpersisted]
    exact hsound.pending lastState hwrite
  stored := by
    rw [hpersisted, hstored]
    exact hsound.stored

end

/-- `applyBlock` writes its copy to the store. -/
theorem Sound.write (hsound : Sound block index applying updating before)
    (hstate : applying.held = some state) (hfree : updating.held = none)
    (hnext : next.held = none ∨ next.held = some state)
    (hmemory : next.InMemory block after.memory) (hcopy : next.InCopy block)
    (hpersisted : next.persisted = some outcome)
    (hrecorded : outcome.Recorded block (progress state))
    (hafter : after = ⟨before.memory, some (progress state)⟩) :
    Sound block index next updating after where
  memoryIndex hset := by
    rw [hafter]
    exact hsound.memoryIndex hset
  copyIndex hset other hother := by
    rcases hnext with hnone | hsome
    · rw [hnone] at hother
      cases hother
    · obtain rfl : state = other := Option.some.inj (hsome.symm.trans hother)
      exact hsound.copyIndex hset state hstate
  memory := hmemory
  copy := hcopy
  pending lastState hwrite := by
    rw [hwrite] at hfree
    cases hfree
  stored other hother _ := by
    obtain rfl : outcome = other := Option.some.inj (hpersisted.symm.trans hother)
    refine ⟨progress state, by rw [hafter], ?_, hrecorded⟩
    intro hupdated
    apply hsound.copyIndex _ state hstate
    rw [hupdated]
    simp

/-- The index is none of the fields that `applyBlock` sets. -/
theorem inMemory_setIndex {fields : Progress} :
    applying.InMemory block { fields with slStateIndex := index } ↔
      applying.InMemory block fields := by
  cases applying with
  | setHeight outcome | returned outcome => cases outcome <;> exact Iff.rfl
  | _ => exact Iff.rfl

/-- `updateStateIndex` sets the index. -/
theorem Sound.setIndex (hsound : Sound block index applying .setIndex before)
    (hfree : applying.held = none)
    (hafter : after = { before with
      memory := { before.memory with slStateIndex := index } }) :
    Sound block index applying .read after where
  memoryIndex _ := by rw [hafter]
  copyIndex _ state hstate := by
    rw [hfree] at hstate
    cases hstate
  memory := by
    rw [hafter]
    exact inMemory_setIndex.2 hsound.memory
  copy := hsound.copy
  pending := by simp
  stored outcome hpersisted hdue := by
    obtain ⟨fields, hfields, -, hrecorded⟩ := hsound.stored outcome hpersisted (by simpa using hdue)
    exact ⟨fields, by rw [hafter, hfields], by simp, hrecorded⟩

theorem recorded_of_inMemory {fields : Progress} (hahead : applying.ahead = false)
    (hmemory : applying.InMemory block fields)
    (hpersisted : applying.persisted = some outcome) : outcome.Recorded block fields := by
  cases applying with
  | compare =>
    obtain rfl : .skipped = outcome := Option.some.inj hpersisted
    trivial
  | assign newState => cases hahead
  | setHeight other | returned other =>
    obtain rfl : other = outcome := Option.some.inj hpersisted
    exact hmemory
  | _ => cases hpersisted

/-- `updateStateIndex` reads the state in memory. -/
theorem Sound.read {lastState : State}
    (hsound : Sound block index applying .read before) (hahead : applying.ahead = false)
    (hstate : before.memory = progress lastState) :
    Sound block index applying (.write lastState) before where
  memoryIndex _ := hsound.memoryIndex (by simp)
  copyIndex _ := hsound.copyIndex (by simp)
  memory := hsound.memory
  copy := hsound.copy
  pending other hother := by
    obtain rfl : lastState = other := UpdatePoint.write.inj hother
    have hindex := hsound.memoryIndex (by simp)
    rw [hstate] at hindex
    refine ⟨hindex, fun outcome hpersisted => ?_⟩
    rw [← hstate]
    exact recorded_of_inMemory hahead hsound.memory hpersisted
  stored outcome hpersisted hdue := by
    obtain ⟨fields, hfields, -, hrecorded⟩ := hsound.stored outcome hpersisted (by simpa using hdue)
    exact ⟨fields, hfields, by simp, hrecorded⟩

/-- `updateStateIndex` writes its copy to the store, and goes on or fails. -/
theorem Sound.writeIndex {lastState : State}
    (hsound : Sound block index applying (.write lastState) before)
    (hnext : updating = .updated ∨ updating = .write lastState)
    (hafter : after = ⟨before.memory, some (progress lastState)⟩) :
    Sound block index applying updating after where
  memoryIndex _ := by
    rw [hafter]
    exact hsound.memoryIndex (by simp)
  copyIndex _ := hsound.copyIndex (by simp)
  memory := by
    rw [hafter]
    exact hsound.memory
  copy := hsound.copy
  pending other hother := by
    rcases hnext with hupdated | hwrite
    · rw [hupdated] at hother
      cases hother
    · rw [hwrite] at hother
      exact hsound.pending other hother
  stored outcome hpersisted _ := by
    obtain ⟨hindex, hrecorded⟩ := hsound.pending lastState rfl
    exact ⟨progress lastState, by rw [hafter], fun _ => hindex, hrecorded outcome hpersisted⟩

theorem Sound.carries {now : Image} (hsound : Sound block index (.returned outcome) .updated now) :
    Carries block index outcome now where
  memoryIndex := hsound.memoryIndex (by simp)
  memory := hsound.memory
  stored := by
    obtain ⟨fields, hfields, hindex, hrecorded⟩ := hsound.stored outcome rfl (Or.inl rfl)
    exact ⟨fields, hfields, hindex rfl, hrecorded⟩

end

/-! ## The steps of the two calls -/

variable {before after : Node α}

section

variable {α : Type} {env : Env α} {block : Block} {commit : Commit} {index : UInt64}

def Inv (block : Block) (index : UInt64) (points : (side : Side) → Point side)
    (node : Node α) : Prop :=
  Sound block index (points .apply) (points .update) (image node)

/-- A step of `applyBlock` keeps the invariant. -/
abbrev ApplyKeeps (block : Block) (index : UInt64) (point next : ApplyPoint)
    (before after : Node α) : Prop :=
  KeepsInv Permits (Inv block index) .apply point next before after

abbrev UpdateKeeps (block : Block) (index : UInt64) (point next : UpdatePoint)
    (before after : Node α) : Prop :=
  KeepsInv Permits (Inv block index) .update point next before after

theorem applyKeeps_of {point next : ApplyPoint}
    (hsound : ∀ updating, (point.persists = true → updating.held = none) →
      Sound block index point updating (image before) →
      Sound block index next updating (image after)) :
    ApplyKeeps block index point next before after := by
  intro points hpoint hpermits hinv
  rw [Inv, Function.update_self, Function.update_of_ne (by simp)]
  subst hpoint
  exact hsound (points .update) hpermits hinv

theorem updateKeeps_of {point next : UpdatePoint}
    (hsound : ∀ points, points .update = point → Permits points .update →
      Sound block index (points .apply) point (image before) →
      Sound block index (points .apply) next (image after)) :
    UpdateKeeps block index point next before after := by
  intro points hpoint hpermits hinv
  rw [Inv, Function.update_self, Function.update_of_ne (by simp)]
  apply hsound points hpoint hpermits
  rw [← hpoint]
  exact hinv

/-- The two fields of the node that the invariant is about. -/
theorem image_eq (hstate : after.lastState = before.lastState)
    (hrecord : after.db .state = before.db .state) : image after = image before := by
  rw [image, image, hstate, hrecord]

theorem image_store {node : Node α} {message : Pb.State}
    (hmessage : state.toProto env.tm = .ok message) :
    image { node with db := node.db.apply ⟨.state, some message⟩ } =
      ⟨(image node).memory, some (progress state)⟩ := by
  simp only [image, Db.apply_self, Option.map_some, recordProgress_of_toProto hmessage]

theorem steps_updateStoreState {π : Type} {rel : π → Node α → Node α → Prop}
    {point next : π} {onErr : Error → Error} (hkept : ∀ node, rel point node node)
    (hfailed : ∀ node message, state.toProto env.tm = .ok message →
      rel point node { node with db := node.db.apply ⟨.state, some message⟩ })
    (hstored : ∀ node message, state.toProto env.tm = .ok message →
      rel next node { node with db := node.db.apply ⟨.state, some message⟩ }) :
    Steps rel point (updateStoreState env onErr state >>= fun _ => pure next) := by
  apply steps_op
  · intro answer node
    cases hstate : updateState env.tm state with
    | error error => cases answer <;> exact hkept node
    | ok write =>
      obtain ⟨message, hmessage, rfl⟩ := updateState_eq_ok.1 hstate
      cases answer with
      | failBefore => exact hkept node
      | ok | failAfter => exact hfailed node message hmessage
  · intro answer node _ hresult
    cases answer with
    | failBefore | failAfter => cases hresult
    | ok =>
      dsimp only at hresult ⊢
      cases hstate : updateState env.tm state with
      | error error =>
        rw [hstate] at hresult
        cases hresult
      | ok write =>
        obtain ⟨message, hmessage, rfl⟩ := updateState_eq_ok.1 hstate
        exact hstored node message hmessage

theorem steps_updateSection (point : UpdatePoint) :
    Steps (UpdateKeeps block index point) point (updateSection env index point) := by
  cases point with
  | setIndex =>
    apply steps_write
    intro node
    apply updateKeeps_of
    intro points hpoint hpermits hsound
    rw [Permits, hpoint] at hpermits
    exact hsound.setIndex hpermits rfl
  | read =>
    apply steps_read
    intro node
    apply updateKeeps_of
    intro points hpoint hpermits hsound
    rw [Permits, hpoint] at hpermits
    exact hsound.read hpermits rfl
  | write lastState =>
    apply steps_updateStoreState
    · intro node
      exact updateKeeps_of fun _ _ _ hsound => hsound
    · intro node message hmessage
      exact updateKeeps_of fun _ _ _ hsound =>
        hsound.writeIndex (Or.inr rfl) (image_store hmessage)
    · intro node message hmessage
      exact updateKeeps_of fun _ _ _ hsound =>
        hsound.writeIndex (Or.inl rfl) (image_store hmessage)
  | updated => trivial

/-! ### The sections of `applyBlock` -/

/-- A section that leaves the fields in question alone. -/
theorem steps_of_keeps {point : ApplyPoint} {proc : M α ApplyPoint}
    {returns : ApplyPoint → Prop} (hproc : proc.KeepsTo image returns)
    (hnext : ∀ next, returns next → ∀ updating now,
      Sound block index point updating now → Sound block index next updating now) :
    Steps (ApplyKeeps block index point) point proc := by
  apply steps_of_follows hproc
  · intro before after hsame
    apply applyKeeps_of
    intro updating _ hsound
    rwa [hsame]
  · intro before after next hsame hreturns
    apply applyKeeps_of
    intro updating _ hsound
    rw [hsame]
    exact hnext next hreturns updating _ hsound

theorem ignoresExecution_image : IgnoresExecution (image : Node α → Image) where
  calls _ _ _ _ := rfl
  workingHeight _ _ := rfl

theorem keepsTo_compare : (applySection env block commit .compare).KeepsTo image fun next =>
      next = .returned .skipped ∨ next = .save ∨ ∃ appHash, next = .alignHash appHash := by
  apply Proc.Follows.bind keeps_storeHeight
  intro height _
  split
  case isTrue => exact Or.inl rfl
  case isFalse =>
    apply Proc.Follows.bind (keeps_callWith fun _ => rfl)
    intro proxyAppInfo _
    split
    case isTrue => exact Or.inr (Or.inl rfl)
    case isFalse =>
      split
      case h_1 => exact Proc.follows_abort
      case h_2 appHash _ => exact Or.inr (Or.inr ⟨appHash, rfl⟩)

theorem keepsTo_alignRest (appHash : Hash) :
    (applySection env block commit (.alignRest appHash)).KeepsTo image fun next =>
      next = .alignCopy appHash := by
  apply Proc.Follows.bind (Proc.keeps_op fun _ _ => rfl)
  intro _ _
  apply Proc.Follows.bind (keeps_query _ _)
  intro responses _
  apply Proc.Follows.bind (Proc.keeps_op fun _ _ => rfl)
  intro _ _
  exact Proc.follows_pure rfl

theorem keepsTo_save : (applySection env block commit .save).KeepsTo image fun next =>
      ∃ responses, next = .copy responses := by
  have hsave : (commitBatch (.wrap "failed to commit db batch")
      (saveBlock env.tm block commit) : M α Unit).Keeps image := by
    apply keeps_callWith
    intro node
    apply image_eq rfl
    exact Db.commit_of_forall_ne _ (by simp [saveBlock])
  apply Proc.Follows.bind hsave
  intro _ _
  apply Proc.Follows.bind (keeps_executeBlock env ignoresExecution_image block commit)
  intro responses _
  exact Proc.follows_pure ⟨responses, rfl⟩

theorem follows_record (responses : ABCIResponses) (newState : State) :
    (applySection env block commit (.record responses newState)).Follows
      (fun before after => after.lastState = before.lastState ∨ after.lastState = newState)
      fun next => ∃ state, next = .persist state ∧ state.slStateIndex = newState.slStateIndex ∧
        state.lastBlockHeight = newState.lastBlockHeight ∧
        state.lastStoreHeight = block.header.height := by
  have hprune : AllowsPruning fun before after : Node α =>
      after.lastState = before.lastState ∨ after.lastState = newState :=
    ⟨fun _ => Or.inl rfl, fun _ _ _ => Or.inl rfl, fun _ _ => Or.inl rfl⟩
  apply Proc.Follows.bind (follows_persistExecution env block responses newState
    hprune.refl (fun _ => Or.inr rfl) fun _ _ _ => Or.inl rfl)
  intro _ _
  apply Proc.Follows.bind (follows_commitBlock env newState block responses hprune.refl
    (fun _ _ _ => Or.inl rfl) fun _ _ => Or.inl rfl)
  rintro ⟨committed, retainHeight⟩ ⟨appHash, lastResultsHash, rfl⟩
  apply Proc.Follows.bind (follows_pruneOnRequest hprune retainHeight)
  intro _ _
  apply Proc.Follows.bind (follows_read hprune.refl _)
  intro lastState _
  apply Proc.Follows.bind (follows_read hprune.refl _)
  intro base _
  exact Proc.follows_pure ⟨_, rfl, rfl, rfl, rfl⟩

theorem steps_compare : Steps (ApplyKeeps block index .compare) .compare
      (applySection env block commit .compare) := by
  apply steps_of_keeps keepsTo_compare
  rintro next hnext updating now hsound
  rcases hnext with rfl | rfl | ⟨appHash, rfl⟩
  · exact hsound.written hsound.memoryIndex (by simp [ApplyPoint.held]) trivial trivial
      rfl rfl
  · exact hsound.unwritten hsound.memoryIndex (by simp [ApplyPoint.held]) trivial trivial
      rfl
  · exact hsound.unwritten hsound.memoryIndex (by simp [ApplyPoint.held]) trivial trivial
      rfl

theorem steps_alignHash (appHash : Hash) :
    Steps (ApplyKeeps block index (.alignHash appHash)) (.alignHash appHash)
      (applySection env block commit (.alignHash appHash)) := by
  apply steps_write
  intro node
  apply applyKeeps_of
  intro updating _ hsound
  exact hsound.unwritten hsound.memoryIndex (by simp [ApplyPoint.held]) rfl trivial rfl

theorem steps_alignHeight (appHash : Hash) :
    Steps (ApplyKeeps block index (.alignHeight appHash)) (.alignHeight appHash)
      (applySection env block commit (.alignHeight appHash)) := by
  apply steps_write
  intro node
  apply applyKeeps_of
  intro updating _ hsound
  exact hsound.unwritten hsound.memoryIndex (by simp [ApplyPoint.held])
    ⟨rfl, hsound.memory⟩ trivial rfl

theorem steps_alignRest (appHash : Hash) :
    Steps (ApplyKeeps block index (.alignRest appHash)) (.alignRest appHash)
      (applySection env block commit (.alignRest appHash)) := by
  apply steps_of_keeps (keepsTo_alignRest appHash)
  rintro next rfl updating now hsound
  exact hsound.unwritten hsound.memoryIndex (by simp [ApplyPoint.held]) hsound.memory trivial rfl

theorem steps_alignCopy (appHash : Hash) :
    Steps (ApplyKeeps block index (.alignCopy appHash)) (.alignCopy appHash)
      (applySection env block commit (.alignCopy appHash)) := by
  apply steps_read
  intro node
  apply applyKeeps_of
  intro updating _ hsound
  refine hsound.unwritten hsound.memoryIndex ?_ hsound.memory hsound.memory rfl
  intro hset state hstate
  obtain rfl : node.lastState = state := Option.some.inj hstate
  exact hsound.memoryIndex hset

theorem steps_alignPersist (appHash : Hash) (state : State) :
    Steps (ApplyKeeps block index (.alignPersist appHash state)) (.alignPersist appHash state)
      (applySection env block commit (.alignPersist appHash state)) := by
  apply steps_updateStoreState
  · intro node
    exact applyKeeps_of fun _ _ hsound => hsound
  · intro node message hmessage
    apply applyKeeps_of
    intro updating _ hsound
    exact hsound.unwritten hsound.memoryIndex hsound.copyIndex hsound.memory hsound.copy
      rfl
  · intro node message hmessage
    apply applyKeeps_of
    intro updating hpermits hsound
    exact hsound.write rfl (hpermits rfl) (Or.inl rfl) hsound.memory trivial rfl
      hsound.copy (image_store hmessage)

theorem steps_save : Steps (ApplyKeeps block index .save) .save
      (applySection env block commit .save) := by
  apply steps_of_keeps keepsTo_save
  rintro next ⟨responses, rfl⟩ updating now hsound
  exact hsound.unwritten hsound.memoryIndex (by simp [ApplyPoint.held]) trivial trivial
    rfl

theorem steps_copy (responses : ABCIResponses) :
    Steps (ApplyKeeps block index (.copy responses)) (.copy responses)
      (applySection env block commit (.copy responses)) := by
  apply steps_read
  intro node
  apply applyKeeps_of
  intro updating _ hsound
  refine hsound.unwritten hsound.memoryIndex ?_ trivial rfl rfl
  intro hset state hstate
  obtain rfl : Executor.updateState env.tm node.lastState block = state := Option.some.inj hstate
  exact hsound.memoryIndex hset

theorem steps_record (responses : ABCIResponses) (newState : State) :
    Steps (ApplyKeeps block index (.record responses newState)) (.record responses newState)
      (applySection env block commit (.record responses newState)) := by
  have hmemory {before after : Node α} {updating : UpdatePoint}
      (hstep : after.lastState = before.lastState ∨ after.lastState = newState)
      (hsound : Sound block index (.record responses newState) updating (image before))
      (hset : updating ≠ .setIndex) : (image after).memory.slStateIndex = index := by
    change after.lastState.slStateIndex = index
    rcases hstep with hkept | hassigned
    · rw [hkept]
      exact hsound.memoryIndex hset
    · rw [hassigned]
      exact hsound.copyIndex hset newState rfl
  apply steps_of_follows (follows_record responses newState)
  · intro before after hstep
    apply applyKeeps_of
    intro updating _ hsound
    exact hsound.unwritten (hmemory hstep hsound) hsound.copyIndex trivial hsound.copy rfl
  · rintro before after next hstep ⟨state, rfl, hindex, hblock, hstore⟩
    apply applyKeeps_of
    intro updating _ hsound
    refine hsound.unwritten (hmemory hstep hsound) ?_ trivial
      ⟨hblock.trans hsound.copy, hstore, rfl⟩ rfl
    intro hset other hother
    obtain rfl : state = other := Option.some.inj hother
    exact hindex.trans (hsound.copyIndex hset newState rfl)

theorem steps_persist (newState : State) :
    Steps (ApplyKeeps block index (.persist newState)) (.persist newState)
      (applySection env block commit (.persist newState)) := by
  apply steps_updateStoreState
  · intro node
    exact applyKeeps_of fun _ _ hsound => hsound
  · intro node message hmessage
    apply applyKeeps_of
    intro updating _ hsound
    exact hsound.unwritten hsound.memoryIndex hsound.copyIndex trivial hsound.copy rfl
  · intro node message hmessage
    apply applyKeeps_of
    intro updating hpermits hsound
    exact hsound.write rfl (hpermits rfl) (Or.inr rfl) trivial hsound.copy rfl
      hsound.copy (image_store hmessage)

theorem steps_assign (newState : State) :
    Steps (ApplyKeeps block index (.assign newState)) (.assign newState)
      (applySection env block commit (.assign newState)) := by
  apply steps_write
  intro node
  apply applyKeeps_of
  intro updating _ hsound
  exact hsound.written (fun hset => hsound.copyIndex hset newState rfl)
    (by simp [ApplyPoint.held]) hsound.copy trivial rfl rfl

theorem steps_setHeight (outcome : Outcome) :
    Steps (ApplyKeeps block index (.setHeight outcome)) (.setHeight outcome)
      (applySection env block commit (.setHeight outcome)) := by
  have hreturns : (applySection env block commit (.setHeight outcome)).KeepsTo image
      fun next => next = .returned outcome :=
    Proc.Follows.bind (keeps_setHeight_of _ fun _ => rfl) fun _ _ =>
      Proc.follows_pure rfl
  apply steps_of_keeps hreturns
  rintro next rfl updating now hsound
  exact hsound.written hsound.memoryIndex (by simp [ApplyPoint.held]) hsound.memory trivial
    rfl rfl

theorem steps_applySection (point : ApplyPoint) :
    Steps (ApplyKeeps block index point) point (applySection env block commit point) := by
  cases point with
  | compare => exact steps_compare
  | alignHash appHash => exact steps_alignHash appHash
  | alignHeight appHash => exact steps_alignHeight appHash
  | alignRest appHash => exact steps_alignRest appHash
  | alignCopy appHash => exact steps_alignCopy appHash
  | alignPersist appHash state => exact steps_alignPersist appHash state
  | save => exact steps_save
  | copy responses => exact steps_copy responses
  | record responses newState => exact steps_record responses newState
  | persist newState => exact steps_persist newState
  | assign newState => exact steps_assign newState
  | setHeight outcome => exact steps_setHeight outcome
  | returned outcome => trivial

end

/-! ## No update is lost -/

theorem sound_start {block : Block} {index : UInt64} (now : Image) :
    Sound block index .compare .setIndex now where
  memoryIndex := by simp
  copyIndex := by simp
  memory := trivial
  copy := trivial
  pending := by simp
  stored outcome hpersisted hdue := by
    obtain rfl : .skipped = outcome := Option.some.inj hpersisted
    simp at hdue

/-- In every interleaving in which neither call writes back a copy from before what the
other one has recorded, the state carries in the end what both have set. -/
theorem no_update_lost {α : Type} (env : Env α) (block : Block) (commit : Commit)
    (index : UInt64) (node : Node α) (labels : List (Side × Answer))
    (hpermits : ∀ move ∈ (calls env block commit index node).path
        (calls env block commit index node).start labels,
      Permits move.source.points move.label.1) :
    ∀ move ∈ (calls env block commit index node).path
        (calls env block commit index node).start labels,
      ∀ outcome, move.target.points .apply = .returned outcome →
        move.target.points .update = .updated →
          Carries block index outcome (image move.target.state) := by
  have hbody (side : Side) (point : Point side) :
      Steps (KeepsInv Permits (Inv block index) side point) point
        ((program env block commit index).body side point) := by
    cases side with
    | apply => exact steps_applySection point
    | update => exact steps_updateSection point
  have hstart : Inv block index start node := sound_start (image node)
  intro move hmove outcome hreturned hupdated
  have hsound := forall_path_of_steps hbody hstart hpermits move hmove
  rw [Inv, hreturned, hupdated] at hsound
  exact hsound.carries

/-! ## A lost index -/

namespace Reference

open Manager.Reference Types.Reference

abbrev firstCalls (node : Node (List Tx)) := calls env poolFirst (commitFor poolFirst.header) 7 node

def sideSteps (side : Side) (count : ℕ) : List (Side × Answer) := List.replicate count (side, .ok)

/-- The index is set after `applyBlock` has made its copy of the state. -/
def late : List (Side × Answer) := sideSteps .apply 9 ++ sideSteps .update 3 ++ sideSteps .apply 17

/-- The index is set before `applyBlock` makes its copy. -/
def early : List (Side × Answer) := sideSteps .apply 8 ++ sideSteps .update 3 ++ sideSteps .apply 18

/-- The hash of the application that holds the transaction of the first block. -/
def firstOutcome : Outcome := .applied (digest (txsBytes [[1]]))

def bothReturn (labels : List (Side × Answer)) (found : UInt64)
    (node : Node (List Tx)) : Bool :=
  ((firstCalls node).path (firstCalls node).start labels).any fun move =>
    move.target.points .apply = ApplyPoint.returned firstOutcome ∧
      move.target.points .update = UpdatePoint.updated ∧
      (image move.target.state).memory.slStateIndex = found

def permitted (labels : List (Side × Answer)) (node : Node (List Tx)) : Bool :=
  ((firstCalls node).path (firstCalls node).start labels).all fun move =>
    Permits move.source.points move.label.1

end Reference

open Reference

/-- `updateStateIndex` runs while `applyBlock` holds its copy of the state, and the index
is back at its old value when both have returned. -/
theorem index_lost_to_copy : ∃ node, ReachableNode Manager.Reference.env [] ⟨node, .idle⟩ ∧
      ∃ move ∈ (firstCalls node).path (firstCalls node).start Reference.late,
        ∃ outcome, move.target.points .apply = .returned outcome ∧
          move.target.points .update = .updated ∧
          ¬ Carries Manager.Reference.poolFirst 7 outcome (image move.target.state) := by
  have hrun : ((system Manager.Reference.env).run ⟨freshNode [], .down⟩
      Manager.Reference.firstBoot).map (fun config => isIdle config &&
        decide (bothReturn Reference.late 0 config.state = true)) =
      some true := by
    decide +kernel
  obtain ⟨node, hnode, hreturn⟩ := exists_idleNode
    (p := fun node => bothReturn Reference.late 0 node = true) _ hrun
  obtain ⟨move, hmove, hends⟩ := List.any_eq_true.1 hreturn
  obtain ⟨hreturned, hupdated, hindex⟩ := of_decide_eq_true hends
  refine ⟨node, hnode, move, hmove, firstOutcome, hreturned, hupdated, ?_⟩
  intro hcarries
  have hseven := hcarries.memoryIndex
  rw [hindex] at hseven
  exact absurd hseven (by decide)

theorem no_update_lost_reference : ∃ node, ReachableNode Manager.Reference.env [] ⟨node, .idle⟩ ∧
      ∃ move ∈ (firstCalls node).path (firstCalls node).start Reference.early,
        ∃ outcome, move.target.points .apply = .returned outcome ∧
          move.target.points .update = .updated ∧
          Carries Manager.Reference.poolFirst 7 outcome (image move.target.state) := by
  have hrun : ((system Manager.Reference.env).run ⟨freshNode [], .down⟩
      Manager.Reference.firstBoot).map (fun config => isIdle config &&
        decide (bothReturn Reference.early 7 config.state = true ∧
          permitted Reference.early config.state = true)) = some true := by
    decide +kernel
  obtain ⟨node, hnode, hreturn, hpermitted⟩ := exists_idleNode
    (p := fun node => bothReturn Reference.early 7 node = true ∧
      permitted Reference.early node = true) _ hrun
  obtain ⟨move, hmove, hends⟩ := List.any_eq_true.1 hreturn
  obtain ⟨hreturned, hupdated, -⟩ := of_decide_eq_true hends
  refine ⟨node, hnode, move, hmove, firstOutcome, hreturned, hupdated, ?_⟩
  apply no_update_lost Manager.Reference.env _ _ 7 node Reference.early _ move hmove _
    hreturned hupdated
  intro move hmove
  exact of_decide_eq_true (List.all_eq_true.1 hpermitted move hmove)

end Dymint.LostUpdate
