import Dymint.Block.Moments
import Dymint.Block.ExactlyOnce

/-!
# The rotation of the validators

Each block rotates the proposer priorities of the validators once: the sets of a
state are those that its height alone determines.  A block that the state
already counts and that the application has not committed is the exception.  If
it is executed again, from the state that the first attempt left in memory or on
disk, the sets rotate twice.
-/

namespace Dymint.Manager

open Procedure Dymint.Types Store CrashSystem

variable {α : Type}

/-! ## The sets of a chain -/

/-- The rotation that `updateState` makes. -/
def rotate (tm : Tendermint) (set : ValidatorSet) : ValidatorSet :=
  if set.validators.length > 0 then tm.incrementProposerPriority set else set

/-- The set after `height` blocks. -/
def setAt (env : Env α) (height : ℕ) : ValidatorSet := (rotate env.tm)^[height]
    (env.tm.incrementProposerPriority (env.tm.newValidatorSet (initialValidators env)))

theorem setAt_succ (env : Env α) (height : ℕ) :
    setAt env (height + 1) = rotate env.tm (setAt env height) :=
  Function.iterate_succ_apply' _ _ _

def lastBlock (state : State) : ℕ := state.lastBlockHeight.toUInt64.toNat

section

variable (env : Env α) (valid : ValidatorSet → Prop)

structure RotatedSets (state : State) : Prop where
  sound : state.Sound env.tm valid
  next : state.nextValidators = setAt env (lastBlock state)
  current : state.validators = setAt env (lastBlock state - 1)

def LastRotated (state : State) : Prop := state.lastStoreHeight = state.lastBlockHeight.toUInt64 →
    state.lastValidators = setAt env (lastBlock state - 1)

/-- The state in memory.  Only chains that start at height 1 have blocks. -/
structure Rotated (state : State) : Prop where
  initial : state.initialHeight = env.genesis.initialHeight
  sets : env.genesis.initialHeight = 1 → RotatedSets env valid state
  last : env.genesis.initialHeight = 1 → LastRotated env state

structure RotatedRecord (message : Pb.State) : Prop where
  initial : message.initialHeight = env.genesis.initialHeight
  state : env.genesis.initialHeight = 1 → ∃ state, State.Encodes env.tm state message ∧
      RotatedSets env valid state ∧ LastRotated env state

structure RotatedDisk (now : Snapshot α) : Prop where
  record : ∀ message, now.record = some message → RotatedRecord env valid message
  saved : 0 < now.lastBlockHeight.toUInt64.toNat → ∃ set, env.tm.validatorSetToProto
        (setAt env (now.lastBlockHeight.toUInt64.toNat - 1)) = .ok set ∧
      now.validators now.lastBlockHeight.toUInt64 = some set

/-- What holds between calls. -/
structure RotatedNode (now : Snapshot α) : Prop
    extends RotatedDisk env valid now where
  memory : Rotated env valid now.lastState

variable {env valid} {state state' : State} {message : Pb.State}

theorem RotatedSets.of_eq (hsets : RotatedSets env valid state) (hsound : state'.Sound env.tm valid)
    (hnext : state'.nextValidators = state.nextValidators)
    (hvalidators : state'.validators = state.validators)
    (hblock : state'.lastBlockHeight = state.lastBlockHeight) : RotatedSets env valid state' where
  sound := hsound
  next := by
    rw [hnext, hsets.next, lastBlock, lastBlock, hblock]
  current := by
    rw [hvalidators, hsets.current, lastBlock, lastBlock, hblock]

theorem RotatedSets.updateState (hcodec : Codec env.tm valid) (hsets : RotatedSets env valid state)
    {block : Block} (hblock : block.header.height.toNat = lastBlock state + 1)
    (hlegacy : ¬ (Executor.updateState env.tm state block).Legacy) :
    RotatedSets env valid (Executor.updateState env.tm state block) := by
  have hlast : lastBlock (Executor.updateState env.tm state block) = lastBlock state + 1 := by
    rw [← hblock]
    exact congrArg UInt64.toNat (UInt64.toUInt64_toInt64 _)
  refine ⟨hsets.sound.updateState hcodec block hlegacy, ?_, ?_⟩
  · rw [hlast, setAt_succ, ← hsets.next]
    rfl
  · rw [hlast, Nat.add_sub_cancel]
    exact hsets.next

theorem Rotated.encodes (hcodec : Codec env.tm valid) (hone : env.genesis.initialHeight = 1)
    (hrotated : Rotated env valid state) : ∃ message, state.toProto env.tm = .ok message := by
  obtain ⟨message, hmessage⟩ := (hrotated.sets hone).sound.encodes hcodec
  exact ⟨message, hmessage.1⟩

theorem Rotated.record_of_toProto (hcodec : Codec env.tm valid) (hrotated : Rotated env valid state)
    (hmessage : state.toProto env.tm = .ok message) : RotatedRecord env valid message where
  initial := by
    obtain ⟨_, _, _, _, _, _, rfl⟩ := State.toProto_eq_ok.1 hmessage
    exact hrotated.initial
  state hone := by
    obtain ⟨other, hencodes⟩ := (hrotated.sets hone).sound.encodes hcodec
    obtain rfl : other = message := Except.ok.inj (hencodes.1.symm.trans hmessage)
    exact ⟨state, hencodes, hrotated.sets hone, hrotated.last hone⟩

theorem RotatedRecord.rotated (hrecord : RotatedRecord env valid message)
    (hstate : State.fromProto env.tm message = .ok state) : Rotated env valid state := by
  have hloaded (hone : env.genesis.initialHeight = 1) :
      RotatedSets env valid state ∧ LastRotated env state := by
    obtain ⟨other, hencodes, hsets, hlast⟩ := hrecord.state hone
    obtain rfl : other = state := Result.ok.inj (hencodes.2.symm.trans hstate)
    exact ⟨hsets, hlast⟩
  refine ⟨?_, fun hone => (hloaded hone).1, fun hone => (hloaded hone).2⟩
  obtain ⟨_, _, _, _, _, _, _, _, _, _, rfl⟩ := State.fromProto_eq_ok.1 hstate
  exact hrecord.initial

theorem Rotated.setSLStateIndex (hrotated : Rotated env valid state) (index : UInt64) :
    Rotated env valid (state.setSLStateIndex index) where
  initial := hrotated.initial
  sets hone := (hrotated.sets hone).of_eq
    ((hrotated.sets hone).sound.setSLStateIndex index) rfl rfl rfl
  last hone := hrotated.last hone

theorem Rotated.updateState (hcodec : Codec env.tm valid) (hrotated : Rotated env valid state)
    {block : Block} (hblock : block.header.height.toNat = lastBlock state + 1)
    (hstore : block.header.height.toNat = state.lastStoreHeight.toNat + 1) :
    Rotated env valid (Executor.updateState env.tm state block) where
  initial := hrotated.initial
  sets hone := by
    apply (hrotated.sets hone).updateState hcodec hblock
    intro hlegacy
    have hzero : state.lastStoreHeight.toNat = 0 := congrArg UInt64.toNat hlegacy.1
    apply not_one_lt_of_toNat_le _ hlegacy.2
    simp only [Executor.updateState, UInt64.toUInt64_toInt64]
    omega
  last hone hstored := by
    have heq : state.lastStoreHeight = block.header.height :=
      hstored.trans (UInt64.toUInt64_toInt64 _)
    rw [heq] at hstore
    omega

theorem Rotated.stored (hrotated : Rotated env valid state)
    (hinitial : state'.initialHeight = state.initialHeight)
    (hnext : state'.nextValidators = state.nextValidators)
    (hvalidators : state'.validators = state.validators)
    (hblock : state'.lastBlockHeight = state.lastBlockHeight)
    (hid : state'.lastBlockID = state.lastBlockID)
    (hlast : state'.lastValidators = state.validators) (hstore : state'.lastStoreHeight ≠ 0) :
    Rotated env valid state' where
  initial := hinitial.trans hrotated.initial
  sets hone := by
    have hsets := hrotated.sets hone
    apply hsets.of_eq _ hnext hvalidators hblock
    apply hsets.sound.of_eq hnext hvalidators hid
    · rw [hlast]
      exact hsets.sound.validators
    · intro hlegacy
      exact hstore hlegacy.1
  last hone _ := by
    rw [hlast, (hrotated.sets hone).current, lastBlock, lastBlock, hblock]

end

/-! ## One call -/

variable {now : Snapshot α} {height : UInt64}

section

variable {env : Env α} {valid : ValidatorSet → Prop} {node : Node α}
variable {block : Block} {commit : Commit}

/-- The state counts the next block, and the application has not committed it. -/
def Counted (node : Node α) : Prop := node.lastState.lastBlockHeight.toUInt64 = node.height + 1 ∧
    node.app.lastBlockHeight.toUInt64 ≠ node.height + 1

instance (node : Node α) : Decidable (Counted node) := inferInstanceAs (Decidable (_ ∧ _))

theorem RotatedDisk.store {message : Pb.State} (hdisk : RotatedDisk env valid now)
    (hmessage : RotatedRecord env valid message) : RotatedDisk env valid (now.store message) where
  record := by
    intro other hother
    obtain rfl : message = other := Option.some.inj hother
    exact hmessage
  saved := hdisk.saved

theorem RotatedDisk.pruned {later : Snapshot α} (hdisk : RotatedDisk env valid now)
    (hpruned : now.Pruned later) (hle : now.height ≤ now.lastBlockHeight.toUInt64) :
    RotatedDisk env valid later where
  record := by
    have hrecord : later.record = now.record := by rw [hpruned.frame]
    rw [hrecord]
    exact hdisk.record
  saved := by
    have happ : later.lastBlockHeight = now.lastBlockHeight := by
      rw [hpruned.frame]
    rw [happ, hpruned.validators _ hle]
    exact hdisk.saved

theorem ne_zero_of_height_lt {next : UInt64} (hlt : height < next) : next ≠ 0 := by
  rintro rfl
  exact absurd hlt (UInt64.not_lt.2 UInt64.zero_le)

section

variable (hidle : node.core.Idle)
variable (hnext : block.header.height = node.height + 1)

include hidle hnext

theorem lastBlock_of_ahead (happ : node.app.lastBlockHeight.toUInt64 = block.header.height) :
    lastBlock node.lastState = block.header.height.toNat := by
  have hnat := toNat_next hidle.always hnext
  have hahead : node.core.appHeight.toNat = node.core.height.toNat + 1 :=
    (congrArg UInt64.toNat happ).trans hnat
  exact ((hidle.memory.executed hahead).resolve_right And.left).trans hnat.symm

theorem lastBlock_of_execute (hcounted : ¬ Counted node)
    (happ : node.app.lastBlockHeight.toUInt64 ≠ block.header.height) :
    block.header.height.toNat = lastBlock node.lastState + 1 := by
  have hnat := toNat_next hidle.always hnext
  rcases hidle.memory.lastBlock with hsame | hahead | hlost
  · exact hnat.trans (congrArg (· + 1) hsame.symm)
  · rw [Counted, ← hnext] at hcounted
    exact absurd ⟨UInt64.toNat_inj.1 (hahead.trans hnat.symm), happ⟩ hcounted
  · exact hlost.1.elim

theorem height_lt_block : node.height < block.header.height := by
  rw [hnext]
  exact height_lt_next hidle

theorem next_ne_zero : block.header.height ≠ 0 := ne_zero_of_height_lt (height_lt_block hidle hnext)

/-- The store catches up with the application. -/
theorem alignSpec_rotated (hcodec : Codec env.tm valid)
    (hnode : RotatedNode env valid node.snapshot)
    (happ : node.app.lastBlockHeight.toUInt64 = block.header.height) :
    AlignSpec env block.header.height True (RotatedDisk env valid)
      (RotatedNode env valid) node.snapshot := by
  have hinitial : node.lastState.initialHeight = 1 := hidle.initial_of_ahead hnext happ
  have hone : env.genesis.initialHeight = 1 := hnode.memory.initial.symm.trans hinitial
  have hzero := next_ne_zero hidle hnext
  have hrotated (appHash : Hash) : Rotated env valid
      (rotatedState node.lastState appHash block.header.height) :=
    hnode.memory.stored rfl rfl rfl rfl rfl rfl hzero
  have haligned (appHash : Hash) (responses : ABCIResponses) :
      Rotated env valid (alignedState env.tm node.lastState appHash
        block.header.height responses) :=
    hnode.memory.stored rfl rfl rfl rfl rfl rfl hzero
  have hdisk (state : State) : RotatedDisk env valid (node.snapshot.remember state) :=
    ⟨hnode.record, hnode.saved⟩
  refine ⟨fun _ => hdisk _, fun _ => hdisk _, fun _ => hdisk _, ?_, ?_⟩
  · intro appHash _
    exact ⟨hdisk _, hrotated appHash⟩
  · intro appHash responses _ _
    obtain ⟨message, hmessage⟩ := (haligned appHash responses).encodes hcodec hone
    have hstored := (hdisk (alignedState env.tm node.lastState appHash
      block.header.height responses)).store
        ((haligned appHash responses).record_of_toProto hcodec hmessage)
    exact ⟨message, hmessage, hdisk _, hstored, fun _ =>
      ⟨⟨hdisk _, haligned appHash responses⟩, hstored, haligned appHash responses⟩⟩

end

structure Rotating (env : Env α) (valid : ValidatorSet → Prop) (block : Block)
    (message : Pb.State) (set : ValidatorSet) (node : Node α) : Prop where
  start : RotatedNode env valid node.snapshot
  one : env.genesis.initialHeight = 1
  height_lt : node.height < block.header.height
  app : node.app.lastBlockHeight.toUInt64 ≠ block.header.height
  executed : Rotated env valid (node.snapshot.executedState env block)
  encodes : (node.snapshot.executedState env block).toProto env.tm = .ok message
  saved : env.tm.validatorSetToProto (setAt env (block.header.height.toNat - 1)) = .ok set

namespace Rotating

variable {message : Pb.State} {set : ValidatorSet}
variable (hexec : Rotating env valid block message set node)

include hexec

theorem finished (base : UInt64) :
    Rotated env valid (node.snapshot.finishedState env block base) := by
  have hzero := ne_zero_of_height_lt hexec.height_lt
  exact hexec.executed.stored rfl rfl rfl rfl rfl rfl hzero

theorem validators : (node.snapshot.executedState env block).validators =
      setAt env (block.header.height.toNat - 1) := by
  rw [(hexec.executed.sets hexec.one).current, lastBlock]
  simp only [Snapshot.executedState, Executor.updateState, UInt64.toUInt64_toInt64]

section

variable (hcodec : Codec env.tm valid)

include hcodec

theorem persisted_disk : RotatedDisk env valid (node.snapshot.persisted env block message set) where
  record := by
    intro other hother
    obtain rfl : message = other := Option.some.inj hother
    exact hexec.executed.record_of_toProto hcodec hexec.encodes
  saved := by
    intro hpos
    obtain ⟨old, hold, hsaved⟩ := hexec.start.saved hpos
    refine ⟨old, hold, ?_⟩
    rw [← hsaved]
    exact Function.update_of_ne hexec.app _ _

/-- The commit of the application makes the saved set that of its height. -/
theorem committed_disk : RotatedDisk env valid
      (node.snapshot.committedBlock env block message set) where
  record := (hexec.persisted_disk hcodec).record
  saved := by
    have happ : (node.snapshot.committedBlock env block message
        set).lastBlockHeight.toUInt64 = block.header.height :=
      UInt64.toUInt64_toInt64 _
    rw [happ]
    exact fun _ => ⟨set, hexec.saved, Function.update_self _ _ _⟩

theorem pruned_disk {later : Snapshot α}
    (hlater : (node.snapshot.committedBlock env block message set).Pruned later) :
    RotatedDisk env valid later := by
  apply (hexec.committed_disk hcodec).pruned hlater
  change node.height ≤ block.header.height.toInt64.toUInt64
  rw [UInt64.toUInt64_toInt64]
  exact UInt64.le_of_lt hexec.height_lt

theorem of_stop (hnow : Stop env block message set node.snapshot now) :
    RotatedNode env valid now := by
  have hstate {later : Snapshot α}
      (hlater : (node.snapshot.committedBlock env block message set).Pruned
        later) : Rotated env valid later.lastState := by
    rw [hlater.frame]
    exact hexec.executed
  cases hnow with
  | executing working workingHeight =>
    exact ⟨⟨hexec.start.record, hexec.start.saved⟩, hexec.start.memory⟩
  | executed =>
    exact ⟨⟨hexec.start.record, hexec.start.saved⟩, hexec.executed⟩
  | persisted => exact ⟨hexec.persisted_disk hcodec, hexec.executed⟩
  | committed hlater => exact ⟨hexec.pruned_disk hcodec hlater, hstate hlater⟩
  | @stored later base message' hlater hmessage' =>
    have hrecord := (hexec.finished base).record_of_toProto hcodec hmessage'
    have hmemory := hstate hlater
    exact ⟨(hexec.pruned_disk hcodec hlater).store hrecord, hmemory⟩

theorem of_finished {after : Snapshot α}
    (hafter : Finished env block node.snapshot after) : RotatedNode env valid after := by
  have hencoded : Encoded env block node.snapshot message set :=
    ⟨hexec.encodes, by rw [hexec.validators]; exact hexec.saved⟩
  obtain ⟨base, now, hstop, rfl⟩ := hafter.stop hencoded
  have hdisk := (hexec.of_stop hcodec hstop).toRotatedDisk
  exact ⟨⟨hdisk.record, hdisk.saved⟩, hexec.finished base⟩

theorem spec : ExecuteSpec env block message set True (RotatedDisk env valid)
      (RotatedNode env valid) node.snapshot where
  state := hexec.encodes
  validators := by
    rw [hexec.validators]
    exact hexec.saved
  encodes base := (hexec.finished base).encodes hcodec hexec.one
  safe_of_stop _ hnow := (hexec.of_stop hcodec hnow).toRotatedDisk
  failed_of_stop _ _ hnow := hexec.of_stop hcodec hnow
  safe_of_finished _ hafter := (hexec.of_finished hcodec hafter).toRotatedDisk

end

end Rotating

section

variable (hidle : node.core.Idle)
variable (hnext : block.header.height = node.height + 1)

include hidle hnext

section

variable (hcodec : Codec env.tm valid) (hnode : RotatedNode env valid node.snapshot)
variable (hcounted : ¬ Counted node)

include hcodec hnode hcounted

theorem exists_rotating (happ : node.app.lastBlockHeight.toUInt64 ≠ block.header.height)
    (hvalid : Executor.validate env.tm node.lastState block commit env.getProposer = .ok ()) :
    ∃ message set, Rotating env valid block message set node := by
  have hheights := hidle.execute hnext happ
  have hblock := lastBlock_of_execute hidle hnext hcounted happ
  have hstore : block.header.height.toNat = node.lastState.lastStoreHeight.toNat + 1 :=
    (toNat_next hidle.always hnext).trans
      (congrArg (fun height => UInt64.toNat height + 1) hheights.2.symm)
  have hone : env.genesis.initialHeight = 1 :=
    hnode.memory.initial.symm.trans ((hidle.initial_of_valid hnext
      ((Executor.validate_eq_ok env.tm).1 hvalid).1.initialHeight).resolve_right id)
  have hexecuted : Rotated env valid (node.snapshot.executedState env block) :=
    hnode.memory.updateState hcodec hblock hstore
  have hlast : lastBlock (node.snapshot.executedState env block) = block.header.height.toNat :=
    congrArg UInt64.toNat (UInt64.toUInt64_toInt64 _)
  obtain ⟨message, hmessage⟩ := hexecuted.encodes hcodec hone
  obtain ⟨set, hset, _⟩ := hcodec.validatorSet _ (hexecuted.sets hone).sound.validators
  rw [(hexecuted.sets hone).current, hlast] at hset
  exact ⟨message, set, hnode, hone, height_lt_block hidle hnext, happ, hexecuted, hmessage, hset⟩

theorem applySpec_rotated : ApplySpec env block commit True (RotatedDisk env valid)
      (RotatedNode env valid) node.snapshot where
  executing _ _ := ⟨hnode.record, hnode.saved⟩
  executing_failed _ _ _ := ⟨⟨hnode.record, hnode.saved⟩, hnode.memory⟩
  align happ := alignSpec_rotated hidle hnext hcodec hnode happ
  rejected _ _ _ := hnode
  execute happ hvalid := by
    obtain ⟨message, set, hexec⟩ := exists_rotating hidle hnext hcodec hnode hcounted happ hvalid
    exact ⟨message, set, hexec.spec hcodec⟩

theorem applied_rotated {after : Snapshot α}
    (hafter : Applied env block commit node.snapshot after) :
    RotatedNode env valid after ∧ after.height = block.header.height ∧
      after.lastState.lastBlockHeight.toUInt64 = block.header.height := by
  cases hafter with
  | aligned happ haligned =>
    obtain ⟨appHash, responses, message, hhash, hresponses, hmessage, rfl⟩ := haligned
    obtain ⟨message', hmessage', _, _, hfailed⟩ :=
      (alignSpec_rotated hidle hnext hcodec hnode happ).aligned appHash responses hhash hresponses
    obtain rfl : message' = message := Except.ok.inj (hmessage'.symm.trans hmessage)
    have hrotated := (hfailed trivial).2
    exact ⟨⟨⟨hrotated.record, hrotated.saved⟩, hrotated.memory⟩, rfl,
      UInt64.toNat_inj.1 (lastBlock_of_ahead hidle hnext happ)⟩
  | executed happ hvalid hfinished =>
    obtain ⟨message, set, hexec⟩ := exists_rotating hidle hnext hcodec hnode hcounted happ hvalid
    have hrotated := hexec.of_finished hcodec hfinished
    refine ⟨⟨⟨hrotated.record, hrotated.saved⟩, hrotated.memory⟩, rfl, ?_⟩
    obtain ⟨_, _, _, _, _, _, _, _, rfl⟩ := hfinished
    exact UInt64.toUInt64_toInt64 _

end

end

/-- One call to `applyBlock`, whatever fails on the way. -/
theorem wp_applyBlock_rotated {rules : Proc.Rules (Node α) Answer}
    (hrules : ∀ node : Node α, RotatedDisk env valid node.snapshot → rules.crash node)
    (hcodec : Codec env.tm valid) (hidle : node.core.Idle)
    (hnode : RotatedNode env valid node.snapshot) (hcounted : ¬ Counted node) :
    (applyBlock env block commit).wp rules (Proc.Ends
        (fun _ later => RotatedNode env valid later.snapshot ∧ ¬ Counted later ∧
          (block.header.height = node.height + 1 → later.height = block.header.height ∧
              later.lastState.lastBlockHeight.toUInt64 = block.header.height))
        (fun later => RotatedNode env valid later.snapshot)
        (fun later => RotatedDisk env valid later.snapshot)) node := by
  have hwatch : Watches rules True (RotatedDisk env valid) := ⟨fun _ _ _ _ => trivial, hrules⟩
  apply Proc.wp_ends_mono (wp_applyBlock_spec hwatch hnode.toRotatedDisk (height_lt_next hidle)
    fun hnext => applySpec_rotated hidle hnext hcodec hnode hcounted)
  intro _ later hlater
  split at hlater
  case isTrue hnext =>
    obtain ⟨hrotated, hheight, hblock⟩ := applied_rotated hidle hnext hcodec hnode hcounted hlater
    refine ⟨hrotated, ?_, fun _ => ⟨hheight, hblock⟩⟩
    rintro ⟨hahead, _⟩
    have hself : later.height = later.height + 1 := (hheight.trans hblock.symm).trans hahead
    simp at hself
  case isFalse hnext =>
    have hsame : later.lastState = node.lastState ∧ later.height = node.height ∧
        later.app.lastBlockHeight = node.app.lastBlockHeight :=
      ⟨congrArg Snapshot.lastState hlater.symm, congrArg Snapshot.height hlater.symm,
        congrArg Snapshot.lastBlockHeight hlater.symm⟩
    refine ⟨hlater ▸ hnode, ?_, fun heq => absurd heq hnext⟩
    rw [Counted, hsame.1, hsame.2.1, hsame.2.2]
    exact hcounted

end

/-! ## Runs -/

def countedGuard : Guard (Node α) Answer Request where
  answer := LoadsStored
  call node request := TriesNext node request → ¬ Counted node
  crash _ := True

instance (node : Node α) (label : Label Answer Request) :
    Decidable (countedGuard.Permits node label) :=
  countedGuard.decidablePermits node (fun _ => inferInstanceAs (Decidable (LoadsStored _ _)))
    (fun request => inferInstanceAs (Decidable (TriesNext node request → ¬ Counted node)))
    (.isTrue trivial) label

section

variable {env : Env α} {valid : ValidatorSet → Prop} {node : Node α}
variable {rules : Proc.Rules (Node α) Answer}

theorem wp_updateStateIndex_rotated
    (hrules : ∀ node : Node α, RotatedDisk env valid node.snapshot → rules.crash node)
    (hcodec : Codec env.tm valid) (index : UInt64) (hnode : RotatedNode env valid node.snapshot) :
    (updateStateIndex env index).wp rules
      (Proc.Ends (fun _ later => RotatedNode env valid later.snapshot)
        (fun later => RotatedNode env valid later.snapshot)
        (fun later => RotatedDisk env valid later.snapshot)) node := by
  have hmemory := hnode.memory.setSLStateIndex index
  have hindexed : RotatedNode env valid (node.mapState (·.setSLStateIndex index)).snapshot :=
    ⟨⟨hnode.record, hnode.saved⟩, hmemory⟩
  apply wp_updateStateIndex_keeping hrules (fun _ h => h.toRotatedDisk) hnode.toRotatedDisk hindexed
  intro message hmessage
  have hdisk := hindexed.toRotatedDisk.store (hmemory.record_of_toProto hcodec hmessage)
  rw [← snapshot_apply_state] at hdisk
  exact ⟨hdisk, hmemory⟩

section

variable (hcodec : Codec env.tm valid)
variable (hrules : ∀ node : Node α, node.core.Always ∧ RotatedDisk env valid node.snapshot →
  rules.crash node)

include hcodec hrules

theorem rotation_apply :
    ApplyInvariant env rules (fun node => (node.core.Idle ∧ RotatedNode env valid node.snapshot) ∧
        ¬ Counted node)
      (fun node => node.core.Idle ∧ RotatedNode env valid node.snapshot)
      (fun node => node.core.Always ∧ RotatedDisk env valid node.snapshot) where
  crash := hrules
  always_of_idle _ h := ⟨h.1.1.always, h.1.2.toRotatedDisk⟩
  failed_of_idle _ h := h.1
  gossip _ _ _ h := h
  applyBlock node block commit h := by
    apply Proc.wp_ends_mono (Proc.wp_ends_and (wp_applyBlock env block commit (fun _ h => h) h.1.1)
      (wp_applyBlock_rotated (fun _ h => h) hcodec h.1.1 h.1.2 h.2)
      fun later halways hdisk => hrules later ⟨halways, hdisk⟩)
    intro _ later hlater
    exact ⟨⟨hlater.1, hlater.2.1⟩, hlater.2.2.1⟩

theorem wp_serve_rotated
    (request : Request) (hnode : node.core.Idle ∧ RotatedNode env valid node.snapshot)
    (hguard : TriesNext node request → ¬ Counted node) :
    (serve env request).wp rules (Proc.Ends
        (fun _ later => later.core.Idle ∧ RotatedNode env valid later.snapshot)
        (fun later => later.core.Idle ∧ RotatedNode env valid later.snapshot)
        (fun later => later.core.Always ∧ RotatedDisk env valid later.snapshot)) node := by
  apply (rotation_apply hcodec hrules).serve_of_tries request
  · intro index
    exact Proc.wp_ends_and (wp_updateStateIndex env index (fun _ h => h) hnode.1)
      (wp_updateStateIndex_rotated (fun _ h => h) hcodec index hnode.2)
      fun later halways hdisk => hrules later ⟨halways, hdisk⟩
  · exact fun _ => hnode
  · intro later hlater
    exact hlater.1
  · exact hnode
  · exact ⟨hnode.1.always, hnode.2.toRotatedDisk⟩
  · intro htries
    exact ⟨hnode, hguard htries⟩

end

theorem eq_zero_of_succ_eq_one {height : Int64} (hone : height + 1 = 1) : height = 0 := by
  calc
    height = height + 1 - 1 := by simp
    _ = 0 := by rw [hone]; rfl

theorem rotated_initialised (hcodec : Codec env.tm valid) {state : State}
    (hinitial : state.initialHeight = env.genesis.initialHeight)
    (hblockID : env.genesis.initialHeight = 1 → PlainBlockID state.lastBlockID)
    (hfirst : state.lastBlockHeight + 1 = env.genesis.initialHeight)
    (hsome : initialValidators env ≠ []) : Rotated env valid (initialisedState env node state) := by
  let set := env.tm.incrementProposerPriority (env.tm.newValidatorSet (initialValidators env))
  obtain ⟨hnext, hvalidators, hlast, hid⟩ := updateInitChainState_sets env state
      (env.app.initChain node.app.working (initChainRequest env)).2
      (initialValidators env)
  have hprogress := updateInitChainState_progress env state
    (env.app.initChain node.app.working (initChainRequest env)).2
    (initialValidators env)
  have hset : valid set := hcodec.valid_increment _ (hcodec.valid_new _ hsome)
  have hheight (hone : env.genesis.initialHeight = 1) :
      (initialisedState env node state).lastBlockHeight = 0 := by
    rw [hone] at hfirst
    exact (congrArg Progress.lastBlockHeight hprogress).trans (eq_zero_of_succ_eq_one hfirst)
  have hzero (hone : env.genesis.initialHeight = 1) :
      lastBlock (initialisedState env node state) = 0 := by
    rw [lastBlock, hheight hone]
    rfl
  refine ⟨?_, fun hone => ⟨⟨?_, ?_, ?_, ?_, ?_, ?_⟩, ?_, ?_⟩, fun hone _ => ?_⟩
  · exact (congrArg Progress.initialHeight hprogress).trans hinitial
  · exact hnext ▸ hset
  · exact hvalidators ▸ hset
  · exact hlast ▸ hset
  · exact congrArg env.tm.validatorsHash (hnext.trans hvalidators.symm)
  · exact hid ▸ hblockID hone
  · intro hlegacy
    have hgt := hlegacy.2
    rw [hheight hone] at hgt
    exact absurd hgt (by decide)
  · rw [hzero hone]
    exact hnext
  · rw [hzero hone]
    exact hvalidators
  · rw [hzero hone]
    exact hlast

theorem InitialState.rotated {state : State} {base : UInt64}
    (hnode : RotatedDisk env valid node.snapshot)
    (hstate : InitialState env True node state height base) :
    state.initialHeight = env.genesis.initialHeight ∧
      (env.genesis.initialHeight = 1 → PlainBlockID state.lastBlockID) ∧
      (state.lastBlockHeight + 1 ≠ env.genesis.initialHeight → Rotated env valid state) := by
  cases hstate with
  | loaded hload =>
    obtain ⟨message, hmessage, hfrom⟩ := loadState_eq_ok.1 hload
    have hrotated := (hnode.record message hmessage).rotated hfrom
    exact ⟨hrotated.initial, fun hone => (hrotated.sets hone).sound.blockID, fun _ => hrotated⟩
  | genesis hload =>
    refine ⟨rfl, fun _ => ⟨[], Or.inl rfl, rfl⟩, fun hblocks => ?_⟩
    have hne (hone : env.genesis.initialHeight = 1) : False := by
      apply hblocks
      rw [hone]
      rfl
    exact ⟨rfl, fun hone => (hne hone).elim, fun hone => (hne hone).elim⟩

theorem bootSpec_rotated (hcodec : Codec env.tm valid)
    (hrules : ∀ node : Node α, RotatedDisk env valid node.snapshot → rules.crash node)
    (hnode : RotatedDisk env valid node.snapshot) :
    BootSpec env rules True (fun later => RotatedNode env valid later.snapshot)
      (fun later => RotatedDisk env valid later.snapshot) node where
  start := hrules _ hnode
  read _ _ _ := Or.inr trivial
  loading height base _ :=
    have hdisk : RotatedDisk env valid (node.loaded height base).snapshot :=
      ⟨hnode.record, hnode.saved⟩
    ⟨hrules _ hdisk, hdisk⟩
  resume state height base hstate hblocks :=
    ⟨⟨hnode.record, hnode.saved⟩, (hstate.rotated hnode).2.2 hblocks⟩
  initialised state height base hstate hfirst := by
    intro started
    have hstarted : RotatedDisk env valid started.snapshot := ⟨hnode.record, hnode.saved⟩
    refine ⟨hrules _ hstarted, hstarted, fun message hsome hmessage => ?_⟩
    have hrotated : Rotated env valid (initialisedState env node state) :=
      rotated_initialised hcodec (hstate.rotated hnode).1 (hstate.rotated hnode).2.1 hfirst hsome
    have hrecorded := hstarted.store (hrotated.record_of_toProto hcodec hmessage)
    rw [← snapshot_apply_state] at hrecorded
    exact ⟨hrules _ hrecorded, hrecorded, ⟨⟨hrecorded.record, hrecorded.saved⟩, hrotated⟩⟩

theorem rotation_certificate (hcodec : Codec env.tm valid) (app : α) :
    Certificate (system env) countedGuard (freshNode app)
      (fun node => node.core.Idle ∧ RotatedNode env valid node.snapshot)
      (fun node => node.core.Always ∧ RotatedDisk env valid node.snapshot)
      (fun node => node.core.Down ∧ RotatedDisk env valid node.snapshot) where
  start := by
    refine ⟨freshNode_down app, ?_, ?_⟩
    · intro message hmessage
      exact absurd hmessage (by simp [Node.snapshot, freshNode, Db.empty])
    · intro hpos
      exact absurd hpos (Nat.lt_irrefl 0)
  always_of_durable _ h := ⟨h.1.always, h.2⟩
  always_of_idle _ h := ⟨h.1.always, h.2.toRotatedDisk⟩
  crash _ h _ := ⟨crash_core h.1, ⟨h.2.record, h.2.saved⟩⟩
  boot _ h := Proc.wp_ends_and (wp_newManager env (fun _ h => h) (fun _ _ => Or.inl) h.1)
      (wp_newManager_of (bootSpec_rotated hcodec (fun _ h => h) h.2))
      fun _ => And.intro
  serve _ request h hcall := wp_serve_rotated hcodec (fun _ h => h) request h hcall

theorem sets_of_height (hidle : node.core.Idle) (hnode : RotatedNode env valid node.snapshot)
    (hpos : height ≠ 0) (hheight : node.height = height)
    (hblock : node.lastState.lastBlockHeight.toUInt64 = height) :
    node.lastState.validators = setAt env (height.toNat - 1) ∧
      node.lastState.nextValidators = setAt env height.toNat ∧
      node.lastState.lastValidators = setAt env (height.toNat - 1) ∧
      ∃ set, env.tm.validatorSetToProto (setAt env (height.toNat - 1)) = .ok set ∧
        node.db (.validators height) = some set := by
  have hnat : height.toNat ≠ 0 := by
    rw [← UInt64.toNat_zero]
    exact fun heq => hpos (UInt64.toNat_inj.1 heq)
  have hlast : lastBlock node.lastState = height.toNat := congrArg UInt64.toNat hblock
  have hstore : node.core.height.toNat = height.toNat := congrArg UInt64.toNat hheight
  have hinitial : node.lastState.initialHeight = 1 := by
    apply (hidle.memory.initial_eq_one _).resolve_right id
    rw [← hlast] at hnat
    exact hnat
  have hone := hnode.memory.initial.symm.trans hinitial
  -- the application is not ahead of the store, or the state would be as well
  have happ : node.core.appHeight.toNat = height.toNat := by
    have hle := hidle.always.height_le
    have hup := hidle.memory.app_le.resolve_right And.left
    by_cases hahead : node.core.appHeight.toNat = node.core.height.toNat + 1
    · have hexecuted : lastBlock node.lastState = node.core.height.toNat + 1 :=
        (hidle.memory.executed hahead).resolve_right And.left
      omega
    · omega
  have hstored : node.lastState.lastStoreHeight = height := by
    have hle := hidle.memory.store_le
    have hup := hidle.memory.lastStore_le
    have heq : node.core.memory.lastStoreHeight.toNat = height.toNat := by omega
    exact UInt64.toNat_inj.1 heq
  have hmemory : Rotated env valid node.lastState := hnode.memory
  have hsets := hmemory.sets hone
  have happ' : node.app.lastBlockHeight.toUInt64 = height := UInt64.toNat_inj.1 happ
  refine ⟨?_, ?_, ?_, ?_⟩
  · rw [hsets.current, hlast]
  · rw [hsets.next, hlast]
  · rw [hmemory.last hone (hstored.trans hblock.symm), hlast]
  · have hsaved := hnode.saved (by
      change 0 < node.app.lastBlockHeight.toUInt64.toNat
      rw [happ']
      omega)
    change ∃ set, env.tm.validatorSetToProto
        (setAt env (node.app.lastBlockHeight.toUInt64.toNat - 1)) = .ok set ∧
      node.db (.validators node.app.lastBlockHeight.toUInt64) = some set
      at hsaved
    rwa [happ'] at hsaved

end

/-- In every run that does not try a block again while the state counts it and
the application has not committed it, and in which `LoadState` does not fail, an applied
block leaves the sets that one uninterrupted call leaves. -/
theorem sets_of_uninterrupted {env : Env α} {valid : ValidatorSet → Prop}
    (hcodec : Codec env.tm valid) (app : α) {node later : Node α}
    (hnode : Reachable (system env) countedGuard (freshNode app) ⟨node, .idle⟩)
    (hcounted : ¬ Counted node) {block : Block} {commit : Commit}
    (hnext : block.header.height = node.height + 1)
    (happlied : ((applyBlock env block commit).exec (fun _ => .ok) node).2 = .ok ())
    (hlater : Reachable (system env) countedGuard (freshNode app) ⟨later, .idle⟩)
    (hheight : later.height = block.header.height)
    (hblock : later.lastState.lastBlockHeight.toUInt64 = block.header.height) :
    let direct := ((applyBlock env block commit).exec (fun _ => .ok) node).1
    later.lastState.validators = direct.lastState.validators ∧
      later.lastState.nextValidators = direct.lastState.nextValidators ∧
      later.lastState.lastValidators = direct.lastState.lastValidators ∧
      later.db (.validators block.header.height) = direct.db (.validators block.header.height) := by
  intro direct
  have hstart : node.core.Idle ∧ RotatedNode env valid node.snapshot :=
    (rotation_certificate hcodec app).holds hnode
  have hend : later.core.Idle ∧ RotatedNode env valid later.snapshot :=
    (rotation_certificate hcodec app).holds hlater
  have hpos := next_ne_zero hstart.1 hnext
  let rules : Proc.Rules (Node α) Answer := ⟨fun _ _ => True, fun _ => True⟩
  have hcall : (applyBlock env block commit).wp rules _ node :=
    Proc.wp_ends_and (wp_applyBlock env block commit (fun _ h => h) hstart.1)
      (wp_applyBlock_rotated (fun _ h => h) hcodec hstart.1 hstart.2 hcounted)
      fun _ _ _ => trivial
  have hdirect := Proc.exec_of_wp hcall (fun _ => .ok) fun _ _ => trivial
  rw [happlied] at hdirect
  obtain ⟨hidle, hrotated, _, hdone⟩ := hdirect
  obtain ⟨hheight', hblock'⟩ := hdone hnext
  obtain ⟨hcurrent, hnextSet, hlast, set, hset, hsaved⟩ :=
    sets_of_height hend.1 hend.2 hpos hheight hblock
  obtain ⟨hcurrent', hnextSet', hlast', set', hset', hsaved'⟩ :=
    sets_of_height hidle hrotated hpos hheight' hblock'
  refine ⟨hcurrent.trans hcurrent'.symm, hnextSet.trans hnextSet'.symm, hlast.trans hlast'.symm, ?_⟩
  rw [hsaved, Except.ok.inj (hset.symm.trans hset')]
  exact hsaved'.symm

/-! ## A set with two validators -/

namespace Reference

open Types.Reference

def mostPriority (validators : List Validator) : Option Validator :=
  validators.foldl (fun best validator =>
    match best with
    | none => some validator
    | some other =>
      if other.proposerPriority < validator.proposerPriority then
        some validator
      else some other) none

def rotatePriorities (set : ValidatorSet) : ValidatorSet :=
  let raised := set.validators.map fun validator =>
    { validator with
      proposerPriority := validator.proposerPriority + validator.votingPower }
  let total := (set.validators.map Validator.votingPower).sum
  let lower (validator : Validator) : Validator :=
    if some validator = mostPriority raised then
      { validator with
        proposerPriority := validator.proposerPriority - total }
    else validator
  ⟨raised.map lower, (mostPriority raised).map lower⟩

/-- The reference instance with this rotation, which a new set has made once. -/
def rotatingTendermint : Tendermint :=
  { tendermint with
    incrementProposerPriority := rotatePriorities
    newValidatorSet := fun validators => rotatePriorities (tendermint.newValidatorSet validators) }

def rotatingEnv : Env (List Tx) :=
  { env with
    tm := rotatingTendermint
    sequencersList := [proposer, ⟨[8], .proposer⟩] }

theorem pubKeys_rotatePriorities (set : ValidatorSet) :
    (rotatePriorities set).validators.map Validator.pubKey =
      set.validators.map Validator.pubKey := by
  simp only [rotatePriorities, List.map_map]
  apply List.map_congr_left
  intro validator _
  simp only [Function.comp_apply]
  split <;> rfl

theorem rotatePriorities_ne_nil {set : ValidatorSet} (hset : set.validators ≠ []) :
    (rotatePriorities set).validators ≠ [] := by
  intro hnil
  apply hset
  have hkeys := pubKeys_rotatePriorities set
  rw [hnil] at hkeys
  exact List.map_eq_nil_iff.1 hkeys.symm

theorem rotatingCodec : Codec rotatingEnv.tm fun set => set.validators ≠ [] where
  valid_new _ hvalidators := rotatePriorities_ne_nil hvalidators
  valid_increment _ hset := rotatePriorities_ne_nil hset
  hash_increment set _ := by
    have hkeys := pubKeys_rotatePriorities set
    change digest ((rotatePriorities set).validators.flatMap Validator.pubKey) =
      digest (set.validators.flatMap Validator.pubKey)
    rw [List.flatMap_def, List.flatMap_def, hkeys]
  validatorSet set hset := ⟨set, rfl, if_neg hset⟩
  blockID _ _ := rfl

def rotatingBlock : Block := Executor.createBlock rotatingEnv.tm rotatingEnv.exec 1
    ⟨0, FixedBytes.zero 32, [[1]], default⟩ (FixedBytes.zero 32)
    (newFromGenesisDoc rotatingEnv.tm rotatingEnv.genesis) [[1]] 5

def applyRotating : Request := .gossip rotatingBlock (commitFor rotatingBlock.header)

def failedBatch : List (Label Answer Request) :=
  firstBoot ++ .call applyRotating :: steps 15 ++ [.step .failBefore, .ret]

def directly (node : Node (List Tx)) : Node (List Tx) × Result Error Unit :=
  (applyBlock rotatingEnv rotatingBlock (commitFor rotatingBlock.header)).exec (fun _ => .ok) node

end Reference

open Reference

/-- Trying the block again rotates the sets a second time. -/
theorem sets_rotated_twice : ∃ node later, ReachableNode rotatingEnv [] ⟨node, .idle⟩ ∧
      ReachableNode rotatingEnv [] ⟨later, .idle⟩ ∧
      rotatingBlock.header.height = node.height + 1 ∧
      later.height = rotatingBlock.header.height ∧
      later.lastState.lastBlockHeight.toUInt64 = rotatingBlock.header.height ∧
      let direct := (applyBlock rotatingEnv rotatingBlock
        (Types.Reference.commitFor rotatingBlock.header)).exec (fun _ => .ok) node
      direct.2 = .ok () ∧ later.lastState.validators ≠ direct.1.lastState.validators ∧
        later.lastState.nextValidators ≠ direct.1.lastState.nextValidators ∧
        later.lastState.lastValidators ≠ direct.1.lastState.lastValidators ∧
        later.db (.validators rotatingBlock.header.height) ≠
          direct.1.db (.validators rotatingBlock.header.height) := by
  have hdirect : ∃ node, ReachableNode rotatingEnv [] ⟨node, .idle⟩ ∧
      rotatingBlock.header.height = node.height + 1 ∧
      (directly node).2 = .ok () ∧
      (directly node).1.lastState.validators = setAt rotatingEnv 0 ∧
      (directly node).1.lastState.nextValidators = setAt rotatingEnv 1 ∧
      (directly node).1.lastState.lastValidators = setAt rotatingEnv 0 ∧
      (directly node).1.db (.validators 1) = some (setAt rotatingEnv 0) :=
    exists_idleNode firstBoot (by decide +kernel)
  have hretried : ∃ later, ReachableNode rotatingEnv [] ⟨later, .idle⟩ ∧
      later.height = 1 ∧ later.lastState.lastBlockHeight.toUInt64 = 1 ∧
      later.lastState.validators = setAt rotatingEnv 1 ∧
      later.lastState.nextValidators = setAt rotatingEnv 2 ∧
      later.lastState.lastValidators = setAt rotatingEnv 1 ∧
      later.db (.validators 1) = some (setAt rotatingEnv 1) :=
    exists_idleNode (failedBatch ++ .call applyRotating :: Reference.steps 26 ++ [.ret])
      (by decide +kernel)
  have hfirst : setAt rotatingEnv 1 ≠ setAt rotatingEnv 0 := by
    decide +kernel
  have hsecond : setAt rotatingEnv 2 ≠ setAt rotatingEnv 1 := by
    decide +kernel
  obtain ⟨node, hnode, hnext, hok, hcurrent, hset, hlast, hsaved⟩ := hdirect
  obtain ⟨later, hlater, hheight, hblock, hcurrent', hset', hlast', hsaved'⟩ := hretried
  refine ⟨node, later, hnode, hlater, hnext, hheight, hblock, hok,
    fun heq => ?_, fun heq => ?_, fun heq => ?_, fun heq => ?_⟩
  · exact hfirst (hcurrent'.symm.trans (heq.trans hcurrent))
  · exact hsecond (hset'.symm.trans (heq.trans hset))
  · exact hfirst (hlast'.symm.trans (heq.trans hlast))
  · exact hfirst (Option.some.inj (hsaved'.symm.trans (heq.trans hsaved)))

/-- A crash between the commit of the application and the last update of the
state leaves the sets as they are. -/
theorem sets_of_uninterrupted_reference : ∃ node later,
      Reachable (system rotatingEnv) countedGuard (freshNode []) ⟨node, .idle⟩ ∧
      Reachable (system rotatingEnv) countedGuard (freshNode []) ⟨later, .idle⟩ ∧
      later.height = 1 ∧ later.app.calls.contains .restart ∧
      later.lastState.validators = (directly node).1.lastState.validators ∧
      later.lastState.nextValidators = (directly node).1.lastState.nextValidators ∧
      later.lastState.lastValidators = (directly node).1.lastState.lastValidators ∧
      later.db (.validators 1) = (directly node).1.db (.validators 1) := by
  have hbooted : ∃ node, Reachable (system rotatingEnv) countedGuard
        (freshNode []) ⟨node, .idle⟩ ∧
      ¬ Counted node ∧
      rotatingBlock.header.height = node.height + 1 ∧
      (directly node).2 = .ok () :=
    exists_idle_of_runGuarded firstBoot (by decide +kernel)
  have haligned : ∃ later, Reachable (system rotatingEnv) countedGuard
        (freshNode []) ⟨later, .idle⟩ ∧
      later.height = 1 ∧ later.lastState.lastBlockHeight.toUInt64 = 1 ∧
      later.app.calls.contains .restart :=
    exists_idle_of_runGuarded (firstBoot ++ .call applyRotating :: Reference.steps 19 ++
        .crash :: .boot :: Reference.steps 4 ++
        .ret :: .call applyRotating :: Reference.steps 11 ++ [.ret])
      (by decide +kernel)
  obtain ⟨node, hnode, hcounted, hnext, happlied⟩ := hbooted
  obtain ⟨later, hlater, hheight, hblock, hrestart⟩ := haligned
  exact ⟨node, later, hnode, hlater, hheight, hrestart,
    sets_of_uninterrupted rotatingCodec [] hnode hcounted hnext happlied hlater hheight hblock⟩

end Dymint.Manager
