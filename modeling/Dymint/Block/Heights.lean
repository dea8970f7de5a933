import Dymint.Block.Course
import Dymint.Block.System
import Mathlib.Algebra.Order.Ring.Nat

/-!
# The heights of a node

The store, the persisted state, the state in memory and the application each
advance at a different step of `applyBlock`.  Whatever fails on the way, they
stay within one block of each other, in such a way that the height gate and the
alignment with the application let every height be committed once and in order.
-/

namespace Dymint.Manager

open Procedure Dymint.Types Store CrashSystem

/-! ## How far each component has come -/

def committedHeights (calls : List AbciCall) : List ℕ := calls.filterMap fun
    | .commit height => some height.toUInt64.toNat
    | _ => none

structure Progress where
  initialHeight : Int64
  lastBlockHeight : Int64
  lastStoreHeight : UInt64

def stateProgress (state : State) : Progress :=
  ⟨state.initialHeight, state.lastBlockHeight, state.lastStoreHeight⟩

def pbProgress (state : Pb.State) : Progress :=
  ⟨state.initialHeight, state.lastBlockHeight, state.lastStoreHeight⟩

/-- What the order of commits depends on. -/
structure Core where
  persisted : Option Progress
  memory : Progress
  height : UInt64
  appHeight : UInt64
  committed : List ℕ
  unread : Bool

def Node.core {α : Type} (node : Node α) : Core where
  persisted := (node.db .state).map pbProgress
  memory := stateProgress node.lastState
  height := node.height
  appHeight := node.app.lastBlockHeight.toUInt64
  committed := committedHeights node.app.calls
  unread := node.unread

/-- The recorded heights of a state fit a store at height `store` and an
application at height `app`: the application is at most one block ahead of the
store, and then the state has been updated for that block.  If a state may have
been `lost`, because its read failed, then the store may also start again from
nothing while the application keeps its height. -/
structure Progress.Tracks (progress : Progress) (store app : UInt64)
    (lost : Prop := False) : Prop where
  initial : 0 < progress.initialHeight
  started : progress.lastBlockHeight = 0 ∨ progress.initialHeight = 1 ∨ lost
  store_le : store.toNat ≤ progress.lastStoreHeight.toNat
  lastStore_le : progress.lastStoreHeight.toNat ≤ app.toNat
  app_le : app.toNat ≤ store.toNat + 1 ∨ lost ∧ progress.lastStoreHeight.toNat = 0
  lastBlock : progress.lastBlockHeight.toUInt64.toNat = store.toNat ∨
    progress.lastBlockHeight.toUInt64.toNat = store.toNat + 1 ∨
    lost ∧ progress.lastBlockHeight = 0
  executed : app.toNat = store.toNat + 1 →
    progress.lastBlockHeight.toUInt64.toNat = store.toNat + 1 ∨
    lost ∧ progress.lastBlockHeight = 0

/-- What holds of everything that survives a crash. -/
structure Durable (persisted : Option Progress) (appHeight : UInt64)
    (committed : List ℕ) (lost : Prop := False) : Prop where
  uncommitted : committed = [] → appHeight = 0
  committed : committed = List.range' 1 appHeight.toNat ∨ lost
  bounded : appHeight.toNat ≤ 2 ^ 63
  fresh : persisted = none → appHeight = 0
  tracks : ∀ progress, persisted = some progress →
    progress.Tracks progress.lastStoreHeight appHeight lost

/-- What holds at every moment. -/
structure Core.Always (core : Core) (lost : Prop := False) : Prop
    extends Durable core.persisted core.appHeight core.committed lost where
  height_le : core.height.toNat ≤ core.appHeight.toNat
  app_le : core.height = 0 ∨ core.appHeight.toNat ≤ core.height.toNat + 1

/-- What holds while the manager is up and between its calls. -/
structure Core.Idle (core : Core) (lost : Prop := False) : Prop
    extends Durable core.persisted core.appHeight core.committed lost where
  memory : core.memory.Tracks core.height core.appHeight lost

structure Core.Down (core : Core) (lost : Prop := False) : Prop
    extends Durable core.persisted core.appHeight core.committed lost where
  height : core.height = 0
  unread : core.unread = true

variable {lost : Prop} {core : Core}

theorem Core.Idle.always (hidle : core.Idle lost) : core.Always lost where
  toDurable := hidle.toDurable
  height_le := hidle.memory.store_le.trans hidle.memory.lastStore_le
  app_le := by
    have hstore := hidle.memory.store_le
    rw [← UInt64.toNat_inj, UInt64.toNat_zero]
    rcases hidle.memory.app_le with happ | ⟨_, hlast⟩
    · exact Or.inr happ
    · exact Or.inl (by omega)

theorem Core.Down.always (hdown : core.Down lost) : core.Always lost where
  toDurable := hdown.toDurable
  height_le := by simp [hdown.height]
  app_le := Or.inl hdown.height

theorem Core.Idle.of_eq {core' : Core} (hidle : core.Idle lost) (heq : core' = core) :
    core'.Idle lost :=
  heq ▸ hidle

variable {progress : Progress} {store app : UInt64}

theorem Progress.Tracks.restart (htracks : progress.Tracks store app lost) :
    progress.Tracks progress.lastStoreHeight app lost := by
  have hstore := htracks.store_le
  have hlast := htracks.lastStore_le
  have happ := htracks.app_le
  refine ⟨htracks.initial, htracks.started, le_rfl, hlast, happ.imp_left (by omega), ?_, ?_⟩
  · by_cases hsame : progress.lastStoreHeight.toNat = store.toNat
    · rw [hsame]
      exact htracks.lastBlock
    · -- the block is recorded as stored, so the application has committed it
      have hexec := htracks.executed (by omega)
      exact hexec.imp (by omega) Or.inr
  · intro hahead
    have hsame : progress.lastStoreHeight.toNat = store.toNat := by omega
    rw [hsame] at hahead ⊢
    exact htracks.executed hahead

theorem Progress.Tracks.initial_eq_one (htracks : progress.Tracks store app lost)
    (hblock : progress.lastBlockHeight.toUInt64.toNat ≠ 0) :
    progress.initialHeight = 1 ∨ lost := by
  rcases htracks.started with hzero | hone
  · rw [hzero] at hblock
    exact absurd rfl hblock
  · exact hone

/-- Persisting a state that fits the application keeps the invariant. -/
theorem Durable.persist {persisted : Option Progress} {appHeight : UInt64} {committed : List ℕ}
    (hdurable : Durable persisted appHeight committed lost)
    (htracks : progress.Tracks progress.lastStoreHeight appHeight lost) :
    Durable (some progress) appHeight committed lost where
  committed := hdurable.committed
  uncommitted := hdurable.uncommitted
  bounded := hdurable.bounded
  fresh := by simp
  tracks other hother := Option.some.inj hother ▸ htracks

theorem toNat_toUInt64_lt {height : Int64} (hpos : 0 < height) :
    height.toUInt64.toNat < 2 ^ 63 := by
  have hint := Int64.lt_iff_toInt_lt.1 hpos
  have hmod : height.toInt = (height.toUInt64.toNat : Int).bmod (2 ^ 64) :=
    BitVec.toInt_eq_toNat_bmod height.toBitVec
  have hlt := height.toUInt64.toNat_lt
  rw [hmod, Int.bmod_def] at hint
  simp at hint
  split at hint <;> omega

/-! ## The next block -/

theorem toNat_next (halways : core.Always lost) {height : UInt64}
    (hnext : height = core.height + 1) : height.toNat = core.height.toNat + 1 := by
  have hle := halways.height_le
  have hbound := halways.bounded
  rw [hnext, UInt64.toNat_add, UInt64.toNat_one]
  omega

theorem eq_add_one_of_toNat {height store : UInt64} (hnext : height.toNat = store.toNat + 1) :
    height = store + 1 := by
  apply UInt64.toNat_inj.1
  have hlt := height.toNat_lt
  rw [UInt64.toNat_add, UInt64.toNat_one]
  omega

theorem height_lt_next {α : Type} {node : Node α} (hidle : node.core.Idle lost) :
    node.height < node.height + 1 := by
  have hnext := toNat_next hidle.always rfl
  rw [UInt64.lt_iff_toNat_lt]
  exact lt_of_lt_of_eq (Nat.lt_succ_self _) hnext.symm

namespace Core

variable (core : Core) (height : UInt64)

def record : Core :=
  { core with memory := { core.memory with lastStoreHeight := height } }

def persist : Core := { core with persisted := some core.memory }

def execute : Core :=
  { core with memory := { core.memory with lastBlockHeight := height.toInt64 } }

def commit : Core :=
  { core with
    appHeight := height
    committed := core.committed ++ [height.toNat] }

def catchUp : Core := { core with height := height }

def reach : Point → Core
  | .start | .hashed | .saved | .delivering .. | .executed _ => core
  | .recorded | .rotated | .resulted => core.record height
  | .caughtUp => (core.record height).persist
  | .aligned => (core.record height).persist.catchUp height
  | .remembered _ => core.execute height
  | .persisted _ => (core.execute height).persist
  | .committed .. | .published .. | .pruned .. =>
    (core.execute height).persist.commit height
  | .stored .. =>
    { (core.execute height).commit height with
      persisted := some ((core.execute height).record height).memory }
  | .finished => (((core.execute height).commit height).record height).persist
  | .done =>
    (((core.execute height).commit height).record height).persist.catchUp height

end Core

/-- With the application one block ahead, recording that block as stored keeps
the invariant. -/
theorem Core.Idle.record (hidle : core.Idle lost) {height : UInt64}
    (hnext : height = core.height + 1) (happ : core.appHeight = height) :
    (core.record height).Idle lost where
  toDurable := hidle.toDurable
  memory := by
    have hheight := toNat_next hidle.always hnext
    have hexec := hidle.memory.executed (by rw [happ, hheight])
    refine ⟨hidle.memory.initial, hidle.memory.started, ?_, ?_, Or.inl ?_, Or.inr hexec,
      fun _ => hexec⟩
    · simp only [Core.record]
      omega
    · simp [Core.record, happ]
    · simp only [Core.record]
      rw [happ, hheight]

theorem Core.Idle.persist (hidle : core.Idle lost) : core.persist.Idle lost where
  toDurable := hidle.toDurable.persist hidle.memory.restart
  memory := hidle.memory

section

variable {height : UInt64} (hidle : core.Idle lost) (hnext : height = core.height + 1)

include hidle hnext

theorem Core.Idle.catchUp (happ : core.appHeight = height)
    (hlast : core.memory.lastStoreHeight = height) : (core.catchUp height).Idle lost where
  toDurable := hidle.toDurable
  memory := by
    have hheight := toNat_next hidle.always hnext
    have hexec := hidle.memory.executed (by rw [happ, hheight])
    refine ⟨hidle.memory.initial, hidle.memory.started, ?_, ?_, Or.inl ?_, ?_, ?_⟩
    · simp [Core.catchUp, hlast]
    · simp [Core.catchUp, hlast, happ]
    · simp [Core.catchUp, happ]
    · simp only [Core.catchUp]
      exact hexec.imp (by omega) Or.inr
    · intro hahead
      simp [Core.catchUp, happ] at hahead

theorem Core.Idle.finish (happ : core.appHeight = height) :
    ((core.record height).persist.catchUp height).Idle lost :=
  (hidle.record hnext happ).persist.catchUp hnext happ rfl

/-- Unless the application is ahead, all components are at the same height, or the
store has lost what it had. -/
theorem Core.Idle.execute_or (happ : core.appHeight ≠ height) :
    (core.appHeight = core.height ∨ lost ∧ core.height = 0) ∧
      core.memory.lastStoreHeight = core.height := by
  have hheight := toNat_next hidle.always hnext
  have hne : core.appHeight.toNat ≠ height.toNat := fun h =>
    happ (UInt64.toNat_inj.1 h)
  have hstore := hidle.memory.store_le
  have hlast := hidle.memory.lastStore_le
  simp only [← UInt64.toNat_inj, UInt64.toNat_zero]
  rcases hidle.memory.app_le with happle | ⟨hlost, hnone⟩
  · exact ⟨Or.inl (by omega), by omega⟩
  · exact ⟨Or.inr ⟨hlost, by omega⟩, by omega⟩

end

theorem Core.Idle.execute (hidle : core.Idle) {height : UInt64}
    (hnext : height = core.height + 1) (happ : core.appHeight ≠ height) :
    core.appHeight = core.height ∧ core.memory.lastStoreHeight = core.height :=
  (hidle.execute_or hnext happ).imp_left (·.resolve_right And.left)

theorem Core.Idle.initial_of_ahead (hidle : core.Idle) {height : UInt64}
    (hnext : height = core.height + 1) (happ : core.appHeight = height) :
    core.memory.initialHeight = 1 := by
  have hexec := hidle.memory.executed (by rw [happ, toNat_next hidle.always hnext])
  apply (hidle.memory.initial_eq_one _).resolve_right id
  rw [hexec.resolve_right And.left]
  exact Nat.succ_ne_zero _

section

variable {height : UInt64} (hidle : core.Idle lost) (hnext : height = core.height + 1)
variable (hfirst : core.memory.lastBlockHeight ≤ 0 → height = core.memory.initialHeight.toUInt64)

include hidle hnext hfirst

theorem Core.Idle.height_le : height.toNat ≤ 2 ^ 63 := by
  by_cases hpos : 0 < core.memory.lastBlockHeight
  · have hlt := toNat_toUInt64_lt hpos
    have hheight := toNat_next hidle.always hnext
    rcases hidle.memory.lastBlock with hblock | hblock | ⟨_, hzero⟩
    · omega
    · omega
    · rw [hzero] at hpos
      exact absurd hpos (by decide)
  · rw [hfirst (Int64.not_lt.1 hpos)]
    exact (toNat_toUInt64_lt hidle.memory.initial).le

theorem Core.Idle.initial_of_valid : core.memory.initialHeight = 1 ∨ lost := by
  rcases hidle.memory.started with hzero | hone
  · have hnone : (0 : Int64).toUInt64.toNat = 0 := rfl
    have hheight := toNat_next hidle.always hnext
    have hinitial := hfirst (by rw [hzero]; decide)
    rcases hidle.memory.lastBlock with hblock | hblock | hlost
    · have hone : height = 1 := by
        rw [hzero, hnone] at hblock
        apply UInt64.toNat_inj.1
        rw [UInt64.toNat_one]
        omega
      rw [← Int64.toInt64_toUInt64 core.memory.initialHeight, ← hinitial, hone]
      exact Or.inl rfl
    · rw [hzero, hnone] at hblock
      omega
    · exact Or.inr hlost.1
  · exact hone

end

/-- The heights when a valid block is executed. -/
structure Core.Ready (core : Core) (height : UInt64) (lost : Prop := False) : Prop
    extends core.Idle lost where
  next : height = core.height + 1
  app : core.appHeight = core.height ∨ lost ∧ core.height = 0
  lastStore : core.memory.lastStoreHeight = core.height
  initial : core.memory.initialHeight = 1 ∨ lost
  bound : height.toNat ≤ 2 ^ 63

theorem Core.Idle.ready (hidle : core.Idle lost) {height : UInt64}
    (hnext : height = core.height + 1) (happ : core.appHeight ≠ height)
    (hfirst : core.memory.lastBlockHeight ≤ 0 → height = core.memory.initialHeight.toUInt64) :
    core.Ready height lost where
  toIdle := hidle
  next := hnext
  app := (hidle.execute_or hnext happ).1
  lastStore := (hidle.execute_or hnext happ).2
  initial := hidle.initial_of_valid hnext hfirst
  bound := hidle.height_le hnext hfirst

section

variable {height : UInt64} (hready : core.Ready height lost)

include hready

/-- The state that counts the block fits the store, whether the application has
committed the block or not. -/
theorem Core.Ready.executed_tracks {app : UInt64} (happ : app = core.appHeight ∨ app = height) :
    (core.execute height).memory.Tracks core.height app lost := by
  have hnext := toNat_next hready.toIdle.always hready.next
  have hlast := congrArg UInt64.toNat hready.lastStore
  have hmemory := hready.memory.lastStore_le
  have happle : app.toNat ≤ core.height.toNat + 1 ∨
      lost ∧ core.memory.lastStoreHeight.toNat = 0 := by
    rcases happ with rfl | rfl
    · exact hready.memory.app_le
    · exact Or.inl hnext.le
  have hle : core.memory.lastStoreHeight.toNat ≤ app.toNat := by
    rcases happ with rfl | rfl <;> omega
  have hblock : (core.execute height).memory.lastBlockHeight.toUInt64.toNat =
        core.height.toNat + 1 := by
    rw [← hnext, Core.execute, UInt64.toUInt64_toInt64]
  exact ⟨hready.memory.initial, Or.inr hready.initial, hlast.ge, hle, happle,
    Or.inr (Or.inl hblock), fun _ => Or.inl hblock⟩

theorem Core.Ready.execute : (core.execute height).Idle lost where
  toDurable := hready.toDurable
  memory := hready.executed_tracks (Or.inl rfl)

theorem Core.Ready.commit : ((core.execute height).persist.commit height).Idle lost where
  committed := by
    rcases hready.app with happ | hlost
    · have hnext := toNat_next hready.toIdle.always hready.next
      simp only [Core.commit, Core.persist, Core.execute]
      rcases hready.committed with hcommitted | hlost
      · rw [hcommitted, happ, hnext, List.range'_1_concat, Nat.add_comm 1]
        exact Or.inl rfl
      · exact Or.inr hlost
    · exact Or.inr hlost.1
  uncommitted := by simp [Core.commit]
  bounded := hready.bound
  fresh := by simp [Core.commit, Core.persist]
  tracks := by
    intro progress hprogress
    obtain rfl : (core.execute height).memory = progress := by
      simpa [Core.commit, Core.persist] using hprogress
    exact (hready.executed_tracks (Or.inr rfl)).restart
  memory := hready.executed_tracks (Or.inr rfl)

end

/-! ## The heights on the course of a call -/

theorem toProto_progress {tm : Tendermint} {state : State} {pb : Pb.State}
    (hpb : state.toProto tm = .ok pb) : pbProgress pb = stateProgress state := by
  obtain ⟨_, _, _, _, _, _, rfl⟩ := State.toProto_eq_ok.1 hpb
  rfl

theorem committedHeights_log {calls : List AbciCall} {entry : AbciCall}
    (hentry : ∀ height, entry ≠ .commit height) :
    committedHeights (calls ++ [entry]) = committedHeights calls := by
  rw [committedHeights, List.filterMap_append]
  cases entry with
  | commit height => exact absurd rfl (hentry height)
  | _ => simp [committedHeights]

section

variable {α : Type} {rules : Proc.Rules (Node α) Answer}
variable {node start later : Node α}

theorem ignoresCalls_core : IgnoresCalls (Node.core : Node α → Core) := by
  intro node working entry hentry
  simp [Node.core, AppConn.log, committedHeights_log hentry]

theorem core_saveBlock (tm : Tendermint) (block : Block) (commit : Commit) (node : Node α) :
    Node.core { node with db := node.db.commit (saveBlock tm block commit) } = node.core := by
  simp [Node.core, saveBlock_state]

theorem core_persist {tm : Tendermint} {state : State} {message : Pb.State} {db : Db}
    (hmessage : state.toProto tm = .ok message) (hdb : db .state = some message) :
    Node.core { node with db := db } =
      { node.core with persisted := some (stateProgress state) } := by
  simp [Node.core, hdb, toProto_progress hmessage]

theorem core_commit (committed : α) (appHash : Bytes) {height : UInt64}
    (hworking : node.app.workingHeight = height.toInt64) :
    Node.core { node with app := node.app.commit committed appHash } = node.core.commit height := by
  simp [Node.core, Core.commit, AppConn.commit, AppConn.log, committedHeights, hworking]

variable {commit : Commit} {block : Block} {env : Env α}

theorem During.core_eq {point : Point} (hduring : During env block commit start point later) :
    later.core = start.core.reach block.header.height point := by
  have hlog {now : Node α} {app : AppConn α} {entry : AbciCall}
      (hentry : ∀ height, entry ≠ .commit height) {core : Core}
      (hnow : Node.core { now with app := app } = core) :
      Node.core { now with app := app.log entry } = core :=
    (ignoresCalls_core { now with app := app } app.working entry hentry).trans hnow
  induction hduring with
  | start | hashed => rfl
  | recorded _ ih => exact congrArg (Core.record · block.header.height) ih
  | caughtUp _ hmessage ih =>
    exact (core_persist hmessage (Db.apply_self ..)).trans (congrArg Core.persist ih)
  | aligned _ ih => exact congrArg (Core.catchUp · block.header.height) ih
  | saved => exact core_saveBlock ..
  | begun _ _ ih | delivered _ ih | ended _ ih => exact hlog (by simp) ih
  | remembered _ ih => exact congrArg (Core.execute · block.header.height) ih
  | persisted _ hmessage _ ih =>
    exact (core_persist hmessage (executionWrite_state ..)).trans (congrArg Core.persist ih)
  | committed hnow ih =>
    exact (core_commit _ _ hnow.appHeights.1).trans
      (congrArg (Core.commit · block.header.height) ih)
  | pruned _ _ _ _ _ ih => exact Eq.trans (by simp [Node.core, Node.cut, Db.pruneAll_state]) ih
  | stored _ hmessage ih =>
    rw [core_persist hmessage (Db.apply_self ..)]
    exact congrArg (fun core : Core => { core with
      persisted := some (core.record block.header.height).memory }) ih
  | finished _ ih => exact congrArg (Core.record · block.header.height) ih
  | done _ ih => exact congrArg (Core.catchUp · block.header.height) ih
  | rotated _ ih | resulted _ _ ih | published _ ih => exact ih

theorem Accepts.ready (hvalid : Accepts env block commit start) (hidle : start.core.Idle lost)
    (hnext : block.header.height = start.height + 1) :
    start.core.Ready block.header.height lost :=
  hidle.ready hnext hvalid.1 ((Executor.validate_eq_ok env.tm).1 hvalid.2).1.initialHeight

/-- The heights stay together wherever the call stops. -/
theorem During.idle {point : Point}
    (hduring : During env block commit start point later) (hidle : start.core.Idle lost)
    (hnext : block.header.height = start.height + 1) : later.core.Idle lost := by
  have hreached := hduring.reached
  rw [hduring.core_eq]
  have hready (hvalid : Accepts env block commit start) := hvalid.ready hidle hnext
  cases point with
  | start | hashed | saved | delivering | executed => exact hidle
  | recorded | rotated | resulted => exact hidle.record hnext hreached
  | caughtUp => exact (hidle.record hnext hreached).persist
  | aligned => exact hidle.finish hnext hreached
  | remembered => exact (hready hreached).execute
  | persisted => exact (hready hreached).execute.persist
  | committed | published | pruned => exact (hready hreached).commit
  | stored =>
    have hcommit := (hready hreached).commit
    exact ⟨(hcommit.record hnext rfl).persist.toDurable, hcommit.memory⟩
  | finished => exact ((hready hreached).commit.record hnext rfl).persist
  | done => exact (hready hreached).commit.finish hnext rfl

theorem wp_applyBlock (env : Env α) (block : Block) (commit : Commit)
    (hrules : ∀ node : Node α, node.core.Always lost → rules.crash node)
    (hidle : node.core.Idle lost) :
    (applyBlock env block commit).wp rules
      (Proc.Ends (fun _ later => later.core.Idle lost) (fun later => later.core.Idle lost)
        fun later => later.core.Always lost) node :=
  wp_applyBlock_keeping hrules (fun _ hlater => hlater.always) (height_lt_next hidle) hidle
    fun _ _ hnext hlater => hlater.idle hidle hnext

theorem wp_updateStateIndex (env : Env α) (index : UInt64)
    (hrules : ∀ node : Node α, node.core.Always lost → rules.crash node)
    (hidle : node.core.Idle lost) :
    (updateStateIndex env index).wp rules
      (Proc.Ends (fun _ later => later.core.Idle lost) (fun later => later.core.Idle lost)
        fun later => later.core.Always lost) node := by
  apply wp_updateStateIndex_keeping hrules (fun _ hlater => hlater.always) hidle.always hidle
  intro message hmessage
  apply hidle.persist.of_eq
  rw [core_persist hmessage (Db.apply_self ..)]
  rfl

/-- Every call keeps the heights together, whatever fails on the way. -/
theorem heights_serve (env : Env α)
    (hrules : ∀ node : Node α, node.core.Always lost → rules.crash node) :
    ServeInvariant env rules (fun node => node.core.Idle lost)
      (fun node => node.core.Always lost) where
  crash := hrules
  always_of_idle _ hidle := hidle.always
  gossip _ _ _ hidle := hidle
  applyBlock _ block commit hidle := wp_applyBlock env block commit hrules hidle
  updateStateIndex _ index hidle := wp_updateStateIndex env index hrules hidle

end

end Dymint.Manager
