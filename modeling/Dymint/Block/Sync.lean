import Dymint.Block.ExactlyOnce

/-!
# Following the settlement layer

`syncUntilTarget` asks the settlement layer for the batch after the last one
that it has recorded, fetches the blocks from the data availability layer,
applies them and records the batch.  Whether the recorded batches have been
applied depends on what the data availability layer returns.
-/

namespace Dymint.Manager

open Procedure Dymint.Types Store CrashSystem

/-- `settlement.ResultRetrieveBatch`. -/
structure SettlementBatch where
  stateIndex : UInt64
  endHeight : UInt64
  daHeight : UInt64

structure SettlementLayer where
  batch : UInt64 → SettlementBatch
  stateIndex_batch : ∀ index, (batch index).stateIndex = index
  endHeight_zero : (batch 0).endHeight = 0
  endHeight_mono : ∀ first last, first ≤ last → (batch first).endHeight ≤ (batch last).endHeight

/-- What one iteration of `syncUntilTarget` gets to see: whether
`RetrieveBatch` fails, and what the data availability layer returns. -/
structure SyncRound where
  settlementError : Option Error
  da : UInt64 → ResultRetrieveBatch

section

variable {α : Type} (env : Env α) (settlement : SettlementLayer)

/-- The loop of `syncUntilTarget`, as far as its inputs go. -/
def syncLoop (syncTarget : UInt64) : List SyncRound → UInt64 → M α Unit
  | [], _ => return ()
  | round :: rounds, currentHeight =>
    if currentHeight < syncTarget then do
      let slStateIndex ← Proc.read fun node => node.lastState.slStateIndex
      match round.settlementError with
      | some _ => syncLoop syncTarget rounds currentHeight
      | none =>
        let batch := settlement.batch (slStateIndex + 1)
        match ← (processNextDABatch env (round.da batch.daHeight)).attempt with
        | .error _ => return ()
        | .ok _ =>
          match ← (updateStateIndex env batch.stateIndex).attempt with
          | .error _ => return ()
          | .ok _ =>
            let currentHeight ← storeHeight
            syncLoop syncTarget rounds currentHeight
    else return ()

def syncUntilTarget (syncTarget : UInt64) (rounds : List SyncRound) : M α Unit := do
  let currentHeight ← storeHeight
  syncLoop env settlement syncTarget rounds currentHeight

/-- The calls of a node that follows the settlement layer. -/
inductive SyncRequest where
  | gossip (block : Block) (commit : Commit)
  | produce (input : ProduceInput)
  | sync (syncTarget : UInt64) (rounds : List SyncRound)
  | syncTarget (endHeight : UInt64)

def syncServe : SyncRequest → M α Unit
  | .gossip block commit => applyBlock env block commit
  | .produce input => produceBlock env input
  | .sync syncTarget rounds => syncUntilTarget env settlement syncTarget rounds
  | .syncTarget endHeight => updateSyncParams endHeight

def syncSystem : System (Node α) Answer Error SyncRequest where
  boot := newManager env
  serve := syncServe env settlement
  crash := crash

end

/-! ## The condition on the data availability layer -/

/-- The height that a call of `applyBlock` for a block of height `next` leads
to when it returns without an error. -/
def advance (height next : UInt64) : UInt64 :=
  if next = height + 1 then next else height

def reached (height : UInt64) (batches : List (Option Batch)) : UInt64 := batches.foldl
    (fun height batch => match batch with
      | none => height
      | some batch =>
        batch.blocks.foldl (fun height block => advance height block.header.height) height)
    height

def Covers (settlement : SettlementLayer) : List SyncRound → UInt64 → UInt64 → Prop
  | [], _, _ => True
  | round :: rounds, height, slStateIndex =>
    match round.settlementError with
    | some _ => Covers settlement rounds height slStateIndex
    | none =>
      let batch := settlement.batch (slStateIndex + 1)
      match fetchBatch (round.da batch.daHeight) with
      | .ok batches =>
        batch.endHeight ≤ reached height batches ∧
          Covers settlement rounds (reached height batches) batch.stateIndex
      | _ => True

instance decidableCovers (settlement : SettlementLayer) :
    ∀ rounds height slStateIndex, Decidable (Covers settlement rounds height slStateIndex)
  | [], _, _ => .isTrue trivial
  | round :: rounds, height, slStateIndex => by
      rw [Covers]
      have hrest := decidableCovers settlement rounds
      dsimp only
      split
      · infer_instance
      · split <;> infer_instance

/-- Only calls of `syncUntilTarget` are restricted; any step may fail and the
process may crash anywhere. -/
def coversGuard {α : Type} (settlement : SettlementLayer) : Guard (Node α) Answer SyncRequest where
  answer _ _ := True
  call node request :=
    match request with
    | .sync _ rounds =>
      Covers settlement rounds node.height node.lastState.slStateIndex
    | _ => True
  crash _ := True

instance {α : Type} (settlement : SettlementLayer) (node : Node α)
    (label : Label Answer SyncRequest) :
    Decidable ((coversGuard settlement).Permits node label) := by
  cases label with
  | call request =>
    cases request with
    | sync syncTarget rounds => exact decidableCovers settlement rounds _ _
    | _ => exact .isTrue trivial
  | _ => exact .isTrue trivial

/-! ## The invariant -/

variable {state : State} {tm : Tendermint} {height slStateIndex : UInt64}

section

variable {α : Type} {env : Env α} {settlement : SettlementLayer}
variable {rules : Proc.Rules (Node α) Answer} {node : Node α}

structure Synced (settlement : SettlementLayer) (node : Node α) : Prop where
  memory : (settlement.batch node.lastState.slStateIndex).endHeight ≤ node.height
  persisted : ∀ pb, node.db .state = some pb →
    (settlement.batch pb.slStateIndex).endHeight ≤ pb.lastStoreHeight

def KeepsIndex (height slStateIndex : UInt64) (state : State) : Prop :=
  state.slStateIndex = slStateIndex ∧ height ≤ state.lastStoreHeight

theorem toProto_slStateIndex {pb : Pb.State} (hpb : state.toProto tm = .ok pb) :
    pb.slStateIndex = state.slStateIndex := by
  obtain ⟨_, _, _, _, _, _, rfl⟩ := State.toProto_eq_ok.1 hpb
  rfl

theorem toProto_lastStoreHeight {pb : Pb.State} (hpb : state.toProto tm = .ok pb) :
    pb.lastStoreHeight = state.lastStoreHeight :=
  congrArg Progress.lastStoreHeight (toProto_progress hpb)

def RecordSynced (settlement : SettlementLayer) (db : Db) : Prop :=
  ∀ pb, db .state = some pb → (settlement.batch pb.slStateIndex).endHeight ≤ pb.lastStoreHeight

theorem RecordSynced.of_eq {db after : Db} (hdb : RecordSynced settlement db)
    (hafter : after .state = db .state) : RecordSynced settlement after :=
  fun pb hpb => hdb pb (hafter.symm.trans hpb)

theorem Synced.record {message : Pb.State} (hsynced : Synced settlement node)
    (hstate : KeepsIndex node.height node.lastState.slStateIndex state)
    (hmessage : state.toProto tm = .ok message) {db : Db} (hdb : db .state = some message) :
    RecordSynced settlement db := by
  intro pb hpb
  obtain rfl : message = pb := Option.some.inj (hdb.symm.trans hpb)
  rw [toProto_slStateIndex hmessage, toProto_lastStoreHeight hmessage, hstate.1]
  exact UInt64.le_trans hsynced.memory hstate.2

structure IndexKept (settlement : SettlementLayer) (start later : Node α) :
    Prop where
  memory : KeepsIndex start.height start.lastState.slStateIndex later.lastState
  persisted : RecordSynced settlement later.db

theorem During.indexKept {block : Block} {commit : Commit} {start later : Node α} {point : Point}
    (hduring : During env block commit start point later) (hsynced : Synced settlement start)
    (hstored : start.height ≤ start.lastState.lastStoreHeight)
    (hle : start.height ≤ block.header.height) : IndexKept settlement start later := by
  induction hduring with
  | start | hashed => exact ⟨⟨rfl, hstored⟩, hsynced.persisted⟩
  | recorded _ ih | finished _ ih =>
    exact ⟨⟨ih.memory.1, hle⟩, ih.persisted⟩
  | @caughtUp now _ _ hmessage ih =>
    exact ⟨ih.memory, hsynced.record ih.memory hmessage (stateWrite_state now.db _)⟩
  | saved =>
    exact ⟨⟨rfl, hstored⟩, RecordSynced.of_eq hsynced.persisted
      (saveBlock_state env.tm start.db block commit)⟩
  | @persisted now responses _ set _ hmessage _ ih =>
    exact ⟨ih.memory, hsynced.record ih.memory hmessage
      (executionWrite_state now.db block.header.height responses _ set)⟩
  | pruned _ _ _ _ _ ih => exact ⟨ih.memory, ih.persisted.of_eq Db.pruneAll_state⟩
  | @stored now _ _ _ _ hmessage ih =>
    refine ⟨ih.memory, hsynced.record ?_ hmessage (stateWrite_state now.db _)⟩
    exact ⟨ih.memory.1, hle⟩
  | _ =>
    rename_i ih
    exact ⟨ih.memory, ih.persisted⟩

theorem IndexKept.synced {start later : Node α} (hkept : IndexKept settlement start later)
    (hsynced : Synced settlement start) (hle : start.height ≤ later.height) :
    Synced settlement later where
  memory := by
    rw [hkept.memory.1]
    exact UInt64.le_trans hsynced.memory hle
  persisted := hkept.persisted

structure SyncedAt (settlement : SettlementLayer) (height slStateIndex : UInt64)
    (node : Node α) : Prop where
  idle : node.core.Idle True
  synced : Synced settlement node
  height : node.height = height
  slStateIndex : node.lastState.slStateIndex = slStateIndex

/-- A call returns with `returned`, or fails into a state that is synced, or
panics in one. -/
abbrev Syncing {β : Type} (settlement : SettlementLayer)
    (returned : β → Node α → Prop) : Result Error β → Node α → Prop :=
  Proc.Ends returned (fun later => later.core.Idle True ∧ Synced settlement later)
    (fun later => later.core.Always True ∧ Synced settlement later)

variable (hrules : ∀ node : Node α, node.core.Always True ∧ Synced settlement node →
  rules.crash node)

include hrules

theorem wp_applyBlock_synced (block : Block) (commit : Commit)
    (hnode : SyncedAt settlement height slStateIndex node) :
    (applyBlock env block commit).wp rules (Syncing settlement fun _ =>
        SyncedAt settlement (advance height block.header.height) slStateIndex)
      node := by
  obtain ⟨hidle, hsynced, rfl, rfl⟩ := hnode
  have hbound := height_lt_next hidle
  by_cases hnext : block.header.height = node.height + 1
  · rw [advance, if_pos hnext]
    have hle : node.height ≤ block.header.height := by
      rw [hnext]
      exact UInt64.le_of_lt hbound
    have hsynced' {point : Point} {later : Node α}
        (hlater : During env block commit node point later) :
        Synced settlement later := by
      apply (hlater.indexKept hsynced
        (UInt64.le_iff_toNat_le.2 hidle.memory.store_le) hle).synced hsynced
      by_cases hfinal : point.Final
      · rw [hlater.height_of_final hfinal]
        exact hle
      · rw [hlater.height_eq hfinal]
        exact UInt64.le_refl _
    apply wp_applyBlock_of hnext hbound
    · intro point later hlater _
      exact hrules later ⟨(hlater.idle hidle hnext).always, hsynced' hlater⟩
    · intro point later hlater hfinal
      have hkept := hlater.indexKept hsynced (UInt64.le_iff_toNat_le.2 hidle.memory.store_le) hle
      exact ⟨hlater.idle hidle hnext, hsynced' hlater,
        hlater.height_of_final hfinal, hkept.memory.1⟩
    · intro point later hlater _ _
      exact ⟨hlater.idle hidle hnext, hsynced' hlater⟩
    · intro point later hlater _
      exact ⟨(hlater.idle hidle hnext).always, hsynced' hlater⟩
  · rw [advance, if_neg hnext]
    apply wp_read_bind (hrules node ⟨hidle.always, hsynced⟩)
    rw [if_pos hnext]
    exact ⟨hidle, hsynced, rfl, rfl⟩

theorem wp_applyBatch_synced (blocks : List Block) (commits : List Commit)
    (hnode : SyncedAt settlement height slStateIndex node) :
    (applyBatch env blocks commits).wp rules (Syncing settlement fun _ =>
        SyncedAt settlement (blocks.foldl (fun height block => advance height block.header.height)
            height) slStateIndex) node := by
  induction blocks generalizing commits height node with
  | nil => exact hnode
  | cons block blocks ih =>
    cases commits with
    | nil => exact ⟨hnode.idle.always, hnode.synced⟩
    | cons commit commits =>
      apply Proc.wp_bind_ends (wp_applyBlock_synced hrules block commit hnode)
      intro _ later hlater
      exact ih commits hlater

theorem wp_applyBatches_synced (batches : List (Option Batch))
    (hnode : SyncedAt settlement height slStateIndex node) :
    (applyBatches env batches).wp rules (Syncing settlement fun _ =>
        SyncedAt settlement (reached height batches) slStateIndex) node := by
  induction batches generalizing height node with
  | nil => exact hnode
  | cons batch batches ih =>
    cases batch with
    | none => exact ⟨hnode.idle.always, hnode.synced⟩
    | some batch =>
      apply Proc.wp_bind_ends (wp_applyBatch_synced hrules _ _ hnode)
      intro _ later hlater
      exact ih hlater

theorem wp_updateStateIndex_synced {index : UInt64}
    (hnode : SyncedAt settlement height slStateIndex node)
    (hend : (settlement.batch index).endHeight ≤ height) :
    (updateStateIndex env index).wp rules
      (Syncing settlement fun _ => SyncedAt settlement height index) node := by
  have hset : SyncedAt settlement height index
      (node.mapState fun state => state.setSLStateIndex index) :=
    ⟨hnode.idle, ⟨hnode.height ▸ hend, hnode.synced.persisted⟩, hnode.height, rfl⟩
  apply Proc.wp_conseq (wp_updateStateIndex_keeping hrules
    (fun _ hlater => ⟨hlater.idle.always, hlater.synced⟩)
    ⟨hnode.idle.always, hnode.synced⟩ hset _)
  · intro result later hlater
    cases result with
    | ok | panic => exact hlater
    | err error => exact ⟨hlater.idle, hlater.synced⟩
  · intro message hmessage
    refine ⟨hset.idle.persist.of_eq ?_, ⟨hset.synced.memory, ?_⟩, hset.height, rfl⟩
    · rw [core_persist hmessage (Db.apply_self ..)]
      rfl
    · -- the persisted height is at least that of the store
      exact hset.synced.record ⟨rfl, UInt64.le_iff_toNat_le.2 hset.idle.memory.store_le⟩ hmessage
        (stateWrite_state node.db _)

theorem wp_processNextDABatch_synced (result : ResultRetrieveBatch)
    (hnode : SyncedAt settlement height slStateIndex node) :
    (processNextDABatch env result).wp rules (Syncing settlement fun _ later =>
        ∃ batches, fetchBatch result = .ok batches ∧
          SyncedAt settlement (reached height batches) slStateIndex later)
      node := by
  rw [processNextDABatch, Proc.wp_bind, Proc.wp_ofResult]
  cases hfetch : fetchBatch result with
  | err error => exact ⟨hnode.idle, hnode.synced⟩
  | panic => exact ⟨hnode.idle.always, hnode.synced⟩
  | ok batches =>
    apply Proc.wp_ends_mono (wp_applyBatches_synced hrules batches hnode)
    intro _ later hlater
    exact ⟨batches, rfl, hlater⟩

theorem wp_syncLoop (syncTarget : UInt64) (rounds : List SyncRound) (currentHeight : UInt64)
    (hnode : SyncedAt settlement height slStateIndex node)
    (hcovers : Covers settlement rounds height slStateIndex) :
    (syncLoop env settlement syncTarget rounds currentHeight).wp rules
      (Syncing settlement fun _ later =>
        later.core.Idle True ∧ Synced settlement later) node := by
  induction rounds generalizing height slStateIndex currentHeight node with
  | nil => exact ⟨hnode.idle, hnode.synced⟩
  | cons round rounds ih =>
    rw [syncLoop]
    split
    case isFalse => exact ⟨hnode.idle, hnode.synced⟩
    case isTrue =>
      apply wp_read_bind (hrules node ⟨hnode.idle.always, hnode.synced⟩)
      rw [hnode.slStateIndex]
      cases herror : round.settlementError with
      | some error =>
        rw [Covers, herror] at hcovers
        exact ih currentHeight hnode hcovers
      | none =>
        rw [Covers, herror] at hcovers
        dsimp only at hcovers ⊢
        rw [Proc.wp_bind, Proc.wp_attempt]
        apply Proc.wp_conseq (wp_processNextDABatch_synced hrules _ hnode)
        intro result applied happlied
        rcases result with _ | _ | _
        · obtain ⟨batches, hfetch, happlied⟩ := happlied
          rw [hfetch] at hcovers
          have hindex := settlement.stateIndex_batch (slStateIndex + 1)
          apply (Proc.wp_bind (updateStateIndex env _).attempt _ _ _).2
          rw [Proc.wp_attempt]
          apply Proc.wp_conseq (wp_updateStateIndex_synced hrules happlied
            (by rw [hindex]; exact hcovers.1))
          intro result recorded hrecorded
          rcases result with _ | _ | _
          · have hcrash := hrules recorded ⟨hrecorded.idle.always, hrecorded.synced⟩
            exact wp_read_bind hcrash (ih _ hrecorded hcovers.2)
          · exact hrecorded
          · exact hrecorded
        · exact happlied
        · exact happlied

/-- Between calls, a node that has applied the batches it recorded serves
every call so that this remains the case. -/
theorem synced_apply (env : Env α) : ApplyInvariant env rules
      (fun node => node.core.Idle True ∧ Synced settlement node)
      (fun node => node.core.Idle True ∧ Synced settlement node)
      (fun node => node.core.Always True ∧ Synced settlement node) where
  crash := hrules
  always_of_idle _ h := ⟨h.1.always, h.2⟩
  failed_of_idle _ h := h
  gossip _ _ _ h := ⟨h.1, ⟨h.2.memory, h.2.persisted⟩⟩
  applyBlock node block commit h := by
    apply Proc.wp_ends_mono (wp_applyBlock_synced hrules block commit ⟨h.1, h.2, rfl, rfl⟩)
    intro _ later hlater
    exact ⟨hlater.idle, hlater.synced⟩

end

/-! ## Restarts -/

section

variable {α : Type} {env : Env α} {settlement : SettlementLayer}
variable {rules : Proc.Rules (Node α) Answer} {node : Node α}

/-- While no state is in memory, only the record matters. -/
structure SyncedDown (settlement : SettlementLayer) (node : Node α) : Prop where
  unset : node.lastState.slStateIndex = 0
  persisted : ∀ pb, node.db .state = some pb →
    (settlement.batch pb.slStateIndex).endHeight ≤ pb.lastStoreHeight

theorem SyncedDown.synced (hnode : SyncedDown settlement node) : Synced settlement node where
  memory := by
    rw [hnode.unset, settlement.endHeight_zero]
    exact UInt64.zero_le
  persisted := hnode.persisted

structure Covered (settlement : SettlementLayer) (height : UInt64)
    (state : State) : Prop where
  height : (settlement.batch state.slStateIndex).endHeight ≤ height
  stored : (settlement.batch state.slStateIndex).endHeight ≤ state.lastStoreHeight

theorem covered_genesis (tm : Tendermint) (genesis : GenesisDoc) (height : UInt64) :
    Covered settlement height (newFromGenesisDoc tm genesis) := by
  have hzero : (settlement.batch (newFromGenesisDoc tm genesis).slStateIndex).endHeight = 0 :=
    settlement.endHeight_zero
  constructor
  · rw [hzero]
    exact UInt64.zero_le
  · rw [hzero]
    exact UInt64.zero_le

theorem lastStoreHeight_le_storeHeight (pb : Pb.State) : pb.lastStoreHeight ≤ pb.storeHeight := by
  rw [Pb.State.storeHeight]
  split
  case isTrue hlegacy =>
    rw [hlegacy.1]
    exact UInt64.zero_le
  case isFalse => exact UInt64.le_refl _

theorem covered_loadState (hnode : SyncedDown settlement node)
    (hload : loadState tm node.db = .ok state) :
    Covered settlement state.lastStoreHeight state := by
  unfold loadState at hload
  cases hpersisted : node.db .state with
  | none => simp [hpersisted] at hload
  | some pb =>
    have hstate : State.fromProto tm pb = .ok state := by
      cases hstate : State.fromProto tm pb <;> simp_all [wrapErr, Result.mapErr]
    obtain ⟨_, _, _, _, _, _, _, _, _, _, rfl⟩ := State.fromProto_eq_ok.1 hstate
    have hle := UInt64.le_trans (hnode.persisted pb hpersisted) (lastStoreHeight_le_storeHeight pb)
    exact ⟨hle, hle⟩

theorem updateInitChainState_slStateIndex (env : Env α) (state : State)
    (response : ResponseInitChain) (validators : List Validator) :
    (updateInitChainState env state response validators).slStateIndex = state.slStateIndex := by
  unfold updateInitChainState
  dsimp only
  split <;> split <;> rfl

theorem Covered.initChain (env : Env α) (hstate : Covered settlement height state)
    (response : ResponseInitChain) (validators : List Validator) :
    Covered settlement height (updateInitChainState env state response validators) := by
  have hstore : (updateInitChainState env state response
      validators).lastStoreHeight = state.lastStoreHeight :=
    congrArg Progress.lastStoreHeight (updateInitChainState_progress env state response validators)
  constructor
  · rw [updateInitChainState_slStateIndex]
    exact hstate.height
  · rw [updateInitChainState_slStateIndex, hstore]
    exact hstate.stored

theorem SyncedDown.covered {base : UInt64} (hnode : SyncedDown settlement node)
    (hstate : InitialState env True node state height base) : Covered settlement height state := by
  cases hstate with
  | loaded hload => exact covered_loadState hnode hload
  | genesis hload => exact covered_genesis _ _ _

theorem bootSpec_synced (hrules : ∀ node : Node α, Synced settlement node → rules.crash node)
    (hnode : SyncedDown settlement node) :
    BootSpec env rules True (Synced settlement) (Synced settlement) node where
  start := hrules _ hnode.synced
  read _ _ _ := Or.inr trivial
  loading height base _ := by
    have hdown : SyncedDown settlement (node.loaded height base) := ⟨hnode.unset, hnode.persisted⟩
    exact ⟨hrules _ hdown.synced, hdown.synced⟩
  resume state height base hstate _ := ⟨(hnode.covered hstate).height, hnode.persisted⟩
  initialised state height base hstate _ := by
    have hstarted : SyncedDown settlement ((node.loaded height base).initChain env) :=
      ⟨hnode.unset, hnode.persisted⟩
    refine ⟨hrules _ hstarted.synced, hstarted.synced, fun message _ hmessage => ?_⟩
    have hcovered : Covered settlement height (initialisedState env node state) :=
      (hnode.covered hstate).initChain env _ _
    have hpersisted (pb : Pb.State) (hpb : node.db.apply ⟨.state, some message⟩ .state = some pb) :
        (settlement.batch pb.slStateIndex).endHeight ≤ pb.lastStoreHeight := by
      obtain rfl : message = pb := by simpa using hpb
      rw [toProto_slStateIndex hmessage, toProto_lastStoreHeight hmessage]
      exact hcovered.stored
    have hrecorded : SyncedDown settlement
        { (node.loaded height base).initChain env with
          db := node.db.apply ⟨.state, some message⟩ } :=
      ⟨hnode.unset, hpersisted⟩
    exact ⟨hrules _ hrecorded.synced, hrecorded.synced, hcovered.height, hpersisted⟩

end

/-! ## Runs -/

theorem synced_certificate {α : Type} (env : Env α) (app : α) (settlement : SettlementLayer) :
    Certificate (syncSystem env settlement) (coversGuard settlement) (freshNode app)
      (fun node => node.core.Idle True ∧ Synced settlement node)
      (fun node => node.core.Always True ∧ Synced settlement node)
      (fun node => node.core.Down True ∧ SyncedDown settlement node) where
  start := ⟨freshNode_down app, rfl, by simp [freshNode, Db.empty]⟩
  always_of_durable _ h := ⟨h.1.always, h.2.synced⟩
  always_of_idle _ h := ⟨h.1.always, h.2⟩
  crash _ h _ := ⟨crash_core h.1, rfl, h.2.persisted⟩
  boot _ h := Proc.wp_ends_and (wp_newManager env (fun _ h => h) (fun _ _ _ => Or.inr trivial) h.1)
      (wp_newManager_of (bootSpec_synced (fun _ h => h) h.2))
      fun _ => And.intro
  serve node request h hcall := by
    have happly : ApplyInvariant env ((coversGuard settlement).rules fun node =>
          node.core.Always True ∧ Synced settlement node)
        (fun node => node.core.Idle True ∧ Synced settlement node)
        (fun node => node.core.Idle True ∧ Synced settlement node)
        (fun node => node.core.Always True ∧ Synced settlement node) :=
      synced_apply (fun _ h => h) env
    cases request with
    | gossip block commit => exact happly.applyBlock node block commit h
    | produce input => exact happly.produceBlock input h
    | sync syncTarget rounds =>
      apply wp_read_bind (happly.crash node (happly.always_of_idle node h))
      exact wp_syncLoop (fun _ h => h) syncTarget rounds _ ⟨h.1, h.2, rfl, rfl⟩ hcall
    | syncTarget endHeight =>
      have hlater : Synced settlement { node with syncTarget := endHeight } :=
        ⟨h.2.memory, h.2.persisted⟩
      exact ⟨⟨h.1.always, h.2⟩, fun _ _ => ⟨h.1, hlater⟩⟩

/-- In every state of every run in which the data availability layer returns the
blocks of the batches that it is asked for, all batches up to the recorded index
have been applied. -/
theorem recorded_batches_applied {α : Type} (env : Env α) (app : α) (settlement : SettlementLayer)
    {config : Config (Node α) Answer Error}
    (hreach : Reachable (syncSystem env settlement) (coversGuard settlement) (freshNode app) config)
    {index : UInt64} (hindex : index ≤ config.state.lastState.slStateIndex) :
    (settlement.batch index).endHeight ≤ config.state.height := by
  have hsynced := ((synced_certificate env app settlement).sound hreach).2
  calc (settlement.batch index).endHeight
      ≤ (settlement.batch config.state.lastState.slStateIndex).endHeight :=
        settlement.endHeight_mono _ _ hindex
    _ ≤ config.state.height := hsynced.memory

namespace Reference

def settlement : SettlementLayer where
  batch index := ⟨index, index, index⟩
  stateIndex_batch _ := rfl
  endHeight_zero := rfl
  endHeight_mono _ _ hle := hle

/-- A node that starts and then follows the settlement layer up to height 1,
with this answer of the data availability layer. -/
def syncRun (batches : List (Option Batch)) (count : ℕ) : List (Label Answer SyncRequest) :=
  .boot :: List.replicate 4 (.step .ok) ++
    .ret :: .call (.sync 1 [⟨none, fun _ => ⟨.success, "", batches⟩⟩]) ::
    List.replicate count (.step .ok) ++ [.ret]

def firstBatch : Batch :=
  let node := (((system env).run ⟨freshNode [], .down⟩ firstBoot).map
    Config.state).getD (freshNode [])
  ⟨1, 1, [nextBlock node [[1]]], [nextCommit node [[1]]]⟩

end Reference

/-- The data availability layer answers with success and no batches, and the
node records the batch although the store is still empty. -/
theorem empty_answer_recorded : ∃ config, Reachable (syncSystem Reference.env Reference.settlement)
        (Guard.none (Node (List Tx)) Answer SyncRequest) (freshNode []) config ∧
      config.state.lastState.slStateIndex = 1 ∧
      config.state.height < (Reference.settlement.batch 1).endHeight := by
  have hrun : ((syncSystem Reference.env Reference.settlement).run
      ⟨freshNode [], .down⟩ (Reference.syncRun [] 6)).map (fun config =>
        (config.state.lastState.slStateIndex, config.state.height)) =
      some (1, 0) := by decide
  obtain ⟨config, hreach, hview⟩ := exists_reachable_of_run _ hrun
  rw [Prod.mk.injEq] at hview
  rcases hview with ⟨hindex, hheight⟩
  refine ⟨config, hreach, hindex, ?_⟩
  rw [hheight]
  decide

theorem recorded_batches_applied_reference : ∃ config,
      Reachable (syncSystem Reference.env Reference.settlement)
        (coversGuard Reference.settlement) (freshNode []) config ∧
      config.state.lastState.slStateIndex = 1 ∧
      (Reference.settlement.batch 1).endHeight ≤ config.state.height := by
  have hrun : ((syncSystem Reference.env Reference.settlement).runGuarded
      (coversGuard Reference.settlement) ⟨freshNode [], .down⟩
      (Reference.syncRun [some Reference.firstBatch] 32)).map (fun config =>
        config.state.lastState.slStateIndex) = some 1 := by decide
  obtain ⟨config, hreach, hindex⟩ := exists_reachable_of_runGuarded _ hrun
  refine ⟨config, hreach, hindex, ?_⟩
  apply recorded_batches_applied Reference.env [] Reference.settlement hreach
  rw [hindex]
  exact UInt64.le_refl 1

end Dymint.Manager
