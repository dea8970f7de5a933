import Dymint.Block.InitChain
import Dymint.Block.Replica

/-!
# Agreement of two nodes

Nodes that apply blocks of one pool, in any order, with duplicates and losses,
follow one chain.  Restarts bring a node back to the chain as well, with one
exception.  Between the batch of a block and the last update of its state, a
crash leaves a record that already counts the block, and the node comes back one
block ahead of its own store.
-/

namespace Dymint.Manager

open Procedure Dymint.Types Store CrashSystem
open Replication

variable {α : Type}

/-! ## Runs -/

def FromPool (pool : Set (Block × Commit)) : Request → Prop
  | .gossip block commit => (block, commit) ∈ pool
  | .produce _ => False
  | .retrieve result =>
    ∀ batch ∈ result.batches, ∀ pair ∈ batchPairs batch, pair ∈ pool
  | .stateIndex _ | .syncTarget _ => True

def deliveryGuard (pool : Set (Block × Commit)) : Guard (Node α) Answer Request where
  answer _ answer := answer = .ok
  call _ request := FromPool pool request
  crash _ := True

def poolGuard (pool : Set (Block × Commit)) : Guard (Node α) Answer Request :=
  { deliveryGuard pool with crash := fun node => ¬ CountsFirst node }

section

variable (pool : Set (Block × Commit)) [DecidablePred (· ∈ pool)]

instance (request : Request) : Decidable (FromPool pool request) :=
  have hdec (pair : Block × Commit) : Decidable (pair ∈ pool) :=
    inferInstanceAs (Decidable ((· ∈ pool) pair))
  match request with
  | .gossip block commit => hdec (block, commit)
  | .produce _ => .isFalse id
  | .retrieve result => inferInstanceAs (Decidable (∀ batch ∈ result.batches,
      ∀ pair ∈ batchPairs batch, pair ∈ pool))
  | .stateIndex _ | .syncTarget _ => .isTrue trivial

instance (node : Node α) (label : Label Answer Request) :
    Decidable ((deliveryGuard pool).Permits node label) :=
  (deliveryGuard pool).decidablePermits node
    (fun answer => inferInstanceAs (Decidable (answer = .ok)))
    (fun request => inferInstanceAs (Decidable (FromPool pool request))) (.isTrue trivial) label

instance (node : Node α) (label : Label Answer Request) :
    Decidable ((poolGuard pool).Permits node label) :=
  (poolGuard pool).decidablePermits node (fun answer => inferInstanceAs (Decidable (answer = .ok)))
    (fun request => inferInstanceAs (Decidable (FromPool pool request)))
    (inferInstanceAs (Decidable (¬ CountsFirst node))) label

end

variable {state : State}

section

variable {env : Env α} {pool : Set (Block × Commit)}
variable {valid : ValidatorSet → Prop} {app : α} {node : Node α}
variable {rules : Proc.Rules (Node α) Answer}

abbrev StaysOnChain (env : Env α) (pool : Set (Block × Commit))
    (valid : ValidatorSet → Prop) (app : α) :
    Result Error Unit → Node α → Prop :=
  Proc.Ends (fun _ later => ReplicaNode env pool valid app later.snapshot)
    (fun later => ReplicaNode env pool valid app later.snapshot)
    (fun later => ReplicaDisk env pool valid app later.snapshot)

theorem wp_applyBlock_replica (hchain : OneChain env pool valid)
    (hwatch : Watches rules False (ReplicaDisk env pool valid app))
    {block : Block} {commit : Commit} (hpool : (block, commit) ∈ pool)
    (hidle : node.core.Idle)
    (hnode : ReplicaNode env pool valid app node.snapshot) :
    (applyBlock env block commit).wp rules (StaysOnChain env pool valid app)
      node := by
  apply Proc.wp_ends_mono (wp_applyBlock_spec hwatch hnode.toReplicaDisk (height_lt_next hidle)
    fun hnext => applySpec_replica hchain hidle hnode hnext hpool)
  intro _ later hlater
  split at hlater
  case isTrue hnext =>
    exact applied_replica hchain hidle hnode hnext hpool hlater
  case isFalse => exact hlater ▸ hnode

theorem wp_updateStateIndex_replica (hchain : OneChain env pool valid)
    (hwatch : Watches rules False (ReplicaDisk env pool valid app))
    (index : UInt64) (hnode : ReplicaNode env pool valid app node.snapshot) :
    (updateStateIndex env index).wp rules (StaysOnChain env pool valid app)
      node := by
  obtain ⟨replica, hreplica, hheight, hworking⟩ := hnode.memory
  have hagrees := hreplica.agrees.setSLStateIndex index
  have hindexed : ReplicaNode env pool valid app
      (node.mapState fun state => state.setSLStateIndex index).snapshot :=
    ⟨hnode.toReplicaDisk.of_eq rfl rfl rfl rfl rfl, replica, ⟨hreplica.reaches, hagrees,
        hreplica.appAt.of_eq rfl rfl rfl rfl fun _ _ => rfl⟩, hheight, hworking⟩
  apply wp_updateStateIndex_keeping hwatch.crash (fun _ h => h.toReplicaDisk)
    hnode.toReplicaDisk hindexed
  intro message hmessage
  have hreplica' : Replicates env pool valid app replica
      (node.lastState.setSLStateIndex index) ((Node.snapshot
        (node.mapState fun state => state.setSLStateIndex index)).store message) :=
    ⟨hreplica.reaches, hagrees, hreplica.appAt.of_eq rfl rfl rfl rfl fun _ _ => rfl⟩
  have hstored := hreplica'.disk hchain.codec hmessage rfl
  rw [← snapshot_apply_state] at hstored hreplica'
  exact ⟨hstored, replica, hreplica', hheight, hworking⟩

theorem wp_serve_replica (hchain : OneChain env pool valid)
    (hok : ∀ node answer, rules.allowed node answer → answer = .ok)
    (hrules : ∀ node : Node α,
      node.core.Always ∧ ReplicaDisk env pool valid app node.snapshot → rules.crash node)
    {request : Request} (hrequest : FromPool pool request)
    (hnode : node.core.Idle ∧ ReplicaNode env pool valid app node.snapshot) :
    (serve env request).wp rules
      (Proc.Ends (fun _ later => later.core.Idle ∧ ReplicaNode env pool valid app later.snapshot)
        (fun later => later.core.Idle ∧ ReplicaNode env pool valid app later.snapshot)
        (fun later => later.core.Always ∧ ReplicaDisk env pool valid app later.snapshot)) node := by
  have hwatch : Watches
      { rules with crash := fun node =>
        ReplicaDisk env pool valid app node.snapshot } False
      (ReplicaDisk env pool valid app) :=
    ⟨fun node answer hanswer hne => hne (hok node answer hanswer), fun _ h => h⟩
  have halways (later : Node α) (hlater : later.core.Idle ∧
      ReplicaNode env pool valid app later.snapshot) :
      later.core.Always ∧ ReplicaDisk env pool valid app later.snapshot :=
    ⟨hlater.1.always, hlater.2.toReplicaDisk⟩
  have happly (later : Node α) (block : Block) (commit : Commit)
      (hpool : (block, commit) ∈ pool) (hlater : later.core.Idle ∧
        ReplicaNode env pool valid app later.snapshot) :
      (applyBlock env block commit).wp rules _ later :=
    Proc.wp_ends_and (wp_applyBlock env block commit (fun _ h => h) hlater.1)
      (wp_applyBlock_replica hchain hwatch hpool hlater.1 hlater.2)
      fun later hcore hdisk => hrules later ⟨hcore, hdisk⟩
  cases request with
  | gossip block commit => exact happly node block commit hrequest hnode
  | produce input => exact hrequest.elim
  | retrieve result =>
    exact wp_processNextDABatch_of halways happly (fun _ h => h) hrequest hnode
  | stateIndex index =>
    exact Proc.wp_ends_and (wp_updateStateIndex env index (fun _ h => h) hnode.1)
      (wp_updateStateIndex_replica hchain hwatch index hnode.2)
      fun later hcore hdisk => hrules later ⟨hcore, hdisk⟩
  | syncTarget endHeight => exact ⟨hrules node (halways node hnode), fun _ _ => hnode⟩

/-! ### Restarts -/

/-- What `InitChain` makes of the fields that the chain looks at depends on
these fields only. -/
theorem ofState_updateInitChainState {state' : State}
    (hsame : Replica.ofState 0 state app = Replica.ofState 0 state' app)
    (response : ResponseInitChain) (validators : List Validator) :
    Replica.ofState 0 (updateInitChainState env state response validators) app =
      Replica.ofState 0 (updateInitChainState env state' response validators)
        app := by
  simp only [Replica.ofState, Replica.mk.injEq] at hsame
  obtain ⟨_, hversion, hparams, hid, happ, hresults, _⟩ := hsame
  unfold updateInitChainState
  split <;> split <;>
    simp only [Replica.ofState, hversion, hparams, hid, happ, hresults]

/-- A second `InitChain` leaves them as they are. -/
theorem ofState_updateInitChainState_twice (state : State)
    (response : ResponseInitChain) (validators : List Validator) :
    Replica.ofState 0 (updateInitChainState env
        (updateInitChainState env state response validators) response
        validators) app =
      Replica.ofState 0 (updateInitChainState env state response validators)
        app := by
  have hgetD {β : Type} (update : Option β) (old : β) :
      update.getD (update.getD old) = update.getD old := by
    cases update <;> rfl
  unfold updateInitChainState
  split <;> split <;>
    simp only [Replica.ofState, FixedBytes.copy_copy, hgetD]

theorem eq_firstReplica {replica : Replica α} {count : ℕ}
    (hreaches : (chain env pool app).Reaches count replica)
    (hzero : replica.height = 0) : replica = firstReplica env app := by
  have hcount := height_of_reaches hreaches
  rw [hzero] at hcount
  obtain rfl : 0 = count := hcount
  cases hreaches
  rfl

/-- What the process starts with after a crash. -/
structure ReplicaDown (env : Env α) (pool : Set (Block × Commit))
    (valid : ValidatorSet → Prop) (app : α) (node : Node α) : Prop where
  disk : ReplicaDisk env pool valid app node.snapshot
  first : ¬ CountsFirst node
  working : node.app.working = node.app.committed
  height : node.height = 0

/-- A state without blocks, before or after its `InitChain`. -/
structure FirstState (env : Env α) (app : α) (node : Node α) (state : State)
    (height : UInt64) : Prop where
  block : lastBlock state = 0
  stored : height = 0 ∧ state.lastStoreHeight = 0
  initial : state.initialHeight = env.genesis.initialHeight
  blockID : PlainBlockID state.lastBlockID
  appHeight : node.app.lastBlockHeight.toUInt64 = 0
  committed : node.app.committed = app
  replica : Replica.ofState 0 (initialisedState env node state)
    (env.app.initChain app (initChainRequest env)).1 = firstReplica env app

section

variable (hchain : OneChain env pool valid)

include hchain

theorem InitialState.first (hdown : ReplicaDown env pool valid app node) {height base : UInt64}
    (hstate : InitialState env False node state height base)
    (hfirst : state.lastBlockHeight + 1 = env.genesis.initialHeight) :
    FirstState env app node state height := by
  have hblock : lastBlock state = 0 := by
    rw [hchain.initial] at hfirst
    rw [lastBlock, eq_zero_of_succ_eq_one hfirst]
    rfl
  cases hstate with
  | loaded hload =>
    obtain ⟨message, hmessage, hfrom⟩ := loadState_eq_ok.1 hload
    obtain ⟨replica, other, hencodes, hreplica⟩ := hdown.disk.record message hmessage
    obtain rfl : other = state := Result.ok.inj (hencodes.2.symm.trans hfrom)
    obtain ⟨count, hcount⟩ := hreplica.reaches
    have hagrees := hreplica.agrees
    have hlevel : lastBlock other = replica.height.toNat ∧
        other.lastBlockID = replica.lastBlockID := by
      rcases hagrees.block with hlevel | ⟨_, _, hcounted, _⟩
      · exact hlevel
      · omega
    have hzero : replica.height = 0 := UInt64.toNat_inj.1 (hlevel.1.symm.trans hblock)
    obtain rfl := eq_firstReplica hcount hzero
    cases hreplica.appAt with
    | ahead _ hcounted _ _ _ _ => omega
    | level happ hcommitted =>
      have hcommitted' : node.app.committed = app := hcommitted.trans (if_pos hzero)
      refine ⟨hblock, ⟨hagrees.store, hagrees.store⟩, hagrees.initial,
        hagrees.sound.blockID, happ, hcommitted', ?_⟩
      have hfields : Replica.ofState 0 other
          (env.app.initChain app (initChainRequest env)).1 = firstReplica env app := by
        simp only [Replica.ofState, hagrees.version,
          hagrees.consensusParams, hlevel.2, hagrees.appHash,
          hagrees.lastResultsHash]
        rfl
      rw [initialisedState, hdown.working, hcommitted']
      exact (ofState_updateInitChainState hfields _ _).trans
        (ofState_updateInitChainState_twice _ _ _)
  | genesis hload =>
    obtain ⟨happ, hcommitted⟩ := hdown.disk.fresh (hload.resolve_right id)
    refine ⟨rfl, ⟨hdown.height, rfl⟩, rfl, ⟨[], Or.inl rfl, rfl⟩,
      congrArg Int64.toUInt64 happ, hcommitted, ?_⟩
    rw [initialisedState, hdown.working, show node.app.committed = app from hcommitted]
    rfl

/-- `InitChain` brings the state to the first replica. -/
theorem FirstState.agrees {height : UInt64} (hstate : FirstState env app node state height)
    (hfirst : state.lastBlockHeight + 1 = env.genesis.initialHeight)
    (hsome : initialValidators env ≠ []) :
    Agrees env pool valid (firstReplica env app) (initialisedState env node state) := by
  have hrotated : Rotated env valid (initialisedState env node state) :=
    rotated_initialised hchain.codec hstate.initial (fun _ => hstate.blockID) hfirst hsome
  have hsets := hrotated.sets hchain.initial
  have hprogress := updateInitChainState_progress env state
    (env.app.initChain node.app.working (initChainRequest env)).2
    (initialValidators env)
  have hblock : lastBlock (initialisedState env node state) = 0 :=
    (congrArg (fun progress : Progress =>
      progress.lastBlockHeight.toUInt64.toNat) hprogress).trans hstate.block
  have hreplica := hstate.replica
  refine ⟨hsets.sound, hrotated.initial, ?_, ?_, ?_, ?_, ?_, ?_, Or.inl ⟨?_, ?_⟩⟩
  · exact (congrArg Progress.lastStoreHeight hprogress).trans hstate.stored.2
  · exact congrArg Replica.version hreplica
  · exact congrArg Replica.consensusParams hreplica
  · exact congrArg Replica.appHash hreplica
  · exact congrArg Replica.lastResultsHash hreplica
  · rw [hsets.current, hblock]
  · exact hblock
  · exact congrArg Replica.lastBlockID hreplica

theorem bootSpec_replica
    (hrules : ∀ node : Node α, ReplicaDisk env pool valid app node.snapshot → rules.crash node)
    (hallowed : ∀ answer, rules.allowed node answer → answer = .ok)
    (hdown : ReplicaDown env pool valid app node) :
    BootSpec env rules False (fun later => ReplicaNode env pool valid app later.snapshot)
      (fun later => ReplicaDisk env pool valid app later.snapshot) node where
  start := hrules _ hdown.disk
  read answer hanswer hfails := absurd (hallowed answer hanswer) hfails
  loading height base _ :=
    have hdisk : ReplicaDisk env pool valid app (node.loaded height base).snapshot :=
      hdown.disk.of_eq rfl rfl rfl rfl rfl
    ⟨hrules _ hdisk, hdisk⟩
  resume state height base hstate hblocks := by
    cases hstate with
    | genesis hload =>
      rw [hchain.initial] at hblocks
      exact absurd rfl hblocks
    | loaded hload =>
      obtain ⟨message, hmessage, hfrom⟩ := loadState_eq_ok.1 hload
      obtain ⟨replica, other, hencodes, hreplica⟩ := hdown.disk.record message hmessage
      obtain rfl : other = state := Result.ok.inj (hencodes.2.symm.trans hfrom)
      refine ⟨hdown.disk.of_eq rfl rfl rfl rfl rfl, replica,
        hreplica.of_eq rfl rfl rfl fun _ _ => rfl, hreplica.agrees.store, ?_⟩
      change node.app.working = if node.app.lastBlockHeight.toUInt64 = _
        then replica.app else node.app.committed
      rw [hdown.working]
      split
      case isFalse => rfl
      case isTrue hlevel =>
        cases hreplica.appAt with
        | ahead haccepts _ happ _ _ _ =>
          obtain ⟨_, _, hnext, _⟩ := haccepts
          rw [← happ, show node.snapshot.lastBlockHeight.toUInt64 =
            replica.height from hlevel] at hnext
          omega
        | level _ hcommitted =>
          have hpos : replica.height ≠ 0 := by
            intro hzero
            refine hdown.first ⟨?_, message, hmessage, fun hblock => ?_⟩
            · rw [← Int64.toInt64_toUInt64 node.app.lastBlockHeight]
              exact congrArg UInt64.toInt64 (hlevel.trans hzero)
            · apply hblocks
              have hsame := congrArg Progress.lastBlockHeight (toProto_progress hencodes.1)
              rw [← show message.lastBlockHeight = other.lastBlockHeight
                from hsame, hblock, hchain.initial]
              rfl
          exact hcommitted.trans (if_neg hpos)
  initialised state height base hstate hfirst := by
    intro started
    have hstate' := hstate.first hchain hdown hfirst
    have hstarted : ReplicaDisk env pool valid app started.snapshot :=
      hdown.disk.of_eq rfl rfl rfl rfl rfl
    refine ⟨hrules _ hstarted, hstarted, fun message hsome hmessage => ?_⟩
    have hagrees := hstate'.agrees hchain hfirst hsome
    have hreplica : Replicates env pool valid app (firstReplica env app)
        (initialisedState env node state) (started.snapshot.store message) :=
      ⟨⟨0, .start⟩, hagrees, .level hstate'.appHeight hstate'.committed⟩
    have hrecorded := hreplica.disk hchain.codec hmessage rfl
    rw [← snapshot_apply_state] at hrecorded hreplica
    refine ⟨hrules _ hrecorded, hrecorded,
      hrecorded.of_eq rfl rfl rfl rfl rfl, firstReplica env app,
      hreplica.of_eq rfl rfl rfl fun _ _ => rfl, hstate'.stored.1, ?_⟩
    change (env.app.initChain node.app.working (initChainRequest env)).1 =
      if node.app.lastBlockHeight.toUInt64 = 0 then (firstReplica env app).app
      else node.app.committed
    rw [if_pos hstate'.appHeight, hdown.working, hstate'.committed]
    rfl

theorem replica_certificate (app : α) : Certificate (system env) (poolGuard pool) (freshNode app)
      (fun node => node.core.Idle ∧ ReplicaNode env pool valid app node.snapshot)
      (fun node => node.core.Always ∧ ReplicaDisk env pool valid app node.snapshot)
      (fun node => node.core.Down ∧ ReplicaDown env pool valid app node) where
  start := by
    have hempty : ∀ message, (freshNode app).db .state ≠ some message := by
      simp [freshNode, Db.empty]
    refine ⟨freshNode_down app, ⟨⟨fun _ => ⟨rfl, rfl⟩, ?_⟩, ?_, rfl, rfl⟩⟩
    · intro message hmessage
      exact absurd hmessage (hempty message)
    · rintro ⟨_, message, hmessage, _⟩
      exact hempty message hmessage
  always_of_durable _ h := ⟨h.1.always, h.2.disk⟩
  always_of_idle _ h := ⟨h.1.always, h.2.toReplicaDisk⟩
  crash _ h hguard := ⟨crash_core h.1, h.2.of_eq rfl rfl rfl rfl rfl, hguard, rfl, rfl⟩
  boot _ h := Proc.wp_ends_and (wp_newManager env (fun _ h => h)
        (fun _ _ hok => Or.inl fun _ _ => hok) h.1)
      (wp_newManager_of (bootSpec_replica hchain (fun _ h => h) (fun _ h => h) h.2))
      fun _ => And.intro
  serve _ _ h hcall := wp_serve_replica hchain (fun _ _ h => h) (fun _ h => h) hcall h

end

end

/-! ## Two nodes -/

/-- The nodes of one chain may differ in their keys and in the namespace that
they use for blocks of their own. -/
structure SameChain (env env' : Env α) : Prop where
  tm : env.tm = env'.tm
  app : env.app = env'.app
  genesis : env.genesis = env'.genesis
  sequencersList : env.sequencersList = env'.sequencersList
  chainID : env.exec.chainID = env'.exec.chainID

def CountsUnstored (state : State) : Prop := state.lastBlockHeight.toUInt64 ≠ state.lastStoreHeight

instance (state : State) : Decidable (CountsUnstored state) := inferInstanceAs (Decidable (¬ _))

section

variable {env env' : Env α} {pool : Set (Block × Commit)}
variable {valid : ValidatorSet → Prop} {app : α} {replica : Replica α}
variable {state state' : State}

theorem SameChain.chain_eq (hsame : SameChain env env') :
    chain env' pool app = chain env pool app := by
  obtain ⟨tm, _, ⟨_, _, _⟩, genesis, sequencers, _, _, _⟩ := env
  obtain ⟨tm', _, ⟨_, _, _⟩, genesis', sequencers', _, _, _⟩ := env'
  obtain ⟨rfl, rfl, rfl, rfl, rfl⟩ := hsame
  rfl

theorem SameChain.oneChain (hsame : SameChain env env')
    (hchain : OneChain env pool valid) : OneChain env' pool valid := by
  obtain ⟨tm, _, ⟨_, _, _⟩, genesis, sequencers, _, _, _⟩ := env
  obtain ⟨tm', _, ⟨_, _, _⟩, genesis', sequencers', _, _, _⟩ := env'
  obtain ⟨rfl, rfl, rfl, rfl, rfl⟩ := hsame
  exact ⟨hchain.codec, hchain.initial, hchain.appHash, hchain.unique⟩

theorem Agrees.of_stored (hagrees : Agrees env pool valid replica state)
    (hstored : ¬ CountsUnstored state) :
    lastBlock state = replica.height.toNat ∧ state.lastBlockID = replica.lastBlockID := by
  rcases hagrees.block with hlevel | ⟨_, _, hcounted, _⟩
  · exact hlevel
  · rw [CountsUnstored, not_not, hagrees.store] at hstored
    have heq : lastBlock state = replica.height.toNat := congrArg UInt64.toNat hstored
    omega

theorem Agrees.of_unstored (hagrees : Agrees env pool valid replica state)
    (hunstored : CountsUnstored state) :
    ∃ block, replica.Accepts env pool block ∧ lastBlock state = replica.height.toNat + 1 ∧
      state.lastBlockID = ⟨(block.header.hash env.tm).bytes, default⟩ := by
  rcases hagrees.block with ⟨hlevel, _⟩ | hahead
  · refine absurd ?_ hunstored
    rw [hagrees.store]
    exact UInt64.toNat_inj.1 hlevel
  · exact hahead

theorem SameChain.agrees (hsame : SameChain env env')
    (hagrees : Agrees env' pool valid replica state) :
    Agrees env pool valid replica state := by
  obtain ⟨tm, _, ⟨_, _, _⟩, genesis, sequencers, _, _, _⟩ := env
  obtain ⟨tm', _, ⟨_, _, _⟩, genesis', sequencers', _, _, _⟩ := env'
  obtain ⟨rfl, rfl, rfl, rfl, rfl⟩ := hsame
  exact ⟨hagrees.sound, hagrees.initial, hagrees.store, hagrees.version,
    hagrees.consensusParams, hagrees.appHash, hagrees.lastResultsHash,
    hagrees.validators, hagrees.block⟩

theorem Agrees.same_block (hchain : OneChain env pool valid)
    (hagrees : Agrees env pool valid replica state)
    (hagrees' : Agrees env pool valid replica state')
    (hcounts : CountsUnstored state ↔ CountsUnstored state') :
    lastBlock state = lastBlock state' ∧ state.lastBlockID = state'.lastBlockID := by
  by_cases hunstored : CountsUnstored state
  · obtain ⟨block, haccepts, hcounted, hid⟩ := hagrees.of_unstored hunstored
    obtain ⟨block', haccepts', hcounted', hid'⟩ := hagrees'.of_unstored (hcounts.1 hunstored)
    obtain rfl : block = block' :=
      chain_determined hchain.unique replica.app replica block block' haccepts haccepts'
    exact ⟨hcounted.trans hcounted'.symm, hid.trans hid'.symm⟩
  · obtain ⟨hblock, hid⟩ := hagrees.of_stored hunstored
    obtain ⟨hblock', hid'⟩ := hagrees'.of_stored fun hunstored' => hunstored (hcounts.2 hunstored')
    exact ⟨hblock.trans hblock'.symm, hid.trans hid'.symm⟩

end

/-- Two nodes at the same height agree, whatever blocks of the pool they were
given, unless the state of one of them, and not that of the other, counts a
block that it does not record as stored. -/
theorem agreement_iff {env env' : Env α} {pool : Set (Block × Commit)}
    {valid : ValidatorSet → Prop} (hchain : OneChain env pool valid)
    (hsame : SameChain env env') (app : α) {node node' : Node α}
    (hnode : Reachable (system env) (poolGuard pool) (freshNode app) ⟨node, .idle⟩)
    (hnode' : Reachable (system env') (poolGuard pool) (freshNode app) ⟨node', .idle⟩)
    (hheight : node.height = node'.height) :
    (node.lastState.lastBlockHeight = node'.lastState.lastBlockHeight ∧
      node.lastState.lastBlockID = node'.lastState.lastBlockID ∧
      node.lastState.appHash = node'.lastState.appHash ∧
      node.lastState.lastResultsHash = node'.lastState.lastResultsHash) ↔
    (CountsUnstored node.lastState ↔ CountsUnstored node'.lastState) := by
  have hreplica : node.core.Idle ∧ ReplicaNode env pool valid app node.snapshot :=
    (replica_certificate hchain app).holds hnode
  have hreplica' : node'.core.Idle ∧ ReplicaNode env' pool valid app node'.snapshot :=
    (replica_certificate (hsame.oneChain hchain) app).holds hnode'
  obtain ⟨replica, ⟨⟨count, hcount⟩, hagrees, _⟩, hstore, _⟩ := hreplica.2.memory
  obtain ⟨replica', ⟨⟨count', hcount'⟩, hagrees', _⟩, hstore', _⟩ := hreplica'.2.memory
  rw [hsame.chain_eq] at hcount'
  -- the height determines the replica
  have hcounts : count = count' := by
    calc
      count = replica.height.toNat := (height_of_reaches hcount).symm
      _ = node.height.toNat := congrArg UInt64.toNat hstore.symm
      _ = node'.height.toNat := congrArg UInt64.toNat hheight
      _ = replica'.height.toNat := congrArg UInt64.toNat hstore'
      _ = count' := height_of_reaches hcount'
  subst hcounts
  obtain rfl : replica = replica' := hcount.unique (chain_determined hchain.unique app) hcount'
  have hagrees' := hsame.agrees hagrees'
  constructor
  · rintro ⟨hblock, _⟩
    have hlastStore : node.lastState.lastStoreHeight = node'.lastState.lastStoreHeight :=
      hagrees.store.trans hagrees'.store.symm
    rw [CountsUnstored, CountsUnstored, hblock, hlastStore]
  · intro hunstored
    obtain ⟨hblock, hid⟩ := hagrees.same_block hchain hagrees' hunstored
    refine ⟨?_, hid, hagrees.appHash.trans hagrees'.appHash.symm,
      hagrees.lastResultsHash.trans hagrees'.lastResultsHash.symm⟩
    have huint := UInt64.toNat_inj.1 hblock
    calc
      node.lastState.lastBlockHeight = node.lastState.lastBlockHeight.toUInt64.toInt64 :=
        (Int64.toInt64_toUInt64 _).symm
      _ = node'.lastState.lastBlockHeight.toUInt64.toInt64 := congrArg UInt64.toInt64 huint
      _ = node'.lastState.lastBlockHeight := Int64.toInt64_toUInt64 _

/-! ## A pool with two blocks -/

namespace Reference

open Types.Reference

def poolPairs : List (Block × Commit) :=
  [(poolFirst, commitFor poolFirst.header), (poolSecond, commitFor poolSecond.header)]

def pool : Set (Block × Commit) := {pair | pair ∈ poolPairs}

instance : DecidablePred (· ∈ pool) := fun pair => inferInstanceAs (Decidable (pair ∈ poolPairs))

def otherEnv : Env (List Tx) := { env with proposerPubKey := [9] }

theorem oneChain : OneChain env pool fun set => set.validators ≠ [] where
  codec := codec
  initial := rfl
  appHash := commit_length
  unique := by
    have hpairs : ∀ pair ∈ poolPairs, ∀ other ∈ poolPairs,
        pair.1.header.height = other.1.header.height → pair.1 = other.1 := by
      decide +kernel
    intro state block commit block' commit' hpool hpool' hheight _ _
    exact hpairs (block, commit) hpool (block', commit') hpool' hheight

/-- The process crashes after `count` steps of the second block and starts
again. -/
def crashInSecond (count : ℕ) : List (Label Answer Request) :=
  firstDelivered ++ .call (deliver poolSecond) :: steps count ++
    .crash :: .boot :: steps 4 ++ [.ret]

end Reference

open Reference

/-- A crash after the batch of the second block leaves a node at height 1 whose
state counts the second block. -/
theorem counts_ahead_of_store : UniquelyValid Reference.env Reference.pool ∧ ∃ node node',
      Reachable (system Reference.env) (deliveryGuard Reference.pool) (freshNode []) ⟨node, .idle⟩ ∧
      Reachable (system Reference.env) (deliveryGuard Reference.pool)
        (freshNode []) ⟨node', .idle⟩ ∧
      node.height = node'.height ∧
      node.lastState.lastBlockHeight ≠ node'.lastState.lastBlockHeight ∧
      node.lastState.lastBlockID ≠ node'.lastState.lastBlockID := by
  have hclean : ∃ node, Reachable (system Reference.env)
        (deliveryGuard Reference.pool) (freshNode []) ⟨node, .idle⟩ ∧
      node.height = 1 ∧ node.lastState.lastBlockHeight = 1 ∧
      node.lastState.lastBlockID = ⟨(poolFirst.header.hash Reference.env.tm).bytes, default⟩ :=
    exists_idle_of_runGuarded firstDelivered (by decide +kernel)
  have hcrashed : ∃ node, Reachable (system Reference.env)
        (deliveryGuard Reference.pool) (freshNode []) ⟨node, .idle⟩ ∧
      node.height = 1 ∧ node.lastState.lastBlockHeight = 2 ∧
      node.lastState.lastBlockID = ⟨(poolSecond.header.hash Reference.env.tm).bytes, default⟩ :=
    exists_idle_of_runGuarded (crashInSecond 17) (by decide +kernel)
  have hblocks : (poolFirst.header.hash Reference.env.tm).bytes ≠
      (poolSecond.header.hash Reference.env.tm).bytes := by
    decide +kernel
  obtain ⟨node, hnode, hheight, hblock, hid⟩ := hclean
  obtain ⟨node', hnode', hheight', hblock', hid'⟩ := hcrashed
  refine ⟨oneChain.unique, node, node', hnode, hnode', hheight.trans hheight'.symm, ?_, ?_⟩
  · rw [hblock, hblock']
    decide
  · rw [hid, hid']
    exact fun heq => hblocks (congrArg BlockID.hash heq)

/-- A node that crashes after the commit of the second block agrees with one
that does not, once it has been given the block again. -/
theorem agreement_iff_reference : ∃ node node',
      Reachable (system Reference.env) (poolGuard Reference.pool) (freshNode []) ⟨node, .idle⟩ ∧
      Reachable (system otherEnv) (poolGuard Reference.pool) (freshNode []) ⟨node', .idle⟩ ∧
      node.height = 2 ∧ node'.height = 2 ∧
      node'.app.calls.contains .restart ∧
      node.lastState.lastBlockHeight = node'.lastState.lastBlockHeight ∧
      node.lastState.lastBlockID = node'.lastState.lastBlockID ∧
      node.lastState.appHash = node'.lastState.appHash ∧
      node.lastState.lastResultsHash = node'.lastState.lastResultsHash := by
  have hclean : ∃ node, Reachable (system Reference.env)
        (poolGuard Reference.pool) (freshNode []) ⟨node, .idle⟩ ∧
      node.height = 2 ∧ ¬ CountsUnstored node.lastState :=
    exists_idle_of_runGuarded (firstDelivered ++
        .call (Reference.deliver poolSecond) :: Reference.steps 26 ++
        [.ret])
      (by decide +kernel)
  have haligned : ∃ node, Reachable (system otherEnv)
        (poolGuard Reference.pool) (freshNode []) ⟨node, .idle⟩ ∧
      node.height = 2 ∧ ¬ CountsUnstored node.lastState ∧
      node.app.calls.contains .restart :=
    exists_idle_of_runGuarded (crashInSecond 19 ++
        .call (Reference.deliver poolFirst) :: Reference.steps 1 ++
        .ret :: .call (Reference.deliver poolSecond) :: Reference.steps 11 ++ [.ret])
      (by decide +kernel)
  obtain ⟨node, hnode, hheight, hstored⟩ := hclean
  obtain ⟨node', hnode', hheight', hstored', hrestart⟩ := haligned
  have hsame : SameChain Reference.env otherEnv := ⟨rfl, rfl, rfl, rfl, rfl⟩
  exact ⟨node, node', hnode, hnode', hheight, hheight', hrestart,
    (agreement_iff oneChain hsame [] hnode hnode'
      (hheight.trans hheight'.symm)).2 (iff_of_false hstored hstored')⟩

end Dymint.Manager
