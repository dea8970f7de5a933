import Dymint.Core.Replication
import Dymint.Block.Rotation

/-!
# The chain of a pool of blocks

The blocks that nodes are given form a pool.  If at each height at most one of
them passes `Validate`, the pool determines one chain of replicas, the part of
the state that all nodes have in common.  Each call to `applyBlock` keeps a node
on that chain: what it has persisted and what the application has committed are
those of one replica, or the next block is counted already.
-/

namespace Dymint.Manager

open Procedure Dymint.Types Store CrashSystem
open Replication

variable {α : Type}

/-! ## The chain of a pool -/

/-- What the nodes of a chain have in common at a height. -/
structure Replica (α : Type) where
  height : UInt64
  version : StateVersion
  consensusParams : ConsensusParams
  lastBlockID : BlockID
  appHash : Hash
  lastResultsHash : Hash
  app : α

def Replica.ofState (height : UInt64) (state : State) (app : α) : Replica α where
  height := height
  version := state.version
  consensusParams := state.consensusParams
  lastBlockID := state.lastBlockID
  appHash := state.appHash
  lastResultsHash := state.lastResultsHash
  app := app

namespace Replica

variable (env : Env α) (pool : Set (Block × Commit)) (replica : Replica α)
variable (block : Block)

def state : State :=
  { newFromGenesisDoc env.tm env.genesis with
    version := replica.version
    consensusParams := replica.consensusParams
    lastBlockHeight := if replica.height = 0 then 0 else 1
    lastStoreHeight := replica.height
    lastBlockID := replica.lastBlockID
    appHash := replica.appHash
    lastResultsHash := replica.lastResultsHash
    validators := setAt env 0 }

def run : α × ABCIResponses := runBlock env (replica.state env) block replica.app

def commit : α × ResponseCommit := env.app.commit (replica.run env block).1

def next : Replica α :=
  { replica with
    height := block.header.height
    lastBlockID := ⟨(block.header.hash env.tm).bytes, default⟩
    appHash := replica.appHash.copy (replica.commit env block).2.data
    lastResultsHash :=
      env.tm.resultsHash (replica.run env block).2.deliverTxs
    app := (replica.commit env block).1 }

def Accepts : Prop :=
  ∃ commit, (block, commit) ∈ pool ∧ block.header.height.toNat = replica.height.toNat + 1 ∧
    Executor.validate env.tm (replica.state env) block commit env.getProposer = .ok ()

end Replica

/-- The chain starts with the answer of the application to `InitChain`. -/
def firstReplica (env : Env α) (app : α) : Replica α :=
  let answer := env.app.initChain app (initChainRequest env)
  .ofState 0
    (updateInitChainState env (newFromGenesisDoc env.tm env.genesis) answer.2
      (initialValidators env))
    answer.1

def chain (env : Env α) (pool : Set (Block × Commit)) (app : α) : Machine (Replica α) Block where
  start := firstReplica env app
  accepts := Replica.Accepts env pool
  next := Replica.next env

/-- For each height and state, at most one block of the pool passes
`Validate`. -/
def UniquelyValid (env : Env α) (pool : Set (Block × Commit)) : Prop :=
  ∀ state block commit block' commit', (block, commit) ∈ pool →
    (block', commit') ∈ pool → block.header.height = block'.header.height →
    Executor.validate env.tm state block commit env.getProposer = .ok () →
    Executor.validate env.tm state block' commit' env.getProposer = .ok () →
    block = block'

section

variable {env : Env α} {pool : Set (Block × Commit)} {app : α}
variable {replica : Replica α} {block : Block}

theorem chain_determined (hunique : UniquelyValid env pool) (app : α) :
    (chain env pool app).Determined := by
  rintro replica block block' ⟨commit, hpool, hheight, hvalid⟩ ⟨commit', hpool', hheight', hvalid'⟩
  have hsame : block.header.height = block'.header.height :=
    UInt64.toNat_inj.1 (hheight.trans hheight'.symm)
  exact hunique _ _ _ _ _ hpool hpool' hsame hvalid hvalid'

theorem height_of_reaches {count : ℕ} (hreaches : (chain env pool app).Reaches count replica) :
    replica.height.toNat = count := by
  apply hreaches.measure fun replica => replica.height.toNat
  · rfl
  · rintro replica block ⟨_, _, hheight, _⟩
    exact hheight

end

/-! ## Nodes that follow the chain -/

section

variable (env : Env α) (pool : Set (Block × Commit))
variable (valid : ValidatorSet → Prop) (app : α)

structure Agrees (replica : Replica α) (state : State) : Prop where
  sound : state.Sound env.tm valid
  initial : state.initialHeight = env.genesis.initialHeight
  store : state.lastStoreHeight = replica.height
  version : state.version = replica.version
  consensusParams : state.consensusParams = replica.consensusParams
  appHash : state.appHash = replica.appHash
  lastResultsHash : state.lastResultsHash = replica.lastResultsHash
  validators : env.tm.validatorsHash state.validators = env.tm.validatorsHash (setAt env 0)
  block : (lastBlock state = replica.height.toNat ∧ state.lastBlockID = replica.lastBlockID) ∨
    ∃ block, replica.Accepts env pool block ∧ lastBlock state = replica.height.toNat + 1 ∧
      state.lastBlockID = ⟨(block.header.hash env.tm).bytes, default⟩

inductive AppAt (replica : Replica α) (state : State) (now : Snapshot α) : Prop
  | level (happ : now.lastBlockHeight.toUInt64 = replica.height)
      (hcommitted : now.committed =
        if replica.height = 0 then app else replica.app)
  | ahead {block : Block} (haccepts : replica.Accepts env pool block)
      (hblock : lastBlock state = replica.height.toNat + 1)
      (happ : now.lastBlockHeight.toUInt64 = block.header.height)
      (hcommitted : now.committed = (replica.next env block).app)
      (hhash : now.lastBlockAppHash = (replica.commit env block).2.data)
      (hresponses : now.responses block.header.height = some (replica.run env block).2)

structure Replicates (replica : Replica α) (state : State)
    (now : Snapshot α) : Prop where
  reaches : ∃ count, (chain env pool app).Reaches count replica
  agrees : Agrees env pool valid replica state
  appAt : AppAt env pool app replica state now

/-- What survives a crash. -/
structure ReplicaDisk (now : Snapshot α) : Prop where
  fresh : now.record = none → now.lastBlockHeight = 0 ∧ now.committed = app
  record : ∀ message, now.record = some message →
    ∃ replica state, State.Encodes env.tm state message ∧
      Replicates env pool valid app replica state now

/-- What holds between calls. -/
structure ReplicaNode (now : Snapshot α) : Prop
    extends ReplicaDisk env pool valid app now where
  memory : ∃ replica, Replicates env pool valid app replica now.lastState now ∧
    now.height = replica.height ∧
    now.working =
      if now.lastBlockHeight.toUInt64 = replica.height then replica.app
      else now.committed

end

section

variable {env : Env α} {pool : Set (Block × Commit)}
variable {valid : ValidatorSet → Prop} {app : α} {replica : Replica α}
variable {state state' : State} {block : Block} {commit : Commit}
variable {now later : Snapshot α}

section

variable (hagrees : Agrees env pool valid replica state)

include hagrees

theorem Agrees.setSLStateIndex (index : UInt64) :
    Agrees env pool valid replica (state.setSLStateIndex index) :=
  ⟨hagrees.sound.setSLStateIndex index, hagrees.initial, hagrees.store,
    hagrees.version, hagrees.consensusParams, hagrees.appHash,
    hagrees.lastResultsHash, hagrees.validators, hagrees.block⟩

theorem Agrees.accepts (hone : env.genesis.initialHeight = 1)
    (hheight : block.header.height.toNat = replica.height.toNat + 1)
    (hpool : (block, commit) ∈ pool)
    (hvalid : Executor.validate env.tm state block commit env.getProposer = .ok ()) :
    replica.Accepts env pool block := by
  refine ⟨commit, hpool, hheight, ?_⟩
  obtain ⟨hheader, hlast⟩ := (Executor.validate_eq_ok env.tm).1 hvalid
  refine (Executor.validate_eq_ok env.tm).2 ⟨?_, hlast⟩
  refine ⟨hheader.proposerAddress, ?_, ?_, ?_, ?_, ?_, ?_, hheader.commit⟩
  · rw [hheader.appVersion, hagrees.version]
    rfl
  · rw [hheader.blockVersion, hagrees.version]
    rfl
  · intro hfirst
    have hzero : replica.height = 0 := by
      by_contra hne
      have hle : (if replica.height = 0 then (0 : Int64) else 1) ≤ 0 := hfirst
      rw [if_neg hne] at hle
      exact absurd hle (by decide)
    apply UInt64.toNat_inj.1
    rw [hheight, hzero]
    change 0 + 1 = env.genesis.initialHeight.toUInt64.toNat
    rw [hone]
    rfl
  · intro _
    exact eq_add_one_of_toNat hheight
  · exact hheader.appHash.trans hagrees.appHash
  · exact hheader.lastResultsHash.trans hagrees.lastResultsHash

theorem Agrees.runBlock (block : Block) :
    runBlock env state block replica.app = replica.run env block :=
  runBlock_of_validatorsHash hagrees.validators block replica.app

end

theorem AppAt.of_eq (happ : AppAt env pool app replica state now)
    (hblock : lastBlock state' = lastBlock state)
    (hheight : later.lastBlockHeight = now.lastBlockHeight)
    (hhash : later.lastBlockAppHash = now.lastBlockAppHash)
    (hcommitted : later.committed = now.committed)
    (hresponses : ∀ height, replica.height ≤ height →
      later.responses height = now.responses height) :
    AppAt env pool app replica state' later := by
  cases happ with
  | level happ hlevel =>
    exact .level (hheight ▸ happ) (hcommitted.trans hlevel)
  | ahead haccepts hlast happ hnext hdata hsaved =>
    refine .ahead haccepts (hblock.trans hlast) (hheight ▸ happ)
      (hcommitted.trans hnext) (hhash.trans hdata) ?_
    rw [hresponses, hsaved]
    obtain ⟨_, _, hnextHeight, _⟩ := haccepts
    rw [UInt64.le_iff_toNat_le, hnextHeight]
    exact Nat.le_succ _

theorem Replicates.of_eq (hnow : Replicates env pool valid app replica state now)
    (hheight : later.lastBlockHeight = now.lastBlockHeight)
    (hhash : later.lastBlockAppHash = now.lastBlockAppHash)
    (hcommitted : later.committed = now.committed)
    (hresponses : ∀ height, replica.height ≤ height →
      later.responses height = now.responses height) :
    Replicates env pool valid app replica state later :=
  ⟨hnow.reaches, hnow.agrees, hnow.appAt.of_eq rfl hheight hhash hcommitted hresponses⟩

theorem Agrees.encodes (hcodec : Codec env.tm valid)
    (hagrees : Agrees env pool valid replica state) :
    ∃ message, state.toProto env.tm = .ok message := by
  obtain ⟨message, hmessage⟩ := hagrees.sound.encodes hcodec
  exact ⟨message, hmessage.1⟩

theorem Replicates.disk (hcodec : Codec env.tm valid) {message : Pb.State}
    (hnow : Replicates env pool valid app replica state now)
    (hmessage : state.toProto env.tm = .ok message) (hrecord : now.record = some message) :
    ReplicaDisk env pool valid app now where
  fresh hnone := by
    rw [hrecord] at hnone
    simp at hnone
  record other hother := by
    obtain ⟨encoded, hencodes⟩ := hnow.agrees.sound.encodes hcodec
    obtain rfl : encoded = message := Except.ok.inj (hencodes.1.symm.trans hmessage)
    obtain rfl : encoded = other := by
      rw [hrecord] at hother
      exact Option.some.inj hother
    exact ⟨replica, state, hencodes, hnow⟩

/-- Changes to what does not survive a crash. -/
theorem ReplicaDisk.of_eq (hdisk : ReplicaDisk env pool valid app now)
    (hrecord : later.record = now.record) (hheight : later.lastBlockHeight = now.lastBlockHeight)
    (hhash : later.lastBlockAppHash = now.lastBlockAppHash)
    (hcommitted : later.committed = now.committed) (hresponses : later.responses = now.responses) :
    ReplicaDisk env pool valid app later where
  fresh hnone := by
    rw [hheight, hcommitted]
    exact hdisk.fresh (hrecord.symm.trans hnone)
  record message hmessage := by
    obtain ⟨replica, state, hencodes, hnow⟩ := hdisk.record message (hrecord.symm.trans hmessage)
    exact ⟨replica, state, hencodes, hnow.of_eq hheight hhash hcommitted
      fun height _ => congrFun hresponses height⟩

end

/-! ## Executing the next block of the chain -/

structure Extending (env : Env α) (pool : Set (Block × Commit))
    (valid : ValidatorSet → Prop) (app : α) (block : Block)
    (replica : Replica α) (node : Node α) : Prop where
  disk : ReplicaDisk env pool valid app node.snapshot
  reaches : ∃ count, (chain env pool app).Reaches count replica
  agrees : Agrees env pool valid replica node.lastState
  height : node.height = replica.height
  level : node.app.lastBlockHeight.toUInt64 = replica.height
  committed : node.app.committed =
    if replica.height = 0 then app else replica.app
  working : node.app.working = replica.app
  accepts : replica.Accepts env pool block

variable {after : Snapshot α}

namespace Extending

variable {env : Env α} {pool : Set (Block × Commit)}
variable {valid : ValidatorSet → Prop} {app : α} {replica : Replica α}
variable {block : Block} {node : Node α} {message : Pb.State}
variable {set : ValidatorSet}
variable (hext : Extending env pool valid app block replica node)

include hext

theorem next_height : block.header.height.toNat = replica.height.toNat + 1 := by
  obtain ⟨_, _, hheight, _⟩ := hext.accepts
  exact hheight

theorem height_lt : node.height < block.header.height := by
  rw [hext.height, UInt64.lt_iff_toNat_lt, hext.next_height]
  exact Nat.lt_succ_self _

theorem run_eq : node.snapshot.run env block = replica.run env block := by
  rw [← hext.agrees.runBlock block, ← hext.working]
  rfl

theorem commit_eq : node.snapshot.commitRun env block = replica.commit env block :=
  congrArg (fun run : α × ABCIResponses => env.app.commit run.1) hext.run_eq

theorem lastBlock_executed : lastBlock (node.snapshot.executedState env block) =
      replica.height.toNat + 1 := by
  rw [← hext.next_height]
  exact congrArg UInt64.toNat (UInt64.toUInt64_toInt64 _)

theorem agrees_executed (hcodec : Codec env.tm valid) : Agrees env pool valid replica
      (node.snapshot.executedState env block) where
  sound := by
    apply hext.agrees.sound.updateState hcodec block
    intro hlegacy
    have hzero : replica.height = 0 := hext.agrees.store.symm.trans hlegacy.1
    have hlast := hext.lastBlock_executed
    rw [hzero] at hlast
    exact not_one_lt_of_toNat_le hlast.le hlegacy.2
  initial := hext.agrees.initial
  store := hext.agrees.store
  version := hext.agrees.version
  consensusParams := hext.agrees.consensusParams
  appHash := hext.agrees.appHash
  lastResultsHash := hext.agrees.lastResultsHash
  validators := hext.agrees.sound.sameHash.trans hext.agrees.validators
  block := Or.inr ⟨block, hext.accepts, hext.lastBlock_executed, rfl⟩

theorem agrees_finished (hcodec : Codec env.tm valid) (base : UInt64) :
    Agrees env pool valid (replica.next env block)
      (node.snapshot.finishedState env block base) where
  sound := by
    have hexecuted := (hext.agrees_executed hcodec).sound
    have hlegacy : ¬ (node.snapshot.finishedState env block base).Legacy :=
      fun hlegacy => ne_zero_of_height_lt hext.height_lt hlegacy.1
    exact hexecuted.of_eq rfl rfl rfl hexecuted.validators hlegacy
  initial := hext.agrees.initial
  store := rfl
  version := hext.agrees.version
  consensusParams := hext.agrees.consensusParams
  appHash := by
    have hcommit := congrArg (fun commit : α × ResponseCommit => commit.2.data) hext.commit_eq
    exact congrArg₂ FixedBytes.copy hext.agrees.appHash hcommit
  lastResultsHash := by
    have hrun := congrArg (fun run : α × ABCIResponses => run.2.deliverTxs) hext.run_eq
    exact (FixedBytes.copy_bytes _ _).trans (congrArg env.tm.resultsHash hrun)
  validators := (hext.agrees_executed hcodec).validators
  block := Or.inl ⟨congrArg UInt64.toNat (UInt64.toUInt64_toInt64 _), rfl⟩

theorem reaches_next : ∃ count, (chain env pool app).Reaches count (replica.next env block) := by
  obtain ⟨count, hcount⟩ := hext.reaches
  exact ⟨count + 1, hcount.step hext.accepts⟩

section

variable (hcodec : Codec env.tm valid)

include hcodec

/-- Once the batch is written, the record counts the block. -/
theorem replicates_persisted : Replicates env pool valid app replica
      (node.snapshot.executedState env block)
      (node.snapshot.persisted env block message set) :=
  ⟨hext.reaches, hext.agrees_executed hcodec, .level hext.level hext.committed⟩

theorem replicates_committed {later : Snapshot α}
    (hlater : (node.snapshot.committedBlock env block message set).Pruned later) :
    Replicates env pool valid app replica (node.snapshot.executedState env block) later := by
  have hcommitted : Replicates env pool valid app replica (node.snapshot.executedState env block)
      (node.snapshot.committedBlock env block message set) := by
    refine ⟨hext.reaches, hext.agrees_executed hcodec, .ahead hext.accepts
      hext.lastBlock_executed (UInt64.toUInt64_toInt64 _) ?_ ?_ ?_⟩
    · exact congrArg Prod.fst hext.commit_eq
    · exact congrArg (fun commit : α × ResponseCommit => commit.2.data) hext.commit_eq
    · rw [← hext.run_eq]
      exact Function.update_self _ _ _
  have hresponses (height : UInt64) (hheight : replica.height ≤ height) : later.responses height =
        (node.snapshot.committedBlock env block message set).responses height := by
    rw [← hext.height] at hheight
    exact hlater.responses height hheight
  rw [hlater.frame]
  exact hcommitted.of_eq rfl rfl rfl hresponses

theorem replicates_stored (base : UInt64) {later now : Snapshot α}
    (hlater : (node.snapshot.committedBlock env block message set).Pruned later)
    (hheight : now.lastBlockHeight = later.lastBlockHeight)
    (hcommitted : now.committed = later.committed) :
    Replicates env pool valid app (replica.next env block)
      (node.snapshot.finishedState env block base) now := by
  refine ⟨hext.reaches_next, hext.agrees_finished hcodec base, .level ?_ ?_⟩
  · rw [hheight, hlater.frame]
    exact UInt64.toUInt64_toInt64 _
  · have hpos : (replica.next env block).height ≠ 0 := ne_zero_of_height_lt hext.height_lt
    rw [if_neg hpos, hcommitted, hlater.frame]
    exact congrArg Prod.fst hext.commit_eq

theorem disk_of_stop
    (hmessage : (node.snapshot.executedState env block).toProto env.tm = .ok message)
    {now : Snapshot α} (hnow : Stop env block message set node.snapshot now) :
    ReplicaDisk env pool valid app now := by
  cases hnow with
  | executing | executed =>
    exact hext.disk.of_eq rfl rfl rfl rfl rfl
  | persisted =>
    exact (hext.replicates_persisted hcodec).disk hcodec hmessage rfl
  | committed hlater =>
    apply (hext.replicates_committed hcodec hlater).disk hcodec hmessage
    rw [hlater.frame]
    rfl
  | @stored later base message' hlater hmessage' =>
    have hstored : Replicates env pool valid app (replica.next env block)
        (node.snapshot.finishedState env block base)
        (later.store message') :=
      hext.replicates_stored hcodec base hlater rfl rfl
    exact hstored.disk hcodec hmessage' rfl

theorem node_of_finished (hafter : Finished env block node.snapshot after) :
    ReplicaNode env pool valid app { after with height := block.header.height } := by
  obtain ⟨message, set, later, base, message', hencoded, hlater, hmessage', rfl⟩ := hafter
  have hdisk := hext.disk_of_stop hcodec hencoded.state (.stored hlater hmessage')
  have hstored : Replicates env pool valid app (replica.next env block)
      (node.snapshot.finishedState env block base)
      { (later.store message').remember (node.snapshot.finishedState env block base) with
        height := block.header.height } :=
    hext.replicates_stored hcodec base hlater rfl rfl
  refine ⟨hdisk.of_eq rfl rfl rfl rfl rfl, replica.next env block, hstored, rfl, ?_⟩
  have happ : later.lastBlockHeight.toUInt64 = (replica.next env block).height := by
    rw [hlater.frame]
    exact UInt64.toUInt64_toInt64 _
  change later.working = if later.lastBlockHeight.toUInt64 = _ then _ else _
  rw [if_pos happ, hlater.frame]
  exact congrArg Prod.fst hext.commit_eq

theorem spec (failed : Snapshot α → Prop) : ∃ message set, ExecuteSpec env block message set False
      (ReplicaDisk env pool valid app) failed node.snapshot := by
  have hexecuted := hext.agrees_executed hcodec
  obtain ⟨message, hmessage⟩ := hexecuted.encodes hcodec
  obtain ⟨set, hset, _⟩ := hcodec.validatorSet _ hexecuted.sound.validators
  refine ⟨message, set, ⟨hmessage, hset⟩, fun base => ?_, fun now hnow => ?_,
    False.elim, fun after hafter => ?_⟩
  · exact (hext.agrees_finished hcodec base).encodes hcodec
  · exact hext.disk_of_stop hcodec hmessage hnow
  · exact (hext.node_of_finished hcodec hafter).toReplicaDisk.of_eq
      rfl rfl rfl rfl rfl

end

end Extending

/-! ## One call -/

structure OneChain (env : Env α) (pool : Set (Block × Commit))
    (valid : ValidatorSet → Prop) : Prop where
  codec : Codec env.tm valid
  initial : env.genesis.initialHeight = 1
  appHash : ∀ state, (env.app.commit state).2.data.length = 32
  unique : UniquelyValid env pool

section

variable {env : Env α} {pool : Set (Block × Commit)}
variable {valid : ValidatorSet → Prop} {app : α} {replica : Replica α}
variable {state : State} {block : Block} {commit : Commit} {node : Node α}

section

variable (hchain : OneChain env pool valid) (hagrees : Agrees env pool valid replica state)
variable (haccepts : replica.Accepts env pool block)
variable (hcounted : lastBlock state = replica.height.toNat + 1)

include hchain hagrees haccepts hcounted

theorem Agrees.lastBlockID_of_counted :
    state.lastBlockID = ⟨(block.header.hash env.tm).bytes, default⟩ := by
  rcases hagrees.block with ⟨hlevel, _⟩ | ⟨other, hother, _, hid⟩
  · exact absurd (hlevel.symm.trans hcounted) (Nat.succ_ne_self _).symm
  · have hsame : other = block :=
      chain_determined hchain.unique replica.app replica other block hother haccepts
    rw [hid, hsame]

theorem Agrees.aligned {appHash : Hash}
    (hhash : FixedBytes.ofSlice? 32 (replica.commit env block).2.data = some appHash) :
    Agrees env pool valid (replica.next env block)
      (alignedState env.tm state appHash block.header.height (replica.run env block).2) where
  sound := by
    have hlegacy : ¬ (alignedState env.tm state appHash block.header.height
        (replica.run env block).2).Legacy := by
      rintro ⟨hzero, _⟩
      obtain ⟨_, _, hnext, _⟩ := haccepts
      rw [show block.header.height = 0 from hzero] at hnext
      simp at hnext
    exact hagrees.sound.of_eq rfl rfl rfl hagrees.sound.validators hlegacy
  initial := hagrees.initial
  store := rfl
  version := hagrees.version
  consensusParams := hagrees.consensusParams
  appHash := by
    have hlength : (replica.commit env block).2.data.length = 32 := hchain.appHash _
    rw [FixedBytes.ofSlice?_of_length hlength, Option.some.injEq] at hhash
    exact hhash.symm.trans (FixedBytes.copy_of_length _ hlength).symm
  lastResultsHash := FixedBytes.copy_bytes _ _
  validators := hagrees.validators
  block := by
    have hid := hagrees.lastBlockID_of_counted hchain haccepts hcounted
    obtain ⟨_, _, hnext, _⟩ := haccepts
    exact Or.inl ⟨hcounted.trans hnext.symm, hid⟩

end

section

variable (hchain : OneChain env pool valid) (hidle : node.core.Idle)
variable (hnode : ReplicaNode env pool valid app node.snapshot)
variable (hnext : block.header.height = node.height + 1)

include hchain hidle hnode hnext

section

variable (happ : node.app.lastBlockHeight.toUInt64 = block.header.height)

include happ

theorem exists_aligned : ∃ replica : Replica α, ∃ responses,
      node.snapshot.responses block.header.height = some responses ∧
      (∃ count, (chain env pool app).Reaches count replica) ∧
      replica.height = block.header.height ∧
      node.app.committed = replica.app ∧
      node.app.working = node.app.committed ∧
      ∀ appHash, FixedBytes.ofSlice? 32 node.app.lastBlockAppHash = some appHash →
        Agrees env pool valid replica (alignedState env.tm node.lastState
          appHash block.header.height responses) := by
  obtain ⟨replica, hreplica, hheight, hworking⟩ := hnode.memory
  obtain ⟨count, hcount⟩ := hreplica.reaches
  have hnat := toNat_next hidle.always hnext
  have hne : node.app.lastBlockHeight.toUInt64 ≠ replica.height := by
    rw [happ, ← show node.height = replica.height from hheight]
    exact fun heq => absurd (hnat.symm.trans (congrArg UInt64.toNat heq)) (Nat.succ_ne_self _)
  have hworking' : node.app.working = node.app.committed := hworking.trans (if_neg hne)
  cases hreplica.appAt with
  | level hlevel _ => exact absurd hlevel hne
  | @ahead next haccepts hcounted happ' hcommitted hhash hresponses =>
    have hsame : next.header.height = block.header.height := happ'.symm.trans happ
    rw [hsame] at hresponses
    refine ⟨replica.next env next, _, hresponses,
      ⟨count + 1, hcount.step haccepts⟩, hsame, hcommitted, hworking', ?_⟩
    intro appHash hslice
    rw [← hsame]
    apply hreplica.agrees.aligned hchain haccepts hcounted
    rw [← hhash]
    exact hslice

theorem replicaNode_aligned (hafter : Aligned env block.header.height node.snapshot after) :
    ReplicaNode env pool valid app { after with height := block.header.height } := by
  obtain ⟨appHash, responses, message, hhash, hresponses, hmessage, rfl⟩ := hafter
  obtain ⟨replica, responses', hresponses', hreaches, hheight, hcommitted,
    hworking, hagrees⟩ := exists_aligned hchain hidle hnode hnext happ
  obtain rfl : responses = responses' := Option.some.inj (hresponses.symm.trans hresponses')
  have hpos : replica.height ≠ 0 := by
    rw [hheight]
    exact next_ne_zero hidle hnext
  have hlevel : node.app.lastBlockHeight.toUInt64 = replica.height := happ.trans hheight.symm
  have hreplica (now : Snapshot α) (hblock : now.lastBlockHeight = node.app.lastBlockHeight)
      (hsame : now.committed = node.app.committed) :
      Replicates env pool valid app replica
        (alignedState env.tm node.lastState appHash block.header.height responses) now := by
    refine ⟨hreaches, hagrees appHash hhash, .level (hblock ▸ hlevel) ?_⟩
    rw [if_neg hpos, hsame, hcommitted]
  refine ⟨(hreplica _ rfl rfl).disk hchain.codec hmessage rfl, replica,
    hreplica _ rfl rfl, hheight.symm, ?_⟩
  change node.app.working =
    if node.app.lastBlockHeight.toUInt64 = replica.height then replica.app
    else node.app.committed
  rw [if_pos hlevel, hworking, hcommitted]

theorem alignSpec_replica : AlignSpec env block.header.height False (ReplicaDisk env pool valid app)
      (ReplicaNode env pool valid app) node.snapshot := by
  obtain ⟨replica, responses, hresponses, _, _, _, _, hagrees⟩ :=
    exists_aligned hchain hidle hnode hnext happ
  have hdisk (state : State) : ReplicaDisk env pool valid app (node.snapshot.remember state) :=
    hnode.toReplicaDisk.of_eq rfl rfl rfl rfl rfl
  refine ⟨fun _ => hdisk _, fun _ => hdisk _, fun _ => hdisk _, ?_, ?_⟩
  · rintro appHash (hfalse | hnone)
    · exact hfalse.elim
    · rw [hresponses] at hnone
      simp at hnone
  · intro appHash responses' hhash hresponses'
    obtain rfl : responses = responses' := Option.some.inj (hresponses.symm.trans hresponses')
    obtain ⟨message, hmessage⟩ := (hagrees appHash hhash).encodes hchain.codec
    have hafter := replicaNode_aligned hchain hidle hnode hnext happ
      ⟨appHash, responses, message, hhash, hresponses, hmessage, rfl⟩
    exact ⟨message, hmessage, hdisk _, hafter.toReplicaDisk.of_eq rfl rfl rfl rfl rfl, False.elim⟩

end

theorem exists_extending (hpool : (block, commit) ∈ pool)
    (happ : node.app.lastBlockHeight.toUInt64 ≠ block.header.height)
    (hvalid : Executor.validate env.tm node.lastState block commit env.getProposer = .ok ()) :
    ∃ replica, Extending env pool valid app block replica node := by
  obtain ⟨replica, hreplica, hheight, hworking⟩ := hnode.memory
  have hnat : block.header.height.toNat = replica.height.toNat + 1 := by
    rw [← show node.height = replica.height from hheight]
    exact toNat_next hidle.always hnext
  cases hreplica.appAt with
  | level hlevel hcommitted =>
    exact ⟨replica, hnode.toReplicaDisk, hreplica.reaches, hreplica.agrees,
      hheight, hlevel, hcommitted, hworking.trans (if_pos hlevel),
      hreplica.agrees.accepts hchain.initial hnat hpool hvalid⟩
  | @ahead next haccepts _ happ' _ _ _ =>
    obtain ⟨_, _, hnext', _⟩ := haccepts
    have hsame : next.header.height = block.header.height :=
      UInt64.toNat_inj.1 (hnext'.trans hnat.symm)
    exact absurd (happ'.trans hsame) happ

theorem applySpec_replica (hpool : (block, commit) ∈ pool) :
    ApplySpec env block commit False (ReplicaDisk env pool valid app)
      (ReplicaNode env pool valid app) node.snapshot where
  executing _ _ := hnode.toReplicaDisk.of_eq rfl rfl rfl rfl rfl
  executing_failed := False.elim
  align happ := alignSpec_replica hchain hidle hnode hnext happ
  rejected _ _ _ := hnode
  execute happ hvalid := by
    obtain ⟨replica, hext⟩ := exists_extending hchain hidle hnode hnext hpool happ hvalid
    exact hext.spec hchain.codec _

theorem applied_replica (hpool : (block, commit) ∈ pool)
    (hafter : Applied env block commit node.snapshot after) :
    ReplicaNode env pool valid app after := by
  cases hafter with
  | aligned happ haligned =>
    exact replicaNode_aligned hchain hidle hnode hnext happ haligned
  | executed happ hvalid hfinished =>
    obtain ⟨replica, hext⟩ := exists_extending hchain hidle hnode hnext hpool happ hvalid
    exact hext.node_of_finished hchain.codec hfinished

end

end

end Dymint.Manager
