import Dymint.Block.Steps
import Dymint.Core.CrashSystem

/-!
# The manager as a system

A node serves, one after another, the calls that its loops make: blocks that
arrive by gossip, blocks that it produces itself, batches fetched from the data
availability layer, updates of the settlement index and new sync targets.  The
process may crash between any two steps and then starts again with `NewManager`.
-/

namespace Dymint.Manager

open Procedure Dymint.Types Store CrashSystem

variable {α : Type}

/-- The assignment of `updateSyncParams`. -/
def updateSyncParams (endHeight : UInt64) : M α Unit :=
  Proc.write fun node => { node with syncTarget := endHeight }

/-- The calls of the gossip callback, the production loops, the retrieve loop and
the sync target loop. -/
inductive Request where
  | gossip (block : Block) (commit : Commit)
  | produce (input : ProduceInput)
  | retrieve (result : ResultRetrieveBatch)
  | stateIndex (index : UInt64)
  | syncTarget (endHeight : UInt64)

def serve (env : Env α) : Request → M α Unit
  | .gossip block commit => applyBlock env block commit
  | .produce input => produceBlock env input
  | .retrieve result => processNextDABatch env result
  | .stateIndex index => updateStateIndex env index
  | .syncTarget endHeight => updateSyncParams endHeight

def system (env : Env α) : System (Node α) Answer Error Request where
  boot := newManager env
  serve := serve env
  crash := crash

def freshNode (app : α) : Node α where
  db := Db.empty
  height := 0
  baseHeight := 0
  lastState := default
  app :=
    { committed := app
      working := app
      workingHeight := 0
      lastBlockHeight := 0
      lastBlockAppHash := []
      calls := [] }
  syncTarget := 0
  gossiped := []
  published := []
  unread := true

/-- The configurations that a node passes through in any run, whatever calls
are made, whatever fails and wherever the process crashes. -/
abbrev ReachableNode (env : Env α) (app : α)
    (config : Config (Node α) Answer Error) : Prop :=
  Reachable (system env) (Guard.none (Node α) Answer Request) (freshNode app) config

/-- The configurations between calls. -/
def isIdle (config : Config (Node α) Answer Error) : Bool :=
  match config.phase with
  | .idle => true
  | _ => false

variable {guard : Guard (Node α) Answer Request} {p : Node α → Prop}

section

variable {env : Env α} {app : α} (labels : List (Label Answer Request))

theorem exists_idle_of_view [DecidablePred p]
    (hview : ∃ config, Reachable (system env) guard (freshNode app) config ∧ (isIdle config &&
      decide (p config.state)) = true) :
    ∃ node, Reachable (system env) guard (freshNode app) ⟨node, .idle⟩ ∧ p node := by
  obtain ⟨⟨node, phase⟩, hreach, hview⟩ := hview
  rw [Bool.and_eq_true, decide_eq_true_eq] at hview
  obtain ⟨hidle, hp⟩ := hview
  cases phase with
  | idle => exact ⟨node, hreach, hp⟩
  | down | booting | serving => cases hidle

theorem exists_idle_of_runGuarded [∀ node label, Decidable (guard.Permits node label)]
    [DecidablePred p]
    (hrun : ((system env).runGuarded guard ⟨freshNode app, .down⟩ labels).map
      (fun config => isIdle config && decide (p config.state)) = some true) :
    ∃ node, Reachable (system env) guard (freshNode app) ⟨node, .idle⟩ ∧ p node :=
  exists_idle_of_view (exists_reachable_of_runGuarded labels hrun)

theorem exists_reachableNode {ν : Type} {view : Config (Node α) Answer Error → ν} {value : ν}
    (hrun : ((system env).run ⟨freshNode app, .down⟩ labels).map view = some value) :
    ∃ config, ReachableNode env app config ∧ view config = value :=
  exists_reachable_of_run labels hrun

theorem exists_idleNode [DecidablePred p]
    (hrun : ((system env).run ⟨freshNode app, .down⟩ labels).map
      (fun config => isIdle config && decide (p config.state)) = some true) :
    ∃ node, ReachableNode env app ⟨node, .idle⟩ ∧ p node :=
  exists_idle_of_view (exists_reachable_of_run labels hrun)

end

/-! ## Invariants of the calls -/

def batchPairs (batch : Option Batch) : List (Block × Commit) :=
  batch.elim [] fun batch => batch.blocks.zip batch.commits

variable {batches : List (Option Batch)} {result : ResultRetrieveBatch} {blocks : List Block}

section

variable {env : Env α} {rules : Proc.Rules (Node α) Answer} {node : Node α}
variable {idle failed always : Node α → Prop} {p : Block → Commit → Prop}
variable (halways : ∀ node, idle node → always node)
variable (happly : ∀ node block commit, p block commit → idle node →
  (applyBlock env block commit).wp rules (Proc.Ends (fun _ => idle) failed always) node)

include halways happly

/-- An invariant that `applyBlock` keeps for some blocks is kept by batches of
them. -/
theorem wp_applyBatch_of {commits : List Commit}
    (hblocks : ∀ pair ∈ blocks.zip commits, p pair.1 pair.2) (hidle : idle node) :
    (applyBatch env blocks commits).wp rules (Proc.Ends (fun _ => idle) failed always) node := by
  induction blocks generalizing commits node with
  | nil => exact hidle
  | cons block blocks ih =>
    cases commits with
    | nil => exact halways _ hidle
    | cons commit commits =>
      rw [List.zip_cons_cons, List.forall_mem_cons] at hblocks
      apply Proc.wp_bind_ends (happly node block commit hblocks.1 hidle)
      intro _ later hlater
      exact ih hblocks.2 hlater

theorem wp_applyBatches_of
    (hblocks : ∀ batch ∈ batches, ∀ pair ∈ batchPairs batch, p pair.1 pair.2) (hidle : idle node) :
    (applyBatches env batches).wp rules (Proc.Ends (fun _ => idle) failed always) node := by
  induction batches generalizing node with
  | nil => exact hidle
  | cons batch batches ih =>
    rw [List.forall_mem_cons] at hblocks
    cases batch with
    | none => exact halways _ hidle
    | some batch =>
      apply Proc.wp_bind_ends (wp_applyBatch_of halways happly hblocks.1 hidle)
      intro _ later hlater
      exact ih hblocks.2 hlater

theorem wp_processNextDABatch_of (hfailed : ∀ node, idle node → failed node)
    (hblocks : ∀ batch ∈ result.batches, ∀ pair ∈ batchPairs batch, p pair.1 pair.2)
    (hidle : idle node) :
    (processNextDABatch env result).wp rules (Proc.Ends (fun _ => idle) failed always) node := by
  have hbatches := wp_applyBatches_of halways happly hblocks hidle
  rw [processNextDABatch, fetchBatch]
  cases result.code with
  | error | timeout => exact hfailed _ hidle
  | unknown | success => exact hbatches

end

section

variable {env : Env α} {rel : Node α → Node α → Prop}
variable (happly : ∀ block commit, (applyBlock env block commit).Follows rel fun _ => True)

include happly

/-- What every step of `applyBlock` does, every step of a batch does. -/
theorem follows_applyBatch_of (blocks : List Block) (commits : List Commit) :
    (applyBatch env blocks commits).Follows rel fun _ => True := by
  induction blocks generalizing commits with
  | nil => exact Proc.follows_pure trivial
  | cons block blocks ih =>
    cases commits with
    | nil => exact Proc.follows_abort
    | cons commit commits =>
      apply Proc.Follows.bind (happly block commit)
      intro _ _
      exact ih commits

theorem follows_applyBatches_of (batches : List (Option Batch)) :
    (applyBatches env batches).Follows rel fun _ => True := by
  induction batches with
  | nil => exact Proc.follows_pure trivial
  | cons batch batches ih =>
    cases batch with
    | none => exact Proc.follows_abort
    | some batch =>
      apply Proc.Follows.bind (follows_applyBatch_of happly _ _)
      intro _ _
      exact ih

theorem follows_processNextDABatch_of (result : ResultRetrieveBatch) :
    (processNextDABatch env result).Follows rel fun _ => True := by
  apply Proc.Follows.bind (Proc.follows_ofResult _)
  intro batches _
  exact follows_applyBatches_of happly batches

end

/-! ## What `produceBlock` offers -/

inductive Predecessor (env : Env α) (node : Node α) : Commit → Hash → Prop
  | none (hfirst : node.height + 1 = env.genesis.initialHeight.toUInt64) :
      Predecessor env node ⟨node.height, FixedBytes.zero 32, [], default⟩ (FixedBytes.zero 32)
  | stored {commit : Commit} {block : Block}
      (hcommit : loadCommit node.db node.height = .ok commit)
      (hblock : loadBlock node.db node.height = .ok block) :
      Predecessor env node commit (block.header.hash env.tm)

/-- The pairs that `produceBlock` may gossip and apply: the pending block, or one
that it creates.  It creates one if there is no pending block, or if that block
cannot be read although the store has it. -/
inductive Offers (env : Env α) (input : ProduceInput) (node : Node α)
    (unreadable : Prop) : Block → Commit → Prop
  | pending {block : Block} {commit : Commit}
      (hblock : loadBlock node.db (node.height + 1) = .ok block)
      (hcommit : loadCommit node.db (node.height + 1) = .ok commit) :
      Offers env input node unreadable block commit
  | created {lastCommit commit : Commit} {lastHeaderHash : Hash} {block : Block}
      (hnew : (∀ pending, loadBlock node.db (node.height + 1) ≠ .ok pending) ∨ unreadable)
      (hlast : Predecessor env node lastCommit lastHeaderHash)
      (hblock : block = Executor.createBlock env.tm env.exec (node.height + 1)
        lastCommit lastHeaderHash node.lastState input.mempoolTxs input.now)
      (hcommit : createCommit env node.lastState.chainID block input.voteTimestamp = .ok commit) :
      Offers env input node unreadable block commit

section

variable {env : Env α} {rules : Proc.Rules (Node α) Answer} {node : Node α}
variable {input : ProduceInput}

theorem wp_loadLast (hcrash : rules.crash node) : (loadLast env node.height).wp rules
      (Proc.Ends (fun last later => later = node ∧ Predecessor env node last.1 last.2)
        (· = node) (· = node)) node := by
  have hload {β : Type} {onErr : Error → Error} (load : Db → Result Error β) :
      (query onErr load).wp rules
        (Proc.Ends (fun value later => later = node ∧ load node.db = .ok value)
          (· = node) (· = node)) node := by
    rw [query, wp_callWith]
    refine ⟨hcrash, fun _ => ?_, fun _ => rfl, fun _ => rfl⟩
    dsimp only
    cases hvalue : load node.db with
    | ok value => exact ⟨rfl, rfl⟩
    | err | panic => rfl
  unfold loadLast
  split
  case isTrue hfirst => exact ⟨rfl, .none hfirst⟩
  case isFalse =>
    apply Proc.wp_bind_ends (hload _)
    rintro lastCommit later ⟨rfl, hcommit⟩
    apply Proc.wp_bind_ends (hload _)
    rintro lastBlock later ⟨rfl, hblock⟩
    exact ⟨rfl, .stored hcommit hblock⟩

variable {lastHeaderHash : Hash} {lastCommit : Commit}

theorem wp_createSignedBlock {newHeight : UInt64} (hcrash : rules.crash node) :
    (createSignedBlock env input newHeight lastCommit lastHeaderHash).wp rules (Proc.Ends
        (fun pair later => later = node ∧
          pair.1 = Executor.createBlock env.tm env.exec newHeight lastCommit
            lastHeaderHash node.lastState input.mempoolTxs input.now ∧
          createCommit env node.lastState.chainID pair.1 input.voteTimestamp = .ok pair.2)
        (· = node) (· = node)) node := by
  apply wp_getLastState_bind hcrash
  dsimp only
  split
  · rfl
  · apply wp_getLastState_bind hcrash
    rw [Proc.wp_bind, Proc.wp_ofResult]
    cases hcommit : createCommit env node.lastState.chainID
        (Executor.createBlock env.tm env.exec newHeight lastCommit lastHeaderHash
          node.lastState input.mempoolTxs input.now) input.voteTimestamp with
    | ok commit => exact ⟨rfl, rfl, hcommit⟩
    | err | panic => rfl

variable {unreadable : Prop}

section

variable (hcrash : rules.crash node)
variable (hread : ∀ answer, rules.allowed node answer → answer ≠ .ok → unreadable)

include hcrash hread

theorem wp_pendingOrNewBlock (hlast : Predecessor env node lastCommit lastHeaderHash) :
    (pendingOrNewBlock env input (node.height + 1) lastCommit lastHeaderHash).wp rules
      (Proc.Ends (fun pair later => later = node ∧ Offers env input node unreadable pair.1 pair.2)
        (· = node) (· = node)) node := by
  have hcreate (hnew : (∀ pending,
      loadBlock node.db (node.height + 1) ≠ .ok pending) ∨ unreadable) :
      (createSignedBlock env input (node.height + 1) lastCommit lastHeaderHash).wp rules
        (Proc.Ends (fun pair later => later = node ∧ Offers env input node unreadable pair.1 pair.2)
          (· = node) (· = node)) node := by
    apply Proc.wp_ends_mono (wp_createSignedBlock hcrash)
    rintro pair later ⟨rfl, hblock, hcommit⟩
    exact ⟨rfl, .created hnew hlast hblock hcommit⟩
  unfold pendingOrNewBlock
  rw [Proc.wp_bind, Proc.wp_attempt, query, wp_callWith]
  refine ⟨hcrash, fun _ => ?_, fun hfault => hcreate (Or.inr (hread _ hfault (by simp))),
    fun hfault => hcreate (Or.inr (hread _ hfault (by simp)))⟩
  dsimp only
  cases hpending : loadBlock node.db (node.height + 1) with
  | panic => rfl
  | err error => exact hcreate (Or.inl (by simp [hpending]))
  | ok block =>
    apply wp_callWith_bind
    rw [wp_callWith]
    refine ⟨hcrash, fun _ => ?_, fun _ => rfl, fun _ => rfl⟩
    dsimp only
    cases hcommit : loadCommit node.db (node.height + 1) with
    | ok commit => exact ⟨rfl, .pending hpending hcommit⟩
    | err | panic => rfl

/-- The rule for `produceBlock`: it gossips what it offers and applies it. -/
theorem wp_produceBlock_of {post : Result Error Unit → Node α → Prop}
    (hfail : ∀ result, result ≠ .ok () → post result node)
    (hoffer : ∀ block commit, Offers env input node unreadable block commit →
      (gossipBlock block commit >>= fun _ => applyBlock env block commit).wp rules post node) :
    (produceBlock env input).wp rules post node := by
  have hends {β : Type} {result : Result Error β} {later : Node α}
      (hlater : later = node) (hresult : ∀ value, result ≠ .ok value)
      (rest : β → M α Unit) : Proc.andThen rules rest post result later := by
    subst hlater
    cases result with
    | ok value => exact absurd rfl (hresult value)
    | err | panic => exact hfail _ (by simp)
  apply wp_read_bind hcrash
  apply Proc.wp_bind_of (wp_loadLast hcrash)
  intro result later hlater
  cases result with
  | err | panic => exact hends hlater (by simp) _
  | ok last =>
    obtain ⟨rfl, hlast⟩ := hlater
    rw [Proc.andThen_ok]
    apply Proc.wp_bind_of (wp_pendingOrNewBlock hcrash hread hlast)
    intro result later hlater
    cases result with
    | err | panic => exact hends hlater (by simp) _
    | ok pair =>
      obtain ⟨rfl, hpair⟩ := hlater
      exact hoffer pair.1 pair.2 hpair

end

end

/-- An invariant that `applyBlock` keeps when it succeeds, with what holds when
it fails and what holds after a panic. -/
structure ApplyInvariant (env : Env α) (rules : Proc.Rules (Node α) Answer)
    (idle failed always : Node α → Prop) : Prop where
  crash : ∀ node, always node → rules.crash node
  always_of_idle : ∀ node, idle node → always node
  failed_of_idle : ∀ node, idle node → failed node
  gossip : ∀ node block commit, idle node →
    idle { node with gossiped := node.gossiped ++ [(block, commit)] }
  applyBlock : ∀ node block commit, idle node →
    (applyBlock env block commit).wp rules (Proc.Ends (fun _ => idle) failed always) node

namespace ApplyInvariant

variable {env : Env α} {rules : Proc.Rules (Node α) Answer}
variable {idle failed always : Node α → Prop} {node : Node α}

theorem produceBlock (hinv : ApplyInvariant env rules idle failed always) (input : ProduceInput)
    (hidle : idle node) :
    (Manager.produceBlock env input).wp rules (Proc.Ends (fun _ => idle) failed always) node := by
  have hcrash := hinv.crash node (hinv.always_of_idle node hidle)
  have hread (answer : Answer) (_ : rules.allowed node answer) (_ : answer ≠ .ok) : True := trivial
  apply wp_produceBlock_of hcrash hread
  · intro result hresult
    cases result with
    | ok value => exact absurd rfl hresult
    | err error => exact hinv.failed_of_idle _ hidle
    | panic => exact hinv.always_of_idle _ hidle
  · intro block commit _
    have hgossip := hinv.gossip node block commit hidle
    apply wp_callWith_bind
    rw [wp_callWith]
    exact ⟨hcrash, fun _ => hinv.applyBlock _ block commit hgossip,
      fun _ => hinv.failed_of_idle _ hidle,
      fun _ => hinv.failed_of_idle _ hgossip⟩

theorem processNextDABatch (hinv : ApplyInvariant env rules idle failed always)
    (result : ResultRetrieveBatch) (hidle : idle node) :
    (Manager.processNextDABatch env result).wp rules
      (Proc.Ends (fun _ => idle) failed always) node := by
  have happly (later : Node α) (block : Block) (commit : Commit) (_ : True) (hlater : idle later) :=
    hinv.applyBlock later block commit hlater
  exact wp_processNextDABatch_of hinv.always_of_idle happly hinv.failed_of_idle
    (fun _ _ _ _ => trivial) hidle

end ApplyInvariant

/-- An invariant that holds between calls, and another that also holds after a
panic, as kept by the two calls that the others are made of. -/
structure ServeInvariant (env : Env α) (rules : Proc.Rules (Node α) Answer)
    (idle always : Node α → Prop) : Prop
    extends ApplyInvariant env rules idle idle always where
  failed_of_idle := fun _ hidle => hidle
  updateStateIndex : ∀ node index, idle node →
    (updateStateIndex env index).wp rules (Proc.Ends (fun _ => idle) idle always) node

theorem ServeInvariant.serve {env : Env α} {rules : Proc.Rules (Node α) Answer}
    {idle always : Node α → Prop} {node : Node α} (hinv : ServeInvariant env rules idle always)
    (request : Request) (htarget : ∀ endHeight, request = .syncTarget endHeight →
      idle { node with syncTarget := endHeight }) (hidle : idle node) :
    (Manager.serve env request).wp rules (Proc.Ends (fun _ => idle) idle always) node := by
  cases request with
  | gossip block commit => exact hinv.applyBlock node block commit hidle
  | produce input => exact hinv.produceBlock input hidle
  | retrieve result => exact hinv.processNextDABatch result hidle
  | stateIndex index => exact hinv.updateStateIndex node index hidle
  | syncTarget endHeight =>
    exact ⟨hinv.crash node (hinv.always_of_idle node hidle), fun _ _ => htarget endHeight rfl⟩

/-! ## Calls that try the next block -/

def TriesNext {α : Type} (node : Node α) : Request → Prop
  | .gossip block _ => block.header.height = node.height + 1
  | .produce _ => True
  | .retrieve result =>
    ∃ batch ∈ result.batches, ∃ block ∈ batch.elim [] Batch.blocks,
      block.header.height = node.height + 1
  | .stateIndex _ | .syncTarget _ => False

instance {α : Type} (node : Node α) (request : Request) : Decidable (TriesNext node request) := by
  cases request with
  | gossip block commit =>
    exact inferInstanceAs (Decidable (block.header.height = node.height + 1))
  | produce input => exact .isTrue trivial
  | retrieve result =>
    exact inferInstanceAs (Decidable (∃ batch ∈ result.batches,
      ∃ block ∈ batch.elim [] Batch.blocks, block.header.height = node.height + 1))
  | stateIndex | syncTarget => exact .isFalse id

section

variable {env : Env α} {rules : Proc.Rules (Node α) Answer} {node : Node α}

theorem wp_applyBlock_skipped {block : Block} (commit : Commit) (hcrash : rules.crash node)
    (hskip : block.header.height ≠ node.height + 1) :
    (applyBlock env block commit).wp rules
      (Proc.Ends (fun _ later => later = node) (· = node) (· = node)) node := by
  apply wp_read_bind hcrash
  rw [if_pos hskip]
  rfl

theorem wp_applyBatch_skipped (commits : List Commit)
    (hcrash : rules.crash node) (hskip : ∀ block ∈ blocks, block.header.height ≠ node.height + 1) :
    (applyBatch env blocks commits).wp rules
      (Proc.Ends (fun _ later => later = node) (· = node) (· = node)) node := by
  induction blocks generalizing commits with
  | nil => rfl
  | cons block blocks ih =>
    rw [List.forall_mem_cons] at hskip
    cases commits with
    | nil => rfl
    | cons commit commits =>
      apply Proc.wp_bind_ends (wp_applyBlock_skipped commit hcrash hskip.1)
      rintro _ later rfl
      exact ih commits hskip.2

theorem wp_applyBatches_skipped (hcrash : rules.crash node)
    (hskip : ∀ batch ∈ batches, ∀ block ∈ batch.elim [] Batch.blocks, block.header.height ≠
      node.height + 1) :
    (applyBatches env batches).wp rules
      (Proc.Ends (fun _ later => later = node) (· = node) (· = node)) node := by
  induction batches with
  | nil => rfl
  | cons batch batches ih =>
    rw [List.forall_mem_cons] at hskip
    cases batch with
    | none => rfl
    | some batch =>
      apply Proc.wp_bind_ends (wp_applyBatch_skipped batch.commits hcrash hskip.1)
      rintro _ later rfl
      exact ih hskip.2

theorem wp_processNextDABatch_skipped (hcrash : rules.crash node)
    (hskip : ∀ batch ∈ result.batches, ∀ block ∈ batch.elim [] Batch.blocks, block.header.height ≠
      node.height + 1) :
    (processNextDABatch env result).wp rules
      (Proc.Ends (fun _ later => later = node) (· = node) (· = node)) node := by
  rw [processNextDABatch, fetchBatch]
  cases result.code with
  | error | timeout => rfl
  | unknown | success => exact wp_applyBatches_skipped hcrash hskip

/-- Apart from updates of the settlement index and new sync targets, calls that do
not try the next block change nothing. -/
theorem wp_serve_skipped {request : Request} (hcrash : rules.crash node)
    (hskip : ¬ TriesNext node request) (hindex : ∀ index, request ≠ .stateIndex index)
    (htarget : ∀ endHeight, request ≠ .syncTarget endHeight) {idle failed always : Node α → Prop}
    (hidle : idle node) (hfailed : failed node) (halways : always node) :
    (serve env request).wp rules (Proc.Ends (fun _ => idle) failed always) node := by
  have hsame : (serve env request).wp rules
      (Proc.Ends (fun _ later => later = node) (· = node) (· = node)) node := by
    cases request with
    | gossip block commit => exact wp_applyBlock_skipped commit hcrash hskip
    | produce input => exact absurd trivial hskip
    | retrieve result =>
      apply wp_processNextDABatch_skipped hcrash
      intro batch hbatch block hblock hheight
      exact hskip ⟨batch, hbatch, block, hblock, hheight⟩
    | stateIndex index => exact absurd rfl (hindex index)
    | syncTarget endHeight => exact absurd rfl (htarget endHeight)
  apply Proc.wp_conseq hsame
  intro result later hlater
  obtain rfl : later = node := by
    cases result <;> exact hlater
  cases result with
  | ok value => exact hidle
  | err error => exact hfailed
  | panic => exact halways

theorem ApplyInvariant.serve_of_tries {ready failed always : Node α → Prop}
    (hinv : ApplyInvariant env rules ready failed always) (request : Request)
    (hindex : ∀ index, (updateStateIndex env index).wp rules
      (Proc.Ends (fun _ => failed) failed always) node)
    (htarget : ∀ endHeight, failed { node with syncTarget := endHeight })
    (hready : ∀ later, ready later → failed later) (hnode : failed node) (halways : always node)
    (hguard : TriesNext node request → ready node) :
    (serve env request).wp rules (Proc.Ends (fun _ => failed) failed always)
      node := by
  have hcrash := hinv.crash node halways
  cases request with
  | stateIndex index => exact hindex index
  | syncTarget endHeight => exact ⟨hcrash, fun _ _ => htarget endHeight⟩
  | gossip block commit =>
    by_cases htries : TriesNext node (.gossip block commit)
    · exact Proc.wp_ends_mono (hinv.applyBlock node block commit (hguard htries)) fun _ => hready
    · exact wp_serve_skipped hcrash htries (by simp) (by simp) hnode hnode halways
  | produce input =>
    exact Proc.wp_ends_mono (hinv.produceBlock input (hguard trivial)) fun _ => hready
  | retrieve result =>
    by_cases htries : TriesNext node (.retrieve result)
    · exact Proc.wp_ends_mono (hinv.processNextDABatch result (hguard htries)) fun _ => hready
    · exact wp_serve_skipped hcrash htries (by simp) (by simp) hnode hnode halways

end

end Dymint.Manager
