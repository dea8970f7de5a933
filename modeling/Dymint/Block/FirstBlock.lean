import Dymint.Block.InitChain
import Dymint.Block.Produced
import Dymint.Block.Settled
import Dymint.Block.StoredBlocks

/-!
# The start of a chain

An aggregator whose settlement layer has no batch starts a new chain:
`NewManager` initialises the application, and the first call of `produceBlock`
that succeeds leads to a first block.  The genesis document names the height of
that block.  This file says for which documents the chain does begin there,
whatever fails before the first success.
-/

namespace Dymint.Manager

open Procedure Dymint.Types Store

variable {α β : Type}

variable {block : Block} {commit : Commit} {later : Node α}

/-! ## The first block of the store -/

def HoldsFirst (db : Db) (block : Block) (commit : Commit) : Prop :=
  loadBlock db 1 = .ok block ∧ loadCommit db 1 = .ok commit

theorem HoldsFirst.of_records {before after : Db} (hholds : HoldsFirst before block commit)
    (hrecords : before.blockRecords = after.blockRecords) :
    HoldsFirst after block commit := by
  have hshrinks : Shrinks after.blockRecords before.blockRecords := by
    rw [hrecords]
    exact Shrinks.refl _
  exact ⟨loadBlock_of_shrinks hshrinks hholds.1, loadCommit_of_shrinks hshrinks hholds.2⟩

theorem HoldsFirst.unique {db : Db} {other : Block} {otherCommit : Commit}
    (hholds : HoldsFirst db block commit) (hother : HoldsFirst db other otherCommit) :
    other = block ∧ otherCommit = commit :=
  ⟨Result.ok.inj (hother.1.symm.trans hholds.1), Result.ok.inj (hother.2.symm.trans hholds.2)⟩

theorem holdsFirst_saveBlock (tm : Tendermint) (db : Db) (commit : Commit)
    (hheight : block.header.height = 1) (hevidence : block.withoutEvidence = block) :
    HoldsFirst (db.commit (saveBlock tm block commit)) block commit := by
  have hblock : loadBlock (db.commit (saveBlock tm block commit))
      block.header.height = .ok block.withoutEvidence :=
    loadBlock_saved block commit
  have hcommit : loadCommit (db.commit (saveBlock tm block commit))
      block.header.height = .ok commit :=
    loadCommit_saved block commit
  rw [hheight, hevidence] at hblock
  rw [hheight] at hcommit
  exact ⟨hblock, hcommit⟩

def TriedFirst (start : Node α) (block : Block) (commit : Commit) (db : Db)
    (appHeight : UInt64) : Prop :=
  (appHeight = start.core.appHeight ∧ db.blockRecords = start.db.blockRecords) ∨
    (start.core.appHeight.toNat = 0 ∧ appHeight.toNat ≤ 1 ∧ HoldsFirst db block commit)

section

variable {env : Env α} {start : Node α} {block : Block} {commit : Commit}
variable {db : Db} {appHeight : UInt64}

theorem TriedFirst.le_one (hkept : TriedFirst start block commit db appHeight)
    (happ : start.core.appHeight.toNat ≤ 1) : appHeight.toNat ≤ 1 := by
  rcases hkept with ⟨heq, _⟩ | ⟨_, hle, _⟩
  · rw [heq]
    exact happ
  · exact hle

theorem TriedFirst.start_eq_zero (hkept : TriedFirst start block commit db appHeight)
    (hzero : appHeight.toNat = 0) : start.core.appHeight.toNat = 0 := by
  rcases hkept with ⟨heq, _⟩ | ⟨hstart, _, _⟩
  · rw [← heq]
    exact hzero
  · exact hstart

theorem triedFirst_maintained (hheight : block.header.height = 1)
    (hevidence : block.withoutEvidence = block)
    (happ : start.core.appHeight.toNat ≤ 1) :
    Maintained env noLimit (fun tried triedCommit =>
      tried = block ∧ triedCommit = commit) (TriedFirst start block commit) where
  records before after appHeight hkept hrecords := by
    rcases hkept with ⟨happ, hsame⟩ | ⟨hzero, hle, hholds⟩
    · exact Or.inl ⟨happ, hrecords.trans hsame⟩
    · exact Or.inr ⟨hzero, hle, hholds.of_records hrecords.symm⟩
  prune {db appHeight bound heights} hkept hbound _ hheights := by
    have hle := hkept.le_one happ
    -- nothing lies below the first block
    have hnone : heights = [] := by
      apply List.eq_nil_iff_forall_not_mem.2
      intro height hmem
      have hlt := hheights height hmem
      omega
    rw [hnone]
    exact hkept
  save {db appHeight tried triedCommit} hkept htried hnext := by
    obtain ⟨rfl, rfl⟩ := htried
    have hzero : appHeight.toNat = 0 := by
      rw [hheight, UInt64.toNat_one] at hnext
      omega
    exact Or.inr ⟨hkept.start_eq_zero hzero, by omega,
      holdsFirst_saveBlock env.tm db triedCommit hheight hevidence⟩
  accept {db appHeight tried triedCommit} hkept htried hnext := by
    obtain ⟨rfl, rfl⟩ := htried
    have hzero : appHeight.toNat = 0 := by
      rw [hheight, UInt64.toNat_one] at hnext
      omega
    refine Or.inr ⟨hkept.start_eq_zero hzero, ?_,
      holdsFirst_saveBlock env.tm db triedCommit hheight hevidence⟩
    rw [hheight, UInt64.toNat_one]

end

/-! ## The first blocks that are tried -/

def CreatedIn (env : Env α) (calls : List (ProduceInput × Node α))
    (block : Block) (commit : Commit) : Prop :=
  ∃ made ∈ calls, ∃ lastCommit lastHeaderHash, Predecessor env made.2 lastCommit lastHeaderHash ∧
      block = Executor.createBlock env.tm env.exec
        env.genesis.initialHeight.toUInt64 lastCommit lastHeaderHash
        made.2.lastState made.1.mempoolTxs made.1.now ∧
      createCommit env made.2.lastState.chainID block made.1.voteTimestamp = .ok commit

def ValidIn (env : Env α) (calls : List (ProduceInput × Node α))
    (block : Block) (commit : Commit) : Prop :=
  ∃ made ∈ calls, Executor.validate env.tm made.2.lastState block commit env.getProposer = .ok ()

structure BeginsChain (env : Env α) (calls : List (ProduceInput × Node α))
    (node : Node α) : Prop where
  height : node.height = env.genesis.initialHeight.toUInt64
  committed : committedHeights node.app.calls = [env.genesis.initialHeight.toUInt64.toNat]
  block : ∃ block commit, loadBlock node.db env.genesis.initialHeight.toUInt64 = .ok block ∧
      loadCommit node.db env.genesis.initialHeight.toUInt64 = .ok commit ∧
      block.header.height = env.genesis.initialHeight.toUInt64 ∧
      CreatedIn env calls block commit ∧ ValidIn env calls block commit

/-- Calls of `produceBlock` that fail up to the last one, which succeeds.  Each is
listed with the node at which it is made. -/
inductive Produces (env : Env α) :
    Node α → List (ProduceInput × Node α) → Node α → Prop
  | success {node later : Node α} {input : ProduceInput} {answers : ℕ → Answer}
      (hrun : (produceBlock env input).exec answers node = (later, .ok ())) :
      Produces env node [(input, node)] later
  | retry {node middle later : Node α} {input : ProduceInput}
      {answers : ℕ → Answer} {error : Error}
      {calls : List (ProduceInput × Node α)}
      (hrun : (produceBlock env input).exec answers node = (middle, .err error))
      (hrest : Produces env middle calls later) :
      Produces env node ((input, node) :: calls) later

structure Trying (env : Env α) (calls : List (ProduceInput × Node α))
    (node : Node α) : Prop where
  height : node.height = 0
  idle : node.core.Idle
  created : ∀ block commit, HoldsFirst node.db block commit → CreatedIn env calls block commit
  valid : node.core.appHeight.toNat ≠ 0 → ∃ block commit,
    HoldsFirst node.db block commit ∧ ValidIn env calls block commit

variable {input : ProduceInput}

section

variable {env : Env α} {calls : List (ProduceInput × Node α)} {node : Node α}

theorem CreatedIn.mono (hcreated : CreatedIn env calls block commit)
    (more : List (ProduceInput × Node α)) :
    CreatedIn env (calls ++ more) block commit := by
  obtain ⟨made, hmade, hrest⟩ := hcreated
  exact ⟨made, List.mem_append_left _ hmade, hrest⟩

theorem ValidIn.mono (hvalid : ValidIn env calls block commit)
    (more : List (ProduceInput × Node α)) :
    ValidIn env (calls ++ more) block commit := by
  obtain ⟨made, hmade, hrest⟩ := hvalid
  exact ⟨made, List.mem_append_left _ hmade, hrest⟩

theorem CreatedIn.height (hcreated : CreatedIn env calls block commit) :
    block.header.height = env.genesis.initialHeight.toUInt64 := by
  obtain ⟨_, _, _, _, _, rfl, _⟩ := hcreated
  rfl

theorem CreatedIn.withoutEvidence (hcreated : CreatedIn env calls block commit) :
    block.withoutEvidence = block := by
  obtain ⟨_, _, _, _, _, rfl, _⟩ := hcreated
  rfl

section

variable (htrying : Trying env calls node)

include htrying

theorem Trying.createdIn (hone : env.genesis.initialHeight = 1)
    {unreadable : Prop}
    (hoffers : Offers env input node unreadable block commit) :
    CreatedIn env (calls ++ [(input, node)]) block commit := by
  have hnext : node.height + 1 = 1 := by
    rw [htrying.height]
    rfl
  cases hoffers with
  | pending hblock hcommit =>
    rw [hnext] at hblock hcommit
    exact (htrying.created block commit ⟨hblock, hcommit⟩).mono _
  | created _ hlast hblock hcommit =>
    refine ⟨(input, node), by simp, _, _, hlast, ?_, hcommit⟩
    rw [hnext] at hblock
    rw [hone]
    exact hblock

/-- The application of a chain without a stored block is at most one block
ahead. -/
theorem Trying.appHeight_le : node.core.appHeight.toNat ≤ 1 := by
  have hle := htrying.idle.memory.app_le.resolve_right And.left
  have hheight : node.core.height = 0 := htrying.height
  rw [hheight, UInt64.toNat_zero] at hle
  exact hle

theorem Trying.holds {made : ProduceInput × Node α}
    (hmade : made.2.lastState = node.lastState)
    (hcreated : CreatedIn env (calls ++ [made]) block commit)
    (hkept : later.Kept (TriedFirst node block commit))
    (happ : later.app = node.app ∨ Executor.validate env.tm node.lastState block
      commit env.getProposer = .ok ()) :
    (∀ other otherCommit, HoldsFirst later.db other otherCommit →
        CreatedIn env (calls ++ [made]) other otherCommit) ∧
      (later.core.appHeight.toNat ≠ 0 → ∃ other otherCommit, HoldsFirst later.db other otherCommit ∧
          ValidIn env (calls ++ [made]) other otherCommit) := by
  rcases hkept with ⟨hsame, hrecords⟩ | ⟨hzero, _, hholds⟩
  · constructor
    · intro other otherCommit hother
      exact (htrying.created other otherCommit (hother.of_records hrecords)).mono _
    · intro hne
      have hstart : node.core.appHeight.toNat ≠ 0 := by
        rw [← hsame]
        exact hne
      obtain ⟨other, otherCommit, hother, hvalid⟩ := htrying.valid hstart
      exact ⟨other, otherCommit, hother.of_records hrecords.symm, hvalid.mono _⟩
  · constructor
    · intro other otherCommit hother
      obtain ⟨rfl, rfl⟩ := hholds.unique hother
      exact hcreated
    · intro hne
      rcases happ with hsame | hvalid
      · have happ : later.core.appHeight = node.core.appHeight :=
          congrArg (fun app => app.lastBlockHeight.toUInt64) hsame
        rw [happ] at hne
        exact absurd hzero hne
      · rw [← hmade] at hvalid
        exact ⟨block, commit, hholds, made, by simp, hvalid⟩

theorem Trying.gossip (block : Block) (commit : Commit) :
    Trying env calls { node with gossiped := node.gossiped ++ [(block, commit)] } :=
  ⟨htrying.height, htrying.idle, htrying.created, htrying.valid⟩

section

variable (hone : env.genesis.initialHeight = 1)

include hone

theorem Trying.wp_applyBlock {made : ProduceInput × Node α}
    (hmade : made.2.lastState = node.lastState)
    (hcreated : CreatedIn env (calls ++ [made]) block commit) :
    (applyBlock env block commit).wp anyStep
      (Proc.Ends (fun _ => BeginsChain env (calls ++ [made]))
        (Trying env (calls ++ [made])) fun _ => True) node := by
  have hinitial : env.genesis.initialHeight.toUInt64 = 1 := by
    rw [hone]
    rfl
  have hheight : block.header.height = 1 := hcreated.height.trans hinitial
  have hgate : block.header.height = node.height + 1 := by
    rw [hheight, htrying.height]
    rfl
  have hmaint : Maintained env noLimit _ (TriedFirst node block commit) :=
    triedFirst_maintained hheight hcreated.withoutEvidence htrying.appHeight_le
  have hkept {point : Point} {later : Node α} (hlater : During env block commit node point later) :
      later.Kept (TriedFirst node block commit) :=
    (hlater.keptAt hmaint ⟨rfl, rfl⟩ htrying.idle (Or.inl ⟨rfl, rfl⟩)
      (toNat_le_noLimit _) hgate).kept
  apply wp_applyBlock_of hgate (height_lt_next htrying.idle)
  · intro point later hlater _
    trivial
  · intro point later hlater hfinal
    have hidle := hlater.idle htrying.idle hgate
    have hreaches := hlater.height_of_final hfinal
    obtain ⟨hcreated', hvalid'⟩ :=
      htrying.holds hmade hcreated (hkept hlater) hlater.app_eq_or_valid
    have hone : later.core.height = 1 := hreaches.trans hheight
    have hcommitted : later.core.appHeight.toNat = 1 := by
      have hle := (hkept hlater).le_one htrying.appHeight_le
      have hge := hidle.memory.store_le.trans hidle.memory.lastStore_le
      rw [hone, UInt64.toNat_one] at hge
      exact le_antisymm hle hge
    obtain ⟨other, otherCommit, hholds, hvalid⟩ := hvalid' (by rw [hcommitted]; exact one_ne_zero)
    have hother := hcreated' other otherCommit hholds
    refine ⟨hreaches.trans hcreated.height, ?_, other, otherCommit, ?_, ?_,
      hother.height, hother, hvalid⟩
    · have hrange := hidle.committed.resolve_right id
      rw [hcommitted] at hrange
      rw [hinitial]
      exact hrange
    · rw [hinitial]
      exact hholds.1
    · rw [hinitial]
      exact hholds.2
  · intro point later hlater hstops _
    obtain ⟨hcreated', hvalid'⟩ :=
      htrying.holds hmade hcreated (hkept hlater) hlater.app_eq_or_valid
    exact ⟨(hlater.height_eq hstops.not_final).trans htrying.height,
      hlater.idle htrying.idle hgate, hcreated', hvalid'⟩
  · intro point later _ _
    trivial

theorem Trying.wp_produceBlock (input : ProduceInput) :
    (produceBlock env input).wp anyStep
      (Proc.Ends (fun _ => BeginsChain env (calls ++ [(input, node)]))
        (Trying env (calls ++ [(input, node)])) fun _ => True) node := by
  have hfailed : Trying env (calls ++ [(input, node)]) node := ⟨htrying.height, htrying.idle,
      fun block commit hholds => (htrying.created block commit hholds).mono _,
      fun hne => (htrying.valid hne).imp fun _ => Exists.imp
        fun _ hvalid => ⟨hvalid.1, hvalid.2.mono _⟩⟩
  have hread (answer : Answer) (_ : anyStep.allowed node answer)
      (_ : answer ≠ .ok) : True := trivial
  apply wp_produceBlock_of trivial hread
  · intro result hresult
    cases result with
    | ok value => exact absurd rfl hresult
    | err error => exact hfailed
    | panic => trivial
  · intro block commit hoffers
    have hcreated := htrying.createdIn hone hoffers
    apply wp_callWith_bind
    rw [wp_callWith]
    refine ⟨trivial, fun _ => ?_, fun _ => hfailed, fun _ => hfailed.gossip block commit⟩
    rw [Result.mapErr, Proc.andThen_ok]
    exact (htrying.gossip block commit).wp_applyBlock hone rfl hcreated

theorem Trying.beginsChain
    {made : List (ProduceInput × Node α)} (hproduces : Produces env node made later) :
    BeginsChain env (calls ++ made) later := by
  induction hproduces generalizing calls with
  | @success node later input answers hrun =>
    have hends := Proc.exec_of_wp (htrying.wp_produceBlock hone input) answers
      fun _ _ => trivial
    rw [hrun] at hends
    exact hends
  | @retry node middle later input answers error rest hrun _ ih =>
    have hends := Proc.exec_of_wp (htrying.wp_produceBlock hone input) answers
      fun _ _ => trivial
    rw [hrun] at hends
    have hlater := ih hends
    rw [List.append_assoc] at hlater
    exact hlater

end

end

end

/-! ## Starting on an empty store -/

/-- The start of an aggregator while the settlement layer has no batch:
`NewManager`, and then `waitForSync`, which takes the height before the first
block as its target. -/
def startAggregator (env : Env α) : M α Unit := do
  newManager env
  Proc.write fun node =>
    { node with syncTarget := (env.genesis.initialHeight - 1).toUInt64 }

section

variable {env : Env α} {app : α} {node : Node α}

theorem initialState_fresh {state : State} {height base : UInt64}
    (hstate : InitialState env False (freshNode app) state height base) :
    state = newFromGenesisDoc env.tm env.genesis ∧ height = 0 := by
  cases hstate with
  | loaded hload => cases hload
  | genesis hload => exact ⟨rfl, rfl⟩

def Started (env : Env α) (node : Node α) : Prop :=
  node.height = 0 ∧ (∀ height, node.db (.index height) = none) ∧ node.app.lastBlockHeight = 0 ∧
    node.app.calls =
      if env.genesis.initialHeight = 1 then [.initChain] else []

theorem bootSpec_started (env : Env α) (app : α) :
    BootSpec env anyStep False (Started env) (fun _ => True) (freshNode app) where
  start := trivial
  read _ _ _ := Or.inl rfl
  loading _ _ _ := ⟨trivial, trivial⟩
  resume state height base hstate hlate := by
    obtain ⟨rfl, rfl⟩ := initialState_fresh hstate
    have hne : env.genesis.initialHeight ≠ 1 := fun hone => hlate (by
      rw [hone]
      rfl)
    refine ⟨rfl, fun _ => rfl, rfl, ?_⟩
    rw [if_neg hne]
    rfl
  initialised state height base hstate hfirst := by
    obtain ⟨rfl, rfl⟩ := initialState_fresh hstate
    have hone : env.genesis.initialHeight = 1 := hfirst.symm.trans rfl
    refine ⟨trivial, trivial, fun message _ _ => ⟨trivial, trivial, rfl, fun _ => rfl, rfl, ?_⟩⟩
    rw [if_pos hone]
    rfl

theorem wp_startAggregator (env : Env α) (app : α) : (startAggregator env).wp anyStep
      (Proc.Ends (fun _ later => Started env later ∧ later.core.Idle)
        (fun _ => True) fun _ => True) (freshNode app) := by
  have hdown : (freshNode app).core.Down := freshNode_down app
  have hidle : (newManager env).wp anyStep _ (freshNode app) :=
    wp_newManager_of (bootSpec_heights env (fun _ _ => trivial) (fun _ _ _ => Or.inl rfl) hdown)
  apply Proc.wp_bind_of (wp_anyStep_and (wp_newManager_of (bootSpec_started env app)) hidle)
  rintro result later ⟨hstarted, hidle⟩
  cases result with
  | ok value => exact ⟨trivial, fun _ _ => ⟨hstarted, hidle⟩⟩
  | err | panic => trivial

theorem started_of_exec {answers : ℕ → Answer}
    (hstart : (startAggregator env).exec answers (freshNode app) =
      (node, .ok ())) : Started env node ∧ node.core.Idle := by
  have hends := Proc.exec_of_wp (wp_startAggregator env app) answers
    fun _ _ => trivial
  rw [hstart] at hends
  exact hends

/-- The store is empty, so nothing has been tried yet. -/
theorem Started.trying (hstarted : Started env node) (hidle : node.core.Idle) :
    Trying env [] node where
  height := hstarted.1
  idle := hidle
  created block commit hholds := by
    obtain ⟨hash, hindex, _⟩ := loadBlock_eq_ok.1 hholds.1
    rw [hstarted.2.1] at hindex
    cases hindex
  valid hne := by
    have happ : node.core.appHeight = 0 := by
      simp only [Node.core, hstarted.2.2.1]
      rfl
    rw [happ] at hne
    exact absurd rfl hne

end

/-! ## A start without failing steps -/

/-- What the first block needs from outside: an elected proposer whose key the
node signs with, encodings that succeed, and an application that does not ask
for pruning. -/
structure Operational (env : Env α) (valid : ValidatorSet → Prop)
    (proposer : Sequencer) : Prop where
  codec : Codec env.tm valid
  elected : env.getProposer = some proposer
  key : SignsFor env proposer
  marshalHeader : ∀ header, ∃ bytes, env.tm.marshalHeader header = .ok bytes
  sign : ∀ msg, ∃ signature, env.sign msg = .ok signature
  tmSign : ∀ msg, ∃ signature, env.tmSign msg = .ok signature ∧
    env.tm.verifySignature env.proposerPubKey msg signature = true
  retains : ∀ state, (env.app.commit state).2.retainHeight ≤ 0

section

variable {env : Env α} {app : α} {valid : ValidatorSet → Prop}
variable {proposer : Sequencer} {ledger : Ledger α}

/-- No condition on what a crash leaves. -/
theorem Operational.createCommit (hop : Operational env valid proposer)
    (chainID : String) (block : Block) (voteTimestamp : Time) :
    ∃ commit, Manager.createCommit env chainID block voteTimestamp = .ok commit := by
  obtain ⟨bytes, hbytes⟩ := hop.marshalHeader (toABCIHeaderPB env.tm block.header)
  obtain ⟨signature, hsign⟩ := hop.sign bytes
  have hvote : ∃ vote, createTMSignature env chainID block voteTimestamp = .ok vote := by
    obtain ⟨vote, htmSign, hverify⟩ := hop.tmSign (env.tm.voteSignBytes chainID
      { height := block.header.height.toInt64
        round := 0
        timestamp := voteTimestamp
        blockID := ⟨(block.header.hash env.tm).bytes, 1, (block.header.hash env.tm).bytes⟩
        validatorAddress := env.proposerAddress
        validatorIndex := 0 })
    exact ⟨vote, by simp [createTMSignature, htmSign, hverify, Result.ofExcept]⟩
  obtain ⟨vote, hvote⟩ := hvote
  exact ⟨_, by simp [Manager.createCommit, hbytes, hsign, hvote, Result.ofExcept]; rfl⟩

theorem runs_getInitialState_genesis (hdisk : ledger.disk.state = none) :
    Runs anyDisk (getInitialState env) ledger
      (.ok (newFromGenesisDoc env.tm env.genesis)) ledger := by
  intro node hnode
  have hmissing : loadState env.tm node.db = .err .errNoStateFound := by
    have hstate : node.db .state = none := by
      rw [← hdisk, ← hnode]
      rfl
    simp only [loadState, hstate]
  rw [getInitialState, Proc.wp_bind, Proc.wp_attempt, loadStoreState, Proc.wp_bind, Proc.wp_op]
  refine ⟨trivial, fun answer hok => ?_⟩
  obtain rfl : answer = .ok := hok
  dsimp only
  rw [hmissing]
  exact ⟨rfl, hnode⟩

theorem Operational.validators_ne_nil (hop : Operational env valid proposer) :
    initialValidators env ≠ [] := by
  intro hnil
  have hmem := List.mem_of_find?_eq_some hop.elected
  rw [List.map_eq_nil_iff.1 hnil] at hmem
  cases hmem

/-- The state that the application's answer to `InitChain` leads to. -/
def initialState (env : Env α) (working : α) : State :=
  updateInitChainState env (newFromGenesisDoc env.tm env.genesis)
    (env.app.initChain working (initChainRequest env)).2 (initialValidators env)

theorem stateProgress_initialState (hone : env.genesis.initialHeight = 1)
    (working : α) : stateProgress (initialState env working) = ⟨1, 0, 0⟩ := by
  rw [initialState, updateInitChainState_progress]
  simp [stateProgress, newFromGenesisDoc, hone]

theorem Operational.initialState_sound (hop : Operational env valid proposer)
    (working : α) : (initialState env working).Sound env.tm valid := by
  apply updateInitChainState_sound hop.codec _ hop.validators_ne_nil
  · exact ⟨[], Or.inl rfl, rfl⟩
  · intro hlegacy
    have hblock : (0 : Int64) > 1 := hlegacy.2
    exact absurd hblock (by decide)

theorem runs_newManager_genesis (hone : env.genesis.initialHeight = 1)
    (hvalidators : initialValidators env ≠ [])
    (hdisk : ledger.disk.state = none) {message : Pb.State}
    (hmessage : (initialState env ledger.working).toProto env.tm = .ok message) :
    Runs anyDisk (newManager env) ledger (.ok ())
      { ledger with
        disk := ledger.disk.record message
        lastState := initialState env ledger.working
        working := (env.app.initChain ledger.working (initChainRequest env)).1 } := by
  have hinit : Runs anyDisk (initChain env (initialValidators env)) ledger
      (.ok (env.app.initChain ledger.working (initChainRequest env)).2)
      { ledger with
        working := (env.app.initChain ledger.working (initChainRequest env)).1 } := by
    apply runs_callWith
    intro node hnode
    rw [← hnode]
    exact ⟨rfl, rfl⟩
  have hfirst : (newFromGenesisDoc env.tm env.genesis).lastBlockHeight + 1 =
      env.genesis.initialHeight := by
    rw [hone]
    rfl
  have hsome : ¬ (initialValidators env).length ≤ 0 := by
    rw [Nat.le_zero, List.length_eq_zero_iff]
    exact hvalidators
  apply (runs_getInitialState_genesis hdisk).bind
  rw [if_pos hfirst]
  apply hinit.bind
  split
  case isTrue hempty => exact absurd hempty hsome
  case isFalse =>
    apply (runs_updateStoreState id hmessage).bind
    exact runs_modifyLastState _

theorem Operational.runs_startAggregator (hop : Operational env valid proposer)
    (hone : env.genesis.initialHeight = 1)
    (hdisk : ledger.disk.state = none) :
    ∃ message, Runs anyDisk (startAggregator env) ledger (.ok ())
      { ledger with
        disk := ledger.disk.record message
        lastState := initialState env ledger.working
        working := (env.app.initChain ledger.working (initChainRequest env)).1 } := by
  obtain ⟨message, hmessage⟩ := (hop.initialState_sound ledger.working).encodes hop.codec
  refine ⟨message, ?_⟩
  apply (runs_newManager_genesis hone hop.validators_ne_nil hdisk hmessage.1).bind
  apply runs_write
  intro node hnode
  exact hnode

/-- The block that `produceBlock` creates on a store without blocks. -/
def firstBlock (env : Env α) (state : State) (input : ProduceInput) : Block :=
  Executor.createBlock env.tm env.exec 1 ⟨0, FixedBytes.zero 32, [], default⟩
    (FixedBytes.zero 32) state input.mempoolTxs input.now

theorem Operational.validate_first (hop : Operational env valid proposer)
    {state : State} (hprogress : stateProgress state = ⟨1, 0, 0⟩)
    (hcommit : Manager.createCommit env state.chainID
      (firstBlock env state input) input.voteTimestamp = .ok commit) :
    Executor.validate env.tm state (firstBlock env state input) commit
      env.getProposer = .ok () := by
  have hinitial : state.initialHeight = 1 := congrArg Progress.initialHeight hprogress
  have hstore : state.lastStoreHeight = 0 := congrArg Progress.lastStoreHeight hprogress
  have hfits : Fits state ⟨0, FixedBytes.zero 32, [], default⟩ :=
    ⟨fun _ => by rw [hinitial, hstore]; rfl, rfl⟩
  have hblock : Executor.validateBlock state
      (Executor.createBlock env.tm env.exec (state.lastStoreHeight + 1)
        ⟨0, FixedBytes.zero 32, [], default⟩ (FixedBytes.zero 32) state
        input.mempoolTxs input.now) = .ok () :=
    (validateBlock_created (Alike.mk rfl rfl rfl rfl rfl rfl) hop.key.address
      input.mempoolTxs input.now).2 hfits
  rw [hstore] at hblock
  rw [Executor.validate, Result.check_bind_eq_ok, hop.elected]
  exact ⟨hblock, validateCommit_created hop.key hcommit⟩

theorem runs_pendingOrNewBlock_first (hindex : ledger.disk.blocks.index 1 = none)
    (hinput : input.allowEmpty = true ∨ input.mempoolTxs ≠ [])
    (hcommit : Manager.createCommit env ledger.lastState.chainID
      (firstBlock env ledger.lastState input) input.voteTimestamp = .ok commit) :
    Runs anyDisk
      (pendingOrNewBlock env input 1 ⟨0, FixedBytes.zero 32, [], default⟩
        (FixedBytes.zero 32)) ledger
      (.ok (firstBlock env ledger.lastState input, commit)) ledger := by
  have hnone : Runs anyDisk (query id (loadBlock · 1)).attempt ledger
      (.ok (.error (.wrap "failed to load hash from index"
        (.wrap "failed to load block hash for height" .errKeyNotFound))))
      ledger := by
    intro node hnode
    have hmissing : node.db (.index 1) = none := by
      rw [← hindex, ← hnode]
      rfl
    rw [Proc.wp_attempt, query, wp_callWith]
    refine ⟨trivial, fun _ => ?_, ?_, ?_⟩
    · simp only [loadBlock, loadHashFromIndex, hmissing]
      exact ⟨rfl, hnode⟩
    · intro hfault
      cases hfault
    · intro hfault
      cases hfault
  apply hnone.bind
  apply runs_getLastState.bind
  dsimp only
  have htxs : ¬ (¬ input.allowEmpty = true ∧
      (firstBlock env ledger.lastState input).data.txs.length = 0) := by
    rintro ⟨hallow, htxs⟩
    rcases hinput with hinput | hinput
    · exact hallow hinput
    · exact hinput (List.length_eq_zero_iff.1 htxs)
  split
  case isTrue hskip => exact absurd hskip htxs
  case isFalse =>
    apply runs_getLastState.bind
    apply Proc.Yields.bind
    · rw [← hcommit]
      exact Proc.yields_ofResult _
    · exact Proc.yields_pure _

theorem Operational.runs_produceBlock (hop : Operational env valid proposer)
    (hone : env.genesis.initialHeight = 1) (hheight : ledger.height = 0)
    (hindex : ledger.disk.blocks.index 1 = none)
    (happ : ledger.disk.lastBlockHeight = 0)
    (hsound : ledger.lastState.Sound env.tm valid)
    (hprogress : stateProgress ledger.lastState = ⟨1, 0, 0⟩)
    (hinput : input.allowEmpty = true ∨ input.mempoolTxs ≠ []) :
    ∃ after, Runs anyDisk (produceBlock env input) ledger (.ok ()) after := by
  obtain ⟨commit, hcommit⟩ := hop.createCommit ledger.lastState.chainID
    (firstBlock env ledger.lastState input) input.voteTimestamp
  have hstore : ledger.lastState.lastStoreHeight = 0 := congrArg Progress.lastStoreHeight hprogress
  have hexec : Executable env valid (firstBlock env ledger.lastState input) commit
      ledger :=
    { height := hheight.trans hstore.symm
      next := by rw [hstore]; rfl
      sound := hsound
      app := by rw [happ, hstore]; rfl
      accepted := hop.validate_first hprogress hcommit }
  obtain ⟨message, hmessage⟩ := (hexec.executed_sound hop.codec).encodes hop.codec
  obtain ⟨message', hmessage'⟩ := (hexec.applied_sound hop.codec).encodes hop.codec
  have hlast : Runs anyDisk (loadLast env 0) ledger
      (.ok (⟨0, FixedBytes.zero 32, [], default⟩, FixedBytes.zero 32)) ledger := by
    have hfirst : (0 : UInt64) + 1 = env.genesis.initialHeight.toUInt64 := by
      rw [hone]
      rfl
    rw [loadLast, if_pos hfirst]
    exact Proc.yields_pure _
  refine ⟨appliedLedger env (firstBlock env ledger.lastState input) commit ledger
    message message', ?_⟩
  apply runs_storeHeight.bind
  rw [hheight]
  apply hlast.bind
  apply (runs_pendingOrNewBlock_first hindex hinput hcommit).bind
  apply Proc.Yields.bind
  · exact runs_callWith fun node hnode => ⟨rfl, hnode⟩
  · exact hexec.runs hmessage.1 hmessage'.1 hop.retains trivial trivial trivial
      trivial trivial

theorem Operational.exec (hop : Operational env valid proposer)
    (hone : env.genesis.initialHeight = 1)
    (hinput : input.allowEmpty = true ∨ input.mempoolTxs ≠ []) :
    ∃ node later, (startAggregator env).exec (fun _ => .ok) (freshNode app) = (node, .ok ()) ∧
      (produceBlock env input).exec (fun _ => .ok) node = (later, .ok ()) := by
  have hempty : (freshNode app).ledger.disk.state = none := rfl
  obtain ⟨message, hstart⟩ := hop.runs_startAggregator hone hempty
  obtain ⟨hok, hledger⟩ := hstart.exec rfl (fun _ => .ok) fun _ _ => rfl
  generalize hrun : (startAggregator env).exec (fun _ => .ok) (freshNode app) =
    started at hok hledger
  have hstate : started.1.lastState = initialState env app := congrArg Ledger.lastState hledger
  have hsound : started.1.lastState.Sound env.tm valid := by
    rw [hstate]
    exact hop.initialState_sound app
  have hprogress : stateProgress started.1.lastState = ⟨1, 0, 0⟩ := by
    rw [hstate]
    exact stateProgress_initialState hone app
  obtain ⟨after, hproduce⟩ := hop.runs_produceBlock hone (congrArg Ledger.height hledger)
    (congrArg (fun ledger => ledger.disk.blocks.index 1) hledger)
    (congrArg (fun ledger => ledger.disk.lastBlockHeight) hledger)
    hsound hprogress hinput
  obtain ⟨hok', _⟩ := hproduce.exec rfl (fun _ => .ok) fun _ _ => rfl
  exact ⟨started.1, _, Prod.ext rfl hok, Prod.ext rfl hok'⟩

end

/-! ## The initial height -/

/-- A new chain begins where its genesis document says: a start that returns has
initialised the application once, the first success of `produceBlock` begins the
chain, and an operational node gets there if nothing fails. -/
structure StartsAtInitialHeight (env : Env α) (app : α) : Prop where
  initialised : ∀ answers node,
    (startAggregator env).exec answers (freshNode app) = (node, .ok ()) →
    node.app.calls = [.initChain]
  begins : ∀ answers node calls later,
    (startAggregator env).exec answers (freshNode app) = (node, .ok ()) →
    Produces env node calls later → BeginsChain env calls later
  succeeds : ∀ valid proposer, Operational env valid proposer →
    ∀ input : ProduceInput, input.allowEmpty = true ∨ input.mempoolTxs ≠ [] →
    ∃ node later, (startAggregator env).exec (fun _ => .ok) (freshNode app) = (node, .ok ()) ∧
      (produceBlock env input).exec (fun _ => .ok) node = (later, .ok ())

theorem exec_startAggregator_late {env : Env α} (hlate : env.genesis.initialHeight ≠ 1) (app : α) :
    ∃ node, (startAggregator env).exec (fun _ => .ok) (freshNode app) = (node, .ok ()) := by
  have hempty : (freshNode app).ledger.disk.state = none := rfl
  have hne : (newFromGenesisDoc env.tm env.genesis).lastBlockHeight + 1 ≠
      env.genesis.initialHeight := fun hfirst => hlate hfirst.symm
  have hruns : Runs anyDisk (startAggregator env) (freshNode app).ledger (.ok ())
      { (freshNode app).ledger with
        lastState := newFromGenesisDoc env.tm env.genesis } := by
    apply Proc.Yields.bind
    · apply (runs_getInitialState_genesis hempty).bind
      rw [if_neg hne]
      exact runs_modifyLastState _
    · apply runs_write
      intro node hnode
      exact hnode
  obtain ⟨hok, _⟩ := hruns.exec rfl (fun _ => .ok) fun _ _ => rfl
  exact ⟨_, Prod.ext rfl hok⟩

/-- New chains begin at the initial height of their genesis document exactly if
that height is 1. -/
theorem starts_at_initial_height_iff (env : Env α) (app : α) :
    StartsAtInitialHeight env app ↔ env.genesis.initialHeight = 1 := by
  constructor
  · intro hstarts
    by_contra hlate
    obtain ⟨node, hrun⟩ := exec_startAggregator_late hlate app
    have hcalls := (started_of_exec hrun).1.2.2.2
    rw [if_neg hlate, hstarts.initialised _ _ hrun] at hcalls
    cases hcalls
  · intro hone
    constructor
    · intro answers node hrun
      have hcalls := (started_of_exec hrun).1.2.2.2
      rw [if_pos hone] at hcalls
      exact hcalls
    · intro answers node calls later hrun hproduces
      obtain ⟨hstarted, hidle⟩ := started_of_exec hrun
      exact (hstarted.trying hidle).beginsChain hone hproduces
    · intro valid proposer hop input hinput
      exact hop.exec hone hinput

/-- The reference node is operational and starts its chain at height 1. -/
theorem starts_at_initial_height_reference :
    Operational Reference.env (fun set => set.validators ≠ [])
        Types.Reference.proposer ∧
      StartsAtInitialHeight Reference.env [] :=
  ⟨{ codec := Reference.codec
     elected := rfl
     key := FirstBlock.signsFor
     marshalHeader := fun _ => ⟨_, rfl⟩
     sign := fun _ => ⟨_, rfl⟩
     tmSign := fun _ => ⟨_, rfl, decide_eq_true rfl⟩
     retains := Reference.commit_retains },
    (starts_at_initial_height_iff Reference.env []).2 rfl⟩

/-- A chain whose genesis document asks for height 2 starts without `InitChain`,
and its first call of `produceBlock` asks for a commit at height 0. -/
theorem late_chain_never_begins : FirstBlock.lateEnv.genesis.initialHeight = 2 ∧
    (let start := (startAggregator FirstBlock.lateEnv).exec (fun _ => .ok) (freshNode [])
    start.2 = .ok () ∧ start.1.app.calls = [] ∧
      ((produceBlock FirstBlock.lateEnv (Reference.produceInput 5 [[1]])).exec
        (fun _ => .ok) start.1).2 = .err (.wrap "error while loading last commit"
            (.wrap "failed to load hash from index"
              (.wrap "failed to load block hash for height" .errKeyNotFound)))) := by
  decide

end Dymint.Manager
