import Dymint.Block.Records
import Dymint.Block.Reference

/-!
# What links the stored blocks

`Validate` checks a block against the state, and the proposer's signature over
its header.  It compares neither the back-link and the chain id of the header,
nor the commitment to the last commit, nor the height and the header hash in the
commit.  As far as the pairs that reach `applyBlock` are linked to each other,
the stored ones are.
-/

namespace Dymint.Manager

open Procedure Dymint.Types Store CrashSystem

variable {α : Type} {env : Env α}

/-! ## Commits and their blocks -/

def CommitsTo (tm : Tendermint) (block : Block) (commit : Commit) : Prop :=
  commit.height = block.header.height ∧ commit.headerHash = block.header.hash tm

instance (tm : Tendermint) (block : Block) (commit : Commit) :
    Decidable (CommitsTo tm block commit) :=
  inferInstanceAs (Decidable (_ ∧ _))

structure Matched (env : Env α) (db : Db) (appHeight : UInt64) : Prop where
  indexed : Indexed env.tm db.blockRecords
  matched : ∀ height block commit, loadBlock db height = .ok block →
    loadCommit db height = .ok commit →
    block.header.height = height ∧ CommitsTo env.tm block commit

variable {after : Db} {appHeight : UInt64}

theorem Matched.shrinks {before : Db} (hmatched : Matched env before appHeight)
    (hshrinks : Shrinks before.blockRecords after.blockRecords) : Matched env after appHeight where
  indexed := hmatched.indexed.shrinks hshrinks
  matched height block commit hblock hcommit :=
    hmatched.matched height block commit (loadBlock_of_shrinks hshrinks hblock)
      (loadCommit_of_shrinks hshrinks hcommit)

variable {block : Block} {commit : Commit}

theorem Matched.save (hhash : HashesHeight env.tm) {db : Db} {appHeight' : UInt64}
    (hmatched : Matched env db appHeight) (hcommits : CommitsTo env.tm block commit) :
    Matched env (db.commit (saveBlock env.tm block commit)) appHeight' where
  indexed := indexed_saveBlock block commit hmatched.indexed
  matched := by
    intro height other otherCommit hblock hcommit
    have hsaved := onlySaved_saveBlock block commit hhash hmatched.indexed
    by_cases hheight : height = block.header.height
    · subst hheight
      rw [hsaved.savedBlock, Result.ok.injEq] at hblock
      rw [hsaved.savedCommit, Result.ok.injEq] at hcommit
      rw [← hblock, ← hcommit]
      exact ⟨rfl, hcommits⟩
    · rw [hsaved.otherBlock height hheight] at hblock
      rw [hsaved.otherCommit height hheight] at hcommit
      exact hmatched.matched height other otherCommit hblock hcommit

def BringsMatching (env : Env α) (node : Node α)
    (pairs : List (Block × Commit)) : Prop :=
  ∀ pair ∈ pairs, node.core.appHeight.toNat < pair.1.header.height.toNat →
    CommitsTo env.tm pair.1 pair.2

theorem matched_callRule (hhash : HashesHeight env.tm) :
    CallRule env (Matched env) (BringsMatching env) where
  records _ _ _ hmatched hrecords := by
    apply hmatched.shrinks
    rw [hrecords]
    exact Shrinks.refl _
  call := by
    intro node pairs hmatched hpairs
    refine ⟨fun db appHeight => node.core.appHeight.toNat ≤ appHeight.toNat ∧
      Matched env db appHeight, ?_, ⟨le_rfl, hmatched⟩, fun _ _ h => h.2⟩
    constructor
    · rintro before after appHeight ⟨hle, hmatched⟩ hrecords
      refine ⟨hle, hmatched.shrinks ?_⟩
      rw [hrecords]
      exact Shrinks.refl _
    · rintro db appHeight bound heights ⟨hle, hmatched⟩ _ _ _
      exact ⟨hle, hmatched.shrinks (shrinks_pruneAll db heights)⟩
    · rintro db appHeight block commit ⟨hle, hmatched⟩ hpair hnext
      exact ⟨hle, hmatched.save hhash (hpairs _ hpair (by simp only; omega))⟩
    · rintro db appHeight block commit ⟨hle, hmatched⟩ hpair hnext
      exact ⟨by omega, hmatched.save hhash (hpairs _ hpair (by simp only; omega))⟩

/-- The commit that `produceBlock` signs names its block. -/
theorem createCommit_commitsTo {chainID : String} {voteTimestamp : Time}
    (hcommit : createCommit env chainID block voteTimestamp = .ok commit) :
    CommitsTo env.tm block commit := by
  simp only [createCommit, Result.bind_eq_ok, Result.ofExcept_eq_ok,
    Result.pure_eq, Result.ok.injEq] at hcommit
  obtain ⟨_, _, _, _, _, _, rfl⟩ := hcommit
  exact ⟨rfl, rfl⟩

theorem commitsTo_of_offered {node : Node α} (hmatched : node.Kept (Matched env))
    {input : ProduceInput} {unreadable : Prop}
    (hoffer : Offers env input node unreadable block commit) : CommitsTo env.tm block commit := by
  cases hoffer with
  | pending hblock hcommit =>
    exact (Matched.matched hmatched _ block commit hblock hcommit).2
  | created _ _ _ hcommit => exact createCommit_commitsTo hcommit

/-- Calls bring commits from outside that name their blocks, and `LoadState` does
not fail while a state is stored. -/
def matchingGuard (env : Env α) : Guard (Node α) Answer Request where
  answer := LoadsStored
  call node request := TriesNext node request → BringsMatching env node request.pairs
  crash _ := True

theorem matched_certificate (hhash : HashesHeight env.tm) (app : α) :
    Certificate (system env) (matchingGuard env) (freshNode app)
      (fun node => node.core.Idle ∧ node.Kept (Matched env))
      (fun node => node.core.Always ∧ node.Kept (Matched env))
      (fun node => node.core.Down ∧ node.Kept (Matched env)) := by
  apply (matched_callRule hhash).certificate app
  · constructor
    · intro height bytes hbytes
      cases hbytes
    · intro height block commit hblock
      cases hblock
  · exact fun _ _ => Or.inl
  · intro node request hcall
    exact hcall
  · intro node input block commit _ hmatched hoffer pair hpair _
    obtain rfl : pair = (block, commit) := List.mem_singleton.1 hpair
    exact commitsTo_of_offered hmatched hoffer

/-- In every run whose calls bring matching commits, every stored commit names
the height and the header hash of its block. -/
theorem stored_commits_match (env : Env α) (app : α) (hhash : HashesHeight env.tm)
    {config : Config (Node α) Answer Error}
    (hreach : Reachable (system env) (matchingGuard env) (freshNode app) config) {height : UInt64}
    {block : Block} {commit : Commit} (hblock : loadBlock config.state.db height = .ok block)
    (hcommit : loadCommit config.state.db height = .ok commit) :
    commit.height = height ∧ commit.headerHash = block.header.hash env.tm := by
  have hmatched : Matched env config.state.db _ := ((matched_certificate hhash app).sound hreach).2
  obtain ⟨rfl, hcommits⟩ := hmatched.matched height block commit hblock hcommit
  exact hcommits

instance (node : Node α) (label : Label Answer Request) :
    Decidable ((matchingGuard env).Permits node label) :=
  (matchingGuard env).decidablePermits node (fun _ => inferInstanceAs (Decidable (LoadsStored _ _)))
    (fun request => inferInstanceAs (Decidable (TriesNext node request →
      ∀ pair ∈ request.pairs, _ → CommitsTo env.tm pair.1 pair.2))) (.isTrue trivial) label

open Reference

def strayCommit : Commit :=
  { commitFor poolFirst.header with
    height := 9
    headerHash := FixedBytes.zero 32 }

/-- `Validate` accepts the stray commit, and it becomes the commit of height 1. -/
theorem stray_commit_stored : (∃ node, ReachableNode Reference.env [] ⟨node, .idle⟩ ∧
      Executor.validate Reference.env.tm node.lastState poolFirst
        strayCommit Reference.env.getProposer = .ok ()) ∧
    ∃ node, ReachableNode Reference.env [] ⟨node, .idle⟩ ∧ node.height = 1 ∧
      loadBlock node.db 1 = .ok poolFirst ∧
      loadCommit node.db 1 = .ok strayCommit ∧
      strayCommit.height = 9 ∧
      strayCommit.headerHash ≠ poolFirst.header.hash Reference.env.tm :=
  ⟨exists_idleNode firstBoot (by decide +kernel), exists_idleNode (firstBoot ++
        .call (.gossip poolFirst strayCommit) :: Reference.steps 26 ++ [.ret])
      (by decide +kernel)⟩

/-- The first block arrives with a commit that names it. -/
theorem stored_commits_match_reference :
    ∃ node, Reachable (system Reference.env) (matchingGuard Reference.env)
        (freshNode []) ⟨node, .idle⟩ ∧
      loadBlock node.db 1 = .ok poolFirst ∧
      loadCommit node.db 1 = .ok (commitFor poolFirst.header) ∧
      (commitFor poolFirst.header).height = 1 ∧
      (commitFor poolFirst.header).headerHash = poolFirst.header.hash Reference.env.tm := by
  have hrun : ∃ node, Reachable (system Reference.env)
        (matchingGuard Reference.env) (freshNode []) ⟨node, .idle⟩ ∧
      loadBlock node.db 1 = .ok poolFirst ∧
      loadCommit node.db 1 = .ok (commitFor poolFirst.header) :=
    exists_idle_of_runGuarded firstDelivered (by decide +kernel)
  obtain ⟨node, hreach, hblock, hcommit⟩ := hrun
  exact ⟨node, hreach, hblock, hcommit,
    stored_commits_match Reference.env [] hashesHeight hreach hblock hcommit⟩

/-! ## A hash chain -/

/-- The hash that `CreateBlock` derives from the last commit of a block.  It is
taken before the hashes of the header are filled in. -/
def derivedLastCommitHash (tm : Tendermint) (block : Block) : Hash :=
  (FixedBytes.zero 32).copy (Executor.getLastCommitHash tm block.lastCommit
    { block.header with
      lastCommitHash := FixedBytes.zero 32
      dataHash := FixedBytes.zero 32
      aggregatorsHash := FixedBytes.zero 32 })

def OwnLinks (env : Env α) (block : Block) : Prop := block.header.chainID = env.exec.chainID ∧
    block.header.lastCommitHash = derivedLastCommitHash env.tm block

instance (env : Env α) (block : Block) : Decidable (OwnLinks env block) :=
  inferInstanceAs (Decidable (_ ∧ _))

def LinksTo (tm : Tendermint) (block previous : Block) : Prop :=
  block.header.lastHeaderHash = previous.header.hash tm

instance (tm : Tendermint) (block previous : Block) : Decidable (LinksTo tm block previous) :=
  inferInstanceAs (Decidable (_ = _))

def Env.aboveInitial (env : Env α) (height : UInt64) : Prop :=
  env.genesis.initialHeight.toUInt64.toNat < height.toNat

instance (env : Env α) (height : UInt64) : Decidable (env.aboveInitial height) :=
  inferInstanceAs (Decidable (_ < _))

structure Chained (env : Env α) (db : Db) (appHeight : UInt64) : Prop where
  indexed : Indexed env.tm db.blockRecords
  height : ∀ height block, loadBlock db height = .ok block → block.header.height = height
  top : ∀ height block, loadBlock db height = .ok block → height.toNat ≤ appHeight.toNat + 1
  own : ∀ height block, loadBlock db height = .ok block →
    env.aboveInitial height → OwnLinks env block
  linked : ∀ (height next : UInt64) (block nextBlock : Block),
    next.toNat = height.toNat + 1 → env.aboveInitial next →
    loadBlock db height = .ok block → loadBlock db next = .ok nextBlock →
    LinksTo env.tm nextBlock block

theorem Chained.shrinks {before : Db} (hchained : Chained env before appHeight)
    (hshrinks : Shrinks before.blockRecords after.blockRecords) : Chained env after appHeight where
  indexed := hchained.indexed.shrinks hshrinks
  height height block hblock := hchained.height height block (loadBlock_of_shrinks hshrinks hblock)
  top height block hblock := hchained.top height block (loadBlock_of_shrinks hshrinks hblock)
  own height block hblock := hchained.own height block (loadBlock_of_shrinks hshrinks hblock)
  linked height next block nextBlock hnext habove hblock hnextBlock :=
    hchained.linked height next block nextBlock hnext habove (loadBlock_of_shrinks hshrinks hblock)
      (loadBlock_of_shrinks hshrinks hnextBlock)

theorem Chained.save (hhash : HashesHeight env.tm) {db : Db} (hchained : Chained env db appHeight)
    (commit : Commit) (hnext : block.header.height.toNat = appHeight.toNat + 1)
    (hown : env.aboveInitial block.header.height → OwnLinks env block)
    (hlinks : env.aboveInitial block.header.height → ∀ previous, loadBlock db appHeight = .ok
      previous → LinksTo env.tm block previous) :
    Chained env (db.commit (saveBlock env.tm block commit)) appHeight := by
  have hsaved := onlySaved_saveBlock block commit hhash hchained.indexed
  have hother {height : UInt64} {other : Block} (hheight : height.toNat ≠ block.header.height.toNat)
      (hload : loadBlock (db.commit (saveBlock env.tm block commit)) height =
        .ok other) : loadBlock db height = .ok other := by
    rw [← hload]
    exact (hsaved.otherBlock height fun heq => hheight (by rw [heq])).symm
  have hnew {height : UInt64} {other : Block} (hheight : height.toNat = block.header.height.toNat)
      (hload : loadBlock (db.commit (saveBlock env.tm block commit)) height =
        .ok other) : other = block.withoutEvidence := by
    rw [UInt64.toNat_inj.1 hheight, hsaved.savedBlock, Result.ok.injEq] at hload
    exact hload.symm
  constructor
  · exact indexed_saveBlock block commit hchained.indexed
  · intro height other hload
    by_cases hheight : height.toNat = block.header.height.toNat
    · rw [hnew hheight hload]
      exact UInt64.toNat_inj.1 hheight.symm
    · exact hchained.height height other (hother hheight hload)
  · intro height other hload
    by_cases hheight : height.toNat = block.header.height.toNat
    · omega
    · exact hchained.top height other (hother hheight hload)
  · intro height other hload hfirst
    by_cases hheight : height.toNat = block.header.height.toNat
    · rw [hnew hheight hload]
      exact hown (UInt64.toNat_inj.1 hheight ▸ hfirst)
    · exact hchained.own height other (hother hheight hload) hfirst
  · intro height next other nextOther hsucc habove hload hnextLoad
    by_cases hheight : next.toNat = block.header.height.toNat
    · -- the new block and its predecessor
      rw [hnew hheight hnextLoad]
      have hlast := hother (by omega) hload
      have happ : height = appHeight := UInt64.toNat_inj.1 (by omega)
      exact hlinks (UInt64.toNat_inj.1 hheight ▸ habove) other (happ ▸ hlast)
    · have hnextOld := hother hheight hnextLoad
      have htop := hchained.top next nextOther hnextOld
      exact hchained.linked height next other nextOther hsucc habove
        (hother (by omega) hload) hnextOld

structure Continues (env : Env α) (node : Node α)
    (pairs : List (Block × Commit)) : Prop where
  own : ∀ pair ∈ pairs, node.core.appHeight.toNat < pair.1.header.height.toNat →
    env.aboveInitial pair.1.header.height → OwnLinks env pair.1
  stored : ∀ pair ∈ pairs, pair.1.header.height.toNat = node.core.appHeight.toNat + 1 →
    env.aboveInitial pair.1.header.height →
    ∀ previous, loadBlock node.db node.core.appHeight = .ok previous →
    LinksTo env.tm pair.1 previous
  within : ∀ pair ∈ pairs, ∀ other ∈ pairs,
    node.core.appHeight.toNat < other.1.header.height.toNat →
    pair.1.header.height.toNat = other.1.header.height.toNat + 1 →
    env.aboveInitial pair.1.header.height → LinksTo env.tm pair.1 other.1

structure Continued (env : Env α) (start : Node α)
    (pairs : List (Block × Commit)) (db : Db) (appHeight : UInt64) : Prop
    extends Chained env db appHeight where
  floor : start.core.appHeight.toNat ≤ appHeight.toNat
  origin : ∀ height block, height.toNat ≤ appHeight.toNat → loadBlock db height = .ok block →
    (height.toNat ≤ start.core.appHeight.toNat ∧ loadBlock start.db height = .ok block) ∨
    (start.core.appHeight.toNat < height.toNat ∧
      ∃ pair ∈ pairs, pair.1.header.height = height ∧ pair.1.header = block.header)

section

variable {start : Node α} {pairs : List (Block × Commit)} {db : Db}
variable {appHeight : UInt64}

section

variable (hnode : Continued env start pairs db appHeight)

include hnode

theorem Continued.shrinks (hshrinks : Shrinks db.blockRecords after.blockRecords) :
    Continued env start pairs after appHeight where
  toChained := hnode.toChained.shrinks hshrinks
  floor := hnode.floor
  origin height block hheight hblock :=
    hnode.origin height block hheight (loadBlock_of_shrinks hshrinks hblock)

theorem Continued.links (hcontinues : Continues env start pairs)
    {pair : Block × Commit} (hpair : pair ∈ pairs)
    (hnext : pair.1.header.height.toNat = appHeight.toNat + 1)
    (habove : env.aboveInitial pair.1.header.height) {previous : Block}
    (hprevious : loadBlock db appHeight = .ok previous) : LinksTo env.tm pair.1 previous := by
  have hfloor := hnode.floor
  rcases hnode.origin appHeight previous le_rfl hprevious with
    ⟨hle, hload⟩ | ⟨hlt, other, hother, hheight, hheader⟩
  · have hsame : appHeight = start.core.appHeight := UInt64.toNat_inj.1 (by omega)
    rw [hsame] at hload hnext
    exact hcontinues.stored pair hpair hnext habove previous hload
  · unfold LinksTo
    rw [← hheader]
    exact hcontinues.within pair hpair other hother (by rw [hheight]; exact hlt)
      (by rw [hheight]; exact hnext) habove

theorem Continued.save (hhash : HashesHeight env.tm) (hcontinues : Continues env start pairs)
    (hpair : (block, commit) ∈ pairs)
    (hnext : block.header.height.toNat = appHeight.toNat + 1) :
    Chained env (db.commit (saveBlock env.tm block commit)) appHeight := by
  have hfloor := hnode.floor
  apply hnode.toChained.save hhash commit hnext
  · exact hcontinues.own _ hpair (by simp only; omega)
  · intro habove previous hprevious
    exact hnode.links hcontinues hpair hnext habove hprevious

end

theorem continued_maintained (hhash : HashesHeight env.tm)
    (hcontinues : Continues env start pairs) :
    Maintained env noLimit (fun block commit => (block, commit) ∈ pairs)
      (Continued env start pairs) := by
  constructor
  · intro before after appHeight hnode hrecords
    apply hnode.shrinks
    rw [hrecords]
    exact Shrinks.refl _
  · intro db appHeight bound heights hnode _ _ _
    exact hnode.shrinks (shrinks_pruneAll db heights)
  · intro db appHeight block commit hnode hpair hnext
    refine ⟨hnode.save hhash hcontinues hpair hnext, hnode.floor, ?_⟩
    intro height other hheight hload
    have hsaved := onlySaved_saveBlock block commit hhash hnode.indexed
    have hne : height ≠ block.header.height := by
      rintro rfl
      omega
    rw [hsaved.otherBlock height hne] at hload
    exact hnode.origin height other hheight hload
  · intro db appHeight block commit hnode hpair hnext
    have hchained := hnode.save hhash hcontinues hpair hnext
    have hfloor := hnode.floor
    refine ⟨⟨hchained.indexed, hchained.height, ?_, hchained.own, hchained.linked⟩, by omega, ?_⟩
    · intro height other hload
      have htop := hchained.top height other hload
      omega
    · intro height other hheight hload
      have hsaved := onlySaved_saveBlock block commit hhash hnode.indexed
      by_cases heq : height = block.header.height
      · subst heq
        rw [hsaved.savedBlock, Result.ok.injEq] at hload
        exact Or.inr ⟨by omega, _, hpair, rfl, by rw [← hload]; rfl⟩
      · have hne : height.toNat ≠ block.header.height.toNat := fun h =>
          heq (UInt64.toNat_inj.1 h)
        rw [hsaved.otherBlock height heq] at hload
        exact hnode.origin height other (by omega) hload

end

theorem chained_callRule (hhash : HashesHeight env.tm) :
    CallRule env (Chained env) (Continues env) where
  records _ _ _ hchained hrecords := by
    apply hchained.shrinks
    rw [hrecords]
    exact Shrinks.refl _
  call node pairs hchained hcontinues :=
    ⟨Continued env node pairs, continued_maintained hhash hcontinues,
      ⟨hchained, le_rfl, fun _ _ hheight hload => Or.inl ⟨hheight, hload⟩⟩,
      fun _ _ h => h.toChained⟩

theorem continues_of_offered {node : Node α} (hidle : node.core.Idle)
    (hchained : node.Kept (Chained env)) {input : ProduceInput} {unreadable : Prop}
    (hoffer : Offers env input node unreadable block commit) :
    Continues env node [(block, commit)] := by
  have hchained : Chained env node.db node.core.appHeight := hchained
  have happ : node.height.toNat ≤ node.core.appHeight.toNat := hidle.always.height_le
  have hheight : block.header.height = node.height + 1 := by
    cases hoffer with
    | pending hblock hcommit => exact hchained.height _ block hblock
    | created _ _ hblock _ => rw [hblock]; rfl
  have hnext : block.header.height.toNat = node.height.toNat + 1 := toNat_next hidle.always hheight
  have hown : env.aboveInitial block.header.height → OwnLinks env block := by
    intro habove
    cases hoffer with
    | pending hblock hcommit =>
      exact hchained.own _ block hblock (hheight ▸ habove)
    | created _ _ hblock _ => rw [hblock]; exact ⟨rfl, rfl⟩
  have hlinks (habove : env.aboveInitial block.header.height) {previous : Block}
      (hprevious : loadBlock node.db node.height = .ok previous) :
      LinksTo env.tm block previous := by
    cases hoffer with
    | pending hblock hcommit =>
      exact hchained.linked node.height (node.height + 1) previous block
        (hheight ▸ hnext) (hheight ▸ habove) hprevious hblock
    | created _ hlast hblock _ =>
      rw [hblock]
      cases hlast with
      | none hfirst =>
        -- the block has the initial height itself
        rw [Env.aboveInitial, hheight, hfirst] at habove
        exact absurd habove (lt_irrefl _)
      | stored _ hlastBlock =>
        rw [hlastBlock, Result.ok.injEq] at hprevious
        rw [← hprevious]
        rfl
  constructor
  · intro pair hpair _ habove
    obtain rfl := List.mem_singleton.1 hpair
    exact hown habove
  · intro pair hpair hnextApp habove previous hprevious
    obtain rfl := List.mem_singleton.1 hpair
    have hsame : node.core.appHeight = node.height :=
      UInt64.toNat_inj.1 (by simp only at hnextApp; omega)
    exact hlinks habove (hsame ▸ hprevious)
  · intro pair hpair other hother _ hsucc
    rw [List.mem_singleton.1 hpair, List.mem_singleton.1 hother] at hsucc
    omega

/-- Calls bring blocks from outside that continue the chain, and `LoadState` does
not fail while a state is stored. -/
def linkGuard (env : Env α) : Guard (Node α) Answer Request where
  answer := LoadsStored
  call node request := TriesNext node request → Continues env node request.pairs
  crash _ := True

theorem chained_certificate (hhash : HashesHeight env.tm) (app : α) :
    Certificate (system env) (linkGuard env) (freshNode app)
      (fun node => node.core.Idle ∧ node.Kept (Chained env))
      (fun node => node.core.Always ∧ node.Kept (Chained env))
      (fun node => node.core.Down ∧ node.Kept (Chained env)) := by
  apply (chained_callRule hhash).certificate app
  · constructor
    · intro height bytes hbytes
      cases hbytes
    · intro height block hblock
      cases hblock
    · intro height block hblock
      cases hblock
    · intro height block hblock
      cases hblock
    · intro height next block nextBlock _ _ hblock
      cases hblock
  · exact fun _ _ => Or.inl
  · intro node request hcall
    exact hcall
  · intro node input block commit hidle hchained hoffer
    exact continues_of_offered hidle hchained hoffer

/-- In every run whose calls bring blocks that continue the chain, the stored
blocks form a hash chain of the node's chain. -/
theorem stored_blocks_chained (env : Env α) (app : α) (hhash : HashesHeight env.tm)
    {config : Config (Node α) Answer Error}
    (hreach : Reachable (system env) (linkGuard env) (freshNode app) config) {height next : UInt64}
    {block : Block} (hnext : next.toNat = height.toNat + 1) (habove : env.aboveInitial next)
    (hblock : loadBlock config.state.db next = .ok block) :
    (∀ previous, loadBlock config.state.db height = .ok previous →
      block.header.lastHeaderHash = previous.header.hash env.tm) ∧
    block.header.chainID = env.exec.chainID ∧
    block.header.lastCommitHash = derivedLastCommitHash env.tm block := by
  have hchained : Chained env config.state.db _ := ((chained_certificate hhash app).sound hreach).2
  refine ⟨?_, hchained.own next block hblock habove⟩
  intro previous hprevious
  exact hchained.linked height next previous block hnext habove hprevious hblock

instance {p : Block → Prop} [DecidablePred p] (result : Result Error Block) :
    Decidable (∀ block, result = .ok block → p block) :=
  match result with
  | .ok block => decidable_of_iff (p block) (by simp)
  | .err _ => isTrue (by simp)
  | .panic => isTrue (by simp)

instance (node : Node α) (pairs : List (Block × Commit)) : Decidable (Continues env node pairs) :=
  decidable_of_iff
    ((∀ pair ∈ pairs, _ → _ → OwnLinks env pair.1) ∧
      (∀ pair ∈ pairs, _ → _ → ∀ previous, loadBlock node.db node.core.appHeight = .ok previous →
        LinksTo env.tm pair.1 previous) ∧
      (∀ pair ∈ pairs, ∀ other ∈ pairs, _ → _ → _ → LinksTo env.tm pair.1 other.1))
    ⟨fun h => ⟨h.1, h.2.1, h.2.2⟩, fun h => ⟨h.own, h.stored, h.within⟩⟩

instance (node : Node α) (label : Label Answer Request) :
    Decidable ((linkGuard env).Permits node label) :=
  (linkGuard env).decidablePermits node (fun _ => inferInstanceAs (Decidable (LoadsStored _ _)))
    (fun request => inferInstanceAs (Decidable (TriesNext node request →
      Continues env node request.pairs))) (.isTrue trivial) label

def foreignSecond : Block :=
  { poolSecond with
    header :=
      { poolSecond.header with
        chainID := "other"
        lastCommitHash := FixedBytes.zero 32 } }

def linkedSecond : Block :=
  { poolSecond with
    header :=
      { poolSecond.header with
        lastHeaderHash := poolFirst.header.hash Reference.env.tm } }

/-- The proposer's signature suffices for a block of another chain. -/
theorem foreign_block_applied :
    ∃ node, ReachableNode Reference.env [] ⟨node, .idle⟩ ∧ node.height = 2 ∧
      loadBlock node.db 1 = .ok poolFirst ∧
      loadBlock node.db 2 = .ok foreignSecond ∧
      foreignSecond.header.lastHeaderHash ≠ poolFirst.header.hash Reference.env.tm ∧
      foreignSecond.header.chainID ≠ Reference.env.exec.chainID ∧
      foreignSecond.header.lastCommitHash ≠ derivedLastCommitHash Reference.env.tm foreignSecond :=
  exists_idleNode (firstDelivered ++ .call (Reference.deliver foreignSecond) ::
        Reference.steps 26 ++ [.ret])
    (by decide +kernel)

/-- A second block that refers to the first one is stored above it. -/
theorem stored_blocks_chained_reference :
    ∃ node, Reachable (system Reference.env) (linkGuard Reference.env)
        (freshNode []) ⟨node, .idle⟩ ∧
      loadBlock node.db 1 = .ok poolFirst ∧
      loadBlock node.db 2 = .ok linkedSecond ∧
      linkedSecond.header.lastHeaderHash = poolFirst.header.hash Reference.env.tm ∧
      linkedSecond.header.chainID = Reference.env.exec.chainID ∧
      linkedSecond.header.lastCommitHash = derivedLastCommitHash Reference.env.tm linkedSecond := by
  have hrun : ∃ node, Reachable (system Reference.env)
        (linkGuard Reference.env) (freshNode []) ⟨node, .idle⟩ ∧
      loadBlock node.db 1 = .ok poolFirst ∧
      loadBlock node.db 2 = .ok linkedSecond :=
    exists_idle_of_runGuarded (firstDelivered ++
        .call (Reference.deliver linkedSecond) :: Reference.steps 26 ++ [.ret])
      (by decide +kernel)
  obtain ⟨node, hreach, hfirst, hsecond⟩ := hrun
  have hchained := stored_blocks_chained Reference.env [] hashesHeight
    hreach (show (2 : UInt64).toNat = (1 : UInt64).toNat + 1 by decide)
    (by decide) hsecond
  exact ⟨node, hreach, hfirst, hsecond, hchained.1 _ hfirst, hchained.2⟩

end Dymint.Manager
