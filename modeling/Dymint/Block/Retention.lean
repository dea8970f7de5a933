import Dymint.Block.Records
import Dymint.Block.Reference
import Dymint.Core.Transitions

/-!
# What pruning leaves

`Manager.pruneBlocks` compares the height that the application wants to retain
with the sync target, and `Store.PruneBlocks` compares it with the height of the
store.  Together they keep every block above the largest sync target, and the
last block of the store.
-/

namespace Dymint.Manager

open Procedure Dymint.Types Store CrashSystem

variable {α β : Type} {env : Env α}

/-! ## Single removals -/

def Spares (env : Env α) (before after : Node α) : Prop :=
  ∀ height : UInt64, before.db (.index height) ≠ none → after.db (.index height) = none →
    ∃ committing : α,
      let retainHeight := (env.app.commit committing).2.retainHeight.toUInt64
      height.toNat < retainHeight.toNat ∧ retainHeight.toNat ≤ before.syncTarget.toNat ∧
        retainHeight.toNat ≤ before.height.toNat

variable {before after : Node α}

theorem Spares.of_index
    (hindex : ∀ height, before.db (.index height) ≠ none → after.db (.index height) ≠ none) :
    Spares env before after := by
  intro height hbefore hafter
  exact absurd hafter (hindex height hbefore)

theorem Spares.of_records
    (hrecords : after.db.blockRecords = before.db.blockRecords) : Spares env before after := by
  apply Spares.of_index
  intro height hbefore
  have hindex : after.db (.index height) = before.db (.index height) :=
    congrFun (congrArg BlockRecords.index hrecords) height
  rw [hindex]
  exact hbefore

structure RemovesBelow (bound : UInt64) (before after : Node α) : Prop where
  height : after.height = before.height
  syncTarget : after.syncTarget = before.syncTarget
  index : ∀ height : UInt64, bound ≤ height → after.db (.index height) = before.db (.index height)

def IndexBelow (bound : UInt64) (batch : WriteBatch) : Prop :=
  ∀ write ∈ batch, ∀ height, write.1 = .index height → height < bound

theorem indexBelow_covers (bound base : UInt64) :
    CoversHeights (IndexBelow bound) base (bound.toNat - base.toNat) where
  nil := by simp [IndexBelow]
  append offset hoffset batch hash hbatch := by
    have hbelow : base + UInt64.ofNat offset < bound := by
      rw [UInt64.lt_iff_toNat_lt, UInt64.toNat_add, UInt64.toNat_ofNat']
      have := bound.toNat_lt
      omega
    intro write hwrite height hkey
    rcases List.mem_append.1 hwrite with hold | hnew
    · exact hbatch write hold height hkey
    · simp only [pruneHeight, List.mem_cons, List.not_mem_nil, or_false] at hnew
      rcases hnew with rfl | rfl | rfl | rfl | rfl <;> simp at hkey
      exact hkey ▸ hbelow

theorem allowsBatches_removesBelow (bound : UInt64) : AllowsBatches (IndexBelow bound)
      (RemovesBelow bound : Node α → Node α → Prop) where
  refl _ := ⟨rfl, rfl, fun _ _ => rfl⟩
  batch node batch hbatch := by
    refine ⟨rfl, rfl, fun height hheight => ?_⟩
    apply Db.commit_of_forall_ne
    intro write hwrite hkey
    exact absurd (hbatch write hwrite height hkey.symm) (UInt64.not_lt.2 hheight)
  base _ _ := ⟨rfl, rfl, fun _ _ => rfl⟩

variable {retainHeight : Int64}

theorem respects_pruneBlocks {committing : α}
    (hretain : retainHeight = (env.app.commit committing).2.retainHeight) (hpos : 0 < retainHeight)
    (node : Node α) : (pruneBlocks retainHeight).Respects (Spares env) (fun _ => True) node := by
  have hrefl : Spares env node node := .of_records rfl
  apply Proc.respects_read_bind hrefl
  split
  case isTrue => trivial
  case isFalse hhonoured =>
    unfold storePruneBlocks
    split
    case isTrue => trivial
    apply Proc.respects_read_bind hrefl
    split
    case isTrue => trivial
    case isFalse hlatest =>
      apply Proc.respects_read_bind hrefl
      split
      case isTrue => trivial
      -- from here on, what the checks have read does not change
      apply Proc.Follows.respects_of (follows_pruneRange
          (allowsBatches_removesBelow retainHeight.toUInt64)
          (indexBelow_covers retainHeight.toUInt64 node.baseHeight))
        (fun later => later.height = node.height ∧ later.syncTarget = node.syncTarget)
      · intro before after hbefore hremoves
        refine ⟨?_, hremoves.height.trans hbefore.1, hremoves.syncTarget.trans hbefore.2⟩
        intro height hentry hgone
        refine ⟨committing, ?_, ?_, ?_⟩
        · rw [← hretain, ← UInt64.lt_iff_toNat_lt, ← UInt64.not_le]
          intro hle
          exact hentry ((hremoves.index height hle).symm.trans hgone)
        · rw [← hretain, hbefore.2]
          exact toNat_le_syncTarget hhonoured hpos
        · rw [← hretain, hbefore.1, ← UInt64.le_iff_toNat_le]
          exact UInt64.not_lt.1 hlatest
      · exact ⟨rfl, rfl⟩

theorem respects_pruneOnRequest
    (hretain : ∃ committing, retainHeight = (env.app.commit committing).2.retainHeight)
    (node : Node α) : (pruneOnRequest retainHeight).Respects (Spares env) (fun _ => True) node := by
  obtain ⟨committing, hretain⟩ := hretain
  unfold pruneOnRequest
  split
  case isFalse => trivial
  case isTrue hpos =>
    apply Proc.Respects.bind (respects_pruneBlocks hretain hpos node).attempt
    intro _ _ _
    trivial

theorem respects_of_keeps {proc : M α β} {returns : β → Prop}
    (hkeeps : proc.KeepsTo (fun node => node.db.blockRecords) returns) (node : Node α) :
    proc.Respects (Spares env) returns node :=
  (Proc.Follows.mono hkeeps fun _ _ hrecords => Spares.of_records hrecords).respects node

theorem ignoresProgress_blockRecords :
    IgnoresProgress fun node : Node α => node.db.blockRecords where
  lastState _ _ := rfl
  height _ _ := rfl
  batch node _ hbatch := blockRecords_of_isProgress node.db hbatch

theorem ignoresExecution_blockRecords :
    IgnoresExecution fun node : Node α => node.db.blockRecords where
  calls _ _ _ _ := rfl
  workingHeight _ _ := rfl

/-- The retain height that `Commit` returns is the application's. -/
theorem keepsTo_commitBlock (env : Env α) (state : State) (block : Block)
    (responses : ABCIResponses) :
    (commitBlock env state block responses).KeepsTo (fun node => node.db.blockRecords)
      fun result => ∃ committing, result.2 = (env.app.commit committing).2.retainHeight := by
  apply Proc.Keeps.bind keeps_external
  intro _
  have hcommit : (commitSync env).KeepsTo (fun node => node.db.blockRecords)
      fun response => ∃ committing, response = (env.app.commit committing).2 := by
    intro answer node
    cases answer with
    | ok => exact ⟨rfl, node.app.working, rfl⟩
    | failBefore | failAfter => exact ⟨rfl, trivial⟩
  apply Proc.Follows.bind hcommit
  rintro response ⟨committing, hresponse⟩
  apply Proc.Keeps.bind keeps_external
  intro _
  apply Proc.Keeps.bind (keeps_callWith fun _ => rfl)
  intro _
  exact Proc.follows_pure ⟨committing, by rw [hresponse]⟩

theorem respects_applyBlock (env : Env α) (block : Block) (commit : Commit) (node : Node α) :
    (applyBlock env block commit).Respects (Spares env) (fun _ => True) node := by
  apply Proc.Respects.bind (respects_of_keeps keeps_storeHeight node)
  intro height node _
  split
  case isTrue => trivial
  apply Proc.Respects.bind (respects_of_keeps
    (keeps_alignStoreWithApp ignoresProgress_blockRecords env block) node)
  intro required node _
  split
  case isTrue => trivial
  have hsave : (commitBatch (.wrap "failed to commit db batch")
      (saveBlock env.tm block commit) : M α Unit).Follows (Spares env)
      fun _ => True := by
    apply follows_callWith
    · intro node
      exact .of_records rfl
    · intro node
      apply Spares.of_index
      intro height hentry
      by_cases hheight : height = block.header.height
      · rw [hheight]
        exact ne_of_eq_of_ne (saveBlock_index env.tm node.db block commit) (by simp)
      · exact ne_of_eq_of_ne (saveBlock_frame env.tm node.db block commit (by simp)
          (by simp) (by simpa using hheight)) hentry
  apply Proc.Respects.bind (hsave.respects node)
  intro _ node _
  apply Proc.Respects.bind (respects_of_keeps
    (keeps_executeBlock env ignoresExecution_blockRecords block commit) node)
  intro responses node _
  apply Proc.Respects.bind (respects_of_keeps keeps_getLastState node)
  intro lastState node _
  apply Proc.Respects.bind (respects_of_keeps (keeps_persistExecution
    ignoresProgress_blockRecords.toIgnoresRecording env block responses _) node)
  intro _ node _
  apply Proc.Respects.bind (respects_of_keeps (keepsTo_commitBlock env _ block responses) node)
  intro result node hretain
  apply Proc.Respects.bind (respects_pruneOnRequest hretain node)
  intro _ node _
  exact respects_of_keeps (keeps_finishBlock ignoresProgress_blockRecords env block _) node

theorem respects_applyBatch (env : Env α) (blocks : List Block) (commits : List Commit)
    (node : Node α) :
    (applyBatch env blocks commits).Respects (Spares env) (fun _ => True)
      node := by
  induction blocks generalizing commits node with
  | nil => trivial
  | cons block blocks ih =>
    cases commits with
    | nil => trivial
    | cons commit commits =>
      apply Proc.Respects.bind (respects_applyBlock env block commit node)
      intro _ later _
      exact ih commits later

theorem respects_applyBatches (env : Env α) (batches : List (Option Batch)) (node : Node α) :
    (applyBatches env batches).Respects (Spares env) (fun _ => True) node := by
  induction batches generalizing node with
  | nil => trivial
  | cons batch batches ih =>
    cases batch with
    | none => trivial
    | some batch =>
      apply Proc.Respects.bind (respects_applyBatch env _ _ node)
      intro _ later _
      exact ih later

theorem respects_serve (env : Env α) (request : Request) (node : Node α) :
    (serve env request).Respects (Spares env) (fun _ => True) node := by
  cases request with
  | gossip block commit => exact respects_applyBlock env block commit node
  | stateIndex index =>
    exact respects_of_keeps (keeps_updateStateIndex
      ignoresProgress_blockRecords.toIgnoresRecording env index) node
  | syncTarget endHeight => exact fun _ => ⟨.of_records rfl, trivial⟩
  | retrieve result =>
    apply Proc.Respects.bind (respects_of_keeps (Proc.follows_ofResult _) node)
    intro batches later _
    exact respects_applyBatches env batches later
  | produce input =>
    apply Proc.Respects.bind (respects_of_keeps keeps_storeHeight node)
    intro height node _
    apply Proc.Respects.bind (respects_of_keeps (keeps_loadLast env height) node)
    intro last node _
    apply Proc.Respects.bind (respects_of_keeps
      (keeps_pendingOrNewBlock env input _ last.1 last.2) node)
    intro pair node _
    apply Proc.Respects.bind (respects_of_keeps (keeps_callWith fun _ => rfl) node)
    intro _ node _
    exact respects_applyBlock env pair.1 pair.2 node

theorem system_respects (env : Env α) : (system env).Respects (Spares env) where
  refl _ := .of_records rfl
  boot node := respects_of_keeps (keeps_newManager env
    ignoresProgress_blockRecords (fun _ _ _ _ => rfl) (fun _ _ => rfl) fun _ => rfl) node
  serve request node := respects_serve env request node
  crash _ := .of_records rfl

/-! ## What stays loadable -/

/-- The block and the commit of a height can be loaded. -/
def Loadable (db : Db) (height : UInt64) : Prop :=
  ∃ block commit, loadBlock db height = .ok block ∧ loadCommit db height = .ok commit

instance (db : Db) (height : UInt64) : Decidable (Loadable db height) :=
  match hblock : loadBlock db height, hcommit : loadCommit db height with
  | .ok block, .ok commit => isTrue ⟨block, commit, hblock, hcommit⟩
  | .err _, _ => isFalse (by rintro ⟨_, _, h, _⟩; simp [hblock] at h)
  | .panic, _ => isFalse (by rintro ⟨_, _, h, _⟩; simp [hblock] at h)
  | .ok _, .err _ => isFalse (by rintro ⟨_, _, _, h⟩; simp [hcommit] at h)
  | .ok _, .panic => isFalse (by rintro ⟨_, _, _, h⟩; simp [hcommit] at h)

theorem Loadable.of_sameAt {before after : Db} {height : UInt64}
    (hloadable : Loadable before height) (hsame : SameAt height before after) :
    Loadable after height := by
  obtain ⟨block, commit, hblock, hcommit⟩ := hloadable
  exact ⟨block, commit, hsame.block.trans hblock, hsame.commit.trans hcommit⟩

variable {block : Block}

theorem index_of_loadBlock {db : Db} {height : UInt64}
    (hblock : loadBlock db height = .ok block) : db (.index height) ≠ none := by
  obtain ⟨hash, hindex, _⟩ := loadBlock_eq_ok.1 hblock
  simp [hindex]

structure Stocked (env : Env α) (limit : UInt64) (db : Db) (appHeight : UInt64) :
    Prop where
  indexed : Indexed env.tm db.blockRecords
  intact : ∀ height, db (.index height) ≠ none → Loadable db height
  present : ∀ height : UInt64, 0 < height.toNat → height.toNat ≤ appHeight.toNat →
    limit.toNat < height.toNat ∨ appHeight.toNat ≤ height.toNat + 1 →
    db (.index height) ≠ none

section

variable {limit : UInt64} {db : Db} {appHeight : UInt64}

theorem Stocked.of_records {after : Db} (hstocked : Stocked env limit db appHeight)
    (hrecords : after.blockRecords = db.blockRecords) : Stocked env limit after appHeight := by
  have hindex (height : UInt64) : after (.index height) = db (.index height) :=
    congrFun (congrArg BlockRecords.index hrecords) height
  have hsame := sameBlocks_of_records hrecords
  constructor
  · rw [hrecords]
    exact hstocked.indexed
  · intro height hentry
    rw [hindex] at hentry
    exact (hstocked.intact height hentry).of_sameAt ⟨hsame.block height, hsame.commit height⟩
  · intro height hpos hle hkept
    rw [hindex]
    exact hstocked.present height hpos hle hkept

section

variable (hhash : HashesHeight env.tm)

include hhash

theorem Stocked.prune (hstocked : Stocked env limit db appHeight) {bound : UInt64}
    {heights : List UInt64} (happ : bound.toNat < appHeight.toNat)
    (hlimit : bound.toNat ≤ limit.toNat)
    (hheights : ∀ height ∈ heights, height.toNat < bound.toNat) :
    Stocked env limit (db.pruneAll heights) appHeight where
  indexed := hstocked.indexed.shrinks (shrinks_pruneAll db heights)
  intact := by
    intro height hentry
    have hother : height ∉ heights := fun hheight =>
      hentry (index_pruneAll_of_mem hstocked.indexed hheight)
    rw [Db.pruneAll_index hother] at hentry
    exact (hstocked.intact height hentry).of_sameAt (sameAt_pruneAll hhash hstocked.indexed hother)
  present := by
    intro height hpos hle hkept
    have hother : height ∉ heights := fun hheight => by
      have hlt := hheights height hheight
      omega
    rw [Db.pruneAll_index hother]
    exact hstocked.present height hpos hle hkept

theorem Stocked.save (hstocked : Stocked env limit db appHeight)
    (commit : Commit) (hnext : block.header.height.toNat = appHeight.toNat + 1 ∨
      block.header.height.toNat = 1) {appHeight' : UInt64}
    (happ : appHeight' = appHeight ∨ appHeight' = block.header.height) :
    Stocked env limit (db.commit (saveBlock env.tm block commit)) appHeight' := by
  have hsaved := onlySaved_saveBlock block commit hhash hstocked.indexed
  have hindex {height : UInt64} (hheight : height ≠ block.header.height) :
      db.commit (saveBlock env.tm block commit) (.index height) = db (.index height) :=
    saveBlock_frame env.tm db block commit (by simp) (by simp) (by simpa using hheight)
  constructor
  · exact indexed_saveBlock block commit hstocked.indexed
  · intro height hentry
    by_cases hheight : height = block.header.height
    · rw [hheight]
      exact ⟨_, _, hsaved.savedBlock, hsaved.savedCommit⟩
    · rw [hindex hheight] at hentry
      exact (hstocked.intact height hentry).of_sameAt
        ⟨hsaved.otherBlock height hheight, hsaved.otherCommit height hheight⟩
  · intro height hpos hle hkept
    by_cases hheight : height = block.header.height
    · rw [hheight]
      exact ne_of_eq_of_ne (saveBlock_index env.tm db block commit) (by simp)
    · have hne : height.toNat ≠ block.header.height.toNat := fun h =>
        hheight (UInt64.toNat_inj.1 h)
      rw [hindex hheight]
      apply hstocked.present height hpos
      · rcases happ with rfl | rfl <;> omega
      · rcases happ with rfl | rfl <;> omega

theorem stocked_maintained (limit : UInt64) :
    Maintained env limit (fun _ _ => True) (Stocked env limit) where
  records _ _ _ hstocked hrecords := hstocked.of_records hrecords
  prune hstocked happ hlimit hheights := hstocked.prune hhash happ hlimit hheights
  save hstocked _ hnext := hstocked.save hhash _ (Or.inl hnext) (Or.inl rfl)
  accept hstocked _ hnext := hstocked.save hhash _ (Or.inl hnext) (Or.inr rfl)

theorem During.stocked {commit : Commit}
    {start later : Node α} {point : Point} (hduring : During env block commit start point later)
    (hidle : start.core.Idle True) (hkept : start.Kept (Stocked env limit))
    (hlimit : start.syncTarget.toNat ≤ limit.toNat)
    (hnext : block.header.height = start.height + 1) : later.Kept (Stocked env limit) := by
  have hnat : block.header.height.toNat = start.height.toNat + 1 := toNat_next hidle.always hnext
  have hsave {appHeight : UInt64} (hne : start.app.lastBlockHeight.toUInt64 ≠ block.header.height)
      (happ : appHeight = start.app.lastBlockHeight.toUInt64 ∨ appHeight = block.header.height) :
      Stocked env limit (start.db.commit (saveBlock env.tm block commit)) appHeight := by
    apply Stocked.save hhash hkept commit _ happ
    rcases (hidle.execute_or hnext hne).1 with hsame | ⟨_, hzero⟩
    · have hsame : start.app.lastBlockHeight.toUInt64 = start.height := hsame
      exact Or.inl (hsame ▸ hnat)
    · have hzero : start.height = 0 := hzero
      exact Or.inr (by simpa [hzero] using hnat)
  exact (hduring.keptAt_of (stocked_maintained hhash limit) hlimit (by omega) (fun _ => hkept)
    (fun _ => hkept) (fun hne => hsave hne (Or.inl rfl))
    fun haccepts => hsave haccepts.1 (Or.inr rfl)).kept

end

end

/-! ## Runs -/

def UnderLimit (env : Env α) (limit : UInt64) (node : Node α) : Prop :=
  node.Kept (Stocked env limit) ∧ node.syncTarget.toNat ≤ limit.toNat

section

variable {limit : UInt64} {rules : Proc.Rules (Node α) Answer}

theorem wp_underLimit {proc : M α β} {node : Node α}
    (hkept : proc.wp { rules with crash := Node.Kept (Stocked env limit) }
      (fun _ later => later.Kept (Stocked env limit)) node) (htarget : proc.Keeps Node.syncTarget)
    (hrules : ∀ node, UnderLimit env limit node → rules.crash node)
    (hnode : UnderLimit env limit node) :
    proc.wp rules (fun _ later => UnderLimit env limit later) node := by
  have hlimit : proc.wp { rules with
        crash := fun later => later.syncTarget.toNat ≤ limit.toNat }
      (fun _ later => later.syncTarget = node.syncTarget) node :=
    htarget.wp fun later hlater => by
      change later.syncTarget.toNat ≤ _
      rw [hlater]
      exact hnode.2
  have hboth : proc.wp rules _ node := Proc.wp_and hkept hlimit
    (fun _ _ hallowed => ⟨hallowed, hallowed⟩)
    fun later hstocked htarget => hrules later ⟨hstocked, htarget⟩
  apply Proc.wp_conseq hboth
  rintro result later ⟨hstocked, hsame⟩
  refine ⟨hstocked, ?_⟩
  rw [hsame]
  exact hnode.2

theorem underLimit_serve (hhash : HashesHeight env.tm)
    (hrules : ∀ node : Node α, node.core.Always True ∧ UnderLimit env limit node →
      rules.crash node) :
    ServeInvariant env rules (fun node => node.core.Idle True ∧ UnderLimit env limit node)
      (fun node => node.core.Always True ∧ UnderLimit env limit node) where
  crash := hrules
  always_of_idle _ h := ⟨h.1.always, h.2⟩
  gossip _ _ _ h := h
  applyBlock _ _ _ h := wp_applyBlock_keeping hrules (fun _ h => ⟨h.1.always, h.2⟩)
      (height_lt_next h.1) h fun _ _ hnext hlater =>
        ⟨hlater.idle h.1 hnext, hlater.stocked hhash h.1 h.2.1 h.2.2 hnext, hlater.frame.1 ▸ h.2.2⟩
  updateStateIndex _ index h := Proc.wp_ends_and (wp_updateStateIndex env index (fun _ h => h) h.1)
      (Proc.wp_ends_const (wp_underLimit
        ((stocked_maintained hhash limit).records.wp_updateStateIndex index (fun _ h => h) h.2.1)
        (keeps_updateStateIndex ⟨fun _ _ => rfl, fun _ _ _ => rfl⟩ env index)
        (fun _ h => h) h.2))
      fun later halways hlimit => hrules later ⟨halways, hlimit⟩

def limitGuard (limit : UInt64) : Guard (Node α) Answer Request where
  answer _ _ := True
  call _ request := ∀ endHeight, request = .syncTarget endHeight → endHeight.toNat ≤ limit.toNat
  crash _ := True

theorem underLimit_certificate (hhash : HashesHeight env.tm) (app : α) (limit : UInt64) :
    Certificate (system env) (limitGuard limit) (freshNode app)
      (fun node => node.core.Idle True ∧ UnderLimit env limit node)
      (fun node => node.core.Always True ∧ UnderLimit env limit node)
      (fun node => node.core.Down True ∧ UnderLimit env limit node) where
  start := by
    refine ⟨freshNode_down app, ⟨?_, ?_, ?_⟩, Nat.zero_le _⟩
    · intro height bytes hbytes
      cases hbytes
    · intro height hentry
      exact absurd rfl hentry
    · intro height hpos hle
      exact absurd (hpos.trans_le hle) (lt_irrefl _)
  always_of_durable _ h := ⟨h.1.always, h.2⟩
  always_of_idle _ h := ⟨h.1.always, h.2⟩
  crash _ h _ := ⟨crash_core h.1, h.2.1, Nat.zero_le _⟩
  boot _ h := Proc.wp_ends_and (wp_newManager env (fun _ h => h) (fun _ _ _ => Or.inr trivial) h.1)
    (Proc.wp_ends_const (wp_underLimit
      ((stocked_maintained hhash limit).records.wp_newManager (fun _ h => h) h.2.1)
      (keeps_newManager env ⟨⟨fun _ _ => rfl, fun _ _ _ => rfl⟩, fun _ _ => rfl⟩
        (fun _ _ _ _ => rfl) (fun _ _ => rfl) fun _ => rfl)
      (fun _ h => h) h.2))
    fun _ => And.intro
  serve _ request h hcall := (underLimit_serve hhash fun _ h => h).serve request
    (fun endHeight hrequest => ⟨h.1, h.2.1, hcall endHeight hrequest⟩) h

end

/-- In every run whose sync targets are at most `limit`, the blocks and commits
above the limit and those of the last height can be loaded, and a move that makes
a block unloadable prunes below a retain height of the application that neither
exceeds the sync target nor the height of the store. -/
theorem pruning_leaves_needed_blocks (env : Env α) (app : α) (limit : UInt64)
    (hhash : HashesHeight env.tm) {config : Config (Node α) Answer Error}
    (hreach : Reachable (system env) (limitGuard limit) (freshNode app) config) :
    (∀ height : UInt64, 0 < height → height ≤ config.state.height →
      limit < height ∨ height = config.state.height →
      Loadable config.state.db height) ∧
    ∀ label next, (limitGuard limit).Permits config.state label →
      (system env).step config label = some next →
      ∀ height, Loadable config.state.db height → ¬ Loadable next.state.db height →
        ∃ committing : α,
          let retainHeight := (env.app.commit committing).2.retainHeight.toUInt64
          height < retainHeight ∧ retainHeight ≤ config.state.syncTarget ∧
            retainHeight ≤ config.state.height := by
  have hcert := underLimit_certificate hhash app limit
  obtain ⟨halways, hstocked, _⟩ := hcert.sound hreach
  constructor
  · intro height hpos hle hkept
    apply hstocked.intact
    have happ : config.state.height.toNat ≤ config.state.core.appHeight.toNat := halways.height_le
    have hle' := UInt64.le_iff_toNat_le.1 hle
    have hpos' : 0 < height.toNat := UInt64.lt_iff_toNat_lt.1 hpos
    apply hstocked.present height hpos' (hle'.trans happ)
    rcases hkept with habove | rfl
    · exact Or.inl (UInt64.lt_iff_toNat_lt.1 habove)
    · refine Or.inr (halways.app_le.resolve_left fun hzero => ?_)
      have hzero' : config.state.height = 0 := hzero
      simp [hzero'] at hpos'
  · intro label next hpermits hstep height hbefore hafter
    have hstocked' := (hcert.sound (hreach.move hpermits hstep)).2.1
    obtain ⟨block, commit, hblock, hcommit⟩ := hbefore
    have hgone : next.state.db (.index height) = none := by
      by_contra hentry
      exact hafter (hstocked'.intact height hentry)
    obtain ⟨committing, hlt, htarget, hheight⟩ :=
      (system_respects env).move hreach hstep height (index_of_loadBlock hblock) hgone
    exact ⟨committing, UInt64.lt_iff_toNat_lt.2 hlt,
      UInt64.le_iff_toNat_le.2 htarget, UInt64.le_iff_toNat_le.2 hheight⟩

def Request.target : Request → UInt64
  | .syncTarget endHeight => endHeight
  | _ => 0

theorem limitGuard_call_iff {limit : UInt64} {node : Node α} {request : Request} :
    request.target.toNat ≤ limit.toNat ↔ (limitGuard limit).call node request := by
  constructor
  · rintro h endHeight rfl
    exact h
  · intro h
    cases request with
    | syncTarget endHeight => exact h endHeight rfl
    | _ => exact Nat.zero_le _

instance (limit : UInt64) (node : Node α) (label : Label Answer Request) :
    Decidable ((limitGuard limit).Permits node label) :=
  (limitGuard limit).decidablePermits node (fun _ => .isTrue trivial)
    (fun _ => decidable_of_iff _ limitGuard_call_iff) (.isTrue trivial) label

namespace Retaining

def pruningEnv : Env (List Tx) :=
  { Reference.env with
    app := { Reference.application with
      commit := fun txs =>
        (txs, { (Reference.application.commit txs).2 with retainHeight := 2 }) } }

def produce (now : UInt64) (tx : Tx) (count : ℕ) : List (Label Answer Request) :=
  .call (Reference.produceAt now [tx]) :: List.replicate count (.step .ok)

def upToPruning : List (Label Answer Request) :=
  .boot :: List.replicate 4 (.step .ok) ++ .ret :: produce 5 [1] 32 ++ .ret :: produce 6 [2] 34 ++
    [.ret, .call (.syncTarget 2), .step .ok, .ret] ++ produce 7 [3] 37

def prunesFirst (config : Config (Node (List Tx)) Answer Error) : Bool :=
  match (system pruningEnv).step config (.step .ok) with
  | some next =>
    decide (config.state.height = 2 ∧ Loadable config.state.db 1 ∧ ¬ Loadable next.state.db 1)
  | none => false

theorem prunesFirst_iff {config : Config (Node (List Tx)) Answer Error} :
    prunesFirst config = true ↔ ∃ next, (system pruningEnv).step config (.step .ok) = some next ∧
        config.state.height = 2 ∧ Loadable config.state.db 1 ∧
        ¬ Loadable next.state.db 1 := by
  unfold prunesFirst
  cases (system pruningEnv).step config (.step .ok) <;> simp

end Retaining

/-- With a sync target of 2, the third block lets the first one be pruned; the
second one stays. -/
theorem pruning_leaves_needed_blocks_reference : ∃ config next,
      Reachable (system Retaining.pruningEnv) (limitGuard 2) (freshNode []) config ∧
        (system Retaining.pruningEnv).step config (.step .ok) = some next ∧
        Loadable config.state.db 1 ∧ ¬ Loadable next.state.db 1 ∧
        Loadable config.state.db 2 ∧
        ∃ committing,
          let retainHeight := (Retaining.pruningEnv.app.commit committing).2.retainHeight.toUInt64
          1 < retainHeight ∧ retainHeight ≤ config.state.syncTarget ∧
            retainHeight ≤ config.state.height := by
  have hrun : ∃ config, Reachable (system Retaining.pruningEnv) (limitGuard 2)
      (freshNode []) config ∧ Retaining.prunesFirst config = true :=
    exists_reachable_of_runGuarded Retaining.upToPruning (by decide +kernel)
  obtain ⟨config, hreach, hprunes⟩ := hrun
  obtain ⟨next, hstep, hheight, hbefore, hafter⟩ := Retaining.prunesFirst_iff.1 hprunes
  have hleaves := pruning_leaves_needed_blocks Retaining.pruningEnv [] 2
    Reference.hashesHeight hreach
  have hlast : Loadable config.state.db 2 :=
    hleaves.1 2 (by decide) (hheight ▸ UInt64.le_refl 2) (Or.inr hheight.symm)
  exact ⟨config, next, hreach, hstep, hbefore, hafter, hlast,
    hleaves.2 (.step .ok) next trivial hstep 1 hbefore hafter⟩

end Dymint.Manager
