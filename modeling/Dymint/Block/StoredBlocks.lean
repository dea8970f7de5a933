import Dymint.Block.Records
import Mathlib.Data.Nat.SuccPred

/-!
# Which blocks are stored

`applyBlock` saves a block before it validates it.  So a rejected block at the
next height stays in the store, where `produceBlock` finds it as the pending
block, and nothing else in the store changes.  The application sees a block only
after its validation.
-/

namespace Dymint.Manager

open Procedure Dymint.Types Store CrashSystem

variable {α : Type}

/-! ## The index -/

def IndexedBlocks (env : Env α) (db : Db) (_ : UInt64) : Prop := Indexed env.tm db.blockRecords

theorem indexed_maintained (env : Env α) :
    Maintained env noLimit (fun _ _ => True) (IndexedBlocks env) where
  records _ _ _ hindexed hrecords := by
    rw [IndexedBlocks, hrecords]
    exact hindexed
  prune hindexed _ _ _ := hindexed.shrinks (shrinks_pruneAll _ _)
  save hindexed _ _ := indexed_saveBlock _ _ hindexed
  accept hindexed _ _ := indexed_saveBlock _ _ hindexed

/-- In every run, the index belongs to the blocks it leads to. -/
theorem indexed_certificate (env : Env α) (app : α) (guard : Guard (Node α) Answer Request) :
    Certificate (system env) guard (freshNode app)
      (fun node => node.core.Idle True ∧ node.Kept (IndexedBlocks env))
      (fun node => node.core.Always True ∧ node.Kept (IndexedBlocks env))
      (fun node => node.core.Down True ∧ node.Kept (IndexedBlocks env)) where
  start := by
    refine ⟨freshNode_down app, fun height bytes hbytes => ?_⟩
    cases hbytes
  always_of_durable _ h := ⟨h.1.always, h.2⟩
  always_of_idle _ h := ⟨h.1.always, h.2⟩
  crash _ h _ := ⟨crash_core h.1, h.2⟩
  boot _ h := Proc.wp_ends_and (wp_newManager env (fun _ h => h) (fun _ _ _ => Or.inr trivial) h.1)
    (Proc.wp_ends_const ((indexed_maintained env).records.wp_newManager (fun _ h => h) h.2))
    fun _ => And.intro
  serve node request h _ := by
    have hinv : ServeInvariant env (guard.rules _)
        (fun node => node.core.Idle True ∧ node.Kept (IndexedBlocks env))
        (fun node => node.core.Always True ∧ node.Kept (IndexedBlocks env)) :=
      { crash := fun _ h => h
        always_of_idle := fun _ h => ⟨h.1.always, h.2⟩
        gossip := fun _ _ _ h => h
        applyBlock := fun node block commit h =>
          wp_applyBlock_keeping (fun _ h => h) (fun _ h => ⟨h.1.always, h.2⟩)
            (height_lt_next h.1) h fun _ _ hnext hlater =>
              ⟨hlater.idle h.1 hnext, (hlater.keptAt_of (indexed_maintained env)
                (toNat_le_noLimit _) (toNat_next h.1.always hnext ▸ Nat.lt_succ_self _)
                (fun _ => h.2) (fun _ => h.2) (fun _ => indexed_saveBlock _ _ h.2)
                fun _ => indexed_saveBlock _ _ h.2).kept⟩
        updateStateIndex := fun node index h =>
          Proc.wp_ends_and (wp_updateStateIndex env index (fun _ h => h) h.1)
            (Proc.wp_ends_const ((indexed_maintained env).records.wp_updateStateIndex index
              (fun _ h => h) h.2))
            fun _ => And.intro }
    exact hinv.serve request (fun _ _ => h) h

/-! ## Rejected blocks -/

def Point.BlocksKept (env : Env α) (block : Block) (commit : Commit)
    (start later : Node α) : Point → Prop
  | .start | .hashed | .recorded | .rotated | .resulted | .caughtUp | .aligned =>
    later.db.blockRecords = start.db.blockRecords
  | .saved => later.db.blockRecords =
      (start.db.commit (saveBlock env.tm block commit)).blockRecords
  | _ => start.app.calls.length < later.app.calls.length

theorem During.blocksKept {env : Env α} {block : Block} {commit : Commit} {start later : Node α}
    {point : Point} (hduring : During env block commit start point later) :
    point.BlocksKept env block commit start later := by
  induction hduring with
  | start | hashed | saved => rfl
  | begun hnow _ _ =>
    obtain rfl := hnow.eq_saved
    simp [Point.BlocksKept, AppConn.log]
  | delivered _ ih | ended _ ih | committed _ ih =>
    exact ih.trans (by simp [AppConn.commit, AppConn.log])
  | caughtUp _ _ ih => exact (blockRecords_stateWrite ..).trans ih
  | _ => assumption

def Rejection (env : Env α) (block : Block) (commit : Commit)
    (node later : Node α) : Prop :=
  node.app.calls.length < later.app.calls.length ∨ later.db.blockRecords = node.db.blockRecords ∨
    (block.header.height = node.height + 1 ∧
      node.app.lastBlockHeight.toUInt64 ≠ block.header.height ∧
      later.db.blockRecords = (node.db.commit (saveBlock env.tm block commit)).blockRecords)

theorem During.rejection {env : Env α} {block : Block} {commit : Commit} {start later : Node α}
    {point : Point} (hduring : During env block commit start point later)
    (hnext : block.header.height = start.height + 1) : Rejection env block commit start later := by
  have hkept := hduring.blocksKept
  cases point with
  | start | hashed | recorded | rotated | resulted | caughtUp | aligned =>
    exact Or.inr (Or.inl hkept)
  | saved => exact Or.inr (Or.inr ⟨hnext, hduring.reached, hkept⟩)
  | _ => exact Or.inl hkept

section

variable {node : Node α} {block : Block}

/-- What a call leaves of the stored blocks, and what the application has seen by then. -/
theorem exec_applyBlock_rejection (hlt : node.height < node.height + 1) (env : Env α)
    (block : Block) (commit : Commit) (answers : ℕ → Answer) :
    let outcome := (applyBlock env block commit).exec answers node
    Rejection env block commit node outcome.1 ∧ (outcome.1.app.calls ≠ node.app.calls →
        Executor.validate env.tm node.lastState block commit env.getProposer = .ok ()) := by
  have hwp : (applyBlock env block commit).wp (Proc.Rules.anyAnswer Answer fun _ => True)
      (Proc.Ends (fun _ => fun later => Rejection env block commit node later ∧
          (later.app.calls ≠ node.app.calls →
            Executor.validate env.tm node.lastState block commit env.getProposer = .ok ()))
        _ _) node :=
    wp_applyBlock_keeping (fun _ _ => trivial) (fun _ h => h) hlt
      ⟨Or.inr (Or.inl rfl), fun hne => absurd rfl hne⟩
      fun _ _ hnext hlater => ⟨hlater.rejection hnext, fun hne =>
        hlater.app_eq_or_valid.resolve_left fun heq => hne (congrArg AppConn.calls heq)⟩
  exact (Proc.exec_of_wp hwp answers fun _ _ => trivial).kept

/-- The answers with which a call fails right after `SaveBlock` has committed its
batch. -/
def failsAfterSave (step : ℕ) : Answer := [.ok, .ok, .failAfter].getD step .ok

theorem exec_applyBlock_failsAfterSave (env : Env α) (commit : Commit)
    (hnext : block.header.height = node.height + 1)
    (happ : node.app.lastBlockHeight.toUInt64 ≠ block.header.height) :
    (applyBlock env block commit).exec failsAfterSave node =
      ({ node with db := node.db.commit (saveBlock env.tm block commit) },
        .err (.wrap "failed to commit db batch" .fault)) := by
  have hgate : (applyBlock env block commit).exec failsAfterSave node =
      (if block.header.height ≠ node.height + 1 then return () else do
        let isAlignRequired ← alignStoreWithApp env block
        if isAlignRequired then return ()
        else applyNextBlock env block commit : M α Unit).exec
          (fun step => failsAfterSave (step + 1)) node := rfl
  have halign : (do
      let isAlignRequired ← alignStoreWithApp env block
      if isAlignRequired then return ()
      else applyNextBlock env block commit : M α Unit).exec
        (fun step => failsAfterSave (step + 1)) node =
      ((if node.app.lastBlockHeight.toUInt64 ≠ block.header.height then pure false
        else _ : M α Bool) >>= fun isAlignRequired =>
          if isAlignRequired then return ()
          else applyNextBlock env block commit).exec
            (fun step => failsAfterSave (step + 2)) node := rfl
  rw [hgate, if_neg (not_not.2 hnext), halign, if_pos happ]
  rfl

end

namespace ForgedBlock

open Manager.Reference

/-- A block of the next height that anyone can put together. -/
def block : Block :=
  Executor.createBlock env.tm env.exec 1 ⟨0, FixedBytes.zero 32, [], default⟩ (FixedBytes.zero 32)
    { (newFromGenesisDoc env.tm env.genesis) with
      validators := Types.Reference.validatorSet } [[6, 6, 6]] 5

def commit : Commit := ⟨1, block.header.hash env.tm, [[6]], default⟩

/-- What the forged block does to a node: `Validate` rejects it, the call
returns that error, the block is stored all the same, and the next call of
`produceBlock` gossips it as the node's own. -/
def Stays (node : Node (List Tx)) : Prop :=
  let rejected := (applyBlock env block commit).exec (fun _ => .ok) node
  let produced := (produceBlock env (produceInput 9 [[1]])).exec (fun _ => .ok) rejected.1
  Executor.validate env.tm node.lastState block commit env.getProposer = .err .errInvalidSignature ∧
    rejected.2 = .err .errInvalidSignature ∧
    rejected.1.app.calls = node.app.calls ∧
    loadBlock node.db 1 ≠ .ok block ∧
    loadBlock rejected.1.db 1 = .ok block ∧
    loadBlockByHash rejected.1.db (block.header.hash env.tm) = .ok block ∧
    produced.1.gossiped = [(block, commit)]

instance : DecidablePred Stays := fun _ => inferInstanceAs (Decidable (_ ∧ _))

end ForgedBlock

open Reference

end Dymint.Manager
