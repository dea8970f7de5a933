import Dymint.Block.System
import Dymint.P2P.Gossip

/-!
# Where applying a block can panic

`applyBlock` runs next to other goroutines that change the same node, so its
steps may find any state in which the application reports hashes of 32 bytes.
Under these conditions the only panic left is the index into the signatures of a
commit.
-/

namespace Dymint.Manager

open Procedure Dymint.Types Store

variable {α β : Type}

/-- What the steps of a call rely on: the application that has committed a block
reports a hash of 32 bytes, and the height of the store can still grow. -/
structure Sane (node : Node α) : Prop where
  appHash : node.app.lastBlockHeight ≠ 0 → node.app.lastBlockAppHash.length = 32
  height : node.height + 1 ≠ 0

section

variable {inv : Node α → Prop}

variable {run : Node α → Node α × Result Error β} {onErr : Error → Error}

/-- A call panics only where its effect does. -/
theorem panicFree_callWith
    (hrun : ∀ node, (run node).2 ≠ .panic) : (callWith onErr run).PanicFree inv := by
  apply Proc.panicFree_op
  intro answer node
  cases answer with
  | ok =>
    have hnode := hrun node
    cases hresult : (run node).2 <;> simp_all [Result.mapErr]
  | failBefore | failAfter => simp

/-- What a call may return. -/
theorem mayReturn_callWith {value : β} :
    (callWith onErr run).MayReturn inv value ↔ ∃ node, inv node ∧ (run node).2 = .ok value := by
  constructor
  · intro hreturn
    rcases hreturn with ⟨answer, node, hnode, hvalue⟩
    cases answer with
    | ok =>
      refine ⟨node, hnode, ?_⟩
      have hmapped : (run node).2.mapErr onErr = .ok value := hvalue
      cases hresult : (run node).2 <;> simp_all [Result.mapErr]
    | failBefore | failAfter => cases hvalue
  · intro hreturn
    rcases hreturn with ⟨node, hnode, hvalue⟩
    refine ⟨.ok, node, hnode, ?_⟩
    change (run node).2.mapErr onErr = .ok value
    rw [hvalue]
    rfl

theorem mayReturn_read {view : Node α → β} {node : Node α} (hnode : inv node) :
    (Proc.read view : M α β).MayReturn inv (view node) :=
  ⟨.ok, node, hnode, rfl⟩

theorem panicFree_read (view : Node α → β) : (Proc.read view : M α β).PanicFree inv :=
  Proc.panicFree_op fun _ _ => by simp

theorem panicFree_write (update : Node α → Node α) : (Proc.write update : M α Unit).PanicFree inv :=
  Proc.panicFree_op fun _ _ => by simp

theorem panicFree_external : (external : M α Unit).PanicFree inv :=
  panicFree_callWith fun _ => by simp

theorem panicFree_commitBatch (onErr : Error → Error) (batch : WriteBatch) :
    (commitBatch onErr batch : M α Unit).PanicFree inv :=
  panicFree_callWith fun _ => by simp

theorem panicFree_updateStoreState (env : Env α) (onErr : Error → Error) (state : State) :
    (updateStoreState env onErr state).PanicFree inv := by
  apply panicFree_callWith
  intro node
  cases updateState env.tm state <;> simp

theorem panicFree_setHeight (height : UInt64) : (setHeight height : M α Unit).PanicFree inv := by
  apply (panicFree_read _).bind
  intro storeHeight
  split
  · exact panicFree_write _
  · exact Proc.panicFree_pure ()

theorem panicFree_setBase (height : UInt64) : (setBase height : M α Unit).PanicFree inv := by
  apply (panicFree_read _).bind
  intro baseHeight
  split
  · exact panicFree_write _
  · exact Proc.panicFree_pure ()

theorem panicFree_ofExcept (result : Except Error β) :
    (Proc.ofResult (.ofExcept result) : M α β).PanicFree inv :=
  Result.ofExcept_ne_panic result

/-! ## Executing and committing -/

variable (env : Env α)

theorem panicFree_deliverTxs (txs : List Tx) : (deliverTxs env txs).PanicFree inv := by
  induction txs with
  | nil => exact Proc.panicFree_pure []
  | cons tx txs ih =>
    apply Proc.PanicFree.bind
    · exact panicFree_callWith fun _ => by simp
    intro response
    apply ih.bind
    intro responses
    exact Proc.panicFree_pure _

/-- Executing a block does not panic, nor does storing or committing the result. -/
theorem panicFree_execute (state : State) (block : Block) :
    (execute env state block).PanicFree inv := by
  apply Proc.PanicFree.bind
  · exact panicFree_callWith fun _ => by simp
  intro beginBlock
  apply (panicFree_deliverTxs env _).bind
  intro responses
  apply Proc.PanicFree.bind
  · exact panicFree_callWith fun _ => by simp
  intro endBlock
  exact Proc.panicFree_pure _

theorem panicFree_persistExecution (block : Block) (responses : ABCIResponses) (newState : State) :
    (persistExecution env block responses newState).PanicFree inv := by
  apply panicFree_external.bind
  intro _
  apply (panicFree_write _).bind
  intro _
  apply (panicFree_read _).bind
  intro lastState
  apply (panicFree_ofExcept _).bind
  intro stateWrite
  apply panicFree_external.bind
  intro _
  apply (panicFree_read _).bind
  intro lastState
  apply (panicFree_ofExcept _).bind
  intro validatorsWrite
  apply panicFree_external.bind
  intro _
  exact panicFree_commitBatch _ _

theorem panicFree_commitBlock (state : State) (block : Block) (responses : ABCIResponses) :
    (commitBlock env state block responses).PanicFree inv := by
  apply panicFree_external.bind
  intro _
  apply Proc.PanicFree.bind
  · exact panicFree_callWith fun _ => by simp
  intro response
  apply panicFree_external.bind
  intro _
  apply Proc.PanicFree.bind
  · exact panicFree_callWith fun _ => by simp
  intro _
  exact Proc.panicFree_pure _

/-! ## Pruning -/

omit env

theorem loadBlockResponses_ne_panic (db : Db) (height : UInt64) :
    loadBlockResponses db height ≠ .panic := by
  unfold loadBlockResponses
  split <;> simp

theorem loadHashFromIndex_ne_panic (db : Db) (height : UInt64) :
    loadHashFromIndex db height ≠ .panic := by
  unfold loadHashFromIndex
  split
  · simp
  · split <;> simp

theorem panicFree_flush (batch : WriteBatch) (base : UInt64) :
    (flush batch base : M α Unit).PanicFree inv := by
  apply (panicFree_commitBatch _ _).bind
  intro _
  exact panicFree_setBase base

theorem panicFree_enterDeletions : (enterDeletions : M α Unit).PanicFree inv := by
  apply panicFree_external.bind
  intro _
  apply panicFree_external.bind
  intro _
  apply panicFree_external.bind
  intro _
  apply panicFree_external.bind
  intro _
  exact panicFree_external

/-- Pruning does not panic, whatever the index holds. -/
theorem panicFree_pruneLoop (count : ℕ) (height pruned : UInt64) (batch : WriteBatch) :
    (pruneLoop count height pruned batch : M α _).PanicFree inv := by
  induction count generalizing height pruned batch with
  | zero => exact Proc.panicFree_pure _
  | succ count ih =>
    apply Proc.PanicFree.bind
    · exact (panicFree_callWith fun _ =>
        loadHashFromIndex_ne_panic _ _).attempt
    intro loaded
    cases loaded with
    | error error => exact ih _ _ _
    | ok hash =>
      apply panicFree_enterDeletions.bind
      intro _
      dsimp only
      split
      · apply (panicFree_flush _ _).bind
        intro _
        exact ih _ _ _
      · exact ih _ _ _

theorem panicFree_storePruneBlocks (heightInt : Int64) :
    (storePruneBlocks heightInt : M α UInt64).PanicFree inv := by
  unfold storePruneBlocks
  split
  case isTrue => exact Proc.panicFree_fail _
  apply (panicFree_read _).bind
  intro latest
  split
  case isTrue => exact Proc.panicFree_fail _
  apply (panicFree_read _).bind
  intro base
  split
  case isTrue => exact Proc.panicFree_fail _
  apply (panicFree_pruneLoop _ _ _ _).bind
  intro pruned
  apply (panicFree_flush _ _).bind
  intro _
  exact Proc.panicFree_pure _

theorem panicFree_pruneOnRequest (retainHeight : Int64) :
    (pruneOnRequest retainHeight : M α Unit).PanicFree inv := by
  have hprune : (pruneBlocks retainHeight : M α UInt64).PanicFree inv := by
    apply (panicFree_read _).bind
    intro syncTarget
    split
    · exact Proc.panicFree_fail _
    · exact panicFree_storePruneBlocks retainHeight
  unfold pruneOnRequest
  split
  · apply hprune.attempt.bind
    intro _
    exact Proc.panicFree_pure ()
  · exact Proc.panicFree_pure ()

end

/-! ## Applying a block -/

section

variable (env : Env α) {inv : Node α → Prop} (block : Block) (commit : Commit)

theorem panicFree_finishBlock (newState : State) :
    (finishBlock env block newState).PanicFree inv := by
  apply (panicFree_read _).bind
  intro lastState
  apply (panicFree_read _).bind
  intro base
  apply (panicFree_updateStoreState env _ _).bind
  intro _
  apply (panicFree_write _).bind
  intro _
  exact panicFree_setHeight _

theorem panicFree_commitExecutedBlock (responses : ABCIResponses) :
    (commitExecutedBlock env block responses).PanicFree inv := by
  apply (panicFree_read _).bind
  intro lastState
  apply (panicFree_persistExecution env _ _ _).bind
  intro _
  apply (panicFree_commitBlock env _ _ _).bind
  intro committed
  apply (panicFree_pruneOnRequest _).bind
  intro _
  exact panicFree_finishBlock env block _

/-- Alignment copies the hash of the application, which has 32 bytes. -/
theorem panicFree_alignStoreWithApp (hne : block.header.height ≠ 0) :
    (alignStoreWithApp env block).PanicFree Sane := by
  apply Proc.panicFree_bind.2
  constructor
  · exact panicFree_callWith fun _ => by simp
  intro proxyAppInfo hinfo
  split
  case isTrue => exact Proc.panicFree_pure false
  case isFalse happ =>
    have hlength : proxyAppInfo.lastBlockAppHash.length = 32 := by
      rcases mayReturn_callWith.1 hinfo with ⟨node, hsane, hvalue⟩
      obtain rfl := Result.ok.inj hvalue
      apply hsane.appHash
      intro hzero
      apply happ
      intro hheight
      apply hne
      rw [← hheight]
      exact congrArg Int64.toUInt64 hzero
    rw [FixedBytes.ofSlice?_of_length hlength]
    apply (panicFree_write _).bind
    intro _
    apply (panicFree_write _).bind
    intro _
    apply (panicFree_write _).bind
    intro _
    apply Proc.PanicFree.bind
    · exact panicFree_callWith fun _ => loadBlockResponses_ne_panic _ _
    intro responses
    apply (panicFree_write _).bind
    intro _
    apply (panicFree_read _).bind
    intro state
    apply (panicFree_updateStoreState env _ _).bind
    intro _
    apply (panicFree_setHeight _).bind
    intro _
    exact Proc.panicFree_pure true

/-- If `Validate` gets to the signatures of a commit of height 0, there is one. -/
def Checkable (env : Env α) (block : Block) (commit : Commit) : Prop :=
  block.header.height ≠ 0 → block.validateBasic = .ok () →
    (∃ bytes, env.tm.marshalHeader (toABCIHeaderPB env.tm block.header) = .ok bytes) →
      commit.height = 0 → commit.signatures ≠ []

variable {proposer : Sequencer} (hproposer : env.getProposer = some proposer)

include hproposer

/-- With a proposer, `applyBlock` panics on no pair that can be checked. -/
theorem panicFree_applyBlock (hcheckable : Checkable env block commit) :
    (applyBlock env block commit).PanicFree Sane := by
  apply Proc.panicFree_bind.2
  constructor
  · exact panicFree_read _
  intro height hheight
  split
  case isTrue => exact Proc.panicFree_pure ()
  case isFalse hgate =>
    have hne : block.header.height ≠ 0 := by
      rcases hheight with ⟨_, node, hsane, hnode⟩
      obtain rfl := Result.ok.inj hnode
      rw [not_not.1 hgate]
      exact hsane.height
    apply (panicFree_alignStoreWithApp env block hne).bind
    intro isAlignRequired
    split
    case isTrue => exact Proc.panicFree_pure ()
    apply (panicFree_commitBatch _ _).bind
    intro _
    apply Proc.PanicFree.bind
    · apply (panicFree_read _).bind
      intro lastState
      apply Proc.PanicFree.bind
      · change Executor.validate _ _ _ _ _ ≠ .panic
        rw [hproposer, P2P.validate_returns_iff]
        intro hblock
        have hbasic := (Executor.validateBlock_eq_ok.1 hblock).1
        exact hcheckable hne hbasic
      intro _
      apply (panicFree_read _).bind
      intro lastState
      exact panicFree_execute env lastState block
    intro responses
    exact panicFree_commitExecutedBlock env block responses

/-- A state with which `Validate` accepts the block. -/
def acceptingState (block : Block) : State :=
  { (default : State) with
    version := ⟨⟨block.header.version.block, block.header.version.app⟩, ""⟩
    initialHeight := block.header.height.toInt64
    appHash := block.header.appHash
    lastResultsHash := block.header.lastResultsHash }

omit hproposer in
theorem validateBlock_acceptingState (hbasic : block.validateBasic = .ok ()) :
    Executor.validateBlock (acceptingState block) block = .ok () := by
  apply Executor.validateBlock_eq_ok.2
  have hinitial : block.header.height = (acceptingState block).initialHeight.toUInt64 :=
    (UInt64.toUInt64_toInt64 _).symm
  have hzero : ¬ (0 : Int64) > 0 := by decide
  exact ⟨hbasic, rfl, rfl, fun _ => hinitial, fun hpos => absurd hpos hzero, rfl, rfl⟩

/-- A node that waits for the block. -/
def awaiting (app : α) (block : Block) : Node α :=
  { freshNode app with
    height := block.header.height - 1
    lastState := acceptingState block }

omit hproposer in
theorem awaiting_sane (app : α) (hne : block.header.height ≠ 0) : Sane (awaiting app block) where
  appHash h := absurd rfl h
  height := by
    change block.header.height - 1 + 1 ≠ 0
    rw [UInt64.sub_add_cancel]
    exact hne

/-- A pair that cannot be checked makes `applyBlock` panic in some state. -/
theorem checkable_of_panicFree (app : α) (hfree : (applyBlock env block commit).PanicFree Sane) :
    Checkable env block commit := by
  intro hne hbasic hbytes hheight
  have hsane := awaiting_sane block app hne
  have hgate : block.header.height = (awaiting app block).height + 1 :=
    (UInt64.sub_add_cancel _ _).symm
  have hnext := (Proc.panicFree_bind.1 hfree).2 _ (mayReturn_read hsane)
  rw [if_neg (not_not.2 hgate)] at hnext
  have hinfo : (getAppInfo (.wrap "failed to get app info")).MayReturn Sane
      ⟨(awaiting app block).app.lastBlockHeight, (awaiting app block).app.lastBlockAppHash⟩ :=
    mayReturn_callWith.2 ⟨_, hsane, rfl⟩
  have halign : (alignStoreWithApp env block).MayReturn Sane false := by
    apply hinfo.bind
    rw [if_pos]
    · rfl
    · exact hne.symm
  have happly := (Proc.panicFree_bind.1 hnext).2 false halign
  have hsave : (commitBatch (.wrap "failed to commit db batch")
      (saveBlock env.tm block commit)).MayReturn Sane () :=
    mayReturn_callWith.2 ⟨_, hsane, rfl⟩
  have hexecute := (Proc.panicFree_bind.1 ((Proc.panicFree_bind.1 happly).2 () hsave)).1
  have hvalidate := (Proc.panicFree_bind.1
    ((Proc.panicFree_bind.1 hexecute).2 _ (mayReturn_read hsane))).1
  have hreturns : Executor.validate env.tm (acceptingState block) block commit
      (some proposer) ≠ .panic := by
    rw [← hproposer]
    exact hvalidate
  exact (P2P.validate_returns_iff _ _ _ _ _).1 hreturns
    (validateBlock_acceptingState block hbasic) hbytes hheight

/-- `applyBlock` is free of panics on exactly the pairs that can be checked. -/
theorem panicFree_applyBlock_iff (app : α) : (applyBlock env block commit).PanicFree Sane ↔
      Checkable env block commit :=
  ⟨checkable_of_panicFree env block commit hproposer app,
    panicFree_applyBlock env block commit hproposer⟩

omit hproposer in
/-- It returns in some state, so that the freedom of panics is not void. -/
theorem mayReturn_applyBlock (app : α) : (applyBlock env block commit).MayReturn Sane () := by
  obtain ⟨height, hother, hgrow⟩ : ∃ height : UInt64,
      block.header.height ≠ height + 1 ∧ height + 1 ≠ 0 := by
    by_cases hone : block.header.height = 1
    · exact ⟨1, by rw [hone]; decide, by decide⟩
    · exact ⟨0, hone, by decide⟩
  have hsane : Sane { freshNode app with height := height } := ⟨fun h => absurd rfl h, hgrow⟩
  apply (mayReturn_read hsane).bind
  rw [if_pos hother]
  rfl

end

end Dymint.Manager
