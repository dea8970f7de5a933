import Dymint.Block.Produce
import Dymint.Block.Retriever
import Dymint.Store.Blocks

/-!
# Specifications and frames of the manager's steps

The rules for one call into an outside component, and what the longer steps of
`applyBlock` leave unchanged: executing a block touches the application's
working state only, and pruning touches records of blocks and the base height.
-/

namespace Dymint.Manager

open Procedure Dymint.Types Store

variable {α β : Type} {rules : Proc.Rules (Node α) Answer}

theorem forall_answer {p : Answer → Prop} :
    (∀ answer, p answer) ↔ p .ok ∧ p .failBefore ∧ p .failAfter := by
  constructor
  · intro h
    exact ⟨h .ok, h .failBefore, h .failAfter⟩
  · rintro ⟨hok, hbefore, hafter⟩ answer
    cases answer <;> assumption

variable {onErr : Error → Error} {run : Node α → Node α × Result Error β}
variable {node : Node α}

theorem wp_callWith {post : Result Error β → Node α → Prop} :
    (callWith onErr run).wp rules post node ↔
      rules.crash node ∧ (rules.allowed node .ok → post ((run node).2.mapErr onErr) (run node).1) ∧
        (rules.allowed node .failBefore → post (.err (onErr .fault)) node) ∧
        (rules.allowed node .failAfter → post (.err (onErr .fault)) (run node).1) := by
  rw [callWith, Proc.wp_op, forall_answer]

/-- Any step may fail, and nothing is asked of the moments in between. -/
abbrev anyStep : Proc.Rules (Node α) Answer := .anyAnswer Answer fun _ => True

theorem wp_anyStep_and {proc : M α β} {post post' : Result Error β → Node α → Prop}
    (hpost : proc.wp anyStep post node) (hpost' : proc.wp anyStep post' node) :
    proc.wp anyStep (fun result later => post result later ∧ post' result later) node :=
  Proc.wp_and hpost hpost' (fun _ _ _ => ⟨trivial, trivial⟩) fun _ _ _ => trivial

section

variable {γ : Type} {rest : β → M α γ} {post : Result Error γ → Node α → Prop}
variable {node : Node α}

section

variable (hcrash : rules.crash node)

include hcrash

theorem wp_read_bind {view : Node α → β}
    (hrest : (rest (view node)).wp rules post node) :
    (Proc.read view >>= rest).wp rules post node :=
  ⟨hcrash, fun _ _ => hrest⟩

theorem wp_write_bind {rest : Unit → M α γ} {update : Node α → Node α}
    (hrest : (rest ()).wp rules post (update node)) :
    (Proc.write update >>= rest).wp rules post node :=
  ⟨hcrash, fun _ _ => hrest⟩

theorem wp_getLastState_bind {rest : State → M α γ}
    (hrest : (rest node.lastState).wp rules post node) :
    (getLastState >>= rest).wp rules post node :=
  wp_read_bind hcrash hrest

theorem wp_modifyLastState_bind {rest : Unit → M α γ} {update : State → State}
    (hrest : (rest ()).wp rules post (node.mapState update)) :
    (modifyLastState update >>= rest).wp rules post node :=
  wp_write_bind hcrash hrest

end

/-- A call that cannot fail by itself, followed by the rest of a procedure.
What holds after an error before or after its effect is asked for once. -/
theorem wp_callWith_bind
    (hcall : (callWith onErr run).wp rules (Proc.andThen rules rest post) node) :
    (callWith onErr run >>= rest).wp rules post node :=
  (Proc.wp_bind _ _ _ _).2 hcall

end

/-- `UpdateState` stores a message of the state or leaves the database alone.
-/
theorem wp_updateStoreState {env : Env α} {state : State}
    {post : Result Error Unit → Node α → Prop} (hcrash : rules.crash node)
    (hkept : ∀ error, post (.err error) node)
    (hstored : ∀ pb, state.toProto env.tm = .ok pb → ∀ result, result ≠ .panic →
      post result { node with db := node.db.apply ⟨.state, some pb⟩ }) :
    (updateStoreState env onErr state).wp rules post node := by
  rw [updateStoreState, wp_callWith]
  cases hstate : updateState env.tm state with
  | error error => exact ⟨hcrash, fun _ => hkept _, fun _ => hkept _, fun _ => hkept _⟩
  | ok write =>
    obtain ⟨pb, hpb, rfl⟩ := updateState_eq_ok.1 hstate
    have hresult := hstored pb hpb
    exact ⟨hcrash, fun _ => hresult _ (by simp [Result.mapErr]),
      fun _ => hkept _, fun _ => hresult _ (by simp)⟩

variable {height : UInt64}

/-- Run by itself, `SetHeight` raises the height. -/
theorem wp_setHeight {post : Result Error Unit → Node α → Prop}
    (hcrash : rules.crash node) (hlt : node.height < height)
    (hpost : post (.ok ()) { node with height := height }) :
    (setHeight height).wp rules post node := by
  apply wp_read_bind hcrash
  rw [if_pos hlt]
  refine ⟨hcrash, fun _ _ => ?_⟩
  simpa using hpost

/-! ## Frames -/

variable {rel : Node α → Node α → Prop} {count : ℕ} {batch : WriteBatch}

section

variable {ν : Type*} {view : Node α → ν}

theorem follows_callWith (hrefl : ∀ node, rel node node) (hrun : ∀ node, rel node (run node).1) :
    (callWith onErr run).Follows rel fun _ => True := by
  apply Proc.follows_op
  intro answer node
  cases answer with
  | ok | failAfter => exact hrun node
  | failBefore => exact hrefl node

theorem keeps_callWith (hrun : ∀ node, view (run node).1 = view node) :
    (callWith onErr run).Keeps view :=
  follows_callWith (fun _ => rfl) hrun

theorem keeps_query (onErr : Error → Error) (load : Db → Result Error β) :
    (query onErr load : M α β).Keeps view :=
  keeps_callWith fun _ => rfl

theorem keeps_external : (external : M α Unit).Keeps view := keeps_callWith fun _ => rfl

theorem keeps_storeHeight : (storeHeight : M α UInt64).Keeps view := Proc.keeps_read _

theorem keeps_storeBase : (storeBase : M α UInt64).Keeps view := Proc.keeps_read _

theorem keeps_getLastState : (getLastState : M α State).Keeps view := Proc.keeps_read _

def IgnoresCalls (view : Node α → ν) : Prop :=
  ∀ (node : Node α) (working : α) (entry : AbciCall), (∀ height, entry ≠ .commit height) →
    view { node with app := { node.app with working := working }.log entry } = view node

/-- The view does not look at what executing a block changes. -/
structure IgnoresExecution (view : Node α → ν) : Prop where
  calls : IgnoresCalls view
  workingHeight : ∀ (node : Node α) (height : Int64),
    view { node with app := { node.app with workingHeight := height } } = view node

theorem keeps_beginBlockSync (env : Env α) (hview : IgnoresExecution view)
    (request : RequestBeginBlock) :
    (beginBlockSync env request).Keeps view := by
  apply keeps_callWith
  intro node
  have hheight := hview.workingHeight node request.header.height
  rw [← hheight]
  exact hview.calls
    { node with
      app := { node.app with workingHeight := request.header.height } }
    (env.app.beginBlock node.app.working request).1 _ (by simp)

theorem keeps_deliverTxs (env : Env α) (hview : IgnoresCalls view)
    (txs : List Tx) : (deliverTxs env txs).Keeps view := by
  induction txs with
  | nil => exact Proc.keeps_pure _
  | cons tx txs ih =>
    apply Proc.Keeps.bind
    · exact keeps_callWith fun node => hview node _ _ (by simp)
    · intro response
      exact Proc.Keeps.bind ih fun _ => Proc.keeps_pure _

theorem keeps_endBlockSync (env : Env α) (hview : IgnoresCalls view)
    (height : Int64) : (endBlockSync env height).Keeps view :=
  keeps_callWith fun node => hview node _ _ (by simp)

theorem keeps_execute (env : Env α) (hview : IgnoresExecution view)
    (state : State) (block : Block) : (execute env state block).Keeps view := by
  refine Proc.Keeps.bind (keeps_beginBlockSync env hview _) fun _ => ?_
  refine Proc.Keeps.bind (keeps_deliverTxs env hview.calls _) fun _ => ?_
  refine Proc.Keeps.bind (keeps_endBlockSync env hview.calls _) fun _ => ?_
  exact Proc.keeps_pure _

theorem keeps_executeBlock (env : Env α) (hview : IgnoresExecution view)
    (block : Block) (commit : Commit) :
    (executeBlock env block commit).Keeps view := by
  refine Proc.Keeps.bind keeps_getLastState fun _ => ?_
  refine Proc.Keeps.bind (Proc.follows_ofResult _) fun _ => ?_
  refine Proc.Keeps.bind keeps_getLastState fun _ => ?_
  exact keeps_execute env hview _ block

def IsPruning (batch : WriteBatch) : Prop := ∀ write ∈ batch, write.2 = none ∧ write.1 ≠ .state

structure AllowsBatches (only : WriteBatch → Prop)
    (rel : Node α → Node α → Prop) : Prop where
  refl : ∀ node, rel node node
  batch : ∀ (node : Node α) (batch : WriteBatch), only batch →
    rel node { node with db := node.db.commit batch }
  base : ∀ (node : Node α) (base : UInt64), rel node { node with baseHeight := base }

abbrev AllowsPruning (rel : Node α → Node α → Prop) : Prop := AllowsBatches IsPruning rel

/-- Batches of this kind are made of the deletions for `count` heights from
`height` on. -/
structure CoversHeights (only : WriteBatch → Prop) (height : UInt64)
    (count : ℕ) : Prop where
  nil : only []
  append : ∀ offset < count, ∀ batch hash, only batch →
    only (batch ++ pruneHeight (height + UInt64.ofNat offset) hash)

theorem CoversHeights.next {only : WriteBatch → Prop}
    (hcovers : CoversHeights only height (count + 1)) :
    CoversHeights only (height + 1) count where
  nil := hcovers.nil
  append offset hoffset batch hash hbatch := by
    have hnext := hcovers.append (offset + 1) (by omega) batch hash hbatch
    have heq : height + UInt64.ofNat (offset + 1) = height + 1 + UInt64.ofNat offset := by
      rw [UInt64.ofNat_add, UInt64.add_assoc, UInt64.add_comm 1]
      rfl
    rw [← heq]
    exact hnext

theorem CoversHeights.first {only : WriteBatch → Prop}
    (hcovers : CoversHeights only height (count + 1)) (hbatch : only batch)
    (hash : Hash) :
    only (batch ++ pruneHeight height hash) := by
  have hfirst := hcovers.append 0 (by omega) batch hash hbatch
  rw [show height + UInt64.ofNat 0 = height from UInt64.add_zero height] at hfirst
  exact hfirst

section

variable {rel : Node α → Node α → Prop} {only : WriteBatch → Prop}

theorem follows_read (hrefl : ∀ node, rel node node) (project : Node α → β) :
    (Proc.read project : M α β).Follows rel fun _ => True :=
  Proc.follows_op fun _ node => hrefl node

theorem follows_external (hrefl : ∀ node, rel node node) :
    (external : M α Unit).Follows rel fun _ => True :=
  follows_callWith hrefl hrefl

theorem follows_setBase (hrel : AllowsBatches only rel) (height : UInt64) :
    (setBase height : M α Unit).Follows rel fun _ => True := by
  apply Proc.Follows.bind (follows_read hrel.refl _)
  intro base _
  split
  · apply Proc.follows_op
    intro _ node
    dsimp only
    split
    · exact hrel.base node height
    · exact hrel.refl node
  · exact Proc.follows_pure trivial

theorem follows_flush (hrel : AllowsBatches only rel) (hbatch : only batch) (base : UInt64) :
    (flush batch base : M α Unit).Follows rel fun _ => True := by
  apply Proc.Follows.bind (follows_callWith hrel.refl fun node => hrel.batch node batch hbatch)
  intro _ _
  exact follows_setBase hrel base

theorem follows_enterDeletions (hrefl : ∀ node, rel node node) :
    (enterDeletions : M α Unit).Follows rel fun _ => True := by
  have hexternal := follows_external hrefl
  apply Proc.Follows.bind hexternal
  intro _ _
  apply Proc.Follows.bind hexternal
  intro _ _
  apply Proc.Follows.bind hexternal
  intro _ _
  apply Proc.Follows.bind hexternal
  intro _ _
  exact hexternal

theorem isPruning_append {left right : WriteBatch} (hleft : IsPruning left)
    (hright : IsPruning right) : IsPruning (left ++ right) := by
  intro write hwrite
  rcases List.mem_append.1 hwrite with h | h
  · exact hleft write h
  · exact hright write h

theorem isPruning_pruneHeight (height : UInt64) (hash : Hash) :
    IsPruning (pruneHeight height hash) := by
  intro write hwrite
  simp only [pruneHeight, List.mem_cons, List.not_mem_nil, or_false] at hwrite
  rcases hwrite with rfl | rfl | rfl | rfl | rfl <;> simp

theorem isPruning_covers (height : UInt64) (count : ℕ) : CoversHeights IsPruning height count where
  nil := by simp [IsPruning]
  append _ _ _ hash hbatch := isPruning_append hbatch (isPruning_pruneHeight _ hash)

theorem follows_pruneLoop (hrel : AllowsBatches only rel)
    (hcovers : CoversHeights only height count) (pruned : UInt64)
    (hbatch : only batch) :
    (pruneLoop count height pruned batch : M α _).Follows rel
      fun result => only result.2 := by
  induction count generalizing height pruned batch with
  | zero => exact Proc.follows_pure hbatch
  | succ count ih =>
    apply Proc.Follows.bind (Proc.Follows.attempt (follows_callWith hrel.refl hrel.refl))
    intro found _
    cases found with
    | error error => exact ih hcovers.next _ hbatch
    | ok hash =>
      have hlonger := hcovers.first hbatch hash
      apply Proc.Follows.bind (follows_enterDeletions hrel.refl)
      intro _ _
      dsimp only
      split
      · apply Proc.Follows.bind (follows_flush hrel hlonger height)
        intro _ _
        exact ih hcovers.next _ hcovers.nil
      · exact ih hcovers.next _ hlonger

/-- The part of `PruneBlocks` after its checks. -/
theorem follows_pruneRange (hrel : AllowsBatches only rel) {base : UInt64}
    (hcovers : CoversHeights only base (height.toNat - base.toNat)) :
    (do let (pruned, batch) ← pruneLoop (height.toNat - base.toNat) base 0 []
        flush batch height
        return pruned : M α UInt64).Follows rel fun _ => True := by
  apply Proc.Follows.bind (follows_pruneLoop hrel hcovers 0 hcovers.nil)
  intro result hresult
  apply Proc.Follows.bind (follows_flush hrel hresult _)
  intro _ _
  exact Proc.follows_pure trivial

theorem follows_storePruneBlocks (hrel : AllowsPruning rel) (height : Int64) :
    (storePruneBlocks height : M α UInt64).Follows rel fun _ => True := by
  unfold storePruneBlocks
  split
  · exact Proc.follows_fail _
  apply Proc.Follows.bind (follows_read hrel.refl _)
  intro latest _
  split
  · exact Proc.follows_fail _
  apply Proc.Follows.bind (follows_read hrel.refl _)
  intro base _
  split
  · exact Proc.follows_fail _
  exact follows_pruneRange hrel (isPruning_covers base _)

theorem follows_pruneBlocks (hrel : AllowsPruning rel) (height : Int64) :
    (pruneBlocks height : M α UInt64).Follows rel fun _ => True := by
  apply Proc.Follows.bind (follows_read hrel.refl _)
  intro syncTarget _
  split
  · exact Proc.follows_fail _
  · exact follows_storePruneBlocks hrel height

theorem follows_pruneOnRequest (hrel : AllowsPruning rel) (height : Int64) :
    (pruneOnRequest height : M α Unit).Follows rel fun _ => True := by
  unfold pruneOnRequest
  split
  · apply Proc.Follows.bind (Proc.Follows.attempt (follows_pruneBlocks hrel height))
    intro _ _
    exact Proc.follows_pure trivial
  · exact Proc.follows_pure trivial

end

theorem keeps_loadLast (env : Env α) (height : UInt64) : (loadLast env height).Keeps view := by
  unfold loadLast
  split
  · exact Proc.keeps_pure _
  · apply Proc.Keeps.bind (keeps_query _ _)
    intro lastCommit
    apply Proc.Keeps.bind (keeps_query _ _)
    intro lastBlock
    exact Proc.keeps_pure _

theorem keeps_createSignedBlock (env : Env α) (input : ProduceInput)
    (newHeight : UInt64) (lastCommit : Commit) (lastHeaderHash : Hash) :
    (createSignedBlock env input newHeight lastCommit lastHeaderHash).Keeps
      view := by
  apply Proc.Keeps.bind keeps_getLastState
  intro lastState
  dsimp only
  split
  · exact Proc.follows_fail _
  · apply Proc.Keeps.bind keeps_getLastState
    intro lastState
    apply Proc.Keeps.bind (Proc.follows_ofResult _)
    intro commit
    exact Proc.keeps_pure _

theorem keeps_pendingOrNewBlock (env : Env α) (input : ProduceInput)
    (newHeight : UInt64) (lastCommit : Commit) (lastHeaderHash : Hash) :
    (pendingOrNewBlock env input newHeight lastCommit lastHeaderHash).Keeps
      view := by
  apply Proc.Keeps.bind (Proc.Follows.attempt (keeps_query id _))
  intro found
  cases found with
  | ok pendingBlock =>
    apply Proc.Keeps.bind (keeps_query _ _)
    intro commit
    exact Proc.keeps_pure _
  | error error =>
    exact keeps_createSignedBlock env input newHeight lastCommit lastHeaderHash

/-- The records that `applyBlock` writes besides the block itself. -/
def IsProgress (batch : WriteBatch) : Prop := ∀ write ∈ batch,
    match write.1 with
    | .state | .responses _ | .validators _ => True
    | _ => False

theorem blockRecords_of_isProgress (db : Db) (hbatch : IsProgress batch) :
    (db.commit batch).blockRecords = db.blockRecords := by
  have hframe (key : Key)
      (hkey : ∀ write ∈ batch, key ≠ write.1) : db.commit batch key = db key :=
    Db.commit_of_forall_ne db hkey
  unfold Db.blockRecords
  congr 1
  · funext height
    apply hframe
    rintro write hwrite heq
    have h := hbatch write hwrite
    rw [← heq] at h
    exact h
  · funext hash
    apply hframe
    rintro write hwrite heq
    have h := hbatch write hwrite
    rw [← heq] at h
    exact h
  · funext hash
    apply hframe
    rintro write hwrite heq
    have h := hbatch write hwrite
    rw [← heq] at h
    exact h

/-- The view does not look at the state, in memory or stored, nor at what is
stored with it. -/
structure IgnoresRecording (view : Node α → ν) : Prop where
  lastState : ∀ (node : Node α) (state : State), view { node with lastState := state } = view node
  batch : ∀ (node : Node α) (batch : WriteBatch), IsProgress batch →
    view { node with db := node.db.commit batch } = view node

/-- The view does not look at how far the manager and its state have come. -/
structure IgnoresProgress (view : Node α → ν) : Prop
    extends IgnoresRecording view where
  height : ∀ (node : Node α) (height : UInt64), view { node with height := height } = view node

theorem keeps_modifyLastState (hview : IgnoresRecording view) (update : State → State) :
    (modifyLastState update : M α Unit).Keeps view :=
  Proc.keeps_op fun _ node => hview.lastState node _

theorem keeps_setHeight_of (height : UInt64)
    (hheight : ∀ node : Node α, view { node with height := height } = view node) :
    (setHeight height : M α Unit).Keeps view := by
  apply Proc.Keeps.bind keeps_storeHeight
  intro storeHeight
  split
  · apply Proc.keeps_op
    intro _ node
    dsimp only
    split
    · exact hheight node
    · rfl
  · exact Proc.keeps_pure _

theorem keeps_setHeight (hview : IgnoresProgress view) (height : UInt64) :
    (setHeight height : M α Unit).Keeps view :=
  keeps_setHeight_of height fun node => hview.height node height

theorem keeps_updateStoreState (hview : IgnoresRecording view) (env : Env α)
    (onErr : Error → Error) (state : State) :
    (updateStoreState env onErr state).Keeps view := by
  apply keeps_callWith
  intro node
  cases hstate : updateState env.tm state with
  | error error => rfl
  | ok write =>
    obtain ⟨pb, _, rfl⟩ := updateState_eq_ok.1 hstate
    exact hview.batch node [⟨.state, some pb⟩] (by simp [IsProgress])

theorem keeps_alignStoreWithApp (hview : IgnoresProgress view) (env : Env α)
    (block : Block) : (alignStoreWithApp env block).Keeps view := by
  apply Proc.Keeps.bind (keeps_callWith fun _ => rfl)
  intro info
  split
  · exact Proc.keeps_pure _
  split
  · exact Proc.follows_abort
  apply Proc.Keeps.bind (keeps_modifyLastState hview.toIgnoresRecording _)
  intro _
  apply Proc.Keeps.bind (keeps_modifyLastState hview.toIgnoresRecording _)
  intro _
  apply Proc.Keeps.bind (keeps_modifyLastState hview.toIgnoresRecording _)
  intro _
  apply Proc.Keeps.bind (keeps_query _ _)
  intro responses
  apply Proc.Keeps.bind (keeps_modifyLastState hview.toIgnoresRecording _)
  intro _
  apply Proc.Keeps.bind keeps_getLastState
  intro state
  apply Proc.Keeps.bind (keeps_updateStoreState hview.toIgnoresRecording env _ state)
  intro _
  apply Proc.Keeps.bind (keeps_setHeight hview _)
  intro _
  exact Proc.keeps_pure _

theorem keeps_finishBlock (hview : IgnoresProgress view) (env : Env α)
    (block : Block) (newState : State) :
    (finishBlock env block newState).Keeps view := by
  apply Proc.Keeps.bind keeps_getLastState
  intro lastState
  apply Proc.Keeps.bind keeps_storeBase
  intro base
  apply Proc.Keeps.bind (keeps_updateStoreState hview.toIgnoresRecording env _ _)
  intro _
  apply Proc.Keeps.bind (keeps_modifyLastState hview.toIgnoresRecording _)
  intro _
  exact keeps_setHeight hview _

theorem follows_ofExcept (result : Except Error β) :
    (Proc.ofResult (.ofExcept result) : M α β).Follows rel
      fun value => result = .ok value := by
  cases result with
  | ok value => exact rfl
  | error error => trivial

theorem follows_persistExecution (env : Env α) (block : Block)
    (responses : ABCIResponses) (newState : State) (hrefl : ∀ node, rel node node)
    (hassign : ∀ node : Node α, rel node { node with lastState := newState })
    (hbatch : ∀ (node : Node α) (batch : WriteBatch), IsProgress batch →
      rel node { node with db := node.db.commit batch }) :
    (persistExecution env block responses newState).Follows rel fun _ => True := by
  have hexternal : (external : M α Unit).Follows rel fun _ => True := follows_external hrefl
  apply Proc.Follows.bind hexternal
  intro _ _
  apply Proc.Follows.bind (Proc.follows_op fun _ node => hassign node)
  intro _ _
  apply Proc.Follows.bind (follows_read hrefl _)
  intro lastState _
  apply Proc.Follows.bind (follows_ofExcept _)
  intro stateWrite hstate
  obtain ⟨pb, _, rfl⟩ := updateState_eq_ok.1 hstate
  apply Proc.Follows.bind hexternal
  intro _ _
  apply Proc.Follows.bind (follows_read hrefl _)
  intro lastState _
  apply Proc.Follows.bind (follows_ofExcept _)
  intro validatorsWrite hvalidators
  have hkey := saveValidators_key hvalidators
  apply Proc.Follows.bind hexternal
  intro _ _
  apply follows_callWith hrefl
  intro node
  exact hbatch node _ (by simp [IsProgress, saveBlockResponses, hkey])

theorem keeps_persistExecution (hview : IgnoresRecording view) (env : Env α)
    (block : Block) (responses : ABCIResponses) (newState : State) :
    (persistExecution env block responses newState).Keeps view :=
  follows_persistExecution env block responses newState (fun _ => rfl)
    (fun node => hview.lastState node newState) hview.batch

theorem keeps_updateStateIndex (hview : IgnoresRecording view) (env : Env α) (index : UInt64) :
    (updateStateIndex env index).Keeps view := by
  apply Proc.Keeps.bind (keeps_modifyLastState hview _)
  intro _
  apply Proc.Keeps.bind keeps_getLastState
  intro lastState
  exact keeps_updateStoreState hview env _ lastState

/-- `NewManager` loads the heights of the store, lets a new chain's application
initialise, and records its state. -/
theorem follows_newManager (env : Env α) (hview : IgnoresProgress view)
    (hrel : ∀ before after, view after = view before → rel before after)
    (hbase : ∀ (node : Node α) (base : UInt64), rel node { node with baseHeight := base })
    (hread : ∀ node : Node α, rel node { node with unread := false })
    (hinit : ∀ (node : Node α) (working : α), rel node { node with
        app := { node.app with working := working }.log .initChain }) :
    (newManager env).Follows rel fun _ => True := by
  have hrefl (node : Node α) : rel node node := hrel node node rfl
  have hload : (loadStoreState env).Follows rel fun _ => True := by
    apply Proc.Follows.bind (Proc.follows_op fun _ node => hread node)
    intro state _
    apply Proc.Follows.bind (Proc.follows_op fun _ node => hrel _ _ (hview.height node _))
    intro _ _
    apply Proc.Follows.bind (Proc.follows_op fun _ node => hbase node _)
    intro _ _
    exact Proc.follows_pure trivial
  have hinitial : (getInitialState env).Follows rel fun _ => True := by
    apply Proc.Follows.bind (Proc.Follows.attempt hload)
    intro found _
    split
    · exact Proc.follows_pure trivial
    · exact Proc.follows_pure trivial
    · exact Proc.follows_fail _
  apply Proc.Follows.bind hinitial
  intro state _
  split
  · apply Proc.Follows.bind (follows_callWith hrefl fun node => hinit node _)
    intro response _
    split
    · exact Proc.follows_abort
    · apply Proc.Follows.bind
        (Proc.Follows.mono (keeps_updateStoreState hview.toIgnoresRecording env _ _) hrel)
      intro _ _
      exact Proc.Follows.mono (keeps_modifyLastState hview.toIgnoresRecording _) hrel
  · exact Proc.Follows.mono (keeps_modifyLastState hview.toIgnoresRecording _) hrel

theorem keeps_newManager (env : Env α) (hview : IgnoresProgress view) (hcalls : IgnoresCalls view)
    (hbase : ∀ (node : Node α) (base : UInt64), view { node with baseHeight := base } = view node)
    (hread : ∀ node : Node α, view { node with unread := false } = view node) :
    (newManager env).Keeps view :=
  follows_newManager env hview (fun _ _ heq => heq) hbase hread
    fun node working => hcalls node working .initChain (by simp)

/-! ## Starting the manager -/

/-- The state that the manager starts with: the stored one, or that of the genesis
document if none is stored or the stored one is `lost`. -/
inductive InitialState (env : Env α) (lost : Prop) (node : Node α) :
    State → UInt64 → UInt64 → Prop
  | loaded {state : State} (hload : loadState env.tm node.db = .ok state) :
      InitialState env lost node state state.lastStoreHeight state.baseHeight
  | genesis (hmissing : node.db .state = none ∨ lost) :
      InitialState env lost node (newFromGenesisDoc env.tm env.genesis) node.height node.baseHeight

/-- `LoadState` does not fail while a state is stored. -/
def LoadsStored (node : Node α) (answer : Answer) : Prop :=
  node.unread = true → (node.db .state).isSome = true → answer = .ok

instance (node : Node α) (answer : Answer) : Decidable (LoadsStored node answer) :=
  inferInstanceAs (Decidable (_ → _ → _))

/-- The node after `LoadState` has stored these heights. -/
def Node.loaded (node : Node α) (height base : UInt64) : Node α :=
  { node with height := height, baseHeight := base, unread := false }

def LoadsHeight (env : Env α) (node : Node α) (height : UInt64) : Prop := height = node.height ∨
    ∃ state, loadState env.tm node.db = .ok state ∧ height = state.lastStoreHeight

theorem InitialState.loadsHeight {env : Env α} {lost : Prop} {state : State} {base : UInt64}
    (hstate : InitialState env lost node state height base) :
    LoadsHeight env node height := by
  cases hstate with
  | loaded hload => exact Or.inr ⟨state, hload, rfl⟩
  | genesis hmissing => exact Or.inl rfl

/-- The validators that `InitChain` passes to the application. -/
def initialValidators (env : Env α) : List Validator := env.sequencersList.map fun sequencer =>
    env.tm.newValidator sequencer.publicKey 1

def initChainRequest (env : Env α) : RequestInitChain where
  time := env.genesis.genesisTime
  chainID := env.genesis.chainID
  consensusParams := env.genesis.consensusParams
  validators := (initialValidators env).map fun validator =>
    (validator.pubKey, validator.votingPower)
  appStateBytes := env.genesis.appState
  initialHeight := env.genesis.initialHeight

/-- The node after the application has seen `InitChain`. -/
def Node.initChain (env : Env α) (node : Node α) : Node α :=
  { node with
    app := { node.app with
      working := (env.app.initChain node.app.working (initChainRequest env)).1 }.log .initChain }

def initialisedState (env : Env α) (node : Node α) (state : State) : State :=
  updateInitChainState env state (env.app.initChain node.app.working (initChainRequest env)).2
    (initialValidators env)

/-- What must hold at the moments of `NewManager`. -/
structure BootSpec (env : Env α) (rules : Proc.Rules (Node α) Answer) (lost : Prop)
    (returned failed : Node α → Prop) (node : Node α) : Prop where
  start : rules.crash node
  read : ∀ answer, rules.allowed node answer → answer ≠ .ok → node.db .state = none ∨ lost
  loading : ∀ height base : UInt64, LoadsHeight env node height →
    rules.crash (node.loaded height base) ∧ failed (node.loaded height base)
  resume : ∀ state height base, InitialState env lost node state height base →
    state.lastBlockHeight + 1 ≠ env.genesis.initialHeight →
    returned { node.loaded height base with lastState := state }
  initialised : ∀ state height base, InitialState env lost node state height base →
    state.lastBlockHeight + 1 = env.genesis.initialHeight →
    let started := (node.loaded height base).initChain env
    rules.crash started ∧ failed started ∧ ∀ message, initialValidators env ≠ [] →
        (initialisedState env node state).toProto env.tm = .ok message →
        let recorded := { started with
          db := started.db.apply ⟨.state, some message⟩ }
        rules.crash recorded ∧ failed recorded ∧
          returned { recorded with lastState := initialisedState env node state }

section

variable {env : Env α} {lost : Prop} {returned failed : Node α → Prop} {node : Node α}

theorem wp_getInitialState_of (hspec : BootSpec env rules lost returned failed node) :
    (getInitialState env).wp rules
      (Proc.Ends
        (fun state later => ∃ height base,
          InitialState env lost node state height base ∧ later = node.loaded height base)
        failed failed) node := by
  have hread := hspec.loading node.height node.baseHeight (Or.inl rfl)
  have hgenesis (hmissing : node.db .state = none ∨ lost) :
      ∃ height base, InitialState env lost node (newFromGenesisDoc env.tm env.genesis) height base ∧
        { node with unread := false } = node.loaded height base :=
    ⟨node.height, node.baseHeight, .genesis hmissing, rfl⟩
  rw [getInitialState, Proc.wp_bind, Proc.wp_attempt, loadStoreState, Proc.wp_bind, Proc.wp_op]
  refine ⟨hspec.start, fun answer hallowed => ?_⟩
  cases answer with
  | failBefore => exact hgenesis (hspec.read .failBefore hallowed (by simp))
  | failAfter => exact hgenesis (hspec.read .failAfter hallowed (by simp))
  | ok =>
    dsimp only
    cases hload : loadState env.tm node.db with
    | panic => exact hread.2
    | err error =>
      cases error with
      | errNoStateFound => exact hgenesis (Or.inl (loadState_eq_missing.1 hload))
      | _ => exact hread.2
    | ok state =>
      rw [Proc.andThen_ok]
      apply wp_write_bind hread.1
      apply wp_write_bind (hspec.loading state.lastStoreHeight node.baseHeight
        (Or.inr ⟨state, hload, rfl⟩)).1
      exact ⟨state.lastStoreHeight, state.baseHeight, .loaded hload, rfl⟩

/-- The rule for `NewManager`. -/
theorem wp_newManager_of (hspec : BootSpec env rules lost returned failed node) :
    (newManager env).wp rules (Proc.Ends (fun _ => returned) failed failed) node := by
  apply Proc.wp_bind_ends (wp_getInitialState_of hspec)
  rintro state later ⟨height, base, hstate, rfl⟩
  have hloaded := hspec.loading height base hstate.loadsHeight
  split
  case isTrue hfirst =>
    obtain ⟨hcrash, hfailed, hrecord⟩ := hspec.initialised state height base hstate hfirst
    apply wp_callWith_bind
    rw [wp_callWith]
    refine ⟨hloaded.1, fun _ => ?_, fun _ => hloaded.2, fun _ => hfailed⟩
    rw [Result.mapErr, Proc.andThen_ok]
    split
    case isTrue => exact hfailed
    case isFalse hsome =>
      have hvalidators : initialValidators env ≠ [] := by
        intro hnil
        apply hsome
        exact (congrArg List.length hnil).le
      rw [Proc.wp_bind]
      apply wp_updateStoreState hcrash
      · intro error
        exact hfailed
      · intro message hmessage result hresult
        obtain ⟨hcrash', hfailed', hreturned⟩ := hrecord message hvalidators hmessage
        cases result with
        | ok value => exact ⟨hcrash', fun _ _ => hreturned⟩
        | err error => exact hfailed'
        | panic => exact absurd rfl hresult
  case isFalse hblocks =>
    exact ⟨hloaded.1, fun _ _ => hspec.resume state height base hstate hblocks⟩

end

/-- `Commit` changes the application and publishes events; of the state it changes the
hashes. -/
theorem follows_commitBlock (env : Env α) (state : State) (block : Block)
    (responses : ABCIResponses) (hrefl : ∀ node, rel node node)
    (hcommit : ∀ (node : Node α) committed appHash,
      rel node { node with app := node.app.commit committed appHash })
    (hpublish : ∀ (node : Node α) heights, rel node { node with published := heights }) :
    (commitBlock env state block responses).Follows rel fun result =>
      ∃ appHash lastResultsHash, result.1 =
        { state with appHash := appHash, lastResultsHash := lastResultsHash } := by
  have hexternal : (external : M α Unit).Follows rel fun _ => True := follows_callWith hrefl hrefl
  apply Proc.Follows.bind hexternal
  intro _ _
  apply Proc.Follows.bind (follows_callWith hrefl fun node => hcommit node _ _)
  intro response _
  apply Proc.Follows.bind hexternal
  intro _ _
  apply Proc.Follows.bind (follows_callWith hrefl fun node => hpublish node _)
  intro _ _
  exact Proc.follows_pure ⟨_, _, rfl⟩

theorem follows_commitExecutedBlock (hview : IgnoresProgress view)
    (hrel : ∀ before after, view after = view before → rel before after)
    (hprune : AllowsPruning rel)
    (hcommit : ∀ (node : Node α) committed appHash,
      rel node { node with app := node.app.commit committed appHash })
    (hpublish : ∀ (node : Node α) heights,
      rel node { node with published := heights }) (env : Env α) (block : Block)
    (responses : ABCIResponses) :
    (commitExecutedBlock env block responses).Follows rel fun _ => True := by
  apply Proc.Follows.bind (follows_read hprune.refl _)
  intro lastState _
  apply Proc.Follows.bind
    (Proc.Follows.mono (keeps_persistExecution hview.toIgnoresRecording env block _ _) hrel)
  intro _ _
  apply Proc.Follows.bind (follows_commitBlock env _ block responses hprune.refl hcommit hpublish)
  rintro ⟨newState, retainHeight⟩ _
  apply Proc.Follows.bind (follows_pruneOnRequest hprune retainHeight)
  intro _ _
  exact Proc.Follows.mono (keeps_finishBlock hview env block newState) hrel

/-- `applyBlock` does not gossip. -/
theorem keeps_applyBlock (env : Env α) (block : Block) (commit : Commit) :
    (applyBlock env block commit).Keeps Node.gossiped := by
  have hview : IgnoresProgress (Node.gossiped : Node α → _) :=
    ⟨⟨fun _ _ => rfl, fun _ _ _ => rfl⟩, fun _ _ => rfl⟩
  apply Proc.Keeps.bind keeps_storeHeight
  intro height
  split
  case isTrue => exact Proc.keeps_pure ()
  apply Proc.Keeps.bind (keeps_alignStoreWithApp hview env block)
  intro required
  split
  case isTrue => exact Proc.keeps_pure ()
  apply Proc.Keeps.bind (keeps_callWith fun _ => rfl)
  intro _
  apply Proc.Keeps.bind (keeps_executeBlock env ⟨fun _ _ _ _ => rfl, fun _ _ => rfl⟩ block commit)
  intro responses
  exact follows_commitExecutedBlock hview (fun _ _ heq => heq)
    ⟨fun _ => rfl, fun _ _ _ => rfl, fun _ _ => rfl⟩ (fun _ _ _ => rfl)
    (fun _ _ => rfl) env block responses

end

end Dymint.Manager
