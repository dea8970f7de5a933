import Dymint.Mempool.Changes
import Dymint.Core.ListIndex
import Dymint.Types.Reference

/-!
# The list and its two maps

The list of transactions has no key twice, the key map leads exactly from the keys
of the list to their elements, and the sender map from the senders that are not
empty.  Nothing but the cache keeps a transaction that is already in the pool from
being inserted again; the three structures agree throughout a run exactly as long
as no accepted response meets its own key in the pool.
-/

namespace Dymint.Mempool

open Dymint.Types Runs ListIndex

def WrappedTx.label (wtx : WrappedTx) : Option String :=
  if wtx.sender ≠ "" then some wtx.sender else none

structure Consistent (env : Env) (pool : TxMempool) : Prop where
  distinct : (pool.txs.map fun element => env.key (pool.value element).tx).Nodup
  byKey : Indexes pool.txByKey pool.txs fun element =>
    some (env.key (pool.value element).tx)
  bySender : Indexes pool.txBySender pool.txs fun element =>
    (pool.value element).label

variable {element : ℕ}

section

variable {env : Env} {pool later : TxMempool}

theorem WrappedTx.label_congr {left right : WrappedTx} (hsender : left.sender = right.sender) :
    left.label = right.label := by
  rw [label, label, hsender]

theorem consistent_of_indexes (hlinked : Linked env pool)
    (hkey : Indexes pool.txByKey pool.txs fun element =>
      some (env.key (pool.value element).tx))
    (hsender : Indexes pool.txBySender pool.txs fun element =>
      (pool.value element).label) : Consistent env pool := by
  refine ⟨hlinked.nodup.map_on ?_, hkey, hsender⟩
  intro left hleft right hright heq
  exact hkey.injective hleft hright (congrArg some heq) rfl

theorem Consistent.bySender_empty (hpool : Consistent env pool) : pool.txBySender "" = none := by
  apply hpool.bySender.eq_none
  intro element _ hlabel
  rw [WrappedTx.label, Option.ite_none_right_eq_some] at hlabel
  exact hlabel.1 (Option.some.inj hlabel.2)

section

variable (hlinked : Linked env pool) (hpool : Consistent env pool)

include hlinked hpool

theorem Consistent.remove
    (helement : element ∈ pool.txs) : Consistent env (pool.removeTxByElement env element) := by
  apply consistent_of_indexes ((Small.remove helement).linked hlinked)
  · exact hpool.byKey.erase hlinked.nodup helement rfl
  · by_cases hsender : (pool.value element).sender ≠ ""
    · exact hpool.bySender.erase hlinked.nodup helement (if_pos hsender)
    · have hsame : Function.update pool.txBySender (pool.value element).sender none =
          pool.txBySender := by
        rw [not_not] at hsender
        rw [Function.update_eq_self_iff, hsender, hpool.bySender_empty]
      change Indexes (Function.update pool.txBySender _ none) _ _
      rw [hsame]
      exact hpool.bySender.erase_unlabelled hlinked.nodup (if_neg hsender)

theorem Consistent.small (hsmall : Small env pool later) : Consistent env later := by
  have hlinked' := hsmall.linked hlinked
  have hvalue := hsmall.value
  cases hsmall with
  | remove helement => exact hpool.remove hlinked helement
  | other => exact ⟨hpool.distinct, hpool.byKey, hpool.bySender⟩
  | reprioritize changed priority =>
    apply consistent_of_indexes hlinked'
    · apply hpool.byKey.congr
      intro element _
      rw [(hvalue element).1]
    · apply hpool.bySender.congr
      intro element _
      exact WrappedTx.label_congr (hvalue element).2

theorem Consistent.shrinks (hshrinks : Shrinks env pool later) : Consistent env later := by
  induction hshrinks with
  | refl => exact hpool
  | tail hbefore hsmall ih => exact ih.small (Shrinks.linked hlinked hbefore) hsmall

end

/-! ## Insertion -/

theorem value_insertTx (hlinked : Linked env pool) (wtx : WrappedTx)
    (helement : element ∈ pool.txs) :
    (pool.insertTx env wtx).value element = pool.value element :=
  Function.update_of_ne (hlinked.lt_next element helement).ne _ _

theorem value_insertTx_next (wtx : WrappedTx) : (pool.insertTx env wtx).value pool.next = wtx :=
  Function.update_self _ _ _

theorem Consistent.insertTx (hlinked : Linked env pool) (hpool : Consistent env pool)
    {wtx : WrappedTx} (hsender : pool.occupant wtx.sender = none)
    (hkey : ∀ element ∈ pool.txs, env.key (pool.value element).tx ≠ env.key wtx.tx) :
    Consistent env (pool.insertTx env wtx) := by
  apply consistent_of_indexes (hlinked.insertTx wtx)
  · have hold : Indexes pool.txByKey pool.txs fun element =>
        some (env.key ((pool.insertTx env wtx).value element).tx) := by
      apply hpool.byKey.congr
      intro element helement
      rw [value_insertTx hlinked wtx helement]
    have hnew : pool.txByKey (env.key wtx.tx) = none := by
      apply hpool.byKey.eq_none
      intro element helement hsame
      exact hkey element helement (Option.some.inj hsame)
    apply hold.append _ hnew
    rw [value_insertTx_next]
  · have hold : Indexes pool.txBySender pool.txs fun element =>
        ((pool.insertTx env wtx).value element).label := by
      apply hpool.bySender.congr
      intro element helement
      rw [value_insertTx hlinked wtx helement]
    by_cases hempty : wtx.sender ≠ ""
    · rw [TxMempool.occupant, if_pos hempty] at hsender
      have hlabel : ((pool.insertTx env wtx).value pool.next).label = some wtx.sender := by
        rw [value_insertTx_next]
        exact if_pos hempty
      have hmap : (pool.insertTx env wtx).txBySender =
          Function.update pool.txBySender wtx.sender (some pool.next) :=
        if_pos hempty
      rw [hmap]
      exact hold.append hlabel hsender
    · have hlabel : ((pool.insertTx env wtx).value pool.next).label = none := by
        rw [value_insertTx_next]
        exact if_neg hempty
      have hmap : (pool.insertTx env wtx).txBySender = pool.txBySender := if_neg hempty
      rw [hmap]
      exact hold.append_unlabelled hlabel

theorem not_consistent_insertTx (hlinked : Linked env pool) {wtx : WrappedTx}
    (helement : element ∈ pool.txs) (hkey : env.key (pool.value element).tx = env.key wtx.tx) :
    ¬ Consistent env (pool.insertTx env wtx) := by
  intro hconsistent
  have hold : element ∈ (pool.insertTx env wtx).txs := List.mem_append_left _ helement
  have hnew : pool.next ∈ (pool.insertTx env wtx).txs :=
    List.mem_append_right _ (List.mem_singleton_self _)
  have hsame : element = pool.next := by
    apply hconsistent.byKey.injective hold hnew rfl
    rw [value_insertTx_next, value_insertTx hlinked wtx helement, hkey]
  exact (hlinked.lt_next element helement).ne hsame

/-! ## Runs -/

def Fresh (env : Env) (pool : Pool) (action : Action) : Prop :=
  ∀ wtx room, Inserts env pool action wtx room →
    ∀ element ∈ room.txs, env.key (room.value element).tx ≠ env.key wtx.tx

theorem occupant_of_shrinks (hlinked : Linked env pool) (hpool : Consistent env pool)
    (hshrinks : Shrinks env pool later) {sender : String} (hsender : pool.occupant sender = none) :
    later.occupant sender = none := by
  have hlater := hpool.shrinks hlinked hshrinks
  by_cases hempty : sender ≠ ""
  · rw [TxMempool.occupant, if_pos hempty] at hsender ⊢
    apply hlater.bySender.eq_none
    intro element helement hlabel
    rw [WrappedTx.label_congr (Shrinks.value hshrinks element).2] at hlabel
    have hfound := (hpool.bySender sender element).2
      ⟨(Shrinks.sublist hshrinks).subset helement, hlabel⟩
    rw [hsender] at hfound
    cases hfound
  · exact if_neg hempty

theorem consistent_step_iff {pool next : Pool} {action : Action} (hlinked : Linked env pool.mempool)
    (hpool : Consistent env pool.mempool) (hstep : Pool.step env pool action = some next) :
    Consistent env next.mempool ↔ Fresh env pool action := by
  constructor
  · intro hnext wtx room hinserts element helement hkey
    obtain ⟨hroom, hmempool⟩ := step_of_inserts hlinked hstep hinserts
    rw [hmempool] at hnext
    exact not_consistent_insertTx (Shrinks.linked hlinked hroom) helement hkey hnext
  · intro hfresh
    by_cases hinserts : ∃ wtx room, Inserts env pool action wtx room
    · obtain ⟨wtx, room, hinserts⟩ := hinserts
      obtain ⟨hroom, hmempool⟩ := step_of_inserts hlinked hstep hinserts
      rw [hmempool]
      apply (hpool.shrinks hlinked hroom).insertTx (Shrinks.linked hlinked hroom) _
        (hfresh wtx room hinserts)
      obtain ⟨_, response, _, _, _, _, hadmitted, rfl⟩ := hinserts
      exact occupant_of_shrinks hlinked hpool hroom hadmitted.sender
    · have hnone (wtx : WrappedTx) (room : TxMempool) :
          ¬ Inserts env pool action wtx room := fun h => hinserts ⟨wtx, room, h⟩
      exact hpool.shrinks hlinked (shrinks_step hlinked hstep hnone)

end

/-- The list and the maps agree throughout a run exactly when every accepted
response in it is for a transaction that is not in the pool. -/
theorem consistent_iff_fresh (env : Env) (height : Int64) (preCheck : Option PreCheckFunc)
    (postCheck : Option PostCheckFunc) (actions : List Action) :
    (∀ move ∈ (Pool.lts env height preCheck postCheck).path
        (Pool.lts env height preCheck postCheck).start actions,
      Consistent env move.target.mempool) ↔
    ∀ move ∈ (Pool.lts env height preCheck postCheck).path
        (Pool.lts env height preCheck postCheck).start actions,
      Fresh env move.source move.label := by
  have hlinked : Linked env (newTxMempool env height preCheck postCheck) :=
    linked_newTxMempool height preCheck postCheck
  have hstart : Consistent env (newTxMempool env height preCheck postCheck) := by
    apply consistent_of_indexes hlinked
    · intro key element
      simp [newTxMempool]
    · intro sender element
      simp [newTxMempool]
  have hbase (pool : Pool) (action : Action) (next : Pool) (hpool : Linked env pool.mempool)
      (hstep : (Pool.lts env height preCheck postCheck).step pool action =
        some next) : Linked env next.mempool := hpool.step hstep
  have hinv (pool : Pool) (action : Action) (next : Pool)
      (hpool : Linked env pool.mempool) (hconsistent : Consistent env pool.mempool)
      (hstep : (Pool.lts env height preCheck postCheck).step pool action =
        some next) : Consistent env next.mempool ↔ Fresh env pool action :=
    consistent_step_iff hpool hconsistent hstep
  exact Lts.forall_path_iff hbase hinv hlinked hstart actions

namespace Reference

open Types.Reference

def insertionSlices : SliceSort where
  sort less list := list.insertionSort fun left right => less right left = false
  perm less list := List.perm_insertionSort _ list
  sorted less list htrans htotal := by
    have : Std.Total fun left right => less right left = false :=
      ⟨fun left right => (htotal right left)⟩
    have : IsTrans _ fun left right => less right left = false :=
      ⟨fun left middle right hleft hright => htrans left middle right hleft hright⟩
    exact List.pairwise_insertionSort _ list

/-- A mempool that remembers one transaction. -/
def env : Env where
  config :=
    { size := 3
      maxTxsBytes := 10
      maxTxBytes := 8
      cacheSize := 1
      keepInvalidTxsInCache := false
      recheck := true
      ttlNumBlocks := 0
      ttlDuration := 0
      size_nonneg := by decide
      maxTxsBytes_nonneg := by decide }
  key := digest
  slices := insertionSlices
  sizes := ⟨fun txs => .ofNat (txs.map fun tx => 1 + tx.length + sov tx.length).sum, fun _ => rfl⟩

def accepted (priority : Int64) : ResponseCheckTx := ⟨0, 1, priority, ""⟩

def submit (tx : Tx) (priority : Int64) (now : Time) : List Action :=
  [.checkTx tx none, .recheckResponse tx (accepted priority),
    .response 0 (some (accepted priority)) now]

def submittedAgain : List Action := submit [1] 1 5 ++ submit [2] 1 6 ++ submit [1] 1 7

end Reference

/-- A transaction that has fallen out of the cache is inserted a second time. -/
theorem transaction_inserted_twice : ∃ move ∈ (Pool.lts Reference.env 1 none none).path
        (Pool.lts Reference.env 1 none none).start Reference.submittedAgain,
      (move.target.mempool.txs.map fun element =>
        (move.target.mempool.value element).tx) = [[1], [2], [1]] ∧
      ¬ Consistent Reference.env move.target.mempool := by
  have hrun : [[1], [2], [1]] ∈ ((Pool.lts Reference.env 1 none none).path
      (Pool.lts Reference.env 1 none none).start Reference.submittedAgain).map
        fun move => move.target.mempool.txs.map fun element =>
          (move.target.mempool.value element).tx := by
    decide +kernel
  obtain ⟨move, hmove, htxs⟩ := List.mem_map.1 hrun
  refine ⟨move, hmove, htxs, fun hconsistent => ?_⟩
  have hkeys : (move.target.mempool.txs.map fun element =>
      Reference.env.key (move.target.mempool.value element).tx) =
      [[1], [2], [1]].map Reference.env.key := by
    rw [← htxs, List.map_map]
    rfl
  have hdistinct := hconsistent.distinct
  rw [hkeys] at hdistinct
  exact absurd hdistinct (by decide)

end Dymint.Mempool
