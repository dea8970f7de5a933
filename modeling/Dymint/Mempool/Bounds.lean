import Dymint.Mempool.Invariant
import Mathlib.Algebra.Order.BigOperators.Group.List

/-!
# The limits of the mempool

The byte count is the sum of the sizes of the listed transactions, and neither the
number of transactions nor the byte count passes its configured limit.  A
transaction that does not fit is inserted only after the eviction loop has freed
as many bytes as it needs and at least one place.
-/

namespace Dymint.Mempool

open Dymint.Types Runs

def Counted (pool : TxMempool) : Prop := pool.txsBytes = pool.bytesOf pool.txs

structure Bounded (env : Env) (pool : TxMempool) : Prop where
  counted : Counted pool
  size_le : (pool.txs.length : ℤ) ≤ env.config.size
  bytes_le : pool.txsBytes ≤ env.config.maxTxsBytes

section

variable {env : Env} {pool later : TxMempool}

theorem size_nonneg (wtx : WrappedTx) : 0 ≤ wtx.size := Int.natCast_nonneg _

theorem bytesOf_nonneg (pool : TxMempool) (elements : List ℕ) : 0 ≤ pool.bytesOf elements := by
  apply List.sum_nonneg
  intro size hsize
  obtain ⟨element, -, rfl⟩ := List.mem_map.1 hsize
  exact size_nonneg _

theorem bytesOf_congr {elements : List ℕ}
    (hvalue : ∀ element ∈ elements, (later.value element).tx = (pool.value element).tx) :
    later.bytesOf elements = pool.bytesOf elements := by
  rw [TxMempool.bytesOf, TxMempool.bytesOf]
  congr 1
  apply List.map_congr_left
  intro element helement
  rw [WrappedTx.size, WrappedTx.size, hvalue element helement]

theorem Counted.small (hpool : Counted pool) (hsmall : Small env pool later) : Counted later := by
  have hvalue := hsmall.value
  cases hsmall with
  | other => exact hpool
  | reprioritize changed priority =>
    rw [Counted, bytesOf_congr fun element _ => (hvalue element).1]
    exact hpool
  | remove =>
    rename_i element helement
    have hsum := List.sum_map_erase (fun element => (pool.value element).size) helement
    change pool.txsBytes - (pool.value element).size =
      ((pool.txs.erase element).map fun element => (pool.value element).size).sum
    rw [hpool, TxMempool.bytesOf]
    omega

theorem Counted.shrinks (hpool : Counted pool) (hshrinks : Shrinks env pool later) :
    Counted later := by
  induction hshrinks with
  | refl => exact hpool
  | tail _ hsmall ih => exact ih.small hsmall

theorem Counted.bytes_le (hpool : Counted pool) (hshrinks : Shrinks env pool later) :
    later.txsBytes ≤ pool.txsBytes := by
  have hsame : later.bytesOf later.txs = pool.bytesOf later.txs :=
    bytesOf_congr fun element _ => (Shrinks.value hshrinks element).1
  have hsublist := (Shrinks.sublist hshrinks).map fun element =>
    (pool.value element).size
  rw [hpool.shrinks hshrinks, hpool, hsame]
  apply hsublist.sum_le_sum
  intro size hsize
  obtain ⟨element, -, rfl⟩ := List.mem_map.1 hsize
  exact size_nonneg _

theorem Bounded.shrinks (hpool : Bounded env pool) (hshrinks : Shrinks env pool later) :
    Bounded env later where
  counted := hpool.counted.shrinks hshrinks
  size_le := by
    have hlength := (Shrinks.sublist hshrinks).length_le
    have hsize := hpool.size_le
    omega
  bytes_le := (hpool.counted.bytes_le hshrinks).trans hpool.bytes_le

/-! ## Eviction -/

theorem evict_frees {size evictedBytes : ℤ} {victims : List ℕ}
    (hbytes : size ≤ evictedBytes + pool.bytesOf victims) :
    (pool.evict env size evictedBytes victims).txsBytes + size ≤ pool.txsBytes + evictedBytes := by
  induction victims generalizing pool evictedBytes with
  | nil =>
    have hnone : pool.bytesOf [] = 0 := rfl
    rw [hnone] at hbytes
    rw [TxMempool.evict]
    omega
  | cons victim victims ih =>
    have hcons : pool.bytesOf (victim :: victims) =
        (pool.value victim).size + pool.bytesOf victims := List.sum_cons
    have hfreed : ((pool.removeTxByElement env victim).forget env (pool.value victim).tx).txsBytes =
        pool.txsBytes - (pool.value victim).size := rfl
    rw [TxMempool.evict]
    split
    case isTrue hdone =>
      rw [hfreed]
      omega
    case isFalse =>
      have hrest : size ≤ evictedBytes + (pool.value victim).size +
          ((pool.removeTxByElement env victim).forget env
            (pool.value victim).tx).bytesOf victims := by
        have hsame : ((pool.removeTxByElement env victim).forget env
            (pool.value victim).tx).bytesOf victims = pool.bytesOf victims := rfl
        omega
      have hloop := ih hrest
      omega

/-- It frees a place. -/
theorem length_evict_lt {size evictedBytes : ℤ} {victims : List ℕ} (hnodup : victims.Nodup)
    (hvictims : ∀ victim ∈ victims, victim ∈ pool.txs) (hne : victims ≠ []) :
    (pool.evict env size evictedBytes victims).txs.length < pool.txs.length := by
  obtain ⟨victim, victims, rfl⟩ := List.exists_cons_of_ne_nil hne
  rw [List.nodup_cons] at hnodup
  rw [List.forall_mem_cons] at hvictims
  have hpos := List.length_pos_of_mem hvictims.1
  have hfirst : ((pool.removeTxByElement env victim).forget env
      (pool.value victim).tx).txs.length = pool.txs.length - 1 :=
    List.length_erase_of_mem hvictims.1
  rw [TxMempool.evict]
  split
  · omega
  · have hrest : ∀ other ∈ victims, other ∈ ((pool.removeTxByElement env victim).forget env
          (pool.value victim).tx).txs := by
      intro other hother
      have hne : other ≠ victim := by
        rintro rfl
        exact hnodup.1 hother
      exact mem_removeTxByElement env hne (hvictims.2 other hother)
    have hshrinks : Shrinks env _ (TxMempool.evict env size
        ((pool.removeTxByElement env victim).forget env (pool.value victim).tx)
        (evictedBytes + (pool.value victim).size) victims) :=
      shrinks_evict hnodup.2 hrest
    have hle := (Shrinks.sublist hshrinks).length_le
    omega

theorem room_le (hlinked : Linked env pool) (hpool : Bounded env pool) {wtx : WrappedTx}
    {priority : Int64} {room : TxMempool} (hroom : pool.makeRoom env wtx priority = some room) :
    (room.txs.length : ℤ) + 1 ≤ env.config.size ∧
      room.txsBytes + wtx.size ≤ env.config.maxTxsBytes := by
  have hsize := hpool.size_le
  have hbytes := hpool.bytes_le
  unfold TxMempool.makeRoom at hroom
  split at hroom
  case isTrue hadd =>
    obtain rfl := Option.some.inj hroom
    simp only [TxMempool.canAddTx, Bool.not_eq_true', Bool.or_eq_false_iff,
      decide_eq_false_iff_not] at hadd
    omega
  case isFalse =>
    dsimp only at hroom
    split at hroom
    case isTrue => cases hroom
    case isFalse henough =>
      obtain rfl := Option.some.inj hroom
      rw [not_or, not_lt, List.length_eq_zero_iff] at henough
      have hperm := sorted_victims env pool priority
      have hsame : pool.bytesOf (env.slices.sort pool.evictedBefore (pool.victims priority)) =
          pool.bytesOf (pool.victims priority) := (hperm.map _).sum_eq
      have hlt : (pool.evict env wtx.size 0 (env.slices.sort pool.evictedBefore
          (pool.victims priority))).txs.length < pool.txs.length := by
        apply length_evict_lt (hperm.nodup_iff.2 (hlinked.nodup.filter _))
        · intro victim hvictim
          exact List.mem_of_mem_filter (hperm.subset hvictim)
        · intro hnil
          rw [hnil] at hperm
          exact henough.1 hperm.nil_eq.symm
      have hfrees : (pool.evict env wtx.size 0 (env.slices.sort pool.evictedBefore
          (pool.victims priority))).txsBytes + wtx.size ≤ pool.txsBytes + 0 := by
        apply evict_frees
        omega
      omega

theorem Counted.insertTx (hlinked : Linked env pool) (hpool : Counted pool) (wtx : WrappedTx) :
    Counted (pool.insertTx env wtx) := by
  have hold : (pool.insertTx env wtx).bytesOf pool.txs = pool.bytesOf pool.txs :=
    bytesOf_congr fun element helement => by
      rw [value_insertTx hlinked wtx helement]
  have hnew : (pool.insertTx env wtx).bytesOf [pool.next] = wtx.size := by
    simp [TxMempool.bytesOf, TxMempool.insertTx]
  have happend : (pool.insertTx env wtx).bytesOf (pool.txs ++ [pool.next]) =
      (pool.insertTx env wtx).bytesOf pool.txs + (pool.insertTx env wtx).bytesOf [pool.next] := by
    rw [TxMempool.bytesOf, List.map_append, List.sum_append]
    rfl
  calc
    (pool.insertTx env wtx).txsBytes = pool.bytesOf pool.txs + wtx.size := by
          rw [← show pool.txsBytes = pool.bytesOf pool.txs from hpool]
          rfl
    _ = (pool.insertTx env wtx).bytesOf (pool.txs ++ [pool.next]) := by
          rw [happend, hold, hnew]

theorem Bounded.step {pool next : Pool} {action : Action} (hlinked : Linked env pool.mempool)
    (hpool : Bounded env pool.mempool) (hstep : Pool.step env pool action = some next) :
    Bounded env next.mempool := by
  by_cases hinserts : ∃ wtx room, Inserts env pool action wtx room
  · obtain ⟨wtx, room, hinserts⟩ := hinserts
    obtain ⟨hroom, hnext⟩ := step_of_inserts hlinked hstep hinserts
    rw [hnext]
    obtain ⟨_, response, now, call, _, _, hadmitted, rfl⟩ := hinserts
    have hle := room_le hlinked hpool hadmitted.room
    constructor
    · exact (hpool.shrinks hroom).counted.insertTx (Shrinks.linked hlinked hroom) _
    · rw [TxMempool.insertTx, List.length_append]
      push_cast
      exact hle.1
    · exact hle.2
  · have hnone (wtx : WrappedTx) (room : TxMempool) :
        ¬ Inserts env pool action wtx room := fun h => hinserts ⟨wtx, room, h⟩
    exact hpool.shrinks (shrinks_step hlinked hstep hnone)

theorem bounded_newTxMempool (height : Int64) (preCheck : Option PreCheckFunc)
    (postCheck : Option PostCheckFunc) :
    Bounded env (newTxMempool env height preCheck postCheck) where
  counted := rfl
  size_le := env.config.size_nonneg
  bytes_le := env.config.maxTxsBytes_nonneg

/-- `Flush` leaves nothing in the list. -/
theorem txs_flush (hlinked : Linked env pool) : (pool.flush env).txs = [] := by
  have hfold (elements : List ℕ) (pool : TxMempool) :
      (elements.foldl (TxMempool.removeTxByElement env) pool).txs =
        elements.foldl List.erase pool.txs := by
    induction elements generalizing pool with
    | nil => rfl
    | cons element elements ih => exact ih _
  have hdiff : (pool.flush env).txs = pool.txs.diff pool.txs := by
    rw [List.diff_eq_foldl]
    exact hfold pool.txs pool
  rw [hdiff, List.eq_nil_iff_forall_not_mem]
  intro element helement
  obtain ⟨hmem, hnot⟩ := hlinked.nodup.mem_sdiff_iff.1 helement
  exact hnot hmem

end

/-- In every run, the byte count is the total size of the transactions and no
limit is passed; after `Flush` the pool is empty and the count is zero. -/
theorem mempool_within_limits (env : Env) (height : Int64) (preCheck : Option PreCheckFunc)
    (postCheck : Option PostCheckFunc) (actions : List Action) {move : Move Pool Action}
    (hmove : move ∈ (Pool.lts env height preCheck postCheck).path (Pool.lts env height preCheck
      postCheck).start actions) :
    Bounded env move.target.mempool ∧ 0 ≤ move.target.mempool.txsBytes ∧
      (move.target.mempool.flush env).txs = [] ∧
      (move.target.mempool.flush env).txsBytes = 0 := by
  have hstep (pool : Pool) (action : Action) (next : Pool)
      (hpool : Linked env pool.mempool ∧ Bounded env pool.mempool)
      (hnext : (Pool.lts env height preCheck postCheck).step pool action =
        some next) : Linked env next.mempool ∧ Bounded env next.mempool :=
    ⟨hpool.1.step hnext, hpool.2.step hpool.1 hnext⟩
  have hstart : Linked env (newTxMempool env height preCheck postCheck) ∧
      Bounded env (newTxMempool env height preCheck postCheck) :=
    ⟨linked_newTxMempool height preCheck postCheck, bounded_newTxMempool height preCheck postCheck⟩
  obtain ⟨hlinked, hbounded⟩ := Lts.forall_path hstep hstart actions move hmove
  have hempty := txs_flush hlinked
  have hcounted := hbounded.counted.shrinks (shrinks_flush hlinked)
  refine ⟨hbounded, ?_, hempty, ?_⟩
  · rw [hbounded.counted]
    exact bytesOf_nonneg _ _
  · rw [hcounted, hempty]
    rfl

namespace Reference

/-- Three transactions fill the pool, and a fourth one has a higher priority. -/
def evicting : List Action :=
  submit [1, 1, 1] 1 5 ++ submit [2, 2] 2 6 ++ submit [3, 3] 3 7 ++ submit [4, 4, 4, 4] 4 8

end Reference

/-- The fourth transaction evicts the first two. -/
theorem mempool_within_limits_reference : ∃ move ∈ (Pool.lts Reference.env 1 none none).path
        (Pool.lts Reference.env 1 none none).start Reference.evicting,
      move.target.mempool.txs = [2, 3] ∧ move.target.mempool.txsBytes = 6 ∧
      Bounded Reference.env move.target.mempool ∧
      (move.target.mempool.flush Reference.env).txsBytes = 0 := by
  have hrun : ([2, 3], (6 : ℤ)) ∈ ((Pool.lts Reference.env 1 none none).path
      (Pool.lts Reference.env 1 none none).start Reference.evicting).map
        fun move => (move.target.mempool.txs, move.target.mempool.txsBytes) := by
    decide +kernel
  obtain ⟨move, hmove, hview⟩ := List.mem_map.1 hrun
  have hlimits := mempool_within_limits Reference.env 1 none none Reference.evicting hmove
  exact ⟨move, hmove, congrArg Prod.fst hview, congrArg Prod.snd hview, hlimits.1, hlimits.2.2.2⟩

end Dymint.Mempool
