import Dymint.Core.Cuts
import Dymint.Mempool.Seen
import Mathlib.Algebra.BigOperators.Group.List.Basic

/-!
# Making room in a full mempool

A transaction that the application accepts and that does not fit into the mempool may take
the place of transactions of lower priority.  They are evicted one by one, the lowest
priority first and the newest first among equals, until they free as many bytes as the new
transaction has.
-/

namespace Dymint.Mempool

open Dymint.Types Runs Cuts

namespace TxMempool

/-- One element may be evicted before the other. -/
def MayPrecede (pool : TxMempool) (i j : ℕ) : Prop :=
  (pool.value i).priority < (pool.value j).priority ∨
    (pool.value i).priority = (pool.value j).priority ∧
      (pool.value j).timestamp ≤ (pool.value i).timestamp

def evicted (pool : TxMempool) (size : ℤ) (victims : List ℕ) : List ℕ :=
  takeUntil (fun bytes victim => bytes + (pool.value victim).size) (fun bytes => bytes ≥ size)
    0 victims

def dropTx (env : Env) (pool : TxMempool) (element : ℕ) : TxMempool :=
  (pool.removeTxByElement env element).forget env (pool.value element).tx

end TxMempool

section

variable {pool : TxMempool} {i j k : ℕ}

/-- The order of the priorities as one of integers. -/
theorem mayPrecede_iff : pool.MayPrecede i j ↔
    (pool.value i).priority.toInt < (pool.value j).priority.toInt ∨
      (pool.value i).priority.toInt = (pool.value j).priority.toInt ∧
        (pool.value j).timestamp ≤ (pool.value i).timestamp := by
  rw [TxMempool.MayPrecede, Int64.lt_iff_toInt_lt, ← Int64.toInt_inj]

theorem evictedBefore_eq_false : pool.evictedBefore j i = false ↔ pool.MayPrecede i j := by
  rw [mayPrecede_iff, TxMempool.evictedBefore]
  split
  case isTrue hequal =>
    rw [decide_eq_false_iff_not, not_lt, hequal]
    simp
  case isFalse hne =>
    rw [← Int64.toInt_inj, eq_comm] at hne
    rw [decide_eq_false_iff_not, Int64.lt_iff_toInt_lt, not_lt]
    grind

theorem TxMempool.MayPrecede.trans (hij : pool.MayPrecede i j) (hjk : pool.MayPrecede j k) :
    pool.MayPrecede i k := by
  rw [mayPrecede_iff] at hij hjk ⊢
  grind

theorem mayPrecede_total (pool : TxMempool) (i j : ℕ) :
    pool.MayPrecede i j ∨ pool.MayPrecede j i := by
  rw [mayPrecede_iff, mayPrecede_iff]
  grind

theorem pairwise_sorted_victims (env : Env) (pool : TxMempool) (victims : List ℕ) :
    (env.slices.sort pool.evictedBefore victims).Pairwise pool.MayPrecede := by
  have htrans (a b c : ℕ) (hab : pool.evictedBefore b a = false)
      (hbc : pool.evictedBefore c b = false) : pool.evictedBefore c a = false := by
    rw [evictedBefore_eq_false] at hab hbc ⊢
    exact hab.trans hbc
  have htotal (a b : ℕ) : pool.evictedBefore a b = false ∨ pool.evictedBefore b a = false := by
    rw [evictedBefore_eq_false, evictedBefore_eq_false]
    exact mayPrecede_total pool b a
  exact (env.slices.sorted pool.evictedBefore victims htrans htotal).imp
    fun hbefore => evictedBefore_eq_false.1 hbefore

end

section

variable {env : Env} {pool : TxMempool}

theorem foldl_size (pool : TxMempool) (bytes : ℤ) (elements : List ℕ) :
    elements.foldl (fun bytes victim => bytes + (pool.value victim).size) bytes =
      bytes + pool.bytesOf elements := by
  induction elements generalizing bytes with
  | nil => simp [TxMempool.bytesOf]
  | cons element elements ih =>
    have hcons : pool.bytesOf (element :: elements) =
        (pool.value element).size + pool.bytesOf elements := List.sum_cons
    rw [List.foldl_cons, ih, hcons, add_assoc]

theorem bytesOf_evicted {size : ℤ} {victims : List ℕ} (hne : victims ≠ [])
    (henough : size ≤ pool.bytesOf victims) :
    size ≤ pool.bytesOf (pool.evicted size victims) ∧
      ∀ part, part <+: pool.evicted size victims → part ≠ pool.evicted size victims →
        part ≠ [] → pool.bytesOf part < size := by
  have hsum (elements : List ℕ) := foldl_size pool 0 elements
  simp only [zero_add] at hsum
  constructor
  · rw [← hsum] at henough ⊢
    exact aim_takeUntil hne henough
  · intro part hpart hproper hpartne
    have hnot := not_aim_of_prefix_takeUntil hpart hproper hpartne
    rw [hsum, ge_iff_le, not_le] at hnot
    exact hnot

theorem evict_eq_foldl (size bytes : ℤ) (victims : List ℕ) : pool.evict env size bytes victims =
      (takeUntil (fun bytes victim => bytes + (pool.value victim).size)
        (fun bytes => bytes ≥ size) bytes victims).foldl (TxMempool.dropTx env) pool := by
  induction victims generalizing pool bytes with
  | nil => rfl
  | cons victim victims ih =>
    rw [TxMempool.evict, takeUntil]
    split
    · rfl
    · exact ih _

theorem txs_dropTxs (hnodup : pool.txs.Nodup) (elements : List ℕ) :
    (elements.foldl (TxMempool.dropTx env) pool).txs =
      pool.txs.filter fun element => element ∉ elements := by
  induction elements generalizing pool with
  | nil => simp
  | cons element elements ih =>
    have hdropped : (pool.dropTx env element).txs = pool.txs.erase element := rfl
    have hrest : (pool.dropTx env element).txs.Nodup := hnodup.erase element
    rw [List.foldl_cons, ih hrest, hdropped, hnodup.erase_eq_filter, List.filter_filter]
    apply List.filter_congr
    intro other _
    rw [bne, Bool.eq_iff_iff]
    simp [and_comm]

theorem value_dropTxs (env : Env) (pool : TxMempool) (elements : List ℕ) :
    (elements.foldl (TxMempool.dropTx env) pool).value = pool.value ∧
      (elements.foldl (TxMempool.dropTx env) pool).next = pool.next := by
  induction elements generalizing pool with
  | nil => exact ⟨rfl, rfl⟩
  | cons element elements ih => exact ih (pool.dropTx env element)

theorem has_dropTxs {elements : List ℕ} {key : TxKey} :
    (elements.foldl (TxMempool.dropTx env) pool).cache.has key = true ↔ pool.cache.has key = true ∧
        ∀ element ∈ elements, key ≠ env.key (pool.value element).tx := by
  induction elements generalizing pool with
  | nil => simp
  | cons element elements ih =>
    have hdropped : (pool.dropTx env element).cache.has key = true ↔
        key ≠ env.key (pool.value element).tx ∧ pool.cache.has key = true :=
      TxCache.has_remove
    have hvalue : (pool.dropTx env element).value = pool.value := rfl
    rw [List.foldl_cons, ih, hdropped, hvalue, List.forall_mem_cons]
    tauto

/-- The key map leads to the other transactions as before. -/
theorem byKey_dropTxs {elements : List ℕ} {key : TxKey}
    (hkey : ∀ element ∈ elements, key ≠ env.key (pool.value element).tx) :
    (elements.foldl (TxMempool.dropTx env) pool).txByKey key = pool.txByKey key := by
  induction elements generalizing pool with
  | nil => rfl
  | cons element elements ih =>
    rw [List.forall_mem_cons] at hkey
    calc ((element :: elements).foldl (TxMempool.dropTx env) pool).txByKey key
        = (pool.dropTx env element).txByKey key := ih hkey.2
      _ = pool.txByKey key := Function.update_of_ne hkey.1 _ _

end

/-! ## The callback of a full mempool -/

structure Evicts (env : Env) (pool later : TxMempool) (wtx : WrappedTx)
    (response : ResponseCheckTx) (evicted : List ℕ) : Prop where
  /-- The evicted ones come first among the transactions of lower priority. -/
  first : ∃ spared, (evicted ++ spared).Perm (pool.victims response.priority) ∧
    (evicted ++ spared).Pairwise pool.MayPrecede
  nonempty : evicted ≠ []
  enough : wtx.size ≤ pool.bytesOf evicted
  shortest : ∀ part, part <+: evicted → part ≠ evicted → part ≠ [] → pool.bytesOf part < wtx.size
  uncached : ∀ element ∈ evicted, later.cache.has (env.key (pool.value element).tx) = false
  txs : later.txs = (pool.txs.filter fun element => element ∉ evicted) ++ [pool.next]
  inserted : later.value pool.next = wtx.withResponse response
  value : ∀ element ∈ pool.txs, later.value element = pool.value element
  byKey : ∀ key ≠ env.key wtx.tx, (∀ element ∈ evicted, key ≠ env.key (pool.value element).tx) →
      later.txByKey key = pool.txByKey key

section

variable {env : Env} {pool : TxMempool} {wtx : WrappedTx} {response : ResponseCheckTx}

theorem makeRoom_of_small {priority : Int64} (hfull : pool.canAddTx env wtx = false)
    (hsmall : pool.victims priority = [] ∨ pool.bytesOf (pool.victims priority) < wtx.size) :
    pool.makeRoom env wtx priority = none := by
  rw [← List.length_eq_zero_iff] at hsmall
  rw [TxMempool.makeRoom, if_neg (by simp [hfull])]
  exact if_pos hsmall

theorem makeRoom_of_large {priority : Int64} (hfull : pool.canAddTx env wtx = false)
    (hlarge : ¬ (pool.victims priority = [] ∨ pool.bytesOf (pool.victims priority) < wtx.size)) :
    pool.makeRoom env wtx priority = some ((pool.evicted wtx.size
        (env.slices.sort pool.evictedBefore (pool.victims priority))).foldl
          (TxMempool.dropTx env) pool) := by
  rw [← List.length_eq_zero_iff] at hlarge
  rw [TxMempool.makeRoom, if_neg (by simp [hfull]), TxMempool.evicted, ← evict_eq_foldl]
  exact if_neg hlarge

theorem evicts_insertTx (hlinked : Linked env pool) {evicted : List ℕ}
    (hevicted : evicted = pool.evicted wtx.size (env.slices.sort pool.evictedBefore (pool.victims
      response.priority)))
    (hlarge : ¬ (pool.victims response.priority = [] ∨ pool.bytesOf (pool.victims response.priority)
      < wtx.size)) :
    Evicts env pool ((evicted.foldl (TxMempool.dropTx env) pool).insertTx env
      (wtx.withResponse response)) wtx response evicted := by
  rw [not_or, not_lt] at hlarge
  have hperm := sorted_victims env pool response.priority
  have hsorted := pairwise_sorted_victims env pool (pool.victims response.priority)
  generalize env.slices.sort pool.evictedBefore (pool.victims response.priority) = sorted at *
  have hne : sorted ≠ [] := by
    intro hnil
    exact hlarge.1 (List.nil_perm.1 (hnil ▸ hperm))
  have henough : wtx.size ≤ pool.bytesOf sorted := hlarge.2.trans_eq (hperm.map _).sum_eq.symm
  obtain ⟨hreached, hshortest⟩ := bytesOf_evicted hne henough
  obtain ⟨spared, hspared⟩ : pool.evicted wtx.size sorted <+: sorted := takeUntil_prefix _ _ _ _
  rw [← hevicted] at hreached hshortest hspared
  obtain ⟨hvalue, hnext⟩ := value_dropTxs env pool evicted
  constructor
  case first =>
    refine ⟨spared, ?_, ?_⟩
    · rw [hspared]
      exact hperm
    · rw [hspared]
      exact hsorted
  case nonempty =>
    rw [hevicted]
    exact (takeUntil_eq_nil _ _ _ _).not.2 hne
  case enough => exact hreached
  case shortest => exact hshortest
  case uncached =>
    intro element helement
    rw [Bool.eq_false_iff]
    intro hhas
    exact (has_dropTxs.1 hhas).2 element helement rfl
  case txs =>
    rw [TxMempool.insertTx, txs_dropTxs hlinked.nodup, hnext]
  case inserted =>
    rw [TxMempool.insertTx, hnext]
    exact Function.update_self _ _ _
  case value =>
    intro element helement
    have hold : element ≠ pool.next := (hlinked.lt_next element helement).ne
    rw [TxMempool.insertTx, hvalue, hnext]
    exact Function.update_of_ne hold _ _
  case byKey =>
    intro key hkey hothers
    calc ((evicted.foldl (TxMempool.dropTx env) pool).insertTx env
          (wtx.withResponse response)).txByKey key
        = (evicted.foldl (TxMempool.dropTx env) pool).txByKey key := Function.update_of_ne hkey _ _
      _ = pool.txByKey key := byKey_dropTxs hothers

end

/-- An accepted transaction that does not fit is dropped if the transactions of lower
priority are too small together, and else takes the place of as few of them as it needs. -/
theorem eviction_minimal (env : Env) {pool : TxMempool} (hlinked : Linked env pool)
    (wtx : WrappedTx) (response : ResponseCheckTx)
    (hpostCheck : (pool.postCheck.bind fun check => check wtx.tx response) = none)
    (hcode : response.code = 0) (hsender : pool.occupant response.sender = none)
    (hfull : pool.canAddTx env wtx = false) :
    let later := (pool.initialTxCallback env wtx (some response)).1
    let victims := pool.victims response.priority
    (victims = [] ∨ pool.bytesOf victims < wtx.size →
      later = { pool with cache := pool.cache.remove (env.key wtx.tx) } ∧
        later.cache.has (env.key wtx.tx) = false) ∧
    (¬ (victims = [] ∨ pool.bytesOf victims < wtx.size) →
      ∃ evicted, Evicts env pool later wtx response evicted) := by
  intro later victims
  constructor
  · intro hsmall
    have hroom := makeRoom_of_small hfull hsmall
    have hlater : later = pool.forget env wtx.tx := by
      simp [later, TxMempool.initialTxCallback, hpostCheck, hcode, hsender, hroom]
    refine ⟨hlater, ?_⟩
    rw [hlater, Bool.eq_false_iff]
    intro hhas
    exact (TxCache.has_remove.1 hhas).1 rfl
  · intro hlarge
    have hlater := initialTxCallback_admitted
      ⟨hpostCheck, hcode, hsender, makeRoom_of_large hfull hlarge⟩
    have hevicts := evicts_insertTx hlinked rfl hlarge
    rw [← hlater] at hevicts
    exact ⟨_, hevicts⟩

namespace Reference

def wrapped (tx : Tx) (priority : Int64) (now : Time) : WrappedTx :=
  (Pool.wrap (tx, 1) now).withResponse (accepted priority)

/-- Three transactions, as many as there may be. -/
def crowded : TxMempool :=
  (((newTxMempool env 1 none none).insertTx env (wrapped [1, 1, 1] 1 5)).insertTx env
    (wrapped [2, 2] 2 6)).insertTx env (wrapped [3, 3] 3 7)

end Reference

open Reference in
/-- A transaction of higher priority replaces others, one of the lowest priority does not. -/
theorem eviction_minimal_reference : crowded.canAddTx env (Pool.wrap ([4, 4, 4, 4], 1) 8) = false ∧
      (∃ evicted, Evicts env crowded (crowded.initialTxCallback env
          (Pool.wrap ([4, 4, 4, 4], 1) 8) (some (accepted 4))).1
        (Pool.wrap ([4, 4, 4, 4], 1) 8) (accepted 4) evicted) ∧
      (crowded.initialTxCallback env (Pool.wrap ([4, 4, 4, 4], 1) 8)
          (some (accepted 1))).1.cache.has (env.key [4, 4, 4, 4]) = false := by
  have hlinked : Linked env crowded :=
    (((linked_newTxMempool 1 none none).insertTx _).insertTx _).insertTx _
  have hfull : crowded.canAddTx env (Pool.wrap ([4, 4, 4, 4], 1) 8) = false := by
    decide +kernel
  have hhigh := eviction_minimal env hlinked (Pool.wrap ([4, 4, 4, 4], 1) 8) (accepted 4)
    rfl rfl rfl hfull
  have hlow := eviction_minimal env hlinked (Pool.wrap ([4, 4, 4, 4], 1) 8) (accepted 1)
    rfl rfl rfl hfull
  exact ⟨hfull, hhigh.2 (by decide +kernel), (hlow.1 (.inl (by decide +kernel))).2⟩

end Dymint.Mempool
