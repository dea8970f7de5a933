import Dymint.Mempool.Commit
import Dymint.Mempool.Eviction
import Mathlib.Algebra.Order.BigOperators.Group.List
import Mathlib.Tactic.Ring

/-!
# Reaping within limits

`ReapMaxBytesMaxGas` adds up the gas and the size of the transactions in order of their
priority and stops before the first one that exceeds a limit.  It counts in `int64`, and
the sums agree with the exact ones modulo 2^64 only.
-/

namespace Dymint.Mempool

open Dymint.Types Runs Cuts

/-! ## The checks of a single transaction -/

def preCheckMaxBytes (env : Env) (maxBytes : Int64) : PreCheckFunc := fun tx =>
  let txSize := env.sizes.computeProtoSizeForTxs [tx]
  if txSize > maxBytes then some s!"tx size is too big: {txSize}, max: {maxBytes}"
  else none

def postCheckMaxGas (maxGas : Int64) : PostCheckFunc := fun _ res =>
  let gasWanted := res.gasWanted
  if maxGas = -1 then none
  else if gasWanted < 0 then some s!"gas wanted {gasWanted} is negative"
  else if gasWanted > maxGas then
    some s!"gas wanted {gasWanted} is greater than max gas {maxGas}"
  else none

/-! ## Exact totals -/

def gasOf (entries : List WrappedTx) : ℤ := (entries.map fun wtx => wtx.gasWanted.toInt).sum

def protoSizeOf (entries : List WrappedTx) : ℕ :=
  (entries.map fun wtx => 1 + wtx.tx.length + sov wtx.tx.length).sum

/-- The totals exceed no limit; a negative limit is none. -/
def Within (maxBytes maxGas : Int64) (totals : ℤ × ℤ) : Prop :=
  (0 ≤ maxGas.toInt → totals.1 ≤ maxGas.toInt) ∧ (0 ≤ maxBytes.toInt → totals.2 ≤ maxBytes.toInt)

instance (maxBytes maxGas : Int64) : DecidablePred (Within maxBytes maxGas) :=
  fun _ => inferInstanceAs (Decidable (_ ∧ _))

def addExact (totals : ℤ × ℤ) (wtx : WrappedTx) : ℤ × ℤ :=
  (totals.1 + wtx.gasWanted.toInt, totals.2 + (1 + wtx.tx.length + sov wtx.tx.length : ℕ))

def exactCut (maxBytes maxGas : Int64) (entries : List WrappedTx) : List WrappedTx :=
  cutWhile addExact (Within maxBytes maxGas) (0, 0) entries

/-! ## Wrapped totals -/

def addWrapped (env : Env) (totals : Int64 × Int64) (wtx : WrappedTx) : Int64 × Int64 :=
  (totals.1 + wtx.gasWanted, totals.2 + env.sizes.computeProtoSizeForTxs [wtx.tx])

def WithinWrapped (maxBytes maxGas : Int64) (totals : Int64 × Int64) : Prop :=
  Within maxBytes maxGas (totals.1.toInt, totals.2.toInt)

instance (maxBytes maxGas : Int64) : DecidablePred (WithinWrapped maxBytes maxGas) :=
  fun _ => inferInstanceAs (Decidable (Within _ _ _))

section

variable {env : Env} {maxBytes maxGas : Int64} {entries : List WrappedTx}

theorem foldl_addExact (totals : ℤ × ℤ) (entries : List WrappedTx) : entries.foldl addExact totals =
      (totals.1 + gasOf entries, totals.2 + protoSizeOf entries) := by
  induction entries generalizing totals with
  | nil => simp [gasOf, protoSizeOf]
  | cons wtx entries ih =>
    have hgas : gasOf (wtx :: entries) = wtx.gasWanted.toInt + gasOf entries := List.sum_cons
    have hsize : protoSizeOf (wtx :: entries) =
        1 + wtx.tx.length + sov wtx.tx.length + protoSizeOf entries :=
      List.sum_cons
    rw [List.foldl_cons, ih, hgas, hsize, addExact]
    push_cast
    ring_nf

theorem foldl_addWrapped (exact : ℤ × ℤ) (entries : List WrappedTx) :
    entries.foldl (addWrapped env) (.ofInt exact.1, .ofInt exact.2) =
      (.ofInt (entries.foldl addExact exact).1, .ofInt (entries.foldl addExact exact).2) := by
  induction entries generalizing exact with
  | nil => rfl
  | cons wtx entries ih =>
    have hstep : addWrapped env (.ofInt exact.1, .ofInt exact.2) wtx =
        (.ofInt (addExact exact wtx).1, .ofInt (addExact exact wtx).2) := by
      simp [addWrapped, addExact, env.sizes.eq_sum, Int64.ofInt_add, Int64.ofInt_eq_ofNat]
    rw [List.foldl_cons, List.foldl_cons, hstep, ih]

theorem keepWithin_eq (totalGas totalBytes : Int64) (entries : List WrappedTx) :
    TxMempool.keepWithin env maxBytes maxGas totalGas totalBytes entries =
      (cutWhile (addWrapped env) (WithinWrapped maxBytes maxGas) (totalGas, totalBytes)
        entries).map WrappedTx.tx := by
  induction entries generalizing totalGas totalBytes with
  | nil => rfl
  | cons wtx entries ih =>
    have hexceeds (totals : Int64 × Int64) :
        ((maxGas ≥ 0 ∧ totals.1 > maxGas) ∨ (maxBytes ≥ 0 ∧ totals.2 > maxBytes)) ↔
          ¬ WithinWrapped maxBytes maxGas totals := by
      simp only [WithinWrapped, Within, ge_iff_le, gt_iff_lt, Int64.le_iff_toInt_le,
        Int64.lt_iff_toInt_lt, Int64.toInt_zero]
      omega
    rw [TxMempool.keepWithin, cutWhile]
    by_cases hwithin : WithinWrapped maxBytes maxGas (addWrapped env (totalGas, totalBytes) wtx)
    · rw [if_pos hwithin, List.map_cons, ← ih]
      exact if_neg ((hexceeds _).not_left.2 hwithin)
    · rw [if_neg hwithin]
      exact if_pos ((hexceeds _).2 hwithin)

theorem withinWrapped_iff (hmemory : protoSizeOf entries < 2 ^ 63) :
    WithinWrapped maxBytes maxGas (entries.foldl (addWrapped env) (0, 0)) ↔
      Within maxBytes maxGas ((gasOf entries).bmod (2 ^ 64), protoSizeOf entries) := by
  have hsize : (protoSizeOf entries : ℤ).bmod (2 ^ 64) = protoSizeOf entries := by
    apply Int.bmod_eq_of_le_mul_two
    · omega
    · push_cast
      omega
  have hfold : entries.foldl (addWrapped env) (0, 0) =
      (.ofInt (gasOf entries), .ofInt (protoSizeOf entries)) := by
    have hwrapped := @foldl_addWrapped env (0, 0) entries
    rw [foldl_addExact] at hwrapped
    simp only [zero_add] at hwrapped
    exact hwrapped
  have hwidth : Int64.size = 2 ^ 64 := rfl
  rw [WithinWrapped, hfold, Int64.toInt_ofInt, Int64.toInt_ofInt, hwidth, hsize]

theorem within_iff : Within maxBytes maxGas (entries.foldl addExact (0, 0)) ↔
    Within maxBytes maxGas (gasOf entries, protoSizeOf entries) := by
  rw [foldl_addExact, zero_add, zero_add]

theorem protoSizeOf_le {part : List WrappedTx} (hpart : part <+: entries) :
    protoSizeOf part ≤ protoSizeOf entries :=
  (hpart.sublist.map _).sum_le_sum fun _ _ => Nat.zero_le _

end

structure SumsFit (maxBytes maxGas : Int64) (entries : List WrappedTx) : Prop where
  within : 0 ≤ maxGas.toInt → ∀ part, part <+: exactCut maxBytes maxGas entries →
    part ≠ [] → (gasOf part).bmod (2 ^ 64) ≤ maxGas.toInt
  beyond : ∀ next, exactCut maxBytes maxGas entries ++ [next] <+: entries → (0 ≤ maxBytes.toInt →
      protoSizeOf (exactCut maxBytes maxGas entries ++ [next]) ≤ maxBytes.toInt) →
    gasOf (exactCut maxBytes maxGas entries ++ [next]) < 2 ^ 63

section

variable {env : Env} {maxBytes maxGas : Int64} {entries : List WrappedTx}

theorem lt_bmod_iff {limit total last : ℤ} (hlimit : 0 ≤ limit) (hlimit' : limit < 2 ^ 63)
    (hlast : last < 2 ^ 63) (hbefore : total ≤ limit + last) (habove : limit < total) :
    limit < total.bmod (2 ^ 64) ↔ total < 2 ^ 63 := by
  rw [Int.bmod_def]
  split <;> omega

theorem gasOf_append_singleton (entries : List WrappedTx) (next : WrappedTx) :
    gasOf (entries ++ [next]) = gasOf entries + next.gasWanted.toInt := by
  simp [gasOf]

theorem cutWrapped_eq_iff (hmemory : protoSizeOf entries < 2 ^ 63) :
    cutWhile (addWrapped env) (WithinWrapped maxBytes maxGas) (0, 0) entries =
        exactCut maxBytes maxGas entries ↔
      SumsFit maxBytes maxGas entries := by
  have hfits {part : List WrappedTx} (hpart : part <+: entries) : protoSizeOf part < 2 ^ 63 :=
    (protoSizeOf_le hpart).trans_lt hmemory
  obtain ⟨hcut, hgood, hnext⟩ := cutWhile_eq_iff.1
    (rfl : exactCut maxBytes maxGas entries = exactCut maxBytes maxGas entries)
  have hwhole : 0 ≤ maxGas.toInt → gasOf (exactCut maxBytes maxGas entries) ≤ maxGas.toInt := by
    intro hlimit
    by_cases hnil : exactCut maxBytes maxGas entries = []
    · rw [hnil]
      exact hlimit
    · exact (within_iff.1 (hgood _ List.prefix_rfl hnil)).1 hlimit
  -- The next entry is over the limit for wrapped totals unless its gas has wrapped.
  have hover (next : WrappedTx) (hextended : exactCut maxBytes maxGas entries ++ [next] <+:
      entries) :
      ¬ WithinWrapped maxBytes maxGas
          ((exactCut maxBytes maxGas entries ++ [next]).foldl (addWrapped env) (0, 0)) ↔
        ((0 ≤ maxBytes.toInt →
            protoSizeOf (exactCut maxBytes maxGas entries ++ [next]) ≤ maxBytes.toInt) →
          gasOf (exactCut maxBytes maxGas entries ++ [next]) < 2 ^ 63) := by
    have hexact := within_iff.not.1 (hnext next hextended)
    have hlimit := Int64.toInt_lt maxGas
    have hlast := Int64.toInt_lt next.gasWanted
    rw [withinWrapped_iff (hfits hextended)]
    simp only [Within, gasOf_append_singleton] at hexact ⊢
    have hwrap (hnonneg : 0 ≤ maxGas.toInt) := lt_bmod_iff hnonneg hlimit hlast
      (add_le_add_left (hwhole hnonneg) _)
    grind
  rw [cutWhile_eq_iff]
  constructor
  · rintro ⟨-, hgood', hnext'⟩
    constructor
    · intro hlimit part hpart hne
      exact ((withinWrapped_iff (hfits (hpart.trans hcut))).1 (hgood' part hpart hne)).1 hlimit
    · intro next hextended
      exact (hover next hextended).1 (hnext' next hextended)
  · rintro ⟨hwithin, hbeyond⟩
    refine ⟨hcut, ?_, ?_⟩
    · intro part hpart hne
      have hexact := within_iff.1 (hgood part hpart hne)
      exact (withinWrapped_iff (hfits (hpart.trans hcut))).2
        ⟨fun hlimit => hwithin hlimit part hpart hne, hexact.2⟩
    · intro next hextended
      exact (hover next hextended).2 (hbeyond next hextended)

end

/-! ## The order of the entries -/

section

variable {pool : TxMempool} {i j : ℕ}

/-- The entries are reaped in the opposite of the order in which they are evicted. -/
theorem reapedBefore_eq_false : pool.reapedBefore j i = false ↔ pool.MayPrecede j i := by
  rw [mayPrecede_iff, TxMempool.reapedBefore]
  split
  case isTrue hequal =>
    rw [decide_eq_false_iff_not, not_lt, hequal]
    simp
  case isFalse hne =>
    rw [← Int64.toInt_inj] at hne
    rw [decide_eq_false_iff_not, gt_iff_lt, Int64.lt_iff_toInt_lt, not_lt]
    grind

theorem pairwise_allEntriesSorted (env : Env) (pool : TxMempool) (elements : List ℕ) :
    (pool.allEntriesSorted env elements).Pairwise fun first later =>
      later.priority < first.priority ∨
        later.priority = first.priority ∧ first.timestamp ≤ later.timestamp := by
  have htrans (a b c : ℕ) (hab : pool.reapedBefore b a = false)
      (hbc : pool.reapedBefore c b = false) : pool.reapedBefore c a = false := by
    rw [reapedBefore_eq_false] at hab hbc ⊢
    exact hbc.trans hab
  have htotal (a b : ℕ) : pool.reapedBefore a b = false ∨ pool.reapedBefore b a = false := by
    rw [reapedBefore_eq_false, reapedBefore_eq_false]
    exact mayPrecede_total pool a b
  have hsorted := env.slices.sorted pool.reapedBefore elements htrans htotal
  exact List.pairwise_map.2 (hsorted.imp fun hbefore => reapedBefore_eq_false.1 hbefore)

end

/-- The entries are in order, and the longest segment of them within the exact limits is
reaped if and only if the sums fit into an `int64`.  What is in memory has fewer than 2^63
bytes. -/
theorem reap_exact_iff (env : Env) (pool : TxMempool) (elements : List ℕ) (maxBytes maxGas : Int64)
    (hmemory : protoSizeOf (pool.allEntriesSorted env elements) < 2 ^ 63) :
    let entries := pool.allEntriesSorted env elements
    entries.Perm (elements.map pool.value) ∧
      (entries.Pairwise fun first later => later.priority < first.priority ∨
        later.priority = first.priority ∧ first.timestamp ≤ later.timestamp) ∧
      (pool.reapMaxBytesMaxGas env elements maxBytes maxGas =
          (exactCut maxBytes maxGas entries).map WrappedTx.tx ↔
        SumsFit maxBytes maxGas entries) := by
  intro entries
  refine ⟨(env.slices.perm _ _).map _, pairwise_allEntriesSorted env pool elements, ?_⟩
  have hwrapped : cutWhile (addWrapped env) (WithinWrapped maxBytes maxGas) (0, 0) entries <+:
      entries := (cutWhile_eq_iff.1 rfl).1
  have hexact : exactCut maxBytes maxGas entries <+: entries := (cutWhile_eq_iff.1 rfl).1
  rw [← cutWrapped_eq_iff hmemory, TxMempool.reapMaxBytesMaxGas, keepWithin_eq]
  constructor
  · intro hequal
    -- Both are initial segments of the entries, so their lengths determine them.
    have hlength := congrArg List.length hequal
    rw [List.length_map, List.length_map] at hlength
    exact (List.prefix_of_prefix_length_le hwrapped hexact hlength.le).eq_of_length hlength
  · intro hequal
    rw [hequal]

namespace Reference

/-- As much gas as an `int64` can hold. -/
def allGas : Int64 := 9223372036854775807

def checked : Lts Pool Action :=
  Pool.lts env 1 (some (preCheckMaxBytes env 8)) (some (postCheckMaxGas allGas))

def greedy : List Action := [.checkTx [1] none, .response 0 (some ⟨0, allGas, 2, ""⟩) 5,
    .checkTx [2] none, .response 0 (some ⟨0, allGas, 1, ""⟩) 6]

end Reference

open Reference in
/-- Two transactions pass the check of their gas and are reaped together, although the
gas of one of them is all that there is. -/
theorem reap_wraps : ∃ move ∈ checked.path checked.start greedy, move.target.mempool.Ranged [0, 1] ∧
      move.target.mempool.reapMaxBytesMaxGas env [0, 1] (-1) allGas = [[1], [2]] ∧
      gasOf (move.target.mempool.allEntriesSorted env [0, 1]) > allGas.toInt := by
  have hview : (([0, 1] : List ℕ), [[1], [2]], true) ∈
      (checked.path checked.start greedy).map fun move =>
          (move.target.mempool.txs.filter fun element => move.target.mempool.txByKey
              (env.key (move.target.mempool.value element).tx) = some element,
            move.target.mempool.reapMaxBytesMaxGas env [0, 1] (-1) allGas,
            decide (gasOf (move.target.mempool.allEntriesSorted env [0, 1]) > allGas.toInt)) := by
    decide +kernel
  obtain ⟨move, hmove, hmove'⟩ := List.mem_map.1 hview
  rw [Prod.mk.injEq, Prod.mk.injEq] at hmove'
  obtain ⟨hranged, hreaped, hgas⟩ := hmove'
  have hstep (pool : Pool) (action : Action) (next : Pool) (hpool : Linked env pool.mempool)
      (hnext : checked.step pool action = some next) : Linked env next.mempool :=
    hpool.step hnext
  have hlinked := Lts.forall_path hstep (linked_newTxMempool _ _ _) greedy move hmove
  exact ⟨move, hmove, hranged ▸ Traffic.ranged_of_linked hlinked, hreaped, of_decide_eq_true hgas⟩

open Reference in
/-- The third of three transactions would exceed the gas limit. -/
theorem reap_exact_reference : protoSizeOf (crowded.allEntriesSorted env [0, 1, 2]) < 2 ^ 63 ∧
      crowded.reapMaxBytesMaxGas env [0, 1, 2] (-1) 2 = [[3, 3], [2, 2]] ∧
      SumsFit (-1) 2 (crowded.allEntriesSorted env [0, 1, 2]) := by
  have hmemory : protoSizeOf (crowded.allEntriesSorted env [0, 1, 2]) < 2 ^ 63 := by
    decide +kernel
  have hreaped : crowded.reapMaxBytesMaxGas env [0, 1, 2] (-1) 2 = [[3, 3], [2, 2]] := by
    decide +kernel
  have hexact : (exactCut (-1) 2 (crowded.allEntriesSorted env [0, 1, 2])).map
      WrappedTx.tx = [[3, 3], [2, 2]] := by
    decide +kernel
  exact ⟨hmemory, hreaped, (reap_exact_iff env crowded [0, 1, 2] (-1) 2 hmemory).2.2.1
    (hreaped.trans hexact.symm)⟩

end Dymint.Mempool
