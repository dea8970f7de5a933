import Dymint.Mempool.Mempool
import Mathlib.Data.List.Nodup

/-!
# What the operations of the mempool do

Every operation removes elements of the list, changes the priority of elements
or touches none of the list, the maps and the byte count, except that the
callback of an accepted `CheckTx` inserts one element after that.
-/

namespace Dymint.Mempool

open Dymint.Types Runs

/-- An element is removed or gets another priority, or the list and the maps stay as they are. -/
inductive Small (env : Env) : TxMempool → TxMempool → Prop
  | remove {pool : TxMempool} {element : ℕ} (helement : element ∈ pool.txs) :
      Small env pool (pool.removeTxByElement env element)
  | reprioritize (pool : TxMempool) (element : ℕ) (priority : Int64) :
      Small env pool { pool with
        value := Function.update pool.value element
          { pool.value element with priority := priority } }
  | other (pool : TxMempool) (cache : TxCache) (txRecheck : ℤ)
      (preCheck : Option PreCheckFunc) (postCheck : Option PostCheckFunc)
      (height : Int64) :
      Small env pool { pool with
        cache := cache
        txRecheck := txRecheck
        preCheck := preCheck
        postCheck := postCheck
        height := height }

/-- Any number of such changes. -/
abbrev Shrinks (env : Env) : TxMempool → TxMempool → Prop := Relation.ReflTransGen (Small env)

/-- The elements are distinct, and the map finds those of the list under their own keys. -/
structure Linked (env : Env) (pool : TxMempool) : Prop where
  nodup : pool.txs.Nodup
  lt_next : ∀ element ∈ pool.txs, element < pool.next
  byKey : ∀ key element, pool.txByKey key = some element →
    element ∈ pool.txs ∧ env.key (pool.value element).tx = key

section

variable {env : Env} {pool later : TxMempool}

section

variable (hsmall : Small env pool later)

include hsmall

/-- Transactions and senders do not change. -/
theorem Small.value (element : ℕ) :
    (later.value element).tx = (pool.value element).tx ∧
      (later.value element).sender = (pool.value element).sender := by
  cases hsmall with
  | remove | other => exact ⟨rfl, rfl⟩
  | reprioritize changed priority =>
    by_cases helement : element = changed
    · subst helement
      simp
    · simp [Function.update_of_ne helement]

theorem Small.sublist : later.txs.Sublist pool.txs := by
  cases hsmall with
  | remove => exact List.erase_sublist
  | other | reprioritize => exact .refl _

theorem Small.next_eq : later.next = pool.next := by
  cases hsmall <;> rfl

theorem Small.byKey {key : TxKey} {element : ℕ} (hkey : later.txByKey key = some element) :
    pool.txByKey key = some element := by
  cases hsmall with
  | other | reprioritize => exact hkey
  | remove =>
    rename_i removed hremoved
    by_cases hsame : key = env.key (pool.value removed).tx
    · subst hsame
      simp [TxMempool.removeTxByElement] at hkey
    · simpa [TxMempool.removeTxByElement, Function.update_of_ne hsame] using hkey

theorem Small.linked (hpool : Linked env pool) :
    Linked env later := by
  constructor
  · exact hpool.nodup.sublist hsmall.sublist
  · intro element helement
    rw [hsmall.next_eq]
    exact hpool.lt_next element (hsmall.sublist.subset helement)
  · intro key element hkey
    obtain ⟨hmem, hfound⟩ := hpool.byKey key element (hsmall.byKey hkey)
    refine ⟨?_, (congrArg env.key (hsmall.value element).1).trans hfound⟩
    cases hsmall with
    | other | reprioritize => exact hmem
    | remove =>
      refine (List.mem_erase_of_ne ?_).2 hmem
      rintro rfl
      simp [TxMempool.removeTxByElement, hfound] at hkey

end

/-- The links survive every change. -/
theorem Shrinks.linked (hpool : Linked env pool) (hshrinks : Shrinks env pool later) :
    Linked env later := by
  induction hshrinks with
  | refl => exact hpool
  | tail _ hsmall ih => exact hsmall.linked ih

theorem Shrinks.value (hshrinks : Shrinks env pool later) (element : ℕ) :
    (later.value element).tx = (pool.value element).tx ∧
      (later.value element).sender = (pool.value element).sender := by
  induction hshrinks with
  | refl => exact ⟨rfl, rfl⟩
  | tail _ hsmall ih =>
    have hlast := hsmall.value element
    exact ⟨hlast.1.trans ih.1, hlast.2.trans ih.2⟩

theorem Shrinks.sublist (hshrinks : Shrinks env pool later) : later.txs.Sublist pool.txs := by
  induction hshrinks with
  | refl => exact .refl _
  | tail _ hsmall ih => exact hsmall.sublist.trans ih

variable {key : TxKey} {element : ℕ}

theorem Shrinks.byKey (hshrinks : Shrinks env pool later)
    (hkey : later.txByKey key = some element) : pool.txByKey key = some element := by
  induction hshrinks with
  | refl => exact hkey
  | tail _ hsmall ih => exact ih (hsmall.byKey hkey)

theorem Shrinks.next_eq (hshrinks : Shrinks env pool later) : later.next = pool.next := by
  induction hshrinks with
  | refl => rfl
  | tail _ hsmall ih => exact hsmall.next_eq.trans ih

/-! ## The single operations -/

theorem shrinks_forget (tx : Tx) : Shrinks env pool (pool.forget env tx) :=
  .single (.other pool _ _ _ _ _)

theorem removeTxByKey_eq (hpool : Linked env pool) (hkey : pool.txByKey key = some element) :
    pool.removeTxByKey key = some (pool.removeTxByElement env element) := by
  rw [TxMempool.removeTxByKey, hkey, TxMempool.removeTxByElement, (hpool.byKey key element hkey).2]

theorem shrinks_removeTxByKey (hpool : Linked env pool) (key : TxKey) :
    Shrinks env pool ((pool.removeTxByKey key).getD pool) := by
  cases hkey : pool.txByKey key with
  | none =>
    rw [TxMempool.removeTxByKey, hkey]
    exact .refl
  | some element =>
    rw [removeTxByKey_eq hpool hkey]
    exact .single (.remove (hpool.byKey key element hkey).1)

theorem shrinks_checkTx (tx : Tx) (proxyError : Option String) :
    Shrinks env pool (pool.checkTx env tx proxyError).1 := by
  unfold TxMempool.checkTx
  split
  · exact .refl
  · split
    · exact .refl
    · split
      · exact .refl
      · exact .single (.other pool _ _ _ _ _)

/-- A loop over distinct elements of the list. -/
theorem shrinks_foldl {round : TxMempool → ℕ → TxMempool}
    (hround : ∀ pool element, element ∈ pool.txs → Shrinks env pool (round pool element))
    (hkeeps : ∀ pool element other, other ≠ element → other ∈ pool.txs → other ∈ (round pool
      element).txs) {elements : List ℕ} (hnodup : elements.Nodup)
    (helements : ∀ element ∈ elements, element ∈ pool.txs) :
    Shrinks env pool (elements.foldl round pool) := by
  induction elements generalizing pool with
  | nil => exact .refl
  | cons element elements ih =>
    rw [List.nodup_cons] at hnodup
    rw [List.forall_mem_cons] at helements
    apply (hround pool element helements.1).trans
    apply ih hnodup.2
    intro other hother
    apply hkeeps pool element other _ (helements.2 other hother)
    rintro rfl
    exact hnodup.1 hother

variable (env) in
theorem mem_removeTxByElement {element other : ℕ} (hne : other ≠ element)
    (hother : other ∈ pool.txs) : other ∈ (pool.removeTxByElement env element).txs :=
  (List.mem_erase_of_ne hne).2 hother

section

variable (hpool : Linked env pool)

include hpool

theorem shrinks_flush : Shrinks env pool (pool.flush env) := by
  have hremoved : Shrinks env pool (pool.txs.foldl (TxMempool.removeTxByElement env) pool) :=
    shrinks_foldl (fun _ _ helement => .single (.remove helement))
      (fun _ _ _ => mem_removeTxByElement env) hpool.nodup fun _ => id
  exact hremoved.tail (.other _ _ _ _ _ _)

theorem shrinks_commitTx (entry : Tx × ResponseDeliverTx) :
    Shrinks env pool (pool.commitTx env entry) := by
  have hcache (cache : TxCache) : Small env pool { pool with cache := cache } :=
    .other pool _ _ _ _ _
  have hlinked (cache : TxCache) : Linked env { pool with cache := cache } :=
    (hcache cache).linked hpool
  exact .head (hcache _) (shrinks_removeTxByKey (hlinked _) _)

theorem shrinks_commitTxs (entries : List (Tx × ResponseDeliverTx)) :
    Shrinks env pool (entries.foldl (TxMempool.commitTx env) pool) := by
  induction entries generalizing pool with
  | nil => exact .refl
  | cons entry entries ih =>
    have hfirst := shrinks_commitTx hpool entry
    exact hfirst.trans (ih (hfirst.linked hpool))

theorem shrinks_purgeExpiredTxs (blockHeight : Int64) (now : Time) :
    Shrinks env pool (pool.purgeExpiredTxs env blockHeight now) := by
  unfold TxMempool.purgeExpiredTxs
  split
  · exact .refl
  · refine shrinks_foldl ?_ ?_ hpool.nodup fun _ => id
    · intro pool element helement
      unfold TxMempool.purgeTx
      dsimp only
      split
      · exact (Relation.ReflTransGen.single (.remove helement)).trans (shrinks_forget _)
      · exact .refl
    · intro pool element other hne hother
      unfold TxMempool.purgeTx
      dsimp only
      split
      · exact mem_removeTxByElement env hne hother
      · exact hother

/-- `Update` commits the transactions of a block and purges the expired ones. -/
theorem shrinks_update {blockHeight : Int64} {blockTxs : List Tx}
    {deliverTxResponses : List ResponseDeliverTx} {newPreFn : Option PreCheckFunc}
    {newPostFn : Option PostCheckFunc} {now : Time}
    (hupdate : pool.update env blockHeight blockTxs deliverTxResponses newPreFn newPostFn now = some
      later) : Shrinks env pool later := by
  unfold TxMempool.update at hupdate
  split at hupdate
  · cases hupdate
  · obtain rfl := Option.some.inj hupdate
    have hset : Small env pool { pool with
        height := blockHeight
        preCheck := newPreFn.or pool.preCheck
        postCheck := newPostFn.or pool.postCheck } := .other pool _ _ _ _ _
    have hlinked := hset.linked hpool
    have hcommitted := shrinks_commitTxs hlinked (blockTxs.zip deliverTxResponses)
    exact .head hset (hcommitted.trans
      (shrinks_purgeExpiredTxs (hcommitted.linked hlinked) blockHeight now))

theorem shrinks_recheckTx (tx : Tx) (response : ResponseCheckTx) :
    Shrinks env pool (pool.recheckTx env tx response) := by
  unfold TxMempool.recheckTx
  split
  · exact .refl
  · rename_i element hkey
    dsimp only
    split
    · exact .single (.reprioritize pool element response.priority)
    · have hremoved : Shrinks env pool (pool.removeTxByElement env element) :=
        .single (.remove (hpool.byKey _ element hkey).1)
      split
      · exact hremoved.trans (shrinks_forget _)
      · exact hremoved

end

theorem shrinks_evict {size evictedBytes : ℤ} {victims : List ℕ} (hnodup : victims.Nodup)
    (hvictims : ∀ victim ∈ victims, victim ∈ pool.txs) :
    Shrinks env pool (pool.evict env size evictedBytes victims) := by
  induction victims generalizing pool evictedBytes with
  | nil => exact .refl
  | cons victim victims ih =>
    rw [List.nodup_cons] at hnodup
    rw [List.forall_mem_cons] at hvictims
    have hevicted : Shrinks env pool ((pool.removeTxByElement env victim).forget
        env (pool.value victim).tx) :=
      (Relation.ReflTransGen.single (.remove hvictims.1)).trans (shrinks_forget _)
    rw [TxMempool.evict]
    split
    · exact hevicted
    · apply hevicted.trans
      apply ih hnodup.2
      intro other hother
      have hne : other ≠ victim := by
        rintro rfl
        exact hnodup.1 hother
      exact mem_removeTxByElement env hne (hvictims.2 other hother)

variable (env) in
theorem sorted_victims (pool : TxMempool) (priority : Int64) :
    (env.slices.sort pool.evictedBefore (pool.victims priority)).Perm (pool.victims priority) :=
  env.slices.perm _ _

variable {wtx : WrappedTx}

/-- Making room evicts at most. -/
theorem shrinks_makeRoom (hpool : Linked env pool) {priority : Int64}
    (hroom : pool.makeRoom env wtx priority = some later) : Shrinks env pool later := by
  unfold TxMempool.makeRoom at hroom
  split at hroom
  · obtain rfl := Option.some.inj hroom
    exact .refl
  · dsimp only at hroom
    split at hroom
    · cases hroom
    · obtain rfl := Option.some.inj hroom
      have hperm := sorted_victims env pool priority
      apply shrinks_evict
      · exact hperm.nodup_iff.2 (hpool.nodup.filter _)
      · intro victim hvictim
        exact List.mem_of_mem_filter (hperm.subset hvictim)

/-! ## The callback of `CheckTx` -/

/-- The response gets the transaction accepted, and `room` is the pool it is then
inserted into. -/
structure Admitted (env : Env) (pool : TxMempool) (wtx : WrappedTx)
    (response : ResponseCheckTx) (room : TxMempool) : Prop where
  postCheck : (pool.postCheck.bind fun check => check wtx.tx response) = none
  code : response.code = 0
  sender : pool.occupant response.sender = none
  room : pool.makeRoom env wtx response.priority = some room

/-- The transaction as it is inserted. -/
def WrappedTx.withResponse (wtx : WrappedTx) (response : ResponseCheckTx) : WrappedTx :=
  { wtx with
    gasWanted := response.gasWanted
    priority := response.priority
    sender := response.sender }

theorem initialTxCallback_admitted {response : ResponseCheckTx} {room : TxMempool}
    (hadmitted : Admitted env pool wtx response room) :
    (pool.initialTxCallback env wtx (some response)).1 =
      room.insertTx env (wtx.withResponse response) := by
  simp [TxMempool.initialTxCallback, hadmitted.postCheck, hadmitted.code,
    hadmitted.sender, hadmitted.room, WrappedTx.withResponse]

/-- Without admission, the callback inserts nothing. -/
theorem shrinks_initialTxCallback {response : Option ResponseCheckTx}
    (hadmitted : ∀ given room, response = some given → ¬ Admitted env pool wtx given room) :
    Shrinks env pool (pool.initialTxCallback env wtx response).1 := by
  cases response with
  | none => exact .refl
  | some response =>
    unfold TxMempool.initialTxCallback
    dsimp only
    split
    · split
      · exact shrinks_forget _
      · exact .refl
    · rename_i haccepted
      rw [not_or, Option.not_isSome_iff_eq_none, not_not] at haccepted
      cases hsender : pool.occupant response.sender with
      | some element => exact .refl
      | none =>
        cases hroom : pool.makeRoom env wtx response.priority with
        | none => exact shrinks_forget _
        | some room =>
          exact absurd ⟨haccepted.1, haccepted.2, hsender, hroom⟩ (hadmitted response room rfl)

/-! ## The moves -/

/-- The move inserts a transaction into the pool `room`. -/
def Inserts (env : Env) (pool : Pool) (action : Action) (wtx : WrappedTx)
    (room : TxMempool) : Prop :=
  ∃ index response now call, action = .response index (some response) now ∧
    pool.inFlight[index]? = some call ∧
    Admitted env pool.mempool (Pool.wrap call now) response room ∧
    wtx = (Pool.wrap call now).withResponse response

variable {action : Action}

/-- A move that inserts nothing shrinks the pool. -/
theorem shrinks_step {pool next : Pool} (hpool : Linked env pool.mempool)
    (hstep : Pool.step env pool action = some next)
    (hinserts : ∀ wtx room, ¬ Inserts env pool action wtx room) :
    Shrinks env pool.mempool next.mempool := by
  cases action with
  | checkTx tx proxyError =>
    obtain rfl := Option.some.inj hstep
    exact shrinks_checkTx tx proxyError
  | flushFailed index =>
    obtain rfl := Option.some.inj hstep
    exact .refl
  | response index response now =>
    obtain ⟨call, hcall, hstep⟩ := Option.bind_eq_some_iff.1 hstep
    obtain rfl := Option.some.inj hstep
    apply shrinks_initialTxCallback
    rintro given room rfl hadmitted
    exact hinserts _ room ⟨index, given, now, call, rfl, hcall, hadmitted, rfl⟩
  | removeTxByKey key =>
    obtain rfl := Option.some.inj hstep
    exact shrinks_removeTxByKey hpool key
  | update blockHeight blockTxs deliverTxResponses newPreFn newPostFn now =>
    obtain ⟨mempool, hupdate, hstep⟩ := Option.bind_eq_some_iff.1 hstep
    obtain rfl := Option.some.inj hstep
    exact shrinks_update hpool hupdate
  | startRecheck | recheckFlushFailed | recheckResponse =>
    obtain rfl := Option.some.inj hstep
    exact .single (.other _ _ _ _ _ _)
  | recheckLocked index =>
    obtain ⟨⟨tx, response⟩, -, hstep⟩ := Option.bind_eq_some_iff.1 hstep
    obtain rfl := Option.some.inj hstep
    exact shrinks_recheckTx hpool tx response
  | flush =>
    obtain rfl := Option.some.inj hstep
    exact shrinks_flush hpool

/-- A move that inserts makes room first. -/
theorem step_of_inserts {pool next : Pool} {room : TxMempool}
    (hpool : Linked env pool.mempool) (hstep : Pool.step env pool action = some next)
    (hinserts : Inserts env pool action wtx room) :
    Shrinks env pool.mempool room ∧ next.mempool = room.insertTx env wtx := by
  obtain ⟨index, response, now, call, rfl, hcall, hadmitted, rfl⟩ := hinserts
  obtain ⟨call', hcall', hstep⟩ := Option.bind_eq_some_iff.1 hstep
  obtain rfl := Option.some.inj (hcall.symm.trans hcall')
  obtain rfl := Option.some.inj hstep
  exact ⟨shrinks_makeRoom hpool hadmitted.room, initialTxCallback_admitted hadmitted⟩

theorem Linked.insertTx (hpool : Linked env pool) (wtx : WrappedTx) :
    Linked env (pool.insertTx env wtx) := by
  have hnew : pool.next ∉ pool.txs := fun hmem =>
    absurd (hpool.lt_next _ hmem) (lt_irrefl _)
  constructor
  · rw [TxMempool.insertTx, List.nodup_append]
    refine ⟨hpool.nodup, List.nodup_singleton _, ?_⟩
    intro element helement other hother heq
    rw [heq, List.mem_singleton.1 hother] at helement
    exact hnew helement
  · intro element helement
    rcases List.mem_append.1 helement with hold | hlast
    · exact Nat.lt_succ_of_lt (hpool.lt_next element hold)
    · rw [List.mem_singleton.1 hlast]
      exact Nat.lt_succ_self _
  · intro key element hkey
    by_cases hsame : key = env.key wtx.tx
    · subst hsame
      obtain rfl : pool.next = element := by
        simpa [TxMempool.insertTx] using hkey
      simp [TxMempool.insertTx]
    · have hbefore : pool.txByKey key = some element := by
        simpa [TxMempool.insertTx, Function.update_of_ne hsame] using hkey
      obtain ⟨hmem, hvalue⟩ := hpool.byKey key element hbefore
      have hne : element ≠ pool.next := by
        rintro rfl
        exact hnew hmem
      simp [TxMempool.insertTx, hmem, Function.update_of_ne hne, hvalue]

/-- Every move keeps the links. -/
theorem Linked.step {pool next : Pool} (hpool : Linked env pool.mempool)
    (hstep : Pool.step env pool action = some next) : Linked env next.mempool := by
  by_cases hinserts : ∃ wtx room, Inserts env pool action wtx room
  · obtain ⟨wtx, room, hinserts⟩ := hinserts
    obtain ⟨hroom, hnext⟩ := step_of_inserts hpool hstep hinserts
    rw [hnext]
    exact (hroom.linked hpool).insertTx wtx
  · rw [not_exists] at hinserts
    have hshrinks := shrinks_step hpool hstep fun wtx room h => hinserts wtx ⟨room, h⟩
    exact hshrinks.linked hpool

theorem linked_newTxMempool (height : Int64) (preCheck : Option PreCheckFunc)
    (postCheck : Option PostCheckFunc) :
    Linked env (newTxMempool env height preCheck postCheck) where
  nodup := List.nodup_nil
  lt_next _ helement := by cases helement
  byKey _ _ hkey := by cases hkey

end

end Dymint.Mempool
