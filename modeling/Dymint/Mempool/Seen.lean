import Dymint.Mempool.Invariant

/-!
# What the cache of seen transactions remembers

`CheckTx` pushes the key of its transaction into the cache, and whatever ends the
transaction's way into the pool, or its stay there, has to take the key out again;
otherwise the transaction cannot be submitted a second time.  Only a delivery and
`RemoveTxByKey` are meant to leave the key behind.
-/

namespace Dymint.Mempool

open Dymint.Types Runs

/-! ## The keys of a cache -/

namespace TxCache

variable {cache : TxCache} {key other : TxKey}

theorem has_of_has_push (hhas : (cache.push key).1.has other = true) :
    other = key ∨ cache.has other = true := by
  cases cache with
  | nop => cases hhas
  | lru cache =>
    by_cases hkey : other = key
    · exact .inl hkey
    right
    change (cache.cacheMap other).isSome = true
    unfold TxCache.push LRUTxCache.push at hhas
    cases hfound : cache.cacheMap key with
    | some moved => simpa [has, LRUTxCache.has, hfound] using hhas
    | none =>
      simp only [hfound, has, LRUTxCache.has, Function.update_of_ne hkey] at hhas
      unfold LRUTxCache.dropFront at hhas
      split at hhas
      · split at hhas
        · exact hhas
        · rename_i front rest _
          by_cases hfront : other = front.2
          · simp [hfront] at hhas
          · simpa [Function.update_of_ne hfront] using hhas
      · exact hhas

/-- The flag of `Push` says whether the key is new. -/
theorem push_snd : (cache.push key).2 = !cache.has key := by
  cases cache with
  | nop => rfl
  | lru cache =>
    change (cache.push key).2 = !(cache.cacheMap key).isSome
    unfold LRUTxCache.push
    cases cache.cacheMap key <;> rfl

theorem has_push_self : (cache.push key).1.has key = true ↔ cache ≠ .nop := by
  cases cache with
  | nop => simp [push, has]
  | lru cache =>
    refine iff_of_true ?_ nofun
    change ((cache.push key).1.cacheMap key).isSome = true
    unfold LRUTxCache.push
    cases hfound : cache.cacheMap key with
    | some moved => simp [hfound]
    | none => simp

theorem has_remove : (cache.remove key).has other = true ↔
    other ≠ key ∧ cache.has other = true := by
  cases cache with
  | nop => simp [remove, has]
  | lru cache =>
    change (Function.update cache.cacheMap key none other).isSome = true ↔
      other ≠ key ∧ (cache.cacheMap other).isSome = true
    by_cases hother : other = key
    · simp [hother]
    · simp [hother]

theorem has_reset : cache.reset.has key = false := by
  cases cache <;> rfl

end TxCache

/-! ## Keys that are accounted for -/

def InPool (env : Env) (pool : TxMempool) (key : TxKey) : Prop :=
  ∃ element ∈ pool.txs, env.key (pool.value element).tx = key

def Accounted (env : Env) (excuse : TxKey → Prop) (pool : TxMempool) : Prop :=
  ∀ key, pool.cache.has key = true → InPool env pool key ∨ excuse key

variable {key : TxKey}

section

variable {env : Env} {excuse : TxKey → Prop} {pool : TxMempool}

theorem Accounted.mono {weaker : TxKey → Prop} (hpool : Accounted env excuse pool)
    (hexcuse : ∀ key, excuse key → weaker key) : Accounted env weaker pool :=
  fun key hkey => (hpool key hkey).imp_right (hexcuse key)

theorem InPool.removeTxByElement {element : ℕ} (hkey : InPool env pool key)
    (hne : env.key (pool.value element).tx ≠ key) :
    InPool env (pool.removeTxByElement env element) key := by
  obtain ⟨other, hother, hvalue⟩ := hkey
  have hdistinct : other ≠ element := by
    rintro rfl
    exact hne hvalue
  exact ⟨other, mem_removeTxByElement env hdistinct hother, hvalue⟩

theorem Accounted.forget {tx : Tx}
    (hpool : Accounted env (fun key => excuse key ∨ key = env.key tx) pool) :
    Accounted env excuse (pool.forget env tx) := by
  intro key hkey
  obtain ⟨hne, hbefore⟩ := TxCache.has_remove.1 hkey
  rcases hpool key hbefore with hin | hexcuse | hsame
  · exact .inl hin
  · exact .inr hexcuse
  · exact absurd hsame hne

theorem Accounted.removeTxByElement (hpool : Accounted env excuse pool) (element : ℕ) :
    Accounted env (fun key => excuse key ∨ key = env.key (pool.value element).tx)
      (pool.removeTxByElement env element) := by
  intro key hkey
  by_cases hsame : key = env.key (pool.value element).tx
  · exact .inr (.inr hsame)
  · rcases hpool key hkey with hin | hexcuse
    · exact .inl (hin.removeTxByElement (Ne.symm hsame))
    · exact .inr (.inl hexcuse)

theorem Accounted.drop (hpool : Accounted env excuse pool) (element : ℕ) : Accounted env excuse
      ((pool.removeTxByElement env element).forget env (pool.value element).tx) :=
  (hpool.removeTxByElement element).forget

theorem Accounted.removeTxByKey (hlinked : Linked env pool) (hpool : Accounted env excuse pool)
    (hexcuse : (pool.txByKey key).isSome → excuse key) :
    Accounted env excuse ((pool.removeTxByKey key).getD pool) := by
  cases hkey : pool.txByKey key with
  | none =>
    rw [TxMempool.removeTxByKey, hkey]
    exact hpool
  | some element =>
    rw [removeTxByKey_eq hlinked hkey]
    apply (hpool.removeTxByElement element).mono
    rintro other (hother | rfl)
    · exact hother
    · rw [(hlinked.byKey key element hkey).2]
      exact hexcuse (by rw [hkey]; rfl)

section

variable (hkeep : env.config.keepInvalidTxsInCache = false) (hlinked : Linked env pool)
variable (hpool : Accounted env excuse pool)

include hkeep hlinked hpool

theorem Accounted.commitTx {entry : Tx × ResponseDeliverTx}
    (hcode : entry.2.code = 0 → excuse (env.key entry.1)) :
    Accounted env excuse (pool.commitTx env entry) := by
  unfold TxMempool.commitTx
  by_cases hok : entry.2.code = 0
  · rw [if_pos hok]
    have hpushed : Accounted env excuse
        { pool with cache := (pool.cache.push (env.key entry.1)).1 } := by
      intro key hkey
      rcases TxCache.has_of_has_push hkey with rfl | hbefore
      · exact .inr (hcode hok)
      · exact hpool key hbefore
    exact hpushed.removeTxByKey ((Small.other pool _ _ _ _ _).linked hlinked) fun _ => hcode hok
  · rw [if_neg hok, hkeep]
    -- The key leaves the cache first; nothing has to excuse it when its element
    -- leaves the pool.
    let remembered : TxKey → Prop := fun key => excuse key ∨ key = env.key entry.1
    have hcleared : Accounted env remembered (pool.forget env entry.1) :=
      (hpool.mono fun _ hexcuse => .inl (.inl hexcuse)).forget
    have hlinked' : Linked env (pool.forget env entry.1) :=
      (Small.other pool _ _ _ _ _).linked hlinked
    have hremoved := hcleared.removeTxByKey hlinked' fun _ => .inr rfl
    have hcache : (((pool.forget env entry.1).removeTxByKey (env.key entry.1)).getD
        (pool.forget env entry.1)).cache = pool.cache.remove (env.key entry.1) := by
      unfold TxMempool.removeTxByKey
      split <;> rfl
    intro key hkey
    have hne : key ≠ env.key entry.1 := by
      change TxCache.has (((pool.forget env entry.1).removeTxByKey
        (env.key entry.1)).getD (pool.forget env entry.1)).cache key = true at hkey
      rw [hcache] at hkey
      exact (TxCache.has_remove.1 hkey).1
    rcases hremoved key hkey with hin | hexcuse | hsame
    · exact .inl hin
    · exact .inr hexcuse
    · exact absurd hsame hne

theorem Accounted.commitTxs {entries : List (Tx × ResponseDeliverTx)}
    (hcodes : ∀ entry ∈ entries, entry.2.code = 0 → excuse (env.key entry.1)) :
    Accounted env excuse (entries.foldl (TxMempool.commitTx env) pool) := by
  induction entries generalizing pool with
  | nil => exact hpool
  | cons entry entries ih =>
    rw [List.forall_mem_cons] at hcodes
    exact ih (Shrinks.linked hlinked (shrinks_commitTx hlinked entry))
      (hpool.commitTx hkeep hlinked hcodes.1) hcodes.2

end

theorem Accounted.purgeExpiredTxs (hpool : Accounted env excuse pool) (blockHeight : Int64)
    (now : Time) : Accounted env excuse (pool.purgeExpiredTxs env blockHeight now) := by
  have hloop (elements : List ℕ) : Accounted env excuse
      (elements.foldl (TxMempool.purgeTx env blockHeight now) pool) := by
    induction elements generalizing pool with
    | nil => exact hpool
    | cons element elements ih =>
      apply ih
      unfold TxMempool.purgeTx
      dsimp only
      split
      · exact hpool.drop element
      · exact hpool
  unfold TxMempool.purgeExpiredTxs
  split
  · exact hpool
  · exact hloop pool.txs

theorem Accounted.evict (hpool : Accounted env excuse pool) {size evictedBytes : ℤ}
    {victims : List ℕ} : Accounted env excuse (pool.evict env size evictedBytes victims) := by
  induction victims generalizing pool evictedBytes with
  | nil => exact hpool
  | cons victim victims ih =>
    rw [TxMempool.evict]
    split
    · exact hpool.drop victim
    · exact ih (hpool.drop victim)

theorem Accounted.makeRoom (hpool : Accounted env excuse pool) {wtx : WrappedTx} {priority : Int64}
    {room : TxMempool} (hroom : pool.makeRoom env wtx priority = some room) :
    Accounted env excuse room := by
  unfold TxMempool.makeRoom at hroom
  split at hroom
  · obtain rfl := Option.some.inj hroom
    exact hpool
  · dsimp only at hroom
    split at hroom
    · cases hroom
    · obtain rfl := Option.some.inj hroom
      exact hpool.evict

theorem Accounted.insertTx (hlinked : Linked env pool) {wtx : WrappedTx}
    (hpool : Accounted env (fun key => excuse key ∨ key = env.key wtx.tx) pool) :
    Accounted env excuse (pool.insertTx env wtx) := by
  have hnew : InPool env (pool.insertTx env wtx) (env.key wtx.tx) :=
    ⟨pool.next, by simp [TxMempool.insertTx], by simp [TxMempool.insertTx]⟩
  intro key hkey
  rcases hpool key hkey with ⟨element, helement, hvalue⟩ | hexcuse | rfl
  · have hne : element ≠ pool.next := (hlinked.lt_next element helement).ne
    refine .inl ⟨element, List.mem_append_left _ helement, ?_⟩
    simpa [TxMempool.insertTx, Function.update_of_ne hne] using hvalue
  · exact .inr hexcuse
  · exact .inl hnew

theorem Accounted.recheckTx (hkeep : env.config.keepInvalidTxsInCache = false)
    (hpool : Accounted env excuse pool) (tx : Tx) (response : ResponseCheckTx) :
    Accounted env excuse (pool.recheckTx env tx response) := by
  unfold TxMempool.recheckTx
  split
  · exact hpool
  · rename_i element _
    dsimp only
    split
    · have hsmall : Small env pool _ := .reprioritize pool element response.priority
      have hvalue := hsmall.value
      intro key hkey
      rcases hpool key hkey with ⟨other, hother, hsame⟩ | hexcuse
      · exact .inl ⟨other, hother, by rw [(hvalue other).1]; exact hsame⟩
      · exact .inr hexcuse
    · rw [hkeep]
      exact hpool.drop element

/-- `CheckTx` has pushed the key of its transaction if it goes on. -/
theorem Accounted.checkTx (hpool : Accounted env excuse pool) (tx : Tx)
    (proxyError : Option String) :
    Accounted env (fun key => excuse key ∨
      ((pool.checkTx env tx proxyError).2.isOk ∧ key = env.key tx))
      (pool.checkTx env tx proxyError).1 := by
  have hunchanged {result : Except CheckTxError Int64} :
      Accounted env (fun key => excuse key ∨ (result.isOk ∧ key = env.key tx)) pool :=
    hpool.mono fun _ => .inl
  unfold TxMempool.checkTx
  split
  · exact hunchanged
  · split
    · exact hunchanged
    · split
      · exact hunchanged
      · intro key hkey
        rcases TxCache.has_of_has_push hkey with rfl | hbefore
        · cases hnew : (pool.cache.push (env.key tx)).2 with
          | true => exact .inr (.inr ⟨by simp [hnew, Except.isOk, Except.toBool], rfl⟩)
          | false =>
            have hbefore : pool.cache.has (env.key tx) = true := by
              rwa [TxCache.push_snd, Bool.not_eq_false'] at hnew
            exact (hpool _ hbefore).imp_right .inl
        · exact (hpool key hbefore).imp_right .inl

theorem Accounted.flush : Accounted env excuse (pool.flush env) := by
  intro key hkey
  rw [TxMempool.flush, TxCache.has_reset] at hkey
  cases hkey

end

/-! ## Runs -/

/-- A pool with the keys that some `Update` reported as delivered and the keys that
`RemoveTxByKey` took out. -/
structure Seen where
  pool : Pool
  delivered : List TxKey
  removed : List TxKey

variable {index : ℕ} {call : Tx × Int64}

namespace Seen

variable (env : Env)

def deliveredKeys (blockTxs : List Tx)
    (deliverTxResponses : List ResponseDeliverTx) : List TxKey :=
  ((blockTxs.zip deliverTxResponses).filter fun entry => entry.2.code = 0).map
    fun entry => env.key entry.1

def step (seen : Seen) (action : Action) : Option Seen :=
  (Pool.step env seen.pool action).map fun pool =>
    { pool := pool
      delivered :=
        match action with
        | .update _ blockTxs deliverTxResponses _ _ _ =>
          deliveredKeys env blockTxs deliverTxResponses ++ seen.delivered
        | _ => seen.delivered
      removed :=
        match action with
        | .removeTxByKey key =>
          if (seen.pool.mempool.txByKey key).isSome then key :: seen.removed
          else seen.removed
        | _ => seen.removed }

def lts (height : Int64) (preCheck : Option PreCheckFunc)
    (postCheck : Option PostCheckFunc) : Lts Seen Action where
  start := ⟨(Pool.lts env height preCheck postCheck).start, [], []⟩
  step := step env

/-- The key was delivered or taken out on request, or some `CheckTx` with it is
among the given ones. -/
def Excused (seen : Seen) (inFlight : List (Tx × Int64)) (key : TxKey) : Prop :=
  (key ∈ seen.delivered ∨ key ∈ seen.removed) ∨ ∃ call ∈ inFlight, env.key call.1 = key

/-- The `CheckTx` that a move ends without a verdict on its transaction: the request
is not flushed, the response has the wrong type, or the sender is taken. -/
def dropped (pool : Pool) : Action → Option ℕ
  | .flushFailed index => some index
  | .response index none _ => some index
  | .response index (some response) now => do
      let call ← pool.inFlight[index]?
      let err := pool.mempool.postCheck.bind fun check =>
        check (Pool.wrap call now).tx response
      if err.isNone ∧ response.code = 0 ∧
          (pool.mempool.occupant response.sender).isSome then some index
      else none
  | _ => none

/-- A `CheckTx` that ends without a verdict has its key in the cache only if
something else accounts for it. -/
def Cleared (seen : Seen) (action : Action) : Prop :=
  ∀ index call, dropped seen.pool action = some index → seen.pool.inFlight[index]? = some call →
    seen.pool.mempool.cache.has (env.key call.1) = true →
      InPool env seen.pool.mempool (env.key call.1) ∨
        seen.Excused env (seen.pool.inFlight.eraseIdx index) (env.key call.1)

variable {env}

theorem mem_eraseIdx_or_eq {inFlight : List (Tx × Int64)} {other : Tx × Int64}
    (hcall : inFlight[index]? = some call) (hother : other ∈ inFlight) :
    other ∈ inFlight.eraseIdx index ∨ other = call := by
  obtain ⟨position, hposition⟩ := List.mem_iff_getElem?.1 hother
  by_cases hsame : position = index
  · subst hsame
    exact .inr (Option.some.inj (hposition.symm.trans hcall))
  · exact .inl (List.mem_eraseIdx_iff_getElem?.2 ⟨position, hsame, hposition⟩)

theorem Excused.eraseIdx {seen : Seen} (hcall : seen.pool.inFlight[index]? = some call)
    (hkey : seen.Excused env seen.pool.inFlight key) :
    seen.Excused env (seen.pool.inFlight.eraseIdx index) key ∨ key = env.key call.1 := by
  rcases hkey with hpast | ⟨other, hother, rfl⟩
  · exact .inl (.inl hpast)
  · rcases mem_eraseIdx_or_eq hcall hother with hrest | rfl
    · exact .inl (.inr ⟨other, hrest, rfl⟩)
    · exact .inr rfl

theorem accounted_initialTxCallback (hkeep : env.config.keepInvalidTxsInCache = false)
    {excuse : TxKey → Prop} {pool : Pool} {now : Time} {response : Option ResponseCheckTx}
    (hlinked : Linked env pool.mempool) (hcall : pool.inFlight[index]? = some call)
    (hpool : Accounted env (fun key => excuse key ∨ key = env.key call.1) pool.mempool)
    (hdropped : dropped pool (.response index response now) = some index → Accounted env excuse
      pool.mempool) :
    Accounted env excuse (pool.mempool.initialTxCallback env (Pool.wrap call now) response).1 := by
  cases response with
  | none => exact hdropped rfl
  | some response =>
    unfold TxMempool.initialTxCallback
    dsimp only
    split
    · rw [hkeep]
      exact hpool.forget
    · rename_i haccepted
      rw [not_or, Option.not_isSome_iff_eq_none, not_not] at haccepted
      cases hsender : pool.mempool.occupant response.sender with
      | some element =>
        have hnone : ((pool.mempool.postCheck.bind fun check =>
            check (Pool.wrap call now).tx response).isNone = true ∧
            response.code = 0 ∧
            (pool.mempool.occupant response.sender).isSome = true) := by
          rw [haccepted.1, hsender]
          exact ⟨rfl, haccepted.2, rfl⟩
        apply hdropped
        rw [dropped, hcall]
        exact if_pos hnone
      | none =>
        cases hroom : pool.mempool.makeRoom env (Pool.wrap call now) response.priority with
        | none => exact hpool.forget
        | some room =>
          have hshrinks := shrinks_makeRoom hlinked hroom
          exact (hpool.makeRoom hroom).insertTx (Shrinks.linked hlinked hshrinks)

/-- Every key of the cache is accounted for, if the calls in flight count. -/
structure Sound (env : Env) (seen : Seen) : Prop where
  linked : Linked env seen.pool.mempool
  accounted : Accounted env (seen.Excused env seen.pool.inFlight) seen.pool.mempool

theorem inFlight_checkTx {pool next : Pool} {tx : Tx} {proxyError : Option String}
    (hstep : Pool.step env pool (.checkTx tx proxyError) = some next) :
    next.inFlight = match (pool.mempool.checkTx env tx proxyError).2 with
      | .ok height => pool.inFlight ++ [(tx, height)]
      | .error _ => pool.inFlight := by
  obtain rfl := Option.some.inj hstep
  rfl

section

variable {seen next : Seen} (hseen : Sound env seen)

include hseen

theorem Sound.checkTx {tx : Tx} {proxyError : Option String}
    (hstep : Seen.step env seen (.checkTx tx proxyError) = some next) :
    Accounted env (next.Excused env next.pool.inFlight) next.pool.mempool := by
  obtain ⟨pool, hpool, rfl⟩ := Option.map_eq_some_iff.1 hstep
  have hflight := inFlight_checkTx hpool
  obtain rfl := Option.some.inj hpool
  apply (hseen.accounted.checkTx tx proxyError).mono
  rintro key ((hpast | ⟨call, hcall, hkey⟩) | ⟨hok, rfl⟩)
  · exact .inl hpast
  · refine .inr ⟨call, ?_, hkey⟩
    dsimp only
    split
    · exact List.mem_append_left _ hcall
    · exact hcall
  · right
    cases hresult : (seen.pool.mempool.checkTx env tx proxyError).2 with
    | error reason =>
      rw [hresult] at hok
      cases hok
    | ok height =>
      rw [hresult] at hflight
      refine ⟨(tx, height), (congrArg ((tx, height) ∈ ·) hflight).mpr ?_, rfl⟩
      exact List.mem_append_right _ List.mem_cons_self

theorem Sound.flushFailed (hcleared : seen.Cleared env (.flushFailed index))
    (hstep : Seen.step env seen (.flushFailed index) = some next) :
    Accounted env (next.Excused env next.pool.inFlight) next.pool.mempool := by
  obtain ⟨pool, hpool, rfl⟩ := Option.map_eq_some_iff.1 hstep
  obtain rfl := Option.some.inj hpool
  intro key hkey
  rcases hseen.accounted key hkey with hin | hexcuse
  · exact .inl hin
  cases hcall : seen.pool.inFlight[index]? with
  | none =>
    have hlength := List.getElem?_eq_none_iff.1 hcall
    dsimp only
    rw [List.eraseIdx_of_length_le hlength]
    exact .inr hexcuse
  | some call =>
    rcases Excused.eraseIdx hcall hexcuse with hrest | rfl
    · exact .inr hrest
    · exact hcleared index call rfl hcall hkey

theorem Sound.response (hkeep : env.config.keepInvalidTxsInCache = false)
    {response : Option ResponseCheckTx} {now : Time}
    (hcleared : seen.Cleared env (.response index response now))
    (hstep : Seen.step env seen (.response index response now) = some next) :
    Accounted env (next.Excused env next.pool.inFlight) next.pool.mempool := by
  obtain ⟨pool, hpool, rfl⟩ := Option.map_eq_some_iff.1 hstep
  obtain ⟨call, hcall, hpool⟩ := Option.bind_eq_some_iff.1 hpool
  obtain rfl := Option.some.inj hpool
  apply accounted_initialTxCallback hkeep hseen.linked hcall
  · exact hseen.accounted.mono fun key => Excused.eraseIdx hcall
  · intro hdropped key hkey
    rcases hseen.accounted key hkey with hin | hexcuse
    · exact .inl hin
    · rcases Excused.eraseIdx hcall hexcuse with hrest | rfl
      · exact .inr hrest
      · exact hcleared index call hdropped hcall hkey

theorem Sound.removeTxByKey (hstep : Seen.step env seen (.removeTxByKey key) = some next) :
    Accounted env (next.Excused env next.pool.inFlight) next.pool.mempool := by
  obtain ⟨pool, hpool, rfl⟩ := Option.map_eq_some_iff.1 hstep
  obtain rfl := Option.some.inj hpool
  apply Accounted.removeTxByKey hseen.linked
  · apply hseen.accounted.mono
    rintro other ((hdelivered | hremoved) | hcall)
    · exact .inl (.inl hdelivered)
    · left
      right
      dsimp only
      split
      · exact List.mem_cons_of_mem key hremoved
      · exact hremoved
    · exact .inr hcall
  · intro hsome
    left
    right
    dsimp only
    rw [if_pos hsome]
    exact List.mem_cons_self

theorem Sound.update (hkeep : env.config.keepInvalidTxsInCache = false) {blockHeight : Int64}
    {blockTxs : List Tx}
    {deliverTxResponses : List ResponseDeliverTx} {newPreFn : Option PreCheckFunc}
    {newPostFn : Option PostCheckFunc} {now : Time} (hstep : Seen.step env seen (.update blockHeight
      blockTxs deliverTxResponses newPreFn newPostFn now) = some next) :
    Accounted env (next.Excused env next.pool.inFlight) next.pool.mempool := by
  obtain ⟨pool, hpool, rfl⟩ := Option.map_eq_some_iff.1 hstep
  obtain ⟨mempool, hupdate, hpool⟩ := Option.bind_eq_some_iff.1 hpool
  obtain rfl := Option.some.inj hpool
  unfold TxMempool.update at hupdate
  split at hupdate
  · cases hupdate
  obtain rfl := Option.some.inj hupdate
  apply Accounted.purgeExpiredTxs
  apply Accounted.commitTxs hkeep ((Small.other seen.pool.mempool _ _ _ _ _).linked hseen.linked)
  · apply hseen.accounted.mono
    rintro key ((hdelivered | hremoved) | hcall)
    · exact .inl (.inl (List.mem_append_right _ hdelivered))
    · exact .inl (.inr hremoved)
    · exact .inr hcall
  · intro entry hentry hcode
    have hdelivered : env.key entry.1 ∈ deliveredKeys env blockTxs deliverTxResponses :=
      List.mem_map.2 ⟨entry, List.mem_filter.2 ⟨hentry, decide_eq_true hcode⟩, rfl⟩
    exact .inl (.inl (List.mem_append_left _ hdelivered))

theorem Sound.step (hkeep : env.config.keepInvalidTxsInCache = false) {action : Action}
    (hcleared : seen.Cleared env action) (hstep : Seen.step env seen action = some next) :
    Sound env next := by
  obtain ⟨pool, hpool, hnext⟩ := Option.map_eq_some_iff.1 hstep
  refine ⟨hnext ▸ hseen.linked.step hpool, ?_⟩
  cases action with
  | checkTx tx proxyError => exact hseen.checkTx hstep
  | flushFailed index => exact hseen.flushFailed hcleared hstep
  | response index response now => exact hseen.response hkeep hcleared hstep
  | removeTxByKey key => exact hseen.removeTxByKey hstep
  | update => exact hseen.update hkeep hstep
  | startRecheck | recheckFlushFailed | recheckResponse =>
    obtain rfl := Option.some.inj hpool
    exact hnext ▸ hseen.accounted
  | recheckLocked index =>
    obtain ⟨⟨tx, response⟩, -, hpool⟩ := Option.bind_eq_some_iff.1 hpool
    obtain rfl := Option.some.inj hpool
    exact hnext ▸ hseen.accounted.recheckTx hkeep tx response
  | flush =>
    obtain rfl := Option.some.inj hpool
    exact hnext ▸ Accounted.flush

end

end Seen

/-- Unless invalid transactions are kept on purpose: in every run in which a
`CheckTx` only ends without a verdict when its key is accounted for otherwise, the
cache holds, whenever no `CheckTx` is in flight, only keys of transactions that are
in the pool, were delivered or were taken out on request. -/
theorem cache_accounted (env : Env) (hkeep : env.config.keepInvalidTxsInCache = false)
    (height : Int64) (preCheck : Option PreCheckFunc) (postCheck : Option PostCheckFunc)
    (actions : List Action)
    (hcleared : ∀ move ∈ (Seen.lts env height preCheck postCheck).path (Seen.lts env height preCheck
      postCheck).start actions, move.source.Cleared env move.label) :
    ∀ move ∈ (Seen.lts env height preCheck postCheck).path
        (Seen.lts env height preCheck postCheck).start actions,
      move.target.pool.inFlight = [] →
      ∀ key, move.target.pool.mempool.cache.has key = true →
        InPool env move.target.pool.mempool key ∨
          key ∈ move.target.delivered ∨ key ∈ move.target.removed := by
  have hstart : Seen.Sound env (Seen.lts env height preCheck postCheck).start := by
    refine ⟨linked_newTxMempool height preCheck postCheck, ?_⟩
    intro key hkey
    have hempty : (TxCache.ofSize env.config.cacheSize).has key = false := by
      unfold TxCache.ofSize
      split <;> rfl
    exact absurd (hempty.symm.trans hkey) Bool.false_ne_true
  have hstep (seen : Seen) (action : Action) (next : Seen)
      (hseen : Seen.Sound env seen) (hguard : seen.Cleared env action)
      (hnext : (Seen.lts env height preCheck postCheck).step seen action =
        some next) : Seen.Sound env next := hseen.step hkeep hguard hnext
  intro move hmove hnone key hkey
  obtain ⟨-, -, htarget⟩ := Lts.forall_path_of_guard hstep hstart hcleared move hmove
  rcases htarget.accounted key hkey with hin | hpast | ⟨call, hcall, -⟩
  · exact .inl hin
  · exact .inr hpast
  · rw [hnone] at hcall
    cases hcall

namespace Reference

/-- A mempool that remembers a few transactions. -/
def seenEnv : Env := { env with config := { env.config with cacheSize := 3 } }

def sameSender : List Action := [.checkTx [1] none, .response 0 (some ⟨0, 1, 1, "a"⟩) 5,
    .checkTx [2] none, .response 0 (some ⟨0, 1, 1, "a"⟩) 6]

def brokenConnection : List Action := [.checkTx [2] none, .flushFailed 0]

def rejectedAndDelivered : List Action := [.checkTx [1] none, .response 0 (some (accepted 1)) 5,
    .checkTx [2] none, .response 0 (some ⟨1, 1, 1, ""⟩) 6,
    .update 2 [[1]] [⟨0, [], "", 0, 0⟩] none none 7]

instance (env : Env) (pool : TxMempool) (key : TxKey) : Decidable (InPool env pool key) :=
  inferInstanceAs (Decidable (∃ element ∈ pool.txs, env.key (pool.value element).tx = key))

def Stuck (seen : Seen) (tx : Tx) : Prop :=
  (seen.pool.inFlight.isEmpty ∧ seen.pool.mempool.cache.has (seenEnv.key tx) = true) ∧
    ¬ InPool seenEnv seen.pool.mempool (seenEnv.key tx) ∧
    seenEnv.key tx ∉ seen.delivered ∧ seenEnv.key tx ∉ seen.removed

instance (seen : Seen) (tx : Tx) : Decidable (Stuck seen tx) := inferInstanceAs (Decidable (_ ∧ _))

end Reference

open Reference in
/-- After a transaction was rejected because of its sender, or after its request
could not be flushed, the cache still holds its key. -/
theorem rejected_transaction_stays_in_cache : (∃ move ∈ (Seen.lts seenEnv 1 none none).path
        (Seen.lts seenEnv 1 none none).start sameSender, Stuck move.target [2]) ∧
    ∃ move ∈ (Seen.lts seenEnv 1 none none).path
        (Seen.lts seenEnv 1 none none).start brokenConnection,
      Stuck move.target [2] := by
  have hsender : ((Seen.lts seenEnv 1 none none).path
      (Seen.lts seenEnv 1 none none).start sameSender).any
        (fun move => decide (Stuck move.target [2])) = true := by
    decide +kernel
  have hbroken : ((Seen.lts seenEnv 1 none none).path
      (Seen.lts seenEnv 1 none none).start brokenConnection).any
        (fun move => decide (Stuck move.target [2])) = true := by
    decide +kernel
  obtain ⟨move, hmove, hstuck⟩ := List.any_eq_true.1 hsender
  obtain ⟨other, hother, hstuck'⟩ := List.any_eq_true.1 hbroken
  exact ⟨⟨move, hmove, of_decide_eq_true hstuck⟩, other, hother, of_decide_eq_true hstuck'⟩

open Reference in
/-- A rejected and a delivered transaction. -/
theorem cache_accounted_reference : seenEnv.config.keepInvalidTxsInCache = false ∧
      (∀ move ∈ (Seen.lts seenEnv 1 none none).path
        (Seen.lts seenEnv 1 none none).start rejectedAndDelivered,
        move.source.Cleared seenEnv move.label) ∧
      ∃ move ∈ (Seen.lts seenEnv 1 none none).path
          (Seen.lts seenEnv 1 none none).start rejectedAndDelivered,
        move.target.pool.mempool.cache.has (seenEnv.key [1]) = true ∧
        (InPool seenEnv move.target.pool.mempool (seenEnv.key [1]) ∨
          seenEnv.key [1] ∈ move.target.delivered ∨
          seenEnv.key [1] ∈ move.target.removed) := by
  have hdropped : ((Seen.lts seenEnv 1 none none).path
      (Seen.lts seenEnv 1 none none).start rejectedAndDelivered).all
        (fun move => decide (Seen.dropped move.source.pool move.label = none)) = true := by
    decide +kernel
  have hcleared : ∀ move ∈ (Seen.lts seenEnv 1 none none).path
      (Seen.lts seenEnv 1 none none).start rejectedAndDelivered,
      move.source.Cleared seenEnv move.label := by
    intro move hmove index call hindex
    have hnone := of_decide_eq_true (List.all_eq_true.1 hdropped move hmove)
    rw [hnone] at hindex
    cases hindex
  have hrun : ((Seen.lts seenEnv 1 none none).path
      (Seen.lts seenEnv 1 none none).start rejectedAndDelivered).any
        (fun move => move.target.pool.inFlight.isEmpty &&
          move.target.pool.mempool.cache.has (seenEnv.key [1])) = true := by
    decide +kernel
  obtain ⟨move, hmove, hseen⟩ := List.any_eq_true.1 hrun
  obtain ⟨hempty, hhas⟩ := Bool.and_eq_true_iff.1 hseen
  exact ⟨rfl, hcleared, move, hmove, hhas, cache_accounted seenEnv rfl 1 none none
    rejectedAndDelivered hcleared move hmove (List.isEmpty_iff.1 hempty) _ hhas⟩

end Dymint.Mempool
