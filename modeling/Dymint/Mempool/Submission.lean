import Dymint.Mempool.Eviction

/-!
# The callers of `CheckTx`

A transaction comes to the mempool from a peer, through `TxValidator`, or from a user,
through `BroadcastTxSync`.  Both pass `CheckTx` a callback that sends the response of the
application to a channel, and both receive from that channel.
-/

namespace Dymint.Mempool

open Dymint.Types

/-! ## `CheckTx` with its callback -/

/-- What the connection to the application does during a call. -/
structure Connection where
  proxyError : Option String
  flushError : Option String
  response : Option ResponseCheckTx
  now : Time

namespace TxMempool

variable (env : Env)

/-- `CheckTx`, and the response that is passed to `cb`; the flush waits for it.  A
response of another type has no `ResponseCheckTx`. -/
def checkTxWithCallback (pool : TxMempool) (tx : Tx) (connection : Connection) :
    TxMempool × Except CheckTxError (Option ResponseCheckTx) :=
  match pool.checkTx env tx connection.proxyError with
  | (pool, .error err) => (pool, .error err)
  | (pool, .ok height) =>
    match connection.flushError with
    | some reason => (pool, .error (.proxy reason))
    | none =>
      let wtx := Pool.wrap (tx, height) connection.now
      ((pool.initialTxCallback env wtx connection.response).1, .ok connection.response)

/-- `CheckTx` comes to the cache. -/
structure Passes (pool : TxMempool) (tx : Tx) (proxyError : Option String) : Prop where
  size : (tx.length : ℤ) ≤ env.config.maxTxBytes
  preCheck : (pool.preCheck.bind fun check => check tx) = none
  connected : proxyError = none

end TxMempool

section

variable {env : Env} {pool : TxMempool} {tx : Tx} {proxyError : Option String}

theorem checkTx_of_passes (hpasses : pool.Passes env tx proxyError) :
    pool.checkTx env tx proxyError = ({ pool with cache := (pool.cache.push (env.key tx)).1 },
        if pool.cache.has (env.key tx) then .error .txInCache else .ok pool.height) := by
  unfold TxMempool.checkTx
  rw [if_neg (not_lt.2 hpasses.size), hpasses.preCheck, hpasses.connected]
  dsimp only
  rw [TxCache.push_snd]
  cases pool.cache.has (env.key tx) <;> rfl

def Early (err : CheckTxError) : Prop :=
  err ≠ .txInCache ∧ ∀ max actual, err = .txTooLarge max actual → max < actual

theorem checkTx_of_not_passes (hpasses : ¬ pool.Passes env tx proxyError) :
    ∃ err, pool.checkTx env tx proxyError = (pool, .error err) ∧ Early err := by
  by_cases hsize : (tx.length : ℤ) > env.config.maxTxBytes
  · refine ⟨_, if_pos hsize, by simp, ?_⟩
    rintro max actual hequal
    cases hequal
    exact hsize
  unfold TxMempool.checkTx
  rw [if_neg hsize]
  cases hpreCheck : pool.preCheck.bind fun check => check tx with
  | some reason => exact ⟨_, rfl, by simp, by simp⟩
  | none =>
    cases hproxy : proxyError with
    | some reason => exact ⟨_, rfl, by simp, by simp⟩
    | none => exact absurd ⟨not_lt.1 hsize, hpreCheck, hproxy⟩ hpasses

end

/-! ## Gossiped transactions -/

/-- The errors between which `TxValidator` distinguishes, with what is inside of them.  An
error of the connection is none of the mempool's. -/
inductive GoError where
  | txInCache
  | mempoolIsFull (numTxs maxTxs txsBytes maxTxsBytes : ℤ)
  | txTooLarge (max actual : ℤ)
  | preCheck (reason : Option String)
  | connection (reason : String)
  deriving DecidableEq

/-- The error value that `CheckTx` returns. -/
def CheckTxError.toGoError : CheckTxError → GoError
  | .txTooLarge max actual => .txTooLarge max actual
  | .preCheck reason => .preCheck (some reason)
  | .proxy reason => .connection reason
  | .txInCache => .txInCache

/-- `errors.Is`; none of these errors wraps another one. -/
def errorsIs (err : Option GoError) (target : GoError) : Bool := err = some target

/-- How a call ends: it returns, waits for a channel on which nothing is sent, or
dereferences a nil pointer. -/
inductive Outcome where
  | returned (verdict : Bool)
  | blocked
  | panicked
  deriving DecidableEq

/-- `res := <-checkTxResCh` and what follows. -/
def receiveVerdict : Option (Option ResponseCheckTx) → Outcome
  | none => .blocked
  | some none => .panicked
  | some (some response) => .returned (response.code = 0)

def txValidator (env : Env) (pool : TxMempool) (data : Tx) (connection : Connection) :
    TxMempool × Outcome :=
  let (pool, result) := pool.checkTxWithCallback env data connection
  let (err, checkTxResCh) :=
    match result with
    | .error err => (some err.toGoError, none)
    | .ok response => (none, some response)
  (pool,
    if errorsIs err .txInCache then .returned true
    else if errorsIs err (.mempoolIsFull 0 0 0 0) then .returned true
    else if errorsIs err (.txTooLarge 0 0) then .returned false
    else if errorsIs err (.preCheck none) then .returned false
    else receiveVerdict checkTxResCh)

section

variable {env : Env} {pool : TxMempool} {tx : Tx} {connection : Connection}

theorem txValidator_of_txInCache
    (hcall : (pool.checkTxWithCallback env tx connection).2 = .error .txInCache) :
    (txValidator env pool tx connection).2 = .returned true := by
  simp [txValidator, hcall, CheckTxError.toGoError, errorsIs]

/-- No other error of `CheckTx` equals one that the validator looks for. -/
theorem txValidator_of_early {err : CheckTxError} (hearly : Early err)
    (hcall : (pool.checkTxWithCallback env tx connection).2 = .error err) :
    (txValidator env pool tx connection).2 = .blocked := by
  obtain ⟨hne, hsize⟩ := hearly
  cases err with
  | txInCache => exact absurd rfl hne
  | preCheck reason | proxy reason =>
    simp [txValidator, hcall, CheckTxError.toGoError, errorsIs, receiveVerdict]
  | txTooLarge max actual =>
    have hlarge := hsize max actual rfl
    have hsizes : ¬ (max = 0 ∧ actual = 0) := by omega
    simp [txValidator, hcall, CheckTxError.toGoError, errorsIs, receiveVerdict, hsizes]

end

/-- The validator returns after an error of `CheckTx` exactly if that can only be the
one that says that the transaction is in the cache. -/
theorem validator_returns_after_error_iff (env : Env) (pool : TxMempool) (tx : Tx)
    (connection : Connection) :
    (∀ err, (pool.checkTxWithCallback env tx connection).2 = .error err →
      ∃ verdict, (txValidator env pool tx connection).2 = .returned verdict) ↔
    pool.Passes env tx connection.proxyError ∧
      (connection.flushError = none ∨ pool.cache.has (env.key tx) = true) := by
  have hblocked {err : CheckTxError} (hearly : Early err)
      (hcall : (pool.checkTxWithCallback env tx connection).2 = .error err) :
      ¬ ∀ err, (pool.checkTxWithCallback env tx connection).2 = .error err →
        ∃ verdict, (txValidator env pool tx connection).2 = .returned verdict := by
    intro hreturns
    obtain ⟨verdict, hverdict⟩ := hreturns err hcall
    rw [txValidator_of_early hearly hcall] at hverdict
    cases hverdict
  by_cases hpasses : pool.Passes env tx connection.proxyError
  case neg =>
    obtain ⟨err, hcheck, hearly⟩ := checkTx_of_not_passes hpasses
    have hcall : (pool.checkTxWithCallback env tx connection).2 = .error err := by
      rw [TxMempool.checkTxWithCallback, hcheck]
    exact iff_of_false (hblocked hearly hcall) fun hcondition => hpasses hcondition.1
  case pos =>
    have hcheck := checkTx_of_passes hpasses
    cases hhas : pool.cache.has (env.key tx) with
    | true =>
      have hcall : (pool.checkTxWithCallback env tx connection).2 = .error .txInCache := by
        rw [TxMempool.checkTxWithCallback, hcheck, if_pos hhas]
      exact iff_of_true (fun _ _ => ⟨true, txValidator_of_txInCache hcall⟩) ⟨hpasses, .inr rfl⟩
    | false =>
      rw [if_neg (by simp [hhas])] at hcheck
      cases hflush : connection.flushError with
      | some reason =>
        have hcall : (pool.checkTxWithCallback env tx connection).2 = .error (.proxy reason) := by
          rw [TxMempool.checkTxWithCallback, hcheck]
          simp [hflush]
        exact iff_of_false (hblocked ⟨by simp, by simp⟩ hcall) (by simp)
      | none =>
        have hcall : (pool.checkTxWithCallback env tx connection).2 = .ok connection.response := by
          rw [TxMempool.checkTxWithCallback, hcheck]
          simp [hflush]
        refine iff_of_true ?_ ⟨hpasses, .inl rfl⟩
        intro err herr
        rw [hcall] at herr
        cases herr

open Reference in
/-- After a transaction that is too large, one that does not pass the pre-check, or a
broken connection, the validator waits forever. -/
theorem validator_blocks_after_error :
    ((newTxMempool env 1 none none).checkTxWithCallback env (List.replicate 9 0)
        ⟨none, none, none, 5⟩).2 = .error (.txTooLarge 8 9) ∧
      (txValidator env (newTxMempool env 1 none none) (List.replicate 9 0)
        ⟨none, none, none, 5⟩).2 = .blocked ∧
      (txValidator env (newTxMempool env 1 (some fun _ => some "no") none) [1]
        ⟨none, none, none, 5⟩).2 = .blocked ∧
      (txValidator env (newTxMempool env 1 none none) [1]
        ⟨some "closed", none, none, 5⟩).2 = .blocked ∧
      (txValidator env (newTxMempool env 1 none none) [1]
        ⟨none, some "closed", none, 5⟩).2 = .blocked := by
  decide +kernel

/-! ## Broadcast transactions -/

/-- How `BroadcastTxSync` ends. -/
inductive Broadcast where
  | failed (err : CheckTxError)
  | panicked
  | gossipFailed (reason : String)
  | answered (response : ResponseCheckTx)
  deriving DecidableEq

def broadcastTxSync (env : Env) (pool : TxMempool) (tx : Tx) (connection : Connection)
    (gossipError : Option String) : TxMempool × Broadcast :=
  match pool.checkTxWithCallback env tx connection with
  | (pool, .error err) => (pool, .failed err)
  | (pool, .ok none) => (pool, .panicked)
  | (pool, .ok (some response)) =>
    if response.code = 0 then
      match gossipError with
      | some reason =>
        -- The error of `RemoveTxByKey` is dropped.
        ((pool.removeTxByKey (env.key tx)).getD pool, .gossipFailed reason)
      | none => (pool, .answered response)
    else (pool, .answered response)

namespace TxMempool

def Forgets (env : Env) (pool : TxMempool) (wtx : WrappedTx) (response : ResponseCheckTx) : Prop :=
  if (pool.postCheck.bind fun check => check wtx.tx response).isSome then
    env.config.keepInvalidTxsInCache = false
  else
    pool.occupant response.sender = none ∧ pool.canAddTx env wtx = false ∧
      ((pool.victims response.priority = [] ∨
          pool.bytesOf (pool.victims response.priority) < wtx.size) ∨
        ∃ element ∈ pool.evicted wtx.size
            (env.slices.sort pool.evictedBefore (pool.victims response.priority)),
          env.key wtx.tx = env.key (pool.value element).tx)

end TxMempool

section

variable {env : Env} {pool : TxMempool} {tx : Tx} {connection : Connection}

theorem cache_removeTxByKey (key : TxKey) :
    ((pool.removeTxByKey key).getD pool).cache = pool.cache := by
  unfold TxMempool.removeTxByKey
  cases pool.txByKey key <;> rfl

theorem preCheck_removeTxByKey (key : TxKey) :
    ((pool.removeTxByKey key).getD pool).preCheck = pool.preCheck := by
  unfold TxMempool.removeTxByKey
  cases pool.txByKey key <;> rfl

theorem has_initialTxCallback (pool : TxMempool) (wtx : WrappedTx) {response : ResponseCheckTx}
    (hcode : response.code = 0) :
    (pool.initialTxCallback env wtx (some response)).1.cache.has (env.key wtx.tx) = true ↔
      pool.cache.has (env.key wtx.tx) = true ∧ ¬ pool.Forgets env wtx response := by
  have hforget : (pool.forget env wtx.tx).cache.has (env.key wtx.tx) ≠ true := by
    intro hstill
    exact (TxCache.has_remove.1 hstill).1 rfl
  unfold TxMempool.Forgets
  cases hpostCheck : pool.postCheck.bind fun check => check wtx.tx response with
  | some text =>
    cases hkeep : env.config.keepInvalidTxsInCache with
    | true => simp [TxMempool.initialTxCallback, hpostCheck, hkeep]
    | false => simp [TxMempool.initialTxCallback, hpostCheck, hkeep, hforget]
  | none =>
    cases hsender : pool.occupant response.sender with
    | some element => simp [TxMempool.initialTxCallback, hpostCheck, hcode, hsender]
    | none =>
      cases hfits : pool.canAddTx env wtx with
      | true =>
        have hroom : pool.makeRoom env wtx response.priority = some pool := if_pos hfits
        rw [initialTxCallback_admitted ⟨hpostCheck, hcode, hsender, hroom⟩]
        simp [TxMempool.insertTx]
      | false =>
        by_cases hsmall : pool.victims response.priority = [] ∨
            pool.bytesOf (pool.victims response.priority) < wtx.size
        · have hroom := makeRoom_of_small hfits hsmall
          simp [TxMempool.initialTxCallback, hpostCheck, hcode, hsender, hroom, hforget, hsmall]
        · have hroom := makeRoom_of_large hfits hsmall
          rw [initialTxCallback_admitted ⟨hpostCheck, hcode, hsender, hroom⟩,
            TxMempool.insertTx, has_dropTxs]
          simp [hsmall]

theorem preCheck_evict (size bytes : ℤ) (victims : List ℕ) :
    (pool.evict env size bytes victims).preCheck = pool.preCheck := by
  induction victims generalizing pool bytes with
  | nil => rfl
  | cons victim victims ih =>
    rw [TxMempool.evict]
    split
    · rfl
    · exact ih _

theorem preCheck_initialTxCallback (wtx : WrappedTx) (response : ResponseCheckTx) :
    (pool.initialTxCallback env wtx (some response)).1.preCheck = pool.preCheck := by
  unfold TxMempool.initialTxCallback
  dsimp only
  split
  · split <;> rfl
  · cases pool.occupant response.sender with
    | some element => rfl
    | none =>
      unfold TxMempool.makeRoom
      dsimp only
      split_ifs
      · rfl
      · rfl
      · exact preCheck_evict _ _ _

theorem broadcastTxSync_gossipFailed {response : ResponseCheckTx} {gossipError : Option String}
    {reason : String} (hresponse : connection.response = some response)
    (hfailed : (broadcastTxSync env pool tx connection gossipError).2 = .gossipFailed reason) :
    pool.Passes env tx connection.proxyError ∧ response.code = 0 ∧
      (broadcastTxSync env pool tx connection gossipError).1.preCheck = pool.preCheck ∧
      (broadcastTxSync env pool tx connection gossipError).1.cache =
        (TxMempool.initialTxCallback env { pool with cache := (pool.cache.push (env.key tx)).1 }
          (Pool.wrap (tx, pool.height) connection.now) (some response)).1.cache := by
  by_cases hpasses : pool.Passes env tx connection.proxyError
  case neg =>
    obtain ⟨err, hcheck, _⟩ := checkTx_of_not_passes hpasses
    simp [broadcastTxSync, TxMempool.checkTxWithCallback, hcheck] at hfailed
  have hcheck := checkTx_of_passes hpasses
  unfold broadcastTxSync TxMempool.checkTxWithCallback at hfailed ⊢
  rw [hcheck, hresponse] at hfailed ⊢
  cases hhas : pool.cache.has (env.key tx) with
  | true => simp [hhas] at hfailed
  | false =>
    cases hflush : connection.flushError with
    | some text => simp [hhas, hflush] at hfailed
    | none =>
      simp only [hhas, hflush] at hfailed ⊢
      by_cases hcode : response.code = 0
      case neg => simp [hcode] at hfailed
      cases gossipError with
      | none => simp [hcode] at hfailed
      | some text =>
        simp only [Bool.false_eq_true, if_false, if_pos hcode]
        refine ⟨hpasses, hcode, ?_, cache_removeTxByKey _⟩
        rw [preCheck_removeTxByKey, preCheck_initialTxCallback]

end

/-- A transaction that could not be gossiped may be submitted again exactly if the cache
does not hold it for another reason: it is removed from the mempool only. -/
theorem resubmission_after_gossip_failure_iff (env : Env) (pool : TxMempool) (tx : Tx)
    (connection : Connection) (response : ResponseCheckTx) (gossipError : Option String)
    (reason : String) (hresponse : connection.response = some response)
    (hfailed : (broadcastTxSync env pool tx connection gossipError).2 = .gossipFailed reason) :
    (∀ proxyError, ((broadcastTxSync env pool tx connection gossipError).1.checkTx env tx
      proxyError).2 ≠ .error .txInCache) ↔
    pool.cache = .nop ∨ pool.Forgets env (Pool.wrap (tx, pool.height) connection.now) response := by
  obtain ⟨hpasses, hcode, hpreCheck, hcache⟩ := broadcastTxSync_gossipFailed hresponse hfailed
  generalize (broadcastTxSync env pool tx connection gossipError).1 = later at *
  have hagain : (∀ proxyError, (later.checkTx env tx proxyError).2 ≠ .error .txInCache) ↔
      ¬ later.cache.has (env.key tx) = true := by
    constructor
    · intro hnever hhas
      have hlater : later.Passes env tx none := ⟨hpasses.size, hpreCheck ▸ hpasses.preCheck, rfl⟩
      apply hnever none
      rw [checkTx_of_passes hlater, if_pos hhas]
    · intro hhas proxyError herror
      by_cases hlater : later.Passes env tx proxyError
      case pos =>
        rw [checkTx_of_passes hlater, if_neg hhas] at herror
        cases herror
      case neg =>
        obtain ⟨err, hcheck, hearly⟩ := checkTx_of_not_passes hlater
        rw [hcheck] at herror
        cases herror
        exact hearly.1 rfl
  have hpushed : (pool.cache.push (env.key tx)).1.has (env.key tx) = true ↔
      pool.cache ≠ .nop := TxCache.has_push_self
  have hkept : later.cache.has (env.key tx) = true ↔ pool.cache ≠ .nop ∧
      ¬ pool.Forgets env (Pool.wrap (tx, pool.height) connection.now) response := by
    rw [hcache, ← hpushed]
    exact has_initialTxCallback _ _ hcode
  rw [hagain, hkept, not_and_or, not_not, not_not]

open Reference in
/-- The transaction of a failed broadcast is in the cache. -/
theorem resubmission_rejected_after_gossip_failure :
    (broadcastTxSync env (newTxMempool env 1 none none) [1]
        ⟨none, none, some (accepted 1), 5⟩ (some "offline")).2 = .gossipFailed "offline" ∧
      (broadcastTxSync env (newTxMempool env 1 none none) [1]
        ⟨none, none, some (accepted 1), 5⟩ (some "offline")).1.txs = [] ∧
      ((broadcastTxSync env (newTxMempool env 1 none none) [1]
        ⟨none, none, some (accepted 1), 5⟩ (some "offline")).1.checkTx env [1] none).2 =
          .error .txInCache := by
  decide +kernel

open Reference in
/-- A transaction of the lowest priority is not kept by a full mempool. -/
theorem resubmission_after_gossip_failure_reference :
    (broadcastTxSync env crowded [4] ⟨none, none, some (accepted 1), 8⟩
        (some "offline")).2 = .gossipFailed "offline" ∧
      ∀ proxyError, ((broadcastTxSync env crowded [4] ⟨none, none, some (accepted 1), 8⟩
        (some "offline")).1.checkTx env [4] proxyError).2 ≠ .error .txInCache := by
  have hfailed : (broadcastTxSync env crowded [4] ⟨none, none, some (accepted 1), 8⟩
      (some "offline")).2 = .gossipFailed "offline" := by
    decide +kernel
  have hfull : crowded.canAddTx env (Pool.wrap ([4], 1) 8) = false := by decide +kernel
  have hnone : crowded.victims 1 = [] := by decide +kernel
  refine ⟨hfailed, (resubmission_after_gossip_failure_iff env crowded [4] _ (accepted 1)
    (some "offline") "offline" rfl hfailed).2 (.inr ?_)⟩
  exact ⟨rfl, hfull, .inl (.inl hnone)⟩

end Dymint.Mempool
