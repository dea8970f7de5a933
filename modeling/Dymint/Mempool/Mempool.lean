import Dymint.Mempool.Cache
import Dymint.Core.Runs

/-!
# The mempool

`TxMempool` keeps the transactions that passed `CheckTx` in a linked list and
finds them through two maps, by key and by sender.  The maps hold pointers to the
elements of the list; here an element is a number, and `value` says what it
points to.

Each function below is what the source does while it holds the lock, or one
atomic access outside of it.
-/

namespace Dymint.Mempool

open Dymint.Types Runs

/-! ## Configuration and data -/

/-- `config.MempoolConfig`, as far as it is used; `ValidateBasic` rejects negative
limits. -/
structure MempoolConfig where
  size : ℤ
  maxTxsBytes : ℤ
  maxTxBytes : ℤ
  cacheSize : ℤ
  keepInvalidTxsInCache : Bool
  recheck : Bool
  ttlNumBlocks : Int64
  ttlDuration : ℤ
  size_nonneg : 0 ≤ size
  maxTxsBytes_nonneg : 0 ≤ maxTxsBytes

/-- `sort.Slice`: the elements in some order that `less` does not object to, if
`less` compares like a strict weak order. -/
structure SliceSort where
  sort : {β : Type} → (β → β → Bool) → List β → List β
  perm : ∀ {β : Type} (less : β → β → Bool) (list : List β), (sort less list).Perm list
  sorted : ∀ {β : Type} (less : β → β → Bool) (list : List β),
    (∀ a b c, less b a = false → less c b = false → less c a = false) →
    (∀ a b, less a b = false ∨ less b a = false) →
    (sort less list).Pairwise fun a b => less b a = false

/-- The length of a number as a protobuf varint. -/
def sov (x : ℕ) : ℕ := (Nat.log2 (x ||| 1) + 7) / 7

/-- `types.ComputeProtoSizeForTxs`: the size of transactions as the only field of a
protobuf message. -/
structure ProtoSizes where
  computeProtoSizeForTxs : List Tx → Int64
  eq_sum : ∀ txs, computeProtoSizeForTxs txs =
    .ofNat (txs.map fun tx => 1 + tx.length + sov tx.length).sum

structure Env where
  config : MempoolConfig
  key : Tx → TxKey
  slices : SliceSort
  sizes : ProtoSizes

structure ResponseCheckTx where
  code : UInt32
  gasWanted : Int64
  priority : Int64
  sender : String
  deriving DecidableEq

/-- `PreCheckFunc` and `PostCheckFunc` return the text of an error. -/
abbrev PreCheckFunc := Tx → Option String

abbrev PostCheckFunc := Tx → ResponseCheckTx → Option String

structure WrappedTx where
  tx : Tx
  height : Int64
  timestamp : Time
  gasWanted : Int64
  priority : Int64
  sender : String
  deriving DecidableEq, Inhabited

def WrappedTx.size (wtx : WrappedTx) : ℤ := wtx.tx.length

structure TxMempool where
  cache : TxCache
  txsBytes : ℤ
  txRecheck : ℤ
  preCheck : Option PreCheckFunc
  postCheck : Option PostCheckFunc
  height : Int64
  value : ℕ → WrappedTx
  next : ℕ
  txs : List ℕ
  txByKey : TxKey → Option ℕ
  txBySender : String → Option ℕ

def newTxMempool (env : Env) (height : Int64) (preCheck : Option PreCheckFunc)
    (postCheck : Option PostCheckFunc) : TxMempool where
  cache := .ofSize env.config.cacheSize
  txsBytes := 0
  txRecheck := 0
  preCheck := preCheck
  postCheck := postCheck
  height := height
  value := default
  next := 0
  txs := []
  txByKey _ := none
  txBySender _ := none

/-- Why `CheckTx` does not pass a transaction on. -/
inductive CheckTxError where
  | txTooLarge (max actual : ℤ)
  | preCheck (reason : String)
  | proxy (reason : String)
  | txInCache
  deriving DecidableEq

inductive MempoolError where
  | postCheck (text : String)
  | senderExists (sender : String) (tx : Tx)
  | full (tx : Tx)
  deriving DecidableEq

namespace TxMempool

variable (env : Env)

/-! ## The first phase of `CheckTx` -/

def checkTx (pool : TxMempool) (tx : Tx) (proxyError : Option String) :
    TxMempool × Except CheckTxError Int64 :=
  if (tx.length : ℤ) > env.config.maxTxBytes then
    (pool, .error (.txTooLarge env.config.maxTxBytes tx.length))
  else
    match pool.preCheck.bind fun check => check tx with
    | some reason => (pool, .error (.preCheck reason))
    | none =>
      match proxyError with
      | some reason => (pool, .error (.proxy reason))
      | none =>
        let (cache, new) := pool.cache.push (env.key tx)
        ({ pool with cache := cache },
          if new then .ok pool.height else .error .txInCache)

/-! ## Removal -/

def removeTxByElement (pool : TxMempool) (element : ℕ) : TxMempool :=
  let wtx := pool.value element
  { pool with
    txByKey := Function.update pool.txByKey (env.key wtx.tx) none
    txBySender := Function.update pool.txBySender wtx.sender none
    txs := pool.txs.erase element
    txsBytes := pool.txsBytes - wtx.size }

/-- Nothing if there is no such transaction. -/
def removeTxByKey (pool : TxMempool) (key : TxKey) : Option TxMempool :=
  match pool.txByKey key with
  | none => none
  | some element =>
    let wtx := pool.value element
    some { pool with
      txByKey := Function.update pool.txByKey key none
      txBySender := Function.update pool.txBySender wtx.sender none
      txs := pool.txs.erase element
      txsBytes := pool.txsBytes - wtx.size }

def forget (pool : TxMempool) (tx : Tx) : TxMempool :=
  { pool with cache := pool.cache.remove (env.key tx) }

def flush (pool : TxMempool) : TxMempool :=
  let pool := pool.txs.foldl (removeTxByElement env) pool
  { pool with
    cache := pool.cache.reset
    txRecheck := 0 }

/-! ## Blocks -/

/-- One transaction of a block. -/
def commitTx (pool : TxMempool) (entry : Tx × ResponseDeliverTx) : TxMempool :=
  let cache :=
    if entry.2.code = 0 then (pool.cache.push (env.key entry.1)).1
    else if !env.config.keepInvalidTxsInCache then
      pool.cache.remove (env.key entry.1)
    else pool.cache
  let pool := { pool with cache := cache }
  (pool.removeTxByKey (env.key entry.1)).getD pool

def expired (blockHeight : Int64) (now : Time) (wtx : WrappedTx) : Bool :=
  (env.config.ttlNumBlocks > 0 &&
      blockHeight - wtx.height > env.config.ttlNumBlocks) ||
    (env.config.ttlDuration > 0 && now - wtx.timestamp > env.config.ttlDuration)

def purgeTx (blockHeight : Int64) (now : Time) (pool : TxMempool)
    (element : ℕ) : TxMempool :=
  let wtx := pool.value element
  if expired env blockHeight now wtx then
    (pool.removeTxByElement env element).forget env wtx.tx
  else pool

def purgeExpiredTxs (pool : TxMempool) (blockHeight : Int64) (now : Time) :
    TxMempool :=
  if env.config.ttlNumBlocks = 0 ∧ env.config.ttlDuration = 0 then pool
  else pool.txs.foldl (purgeTx env blockHeight now) pool

/-- `Update` up to the point where it rechecks; nothing when it panics. -/
def update (pool : TxMempool) (blockHeight : Int64) (blockTxs : List Tx)
    (deliverTxResponses : List ResponseDeliverTx)
    (newPreFn : Option PreCheckFunc) (newPostFn : Option PostCheckFunc)
    (now : Time) : Option TxMempool :=
  if blockTxs.length ≠ deliverTxResponses.length then none
  else
    let pool := { pool with
      height := blockHeight
      preCheck := newPreFn.or pool.preCheck
      postCheck := newPostFn.or pool.postCheck }
    let pool := (blockTxs.zip deliverTxResponses).foldl (commitTx env) pool
    some (pool.purgeExpiredTxs env blockHeight now)

/-! ## Insertion -/

/-- `canAddTx` returns no error. -/
def canAddTx (pool : TxMempool) (wtx : WrappedTx) : Bool :=
  !((pool.txs.length : ℤ) ≥ env.config.size || wtx.size + pool.txsBytes > env.config.maxTxsBytes)

def insertTx (pool : TxMempool) (wtx : WrappedTx) : TxMempool :=
  { pool with
    value := Function.update pool.value pool.next wtx
    next := pool.next + 1
    txs := pool.txs ++ [pool.next]
    txByKey := Function.update pool.txByKey (env.key wtx.tx) (some pool.next)
    txBySender :=
      if wtx.sender ≠ "" then
        Function.update pool.txBySender wtx.sender (some pool.next)
      else pool.txBySender
    txsBytes := pool.txsBytes + wtx.size }

def victims (pool : TxMempool) (priority : Int64) : List ℕ :=
  pool.txs.filter fun element => (pool.value element).priority < priority

def bytesOf (pool : TxMempool) (elements : List ℕ) : ℤ :=
  (elements.map fun element => (pool.value element).size).sum

/-- Lowest priority first, and newer first among equals. -/
def evictedBefore (pool : TxMempool) (i j : ℕ) : Bool :=
  let iw := pool.value i
  let jw := pool.value j
  if iw.priority = jw.priority then iw.timestamp > jw.timestamp
  else iw.priority < jw.priority

/-- Evict until `size` bytes are free. -/
def evict (size : ℤ) : TxMempool → ℤ → List ℕ → TxMempool
  | pool, _, [] => pool
  | pool, evictedBytes, victim :: victims =>
    let wtx := pool.value victim
    let pool := (pool.removeTxByElement env victim).forget env wtx.tx
    let evictedBytes := evictedBytes + wtx.size
    if evictedBytes ≥ size then pool
    else evict size pool evictedBytes victims

def makeRoom (pool : TxMempool) (wtx : WrappedTx) (priority : Int64) :
    Option TxMempool :=
  if pool.canAddTx env wtx then some pool
  else
    let victims := pool.victims priority
    if victims.length = 0 ∨ pool.bytesOf victims < wtx.size then none
    else
      let victims := env.slices.sort pool.evictedBefore victims
      some (pool.evict env wtx.size 0 victims)

def occupant (pool : TxMempool) (sender : String) : Option ℕ :=
  if sender ≠ "" then pool.txBySender sender else none

/-- The callback of the first `CheckTx`; a response of another type is
ignored. -/
def initialTxCallback (pool : TxMempool) (wtx : WrappedTx) :
    Option ResponseCheckTx → TxMempool × Option MempoolError
  | none => (pool, none)
  | some response =>
    let err := pool.postCheck.bind fun check => check wtx.tx response
    if err.isSome ∨ response.code ≠ 0 then
      (if !env.config.keepInvalidTxsInCache then pool.forget env wtx.tx else pool,
        err.map .postCheck)
    else
      match pool.occupant response.sender with
      | some element =>
        (pool, some (.senderExists response.sender (pool.value element).tx))
      | none =>
        match pool.makeRoom env wtx response.priority with
        | none => (pool.forget env wtx.tx, some (.full wtx.tx))
        | some pool =>
          (pool.insertTx env { wtx with
            gasWanted := response.gasWanted
            priority := response.priority
            sender := response.sender }, none)

/-! ## Rechecks -/

/-- What `recheckTransactions` does first. -/
def startRecheck (pool : TxMempool) : TxMempool :=
  { pool with txRecheck := pool.txs.length }

/-- The counter after a response, or after a request that was not flushed. -/
def countRecheck (pool : TxMempool) : TxMempool :=
  { pool with txRecheck := pool.txRecheck - 1 }

/-- What `recheckTxCallback` does with the lock. -/
def recheckTx (pool : TxMempool) (tx : Tx) (response : ResponseCheckTx) :
    TxMempool :=
  match pool.txByKey (env.key tx) with
  | none => pool
  | some element =>
    let err := pool.postCheck.bind fun check => check tx response
    let wtx := pool.value element
    if response.code = 0 ∧ err = none then
      { pool with
        value := Function.update pool.value element { wtx with priority := response.priority } }
    else
      let pool := pool.removeTxByElement env element
      if !env.config.keepInvalidTxsInCache then pool.forget env wtx.tx else pool

/-! ## Reaping -/

/-- Higher priority first, and earlier first among equals. -/
def reapedBefore (pool : TxMempool) (i j : ℕ) : Bool :=
  let iw := pool.value i
  let jw := pool.value j
  if iw.priority = jw.priority then iw.timestamp < jw.timestamp
  else iw.priority > jw.priority

def Ranged (pool : TxMempool) (elements : List ℕ) : Prop :=
  elements.Nodup ∧ ∀ element, element ∈ elements ↔ ∃ key, pool.txByKey key = some element

def allEntriesSorted (pool : TxMempool) (elements : List ℕ) : List WrappedTx :=
  (env.slices.sort pool.reapedBefore elements).map pool.value

/-- The loop of `ReapMaxBytesMaxGas`. -/
def keepWithin (maxBytes maxGas : Int64) :
    Int64 → Int64 → List WrappedTx → List Tx
  | _, _, [] => []
  | totalGas, totalBytes, wtx :: rest =>
    let totalGas := totalGas + wtx.gasWanted
    let totalBytes := totalBytes + env.sizes.computeProtoSizeForTxs [wtx.tx]
    if (maxGas ≥ 0 ∧ totalGas > maxGas) ∨ (maxBytes ≥ 0 ∧ totalBytes > maxBytes) then []
    else wtx.tx :: keepWithin maxBytes maxGas totalGas totalBytes rest

def reapMaxBytesMaxGas (pool : TxMempool) (elements : List ℕ)
    (maxBytes maxGas : Int64) : List Tx :=
  keepWithin env maxBytes maxGas 0 0 (pool.allEntriesSorted env elements)

end TxMempool

/-! ## Runs -/

/-- A mempool with the `CheckTx` calls that wait for their response, each with the
height it read, and the responses to rechecks that have been counted and wait for
the lock. -/
structure Pool where
  mempool : TxMempool
  inFlight : List (Tx × Int64)
  rechecked : List (Tx × ResponseCheckTx)

/-- What happens to a mempool.  A `CheckTx` whose request cannot be flushed never
sets its callback.  The application may answer rechecks at any time. -/
inductive Action where
  | checkTx (tx : Tx) (proxyError : Option String)
  | flushFailed (index : ℕ)
  | response (index : ℕ) (response : Option ResponseCheckTx) (now : Time)
  | removeTxByKey (key : TxKey)
  | update (blockHeight : Int64) (blockTxs : List Tx)
      (deliverTxResponses : List ResponseDeliverTx)
      (newPreFn : Option PreCheckFunc) (newPostFn : Option PostCheckFunc)
      (now : Time)
  | startRecheck
  | recheckFlushFailed
  | recheckResponse (tx : Tx) (response : ResponseCheckTx)
  | recheckLocked (index : ℕ)
  | flush

namespace Pool

variable (env : Env)

/-- What the callback of a `CheckTx` wraps its transaction in. -/
def wrap (call : Tx × Int64) (now : Time) : WrappedTx where
  tx := call.1
  height := call.2
  timestamp := now
  gasWanted := 0
  priority := 0
  sender := ""

def step (pool : Pool) : Action → Option Pool
  | .checkTx tx proxyError =>
    let (mempool, result) := pool.mempool.checkTx env tx proxyError
    some { pool with
      mempool := mempool
      inFlight :=
        match result with
        | .ok height => pool.inFlight ++ [(tx, height)]
        | .error _ => pool.inFlight }
  | .flushFailed index =>
    some { pool with inFlight := pool.inFlight.eraseIdx index }
  | .response index response now => do
      let call ← pool.inFlight[index]?
      return { pool with
        mempool := (pool.mempool.initialTxCallback env (wrap call now) response).1
        inFlight := pool.inFlight.eraseIdx index }
  | .removeTxByKey key =>
    some { pool with
      mempool := (pool.mempool.removeTxByKey key).getD pool.mempool }
  | .update blockHeight blockTxs deliverTxResponses newPreFn newPostFn now => do
      let mempool ← pool.mempool.update env blockHeight blockTxs
        deliverTxResponses newPreFn newPostFn now
      return { pool with mempool := mempool }
  | .startRecheck => some { pool with mempool := pool.mempool.startRecheck }
  | .recheckFlushFailed => some { pool with mempool := pool.mempool.countRecheck }
  | .recheckResponse tx response =>
    let mempool := pool.mempool.countRecheck
    some { pool with
      mempool := mempool
      rechecked :=
        if mempool.txRecheck < 0 then pool.rechecked
        else pool.rechecked ++ [(tx, response)] }
  | .recheckLocked index => do
      let (tx, response) ← pool.rechecked[index]?
      return { pool with
        mempool := pool.mempool.recheckTx env tx response
        rechecked := pool.rechecked.eraseIdx index }
  | .flush => some { pool with mempool := pool.mempool.flush env }

def lts (height : Int64) (preCheck : Option PreCheckFunc)
    (postCheck : Option PostCheckFunc) : Lts Pool Action where
  start := ⟨newTxMempool env height preCheck postCheck, [], []⟩
  step := step env

end Pool

end Dymint.Mempool
