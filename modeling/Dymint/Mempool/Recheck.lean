import Dymint.Mempool.Invariant

/-!
# Rechecks and the responses to other requests

`recheckTransactions` stores the number of transactions in `txRecheck` and asks the
application about each of them.  The client hands every `CheckTx` response to
`recheckTxCallback`, which counts down and ignores a response once the counter is
used up.  It does not look at the request, so the response to the `CheckTx` of a
new transaction counts as well.
-/

namespace Dymint.Mempool

open Dymint.Types Runs

/-! ## The loop of `recheckTransactions` -/

/-- Where the loop stands: before its first element, before the request for an
element, or in `FlushSync` after the request with the given number. -/
inductive Loop where
  | idle
  | starting
  | sending (element : ℕ)
  | flushing (element : ℕ) (serial : ℕ)
  deriving DecidableEq

/-- A request that has not been answered; `flushed` says whether the mempool was
flushed since its recheck was started. -/
structure Request where
  serial : ℕ
  tx : Tx
  flushed : Bool
  deriving DecidableEq

/-- A pool with the loop and its requests.  `bound` and `flushed` are history: the
elements from `bound` on were inserted after the last recheck was started, and
`flushed` says whether there was a `Flush` since then. -/
structure Recheck where
  pool : Pool
  loop : Loop
  serial : ℕ
  requests : List Request
  bound : ℕ
  flushed : Bool

/-- `initial` is the response to the `CheckTx` of a new transaction, as
`recheckTxCallback` gets to see it. -/
inductive Signal where
  | start
  | front
  | request
  | flushSync (failed : Bool)
  | recheck (index : ℕ) (response : ResponseCheckTx)
  | initial (tx : Tx) (response : ResponseCheckTx)
  | action (action : Action)

def after (element : ℕ) (txs : List ℕ) : List ℕ := (txs.dropWhile fun other => other ≠ element).tail

namespace Recheck

variable (env : Env)

def advance : Option ℕ → Loop
  | none => .idle
  | some element => .sending element

/-- Actions that are neither a step of the loop nor a response to `CheckTx`. -/
def concerns : Action → Bool
  | .startRecheck | .recheckFlushFailed | .recheckResponse .. => false
  | _ => true

def step (state : Recheck) : Signal → Option Recheck
  | .start =>
    match state.loop with
    | .idle =>
      (Pool.step env state.pool .startRecheck).map fun pool =>
        { state with
          pool := pool
          loop := .starting
          bound := state.pool.mempool.next
          flushed := false }
    | _ => none
  | .front =>
    match state.loop with
    | .starting =>
      some { state with loop := advance state.pool.mempool.txs.head? }
    | _ => none
  | .request =>
    match state.loop with
    | .sending element =>
      let request : Request := ⟨state.serial, (state.pool.mempool.value element).tx, state.flushed⟩
      some { state with
        loop := .flushing element state.serial
        serial := state.serial + 1
        requests := state.requests ++ [request] }
    | _ => none
  | .flushSync failed =>
    match state.loop with
    | .flushing element serial =>
      let next := advance (after element state.pool.mempool.txs).head?
      if failed then
        (Pool.step env state.pool .recheckFlushFailed).map fun pool =>
          { state with
            pool := pool
            loop := next
            requests := state.requests.filter fun request =>
              request.serial ≠ serial }
      else some { state with loop := next }
    | _ => none
  | .recheck index response => do
      let request ← state.requests[index]?
      let pool ← Pool.step env state.pool (.recheckResponse request.tx response)
      return { state with
        pool := pool
        requests := state.requests.eraseIdx index }
  | .initial tx response =>
    (Pool.step env state.pool (.recheckResponse tx response)).map fun pool =>
      { state with pool := pool }
  | .action .flush =>
    (Pool.step env state.pool .flush).map fun pool =>
      { state with
        pool := pool
        requests := state.requests.map fun request =>
          { request with flushed := true }
        flushed := true }
  | .action action =>
    if concerns action then
      (Pool.step env state.pool action).map fun pool => { state with pool := pool }
    else none

def lts (height : Int64) (preCheck : Option PreCheckFunc)
    (postCheck : Option PostCheckFunc) : Lts Recheck Signal where
  start :=
    { pool := (Pool.lts env height preCheck postCheck).start
      loop := .idle
      serial := 0
      requests := []
      bound := 0
      flushed := false }
  step := step env

/-! ## What becomes of a response -/

inductive Treatment where
  | processed
  | last
  | ignored
  deriving DecidableEq

/-- How `recheckTxCallback` treats the next response. -/
def treatment (mempool : TxMempool) : Treatment :=
  if mempool.txRecheck - 1 = 0 then .last
  else if mempool.txRecheck - 1 < 0 then .ignored
  else .processed

def treated (state : Recheck) : Signal → Option Treatment
  | .recheck _ _ => some (treatment state.pool.mempool)
  | _ => none

def treatments (moves : List (Move Recheck Signal)) : List Treatment :=
  moves.filterMap fun move => move.source.treated move.label

/-- The signal is not the response to the `CheckTx` of a new transaction. -/
def notInitial : Signal → Bool
  | .initial _ _ => false
  | _ => true

/-- The loop goes on to an element that was there when the recheck was started, and
`FlushSync` does not fail after the answer to its request. -/
def GoesOn (state : Recheck) (failed : Bool) : Loop → Prop
  | .flushing element serial =>
    (∀ next ∈ (after element state.pool.mempool.txs).head?, next < state.bound) ∧
      (failed = true → ∃ request ∈ state.requests, request.serial = serial)
  | _ => True

/-- A response to the `CheckTx` of a new transaction does not come while responses
to rechecks are expected, a recheck is not started before the requests of the one
before are answered, and its loop comes only to elements that were there when it
was started. -/
def Apart (state : Recheck) : Signal → Prop
  | .initial _ _ => state.pool.mempool.txRecheck ≤ 0
  | .start => state.requests = []
  | .front => ∀ element ∈ state.pool.mempool.txs.head?, element < state.bound
  | .flushSync failed => state.GoesOn failed state.loop
  | _ => True

end Recheck

/-! ## What does not read the counter -/

namespace TxMempool

variable (env : Env) (count : ℤ) (pool : TxMempool)

def withRecheck : TxMempool := { pool with txRecheck := count }

theorem removeTxByKey_withRecheck (key : TxKey) :
    ((pool.withRecheck count).removeTxByKey key).getD (pool.withRecheck count) =
      ((pool.removeTxByKey key).getD pool).withRecheck count := by
  unfold removeTxByKey
  change Option.getD (match pool.txByKey key with
    | none => none
    | some element => _) _ = _
  cases pool.txByKey key <;> rfl

theorem checkTx_withRecheck (tx : Tx) (proxyError : Option String) :
    (pool.withRecheck count).checkTx env tx proxyError =
      ((pool.checkTx env tx proxyError).1.withRecheck count,
        (pool.checkTx env tx proxyError).2) := by
  unfold checkTx
  split
  · rfl
  · have hcheck : (pool.withRecheck count).preCheck = pool.preCheck := rfl
    rw [hcheck]
    cases pool.preCheck.bind fun check => check tx with
    | some reason => rfl
    | none => cases proxyError <;> rfl

theorem commitTx_withRecheck (entry : Tx × ResponseDeliverTx) :
    (pool.withRecheck count).commitTx env entry = (pool.commitTx env entry).withRecheck count := by
  let cached : TxMempool := { pool with
    cache :=
      if entry.2.code = 0 then (pool.cache.push (env.key entry.1)).1
      else if !env.config.keepInvalidTxsInCache then
        pool.cache.remove (env.key entry.1)
      else pool.cache }
  exact removeTxByKey_withRecheck count cached (env.key entry.1)

theorem purgeTx_withRecheck (blockHeight : Int64) (now : Time) (element : ℕ) :
    (pool.withRecheck count).purgeTx env blockHeight now element =
      (pool.purgeTx env blockHeight now element).withRecheck count := by
  unfold purgeTx
  dsimp only
  rw [apply_ite (withRecheck count)]
  rfl

theorem update_withRecheck (blockHeight : Int64) (blockTxs : List Tx)
    (deliverTxResponses : List ResponseDeliverTx) (newPreFn : Option PreCheckFunc)
    (newPostFn : Option PostCheckFunc) (now : Time) :
    (pool.withRecheck count).update env blockHeight blockTxs deliverTxResponses
        newPreFn newPostFn now =
      (pool.update env blockHeight blockTxs deliverTxResponses newPreFn newPostFn
        now).map (withRecheck count) := by
  have hcommit (start : TxMempool) (entries : List (Tx × ResponseDeliverTx)) :
      entries.foldl (commitTx env) (start.withRecheck count) =
        (entries.foldl (commitTx env) start).withRecheck count :=
    List.foldl_hom (withRecheck count) (commitTx_withRecheck env count)
  have hpurge (start : TxMempool) : (start.withRecheck count).purgeExpiredTxs env blockHeight now =
        (start.purgeExpiredTxs env blockHeight now).withRecheck count := by
    unfold purgeExpiredTxs
    split
    · rfl
    · exact List.foldl_hom (withRecheck count) fun start element =>
        purgeTx_withRecheck env count start blockHeight now element
  unfold update
  split
  · rfl
  · dsimp only
    rw [Option.map_some, ← hpurge, ← hcommit]
    rfl

theorem evict_withRecheck (size evictedBytes : ℤ) (victims : List ℕ) :
    (pool.withRecheck count).evict env size evictedBytes victims =
      (pool.evict env size evictedBytes victims).withRecheck count := by
  induction victims generalizing pool evictedBytes with
  | nil => rfl
  | cons victim victims ih =>
    rw [evict, evict, apply_ite (withRecheck count), ← ih]
    rfl

theorem makeRoom_withRecheck (wtx : WrappedTx) (priority : Int64) :
    (pool.withRecheck count).makeRoom env wtx priority =
      (pool.makeRoom env wtx priority).map (withRecheck count) := by
  unfold makeRoom
  dsimp only
  rw [apply_ite (Option.map (withRecheck count)), apply_ite (Option.map _),
    Option.map_some, Option.map_some, ← evict_withRecheck]
  rfl

theorem initialTxCallback_withRecheck (wtx : WrappedTx) (response : Option ResponseCheckTx) :
    ((pool.withRecheck count).initialTxCallback env wtx response).1 =
      (pool.initialTxCallback env wtx response).1.withRecheck count := by
  cases response with
  | none => rfl
  | some response =>
    have hpostCheck : (pool.withRecheck count).postCheck = pool.postCheck := rfl
    have hoccupant : (pool.withRecheck count).occupant response.sender =
        pool.occupant response.sender := rfl
    simp only [initialTxCallback]
    rw [makeRoom_withRecheck, hpostCheck, hoccupant]
    split
    · rw [apply_ite (withRecheck count)]
      rfl
    · cases pool.occupant response.sender with
      | some element => rfl
      | none => cases pool.makeRoom env wtx response.priority <;> rfl

theorem recheckTx_withRecheck (tx : Tx) (response : ResponseCheckTx) :
    (pool.withRecheck count).recheckTx env tx response =
      (pool.recheckTx env tx response).withRecheck count := by
  unfold recheckTx
  change (match pool.txByKey (env.key tx) with | none => _ | some element => _) = _
  cases pool.txByKey (env.key tx) with
  | none => rfl
  | some element =>
    dsimp only
    rw [apply_ite (withRecheck count), apply_ite (withRecheck count)]
    rfl

theorem flush_withRecheck : (pool.withRecheck count).flush env = pool.flush env := by
  have hremove : (pool.withRecheck count).txs.foldl (removeTxByElement env)
      (pool.withRecheck count) = (pool.txs.foldl (removeTxByElement env) pool).withRecheck count :=
    List.foldl_hom (withRecheck count) fun _ _ => rfl
  unfold flush
  rw [hremove]
  rfl

end TxMempool

namespace Pool

variable (env : Env) (count : ℤ) (pool : Pool)

def withRecheck : Pool := { pool with mempool := pool.mempool.withRecheck count }

theorem step_withRecheck {action : Action} (hconcerns : Recheck.concerns action = true)
    (hflush : action ≠ .flush) :
    step env (pool.withRecheck count) action = (step env pool action).map (withRecheck count) := by
  cases action with
  | checkTx tx proxyError =>
    have hcheck := TxMempool.checkTx_withRecheck env count pool.mempool tx proxyError
    simp only [step, withRecheck, hcheck, Option.map_some]
  | flushFailed index => rfl
  | response index response now =>
    simp only [step, withRecheck, TxMempool.initialTxCallback_withRecheck]
    cases pool.inFlight[index]? <;> rfl
  | removeTxByKey key =>
    simp only [step, withRecheck, TxMempool.removeTxByKey_withRecheck, Option.map_some]
  | update blockHeight blockTxs deliverTxResponses newPreFn newPostFn now =>
    simp only [step, withRecheck, TxMempool.update_withRecheck]
    cases pool.mempool.update env blockHeight blockTxs deliverTxResponses newPreFn
      newPostFn now <;> rfl
  | startRecheck | recheckFlushFailed | recheckResponse => cases hconcerns
  | recheckLocked index =>
    simp only [step, withRecheck, TxMempool.recheckTx_withRecheck]
    cases pool.rechecked[index]? <;> rfl
  | flush => exact absurd rfl hflush

/-- Only rechecks and `Flush` change the counter. -/
theorem txRecheck_step {next : Pool} {action : Action} (hconcerns : Recheck.concerns action = true)
    (hflush : action ≠ .flush) (hstep : step env pool action = some next) :
    next.mempool.txRecheck = pool.mempool.txRecheck := by
  have hsame := step_withRecheck env pool.mempool.txRecheck pool hconcerns hflush
  have hpool : pool.withRecheck pool.mempool.txRecheck = pool := rfl
  rw [hpool, hstep, Option.map_some] at hsame
  rw [Option.some.inj hsame]
  rfl

end Pool

/-! ## The run without the other responses -/

def Agree (left right : ℤ) : Prop := left = right ∨ (left ≤ 0 ∧ right ≤ 0)

theorem Agree.sub_one {left right : ℤ} (hagree : Agree left right) :
    Agree (left - 1) (right - 1) := by
  rcases hagree with rfl | ⟨hleft, hright⟩
  · exact .inl rfl
  · exact .inr ⟨by omega, by omega⟩

namespace Recheck

variable (env : Env)

def withRecheck (count : ℤ) (state : Recheck) : Recheck :=
  { state with pool := state.pool.withRecheck count }

theorem treatment_congr {left right : TxMempool} (hagree : Agree left.txRecheck right.txRecheck) :
    treatment left = treatment right := by
  unfold treatment
  rcases hagree with heq | ⟨hleft, hright⟩
  · rw [heq]
  · rw [if_neg (by omega), if_pos (by omega), if_neg (by omega), if_pos (by omega)]

theorem step_recheckResponse {pool : Pool} {count : ℤ} (hagree : Agree pool.mempool.txRecheck count)
    (tx : Tx) (response : ResponseCheckTx) :
    ∃ next, Pool.step env pool (.recheckResponse tx response) = some next ∧
      Pool.step env (pool.withRecheck count) (.recheckResponse tx response) =
        some (next.withRecheck (count - 1)) ∧
      next.mempool.txRecheck = pool.mempool.txRecheck - 1 := by
  have hiff : count - 1 < 0 ↔ pool.mempool.txRecheck - 1 < 0 := by
    rcases hagree with rfl | ⟨hleft, hright⟩
    · rfl
    · omega
  have hkept : (if count - 1 < 0 then pool.rechecked
      else pool.rechecked ++ [(tx, response)]) =
      if pool.mempool.txRecheck - 1 < 0 then pool.rechecked
      else pool.rechecked ++ [(tx, response)] := if_congr hiff rfl rfl
  refine ⟨_, rfl, ?_, rfl⟩
  exact congrArg (fun rechecked => some (Pool.mk
    (pool.mempool.withRecheck (count - 1)) pool.inFlight rechecked)) hkept

variable {env} in
theorem step_action {state : Recheck} {action : Action} (hflush : action ≠ .flush) :
    step env state (.action action) =
      if concerns action then
        (Pool.step env state.pool action).map fun pool => { state with pool := pool }
      else none := by
  cases action with
  | flush => exact absurd rfl hflush
  | _ => rfl

theorem step_withRecheck {state next : Recheck} {signal : Signal} {count : ℤ}
    (hsignal : notInitial signal = true) (hagree : Agree state.pool.mempool.txRecheck count)
    (hstep : step env state signal = some next) :
    ∃ left, step env (state.withRecheck count) signal = some (next.withRecheck left) ∧
      Agree next.pool.mempool.txRecheck left := by
  cases signal with
  | initial tx response => cases hsignal
  | start =>
    cases hloop : state.loop with
    | idle =>
      simp only [step, hloop] at hstep
      obtain rfl := Option.some.inj hstep
      refine ⟨state.pool.mempool.txs.length, ?_, .inl rfl⟩
      simp only [step, withRecheck, hloop]
      rfl
    | _ => simp [step, hloop] at hstep
  | front =>
    cases hloop : state.loop with
    | starting =>
      simp only [step, hloop] at hstep
      obtain rfl := Option.some.inj hstep
      refine ⟨count, ?_, hagree⟩
      simp only [step, withRecheck, hloop]
      rfl
    | _ => simp [step, hloop] at hstep
  | request =>
    cases hloop : state.loop with
    | sending element =>
      simp only [step, hloop] at hstep
      obtain rfl := Option.some.inj hstep
      refine ⟨count, ?_, hagree⟩
      simp only [step, withRecheck, hloop]
      rfl
    | _ => simp [step, hloop] at hstep
  | flushSync failed =>
    cases hloop : state.loop with
    | flushing element serial =>
      simp only [step, hloop] at hstep
      cases failed with
      | true =>
        obtain rfl := Option.some.inj hstep
        refine ⟨count - 1, ?_, hagree.sub_one⟩
        simp only [step, withRecheck, hloop]
        rfl
      | false =>
        obtain rfl := Option.some.inj hstep
        refine ⟨count, ?_, hagree⟩
        simp only [step, withRecheck, hloop]
        rfl
    | _ => simp [step, hloop] at hstep
  | recheck index response =>
    obtain ⟨request, hrequest, hstep⟩ := Option.bind_eq_some_iff.1 hstep
    obtain ⟨pool, hpool, hstep⟩ := Option.bind_eq_some_iff.1 hstep
    obtain rfl := Option.some.inj hstep
    obtain ⟨found, hfound, hother, hcount⟩ := step_recheckResponse env hagree request.tx response
    obtain rfl := Option.some.inj (hfound.symm.trans hpool)
    refine ⟨count - 1, ?_, ?_⟩
    · simp only [step, withRecheck, hrequest, hother, Option.bind_eq_bind, Option.bind_some]
      rfl
    · change Agree found.mempool.txRecheck (count - 1)
      rw [hcount]
      exact hagree.sub_one
  | action action =>
    by_cases hflush : action = .flush
    · subst hflush
      obtain rfl := Option.some.inj hstep
      refine ⟨0, ?_, .inl rfl⟩
      simp only [step, withRecheck, Pool.step, Pool.withRecheck, TxMempool.flush_withRecheck]
      rfl
    · rw [step_action hflush] at hstep ⊢
      obtain ⟨hconcerns, hmap⟩ := Option.ite_none_right_eq_some.1 hstep
      obtain ⟨pool, hpool, rfl⟩ := Option.map_eq_some_iff.1 hmap
      refine ⟨count, ?_, ?_⟩
      · simp only [withRecheck, Pool.step_withRecheck env count state.pool hconcerns
          hflush, hpool, hconcerns, if_true, Option.map_some]
      · change Agree pool.mempool.txRecheck count
        rw [Pool.txRecheck_step env state.pool hconcerns hflush hpool]
        exact hagree

/-- A response to a new transaction is ignored once the counter is used up. -/
theorem step_initial {state : Recheck} (hcount : state.pool.mempool.txRecheck ≤ 0) (tx : Tx)
    (response : ResponseCheckTx) :
    step env state (.initial tx response) =
      some (state.withRecheck (state.pool.mempool.txRecheck - 1)) := by
  have hignored : (if state.pool.mempool.txRecheck - 1 < 0 then state.pool.rechecked
      else state.pool.rechecked ++ [(tx, response)]) = state.pool.rechecked :=
    if_pos (by omega)
  exact congrArg (fun rechecked => some { state with
    pool := Pool.mk state.pool.mempool.countRecheck state.pool.inFlight rechecked })
    hignored

theorem treatments_cons (move : Move Recheck Signal) (moves : List (Move Recheck Signal)) :
    treatments (move :: moves) = (move.source.treated move.label).toList ++ treatments moves := by
  unfold treatments
  rw [List.filterMap_cons]
  cases move.source.treated move.label <;> rfl

theorem treated_withRecheck {state : Recheck} {count : ℤ}
    (hagree : Agree state.pool.mempool.txRecheck count) (signal : Signal) :
    (state.withRecheck count).treated signal = state.treated signal := by
  have hsame : treatment (state.withRecheck count).pool.mempool =
      treatment state.pool.mempool := (treatment_congr hagree).symm
  cases signal with
  | recheck index response => rw [treated, treated, hsame]
  | _ => rfl

/-- What is impossible stays impossible. -/
theorem step_withRecheck_eq_none {state : Recheck} {signal : Signal} {count : ℤ}
    (hsignal : notInitial signal = true) (hagree : Agree state.pool.mempool.txRecheck count)
    (hstep : step env state signal = none) : step env (state.withRecheck count) signal = none := by
  by_contra hne
  obtain ⟨next, hnext⟩ := Option.ne_none_iff_exists'.1 hne
  have hback : Agree (state.withRecheck count).pool.mempool.txRecheck
      state.pool.mempool.txRecheck := by
    rcases hagree with heq | ⟨hleft, hright⟩
    · exact .inl heq.symm
    · exact .inr ⟨hright, hleft⟩
  obtain ⟨left, hleft, -⟩ := step_withRecheck env hsignal hback hnext
  have hsame : (state.withRecheck count).withRecheck state.pool.mempool.txRecheck = state := rfl
  rw [hsame, hstep] at hleft
  cases hleft

/-- In a run in which responses to new transactions come only while the counter is
used up, the responses to rechecks are treated as if those had not come. -/
theorem treatments_path {height : Int64} {preCheck : Option PreCheckFunc}
    {postCheck : Option PostCheckFunc} {state : Recheck} {signals : List Signal} {count : ℤ}
    (hagree : Agree state.pool.mempool.txRecheck count)
    (hapart : ∀ move ∈ (lts env height preCheck postCheck).path state signals, move.source.Apart
      move.label) :
    treatments ((lts env height preCheck postCheck).path state signals) =
      treatments ((lts env height preCheck postCheck).path (state.withRecheck count)
        (signals.filter notInitial)) := by
  induction signals generalizing state count with
  | nil => rfl
  | cons signal signals ih =>
    by_cases hsignal : notInitial signal = true
    · rw [List.filter_cons_of_pos hsignal]
      cases hstep : (lts env height preCheck postCheck).step state signal with
      | none =>
        rw [Lts.path_cons_of_none hstep, Lts.path_cons_of_none
          (step_withRecheck_eq_none env hsignal hagree hstep)]
      | some next =>
        obtain ⟨left, hleft, hnext⟩ := step_withRecheck env hsignal hagree hstep
        rw [Lts.path_cons_of_some hstep, List.forall_mem_cons] at hapart
        have hother : (lts env height preCheck postCheck).step
            (state.withRecheck count) signal = some (next.withRecheck left) := hleft
        rw [Lts.path_cons_of_some hstep, Lts.path_cons_of_some hother,
          treatments_cons, treatments_cons, ih hnext hapart.2,
          treated_withRecheck hagree]
    · rw [List.filter_cons_of_neg hsignal]
      cases signal with
      | initial tx response =>
        by_cases hcount : state.pool.mempool.txRecheck ≤ 0
        · have hstep : (lts env height preCheck postCheck).step state (.initial tx response) =
                some (state.withRecheck (state.pool.mempool.txRecheck - 1)) :=
            step_initial env hcount tx response
          have hnext : Agree (state.pool.mempool.txRecheck - 1) count := by
            rcases hagree with rfl | ⟨-, hright⟩
            · exact .inr ⟨by omega, hcount⟩
            · exact .inr ⟨by omega, hright⟩
          rw [Lts.path_cons_of_some hstep, List.forall_mem_cons] at hapart
          rw [Lts.path_cons_of_some hstep, treatments_cons]
          exact ih hnext hapart.2
        · have hstep : (lts env height preCheck postCheck).step state
              (.initial tx response) = some _ := rfl
          rw [Lts.path_cons_of_some hstep, List.forall_mem_cons] at hapart
          exact absurd hapart.1 hcount
      | _ => exact absurd rfl hsignal

/-! ## Requests and the counter -/

theorem after_cons_self (element : ℕ) (txs : List ℕ) : after element (element :: txs) = txs := by
  simp [after]

theorem after_cons_of_ne {element other : ℕ} (hne : other ≠ element) (txs : List ℕ) :
    after element (other :: txs) = after element txs := by
  simp [after, hne]

theorem after_eq_nil {element : ℕ} {txs : List ℕ} (helement : element ∉ txs) :
    after element txs = [] := by
  induction txs with
  | nil => rfl
  | cons other txs ih =>
    rw [List.mem_cons, not_or] at helement
    rw [after_cons_of_ne (Ne.symm helement.1), ih helement.2]

theorem sublist_after (element : ℕ) {fewer txs : List ℕ} (hsublist : fewer.Sublist txs)
    (hnodup : txs.Nodup) : (after element fewer).Sublist (after element txs) := by
  induction hsublist with
  | slnil => exact .refl _
  | cons other hrest ih =>
    rename_i fewer txs
    rw [List.nodup_cons] at hnodup
    by_cases hother : other = element
    · have hnone : element ∉ fewer := fun hmem =>
        hnodup.1 (hother ▸ hrest.subset hmem)
      rw [after_eq_nil hnone]
      exact List.nil_sublist _
    · rw [after_cons_of_ne hother]
      exact ih hnodup.2
  | cons_cons other hrest ih =>
    rw [List.nodup_cons] at hnodup
    by_cases hother : other = element
    · subst hother
      rw [after_cons_self, after_cons_self]
      exact hrest
    · rw [after_cons_of_ne hother, after_cons_of_ne hother]
      exact ih hnodup.2

theorem filter_after_append {element bound new : ℕ} (hnew : bound ≤ new) (txs : List ℕ) :
    (after element (txs ++ [new])).filter (· < bound) = (after element txs).filter (· < bound) := by
  have hout : ¬ new < bound := by omega
  induction txs with
  | nil => by_cases hsame : new = element <;> simp [after, hsame]
  | cons other txs ih =>
    by_cases hother : other = element
    · subst hother
      rw [List.cons_append, after_cons_self, after_cons_self]
      simp [hout]
    · rw [List.cons_append, after_cons_of_ne hother, after_cons_of_ne hother, ih]

theorem after_eq_of_after {element next : ℕ} {txs rest : List ℕ} (hnodup : txs.Nodup)
    (hafter : after element txs = next :: rest) : after next txs = rest := by
  induction txs with
  | nil => cases hafter
  | cons other txs ih =>
    rw [List.nodup_cons] at hnodup
    by_cases hother : other = element
    · subst hother
      rw [after_cons_self] at hafter
      subst hafter
      have hne : other ≠ next := fun hsame => hnodup.1 (hsame ▸ List.mem_cons_self)
      rw [after_cons_of_ne hne, after_cons_self]
    · rw [after_cons_of_ne hother] at hafter
      have hmem : next ∈ txs := by
        have hin : next ∈ after element txs := by
          rw [hafter]
          exact List.mem_cons_self
        exact (List.dropWhile_sublist _).subset (List.mem_of_mem_tail hin)
      have hne : other ≠ next := fun hsame => hnodup.1 (hsame ▸ hmem)
      rw [after_cons_of_ne hne, ih hnodup.2 hafter]

/-- The requests that the loop still has to make, as long as it does not come to an
element that was inserted later. -/
def remaining (bound : ℕ) (txs : List ℕ) : Loop → ℕ
  | .idle => 0
  | .starting => (txs.filter (· < bound)).length
  | .sending element => 1 + ((after element txs).filter (· < bound)).length
  | .flushing element _ => ((after element txs).filter (· < bound)).length

theorem remaining_sublist {bound : ℕ} {fewer txs : List ℕ} (hsublist : fewer.Sublist txs)
    (hnodup : txs.Nodup) (loop : Loop) : remaining bound fewer loop ≤ remaining bound txs loop := by
  have hafter (element : ℕ) :=
    ((sublist_after element hsublist hnodup).filter (· < bound)).length_le
  cases loop with
  | idle => exact le_rfl
  | starting => exact (hsublist.filter _).length_le
  | sending element => exact Nat.add_le_add_left (hafter element) 1
  | flushing element serial => exact hafter element

theorem remaining_append {bound new : ℕ} (hnew : bound ≤ new) (txs : List ℕ) (loop : Loop) :
    remaining bound (txs ++ [new]) loop = remaining bound txs loop := by
  have hout : ¬ new < bound := by omega
  cases loop with
  | idle => rfl
  | starting => simp [remaining, hout]
  | sending | flushing => rw [remaining, filter_after_append hnew, remaining]

theorem remaining_advance_after {bound element : ℕ} {txs : List ℕ} (serial : ℕ) (hnodup : txs.Nodup)
    (hnext : ∀ next ∈ (after element txs).head?, next < bound) :
    remaining bound txs (advance (after element txs).head?) =
      remaining bound txs (.flushing element serial) := by
  rw [remaining]
  cases hafter : after element txs with
  | nil => rfl
  | cons next rest =>
    rw [hafter] at hnext
    have hlt : next < bound := hnext next rfl
    rw [List.head?_cons, advance, remaining, after_eq_of_after hnodup hafter]
    simp [hlt, Nat.add_comm]

theorem remaining_advance_head {bound : ℕ} {txs : List ℕ}
    (hnext : ∀ next ∈ txs.head?, next < bound) :
    remaining bound txs (advance txs.head?) = remaining bound txs .starting := by
  cases txs with
  | nil => rfl
  | cons next rest =>
    have hlt : next < bound := hnext next rfl
    rw [List.head?_cons, advance, remaining, remaining, after_cons_self]
    simp [hlt, Nat.add_comm]

/-- Without a `Flush` since the last start, the counter covers all open requests and
those still to be made; after one, the open requests are marked. -/
structure Sound (env : Env) (state : Recheck) : Prop where
  linked : Linked env state.pool.mempool
  bound_le : state.bound ≤ state.pool.mempool.next
  covered : state.flushed = false → state.requests.length +
      remaining state.bound state.pool.mempool.txs state.loop ≤ state.pool.mempool.txRecheck.toNat
  marked : state.flushed = true → ∀ request ∈ state.requests, request.flushed = true

variable {env}

/-- Only responses, rechecks and `Flush` matter to the counter. -/
theorem Sound.action {state : Recheck} {action : Action} {pool : Pool} (hstate : Sound env state)
    (hconcerns : concerns action = true) (hflush : action ≠ .flush)
    (hpool : Pool.step env state.pool action = some pool) :
    Sound env { state with pool := pool } := by
  have hcount := Pool.txRecheck_step env state.pool hconcerns hflush hpool
  have htxs : state.pool.mempool.next ≤ pool.mempool.next ∧
      remaining state.bound pool.mempool.txs state.loop ≤
        remaining state.bound state.pool.mempool.txs state.loop := by
    by_cases hinserts : ∃ wtx room, Inserts env state.pool action wtx room
    · obtain ⟨wtx, room, hinserts⟩ := hinserts
      obtain ⟨hroom, hnext⟩ := step_of_inserts hstate.linked hpool hinserts
      have hlast : room.next = state.pool.mempool.next := Shrinks.next_eq hroom
      rw [hnext]
      constructor
      · exact hlast ▸ Nat.le_succ _
      · calc remaining state.bound (room.txs ++ [room.next]) state.loop
            = remaining state.bound room.txs state.loop :=
              remaining_append (hlast ▸ hstate.bound_le) _ _
          _ ≤ remaining state.bound state.pool.mempool.txs state.loop :=
              remaining_sublist (Shrinks.sublist hroom) hstate.linked.nodup _
    · rw [not_exists] at hinserts
      have hshrinks := shrinks_step hstate.linked hpool fun wtx room h => hinserts wtx ⟨room, h⟩
      exact ⟨(Shrinks.next_eq hshrinks).ge,
        remaining_sublist (Shrinks.sublist hshrinks) hstate.linked.nodup _⟩
  constructor
  · exact hstate.linked.step hpool
  · exact hstate.bound_le.trans htxs.1
  · intro hflushed
    calc state.requests.length + remaining state.bound pool.mempool.txs state.loop
        ≤ state.requests.length + remaining state.bound state.pool.mempool.txs state.loop :=
          Nat.add_le_add_left htxs.2 _
      _ ≤ state.pool.mempool.txRecheck.toNat := hstate.covered hflushed
      _ = pool.mempool.txRecheck.toNat := by rw [hcount]
  · exact hstate.marked

section

variable {state next : Recheck} (hstate : Sound env state)

include hstate

theorem Sound.start (hapart : state.Apart .start)
    (hstep : step env state .start = some next) : Sound env next := by
  cases hloop : state.loop with
  | idle =>
    simp only [Recheck.step, hloop] at hstep
    obtain rfl := Option.some.inj hstep
    have hnone : state.requests = [] := hapart
    constructor
    · exact (Small.other state.pool.mempool _ _ _ _ _).linked hstate.linked
    · exact le_rfl
    · intro _
      rw [hnone, List.length_nil, Nat.zero_add]
      exact List.length_filter_le _ _
    · intro hflushed
      cases hflushed
  | _ => simp [Recheck.step, hloop] at hstep

theorem Sound.front (hapart : state.Apart .front)
    (hstep : step env state .front = some next) : Sound env next := by
  cases hloop : state.loop with
  | starting =>
    simp only [Recheck.step, hloop] at hstep
    obtain rfl := Option.some.inj hstep
    refine ⟨hstate.linked, hstate.bound_le, fun hflushed => ?_, hstate.marked⟩
    have hcovered := hstate.covered hflushed
    rw [hloop, ← remaining_advance_head hapart] at hcovered
    exact hcovered
  | _ => simp [Recheck.step, hloop] at hstep

theorem Sound.request (hstep : step env state .request = some next) : Sound env next := by
  cases hloop : state.loop with
  | sending element =>
    simp only [Recheck.step, hloop] at hstep
    obtain rfl := Option.some.inj hstep
    refine ⟨hstate.linked, hstate.bound_le, fun hflushed => ?_, ?_⟩
    · have hcovered := hstate.covered hflushed
      rw [hloop, remaining] at hcovered
      simp only [List.length_append, List.length_singleton, remaining]
      omega
    · intro hflushed request hrequest
      rcases List.mem_append.1 hrequest with hold | hnew
      · exact hstate.marked hflushed request hold
      · rw [List.mem_singleton.1 hnew]
        exact hflushed
  | _ => simp [Recheck.step, hloop] at hstep

theorem Sound.flushSync {failed : Bool} (hapart : state.Apart (.flushSync failed))
    (hstep : step env state (.flushSync failed) = some next) : Sound env next := by
  cases hloop : state.loop with
  | flushing element serial =>
    simp only [Apart, GoesOn, hloop] at hapart
    simp only [Recheck.step, hloop] at hstep
    have hnext := remaining_advance_after serial hstate.linked.nodup hapart.1
    cases failed with
    | false =>
      obtain rfl := Option.some.inj hstep
      refine ⟨hstate.linked, hstate.bound_le, fun hflushed => ?_, hstate.marked⟩
      have hcovered := hstate.covered hflushed
      rw [hloop, ← hnext] at hcovered
      exact hcovered
    | true =>
      obtain rfl := Option.some.inj hstep
      refine ⟨(Small.other state.pool.mempool _ _ _ _ _).linked
        hstate.linked, hstate.bound_le, fun hflushed => ?_, ?_⟩
      · have hcovered := hstate.covered hflushed
        rw [hloop, ← hnext] at hcovered
        obtain ⟨request, hrequest, hserial⟩ := hapart.2 rfl
        have hfewer : (state.requests.filter fun request =>
            decide (request.serial ≠ serial)).length < state.requests.length :=
          List.length_filter_lt_length_iff_exists.2 ⟨request, hrequest, by simp [hserial]⟩
        change (state.requests.filter fun request =>
          decide (request.serial ≠ serial)).length + remaining state.bound state.pool.mempool.txs
              (advance (after element state.pool.mempool.txs).head?) ≤
            (state.pool.mempool.txRecheck - 1).toNat
        omega
      · intro hflushed request hrequest
        exact hstate.marked hflushed request (List.mem_of_mem_filter hrequest)
  | _ => simp [Recheck.step, hloop] at hstep

theorem Sound.recheck {index : ℕ} {response : ResponseCheckTx}
    (hstep : step env state (.recheck index response) = some next) : Sound env next := by
  obtain ⟨request, hrequest, hstep⟩ := Option.bind_eq_some_iff.1 hstep
  obtain ⟨pool, hpool, hstep⟩ := Option.bind_eq_some_iff.1 hstep
  obtain rfl := Option.some.inj hstep
  obtain rfl := Option.some.inj hpool
  refine ⟨(Small.other state.pool.mempool _ _ _ _ _).linked hstate.linked,
    hstate.bound_le, fun hflushed => ?_, ?_⟩
  · have hcovered := hstate.covered hflushed
    have hindex := (List.getElem?_eq_some_iff.1 hrequest).1
    have hfewer := List.length_eraseIdx_of_lt hindex
    change (state.requests.eraseIdx index).length +
      remaining state.bound state.pool.mempool.txs state.loop ≤
        (state.pool.mempool.txRecheck - 1).toNat
    omega
  · intro hflushed other hother
    exact hstate.marked hflushed other ((List.eraseIdx_sublist _ _).subset hother)

theorem Sound.initial {tx : Tx} {response : ResponseCheckTx}
    (hapart : state.Apart (.initial tx response))
    (hstep : step env state (.initial tx response) = some next) : Sound env next := by
  have hcount : state.pool.mempool.txRecheck ≤ 0 := hapart
  obtain rfl := Option.some.inj hstep
  refine ⟨(Small.other state.pool.mempool _ _ _ _ _).linked hstate.linked,
    hstate.bound_le, fun hflushed => ?_, hstate.marked⟩
  have hcovered := hstate.covered hflushed
  change state.requests.length + remaining state.bound state.pool.mempool.txs state.loop ≤
      (state.pool.mempool.txRecheck - 1).toNat
  omega

/-- `Flush` marks the open requests. -/
theorem Sound.flush (hstep : step env state (.action .flush) = some next) : Sound env next := by
  obtain rfl := Option.some.inj hstep
  have hshrinks := shrinks_flush hstate.linked
  refine ⟨Shrinks.linked hstate.linked hshrinks, ?_, fun hflushed => ?_, ?_⟩
  · exact hstate.bound_le.trans (Shrinks.next_eq hshrinks).ge
  · cases hflushed
  · intro _ request hrequest
    obtain ⟨before, -, rfl⟩ := List.mem_map.1 hrequest
    rfl

theorem Sound.step {signal : Signal} (hapart : state.Apart signal)
    (hstep : step env state signal = some next) : Sound env next := by
  cases signal with
  | start => exact hstate.start hapart hstep
  | front => exact hstate.front hapart hstep
  | request => exact hstate.request hstep
  | flushSync failed => exact hstate.flushSync hapart hstep
  | recheck index response => exact hstate.recheck hstep
  | initial tx response => exact hstate.initial hapart hstep
  | action action =>
    by_cases hflush : action = .flush
    · subst hflush
      exact hstate.flush hstep
    · rw [step_action hflush] at hstep
      obtain ⟨hconcerns, hmap⟩ := Option.ite_none_right_eq_some.1 hstep
      obtain ⟨pool, hpool, rfl⟩ := Option.map_eq_some_iff.1 hmap
      exact hstate.action hconcerns hflush hpool

end

/-- The counter covers an open request that no `Flush` has reached. -/
theorem Sound.flushed_of_ignored {state : Recheck} (hstate : Sound env state) {index : ℕ}
    {request : Request} (hrequest : state.requests[index]? = some request)
    (hignored : treatment state.pool.mempool = .ignored) : request.flushed = true := by
  cases hflushed : state.flushed with
  | true => exact hstate.marked hflushed request (List.mem_of_getElem? hrequest)
  | false =>
    have hcovered := hstate.covered hflushed
    have hindex := (List.getElem?_eq_some_iff.1 hrequest).1
    have hcount : 0 < state.pool.mempool.txRecheck := by omega
    unfold treatment at hignored
    split at hignored
    · cases hignored
    · rw [if_neg (by omega)] at hignored
      cases hignored

end Recheck

/-- In every run in which the responses to new transactions keep apart from the
rechecks, and these from each other, each response to a recheck is treated as in the
run without the responses to new transactions, and it is ignored only after a
`Flush`. -/
theorem rechecks_treated_apart (env : Env) (height : Int64) (preCheck : Option PreCheckFunc)
    (postCheck : Option PostCheckFunc) (signals : List Signal)
    (hapart : ∀ move ∈ (Recheck.lts env height preCheck postCheck).path (Recheck.lts env height
      preCheck postCheck).start signals, move.source.Apart move.label) :
    Recheck.treatments ((Recheck.lts env height preCheck postCheck).path
        (Recheck.lts env height preCheck postCheck).start signals) =
      Recheck.treatments ((Recheck.lts env height preCheck postCheck).path
        (Recheck.lts env height preCheck postCheck).start
        (signals.filter Recheck.notInitial)) ∧
    ∀ move ∈ (Recheck.lts env height preCheck postCheck).path
        (Recheck.lts env height preCheck postCheck).start signals,
      ∀ index response request, move.label = .recheck index response →
        move.source.requests[index]? = some request →
        Recheck.treatment move.source.pool.mempool = .ignored →
        request.flushed = true := by
  constructor
  · exact Recheck.treatments_path env (.inl rfl) hapart
  · have hstep (state : Recheck) (signal : Signal) (next : Recheck)
        (hstate : Recheck.Sound env state) (hguard : state.Apart signal)
        (hnext : (Recheck.lts env height preCheck postCheck).step state signal =
          some next) : Recheck.Sound env next := hstate.step hguard hnext
    have hstart : Recheck.Sound env (Recheck.lts env height preCheck postCheck).start := by
      refine ⟨linked_newTxMempool height preCheck postCheck, le_rfl, ?_, ?_⟩
      · intro _
        exact le_rfl
      · intro hflushed
        cases hflushed
    intro move hmove index response request _ hrequest hignored
    obtain ⟨hsource, -, -⟩ := Lts.forall_path_of_guard hstep hstart hapart move hmove
    exact hsource.flushed_of_ignored hrequest hignored

namespace Reference

/-- A transaction is in the pool, another one is on its way, and a block without
either is committed. -/
def beforeRecheck : List Signal := [.action (.checkTx [1] none), .initial [1] (accepted 1),
    .action (.response 0 (some (accepted 1)) 5), .action (.checkTx [2] none),
    .action (.update 2 [[3]] [⟨0, [], "", 0, 0⟩] none none 6),
    .start, .front, .request]

/-- The application finds the first transaction invalid by now. -/
def invalid : ResponseCheckTx := ⟨1, 0, 0, ""⟩

def crossed : List Signal :=
  beforeRecheck ++ [.initial [2] (accepted 1), .recheck 0 invalid, .flushSync false]

/-- The response to the new transaction comes after that to the recheck. -/
def uncrossed : List Signal :=
  beforeRecheck ++ [.recheck 0 invalid, .initial [2] (accepted 1), .flushSync false]

instance decidableAllBelow (found : Option ℕ) (bound : ℕ) :
    Decidable (∀ element ∈ found, element < bound) :=
  match found with
  | none => .isTrue fun _ helement => by cases helement
  | some element => decidable_of_iff (element < bound) (by simp)

instance (state : Recheck) (failed : Bool) (loop : Loop) : Decidable (state.GoesOn failed loop) :=
  match loop with
  | .flushing _ _ => inferInstanceAs (Decidable (_ ∧ _))
  | .idle | .starting | .sending _ => .isTrue trivial

instance (state : Recheck) (signal : Signal) : Decidable (state.Apart signal) :=
  match signal with
  | .initial _ _ => inferInstanceAs (Decidable (_ ≤ _))
  | .start => inferInstanceAs (Decidable (_ = _))
  | .front => inferInstanceAs (Decidable (∀ element ∈
      state.pool.mempool.txs.head?, element < state.bound))
  | .flushSync failed => inferInstanceAs (Decidable (state.GoesOn failed state.loop))
  | .request | .recheck _ _ | .action _ => .isTrue trivial

def ignoredRequest (move : Move Recheck Signal) : Option Request :=
  match move.label with
  | .recheck index _ =>
    if Recheck.treatment move.source.pool.mempool = .ignored then
      move.source.requests[index]?
    else none
  | _ => none

theorem ignored_of_ignoredRequest {move : Move Recheck Signal} {request : Request}
    (hmove : ignoredRequest move = some request) :
    ∃ index response, move.label = .recheck index response ∧
      move.source.requests[index]? = some request ∧
      Recheck.treatment move.source.pool.mempool = .ignored := by
  unfold ignoredRequest at hmove
  split at hmove
  · rename_i index response hlabel
    obtain ⟨hignored, hrequest⟩ := Option.ite_none_right_eq_some.1 hmove
    exact ⟨index, response, hlabel, hrequest, hignored⟩
  · cases hmove

end Reference

open Reference in
/-- The response to a new transaction uses up the counter; the recheck's own response
is then ignored although nothing was flushed. -/
theorem recheck_response_ignored : Recheck.treatments ((Recheck.lts env 1 none none).path
        (Recheck.lts env 1 none none).start crossed) = [.ignored] ∧
      Recheck.treatments ((Recheck.lts env 1 none none).path
        (Recheck.lts env 1 none none).start (crossed.filter Recheck.notInitial)) = [.last] ∧
      ∃ move ∈ (Recheck.lts env 1 none none).path (Recheck.lts env 1 none none).start crossed,
        ∃ index response, move.label = .recheck index response ∧
          move.source.requests[index]? = some ⟨0, [1], false⟩ ∧
          Recheck.treatment move.source.pool.mempool = .ignored := by
  refine ⟨by decide +kernel, by decide +kernel, ?_⟩
  have hrun : some ⟨0, [1], false⟩ ∈ ((Recheck.lts env 1 none none).path
      (Recheck.lts env 1 none none).start crossed).map ignoredRequest := by
    decide +kernel
  obtain ⟨move, hmove, hrequest⟩ := List.mem_map.1 hrun
  exact ⟨move, hmove, ignored_of_ignoredRequest hrequest⟩

open Reference in
/-- With the responses in the other order the recheck is answered. -/
theorem rechecks_treated_apart_reference : (∀ move ∈ (Recheck.lts env 1 none none).path
        (Recheck.lts env 1 none none).start uncrossed,
      move.source.Apart move.label) ∧
    Recheck.treatments ((Recheck.lts env 1 none none).path
      (Recheck.lts env 1 none none).start uncrossed) = [.last] ∧
    Recheck.treatments ((Recheck.lts env 1 none none).path
        (Recheck.lts env 1 none none).start uncrossed) =
      Recheck.treatments ((Recheck.lts env 1 none none).path (Recheck.lts env 1 none none).start
        (uncrossed.filter Recheck.notInitial)) := by
  have hall : ((Recheck.lts env 1 none none).path (Recheck.lts env 1 none none).start uncrossed).all
        (fun move => decide (move.source.Apart move.label)) = true := by
    decide +kernel
  have hapart : ∀ move ∈ (Recheck.lts env 1 none none).path
      (Recheck.lts env 1 none none).start uncrossed,
      move.source.Apart move.label :=
    fun move hmove => of_decide_eq_true (List.all_eq_true.1 hall move hmove)
  exact ⟨hapart, by decide +kernel, (rechecks_treated_apart env 1 none none uncrossed hapart).1⟩

end Dymint.Mempool
