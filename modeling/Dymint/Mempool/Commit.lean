import Dymint.Mempool.Invariant

/-!
# `CheckTx` and the commit of a block

`CheckTx` lets go of the lock between its three phases: it pushes the key into the
cache, sends its request to the application, and registers the callback that
inserts the transaction.  `commit` flushes the connection, so that every request
sent before is answered, and then runs `Update` under the lock.  The callback of
an answered request may still come after that.
-/

namespace Dymint.Mempool

open Dymint.Types Runs

/-! ## The phases -/

/-- How far a `CheckTx` has come; `commit` waits for the answers to some of the
requests that were sent. -/
inductive Phase where
  | pushed
  | sent (awaited : Bool)
  | answered (response : Option ResponseCheckTx)
  deriving DecidableEq

def Phase.await : Phase → Phase
  | .sent _ => .sent true
  | phase => phase

/-- How far `commit` has come. -/
inductive Stage where
  | idle
  | flushing
  | flushed
  deriving DecidableEq

/-- A pool with the phases of the calls in flight.  The rest is history: the number
of `Update`s before a call began, which of them processed which keys, and when the
call that inserted an element began. -/
structure Traffic where
  pool : Pool
  calls : List (Phase × ℕ)
  stage : Stage
  updates : ℕ
  processed : List (TxKey × ℕ)
  origin : ℕ → ℕ

inductive Event where
  | send (index : ℕ)
  | answer (index : ℕ) (response : Option ResponseCheckTx)
  | flushAppConn
  | flushed
  | action (action : Action)

variable {mempool : TxMempool} {traffic : Traffic} {now : Time} {next : Traffic}
variable {event : Event}

namespace Traffic

variable (env : Env)

/-- A callback reports what the application answered, `FlushSync` fails only after
the request was sent, and `Update` comes after `FlushAppConn`. -/
def permits (traffic : Traffic) : Action → Bool
  | .response index response _ =>
    match traffic.calls[index]? with
    | some (.answered given, _) => given = response
    | _ => false
  | .flushFailed index =>
    match traffic.calls[index]? with
    | some (.pushed, _) => false
    | some _ => true
    | none => false
  | .update .. => traffic.stage = .flushed
  | _ => true

def record (traffic : Traffic) (action : Action) (pool : Pool) : Traffic :=
  match action with
  | .checkTx .. =>
    { traffic with
      pool := pool
      calls :=
        if traffic.pool.inFlight.length < pool.inFlight.length then
          traffic.calls ++ [(.pushed, traffic.updates)]
        else traffic.calls }
  | .flushFailed index =>
    { traffic with
      pool := pool
      calls := traffic.calls.eraseIdx index }
  | .response index _ _ =>
    { traffic with
      pool := pool
      calls := traffic.calls.eraseIdx index
      origin := Function.update traffic.origin traffic.pool.mempool.next
        ((traffic.calls[index]?.map Prod.snd).getD 0) }
  | .update _ blockTxs _ _ _ _ =>
    { traffic with
      pool := pool
      stage := .idle
      updates := traffic.updates + 1
      processed := (blockTxs.map fun tx => (env.key tx, traffic.updates)) ++ traffic.processed }
  | _ => { traffic with pool := pool }

def step (traffic : Traffic) : Event → Option Traffic
  | .send index =>
    match traffic.calls[index]? with
    | some (.pushed, began) =>
      some { traffic with calls := traffic.calls.set index (.sent false, began) }
    | _ => none
  | .answer index response =>
    match traffic.calls[index]? with
    | some (.sent _, began) =>
      some { traffic with
        calls := traffic.calls.set index (.answered response, began) }
    | _ => none
  | .flushAppConn =>
    some { traffic with
      stage := .flushing
      calls := traffic.calls.map fun call => (call.1.await, call.2) }
  | .flushed =>
    if traffic.stage = .flushing ∧ traffic.calls.all fun call => call.1 ≠ .sent true then
      some { traffic with stage := .flushed }
    else none
  | .action action =>
    if traffic.permits action then
      (Pool.step env traffic.pool action).map (traffic.record env action)
    else none

def lts (height : Int64) (preCheck : Option PreCheckFunc)
    (postCheck : Option PostCheckFunc) : Lts Traffic Event where
  start :=
    { pool := (Pool.lts env height preCheck postCheck).start
      calls := []
      stage := .idle
      updates := 0
      processed := []
      origin := fun _ => 0 }
  step := step env

/-- A transaction that an `Update` has processed is reaped only from an element
that came from a `CheckTx` that began after that `Update`. -/
def ReapsNew (traffic : Traffic) : Prop :=
  ∀ elements maxBytes maxGas, traffic.pool.mempool.Ranged elements →
    ∀ tx ∈ traffic.pool.mempool.reapMaxBytesMaxGas env elements maxBytes maxGas,
      ∀ number, (env.key tx, number) ∈ traffic.processed →
        ∃ element, traffic.pool.mempool.txByKey (env.key tx) = some element ∧
          number < traffic.origin element

/-- No `Update` has processed the transaction of an accepted response since its
`CheckTx` began. -/
def Undisturbed (traffic : Traffic) : Event → Prop
  | .action (.response index (some response) now) =>
    ∀ call phase began room, traffic.pool.inFlight[index]? = some call →
      traffic.calls[index]? = some (phase, began) →
      Admitted env traffic.pool.mempool (Pool.wrap call now) response room →
      ∀ number, (env.key call.1, number) ∈ traffic.processed → number < began
  | _ => True

/-! ## Reaping -/

/-- The key map leads to no element that is older than an `Update` of its key. -/
def Current (traffic : Traffic) : Prop :=
  ∀ key element, traffic.pool.mempool.txByKey key = some element →
    ∀ number, (key, number) ∈ traffic.processed → number < traffic.origin element

variable {env}

theorem keepWithin_subset {maxBytes maxGas totalGas totalBytes : Int64} {entries : List WrappedTx}
    {tx : Tx} (htx : tx ∈ TxMempool.keepWithin env maxBytes maxGas totalGas totalBytes entries) :
    ∃ wtx ∈ entries, wtx.tx = tx := by
  induction entries generalizing totalGas totalBytes with
  | nil => cases htx
  | cons wtx rest ih =>
    rw [TxMempool.keepWithin] at htx
    split at htx
    · cases htx
    · rcases List.mem_cons.1 htx with rfl | hrest
      · exact ⟨wtx, List.mem_cons_self, rfl⟩
      · obtain ⟨other, hother, hvalue⟩ := ih hrest
        exact ⟨other, List.mem_cons_of_mem wtx hother, hvalue⟩

/-- Negative limits are none. -/
theorem keepWithin_unlimited {totalGas totalBytes : Int64} (entries : List WrappedTx) :
    TxMempool.keepWithin env (-1) (-1) totalGas totalBytes entries = entries.map WrappedTx.tx := by
  induction entries generalizing totalGas totalBytes with
  | nil => rfl
  | cons wtx rest ih =>
    have hnegative : ¬ (-1 : Int64) ≥ 0 := by decide
    rw [TxMempool.keepWithin, if_neg, ih]
    · rfl
    · exact not_or_intro (fun h => hnegative h.1) fun h => hnegative h.1

theorem ranged_of_linked (hlinked : Linked env mempool) :
    mempool.Ranged (mempool.txs.filter fun element =>
      mempool.txByKey (env.key (mempool.value element).tx) = some element) := by
  refine ⟨hlinked.nodup.filter _, fun element => ?_⟩
  rw [List.mem_filter, decide_eq_true_iff]
  constructor
  · rintro ⟨-, hkey⟩
    exact ⟨_, hkey⟩
  · rintro ⟨key, hkey⟩
    obtain ⟨hmem, hvalue⟩ := hlinked.byKey key element hkey
    exact ⟨hmem, hvalue ▸ hkey⟩

theorem reapsNew_iff_current (hlinked : Linked env traffic.pool.mempool) :
    traffic.ReapsNew env ↔ traffic.Current := by
  constructor
  · intro hreaps key element hkey number hnumber
    obtain ⟨elements, hranged⟩ : ∃ elements, traffic.pool.mempool.Ranged elements :=
      ⟨_, ranged_of_linked hlinked⟩
    have hvalue := (hlinked.byKey key element hkey).2
    have hmem : (traffic.pool.mempool.value element).tx ∈
        traffic.pool.mempool.reapMaxBytesMaxGas env elements (-1) (-1) := by
      rw [TxMempool.reapMaxBytesMaxGas, keepWithin_unlimited,
        TxMempool.allEntriesSorted, List.map_map]
      refine List.mem_map.2 ⟨element, ?_, rfl⟩
      exact (env.slices.perm _ _).mem_iff.2 ((hranged.2 element).2 ⟨key, hkey⟩)
    obtain ⟨found, hfound, hlt⟩ := hreaps elements (-1) (-1) hranged _ hmem number
      (hvalue ▸ hnumber)
    rw [hvalue, hkey] at hfound
    exact Option.some.inj hfound ▸ hlt
  · intro hcurrent elements maxBytes maxGas hranged tx htx number hnumber
    obtain ⟨wtx, hwtx, rfl⟩ := keepWithin_subset htx
    obtain ⟨element, helement, rfl⟩ := List.mem_map.1 hwtx
    obtain ⟨key, hkey⟩ := (hranged.2 element).1 ((env.slices.perm _ _).mem_iff.1 helement)
    obtain rfl := (hlinked.byKey key element hkey).2
    exact ⟨element, hkey, hcurrent _ element hkey number hnumber⟩

/-! ## The moves -/

theorem txByKey_commitTx (entry : Tx × ResponseDeliverTx) :
    (mempool.commitTx env entry).txByKey (env.key entry.1) = none := by
  unfold TxMempool.commitTx TxMempool.removeTxByKey
  dsimp only
  cases hkey : mempool.txByKey (env.key entry.1) with
  | none => exact hkey
  | some element => exact Function.update_self _ _ _

theorem txByKey_commitTxs (hlinked : Linked env mempool) {entries : List (Tx × ResponseDeliverTx)}
    {entry : Tx × ResponseDeliverTx} (hentry : entry ∈ entries) :
    (entries.foldl (TxMempool.commitTx env) mempool).txByKey (env.key entry.1) = none := by
  induction entries generalizing mempool with
  | nil => cases hentry
  | cons first entries ih =>
    have hfirst := Shrinks.linked hlinked (shrinks_commitTx hlinked first)
    rcases List.mem_cons.1 hentry with rfl | hrest
    · have hshrinks := shrinks_commitTxs hfirst entries
      rw [List.foldl_cons, Option.eq_none_iff_forall_ne_some]
      intro element hkey
      have hbefore := Shrinks.byKey hshrinks hkey
      rw [txByKey_commitTx] at hbefore
      cases hbefore
    · exact ih hfirst hrest

variable {deliverTxResponses : List ResponseDeliverTx} {newPostFn : Option PostCheckFunc}
variable {newPreFn : Option PreCheckFunc} {blockHeight : Int64} {blockTxs : List Tx}

/-- `Update` leaves no transaction of its block in the key map. -/
theorem txByKey_update {later : TxMempool} (hlinked : Linked env mempool)
    (hupdate : mempool.update env blockHeight blockTxs deliverTxResponses newPreFn newPostFn now =
      some later) {tx : Tx} (htx : tx ∈ blockTxs) : later.txByKey (env.key tx) = none := by
  unfold TxMempool.update at hupdate
  split at hupdate
  · cases hupdate
  · rename_i hlength
    obtain rfl := Option.some.inj hupdate
    rw [not_not] at hlength
    obtain ⟨response, hentry⟩ : ∃ response, (tx, response) ∈ blockTxs.zip deliverTxResponses := by
      rw [← List.map_fst_zip hlength.le, List.mem_map] at htx
      obtain ⟨⟨_, response⟩, hentry, rfl⟩ := htx
      exact ⟨response, hentry⟩
    have hsmall : Small env mempool { mempool with
        height := blockHeight
        preCheck := newPreFn.or mempool.preCheck
        postCheck := newPostFn.or mempool.postCheck } := .other mempool _ _ _ _ _
    have hset := hsmall.linked hlinked
    have hcommitted := Shrinks.linked hset (shrinks_commitTxs hset
      (blockTxs.zip deliverTxResponses))
    rw [Option.eq_none_iff_forall_ne_some]
    intro element hkey
    have hbefore := Shrinks.byKey (shrinks_purgeExpiredTxs hcommitted blockHeight now) hkey
    rw [txByKey_commitTxs hset hentry] at hbefore
    cases hbefore

/-- A move between the phases leaves the pool and the history alone; every other
move is one of the pool. -/
theorem step_cases (hstep : step env traffic event = some next) :
    ((∀ action, event ≠ .action action) ∧ next.pool = traffic.pool ∧
      next.processed = traffic.processed ∧ next.origin = traffic.origin) ∨
    ∃ action pool, event = .action action ∧ traffic.permits action = true ∧
      Pool.step env traffic.pool action = some pool ∧
      next = traffic.record env action pool := by
  cases event with
  | send | answer =>
    rw [step] at hstep
    split at hstep
    · obtain rfl := Option.some.inj hstep
      exact .inl ⟨fun _ heq => (by cases heq), rfl, rfl, rfl⟩
    · cases hstep
  | flushAppConn =>
    obtain rfl := Option.some.inj hstep
    exact .inl ⟨fun _ heq => (by cases heq), rfl, rfl, rfl⟩
  | flushed =>
    obtain rfl := Option.some.inj (Option.ite_none_right_eq_some.1 hstep).2
    exact .inl ⟨fun _ heq => (by cases heq), rfl, rfl, rfl⟩
  | action action =>
    obtain ⟨hpermits, hmap⟩ := Option.ite_none_right_eq_some.1 hstep
    obtain ⟨pool, hpool, rfl⟩ := Option.map_eq_some_iff.1 hmap
    exact .inr ⟨action, pool, rfl, hpermits, hpool, rfl⟩

@[simp]
theorem pool_record (traffic : Traffic) (action : Action) (pool : Pool) :
    (traffic.record env action pool).pool = pool := by
  cases action <;> rfl

theorem linked_step (hlinked : Linked env traffic.pool.mempool)
    (hstep : step env traffic event = some next) : Linked env next.pool.mempool := by
  rcases step_cases hstep with ⟨-, hpool, -, -⟩ | ⟨action, pool, -, -, hpool, rfl⟩
  · rw [hpool]
    exact hlinked
  · rw [pool_record]
    exact hlinked.step hpool

/-- Throughout a run the key map leads into the list. -/
theorem linked_path {height : Int64} {preCheck : Option PreCheckFunc}
    {postCheck : Option PostCheckFunc} (events : List Event) :
    ∀ move ∈ (lts env height preCheck postCheck).path
        (lts env height preCheck postCheck).start events,
      Linked env move.target.pool.mempool := by
  have hstep (traffic : Traffic) (event : Event) (next : Traffic)
      (hlinked : Linked env traffic.pool.mempool)
      (hnext : (lts env height preCheck postCheck).step traffic event = some next) :
      Linked env next.pool.mempool := linked_step hlinked hnext
  exact Lts.forall_path hstep (linked_newTxMempool height preCheck postCheck) events

theorem Current.of_shrinks (hlinked : Linked env traffic.pool.mempool) (hcurrent : traffic.Current)
    (hshrinks : Shrinks env traffic.pool.mempool next.pool.mempool)
    (hprocessed : next.processed = traffic.processed)
    (horigin : ∀ element < traffic.pool.mempool.next,
      next.origin element = traffic.origin element) : next.Current := by
  intro key element hkey number hnumber
  have hbefore := Shrinks.byKey hshrinks hkey
  have hmem := (hlinked.byKey key element hbefore).1
  rw [horigin element (hlinked.lt_next element hmem)]
  rw [hprocessed] at hnumber
  exact hcurrent key element hbefore number hnumber

theorem Current.update {pool : Pool} (hlinked : Linked env traffic.pool.mempool)
    (hcurrent : traffic.Current)

    (hpool : Pool.step env traffic.pool (.update blockHeight blockTxs deliverTxResponses newPreFn
      newPostFn now) = some pool) :
    (traffic.record env (.update blockHeight blockTxs deliverTxResponses newPreFn
      newPostFn now) pool).Current := by
  obtain ⟨mempool, hupdate, hpool⟩ := Option.bind_eq_some_iff.1 hpool
  obtain rfl := Option.some.inj hpool
  intro key element hkey number hnumber
  rcases List.mem_append.1 hnumber with hnew | hold
  · obtain ⟨tx, htx, hentry⟩ := List.mem_map.1 hnew
    obtain rfl := congrArg Prod.fst hentry
    have hnone := txByKey_update hlinked hupdate htx
    exact absurd (hnone.symm.trans hkey) (by simp)
  · exact hcurrent key element (Shrinks.byKey (shrinks_update hlinked hupdate) hkey) number hold

/-- An inserted transaction is as old as the `CheckTx` that inserts it. -/
theorem current_insertTx_iff {room : TxMempool} {wtx : WrappedTx} {began : ℕ}
    (hlinked : Linked env traffic.pool.mempool) (hcurrent : traffic.Current)
    (hroom : Shrinks env traffic.pool.mempool room)
    (hnext : next.pool.mempool = room.insertTx env wtx)
    (hprocessed : next.processed = traffic.processed)
    (horigin : next.origin = Function.update traffic.origin traffic.pool.mempool.next began) :
    next.Current ↔ ∀ number, (env.key wtx.tx, number) ∈ traffic.processed → number < began := by
  have hlast : room.next = traffic.pool.mempool.next := Shrinks.next_eq hroom
  have hinserted : next.pool.mempool.txByKey (env.key wtx.tx) = some room.next := by
    rw [hnext]
    exact Function.update_self _ _ _
  have hbegan : next.origin room.next = began := by
    rw [horigin, hlast, Function.update_self]
  constructor
  · intro hnew number hnumber
    rw [← hbegan]
    exact hnew _ _ hinserted number (hprocessed ▸ hnumber)
  · intro hbefore key element hkey number hnumber
    rw [hprocessed] at hnumber
    by_cases hsame : key = env.key wtx.tx
    · subst hsame
      obtain rfl := Option.some.inj (hinserted.symm.trans hkey)
      rw [hbegan]
      exact hbefore number hnumber
    · have hold : room.txByKey key = some element := by
        rw [hnext] at hkey
        exact (Function.update_of_ne hsame _ _).symm.trans hkey
      have hfirst := Shrinks.byKey hroom hold
      have hlt := hlinked.lt_next element (hlinked.byKey key element hfirst).1
      rw [horigin, Function.update_of_ne hlt.ne]
      exact hcurrent key element hfirst number hnumber

theorem current_response_iff {pool : Pool} {index : ℕ} {response : Option ResponseCheckTx}
    (hlinked : Linked env traffic.pool.mempool) (hcurrent : traffic.Current)
    (hpermits : traffic.permits (.response index response now) = true)
    (hpool : Pool.step env traffic.pool (.response index response now) = some pool) :
    (traffic.record env (.response index response now) pool).Current ↔
      traffic.Undisturbed env (.action (.response index response now)) := by
  obtain ⟨began, hcalls⟩ : ∃ began, traffic.calls[index]? = some (.answered response, began) := by
    rw [permits] at hpermits
    split at hpermits
    · rename_i given began hcalls
      exact ⟨began, of_decide_eq_true hpermits ▸ hcalls⟩
    · cases hpermits
  have horigin : (traffic.record env (.response index response now) pool).origin =
      Function.update traffic.origin traffic.pool.mempool.next began := by
    rw [record, hcalls]
    rfl
  have hkept (element : ℕ) (helement : element < traffic.pool.mempool.next) :
      (traffic.record env (.response index response now) pool).origin element =
        traffic.origin element := by
    rw [horigin, Function.update_of_ne helement.ne]
  have hprocessed : (traffic.record env (.response index response now)
      pool).processed = traffic.processed := rfl
  obtain ⟨call, hcall, hpool⟩ := Option.bind_eq_some_iff.1 hpool
  obtain rfl := Option.some.inj hpool
  by_cases hadmitted : ∃ given room, response = some given ∧
      Admitted env traffic.pool.mempool (Pool.wrap call now) given room
  · obtain ⟨given, room, rfl, hadmitted⟩ := hadmitted
    refine (current_insertTx_iff hlinked hcurrent (shrinks_makeRoom hlinked hadmitted.room)
      (initialTxCallback_admitted hadmitted) hprocessed horigin).trans ?_
    constructor
    · intro hbefore call' phase began' room' hcall' hcalls' _ number hnumber
      obtain rfl := Option.some.inj (hcall.symm.trans hcall')
      obtain rfl := congrArg Prod.snd (Option.some.inj (hcalls.symm.trans hcalls'))
      exact hbefore number hnumber
    · intro hundisturbed
      exact hundisturbed call _ began room hcall hcalls hadmitted
  · have hnone : ∀ given room, response = some given →
        ¬ Admitted env traffic.pool.mempool (Pool.wrap call now) given room :=
      fun given room hgiven h => hadmitted ⟨given, room, hgiven, h⟩
    constructor
    · intro _
      cases response with
      | none => trivial
      | some given =>
        intro call' phase began' room hcall' _ hadmitted'
        obtain rfl := Option.some.inj (hcall.symm.trans hcall')
        exact absurd hadmitted' (hnone given room rfl)
    · intro _
      exact hcurrent.of_shrinks hlinked (shrinks_initialTxCallback hnone) hprocessed hkept

theorem current_step_iff (hlinked : Linked env traffic.pool.mempool) (hcurrent : traffic.Current)
    (hstep : step env traffic event = some next) :
    next.Current ↔ traffic.Undisturbed env event := by
  rcases step_cases hstep with ⟨hevent, hpool, hprocessed, horigin⟩ |
    ⟨action, pool, rfl, hpermits, hpool, rfl⟩
  · have hnext : next.Current := by
      unfold Current
      rw [hpool, hprocessed, horigin]
      exact hcurrent
    refine iff_of_true hnext ?_
    cases event with
    | action action => exact absurd rfl (hevent action)
    | _ => trivial
  · have hother (hinserts : ∀ wtx room, ¬ Inserts env traffic.pool action wtx room)
        (hprocessed : (traffic.record env action pool).processed = traffic.processed)
        (horigin : (traffic.record env action pool).origin = traffic.origin) :
        (traffic.record env action pool).Current := by
      apply hcurrent.of_shrinks hlinked _ hprocessed
      · intro element _
        rw [horigin]
      · rw [pool_record]
        exact shrinks_step hlinked hpool hinserts
    cases action with
    | response index response now =>
      exact current_response_iff hlinked hcurrent hpermits hpool
    | update => exact iff_of_true (hcurrent.update hlinked hpool) trivial
    | _ =>
      refine iff_of_true (hother ?_ rfl rfl) trivial
      rintro wtx room ⟨_, _, _, _, heq, _⟩
      cases heq

end Traffic

/-- Throughout a run, nothing that an `Update` has processed is reaped again from a
`CheckTx` that began before, exactly when no accepted response in the run is that
of such a `CheckTx`. -/
theorem reaps_new_iff_undisturbed (env : Env) (height : Int64) (preCheck : Option PreCheckFunc)
    (postCheck : Option PostCheckFunc) (events : List Event) :
    (∀ move ∈ (Traffic.lts env height preCheck postCheck).path
        (Traffic.lts env height preCheck postCheck).start events,
      move.target.ReapsNew env) ↔
    ∀ move ∈ (Traffic.lts env height preCheck postCheck).path
        (Traffic.lts env height preCheck postCheck).start events,
      move.source.Undisturbed env move.label := by
  have hbase (traffic : Traffic) (event : Event) (next : Traffic)
      (hlinked : Linked env traffic.pool.mempool)
      (hstep : (Traffic.lts env height preCheck postCheck).step traffic event =
        some next) : Linked env next.pool.mempool :=
    Traffic.linked_step hlinked hstep
  have hinv (traffic : Traffic) (event : Event) (next : Traffic)
      (hlinked : Linked env traffic.pool.mempool) (hreaps : traffic.ReapsNew env)
      (hstep : (Traffic.lts env height preCheck postCheck).step traffic event =
        some next) : next.ReapsNew env ↔ traffic.Undisturbed env event := by
    rw [Traffic.reapsNew_iff_current (Traffic.linked_step hlinked hstep)]
    exact Traffic.current_step_iff hlinked ((Traffic.reapsNew_iff_current hlinked).1 hreaps) hstep
  have hlinked : Linked env (Traffic.lts env height preCheck postCheck).start.pool.mempool :=
    linked_newTxMempool height preCheck postCheck
  have hstart : (Traffic.lts env height preCheck postCheck).start.ReapsNew env := by
    rw [Traffic.reapsNew_iff_current hlinked]
    intro key element hkey
    cases hkey
  exact Lts.forall_path_iff hbase hinv hlinked hstart events

namespace Reference

/-- A transaction arrives in a block while its `CheckTx` is on the way: the
application has accepted it and `FlushAppConn` has returned, but the callback comes
after `Update`. -/
def overlapped : List Event :=
  [.action (.checkTx [1] none), .send 0, .flushAppConn, .answer 0 (some (accepted 1)),
    .flushed, .action (.update 2 [[1]] [⟨0, [], "", 0, 0⟩] none none 6),
    .action (.response 0 (some (accepted 1)) 7)]

end Reference

open Reference in
/-- A committed transaction is reaped again although its only `CheckTx` began before
its `Update`. -/
theorem committed_transaction_reaped_again : ∃ move ∈ (Traffic.lts env 1 none none).path
        (Traffic.lts env 1 none none).start overlapped,
      move.target.pool.mempool.Ranged [0] ∧
      move.target.pool.mempool.reapMaxBytesMaxGas env [0] 100 100 = [[1]] ∧
      (env.key [1], 0) ∈ move.target.processed ∧ move.target.origin 0 = 0 ∧
      ¬ move.target.ReapsNew env := by
  have hrun : ([0], [[1]], [(env.key [1], 0)], 0, some 0) ∈ ((Traffic.lts env 1 none none).path
        (Traffic.lts env 1 none none).start overlapped).map fun move =>
          (move.target.pool.mempool.txs,
            move.target.pool.mempool.reapMaxBytesMaxGas env [0] 100 100,
            move.target.processed, move.target.origin 0,
            move.target.pool.mempool.txByKey (env.key [1])) := by
    decide +kernel
  obtain ⟨move, hmove, hview⟩ := List.mem_map.1 hrun
  simp only [Prod.mk.injEq] at hview
  obtain ⟨htxs, hreaped, hprocessed, horigin, hkey⟩ := hview
  have hlinked := Traffic.linked_path overlapped move hmove
  have hranged : move.target.pool.mempool.Ranged [0] := by
    refine ⟨List.nodup_singleton 0, fun element => ⟨?_, ?_⟩⟩
    · intro helement
      exact ⟨env.key [1], List.mem_singleton.1 helement ▸ hkey⟩
    · rintro ⟨key, hfound⟩
      exact htxs ▸ (hlinked.byKey key element hfound).1
  have hupdate : (env.key [1], 0) ∈ move.target.processed := by
    rw [hprocessed]
    exact List.mem_cons_self
  refine ⟨move, hmove, hranged, hreaped, hupdate, horigin, fun hreaps => ?_⟩
  obtain ⟨element, hfound, hlt⟩ := hreaps [0] 100 100 hranged [1]
    (by rw [hreaped]; exact List.mem_cons_self) 0 hupdate
  obtain rfl := Option.some.inj (hkey.symm.trans hfound)
  rw [horigin] at hlt
  exact Nat.lt_irrefl 0 hlt

end Dymint.Mempool
