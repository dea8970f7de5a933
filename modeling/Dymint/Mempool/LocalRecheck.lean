import Dymint.Mempool.Eviction
import Dymint.Mempool.Recheck
import Mathlib.Data.Nat.SuccPred

/-!
# Rechecks with a local client

A local client answers `CheckTxAsync` before it returns, so that `recheckTxCallback` runs
in the middle of the loop of `recheckTransactions`.  The callback may remove and detach the
very element that the loop stands at, and the loop then finds no next one.
-/

namespace Dymint.Mempool

open Dymint.Types Recheck

namespace TxMempool

variable (env : Env)

def Confirms (pool : TxMempool) (element : ℕ) (response : ResponseCheckTx) : Prop :=
  response.code = 0 ∧
    (pool.postCheck.bind fun check => check (pool.value element).tx response) = none

instance (pool : TxMempool) (element : ℕ) (response : ResponseCheckTx) :
    Decidable (pool.Confirms element response) := inferInstanceAs (Decidable (_ ∧ _))

def recheckTxCallback (pool : TxMempool) (tx : Tx) (response : ResponseCheckTx) : TxMempool :=
  let pool := pool.countRecheck
  if pool.txRecheck < 0 then pool else pool.recheckTx env tx response

/-- The loop of `recheckTransactions`, with the elements that it has come to and the
answers; nothing if it is still running after `fuel` rounds.  `FlushSync` of a local client
does nothing. -/
def recheckFrom (responses : ℕ → ResponseCheckTx) :
    ℕ → ℕ → Option ℕ → TxMempool → Option (TxMempool × List (ℕ × ResponseCheckTx))
  | _, _, none, pool => some (pool, [])
  | 0, _, some _, _ => none
  | fuel + 1, serial, some element, pool =>
    let response := responses serial
    let pool := pool.recheckTxCallback env (pool.value element).tx response
    (recheckFrom responses fuel (serial + 1) (after element pool.txs).head? pool).map
      fun (later, log) => (later, (element, response) :: log)

def recheckTransactions (responses : ℕ → ResponseCheckTx) (pool : TxMempool) :
    Option (TxMempool × List (ℕ × ResponseCheckTx)) :=
  recheckFrom env responses pool.txs.length 0 pool.txs.head? pool.startRecheck

/-- `Update`; nothing when it panics. -/
def updateAndRecheck (pool : TxMempool) (blockHeight : Int64) (blockTxs : List Tx)
    (deliverTxResponses : List ResponseDeliverTx) (newPreFn : Option PreCheckFunc)
    (newPostFn : Option PostCheckFunc) (now : Time) (responses : ℕ → ResponseCheckTx) :
    Option (TxMempool × List (ℕ × ResponseCheckTx)) := do
  let pool ← pool.update env blockHeight blockTxs deliverTxResponses newPreFn newPostFn now
  if pool.txs.length > 0 ∧ env.config.recheck then pool.recheckTransactions env responses
  else return (pool, [])

end TxMempool

/-! ## One answer -/

/-- Nothing but priorities and the counter is different. -/
structure Reprioritized (pool later : TxMempool) : Prop where
  txs : later.txs = pool.txs
  byKey : later.txByKey = pool.txByKey
  postCheck : later.postCheck = pool.postCheck
  tx : ∀ element, (later.value element).tx = (pool.value element).tx

section

variable {env : Env} {pool later : TxMempool} {element : ℕ} {response : ResponseCheckTx}

theorem Reprioritized.confirms_iff (hsame : Reprioritized pool later) :
    later.Confirms element response ↔ pool.Confirms element response := by
  rw [TxMempool.Confirms, TxMempool.Confirms, hsame.postCheck, hsame.tx]

theorem Reprioritized.trans {last : TxMempool} (hfirst : Reprioritized pool later)
    (hsecond : Reprioritized later last) : Reprioritized pool last where
  txs := hsecond.txs.trans hfirst.txs
  byKey := hsecond.byKey.trans hfirst.byKey
  postCheck := hsecond.postCheck.trans hfirst.postCheck
  tx element := (hsecond.tx element).trans (hfirst.tx element)

theorem txRecheck_recheckTx (tx : Tx) :
    (pool.recheckTx env tx response).txRecheck = pool.txRecheck := by
  unfold TxMempool.recheckTx
  cases pool.txByKey (env.key tx) with
  | none => rfl
  | some element =>
    dsimp only
    split_ifs <;> rfl

/-- While answers are expected, the callback does not ignore them. -/
theorem recheckTxCallback_eq (hcount : 0 < pool.txRecheck) (tx : Tx) :
    pool.recheckTxCallback env tx response = pool.countRecheck.recheckTx env tx response := by
  have hleft : ¬ pool.countRecheck.txRecheck < 0 := by
    change ¬ pool.txRecheck - 1 < 0
    omega
  exact if_neg hleft

theorem txRecheck_recheckTxCallback (hcount : 0 < pool.txRecheck) (tx : Tx) :
    (pool.recheckTxCallback env tx response).txRecheck = pool.txRecheck - 1 := by
  rw [recheckTxCallback_eq hcount, txRecheck_recheckTx]
  rfl

theorem shrinks_recheckTxCallback (hpool : Linked env pool) (tx : Tx) (response : ResponseCheckTx) :
    Shrinks env pool (pool.recheckTxCallback env tx response) := by
  have hcount : Shrinks env pool pool.countRecheck :=
    .single (.other pool pool.cache _ pool.preCheck pool.postCheck pool.height)
  unfold TxMempool.recheckTxCallback
  dsimp only
  split
  · exact hcount
  · exact hcount.trans (shrinks_recheckTx (hcount.linked hpool) tx response)

theorem recheckTx_of_none {tx : Tx} (hfound : pool.txByKey (env.key tx) = none) :
    pool.recheckTx env tx response = pool := by
  simp [TxMempool.recheckTx, hfound]

theorem reprioritized_recheckTxCallback (hcount : 0 < pool.txRecheck)
    (hconfirms : pool.Confirms element response) :
    Reprioritized pool (pool.recheckTxCallback env (pool.value element).tx response) := by
  rw [recheckTxCallback_eq hcount]
  cases hfound : pool.countRecheck.txByKey (env.key (pool.value element).tx) with
  | none =>
    rw [recheckTx_of_none hfound]
    exact ⟨rfl, rfl, rfl, fun _ => rfl⟩
  | some found =>
    unfold TxMempool.recheckTx
    rw [hfound]
    dsimp only
    split
    case isFalse hrejected => exact absurd hconfirms hrejected
    case isTrue =>
      refine ⟨rfl, rfl, rfl, fun other => ?_⟩
      by_cases hother : other = found
      · subst hother
        simp [TxMempool.countRecheck]
      · simp [TxMempool.countRecheck, Function.update_of_ne hother]

theorem recheckTxCallback_rejected (hpool : Linked env pool) (hcount : 0 < pool.txRecheck)
    (hrejected : ¬ pool.Confirms element response) :
    (pool.recheckTxCallback env (pool.value element).tx response).txs =
        ((pool.txByKey (env.key (pool.value element).tx)).elim pool.txs pool.txs.erase) ∧
      (pool.recheckTxCallback env (pool.value element).tx response).txByKey
        (env.key (pool.value element).tx) = none := by
  rw [recheckTxCallback_eq hcount]
  cases hfound : pool.txByKey (env.key (pool.value element).tx) with
  | none =>
    have hfound' : pool.countRecheck.txByKey (env.key (pool.value element).tx) = none := hfound
    rw [recheckTx_of_none hfound']
    exact ⟨rfl, hfound⟩
  | some found =>
    have hremoved : (pool.countRecheck.removeTxByElement env found).txByKey
        (env.key (pool.value element).tx) = none := by
      rw [← (hpool.byKey _ found hfound).2]
      exact Function.update_self _ _ _
    have hfound' : pool.countRecheck.txByKey (env.key (pool.value element).tx) =
        some found := hfound
    unfold TxMempool.recheckTx
    rw [hfound']
    dsimp only
    split
    case isTrue hconfirms => exact absurd hconfirms hrejected
    case isFalse => split <;> exact ⟨rfl, hremoved⟩

/-- An element that the key map does not lead to is not removed. -/
theorem mem_recheckTxCallback {lost : ℕ} (hpool : Linked env pool) (hmem : lost ∈ pool.txs)
    (hlost : pool.txByKey (env.key (pool.value lost).tx) = none) (tx : Tx) :
    lost ∈ (pool.recheckTxCallback env tx response).txs := by
  unfold TxMempool.recheckTxCallback
  dsimp only
  split
  · exact hmem
  · cases hfound : pool.countRecheck.txByKey (env.key tx) with
    | none =>
      rw [recheckTx_of_none hfound]
      exact hmem
    | some found =>
      have hne : lost ≠ found := by
        rintro rfl
        have hkey := (hpool.byKey _ lost hfound).2
        rw [hkey] at hlost
        cases hlost.symm.trans hfound
      have hremoved : lost ∈ pool.txs.erase found := (List.mem_erase_of_ne hne).2 hmem
      unfold TxMempool.recheckTx
      rw [hfound]
      dsimp only
      split
      · exact hmem
      · split <;> exact hremoved

end

/-! ## The loop -/

variable {rest front : List ℕ}

section

variable {env : Env} {responses : ℕ → ResponseCheckTx} {pool later : TxMempool}
  {log : List (ℕ × ResponseCheckTx)} {fuel serial element : ℕ}

theorem recheckFrom_none : pool.recheckFrom env responses fuel serial none = some (pool, []) := by
  cases fuel <;> rfl

theorem recheckFrom_succ {next : TxMempool}
    (hnext : pool.recheckTxCallback env (pool.value element).tx (responses serial) = next) :
    pool.recheckFrom env responses (fuel + 1) serial (some element) =
      (next.recheckFrom env responses fuel (serial + 1) (after element next.txs).head?).map
        fun result => (result.1, (element, responses serial) :: result.2) := by
  subst hnext
  rfl

theorem recheckFrom_ends (hpool : Linked env pool)
    (hfuel : (after element pool.txs).length < fuel) :
    ∃ result, pool.recheckFrom env responses fuel serial (some element) = some result := by
  induction fuel generalizing pool serial element with
  | zero => omega
  | succ fuel ih =>
    have hshrinks := shrinks_recheckTxCallback hpool (pool.value element).tx (responses serial)
    generalize hnext : pool.recheckTxCallback env (pool.value element).tx
      (responses serial) = next at hshrinks
    have hlinked := hshrinks.linked hpool
    have hlength := (sublist_after element hshrinks.sublist hpool.nodup).length_le
    rw [recheckFrom_succ hnext]
    cases hafter : after element next.txs with
    | nil =>
      rw [List.head?_nil, recheckFrom_none]
      exact ⟨_, rfl⟩
    | cons following rest =>
      have hrest := after_eq_of_after hlinked.nodup hafter
      rw [hafter, List.length_cons] at hlength
      obtain ⟨result, hresult⟩ := @ih next (serial + 1) following hlinked (by rw [hrest]; omega)
      exact ⟨_, congrArg _ hresult⟩

/-- An element that the key map does not lead to stays. -/
theorem mem_of_recheckFrom {lost : ℕ} {current : Option ℕ} (hpool : Linked env pool)
    (hmem : lost ∈ pool.txs) (hlost : pool.txByKey (env.key (pool.value lost).tx) = none)
    (hresult : pool.recheckFrom env responses fuel serial current = some (later, log)) :
    lost ∈ later.txs := by
  induction fuel generalizing pool serial current log with
  | zero =>
    cases current with
    | none =>
      cases hresult
      exact hmem
    | some element => cases hresult
  | succ fuel ih =>
    cases current with
    | none =>
      cases hresult
      exact hmem
    | some element =>
      have hshrinks := shrinks_recheckTxCallback hpool (pool.value element).tx (responses serial)
      have hstays : lost ∈ (pool.recheckTxCallback env (pool.value element).tx
          (responses serial)).txs := mem_recheckTxCallback hpool hmem hlost _
      generalize hnext : pool.recheckTxCallback env (pool.value element).tx
        (responses serial) = next at hshrinks hstays
      rw [recheckFrom_succ hnext] at hresult
      obtain ⟨⟨last, rest⟩, hrest, hlast⟩ := Option.map_eq_some_iff.1 hresult
      cases hlast
      apply ih (hshrinks.linked hpool) hstays _ hrest
      rw [(hshrinks.value lost).1, Option.eq_none_iff_forall_ne_some]
      intro found hfound
      cases hlost.symm.trans (hshrinks.byKey hfound)

theorem after_append (hnodup : (front ++ element :: rest).Nodup) :
    after element (front ++ element :: rest) = rest := by
  induction front with
  | nil => exact after_cons_self element rest
  | cons other front ih =>
    rw [List.cons_append, List.nodup_cons] at hnodup
    have hne : other ≠ element := by
      rintro rfl
      exact hnodup.1 (List.mem_append_right _ List.mem_cons_self)
    rw [List.cons_append, after_cons_of_ne hne, ih hnodup.2]

end

/-- The loop has come to everything that is in the mempool from `front` on, all of it is
confirmed, and what is not confirmed is gone. -/
structure RecheckedFrom (front : List ℕ) (start later : TxMempool)
    (log : List (ℕ × ResponseCheckTx)) : Prop where
  confirmed : ∀ element ∈ later.txs, element ∉ front →
    ∃ response, (element, response) ∈ log ∧ start.Confirms element response
  gone : ∀ entry ∈ log, ¬ start.Confirms entry.1 entry.2 → entry.1 ∉ later.txs
  counter : later.txRecheck = 0

def Confirmable (env : Env) (responses : ℕ → ResponseCheckTx) (start : TxMempool)
    (serial : ℕ) (back : List ℕ) : Prop :=
  ∀ k element, back[k]? = some element → start.Confirms element (responses (serial + k)) ∨
      k + 1 = back.length ∧ start.txByKey (env.key (start.value element).tx) = some element

section

variable {env : Env} {responses : ℕ → ResponseCheckTx} {start pool later : TxMempool}
  {log : List (ℕ × ResponseCheckTx)} {fuel serial element : ℕ}

theorem confirmable_cons : Confirmable env responses start serial (element :: rest) ↔
      (start.Confirms element (responses serial) ∨ rest = [] ∧
        start.txByKey (env.key (start.value element).tx) = some element) ∧
      Confirmable env responses start (serial + 1) rest := by
  constructor
  · intro hconfirmable
    constructor
    · simpa using hconfirmable 0 element rfl
    · intro k other hother
      have hnext := hconfirmable (k + 1) other hother
      rwa [List.length_cons, Nat.add_left_inj, ← Nat.add_assoc, Nat.add_right_comm] at hnext
  · rintro ⟨hfirst, hrest⟩ k other hother
    cases k with
    | zero =>
      obtain rfl : element = other := Option.some.inj hother
      simpa using hfirst
    | succ k =>
      have hnext := hrest k other hother
      rwa [List.length_cons, Nat.add_left_inj, ← Nat.add_assoc, Nat.add_right_comm]

theorem confirmable_nil : Confirmable env responses start serial [] :=
  fun _ _ helement => nomatch helement

theorem recheckedFrom_cons_iff {response : ResponseCheckTx}
    (hconfirms : start.Confirms element response) :
    RecheckedFrom front start later ((element, response) :: log) ↔
      RecheckedFrom (front ++ [element]) start later log := by
  constructor
  · rintro ⟨hconfirmed, hgone, hcounter⟩
    refine ⟨?_, fun entry hentry => hgone entry (List.mem_cons_of_mem _ hentry), hcounter⟩
    intro other hother hnew
    rw [List.mem_append, List.mem_singleton, not_or] at hnew
    obtain ⟨found, hfound, hsays⟩ := hconfirmed other hother hnew.1
    refine ⟨found, (List.mem_cons.1 hfound).resolve_left ?_, hsays⟩
    intro hequal
    exact hnew.2 (congrArg Prod.fst hequal)
  · rintro ⟨hconfirmed, hgone, hcounter⟩
    refine ⟨?_, ?_, hcounter⟩
    · intro other hother hnew
      by_cases hsame : other = element
      · exact ⟨response, hsame ▸ List.mem_cons_self, hsame ▸ hconfirms⟩
      · obtain ⟨found, hfound, hsays⟩ := hconfirmed other hother (by simp [hnew, hsame])
        exact ⟨found, List.mem_cons_of_mem _ hfound, hsays⟩
    · rw [List.forall_mem_cons]
      exact ⟨fun hrejected => absurd hconfirms hrejected, hgone⟩

/-- The loop has nothing more to come to. -/
theorem recheckedFrom_nil_iff : RecheckedFrom front start later [] ↔
      (∀ element ∈ later.txs, element ∈ front) ∧ later.txRecheck = 0 := by
  constructor
  · rintro ⟨hconfirmed, -, hcounter⟩
    refine ⟨fun element helement => ?_, hcounter⟩
    by_contra hnew
    obtain ⟨_, hlog, _⟩ := hconfirmed element helement hnew
    cases hlog
  · rintro ⟨hfront, hcounter⟩
    exact ⟨fun element helement hnew => absurd (hfront element helement) hnew, nofun, hcounter⟩

/-- The first round of the loop and the others. -/
theorem recheckFrom_some
    (hresult : pool.recheckFrom env responses fuel serial (some element) = some (later, log)) :
    ∃ fewer rest, log = (element, responses serial) :: rest ∧
      TxMempool.recheckFrom env responses fewer (serial + 1)
        (after element (pool.recheckTxCallback env (pool.value element).tx
          (responses serial)).txs).head?
        (pool.recheckTxCallback env (pool.value element).tx (responses serial)) =
          some (later, rest) := by
  cases fuel with
  | zero => cases hresult
  | succ fuel =>
    rw [recheckFrom_succ rfl] at hresult
    obtain ⟨⟨last, rest⟩, hrest, hlast⟩ := Option.map_eq_some_iff.1 hresult
    cases hlast
    exact ⟨fuel, rest, rfl, hrest⟩

section

variable (hsame : Reprioritized start pool) (hlinked : Linked env pool)
variable (htxs : pool.txs = front ++ element :: rest) (hcount : pool.txRecheck = rest.length + 1)

include hsame hlinked htxs hcount

theorem recheckedFrom_iff_of_rejected (hrejected : ¬ start.Confirms element (responses serial))
    (hresult : pool.recheckFrom env responses fuel serial (some element) = some (later, log)) :
    RecheckedFrom front start later log ↔ rest = [] ∧
      start.txByKey (env.key (start.value element).tx) = some element := by
  obtain ⟨fewer, others, rfl, hothers⟩ := recheckFrom_some hresult
  have hpositive : 0 < pool.txRecheck := by omega
  have hnodup := hlinked.nodup
  have hshrinks := shrinks_recheckTxCallback hlinked (pool.value element).tx (responses serial)
  have hcounter : (pool.recheckTxCallback env (pool.value element).tx
      (responses serial)).txRecheck = rest.length := by
    rw [txRecheck_recheckTxCallback hpositive, hcount, add_sub_cancel_right]
  obtain ⟨hremoved, hunknown⟩ := recheckTxCallback_rejected hlinked hpositive
    (hsame.confirms_iff.not.2 hrejected)
  rw [← hsame.byKey, ← hsame.tx]
  generalize pool.recheckTxCallback env (pool.value element).tx (responses serial) = next at *
  by_cases hself : pool.txByKey (env.key (pool.value element).tx) = some element
  case pos =>
    -- The element is detached, and the loop ends here.
    rw [hself, Option.elim_some] at hremoved
    have hdetached : after element next.txs = [] := by
      rw [hremoved]
      exact after_eq_nil hnodup.not_mem_erase
    rw [hdetached, List.head?_nil, recheckFrom_none] at hothers
    cases hothers
    constructor
    · intro hrechecked
      have hzero := hrechecked.counter
      rw [hcounter] at hzero
      exact ⟨List.length_eq_zero_iff.1 (by omega), hself⟩
    · rintro ⟨rfl, -⟩
      refine ⟨?_, ?_, hcounter⟩
      · intro other hother hnew
        rw [hremoved, hnodup.mem_erase_iff, htxs, List.mem_append, List.mem_singleton] at hother
        exact absurd (hother.2.resolve_right hother.1) hnew
      · rw [List.forall_mem_singleton]
        intro _
        rw [hremoved]
        exact hnodup.not_mem_erase
  case neg =>
    -- The element is still there, and nothing will remove it.
    have hstays : element ∈ next.txs := by
      have hmem : element ∈ pool.txs := by
        rw [htxs]
        exact List.mem_append_right _ List.mem_cons_self
      rw [hremoved]
      cases hfound : pool.txByKey (env.key (pool.value element).tx) with
      | none => exact hmem
      | some found =>
        have hne : element ≠ found := by
          rintro rfl
          exact hself hfound
        exact (List.mem_erase_of_ne hne).2 hmem
    have hlost : next.txByKey (env.key (next.value element).tx) = none := by
      rw [(hshrinks.value element).1]
      exact hunknown
    have hlast := mem_of_recheckFrom (hshrinks.linked hlinked) hstays hlost hothers
    refine iff_of_false ?_ fun hcondition => hself hcondition.2
    intro hrechecked
    exact hrechecked.gone _ List.mem_cons_self hrejected hlast

theorem recheckFrom_confirmed (hconfirms : start.Confirms element (responses serial))
    (hresult : pool.recheckFrom env responses fuel serial (some element) = some (later, log)) :
    ∃ fewer others next, log = (element, responses serial) :: others ∧
      Reprioritized start next ∧ Linked env next ∧ next.txs = front ++ element :: rest ∧
      next.txRecheck = rest.length ∧
      next.recheckFrom env responses fewer (serial + 1) rest.head? = some (later, others) := by
  obtain ⟨fewer, others, rfl, hothers⟩ := recheckFrom_some hresult
  have hpositive : 0 < pool.txRecheck := by omega
  have hnext : Reprioritized pool
      (pool.recheckTxCallback env (pool.value element).tx (responses serial)) :=
    reprioritized_recheckTxCallback hpositive (hsame.confirms_iff.2 hconfirms)
  have hshrinks := shrinks_recheckTxCallback hlinked (pool.value element).tx (responses serial)
  have hnodup := htxs ▸ hlinked.nodup
  rw [hnext.txs, htxs, after_append hnodup] at hothers
  refine ⟨fewer, others, _, rfl, hsame.trans hnext, hshrinks.linked hlinked,
    hnext.txs.trans htxs, ?_, hothers⟩
  rw [txRecheck_recheckTxCallback hpositive, hcount, add_sub_cancel_right]

/-- The elements from the current one on are rechecked if and only if nothing stops the
loop before the last one. -/
theorem recheckedFrom_iff
    (hresult : pool.recheckFrom env responses fuel serial (some element) = some (later, log)) :
    RecheckedFrom front start later log ↔
      Confirmable env responses start serial (element :: rest) := by
  induction rest generalizing pool front element serial fuel log with
  | nil =>
    rw [confirmable_cons]
    by_cases hconfirms : start.Confirms element (responses serial)
    case neg =>
      rw [recheckedFrom_iff_of_rejected hsame hlinked htxs hcount hconfirms hresult]
      simp [hconfirms, confirmable_nil]
    case pos =>
      obtain ⟨fewer, others, next, rfl, -, -, htxs', hcount', hothers⟩ :=
        recheckFrom_confirmed hsame hlinked htxs hcount hconfirms hresult
      rw [List.head?_nil, recheckFrom_none] at hothers
      cases hothers
      rw [recheckedFrom_cons_iff hconfirms, recheckedFrom_nil_iff]
      refine iff_of_true ⟨?_, hcount'⟩ ⟨.inl hconfirms, confirmable_nil⟩
      intro other hother
      rwa [htxs'] at hother
  | cons following rest ih =>
    rw [confirmable_cons]
    by_cases hconfirms : start.Confirms element (responses serial)
    case neg =>
      rw [recheckedFrom_iff_of_rejected hsame hlinked htxs hcount hconfirms hresult]
      simp [hconfirms]
    case pos =>
      obtain ⟨fewer, others, next, rfl, hsame', hlinked', htxs', hcount', hothers⟩ :=
        recheckFrom_confirmed hsame hlinked htxs hcount hconfirms hresult
      rw [List.append_cons] at htxs'
      rw [List.length_cons, Nat.cast_add_one] at hcount'
      rw [recheckedFrom_cons_iff hconfirms, ih hsame' hlinked' htxs' hcount' hothers,
        and_iff_right (.inl hconfirms)]

end

end

/-! ## `Update` -/

def Rechecked (start later : TxMempool) (log : List (ℕ × ResponseCheckTx)) : Prop :=
  RecheckedFrom [] start later log

/-- When `Update` returns, the remaining transactions have been rechecked if and only if
at most the last one is not confirmed, and that one is found by its key; if none remain,
the counter has to be zero already. -/
theorem update_rechecks_all_iff (env : Env) (hrecheck : env.config.recheck = true)
    {pool start : TxMempool} (hlinked : Linked env pool) (blockHeight : Int64) (blockTxs : List Tx)
    (deliverTxResponses : List ResponseDeliverTx) (newPreFn : Option PreCheckFunc)
    (newPostFn : Option PostCheckFunc) (now : Time) (responses : ℕ → ResponseCheckTx)
    (hstart : pool.update env blockHeight blockTxs deliverTxResponses newPreFn newPostFn now = some
      start) :
    ∃ later log, pool.updateAndRecheck env blockHeight blockTxs deliverTxResponses newPreFn
        newPostFn now responses = some (later, log) ∧
      (Rechecked start later log ↔ (start.txs = [] → start.txRecheck = 0) ∧
          Confirmable env responses start 0 start.txs) := by
  have hlinked' := (shrinks_update hlinked hstart).linked hlinked
  rw [TxMempool.updateAndRecheck, hstart, Option.bind_eq_bind, Option.bind_some]
  cases htxs : start.txs with
  | nil =>
    refine ⟨start, [], by simp, ?_⟩
    rw [Rechecked, recheckedFrom_nil_iff]
    simp [htxs, confirmable_nil]
  | cons element rest =>
    have hbegin : Linked env start.startRecheck := ⟨hlinked'.nodup, hlinked'.lt_next,
      hlinked'.byKey⟩
    have hsame : Reprioritized start start.startRecheck := ⟨rfl, rfl, rfl, fun _ => rfl⟩
    have hcount : start.startRecheck.txRecheck = rest.length + 1 := by
      simp [TxMempool.startRecheck, htxs]
    have hfront : start.startRecheck.txs = [] ++ element :: rest := htxs
    have hafter : after element start.startRecheck.txs = rest := by
      rw [hfront, List.nil_append, after_cons_self]
    obtain ⟨⟨later, log⟩, hresult⟩ : ∃ result, start.startRecheck.recheckFrom env
        responses (rest.length + 1) 0 (some element) = some result :=
      recheckFrom_ends hbegin (by rw [hafter]; omega)
    refine ⟨later, log, ?_, ?_⟩
    · rw [← hresult]
      simp [htxs, hrecheck, TxMempool.recheckTransactions]
    · rw [Rechecked, recheckedFrom_iff hsame hbegin hfront hcount hresult]
      simp

namespace Reference

/-- The application does not confirm the transaction of the first request. -/
def rejectsFirst : ℕ → ResponseCheckTx
  | 0 => ⟨1, 1, 1, ""⟩
  | _ => accepted 1

/-- The application does not confirm the transaction of the third request. -/
def rejectsThird : ℕ → ResponseCheckTx
  | 2 => ⟨1, 1, 1, ""⟩
  | _ => accepted 1

end Reference

open Reference in
/-- The loop stops at the first of three transactions, with two answers still expected. -/
theorem recheck_stops_at_rejected :
    ∃ later log, crowded.updateAndRecheck env 2 [] [] none none 9 rejectsFirst = some (later, log) ∧
      log.map Prod.fst = [0] ∧ later.txs = [1, 2] ∧ later.txRecheck = 2 ∧
      ∀ start, ¬ Rechecked start later log := by
  have hview : ((crowded.updateAndRecheck env 2 [] [] none none 9 rejectsFirst).map
      fun result => (result.2.map Prod.fst, result.1.txs, result.1.txRecheck)) =
        some ([0], [1, 2], 2) := by
    decide +kernel
  obtain ⟨⟨later, log⟩, hresult, hview⟩ := Option.map_eq_some_iff.1 hview
  rw [Prod.mk.injEq, Prod.mk.injEq] at hview
  refine ⟨later, log, hresult, hview.1, hview.2.1, hview.2.2, ?_⟩
  intro start hrechecked
  cases hrechecked.counter.symm.trans hview.2.2

open Reference in
/-- Three transactions are rechecked, and the last one is removed. -/
theorem update_rechecks_all_reference :
    ∃ start later log, crowded.update env 2 [] [] none none 9 = some start ∧
      crowded.updateAndRecheck env 2 [] [] none none 9 rejectsThird = some (later, log) ∧
      Rechecked start later log := by
  have hlinked : Linked env crowded :=
    (((linked_newTxMempool 1 none none).insertTx _).insertTx _).insertTx _
  obtain ⟨later, log, hresult, hiff⟩ := update_rechecks_all_iff env rfl hlinked 2 [] [] none
    none 9 rejectsThird rfl
  refine ⟨_, later, log, rfl, hresult, hiff.2 ⟨nofun, ?_⟩⟩
  refine confirmable_cons.2 ⟨.inl ⟨rfl, rfl⟩, confirmable_cons.2 ⟨.inl ⟨rfl, rfl⟩, ?_⟩⟩
  exact confirmable_cons.2 ⟨.inr ⟨rfl, by decide +kernel⟩, confirmable_nil⟩

end Dymint.Mempool
