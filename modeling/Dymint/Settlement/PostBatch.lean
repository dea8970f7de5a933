import Dymint.Block.InFlight

/-!
# Posting a batch

`PostBatch` of the hub client sends a batch to the settlement layer until it is
accepted.  It subscribes to the acceptances on the event bus and takes the next one for
that of its own batch; when none comes in time, it asks the settlement layer for its
latest batch.  An acceptance is published by the handler of the websocket's events,
and a second time by `PostBatch` if it has found its batch by asking.  The same events
drive `stateUpdatesHandler` and `SyncTargetLoop`, which let the next batch be posted.
-/

namespace Dymint.Settlement

open Procedure Dymint.Types Submit Runs Channels
open Loops (Aggregator InFlight)

/-! ## The hub client -/

structure Range where
  startHeight : UInt64
  endHeight : UInt64
  deriving DecidableEq

/-- `PostBatch` by what comes next. -/
inductive PostPoint where
  | converting
  | subscribing
  | starting
  | submitting
  | failed
  | waiting
  | polling
  | publishing (included : Range)
  | accepted
  | returning
  deriving DecidableEq

/-- A call of `PostBatch`; it has no subscription at first. -/
structure Call where
  batch : Range
  subscription : Option (Subscription UInt64 1)
  point : PostPoint

/-- The steps of `PostBatch`, with what it finds: whether the account is known, the code
with which the settlement layer answers a message, if it does, and whether it answers a
query; `last` says that `retry.Do` makes no further attempt. -/
inductive PostLabel where
  | convert (succeeds : Bool)
  | subscribe
  | proceed
  | done
  | broadcast (answer : Option UInt32) (last : Bool)
  | event
  | cancelled
  | tick
  | poll (answered last : Bool)
  | publish
  | report
  | ret

/-- The loops of the aggregator, the call of `PostBatch` that runs, the batches that the
settlement layer has accepted, and the acceptances that the websocket has not delivered.
The batches that were handed over and the reports of the health are recorded.  All lists
have the latest entry first. -/
structure Client where
  loops : Aggregator
  call : Option Call
  accepted : List Range
  websocket : List Range
  posted : List Range
  reports : List (Range × Bool)

/-- A step of the loops, `SubmitLoop` hands its batch over, a step of `PostBatch`, the
settlement layer accepts a batch, or the websocket delivers the event of one. -/
inductive Label where
  | loops (label : Loops.Label)
  | handOver
  | post (label : PostLabel)
  | accept (batch : Range)
  | event (batch : Range)

def isInternal : Loops.Label → Bool
  | .announce _ | .submit .toSettlement | .submit .posted => false
  | _ => true

namespace Client

variable (limits : Limits) (initialHeight : Int64) (state : Client)

def loopsStep (label : Loops.Label) : Option Client :=
  if isInternal label then
    (state.loops.step limits initialHeight label).map fun loops =>
      { state with loops := loops }
  else none

/-- `SubmitBatch` validates the batch and calls `PostBatch`. -/
def handOver : Option Client :=
  (state.loops.step limits initialHeight (.submit .toSettlement)).map fun loops =>
    match loops.submit with
    | .posting batch =>
      { state with
        loops := loops
        call := some ⟨⟨batch.startHeight, batch.endHeight⟩, none, .converting⟩
        posted := ⟨batch.startHeight, batch.endHeight⟩ :: state.posted }
    | _ => { state with loops := loops }

/-- The event bus passes an acceptance to the settlement client, and to `PostBatch` if
it has subscribed. -/
def publish (endHeight : UInt64) : Option Client :=
  (state.loops.step limits initialHeight (.announce endHeight)).map fun loops =>
    { state with
      loops := loops
      call := state.call.map fun call =>
        { call with
          subscription := call.subscription.map fun subscription =>
            subscription.publish endHeight } }

/-- `eventHandler`. -/
def eventStep (batch : Range) : Option Client :=
  if batch ∈ state.websocket then
    { state with websocket := state.websocket.erase batch }.publish limits initialHeight
      batch.endHeight
  else none

def setPoint (call : Call) (point : PostPoint) : Client :=
  { state with call := some { call with point := point } }

/-- One attempt of `waitForBatchInclusion`. -/
def poll (call : Call) (answered last : Bool) : PostPoint :=
  match (if answered then state.accepted.head? else none) with
  | some latest =>
    if latest.startHeight = call.batch.startHeight then .publishing latest
    else if last then .failed else .polling
  | none => if last then .failed else .polling

def postStep (call : Call) : PostPoint → PostLabel → Option Client
  | .converting, .convert true => some (state.setPoint call .subscribing)
  | .converting, .convert false =>
    some { state with loops := { state.loops with submit := .panicked } }
  | .subscribing, .subscribe =>
    some { state with
      call := some { call with
        subscription := some (.new UInt64 1)
        point := .starting } }
  | .starting, .done | .waiting, .done => some (state.setPoint call .returning)
  | .starting, .proceed => some (state.setPoint call .submitting)
  -- An answer with a code other than zero comes without an error.
  | .submitting, .broadcast (some _) _ => some (state.setPoint call .waiting)
  | .submitting, .broadcast none last =>
    some (state.setPoint call (if last then .failed else .submitting))
  | .failed, .report =>
    some { state.setPoint call .starting with
      reports := (call.batch, false) :: state.reports }
  | .waiting, .cancelled =>
    call.subscription.bind fun subscription =>
      if subscription.cancelled then some (state.setPoint call .returning) else none
  | .waiting, .event =>
    call.subscription.bind fun subscription =>
      subscription.out.receive.map fun (_, out) =>
        { state with
          call := some { call with
            subscription := some { subscription with out := out }
            point := .accepted } }
  | .waiting, .tick => some (state.setPoint call .polling)
  | .polling, .poll answered last =>
    some (state.setPoint call (state.poll call answered last))
  | .publishing included, .publish =>
    (state.setPoint call .accepted).publish limits initialHeight included.endHeight
  | .accepted, .report =>
    some { state.setPoint call .returning with
      reports := (call.batch, true) :: state.reports }
  | .returning, .ret =>
    (state.loops.step limits initialHeight (.submit .posted)).map fun loops =>
      { state with
        loops := loops
        call := none }
  | _, _ => none

def move : Label → Option Client
  | .loops label => state.loopsStep limits initialHeight label
  | .handOver => state.handOver limits initialHeight
  | .post label =>
    state.call.bind fun call => state.postStep limits initialHeight call call.point label
  | .accept batch =>
    some { state with
      accepted := batch :: state.accepted
      websocket := batch :: state.websocket }
  | .event batch => state.eventStep limits initialHeight batch

/-- A panic ends the process. -/
def step (label : Label) : Option Client :=
  if state.loops.submit = .panicked then none
  else state.move limits initialHeight label

def start (loops : Aggregator) (accepted : List Range) : Client where
  loops := loops
  call := none
  accepted := accepted
  websocket := []
  posted := []
  reports := []

def lts (start : Client) : Lts Client Label where
  start := start
  step := step limits initialHeight

end Client

/-! ## What is in flight -/

def Accepted (accepted : List Range) (batch : Range) : Prop :=
  ∃ other ∈ accepted, other.startHeight = batch.startHeight

instance (accepted : List Range) (batch : Range) : Decidable (Accepted accepted batch) :=
  inferInstanceAs (Decidable (∃ other ∈ accepted, _))

variable {batch : Range}

theorem Accepted.cons {accepted : List Range} (other : Range)
    (haccepted : Accepted accepted batch) : Accepted (other :: accepted) batch := by
  obtain ⟨found, hfound, hstart⟩ := haccepted
  exact ⟨found, List.mem_cons_of_mem _ hfound, hstart⟩

/-- The acceptance of the batch that was handed over last is published, and has not been
published before. -/
def Awaited (state : Client) (batch : Range) : Prop :=
  state.posted.head? = some batch ∧ batch.endHeight ∈ state.loops.unannounced

instance (state : Client) (batch : Range) : Decidable (Awaited state batch) :=
  inferInstanceAs (Decidable (_ ∧ _))

def Permits (state : Client) : Label → Prop
  | .event batch => Awaited state batch
  | .post .publish => ∀ call included, state.call = some call →
      call.point = .publishing included → Awaited state included
  | .handOver => ∀ batch, state.loops.submit = .toSettlement batch →
      batch.endHeight + 1 ≠ 0
  | _ => True

/-- What the running call of `PostBatch` has learned about its batch is true. -/
structure Informed (posted accepted : List Range) (call : Call) : Prop where
  last : posted.head? = some call.batch
  event : ∀ subscription, call.subscription = some subscription →
    subscription.out.buffer ≠ [] → Accepted accepted call.batch
  included : ∀ included, call.point = .publishing included →
    included ∈ accepted ∧ included.startHeight = call.batch.startHeight
  accepted : call.point = .accepted → Accepted accepted call.batch

def LastAccepted (posted accepted : List Range) : Prop :=
  ∀ batch, posted.head? = some batch → Accepted accepted batch

structure Sound (state : Client) : Prop where
  flight : state.loops.submit ≠ .panicked → InFlight (state.posted.head?.map Range.endHeight)
      (LastAccepted state.posted state.accepted) state.loops
  older : ∀ batch ∈ state.posted.tail, Accepted state.accepted batch
  ordered : state.posted.Pairwise fun later earlier =>
    earlier.endHeight < later.startHeight
  proper : ∀ batch ∈ state.posted, batch.startHeight ≤ batch.endHeight ∧ batch.endHeight + 1 ≠ 0
  websocket : ∀ batch ∈ state.websocket, batch ∈ state.accepted
  informed : ∀ call, state.call = some call → Informed state.posted state.accepted call
  reports : ∀ batch, (batch, true) ∈ state.reports → Accepted state.accepted batch

section

variable {posted accepted : List Range} {call : Call}

section

variable (hcall : Informed posted accepted call)

include hcall

theorem Informed.setPoint {point : PostPoint}
    (hincluded : ∀ included, point = .publishing included → included ∈ accepted ∧
      included.startHeight = call.batch.startHeight)
    (haccepted : point = .accepted → Accepted accepted call.batch) :
    Informed posted accepted { call with point := point } :=
  { hcall with
    included := hincluded
    accepted := haccepted }

theorem Informed.cons (other : Range) :
    Informed posted (other :: accepted) call where
  last := hcall.last
  event subscription hsubscription hbuffer :=
    (hcall.event subscription hsubscription hbuffer).cons other
  included included hpoint :=
    ⟨List.mem_cons_of_mem _ (hcall.included included hpoint).1, (hcall.included included hpoint).2⟩
  accepted hpoint := (hcall.accepted hpoint).cons other

theorem Informed.deliver (haccepted : Accepted accepted call.batch) (endHeight : UInt64) :
    Informed posted accepted { call with
      subscription := call.subscription.map fun subscription =>
        subscription.publish endHeight } :=
  { hcall with event := fun _ _ _ => haccepted }

end

end

theorem lt_next {height : UInt64} (hne : height + 1 ≠ 0) : height < height + 1 := by
  rw [UInt64.lt_iff_toNat_lt, UInt64.toNat_add, UInt64.toNat_one]
  have hlt := height.toNat_lt
  have hmax : height.toNat ≠ 2 ^ 64 - 1 := by
    intro heq
    apply hne
    rw [← UInt64.toNat_inj, UInt64.toNat_add, UInt64.toNat_one, heq]
    rfl
  rw [Nat.mod_eq_of_lt (by omega)]
  exact Nat.lt_succ_self _

variable {call : Call}

namespace Sound

open Client

variable {limits : Limits} {initialHeight : Int64} {state next : Client}

section

variable (hstate : Sound state)

include hstate

theorem setLoops {loops : Aggregator}
    (hflight : loops.submit ≠ .panicked → InFlight (state.posted.head?.map Range.endHeight)
      (LastAccepted state.posted state.accepted) loops) : Sound { state with loops := loops } :=
  { hstate with flight := hflight }

theorem setCall (hcall : Informed state.posted state.accepted call) :
    Sound { state with call := some call } :=
  { hstate with
    informed := fun other hother => by
      obtain rfl := Option.some.inj hother
      exact hcall }

theorem loopsStep {label : Loops.Label} (hactive : state.loops.submit ≠ .panicked)
    (hstep : state.loopsStep limits initialHeight label = some next) : Sound next := by
  rw [Client.loopsStep, Option.ite_none_right_eq_some] at hstep
  obtain ⟨hinternal, hstep⟩ := hstep
  obtain ⟨loops, hloops, rfl⟩ := Option.map_eq_some_iff.1 hstep
  apply hstate.setLoops
  intro _
  apply (hstate.flight hactive).step _ _ hloops
  · rintro endHeight rfl
    cases hinternal
  · rintro rfl
    cases hinternal

theorem accept (batch : Range) : Sound { state with
      accepted := batch :: state.accepted
      websocket := batch :: state.websocket } where
  flight hactive := (hstate.flight hactive).mono fun hlast other hother =>
    (hlast other hother).cons batch
  older other hother := (hstate.older other hother).cons batch
  ordered := hstate.ordered
  proper := hstate.proper
  websocket other hother := by
    rcases List.mem_cons.1 hother with rfl | hother
    · exact List.mem_cons_self
    · exact List.mem_cons_of_mem _ (hstate.websocket other hother)
  informed call hcall := (hstate.informed call hcall).cons batch
  reports other hother := (hstate.reports other hother).cons batch

theorem publish (hawaited : Awaited state batch)
    (haccepted : Accepted state.accepted batch) (hactive : state.loops.submit ≠ .panicked)
    (hstep : state.publish limits initialHeight batch.endHeight = some next) : Sound next := by
  obtain ⟨hlast, hmem⟩ := hawaited
  have hconfirmed : LastAccepted state.posted state.accepted := by
    intro other hother
    obtain rfl := Option.some.inj (hlast.symm.trans hother)
    exact haccepted
  obtain ⟨loops, hloops, rfl⟩ := Option.map_eq_some_iff.1 hstep
  have hflight := (hstate.flight hactive).announce hmem hconfirmed hloops
  refine { hstate with flight := fun _ => hflight, informed := ?_ }
  intro later hlater
  obtain ⟨call, hcall, rfl⟩ := Option.map_eq_some_iff.1 hlater
  have hinformed := hstate.informed call hcall
  exact hinformed.deliver (hconfirmed _ hinformed.last) _

theorem eventStep (hawaited : Awaited state batch) (hactive : state.loops.submit ≠ .panicked)
    (hstep : state.eventStep limits initialHeight batch = some next) : Sound next := by
  rw [Client.eventStep, Option.ite_none_right_eq_some] at hstep
  obtain ⟨hmem, hstep⟩ := hstep
  have hdelivered : Sound { state with websocket := state.websocket.erase batch } :=
    { hstate with
      websocket := fun other hother =>
        hstate.websocket other (List.mem_of_mem_erase hother) }
  exact hdelivered.publish hawaited ⟨batch, hstate.websocket batch hmem, rfl⟩ hactive hstep

theorem above {batch : Batch} (hpoint : state.loops.submit = .toSettlement batch)
    (hstart : batch.startHeight = state.loops.latestHeight + 1) :
    ∀ earlier ∈ state.posted, earlier.endHeight < batch.startHeight := by
  have hactive : state.loops.submit ≠ .panicked := by simp [hpoint]
  have hsettled := (hstate.flight hactive).settled (Aggregator.not_occupied_of_toSettlement hpoint)
  cases hposted : state.posted with
  | nil => simp
  | cons last older =>
    have hordered := hstate.ordered
    rw [hposted] at hsettled hordered
    obtain ⟨hle, hne⟩ := hstate.proper last (by simp [hposted])
    have hlatest := (hsettled last.endHeight rfl).1
    have hlast : last.endHeight < batch.startHeight := by
      rw [hstart, hlatest]
      exact lt_next hne
    intro earlier hearlier
    rcases List.mem_cons.1 hearlier with rfl | hearlier
    · exact hlast
    · have hbelow := List.rel_of_pairwise_cons hordered hearlier
      exact UInt64.lt_trans (UInt64.lt_of_lt_of_le hbelow hle) hlast

theorem handOver (hpermits : Permits state .handOver) (hactive : state.loops.submit ≠ .panicked)
    (hstep : state.handOver limits initialHeight = some next) : Sound next := by
  obtain ⟨loops, hloops, rfl⟩ := Option.map_eq_some_iff.1 hstep
  obtain ⟨batch, hpoint, ⟨hvalid, rfl⟩ | rfl⟩ := Aggregator.step_toSettlement hloops
  · obtain ⟨hstart, hle⟩ := validateBatch_eq_ok.1 hvalid
    have hsettled := (hstate.flight hactive).settled
      (Aggregator.not_occupied_of_toSettlement hpoint)
    constructor
    · intro _
      exact (hstate.flight hactive).handOver hpoint _
    · intro earlier hearlier
      cases hposted : state.posted with
      | nil => simp [hposted] at hearlier
      | cons last older =>
        have holder := hstate.older earlier
        rw [hposted] at hsettled hearlier holder
        rcases List.mem_cons.1 hearlier with rfl | hearlier
        · exact (hsettled earlier.endHeight rfl).2 earlier rfl
        · exact holder hearlier
    · exact List.pairwise_cons.2 ⟨hstate.above hpoint hstart, hstate.ordered⟩
    · intro earlier hearlier
      rcases List.mem_cons.1 hearlier with rfl | hearlier
      · exact ⟨hle, hpermits batch hpoint⟩
      · exact hstate.proper earlier hearlier
    · exact hstate.websocket
    · intro call hcall
      obtain rfl := Option.some.inj hcall
      exact ⟨rfl, by simp, by simp, by simp⟩
    · exact hstate.reports
  · exact hstate.setLoops fun hpanicked => absurd rfl hpanicked

theorem poll (hcall : Informed state.posted state.accepted call)
    (answered last : Bool) : Sound (state.setPoint call (state.poll call answered last)) := by
  apply hstate.setCall
  have hretry : (if last then PostPoint.failed else .polling) ≠ .accepted ∧
      ∀ included, (if last then PostPoint.failed else .polling) ≠ .publishing included := by
    cases last <;> simp
  unfold Client.poll
  split
  case h_1 latest hlatest =>
    have hmem : latest ∈ state.accepted := by
      cases answered
      · cases hlatest
      · exact List.mem_of_mem_head? hlatest
    split
    case isTrue hstart =>
      apply hcall.setPoint _ (by simp)
      intro included hpoint
      obtain rfl := PostPoint.publishing.inj hpoint
      exact ⟨hmem, hstart⟩
    case isFalse =>
      exact hcall.setPoint (fun included hpoint => absurd hpoint (hretry.2 included))
        fun hpoint => absurd hpoint hretry.1
  case h_2 =>
    exact hcall.setPoint (fun included hpoint => absurd hpoint (hretry.2 included))
      fun hpoint => absurd hpoint hretry.1

theorem postStep {label : PostLabel} (hcall : state.call = some call)
    (hpermits : Permits state (.post label)) (hactive : state.loops.submit ≠ .panicked)
    (hstep : state.postStep limits initialHeight call call.point label = some next) :
    Sound next := by
  have hinformed := hstate.informed call hcall
  have hplain (point : PostPoint) (hincluded : ∀ included, point ≠ .publishing included)
      (haccepted : point ≠ .accepted) : Sound (state.setPoint call point) :=
    hstate.setCall (hinformed.setPoint (fun included hpoint => absurd hpoint (hincluded included))
      fun hpoint => absurd hpoint haccepted)
  unfold Client.postStep at hstep
  split at hstep
  case h_2 =>
    obtain rfl := Option.some.inj hstep
    exact hstate.setLoops fun hpanicked => absurd rfl hpanicked
  case h_3 =>
    obtain rfl := Option.some.inj hstep
    apply hstate.setCall
    refine ⟨hinformed.last, ?_, by simp, by simp⟩
    intro subscription hsubscription hbuffer
    obtain rfl := Option.some.inj hsubscription
    exact absurd rfl hbuffer
  case h_8 last _ =>
    obtain rfl := Option.some.inj hstep
    cases last
    · exact hplain .submitting (by simp) (by simp)
    · exact hplain .failed (by simp) (by simp)
  case h_9 =>
    obtain rfl := Option.some.inj hstep
    have hstarting := hplain .starting (by simp) (by simp)
    refine { hstarting with reports := ?_ }
    intro batch hbatch
    rcases List.mem_cons.1 hbatch with heq | hbatch
    · cases heq
    · exact hstate.reports batch hbatch
  case h_10 =>
    obtain ⟨subscription, -, hcancelled⟩ := Option.bind_eq_some_iff.1 hstep
    obtain ⟨-, hnext⟩ := Option.ite_none_right_eq_some.1 hcancelled
    obtain rfl := Option.some.inj hnext
    exact hplain .returning (by simp) (by simp)
  case h_11 =>
    obtain ⟨subscription, hsubscription, hmap⟩ := Option.bind_eq_some_iff.1 hstep
    obtain ⟨⟨endHeight, out⟩, hreceive, rfl⟩ := Option.map_eq_some_iff.1 hmap
    have hbuffer : subscription.out.buffer ≠ [] := by
      rw [Channel.buffer_of_receive hreceive]
      simp
    have haccepted := hinformed.event subscription hsubscription hbuffer
    exact hstate.setCall ⟨hinformed.last, fun _ _ _ => haccepted, by simp, fun _ => haccepted⟩
  case h_13 answered last _ =>
    obtain rfl := Option.some.inj hstep
    exact hstate.poll hinformed answered last
  case h_14 included hpoint =>
    obtain ⟨hmem, hstart⟩ := hinformed.included included hpoint
    have haccepted : Accepted state.accepted call.batch := ⟨included, hmem, hstart⟩
    have hpoint' : Sound (state.setPoint call .accepted) :=
      hstate.setCall (hinformed.setPoint (by simp) fun _ => haccepted)
    exact hpoint'.publish (hpermits call included hcall hpoint) ⟨included, hmem, rfl⟩ hactive hstep
  case h_15 hpoint =>
    obtain rfl := Option.some.inj hstep
    have hreturning := hplain .returning (by simp) (by simp)
    refine { hreturning with reports := ?_ }
    intro batch hbatch
    rcases List.mem_cons.1 hbatch with heq | hbatch
    · obtain ⟨rfl, -⟩ := Prod.mk.inj heq
      exact hinformed.accepted hpoint
    · exact hstate.reports batch hbatch
  case h_16 =>
    obtain ⟨loops, hloops, rfl⟩ := Option.map_eq_some_iff.1 hstep
    have hreturned : Sound { state with loops := loops } := hstate.setLoops fun _ =>
        (hstate.flight hactive).step (by simp) (by simp) hloops
    exact { hreturned with informed := by simp }
  case h_17 => cases hstep
  all_goals
    obtain rfl := Option.some.inj hstep
    exact hplain _ (by simp) (by simp)

theorem step {label : Label} (hpermits : Permits state label)
    (hstep : state.step limits initialHeight label = some next) : Sound next := by
  rw [Client.step, Option.ite_none_left_eq_some] at hstep
  obtain ⟨hactive, hmove⟩ := hstep
  cases label with
  | loops label => exact hstate.loopsStep hactive hmove
  | handOver => exact hstate.handOver hpermits hactive hmove
  | post label =>
    obtain ⟨call, hcall, hstep⟩ := Option.bind_eq_some_iff.1 hmove
    exact hstate.postStep hcall hpermits hactive hstep
  | accept batch =>
    obtain rfl := Option.some.inj hmove
    exact hstate.accept batch
  | event batch => exact hstate.eventStep hpermits hactive hmove

end

theorem start (height : UInt64) (lastBlockHeight : Int64) (latestHeight : UInt64)
    (accepted : List Range) :
    Sound (.start (.start height lastBlockHeight latestHeight) accepted) where
  flight _ := .start height lastBlockHeight latestHeight
  older := by simp [Client.start]
  ordered := List.Pairwise.nil
  proper := by simp [Client.start]
  websocket := by simp [Client.start]
  informed := by simp [Client.start]
  reports := by simp [Client.start]

theorem length_unaccepted_le (hstate : Sound state) : (state.posted.filter fun batch =>
      ¬ Accepted state.accepted batch).length ≤ 1 := by
  have holder := hstate.older
  cases hposted : state.posted with
  | nil => simp
  | cons last older =>
    rw [hposted] at holder
    have hnone : older.filter (fun batch => ¬ Accepted state.accepted batch) = [] := by
      rw [List.filter_eq_nil_iff]
      intro batch hbatch
      simpa using holder batch hbatch
    rw [List.filter_cons, hnone]
    split <;> simp

end Sound

/-! ## Runs -/

/-- In every run in which each acceptance is published once, while no other batch has
been handed over, `PostBatch` reports its batch as accepted only if it is, at most one
batch that was handed over is not accepted, and the ranges of two of them do not meet. -/
theorem reports_only_accepted_batches (limits : Limits) (initialHeight : Int64) (height : UInt64)
    (lastBlockHeight : Int64) (latestHeight : UInt64) (accepted : List Range) (labels : List Label)
    (hpermits : ∀ move ∈ (Client.lts limits initialHeight (.start (.start height lastBlockHeight
      latestHeight) accepted)).path (.start (.start height lastBlockHeight latestHeight) accepted)
      labels, Permits move.source move.label) :
    ∀ move ∈ (Client.lts limits initialHeight
        (.start (.start height lastBlockHeight latestHeight) accepted)).path
          (.start (.start height lastBlockHeight latestHeight) accepted) labels,
      (∀ batch, (batch, true) ∈ move.target.reports → Accepted move.target.accepted batch) ∧
      (move.target.posted.filter fun batch =>
        ¬ Accepted move.target.accepted batch).length ≤ 1 ∧
      move.target.posted.Pairwise fun later earlier =>
        earlier.endHeight < later.startHeight := by
  have hstep (state : Client) (label : Label) (next : Client) (hstate : Sound state)
      (hlabel : Permits state label)
      (hnext : (Client.lts limits initialHeight
        (.start (.start height lastBlockHeight latestHeight) accepted)).step state
          label = some next) : Sound next :=
    hstate.step hlabel hnext
  intro move hmove
  have hsound := (Lts.forall_path_of_guard hstep
    (Sound.start height lastBlockHeight latestHeight accepted) hpermits move hmove).2.2
  exact ⟨hsound.reports, hsound.length_unaccepted_le, hsound.ordered⟩

namespace Reference

open Loops.Reference

/-- The last part of `submitNextBatch`, with an empty block. -/
def handedOver : List Label := [.loops (.submit (.check (.ok (Submit.Reference.block 1 [])))),
    .loops (.submit (.create reader)), .loops (.submit (.toDA true)), .handOver]

/-- `PostBatch` sends its batch, which the settlement layer takes. -/
def sent : List Label := [.convert true, .subscribe, .proceed, .broadcast (some 0) true].map .post

/-- `PostBatch` gets an event and returns. -/
def notified : List Label := [.event, .report, .ret].map .post

/-- `PostBatch` finds its batch by asking for the latest one and returns. -/
def found : List Label := [.tick, .poll true true, .publish, .report, .ret].map .post

/-- An acceptance reaches `SyncTargetLoop`. -/
def handled : List Label :=
  [.handler .event, .handler .publish, .sync .event, .sync .clear].map .loops

def firstPosted : List Label := firstBatch.map .loops ++ handedOver ++ sent

/-- `SubmitLoop` starts with the blocks above the sync target. -/
def nextBatch : List Loops.Label :=
  [.submit .tick, .submit .height, .submit .flag, .submit .claim] ++ producePending ++
    [.submit .target, .submit .last]

def nextPosted : List Label := nextBatch.map .loops ++ handedOver ++ sent

def secondBlock : List Label := [.execute, .setHeight].map .loops

def lateEvent : List Label :=
  firstPosted ++ [.accept ⟨1, 1⟩] ++ found ++ handled ++ secondBlock ++ nextPosted ++
    [.event ⟨1, 1⟩] ++ notified ++ handled ++ nextPosted

def eachOnce : List Label :=
  firstPosted ++ [.accept ⟨1, 1⟩] ++ found ++ handled ++ secondBlock ++ nextPosted ++
    [.accept ⟨2, 2⟩, .event ⟨2, 2⟩] ++ notified

/-- A node with one block, and no batch in the settlement layer. -/
abbrev client : Client := .start (.start 1 1 0) []

abbrev clients : Lts Client Label := Client.lts Submit.Reference.oneBlock 1 client

end Reference

open Reference

/-- The late event of the first batch makes `PostBatch` report the second one as
accepted, which is not, and then the second batch is posted again. -/
theorem late_event_taken_for_next_batch :
    ∃ move ∈ Reference.clients.path Reference.client lateEvent,
      (∃ report ∈ move.target.reports, report.2 = true ∧ ¬ Accepted move.target.accepted report.1) ∧
      (move.target.posted.filter fun batch =>
        ¬ Accepted move.target.accepted batch).length = 2 ∧
      ¬ move.target.posted.Pairwise fun later earlier =>
        earlier.endHeight < later.startHeight := by
  have hrun : (Reference.clients.path Reference.client lateEvent).any
      (fun move => decide ((∃ report ∈ move.target.reports, report.2 = true ∧
          ¬ Accepted move.target.accepted report.1) ∧
        (move.target.posted.filter fun batch =>
          ¬ Accepted move.target.accepted batch).length = 2 ∧
        ¬ move.target.posted.Pairwise fun later earlier =>
          earlier.endHeight < later.startHeight)) = true := by
    decide +kernel
  obtain ⟨move, hmove, hview⟩ := List.any_eq_true.1 hrun
  exact ⟨move, hmove, of_decide_eq_true hview⟩

/-- The condition on a move as a test. -/
def permitted (state : Client) : Label → Bool
  | .event batch => Awaited state batch
  | .post .publish =>
    match state.call with
    | some ⟨_, _, .publishing included⟩ => Awaited state included
    | _ => true
  | .handOver =>
    match state.loops.submit with
    | .toSettlement batch => batch.endHeight + 1 ≠ 0
    | _ => true
  | _ => true

theorem permits_of_permitted {state : Client} {label : Label} (hpermitted : permitted state label) :
    Permits state label := by
  cases label with
  | event batch =>
    have hawaited : Awaited state batch := of_decide_eq_true hpermitted
    exact hawaited
  | handOver =>
    intro batch hpoint
    simp only [permitted, hpoint] at hpermitted
    exact of_decide_eq_true hpermitted
  | post label =>
    cases label with
    | publish =>
      rintro ⟨batch, subscription, point⟩ included hcall rfl
      simp only [permitted, hcall] at hpermitted
      exact of_decide_eq_true hpermitted
    | _ => trivial
  | _ => trivial

theorem reports_only_accepted_batches_reference :
    (∀ move ∈ Reference.clients.path Reference.client eachOnce, Permits move.source move.label) ∧
    ∃ move ∈ Reference.clients.path Reference.client eachOnce,
      move.target.posted = [⟨2, 2⟩, ⟨1, 1⟩] ∧
      move.target.reports = [(⟨2, 2⟩, true), (⟨1, 1⟩, true)] ∧
      (∀ batch, (batch, true) ∈ move.target.reports → Accepted move.target.accepted batch) ∧
      (move.target.posted.filter fun batch =>
        ¬ Accepted move.target.accepted batch).length ≤ 1 ∧
      move.target.posted.Pairwise fun later earlier =>
        earlier.endHeight < later.startHeight := by
  have hpermitted : (Reference.clients.path Reference.client eachOnce).all
      (fun move => permitted move.source move.label) = true := by
    decide +kernel
  have hrun : (Reference.clients.path Reference.client eachOnce).any
      (fun move => decide (move.target.posted = [⟨2, 2⟩, ⟨1, 1⟩] ∧
        move.target.reports = [(⟨2, 2⟩, true), (⟨1, 1⟩, true)])) = true := by
    decide +kernel
  have hpermits : ∀ move ∈ Reference.clients.path Reference.client eachOnce,
      Permits move.source move.label := fun move hmove =>
    permits_of_permitted (List.all_eq_true.1 hpermitted move hmove)
  obtain ⟨move, hmove, hview⟩ := List.any_eq_true.1 hrun
  obtain ⟨hposted, hreports⟩ := of_decide_eq_true hview
  exact ⟨hpermits, move, hmove, hposted, hreports,
    reports_only_accepted_batches Submit.Reference.oneBlock 1 1 1 0 [] _ hpermits move hmove⟩

end Dymint.Settlement
