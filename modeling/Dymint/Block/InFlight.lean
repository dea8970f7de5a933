import Dymint.Block.SubmitRange

/-!
# The batch in flight

Between the moment a batch is handed over and the next one, the flag
`batchInProcess` keeps `SubmitLoop` away.  The flag is cleared by whatever acceptance
reaches `SyncTargetLoop`, so it protects the batch in flight only if nothing but the
acceptance of this batch is on its way there, and that once.
-/

namespace Dymint.Loops

open Procedure Dymint.Types Submit Runs Channels

/-- The acceptance that `stateUpdatesHandler` has taken and not passed on. -/
def HandlerPoint.held : HandlerPoint → List UInt64
  | .publishing endHeight => [endHeight]
  | _ => []

/-- The acceptance that `SyncTargetLoop` has taken and not finished with. -/
def SyncPoint.held : SyncPoint → List UInt64
  | .clearing endHeight => [endHeight]
  | _ => []

variable {label : SubmitLabel}

namespace Aggregator

variable {limits : Limits} {initialHeight : Int64} {state next : Aggregator}

/-- The acceptances that the settlement client has recorded and `SyncTargetLoop` has not
finished with, the oldest first. -/
def recorded (state : Aggregator) : List UInt64 :=
  state.sync.held ++ (state.waiting ++ state.handler.held)

/-- All acceptances on their way to `SyncTargetLoop`. -/
def onTheWay (state : Aggregator) : List UInt64 := state.recorded ++ state.stateUpdates.out.buffer

/-- `SubmitLoop` does not start another batch. -/
def Occupied (state : Aggregator) : Prop := state.batchInProcess = true ∧ state.submit.Open

theorem not_occupied_of_toSettlement {batch : Batch} (hpoint : state.submit = .toSettlement batch) :
    ¬ state.Occupied := by
  rintro ⟨-, hopen⟩
  rw [hpoint] at hopen
  exact hopen

theorem Occupied.submitStep (hstate : state.Occupied)
    (hstep : state.submitStep limits state.submit label = some next) : next.Occupied := by
  obtain ⟨hflag, hopen⟩ := hstate
  cases hpoint : state.submit with
  | select | posting =>
    rw [hpoint] at hstep
    cases label <;> cases hstep
    exact ⟨hflag, trivial⟩
  | height syncTarget =>
    rw [hpoint] at hstep
    cases label <;> cases hstep
    refine ⟨hflag, ?_⟩
    dsimp only
    split <;> trivial
  | flag =>
    rw [hpoint] at hstep
    cases label <;> cases hstep
    refine ⟨hflag, ?_⟩
    simp only [hflag, if_true]
    trivial
  | _ =>
    rw [hpoint] at hopen
    exact hopen.elim

/-- Apart from handing over a batch, `SubmitLoop` changes its flag and its mutex
only. -/
theorem submitStep_eq (hlabel : label ≠ .toSettlement)
    (hstep : state.submitStep limits state.submit label = some next) :
    next = { state with
      batchInProcess := next.batchInProcess
      produceBlockMutex := next.produceBlockMutex
      submit := next.submit } := by
  unfold submitStep at hstep
  split at hstep
  case h_5 =>
    obtain ⟨⟨later, rest⟩, hlater, rfl⟩ := Option.map_eq_some_iff.1 hstep
    rw [produceBlock_eq hlater]
  case h_12 => exact absurd rfl hlabel
  case h_14 => cases hstep
  all_goals
    obtain rfl := Option.some.inj hstep
    rfl

theorem step_toSettlement
    (hstep : state.step limits initialHeight (.submit .toSettlement) = some next) :
    ∃ batch, state.submit = .toSettlement batch ∧ (validateBatch state.latestHeight batch = .ok () ∧
          next = { state with
            submit := .posting batch
            pending := state.pending ++ [batch.endHeight]
            unannounced := state.unannounced ++ [batch.endHeight] } ∨
        next = { state with submit := .panicked }) := by
  have hmove : state.submitStep limits state.submit .toSettlement = some next := move_of_step hstep
  cases hpoint : state.submit with
  | toSettlement batch =>
    rw [hpoint, submitStep] at hmove
    refine ⟨batch, rfl, ?_⟩
    cases hvalid : validateBatch state.latestHeight batch with
    | ok value =>
      rw [hvalid] at hmove
      exact .inl ⟨rfl, (Option.some.inj hmove).symm⟩
    | err | panic =>
      rw [hvalid] at hmove
      exact .inr (Option.some.inj hmove).symm
  | _ =>
    rw [hpoint] at hmove
    cases hmove

/-- The flag is set while `SubmitLoop` prepares a batch. -/
def FlagClaimed (state : Aggregator) : Prop := state.submit.Claimed → state.batchInProcess = true

theorem FlagClaimed.submitStep (hstate : state.FlagClaimed)
    (hstep : state.submitStep limits state.submit label = some next) : next.FlagClaimed := by
  unfold Aggregator.submitStep at hstep
  split at hstep
  case h_2 hpoint =>
    obtain rfl := Option.some.inj hstep
    intro hclaimed
    dsimp only at hclaimed
    split at hclaimed <;> exact hclaimed.elim
  case h_3 hpoint =>
    obtain rfl := Option.some.inj hstep
    intro hclaimed
    dsimp only at hclaimed
    split at hclaimed <;> exact hclaimed.elim
  case h_4 =>
    obtain rfl := Option.some.inj hstep
    exact fun _ => rfl
  case h_5 hpoint =>
    obtain ⟨⟨later, rest⟩, hlater, rfl⟩ := Option.map_eq_some_iff.1 hstep
    intro _
    rw [produceBlock_eq hlater]
    exact hstate (by rw [hpoint]; trivial)
  case h_12 hpoint =>
    split at hstep
    · obtain rfl := Option.some.inj hstep
      exact False.elim
    · obtain rfl := Option.some.inj hstep
      exact fun _ => hstate (by rw [hpoint]; trivial)
  case h_14 => cases hstep
  case h_1 =>
    obtain rfl := Option.some.inj hstep
    exact False.elim
  case h_13 =>
    obtain rfl := Option.some.inj hstep
    exact False.elim
  all_goals
    rename_i hpoint
    obtain rfl := Option.some.inj hstep
    exact fun _ => hstate (by rw [hpoint]; trivial)

end Aggregator

/-- At most one acceptance is on its way or awaited, that of the batch that was handed
over last, and while it is, `SubmitLoop` does not start another batch.  Otherwise the
settlement client has recorded the last batch, and its acceptance is confirmed. -/
structure InFlight (last : Option UInt64) (confirmed : Prop) (state : Aggregator) :
    Prop where
  single : (state.onTheWay ++ state.unannounced).length ≤ 1
  mem : ∀ endHeight ∈ state.onTheWay ++ state.unannounced, last = some endHeight
  announced : state.onTheWay ≠ [] → confirmed
  latest : state.recorded ≠ [] → last = some state.latestHeight
  busy : state.onTheWay ++ state.unannounced ≠ [] → state.Occupied
  settled : ¬ state.Occupied → ∀ endHeight, last = some endHeight →
    state.latestHeight = endHeight ∧ confirmed
  claimed : state.FlagClaimed

variable {endHeight : UInt64}

namespace InFlight

open Aggregator

variable {limits : Limits} {initialHeight : Int64} {state next : Aggregator}
variable {last : Option UInt64} {confirmed : Prop}

section

variable (hstate : InFlight last confirmed state)

include hstate

theorem mono {confirmed' : Prop}
    (himp : confirmed → confirmed') : InFlight last confirmed' state :=
  { hstate with
    announced := fun hnonempty => himp (hstate.announced hnonempty)
    settled := fun hfree endHeight hlast =>
      ⟨(hstate.settled hfree endHeight hlast).1, himp (hstate.settled hfree endHeight hlast).2⟩ }

/-- A step that records nothing, announces nothing and does not free `SubmitLoop`. -/
theorem of_sublist (hqueue : next.onTheWay.Sublist state.onTheWay)
    (hrecorded : next.recorded ≠ [] → state.recorded ≠ [])
    (hunannounced : next.unannounced = state.unannounced)
    (hlatest : next.latestHeight = state.latestHeight) (hoccupied : state.Occupied → next.Occupied)
    (hclaimed : next.FlagClaimed) : InFlight last confirmed next := by
  have hall : (next.onTheWay ++ next.unannounced).Sublist
      (state.onTheWay ++ state.unannounced) := by
    rw [hunannounced]
    exact hqueue.append (List.Sublist.refl _)
  constructor
  · exact hall.length_le.trans hstate.single
  · exact fun endHeight hmem => hstate.mem endHeight (hall.subset hmem)
  · intro hnonempty
    apply hstate.announced
    intro hempty
    rw [hempty] at hqueue
    exact hnonempty (List.sublist_nil.1 hqueue)
  · rw [hlatest]
    exact fun hnonempty => hstate.latest (hrecorded hnonempty)
  · intro hnonempty
    apply hoccupied
    apply hstate.busy
    intro hempty
    rw [hempty] at hall
    exact hnonempty (List.sublist_nil.1 hall)
  · rw [hlatest]
    exact fun hfree => hstate.settled fun hbusy => hfree (hoccupied hbusy)
  · exact hclaimed

/-- The same for a step that leaves all acceptances where they are. -/
theorem of_eq (hrecorded : next.recorded = state.recorded)
    (hupdates : next.stateUpdates = state.stateUpdates)
    (hunannounced : next.unannounced = state.unannounced)
    (hlatest : next.latestHeight = state.latestHeight) (hoccupied : state.Occupied → next.Occupied)
    (hclaimed : next.FlagClaimed) : InFlight last confirmed next := by
  apply hstate.of_sublist _ _ hunannounced hlatest hoccupied hclaimed
  · rw [onTheWay, onTheWay, hrecorded, hupdates]
  · rw [hrecorded]
    exact id

theorem submitStep (hlabel : label ≠ .toSettlement)
    (hstep : state.submitStep limits state.submit label = some next) :
    InFlight last confirmed next := by
  have hoccupied : state.Occupied → next.Occupied := fun hbusy => hbusy.submitStep hstep
  have hclaimed := hstate.claimed.submitStep hstep
  have heq := submitStep_eq hlabel hstep
  rw [heq] at hoccupied hclaimed ⊢
  exact hstate.of_eq rfl rfl rfl rfl hoccupied hclaimed

theorem record {out : Channel UInt64 1} (hpoint : state.handler = .running)
    (hreceive : state.stateUpdates.out.receive = some (endHeight, out)) :
    InFlight last confirmed { state with
      stateUpdates := { state.stateUpdates with out := out }
      latestHeight := endHeight
      handler := .publishing endHeight } := by
  have hbuffer := Channel.buffer_of_receive hreceive
  have hsame : onTheWay { state with
      stateUpdates := { state.stateUpdates with out := out }
      latestHeight := endHeight
      handler := .publishing endHeight } = state.onTheWay := by
    simp only [onTheWay, recorded, waiting, hpoint, hbuffer, HandlerPoint.held]
    simp
  have hmem : endHeight ∈ state.onTheWay := by
    simp [onTheWay, hbuffer]
  have hbusy : state.Occupied := by
    apply hstate.busy
    intro hempty
    rw [(List.append_eq_nil_iff.1 hempty).1] at hmem
    cases hmem
  constructor
  · rw [hsame]
    exact hstate.single
  · rw [hsame]
    exact hstate.mem
  · rw [hsame]
    exact hstate.announced
  · exact fun _ => hstate.mem endHeight (List.mem_append_left _ hmem)
  · exact fun _ => hbusy
  · exact fun hfree => absurd hbusy hfree
  · exact hstate.claimed

theorem handlerStep {label : HandlerLabel}
    (hstep : state.handlerStep state.handler label = some next) : InFlight last confirmed next := by
  unfold Aggregator.handlerStep at hstep
  split at hstep
  case h_1 hpoint =>
    obtain ⟨⟨endHeight, out⟩, hreceive, rfl⟩ := Option.map_eq_some_iff.1 hstep
    exact hstate.record hpoint hreceive
  case h_2 endHeight hpoint =>
    obtain rfl := Option.some.inj hstep
    have hwaiting := Subscription.waiting_publish_sublist state.newBatches endHeight
    refine hstate.of_sublist ?_ ?_ rfl rfl (fun hbusy => hbusy) hstate.claimed
    · simp only [onTheWay, recorded, waiting, hpoint, HandlerPoint.held, List.append_nil]
      exact ((List.Sublist.refl _).append hwaiting).append (List.Sublist.refl _)
    · intro _
      simp [recorded, hpoint, HandlerPoint.held]
  case h_3 hpoint =>
    obtain ⟨-, hnext⟩ := Option.ite_none_right_eq_some.1 hstep
    obtain rfl := Option.some.inj hnext
    refine hstate.of_eq ?_ rfl rfl rfl (fun hbusy => hbusy) hstate.claimed
    simp only [recorded, hpoint]
    rfl
  case h_4 => cases hstep

/-- `SyncTargetLoop` has finished with the batch in flight. -/
theorem clear {pending : List UInt64} (hpoint : state.sync = .clearing endHeight) :
    InFlight last confirmed { state with
      batchInProcess := false
      pending := pending
      sync := .running } := by
  have hrecorded : state.recorded ≠ [] := by
    simp [recorded, hpoint, SyncPoint.held]
  have hnonempty : state.onTheWay ≠ [] := by
    simp [onTheWay, hrecorded]
  have hbusy : state.Occupied := by
    apply hstate.busy
    simp [hnonempty]
  -- It was the only one, so that nothing is left.
  have hsingle := hstate.single
  simp only [onTheWay, recorded, hpoint, SyncPoint.held, List.length_append,
    List.length_singleton] at hsingle
  have hnone : onTheWay { state with
      batchInProcess := false
      pending := pending
      sync := .running } ++ state.unannounced = [] := by
    apply List.eq_nil_of_length_eq_zero
    simp only [onTheWay, recorded, waiting, SyncPoint.held, List.length_append,
      List.length_nil] at hsingle ⊢
    omega
  have hqueue := (List.append_eq_nil_iff.1 hnone).1
  constructor
  · exact (congrArg List.length hnone).trans_le (Nat.zero_le _)
  · intro endHeight hmem
    have hmem : endHeight ∈ onTheWay _ ++ state.unannounced := hmem
    rw [hnone] at hmem
    cases hmem
  · exact fun hsome => absurd hqueue hsome
  · exact fun hsome => absurd (List.append_eq_nil_iff.1 hqueue).1 hsome
  · exact fun hsome => absurd hnone hsome
  · intro _ endHeight hlast
    rw [hstate.latest hrecorded] at hlast
    exact ⟨Option.some.inj hlast, hstate.announced hnonempty⟩
  · exact fun hclaimed => absurd hclaimed hbusy.2.not_claimed

theorem syncStep {label : SyncLabel}
    (hstep : state.syncStep state.sync label = some next) : InFlight last confirmed next := by
  unfold Aggregator.syncStep at hstep
  split at hstep
  case h_1 hpoint =>
    obtain rfl := Option.some.inj hstep
    have hwaiting : (waiting { state with
        newBatches := some (.new UInt64 1)
        sync := .subscribed }).Sublist state.waiting := List.nil_sublist _
    refine hstate.of_sublist ?_ ?_ rfl rfl (fun hbusy => hbusy) hstate.claimed
    · simp only [onTheWay, recorded, hpoint, SyncPoint.held, List.nil_append]
      exact (hwaiting.append (List.Sublist.refl _)).append (List.Sublist.refl _)
    · intro hsome hempty
      simp only [recorded, hpoint, SyncPoint.held, List.nil_append] at hsome hempty
      have hsub := hwaiting.append (List.Sublist.refl state.handler.held)
      rw [hempty] at hsub
      exact hsome (List.sublist_nil.1 hsub)
  case h_2 hpoint =>
    obtain rfl := Option.some.inj hstep
    refine hstate.of_eq ?_ rfl rfl rfl (fun hbusy => hbusy) hstate.claimed
    simp only [recorded, hpoint]
    rfl
  case h_3 hpoint =>
    obtain ⟨subscription, hsome, hmap⟩ := Option.bind_eq_some_iff.1 hstep
    obtain ⟨⟨endHeight, out⟩, hreceive, rfl⟩ := Option.map_eq_some_iff.1 hmap
    refine hstate.of_eq ?_ rfl rfl rfl (fun hbusy => hbusy) hstate.claimed
    simp only [recorded, waiting, hpoint, hsome, SyncPoint.held, Option.elim_some,
      Channel.buffer_of_receive hreceive]
    rfl
  case h_4 endHeight hpoint =>
    obtain rfl := Option.some.inj hstep
    exact hstate.clear hpoint
  case h_5 hpoint =>
    obtain ⟨subscription, -, hcancelled⟩ := Option.bind_eq_some_iff.1 hstep
    obtain ⟨-, hnext⟩ := Option.ite_none_right_eq_some.1 hcancelled
    obtain rfl := Option.some.inj hnext
    refine hstate.of_eq ?_ rfl rfl rfl (fun hbusy => hbusy) hstate.claimed
    simp only [recorded, hpoint]
    rfl
  case h_6 => cases hstep

theorem step {label : Label} (hannounce : ∀ endHeight, label ≠ .announce endHeight)
    (hhandOver : label ≠ .submit .toSettlement)
    (hstep : state.step limits initialHeight label = some next) : InFlight last confirmed next := by
  have hmove := move_of_step hstep
  cases label with
  | submit label =>
    exact hstate.submitStep (fun heq => hhandOver (heq ▸ rfl)) hmove
  | sync label => exact hstate.syncStep hmove
  | handler label => exact hstate.handlerStep hmove
  | produce label =>
    rw [produceStep_eq hmove]
    exact { hstate with }
  | announce endHeight => exact absurd rfl (hannounce endHeight)
  | execute =>
    obtain rfl := Option.some.inj hmove
    exact { hstate with }
  | setHeight =>
    rw [move] at hmove
    obtain ⟨-, hnext⟩ := Option.ite_none_right_eq_some.1 hmove
    obtain rfl := Option.some.inj hnext
    exact { hstate with }

/-- The awaited acceptance is announced. -/
theorem announce (hmem : endHeight ∈ state.unannounced) (hconfirmed : confirmed)
    (hstep : state.step limits initialHeight (.announce endHeight) = some next) :
    InFlight last confirmed next := by
  obtain rfl := Option.some.inj (move_of_step hstep)
  have hmem' : endHeight ∈ state.onTheWay ++ state.unannounced := List.mem_append_right _ hmem
  have hbusy : state.Occupied := hstate.busy (List.ne_nil_of_mem hmem')
  have hlast := hstate.mem endHeight hmem'
  obtain ⟨front, back, hsplit⟩ := List.append_of_mem hmem
  have hsingle := hstate.single
  simp only [onTheWay, hsplit, List.length_append, List.length_cons] at hsingle
  have hrecorded : state.recorded = [] := List.eq_nil_of_length_eq_zero (by omega)
  have hbuffer : state.stateUpdates.out.buffer = [] := List.eq_nil_of_length_eq_zero (by omega)
  have herased : state.unannounced.erase endHeight = [] := by
    have hfront : front = [] := List.eq_nil_of_length_eq_zero (by omega)
    have hback : back = [] := List.eq_nil_of_length_eq_zero (by omega)
    simp [hsplit, hfront, hback]
  have hqueue : (state.stateUpdates.publish endHeight).out.buffer.Sublist [endHeight] := by
    have hsub := state.stateUpdates.buffer_publish_sublist endHeight
    rw [hbuffer] at hsub
    exact hsub
  have hall : onTheWay { state with
      stateUpdates := state.stateUpdates.publish endHeight
      unannounced := state.unannounced.erase endHeight } ++ state.unannounced.erase endHeight =
      (state.stateUpdates.publish endHeight).out.buffer := by
    rw [herased, List.append_nil]
    exact congrArg (· ++ _) hrecorded
  constructor
  · exact (congrArg List.length hall).trans_le hqueue.length_le
  · intro other hother
    have hother : other ∈ onTheWay _ ++ state.unannounced.erase endHeight := hother
    rw [hall] at hother
    rw [List.mem_singleton.1 (hqueue.subset hother)]
    exact hlast
  · exact fun _ => hconfirmed
  · exact fun hsome => absurd hrecorded hsome
  · exact fun _ => hbusy
  · exact fun hfree => absurd hbusy hfree
  · exact hstate.claimed

theorem handOver {batch : Batch} (hpoint : state.submit = .toSettlement batch) (confirmed' : Prop) :
    InFlight (some batch.endHeight) confirmed' { state with
      submit := .posting batch
      pending := state.pending ++ [batch.endHeight]
      unannounced := state.unannounced ++ [batch.endHeight] } := by
  have hnone : state.onTheWay ++ state.unannounced = [] := by
    by_contra hsome
    exact not_occupied_of_toSettlement hpoint (hstate.busy hsome)
  obtain ⟨hqueue, hunannounced⟩ := List.append_eq_nil_iff.1 hnone
  have hflag : state.batchInProcess = true := hstate.claimed (by rw [hpoint]; trivial)
  have hall : onTheWay { state with
      submit := .posting batch
      pending := state.pending ++ [batch.endHeight]
      unannounced := state.unannounced ++ [batch.endHeight] } ++
        (state.unannounced ++ [batch.endHeight]) = [batch.endHeight] := by
    rw [hunannounced]
    exact congrArg (· ++ [batch.endHeight]) hqueue
  constructor
  · exact (congrArg List.length hall).le
  · intro endHeight hmem
    have hmem : endHeight ∈ onTheWay _ ++ (state.unannounced ++ [batch.endHeight]) := hmem
    rw [hall] at hmem
    rw [List.mem_singleton.1 hmem]
  · exact fun hsome => absurd hqueue hsome
  · exact fun hsome => absurd (List.append_eq_nil_iff.1 hqueue).1 hsome
  · exact fun _ => ⟨hflag, trivial⟩
  · exact fun hfree => absurd ⟨hflag, trivial⟩ hfree
  · exact False.elim

end

theorem start (height : UInt64) (lastBlockHeight : Int64) (latestHeight : UInt64) :
    InFlight none confirmed (.start height lastBlockHeight latestHeight) where
  single := Nat.zero_le _
  mem _ hmem := by cases hmem
  announced hsome := absurd rfl hsome
  latest hsome := absurd rfl hsome
  busy hsome := absurd rfl hsome
  settled _ _ hlast := by cases hlast
  claimed := False.elim

end InFlight

end Dymint.Loops
