import Dymint.Block.Aggregator

/-!
# The range of heights that is submitted

The range of the next batch comes from the sync target and from the height of the
last state, and the settlement client compares it with the height it has recorded
itself.  Between the acceptance of a batch and the next batch, the end height of
the accepted one travels through the settlement client to `SyncTargetLoop`.  If
every batch is announced once, the node is not behind the sync target and the first
block of each range fits into a batch, then the settlement client accepts every
batch it gets.
-/

namespace Dymint.Loops

open Procedure Dymint.Types Submit Runs Channels

/-! ## The created batch -/

variable {batch : Batch} {endHeight : UInt64}

variable {startHeight : UInt64}

section

variable {limits : Limits} {reader : Reader}

def FirstFits (limits : Limits) (reader : Reader) (startHeight endHeight : UInt64) : Prop :=
  ∀ block commit, reader.block startHeight = .ok block → reader.commit startHeight = .ok commit →
    limits.size (Batch.add ⟨startHeight, endHeight, [], []⟩ block commit) ≤ limits.maxSize

/-- The loop goes upwards. -/
theorem le_of_populate {fuel : ℕ} {height stop : UInt64} {final : Batch}
    (hbound : batch.endHeight.toNat < 2 ^ 63)
    (hpopulate : populate limits reader fuel height batch = .ok (stop, final)) :
    height.toNat ≤ stop.toNat ∧ final.startHeight = batch.startHeight := by
  induction fuel generalizing height batch with
  | zero => cases hpopulate
  | succ fuel ih =>
    rw [populate] at hpopulate
    split at hpopulate
    case isFalse =>
      obtain ⟨rfl, rfl⟩ := Prod.mk.inj (Result.ok.inj hpopulate)
      exact ⟨le_rfl, rfl⟩
    case isTrue hwithin =>
      simp only [Result.bind_eq_ok] at hpopulate
      obtain ⟨block, -, commit, -, hrest⟩ := hpopulate
      split at hrest
      case isTrue =>
        obtain ⟨rfl, rfl⟩ := Prod.mk.inj (Result.ok.inj hrest)
        exact ⟨le_rfl, rfl⟩
      case isFalse =>
        have hlonger : (Batch.add batch block commit).endHeight.toNat < 2 ^ 63 := hbound
        obtain ⟨hle, hstart⟩ := ih hlonger hrest
        have hheight := UInt64.le_iff_toNat_le.1 hwithin
        rw [UInt64.toNat_add, UInt64.toNat_one, Nat.mod_eq_of_lt (by omega)] at hle
        exact ⟨by omega, hstart⟩

theorem startHeight_le_endHeight (hle : startHeight ≤ endHeight)
    (hbound : endHeight.toNat < 2 ^ 63) (hfits : FirstFits limits reader startHeight endHeight)
    (hcreate : createNextDABatch limits reader startHeight endHeight = .ok batch) :
    batch.startHeight = startHeight ∧ startHeight ≤ batch.endHeight := by
  rw [createNextDABatch] at hcreate
  split at hcreate
  case isTrue => cases hcreate
  case isFalse =>
    obtain ⟨⟨stop, final⟩, hpopulate, hbatch⟩ := Result.bind_eq_ok.1 hcreate
    obtain rfl := Result.ok.inj hbatch
    rw [populate, if_pos hle] at hpopulate
    simp only [Result.bind_eq_ok] at hpopulate
    obtain ⟨block, hblock, commit, hcommit, hrest⟩ := hpopulate
    rw [if_neg (not_lt.2 (hfits block commit hblock hcommit))] at hrest
    obtain ⟨hstop, hstart⟩ := le_of_populate hbound hrest
    refine ⟨hstart, ?_⟩
    have hle' := UInt64.le_iff_toNat_le.1 hle
    rw [UInt64.toNat_add, UInt64.toNat_one, Nat.mod_eq_of_lt (by omega)] at hstop
    have hone : (1 : UInt64) ≤ stop := by
      rw [UInt64.le_iff_toNat_le, UInt64.toNat_one]
      omega
    rw [UInt64.le_iff_toNat_le, UInt64.toNat_sub_of_le _ _ hone, UInt64.toNat_one]
    omega

/-- Go's conversion of a height of the state, which is not negative. -/
theorem toNat_toUInt64_of_le {height : Int64} {bound : ℕ} (hle : (bound : ℤ) ≤ height.toInt) :
    bound ≤ height.toUInt64.toNat ∧ height.toUInt64.toNat < 2 ^ 63 := by
  have hcond := BitVec.toInt_eq_toNat_cond height.toUInt64.toBitVec
  have hint : height.toInt = height.toUInt64.toBitVec.toInt := rfl
  have hlt := height.toUInt64.toBitVec.isLt
  rw [hint, hcond] at hle
  have hnat : height.toUInt64.toBitVec.toNat = height.toUInt64.toNat := rfl
  rw [hnat] at hle hlt
  split at hle <;> omega

end

/-! ## The way of an acceptance -/

/-- What has become of the batch that was handed over last: nothing is left to do
for it, it has not been announced, its end height waits for the settlement client,
has been recorded by it, waits for `SyncTargetLoop`, or has become the sync
target. -/
inductive Acceptance where
  | processed
  | awaited (endHeight : UInt64)
  | announced (endHeight : UInt64)
  | recorded (endHeight : UInt64)
  | published (endHeight : UInt64)
  | stored (endHeight : UInt64)

namespace Acceptance

def unannounced : Acceptance → List UInt64
  | .awaited endHeight => [endHeight]
  | _ => []

def updates : Acceptance → List UInt64
  | .announced endHeight => [endHeight]
  | _ => []

def handler : Acceptance → HandlerPoint
  | .recorded endHeight => .publishing endHeight
  | _ => .running

def waiting : Acceptance → List UInt64
  | .published endHeight => [endHeight]
  | _ => []

def latest : Acceptance → Option UInt64
  | .recorded endHeight | .published endHeight | .stored endHeight => some endHeight
  | _ => none

def Stored : Acceptance → Prop
  | .stored _ => True
  | _ => False

end Acceptance

def SyncPoint.Clearing : SyncPoint → Prop
  | .clearing _ => True
  | _ => False

/-- `SubmitLoop` may be here while an earlier batch is in process. -/
def SubmitPoint.Open : SubmitPoint → Prop
  | .select | .height _ | .flag | .posting _ => True
  | _ => False

theorem accepts_of_nil {subscription : Subscription UInt64 1}
    (hcancelled : subscription.cancelled = false) (hbuffer : subscription.out.buffer = []) :
    subscription.Accepts := by
  refine ⟨hcancelled, ?_⟩
  rw [Channel.Full, hbuffer]
  simp

def SubmitPoint.Continues (syncTarget latestHeight : UInt64) : SubmitPoint → Prop
  | .last startHeight => startHeight = syncTarget + 1
  | .check startHeight endHeight | .request startHeight endHeight
  | .create startHeight endHeight =>
    startHeight = syncTarget + 1 ∧ startHeight ≤ endHeight ∧ endHeight.toNat < 2 ^ 63
  | .toDA batch | .toSettlement batch => validateBatch latestHeight batch = .ok ()
  | _ => True

variable {point : SubmitPoint}

theorem SubmitPoint.Open.continues (hopen : point.Open) {syncTarget latestHeight : UInt64} :
    point.Continues syncTarget latestHeight := by
  cases point <;> trivial

theorem SubmitPoint.Open.not_claimed (hopen : point.Open) : ¬ point.Claimed := by
  intro hclaimed
  cases point <;> trivial

structure Regular (stage : Acceptance) (state : Aggregator) : Prop where
  unannounced : state.unannounced = stage.unannounced
  updates : state.stateUpdates.out.buffer = stage.updates
  uncancelled : state.stateUpdates.cancelled = false
  handler : state.handler = stage.handler
  subscribed : state.sync ≠ .starting → ∃ subscription,
    state.newBatches = some subscription ∧ subscription.cancelled = false ∧
      subscription.out.buffer = stage.waiting
  clearing : state.sync.Clearing ↔ stage.Stored
  busy : stage ≠ .processed → state.batchInProcess = true ∧ state.submit.Open
  claimed : state.submit.Claimed → state.batchInProcess = true
  ready : stage ≠ .processed ∨ state.submit ≠ .select →
    state.produce ≠ .starting ∧ state.sync ≠ .starting
  latest : ∀ endHeight, stage.latest = some endHeight → state.latestHeight = endHeight
  synced : stage = .processed ∨ stage.Stored → state.produce ≠ .starting →
    state.syncTarget = state.latestHeight
  continues : state.submit.Continues state.syncTarget state.latestHeight

/-- Every batch is announced once and the goroutines learn the height that the
settlement client has recorded; `SubmitLoop` starts after them, finds the node above
the sync target, and the first block of its range fits into a batch. -/
def InStep (limits : Limits) (initialHeight : Int64) (state : Aggregator) : Label → Prop
  | .produce (.store answer) =>
    Aggregator.waitTarget initialHeight answer = state.latestHeight
  | .sync (.store answer) =>
    ∀ endHeight, answer = some endHeight → endHeight = state.latestHeight
  | .submit .tick => state.produce ≠ .starting ∧ state.sync ≠ .starting
  | .submit .last =>
    ∀ startHeight, state.submit = .last startHeight →
      (startHeight.toNat : ℤ) ≤ state.lastBlockHeight.toInt
  | .submit (.create reader) =>
    ∀ startHeight endHeight, state.submit = .create startHeight endHeight →
      FirstFits limits reader startHeight endHeight
  | .announce endHeight => endHeight ∈ state.unannounced
  | _ => True

variable {label : Label}

namespace Regular

variable {limits : Limits} {initialHeight : Int64} {state next : Aggregator}
variable {stage : Acceptance}

section

variable (hstate : Regular stage state)

include hstate

/-- While a batch is prepared, no earlier one is in process. -/
theorem processed (hopen : ¬ state.submit.Open) : stage = .processed := by
  by_contra hstage
  exact hopen (hstate.busy hstage).2

/-- `SubmitLoop` goes on to another point and changes nothing else. -/
theorem setSubmit (hready : state.produce ≠ .starting ∧ state.sync ≠ .starting)
    (hopen : state.submit.Open → point.Open ∨ state.batchInProcess = false)
    (hclaimed : point.Claimed → state.submit.Claimed)
    (hcontinues : point.Continues state.syncTarget state.latestHeight) :
    Regular stage { state with submit := point } := by
  refine { hstate with
    busy := ?_
    claimed := fun hpoint => hstate.claimed (hclaimed hpoint)
    ready := fun _ => hready
    continues := hcontinues }
  intro hstage
  obtain ⟨hflag, hsubmit⟩ := hstate.busy hstage
  refine ⟨hflag, (hopen hsubmit).resolve_right ?_⟩
  rw [hflag]
  simp

/-- The same when no earlier batch is in process. -/
theorem advance (hclaimed : state.submit.Claimed)
    (hcontinues : point.Continues state.syncTarget state.latestHeight) :
    Regular stage { state with submit := point } := by
  have hopen (hsubmit : state.submit.Open) : False := hsubmit.not_claimed hclaimed
  have hready := hstate.ready (.inr fun hselect => hopen (hselect ▸ trivial))
  exact hstate.setSubmit hready (fun hsubmit => absurd hsubmit hopen) (fun _ => hclaimed) hcontinues

theorem setMutex (locked : Bool) :
    Regular stage { state with produceBlockMutex := locked } := { hstate with }

theorem validateBatch_created {reader : Reader}
    (hpoint : state.submit = .create startHeight endHeight)
    (hfits : FirstFits limits reader startHeight endHeight)
    (hcreate : createNextDABatch limits reader startHeight endHeight = .ok batch) :
    validateBatch state.latestHeight batch = .ok () := by
  have hcontinues := hstate.continues
  rw [hpoint] at hcontinues
  obtain ⟨hstart, hle, hbound⟩ := hcontinues
  have hstage := hstate.processed (by rw [hpoint]; exact id)
  have hready := hstate.ready (.inr (by simp [hpoint]))
  have hsynced := hstate.synced (.inl hstage) hready.1
  obtain ⟨hbatchStart, hbatchEnd⟩ := startHeight_le_endHeight hle hbound hfits hcreate
  apply validateBatch_eq_ok.2
  rw [hbatchStart]
  exact ⟨by rw [hstart, hsynced], hbatchEnd⟩

theorem readFlag (hpoint : state.submit = .flag) : Regular stage { state with
      submit := if state.batchInProcess then .select else .claim } := by
  have hready := hstate.ready (.inr (by simp [hpoint]))
  refine hstate.setSubmit hready (fun _ => ?_) ?_ ?_
  · cases hflag : state.batchInProcess with
    | true => exact .inl trivial
    | false => exact .inr rfl
  · split <;> exact False.elim
  · split <;> trivial

theorem claim (hpoint : state.submit = .claim) :
    Regular stage { state with batchInProcess := true, submit := .producing .locking } := by
  have hready := hstate.ready (.inr (by simp [hpoint]))
  have hstage := hstate.processed (by rw [hpoint]; exact id)
  exact { hstate with
    busy := fun hne => absurd hstage hne
    claimed := fun _ => rfl
    ready := fun _ => hready
    continues := trivial }

theorem check
    (hpoint : state.submit = .check startHeight endHeight) (lastBlock : Result Error Block) :
    Regular stage { state with
      submit := Aggregator.validateLastBlock startHeight endHeight lastBlock } := by
  have hcontinues := hstate.continues
  rw [hpoint] at hcontinues
  refine hstate.advance (by rw [hpoint]; trivial) ?_
  cases lastBlock with
  | ok lastBlock =>
    dsimp only [Aggregator.validateLastBlock]
    split <;> exact hcontinues
  | err | panic => trivial

theorem create {reader : Reader} (hpoint : state.submit = .create startHeight endHeight)
    (hfits : FirstFits limits reader startHeight endHeight) :
    Regular stage { state with
      submit :=
        match createNextDABatch limits reader startHeight endHeight with
        | .ok batch => .toDA batch
        | .err _ => .select
        | .panic => .panicked } := by
  refine hstate.advance (by rw [hpoint]; trivial) ?_
  cases hcreate : createNextDABatch limits reader startHeight endHeight with
  | ok batch => exact hstate.validateBatch_created hpoint hfits hcreate
  | err | panic => trivial

/-- A batch that is handed over waits to be accepted. -/
theorem post (hpoint : state.submit = .toSettlement batch) :
    Regular (.awaited batch.endHeight) { state with
      submit := .posting batch
      pending := state.pending ++ [batch.endHeight]
      unannounced := state.unannounced ++ [batch.endHeight] } := by
  have hready := hstate.ready (.inr (by simp [hpoint]))
  obtain rfl := hstate.processed (by rw [hpoint]; exact id)
  exact { hstate with
    unannounced := by rw [hstate.unannounced]; rfl
    clearing := hstate.clearing
    busy := fun _ => ⟨hstate.claimed (by rw [hpoint]; trivial), trivial⟩
    claimed := False.elim
    ready := fun _ => hready
    latest := by simp [Acceptance.latest]
    synced := by simp [Acceptance.Stored]
    continues := trivial }

theorem submitStep {label : SubmitLabel}
    (hlabel : InStep limits initialHeight state (.submit label))
    (hstep : state.submitStep limits state.submit label = some next) :
    ∃ stage, Regular stage next := by
  unfold Aggregator.submitStep at hstep
  split at hstep
  case h_1 hpoint =>
    obtain rfl := Option.some.inj hstep
    exact ⟨stage, hstate.setSubmit hlabel (fun _ => .inl trivial) False.elim trivial⟩
  case h_2 hpoint =>
    obtain rfl := Option.some.inj hstep
    have hready := hstate.ready (.inr (by simp [hpoint]))
    refine ⟨stage, hstate.setSubmit hready (fun _ => .inl ?_) ?_ ?_⟩
    all_goals split
    all_goals first | trivial | exact False.elim
  case h_3 hpoint =>
    obtain rfl := Option.some.inj hstep
    exact ⟨stage, hstate.readFlag hpoint⟩
  case h_4 hpoint =>
    obtain rfl := Option.some.inj hstep
    exact ⟨stage, hstate.claim hpoint⟩
  case h_5 hpoint =>
    obtain ⟨⟨later, rest⟩, hlater, rfl⟩ := Option.map_eq_some_iff.1 hstep
    rw [Aggregator.produceBlock_eq hlater]
    refine ⟨stage, (hstate.setMutex later.produceBlockMutex).advance ?_ ?_⟩
    · change state.submit.Claimed
      rw [hpoint]
      trivial
    · cases rest <;> trivial
  case h_6 hpoint =>
    obtain rfl := Option.some.inj hstep
    exact ⟨stage, hstate.advance (by rw [hpoint]; trivial) rfl⟩
  case h_7 startHeight hpoint =>
    obtain rfl := Option.some.inj hstep
    have hcontinues := hstate.continues
    rw [hpoint] at hcontinues
    obtain ⟨hle, hbound⟩ := toNat_toUInt64_of_le (hlabel startHeight hpoint)
    exact ⟨stage, hstate.advance (by rw [hpoint]; trivial)
      ⟨hcontinues, UInt64.le_iff_toNat_le.2 hle, hbound⟩⟩
  case h_8 startHeight endHeight lastBlock hpoint =>
    obtain rfl := Option.some.inj hstep
    exact ⟨stage, hstate.check hpoint lastBlock⟩
  case h_9 startHeight endHeight hpoint =>
    obtain rfl := Option.some.inj hstep
    have hcontinues := hstate.continues
    rw [hpoint] at hcontinues
    exact ⟨stage, hstate.advance (by rw [hpoint]; trivial) hcontinues⟩
  case h_10 startHeight endHeight reader hpoint =>
    obtain rfl := Option.some.inj hstep
    exact ⟨stage, hstate.create hpoint (hlabel startHeight endHeight hpoint)⟩
  case h_11 batch accepted hpoint =>
    obtain rfl := Option.some.inj hstep
    have hcontinues := hstate.continues
    rw [hpoint] at hcontinues
    refine ⟨stage, hstate.advance (by rw [hpoint]; trivial) ?_⟩
    cases accepted
    · trivial
    · exact hcontinues
  case h_12 batch hpoint =>
    have hcontinues := hstate.continues
    rw [hpoint] at hcontinues
    have hvalid : validateBatch state.latestHeight batch = .ok () := hcontinues
    rw [hvalid] at hstep
    obtain rfl := Option.some.inj hstep
    exact ⟨.awaited batch.endHeight, hstate.post hpoint⟩
  case h_13 hpoint =>
    obtain rfl := Option.some.inj hstep
    have hready := hstate.ready (.inr (by simp [hpoint]))
    exact ⟨stage, hstate.setSubmit hready (fun _ => .inl trivial) False.elim trivial⟩
  case h_14 => cases hstep

theorem handlerStep {label : HandlerLabel}
    (hstep : state.handlerStep state.handler label = some next) : ∃ stage, Regular stage next := by
  unfold Aggregator.handlerStep at hstep
  split at hstep
  case h_1 =>
    obtain ⟨⟨endHeight, out⟩, hreceive, rfl⟩ := Option.map_eq_some_iff.1 hstep
    have hupdates := hstate.updates
    rw [Channel.buffer_of_receive hreceive] at hupdates
    cases stage with
    | announced announcedHeight =>
      obtain ⟨rfl, hrest⟩ := List.cons.inj hupdates
      exact ⟨.recorded endHeight, { hstate with
        updates := hrest
        handler := rfl
        clearing := hstate.clearing
        busy := fun _ => hstate.busy (by simp)
        ready := fun _ => hstate.ready (.inl (by simp))
        latest := fun _ hlatest => Option.some.inj hlatest
        synced := by simp [Acceptance.Stored]
        continues := (hstate.busy (by simp)).2.continues }⟩
    | _ => cases hupdates
  case h_2 endHeight hpoint =>
    obtain rfl := Option.some.inj hstep
    have hhandler := hstate.handler
    rw [hpoint] at hhandler
    cases stage with
    | recorded recordedHeight =>
      obtain rfl := HandlerPoint.publishing.inj hhandler
      have hready := hstate.ready (.inl (by simp))
      obtain ⟨subscription, hsome, hcancelled, hbuffer⟩ := hstate.subscribed hready.2
      obtain ⟨out, hout, hpublish⟩ :=
        Subscription.publish_of_accepts (accepts_of_nil hcancelled hbuffer) endHeight
      refine ⟨.published endHeight, { hstate with
        handler := rfl
        subscribed := ?_
        clearing := hstate.clearing
        busy := fun _ => hstate.busy (by simp)
        ready := fun _ => hready
        latest := hstate.latest
        synced := by simp [Acceptance.Stored] }⟩
      intro _
      refine ⟨{ subscription with out := out }, by simp [hsome, hpublish], hcancelled, ?_⟩
      rw [hout, hbuffer]
      rfl
    | _ => cases hhandler
  case h_3 =>
    obtain ⟨hcancelled, -⟩ := Option.ite_none_right_eq_some.1 hstep
    rw [hstate.uncancelled] at hcancelled
    cases hcancelled
  case h_4 => cases hstep

theorem syncStep {label : SyncLabel} (hlabel : InStep limits initialHeight state (.sync label))
    (hstep : state.syncStep state.sync label = some next) : ∃ stage, Regular stage next := by
  unfold Aggregator.syncStep at hstep
  split at hstep
  case h_1 hpoint =>
    obtain rfl := Option.some.inj hstep
    have hnotReady : ¬ (stage ≠ .processed ∨ state.submit ≠ .select) :=
      fun hready => (hstate.ready hready).2 hpoint
    obtain rfl : stage = .processed := by
      by_contra hstage
      exact hnotReady (.inl hstage)
    refine ⟨.processed, { hstate with
      subscribed := fun _ => ⟨.new UInt64 1, rfl, rfl, rfl⟩
      clearing := iff_of_false id id
      ready := fun hready => absurd hready hnotReady }⟩
  case h_2 answer hpoint =>
    obtain rfl := Option.some.inj hstep
    have hnotStored : ¬ stage.Stored := by
      rw [← hstate.clearing, hpoint]
      exact id
    have hready := hstate.ready
    refine ⟨stage, { hstate with
      subscribed := fun _ => hstate.subscribed (by simp [hpoint])
      clearing := iff_of_false id hnotStored
      ready := fun hbusy => ⟨(hready hbusy).1, by simp⟩
      synced := ?_
      continues := ?_ }⟩
    · intro hstage hproduce
      cases answer with
      | none => exact hstate.synced hstage hproduce
      | some endHeight => exact hlabel endHeight rfl
    · by_cases hopen : state.submit.Open
      · exact hopen.continues
      · have hstage := hstate.processed hopen
        have hne : state.submit ≠ .select := fun hselect => hopen (hselect ▸ trivial)
        have hsynced := hstate.synced (.inl hstage) (hready (.inr hne)).1
        have htarget : answer.getD state.syncTarget = state.syncTarget := by
          cases answer with
          | none => rfl
          | some endHeight => exact (hlabel endHeight rfl).trans hsynced.symm
        dsimp only
        rw [htarget]
        exact hstate.continues
  case h_3 hpoint =>
    obtain ⟨subscription, hsome, hmap⟩ := Option.bind_eq_some_iff.1 hstep
    obtain ⟨⟨endHeight, out⟩, hreceive, rfl⟩ := Option.map_eq_some_iff.1 hmap
    obtain ⟨_, hsame, hcancelled, hbuffer⟩ := hstate.subscribed (by simp [hpoint])
    obtain rfl := Option.some.inj (hsome.symm.trans hsame)
    rw [Channel.buffer_of_receive hreceive] at hbuffer
    cases stage with
    | published publishedHeight =>
      obtain ⟨rfl, hrest⟩ := List.cons.inj hbuffer
      have hbusy := hstate.busy (by simp)
      have hready := hstate.ready (.inl (by simp))
      have hlatest := hstate.latest endHeight rfl
      exact ⟨.stored endHeight, { hstate with
        subscribed := fun _ => ⟨_, rfl, hcancelled, hrest⟩
        clearing := iff_of_true trivial trivial
        busy := fun _ => hbusy
        ready := fun _ => ⟨hready.1, by simp⟩
        latest := hstate.latest
        synced := fun _ _ => hlatest.symm
        continues := hbusy.2.continues }⟩
    | _ => cases hbuffer
  case h_4 endHeight hpoint =>
    obtain rfl := Option.some.inj hstep
    have hstored : stage.Stored := by
      rw [← hstate.clearing, hpoint]
      trivial
    cases stage with
    | stored storedHeight =>
      have hbusy := hstate.busy (by simp)
      have hready := hstate.ready (.inl (by simp))
      exact ⟨.processed, { hstate with
        subscribed := fun _ => hstate.subscribed hready.2
        clearing := iff_of_false id id
        busy := fun hne => absurd rfl hne
        claimed := fun hclaimed => absurd hclaimed hbusy.2.not_claimed
        ready := fun _ => ⟨hready.1, by simp⟩
        latest := by simp [Acceptance.latest]
        synced := fun _ => hstate.synced (.inr trivial)
        continues := hbusy.2.continues }⟩
    | _ => exact hstored.elim
  case h_5 hpoint =>
    obtain ⟨subscription, hsome, hcancelled⟩ := Option.bind_eq_some_iff.1 hstep
    obtain ⟨hcancelled, -⟩ := Option.ite_none_right_eq_some.1 hcancelled
    obtain ⟨_, hsame, huncancelled, -⟩ := hstate.subscribed (by simp [hpoint])
    obtain rfl := Option.some.inj (hsome.symm.trans hsame)
    rw [huncancelled] at hcancelled
    cases hcancelled
  case h_6 => cases hstep

theorem produceStep {label : ProduceLabel}
    (hlabel : InStep limits initialHeight state (.produce label))
    (hstep : state.produceStep initialHeight state.produce label = some next) :
    Regular stage next := by
  by_cases hpoint : state.produce = .starting
  · -- only now a sync target is stored, and nothing has been submitted before
    have hnotReady : ¬ (stage ≠ .processed ∨ state.submit ≠ .select) :=
      fun hready => (hstate.ready hready).1 hpoint
    have hselect : state.submit = .select := by
      by_contra hne
      exact hnotReady (.inr hne)
    rw [hpoint] at hstep
    cases label with
    | store answer =>
      obtain rfl := Option.some.inj hstep
      exact { hstate with
        ready := fun hready => absurd hready hnotReady
        synced := fun _ _ => hlabel
        continues := by
          dsimp only
          rw [hselect]
          trivial }
    | _ => cases hstep
  · obtain ⟨htarget, hproduce⟩ := Aggregator.produceStep_of_ne_starting hpoint hstep
    rw [Aggregator.produceStep_eq hstep, htarget]
    exact { hstate with
      ready := fun hready => ⟨hproduce, (hstate.ready hready).2⟩
      synced := fun hstage _ => hstate.synced hstage hpoint }

theorem announce (hmem : endHeight ∈ state.unannounced) :
    Regular (.announced endHeight) { state with
      stateUpdates := state.stateUpdates.publish endHeight
      unannounced := state.unannounced.erase endHeight } := by
  rw [hstate.unannounced] at hmem
  cases stage with
  | awaited awaitedHeight =>
    obtain rfl := List.mem_singleton.1 hmem
    obtain ⟨out, hout, hpublish⟩ := Subscription.publish_of_accepts
      (accepts_of_nil hstate.uncancelled hstate.updates) endHeight
    have hupdates := hstate.updates
    exact { hstate with
      unannounced := by
        dsimp only
        rw [hstate.unannounced]
        simp [Acceptance.unannounced]
      updates := by
        dsimp only
        rw [hpublish, hout, hupdates]
        rfl
      uncancelled := by
        dsimp only
        rw [hpublish]
        exact hstate.uncancelled
      clearing := hstate.clearing
      busy := fun _ => hstate.busy (by simp)
      ready := fun _ => hstate.ready (.inl (by simp))
      latest := by simp [Acceptance.latest]
      synced := by simp [Acceptance.Stored] }
  | _ => cases hmem

theorem step (hlabel : InStep limits initialHeight state label)
    (hstep : state.step limits initialHeight label = some next) : ∃ stage, Regular stage next := by
  have hmove := Aggregator.move_of_step hstep
  cases label with
  | produce label => exact ⟨stage, hstate.produceStep hlabel hmove⟩
  | submit label => exact hstate.submitStep hlabel hmove
  | sync label => exact hstate.syncStep hlabel hmove
  | handler label => exact hstate.handlerStep hmove
  | announce endHeight =>
    obtain rfl := Option.some.inj hmove
    exact ⟨_, hstate.announce hlabel⟩
  | execute =>
    obtain rfl := Option.some.inj hmove
    exact ⟨stage, { hstate with }⟩
  | setHeight =>
    rw [Aggregator.move] at hmove
    obtain ⟨-, hnext⟩ := Option.ite_none_right_eq_some.1 hmove
    obtain rfl := Option.some.inj hnext
    exact ⟨stage, { hstate with }⟩

end

theorem start (height : UInt64) (lastBlockHeight : Int64) (latestHeight : UInt64) :
    Regular .processed (.start height lastBlockHeight latestHeight) where
  unannounced := rfl
  updates := rfl
  uncancelled := rfl
  handler := rfl
  subscribed hsync := absurd rfl hsync
  clearing := Iff.rfl
  busy hstage := absurd rfl hstage
  claimed := False.elim
  ready hready := absurd hready (by simp [Aggregator.start])
  latest _ hlatest := by cases hlatest
  synced _ hproduce := absurd rfl hproduce
  continues := trivial

end Regular

/-! ## Runs -/

structure SubmitsInRange (move : Move Aggregator Label) : Prop where
  capacity : ∀ reader startHeight endHeight, move.label = .submit (.create reader) →
    move.source.submit = .create startHeight endHeight →
      startHeight ≤ endHeight ∧ (endHeight - startHeight + 1).toNat =
        endHeight.toNat - startHeight.toNat + 1
  valid : ∀ batch, move.label = .submit .toSettlement →
    move.source.submit = .toSettlement batch → validateBatch move.source.latestHeight batch = .ok ()

theorem Regular.submitsInRange {stage : Acceptance} {move : Move Aggregator Label}
    (hsource : Regular stage move.source) : SubmitsInRange move where
  capacity reader startHeight endHeight _ hpoint := by
    have hcontinues := hsource.continues
    rw [hpoint] at hcontinues
    obtain ⟨-, hle, hbound⟩ := hcontinues
    refine ⟨hle, ?_⟩
    rw [UInt64.toNat_add, UInt64.toNat_sub_of_le _ _ hle, UInt64.toNat_one,
      Nat.mod_eq_of_lt (by omega)]
  valid batch _ hpoint := by
    have hcontinues := hsource.continues
    rw [hpoint] at hcontinues
    exact hcontinues

/-- In every run whose moves are in step, the range of a batch does not wrap around
and the settlement client takes every batch that it is handed. -/
theorem submitted_batches_in_range (limits : Limits) (initialHeight : Int64) (height : UInt64)
    (lastBlockHeight : Int64) (latestHeight : UInt64) (labels : List Label)
    (hlabels : ∀ move ∈ (Aggregator.lts limits initialHeight (.start height lastBlockHeight
      latestHeight)).path (.start height lastBlockHeight latestHeight) labels, InStep limits
      initialHeight move.source move.label) :
    ∀ move ∈ (Aggregator.lts limits initialHeight (.start height lastBlockHeight latestHeight)).path
          (.start height lastBlockHeight latestHeight) labels,
      SubmitsInRange move := by
  have hstep (state : Aggregator) (label : Label) (next : Aggregator)
      (hstate : ∃ stage, Regular stage state)
      (hlabel : InStep limits initialHeight state label)
      (hnext : (Aggregator.lts limits initialHeight
        (.start height lastBlockHeight latestHeight)).step state label = some next) :
      ∃ stage, Regular stage next := by
    obtain ⟨stage, hstate⟩ := hstate
    exact hstate.step hlabel hnext
  have hstart : ∃ stage, Regular stage (.start height lastBlockHeight latestHeight) :=
    ⟨.processed, .start height lastBlockHeight latestHeight⟩
  intro move hmove
  obtain ⟨stage, hsource⟩ := (Lts.forall_path_of_guard hstep hstart hlabels move hmove).1
  exact hsource.submitsInRange

instance (limits : Limits) (reader : Reader) (startHeight endHeight : UInt64) :
    Decidable (FirstFits limits reader startHeight endHeight) :=
  match hblock : reader.block startHeight, hcommit : reader.commit startHeight with
  | .ok block, .ok commit =>
    decidable_of_iff (limits.size
      (Batch.add ⟨startHeight, endHeight, [], []⟩ block commit) ≤ limits.maxSize) <| by
        simp [FirstFits, hblock, hcommit]
  | .err _, _ | .panic, _ => .isTrue (by simp [FirstFits, hblock])
  | .ok _, .err _ | .ok _, .panic => .isTrue (by simp [FirstFits, hcommit])

instance (limits : Limits) (initialHeight : Int64) (state : Aggregator)
    (label : Label) : Decidable (InStep limits initialHeight state label) := by
  cases label with
  | announce endHeight =>
    exact inferInstanceAs (Decidable (endHeight ∈ state.unannounced))
  | produce label =>
    cases label with
    | store answer => exact inferInstanceAs (Decidable (_ = _))
    | _ => exact .isTrue trivial
  | sync label =>
    cases label with
    | store answer =>
      cases answer with
      | none => exact .isTrue (by simp [InStep])
      | some endHeight =>
        exact decidable_of_iff (endHeight = state.latestHeight) (by simp [InStep])
    | _ => exact .isTrue trivial
  | submit label =>
    cases label with
    | tick => exact inferInstanceAs (Decidable (_ ∧ _))
    | last =>
      cases hpoint : state.submit with
      | last startHeight =>
        exact decidable_of_iff ((startHeight.toNat : ℤ) ≤ state.lastBlockHeight.toInt)
          (by simp [InStep, hpoint])
      | _ => exact .isTrue (by simp [InStep, hpoint])
    | create reader =>
      cases hpoint : state.submit with
      | create startHeight endHeight =>
        exact decidable_of_iff (FirstFits limits reader startHeight endHeight)
          (by simp [InStep, hpoint])
      | _ => exact .isTrue (by simp [InStep, hpoint])
    | _ => exact .isTrue trivial
  | _ => exact .isTrue trivial

namespace Reference

def emptyBatch : List Label := firstBatch ++
    [.submit (.check (.ok (Submit.Reference.block 1 []))), .submit (.create reader),
      .submit (.toDA true), .submit .toSettlement]

def behindTarget : List Label :=
  [.produce (.store (some 5)), .sync .subscribe, .sync (.store (some 5)),
    .submit .tick, .submit .height, .submit .flag, .submit .claim] ++
    producePending ++
  [.submit .target, .submit .last,
    .submit (.check (.ok (Submit.Reference.block 1 []))), .submit (.create reader)]

def tooSmall : Limits := { Submit.Reference.oneBlock with blockBatchMaxSizeBytes := 10 }

end Reference

open Reference

/-- The first batch is accepted, with the heights from one to one. -/
theorem submitted_batches_in_range_reference :
    (1 : UInt64) ∈ ((Aggregator.lts Submit.Reference.oneBlock 1 (.start 1 1 0)).path
      (.start 1 1 0) firstBatchAccepted).map (fun move => move.target.latestHeight) ∧
    ∀ move ∈ (Aggregator.lts Submit.Reference.oneBlock 1 (.start 1 1 0)).path
      (.start 1 1 0) firstBatchAccepted, SubmitsInRange move := by
  refine ⟨by decide +kernel, ?_⟩
  apply submitted_batches_in_range
  have hall : ((Aggregator.lts Submit.Reference.oneBlock 1 (.start 1 1 0)).path
      (.start 1 1 0) firstBatchAccepted).all (fun move =>
        decide (InStep Submit.Reference.oneBlock 1 move.source move.label)) = true := by
    decide +kernel
  intro move hmove
  exact of_decide_eq_true (List.all_eq_true.1 hall move hmove)

def Label.isToSettlement : Label → Bool
  | .submit .toSettlement => true
  | _ => false

theorem Label.eq_toSettlement (hlabel : label.isToSettlement = true) :
    label = .submit .toSettlement := by
  unfold isToSettlement at hlabel
  split at hlabel
  · rfl
  · cases hlabel

/-- The move creates a batch. -/
def Label.isCreate : Label → Bool
  | .submit (.create _) => true
  | _ => false

theorem Label.exists_eq_create (hlabel : label.isCreate = true) :
    ∃ reader, label = .submit (.create reader) := by
  unfold isCreate at hlabel
  split at hlabel
  · exact ⟨_, rfl⟩
  · cases hlabel

/-- A first block that is too large gives an empty batch that ends before it starts,
and the settlement client panics; a node that is behind the sync target asks for a
batch of a negative number of blocks. -/
theorem empty_and_negative_batches :
    (∃ move ∈ (Aggregator.lts Reference.tooSmall 1 (.start 1 1 0)).path
        (.start 1 1 0) emptyBatch,
      move.source.submit = .toSettlement ⟨1, 0, [], []⟩ ∧
      move.target.submit = .panicked ∧ ¬ SubmitsInRange move) ∧
    ∃ move ∈ (Aggregator.lts Submit.Reference.oneBlock 1 (.start 1 1 5)).path
        (.start 1 1 5) behindTarget,
      move.source.submit = .create 6 1 ∧ move.target.submit = .panicked ∧
      ¬ SubmitsInRange move := by
  constructor
  · have hrun : ((Aggregator.lts Reference.tooSmall 1 (.start 1 1 0)).path
        (.start 1 1 0) emptyBatch).any (fun move =>
          move.label.isToSettlement && decide (move.source.submit = .toSettlement ⟨1, 0, [], []⟩ ∧
              move.target.submit = .panicked ∧
              validateBatch move.source.latestHeight ⟨1, 0, [], []⟩ ≠ .ok ())) =
          true := by
      decide +kernel
    obtain ⟨move, hmove, hview⟩ := List.any_eq_true.1 hrun
    rw [Bool.and_eq_true, decide_eq_true_eq] at hview
    obtain ⟨hlabel, hsource, htarget, hinvalid⟩ := hview
    refine ⟨move, hmove, hsource, htarget, fun hrange => hinvalid ?_⟩
    exact hrange.valid _ (Label.eq_toSettlement hlabel) hsource
  · have hrun : ((Aggregator.lts Submit.Reference.oneBlock 1 (.start 1 1 5)).path
        (.start 1 1 5) behindTarget).any (fun move =>
          move.label.isCreate && decide (move.source.submit = .create 6 1 ∧
            move.target.submit = .panicked)) = true := by
      decide +kernel
    obtain ⟨move, hmove, hview⟩ := List.any_eq_true.1 hrun
    rw [Bool.and_eq_true, decide_eq_true_eq] at hview
    obtain ⟨hlabel, hsource, htarget⟩ := hview
    obtain ⟨reader, hcreate⟩ := Label.exists_eq_create hlabel
    refine ⟨move, hmove, hsource, htarget, fun hrange => ?_⟩
    have hcapacity := hrange.capacity reader 6 1 hcreate hsource
    exact absurd hcapacity.1 (by decide)

end Dymint.Loops
