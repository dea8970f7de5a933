import Dymint.Block.Aggregator

/-!
# Production of blocks by a node that is synced

`ProduceBlockLoop` compares the height of the store with the sync target once, before
it produces its first block, and `SubmitLoop` produces a block whenever the two differ.
Later changes of the sync target concern neither of them.  A block is created above
the sync target if nobody raises the target above the height that a producer relies
on, and `SubmitLoop` does not look while the node is behind.
-/

namespace Dymint.Loops

open Procedure Dymint.Types Submit Runs Channels

/-! ## What the producers rely on -/

/-- The height that a call of `produceBlock` has read. -/
def Production.read : Production → Option UInt64
  | .looking height | .creating height => some height
  | _ => none

/-- `waitForSync` has returned. -/
def ProducePoint.Released : ProducePoint → Prop
  | .select | .producing _ => True
  | _ => False

def ProducePoint.read : ProducePoint → Option UInt64
  | .producing production => production.read
  | _ => none

/-- `SubmitLoop` has compared the two heights and not yet left `produceBlock`. -/
def SubmitPoint.Compared : SubmitPoint → Prop
  | .flag | .claim | .producing _ => True
  | _ => False

def SubmitPoint.read : SubmitPoint → Option UInt64
  | .producing production => production.read
  | _ => none

variable {height : UInt64} {produce : ProducePoint} {submit : SubmitPoint}

namespace Aggregator

def Read (state : Aggregator) (height : UInt64) : Prop :=
  state.produce.read = some height ∨ state.submit.read = some height

/-- A sync target that is not above what the producers rely on. -/
structure Allows (state : Aggregator) (target : UInt64) : Prop where
  height : state.produce.Released ∨ state.submit.Compared → target.toNat ≤ state.height.toNat
  read : ∀ height, state.Read height → target.toNat ≤ height.toNat

/-- A new sync target is not above what the producers rely on, without any batch the
store has all heights before the first block, `SubmitLoop` does not look while the
node is behind, and the heights do not wrap around. -/
def StaysSynced (initialHeight : Int64) (state : Aggregator) : Label → Prop
  | .produce (.store answer) =>
    state.Allows (waitTarget initialHeight answer) ∧
      (answer = none → waitTarget initialHeight none ≤ state.height)
  | .sync (.store answer) =>
    ∀ endHeight, answer = some endHeight → state.Allows endHeight
  | .sync .event =>
    ∀ endHeight, state.waiting.head? = some endHeight → state.Allows endHeight
  | .submit .height => state.syncTarget ≤ state.height
  | .setHeight => state.height.toNat + 2 < 2 ^ 64
  | _ => True

/-! ## The invariant -/

structure Synced (state : Aggregator) : Prop where
  bound : state.height.toNat + 1 < 2 ^ 64
  comparing : ∀ height, state.produce = .comparing height → height.toNat ≤ state.height.toNat
  allows : state.Allows state.syncTarget
  read_bound : ∀ height, state.Read height → height.toNat + 1 < 2 ^ 64

variable {limits : Limits} {initialHeight : Int64} {state next : Aggregator}

/-- A step of `produceBlock` reads the height once. -/
theorem read_of_produceBlock {production : Production} {label : ProductionLabel} {rest : Production}
    (hstep : state.produceBlock production label = some (next, some rest))
    (hread : rest.read = some height) : production.read = some height ∨ height = state.height := by
  unfold produceBlock at hstep
  split at hstep
  case h_1 =>
    split at hstep
    · cases hstep
    · obtain ⟨-, hrest⟩ := Prod.mk.inj (Option.some.inj hstep)
      obtain rfl := Option.some.inj hrest
      cases hread
  case h_2 =>
    obtain ⟨-, hrest⟩ := Prod.mk.inj (Option.some.inj hstep)
    obtain rfl := Option.some.inj hrest
    exact .inr (Option.some.inj hread).symm
  case h_4 =>
    obtain ⟨-, hrest⟩ := Prod.mk.inj (Option.some.inj hstep)
    obtain rfl := Option.some.inj hrest
    exact .inl hread
  case h_8 => cases hstep
  all_goals
    obtain ⟨-, hrest⟩ := Prod.mk.inj (Option.some.inj hstep)
    cases hrest
  all_goals cases hread

theorem released_or_compared (hread : produce.read = some height ∨ submit.read = some height) :
    produce.Released ∨ submit.Compared := by
  rcases hread with hread | hread
  · left
    cases produce <;> trivial
  · right
    cases submit <;> trivial

namespace Synced

/-- A producer goes on; what it relies on now, it relied on before, or it is what the
state has. -/
theorem goOn (hstate : state.Synced)
    (hcomparing : ∀ height, produce = .comparing height → state.produce = .comparing height ∨ height
      = state.height)
    (hheight : produce.Released ∨ submit.Compared → state.syncTarget.toNat ≤ state.height.toNat)
    (hread : ∀ height, produce.read = some height ∨ submit.read = some height → state.Read height ∨
      height = state.height) : Synced { state with produce := produce, submit := submit } := by
  refine ⟨hstate.bound, ?_, ⟨hheight, ?_⟩, ?_⟩
  · intro height hpoint
    rcases hcomparing height hpoint with hold | rfl
    · exact hstate.comparing height hold
    · exact le_rfl
  · intro height hnew
    rcases hread height hnew with hold | rfl
    · exact hstate.allows.read height hold
    · exact hheight (released_or_compared hnew)
  · intro height hnew
    rcases hread height hnew with hold | rfl
    · exact hstate.read_bound height hold
    · exact hstate.bound

section

variable (hstate : state.Synced) (hheight : next.height = state.height)
variable (hproduce : next.produce = state.produce) (hsubmit : next.submit = state.submit)

include hstate hheight hproduce hsubmit

theorem of_allows (hallows : state.Allows next.syncTarget) : next.Synced := by
  have hread (height : UInt64) : next.Read height ↔ state.Read height := by
    rw [Read, Read, hproduce, hsubmit]
  refine ⟨?_, ?_, ⟨?_, ?_⟩, ?_⟩
  · rw [hheight]
    exact hstate.bound
  · rw [hproduce, hheight]
    exact hstate.comparing
  · rw [hproduce, hsubmit, hheight]
    exact hallows.height
  · intro height hnext
    exact hallows.read height ((hread height).1 hnext)
  · intro height hnext
    exact hstate.read_bound height ((hread height).1 hnext)

theorem of_eq (htarget : next.syncTarget = state.syncTarget) : next.Synced :=
  hstate.of_allows hheight hproduce hsubmit (htarget ▸ hstate.allows)

end

section

variable (hstate : state.Synced)

include hstate

theorem setProduce (hcomparing : ∀ height, produce = .comparing height → height = state.height)
    (hheight : produce.Released → state.syncTarget.toNat ≤ state.height.toNat)
    (hread : ∀ height, produce.read = some height → state.produce.read = some height ∨ height =
      state.height) : Synced { state with produce := produce } := by
  apply hstate.goOn
  · intro height hpoint
    exact .inr (hcomparing height hpoint)
  · intro hpoint
    rcases hpoint with hpoint | hpoint
    · exact hheight hpoint
    · exact hstate.allows.height (.inr hpoint)
  · intro height hnew
    rcases hnew with hnew | hold
    · exact (hread height hnew).imp_left .inl
    · exact .inl (.inr hold)

theorem setSubmit (hheight : submit.Compared → state.syncTarget.toNat ≤ state.height.toNat)
    (hread : ∀ height, submit.read = some height → state.submit.read = some height ∨ height =
      state.height) : Synced { state with submit := submit } := by
  apply hstate.goOn
  · intro height hpoint
    exact .inl hpoint
  · intro hpoint
    rcases hpoint with hpoint | hpoint
    · exact hstate.allows.height (.inl hpoint)
    · exact hheight hpoint
  · intro height hnew
    rcases hnew with hold | hnew
    · exact .inl (.inl hold)
    · exact (hread height hnew).imp_left .inr

/-- `SubmitLoop` is no producer here. -/
theorem leave (hpoint : ¬ submit.Compared) : Synced { state with submit := submit } := by
  apply hstate.setSubmit (fun hcompared => absurd hcompared hpoint)
  intro height hread
  cases submit <;> first | exact absurd trivial hpoint | cases hread

theorem produceStep {label : ProduceLabel}
    (hlabel : state.StaysSynced initialHeight (.produce label))
    (hstep : state.produceStep initialHeight state.produce label = some next) : next.Synced := by
  unfold Aggregator.produceStep at hstep
  split at hstep
  case h_1 answer hpoint =>
    obtain rfl := Option.some.inj hstep
    obtain ⟨hallows, hnone⟩ := hlabel
    have htarget : Synced { state with
        syncTarget := waitTarget initialHeight answer } :=
      hstate.of_allows rfl rfl rfl hallows
    cases answer with
    | none =>
      exact htarget.setProduce (by simp)
        (fun _ => UInt64.le_iff_toNat_le.1 (hnone rfl)) (by simp [ProducePoint.read])
    | some endHeight =>
      exact htarget.setProduce (by simp) False.elim (by simp [ProducePoint.read])
  case h_2 hpoint =>
    obtain rfl := Option.some.inj hstep
    exact hstate.setProduce (fun _ hnew => (ProducePoint.comparing.inj hnew).symm)
      False.elim (by simp [ProducePoint.read])
  case h_3 height hpoint =>
    obtain rfl := Option.some.inj hstep
    split
    · exact hstate.setProduce (by simp) False.elim (by simp [ProducePoint.read])
    case isFalse hle =>
      have htarget := UInt64.le_iff_toNat_le.1 (UInt64.not_lt.1 hle)
      have hread := hstate.comparing height hpoint
      exact hstate.setProduce (by simp) (fun _ => htarget.trans hread) (by simp [ProducePoint.read])
  case h_4 hpoint =>
    obtain rfl := Option.some.inj hstep
    have hheight := hstate.allows.height (.inl (by rw [hpoint]; trivial))
    exact hstate.setProduce (by simp) (fun _ => hheight)
      (by simp [ProducePoint.read, Production.read])
  case h_5 production label hpoint =>
    obtain ⟨⟨later, rest⟩, hlater, rfl⟩ := Option.map_eq_some_iff.1 hstep
    have hheight := hstate.allows.height (.inl (by rw [hpoint]; trivial))
    have hread (height : UInt64)
        (hnew : (rest.elim .select .producing : ProducePoint).read = some height) :
        state.produce.read = some height ∨ height = state.height := by
      cases rest with
      | none => cases hnew
      | some rest =>
        rw [hpoint]
        exact read_of_produceBlock hlater hnew
    rw [produceBlock_eq hlater]
    have hlocked : Synced { state with
        produceBlockMutex := later.produceBlockMutex } :=
      hstate.of_eq rfl rfl rfl rfl
    exact hlocked.setProduce (by cases rest <;> simp) (fun _ => hheight) hread
  case h_6 => cases hstep

theorem submitStep {label : SubmitLabel} (hlabel : state.StaysSynced initialHeight (.submit label))
    (hstep : state.submitStep limits state.submit label = some next) : next.Synced := by
  unfold Aggregator.submitStep at hstep
  split at hstep
  case h_2 hpoint =>
    obtain rfl := Option.some.inj hstep
    split
    · exact hstate.leave id
    · exact hstate.setSubmit (fun _ => UInt64.le_iff_toNat_le.1 hlabel) (by simp [SubmitPoint.read])
  case h_3 hpoint =>
    obtain rfl := Option.some.inj hstep
    have hheight := hstate.allows.height (.inr (by rw [hpoint]; trivial))
    split
    · exact hstate.leave id
    · exact hstate.setSubmit (fun _ => hheight) (by simp [SubmitPoint.read])
  case h_4 hpoint =>
    obtain rfl := Option.some.inj hstep
    have hheight := hstate.allows.height (.inr (by rw [hpoint]; trivial))
    have hflag : Synced { state with batchInProcess := true } := hstate.of_eq rfl rfl rfl rfl
    exact hflag.setSubmit (fun _ => hheight) (by simp [SubmitPoint.read, Production.read])
  case h_5 production label hpoint =>
    obtain ⟨⟨later, rest⟩, hlater, rfl⟩ := Option.map_eq_some_iff.1 hstep
    have hheight := hstate.allows.height (.inr (by rw [hpoint]; trivial))
    have hread (height : UInt64)
        (hnew : (rest.elim .target .producing : SubmitPoint).read = some height) :
        state.submit.read = some height ∨ height = state.height := by
      cases rest with
      | none => cases hnew
      | some rest =>
        rw [hpoint]
        exact read_of_produceBlock hlater hnew
    rw [produceBlock_eq hlater]
    have hlocked : Synced { state with
        produceBlockMutex := later.produceBlockMutex } :=
      hstate.of_eq rfl rfl rfl rfl
    exact hlocked.setSubmit (fun _ => hheight) hread
  case h_8 startHeight endHeight lastBlock hpoint =>
    obtain rfl := Option.some.inj hstep
    apply hstate.leave
    cases lastBlock with
    | ok lastBlock =>
      dsimp only [validateLastBlock]
      split <;> exact id
    | err | panic => exact id
  case h_10 startHeight endHeight reader hpoint =>
    obtain rfl := Option.some.inj hstep
    apply hstate.leave
    split <;> exact id
  case h_11 batch accepted hpoint =>
    obtain rfl := Option.some.inj hstep
    apply hstate.leave
    split <;> exact id
  case h_12 batch hpoint =>
    split at hstep
    · obtain rfl := Option.some.inj hstep
      have hposted : Synced { state with submit := .posting batch } := hstate.leave id
      exact hposted.of_eq rfl rfl rfl rfl
    · obtain rfl := Option.some.inj hstep
      exact hstate.leave id
  case h_14 => cases hstep
  all_goals
    obtain rfl := Option.some.inj hstep
    exact hstate.leave id

theorem syncStep {label : SyncLabel} (hlabel : state.StaysSynced initialHeight (.sync label))
    (hstep : state.syncStep state.sync label = some next) : next.Synced := by
  unfold Aggregator.syncStep at hstep
  split at hstep
  case h_2 answer hpoint =>
    obtain rfl := Option.some.inj hstep
    refine hstate.of_allows rfl rfl rfl ?_
    cases answer with
    | none => exact hstate.allows
    | some endHeight => exact hlabel endHeight rfl
  case h_3 hpoint =>
    obtain ⟨subscription, hsome, hmap⟩ := Option.bind_eq_some_iff.1 hstep
    obtain ⟨⟨endHeight, out⟩, hreceive, rfl⟩ := Option.map_eq_some_iff.1 hmap
    refine hstate.of_allows rfl rfl rfl ?_
    apply hlabel endHeight
    rw [waiting, hsome, Option.elim_some, Channel.buffer_of_receive hreceive]
    rfl
  case h_5 =>
    obtain ⟨subscription, -, hcancelled⟩ := Option.bind_eq_some_iff.1 hstep
    obtain ⟨-, hnext⟩ := Option.ite_none_right_eq_some.1 hcancelled
    obtain rfl := Option.some.inj hnext
    exact hstate.of_eq rfl rfl rfl rfl
  case h_6 => cases hstep
  all_goals
    obtain rfl := Option.some.inj hstep
    exact hstate.of_eq rfl rfl rfl rfl

theorem setHeight (hbound : state.height.toNat + 2 < 2 ^ 64) :
    Synced { state with height := state.height + 1 } := by
  have hheight : (state.height + 1).toNat = state.height.toNat + 1 := by
    rw [UInt64.toNat_add, UInt64.toNat_one, Nat.mod_eq_of_lt (by omega)]
  refine ⟨?_, ?_, ⟨?_, hstate.allows.read⟩, hstate.read_bound⟩
  · rw [hheight]
    exact hbound
  · intro height hpoint
    rw [hheight]
    exact Nat.le_succ_of_le (hstate.comparing height hpoint)
  · intro hpoint
    rw [hheight]
    exact Nat.le_succ_of_le (hstate.allows.height hpoint)

theorem step {label : Label} (hlabel : state.StaysSynced initialHeight label)
    (hstep : state.step limits initialHeight label = some next) : next.Synced := by
  have hmove := move_of_step hstep
  cases label with
  | produce label => exact hstate.produceStep hlabel hmove
  | submit label => exact hstate.submitStep hlabel hmove
  | sync label => exact hstate.syncStep hlabel hmove
  | handler label =>
    rw [handlerStep_eq hmove]
    exact hstate.of_eq rfl rfl rfl rfl
  | announce | execute =>
    obtain rfl := Option.some.inj hmove
    exact hstate.of_eq rfl rfl rfl rfl
  | setHeight =>
    rw [move] at hmove
    obtain ⟨-, hnext⟩ := Option.ite_none_right_eq_some.1 hmove
    obtain rfl := Option.some.inj hnext
    exact hstate.setHeight hlabel

theorem lt_of_read (hread : state.Read height) : state.syncTarget < height + 1 := by
  have hle := hstate.allows.read height hread
  have hbound := hstate.read_bound height hread
  rw [UInt64.lt_iff_toNat_lt, UInt64.toNat_add, UInt64.toNat_one, Nat.mod_eq_of_lt hbound]
  omega

end

end Synced

end Aggregator

/-! ## Runs -/

inductive Creates (height : UInt64) : Move Aggregator Label → Prop
  | produceBlockLoop {source target : Aggregator}
      (hpoint : source.produce = .producing (.creating height)) :
      Creates height ⟨source, .produce (.call .create), target⟩
  | submitLoop {source target : Aggregator}
      (hpoint : source.submit = .producing (.creating height)) :
      Creates height ⟨source, .submit (.call .create), target⟩

/-- In every run that stays synced, blocks are only created above the sync target. -/
theorem created_above_sync_target (limits : Limits) (initialHeight : Int64) {height : UInt64}
    (hheight : height.toNat + 1 < 2 ^ 64) (lastBlockHeight : Int64) (latestHeight : UInt64)
    (labels : List Label)
    (hlabels : ∀ move ∈ (Aggregator.lts limits initialHeight (.start height lastBlockHeight
      latestHeight)).path (.start height lastBlockHeight latestHeight) labels,
      move.source.StaysSynced initialHeight move.label) :
    ∀ move ∈ (Aggregator.lts limits initialHeight (.start height lastBlockHeight latestHeight)).path
          (.start height lastBlockHeight latestHeight) labels,
      ∀ last, Creates last move → move.source.syncTarget < last + 1 := by
  have hstart : (Aggregator.start height lastBlockHeight latestHeight).Synced :=
    { bound := hheight
      comparing := by simp [Aggregator.start]
      allows :=
        { height := by simp [Aggregator.start, ProducePoint.Released, SubmitPoint.Compared]
          read := by simp [Aggregator.start, Aggregator.Read, ProducePoint.read, SubmitPoint.read] }
      read_bound := by simp [Aggregator.start, Aggregator.Read, ProducePoint.read,
        SubmitPoint.read] }
  have hstep (state : Aggregator) (label : Label) (next : Aggregator)
      (hstate : state.Synced) (hlabel : state.StaysSynced initialHeight label)
      (hnext : (Aggregator.lts limits initialHeight
        (.start height lastBlockHeight latestHeight)).step state label = some next) :
      next.Synced := hstate.step hlabel hnext
  intro move hmove last hcreates
  have hsource := (Lts.forall_path_of_guard hstep hstart hlabels move hmove).1
  cases hcreates with
  | produceBlockLoop hpoint =>
    apply hsource.lt_of_read
    left
    rw [hpoint]
    rfl
  | submitLoop hpoint =>
    apply hsource.lt_of_read
    right
    rw [hpoint]
    rfl

instance (produce : ProducePoint) : Decidable produce.Released := by
  cases produce <;> first | exact .isTrue trivial | exact .isFalse id

instance (submit : SubmitPoint) : Decidable submit.Compared := by
  cases submit <;> first | exact .isTrue trivial | exact .isFalse id

namespace Aggregator

def reads (state : Aggregator) : List UInt64 :=
  state.produce.read.toList ++ state.submit.read.toList

theorem allows_iff {state : Aggregator} {target : UInt64} :
    ((state.produce.Released ∨ state.submit.Compared → target.toNat ≤ state.height.toNat) ∧
      (state.reads.all fun height => target.toNat ≤ height.toNat) = true) ↔
    state.Allows target := by
  simp only [reads, List.all_append, Bool.and_eq_true, List.all_eq_true,
    Option.mem_toList, decide_eq_true_eq]
  constructor
  · rintro ⟨hheight, hproduce, hsubmit⟩
    refine ⟨hheight, fun height hread => ?_⟩
    exact hread.elim (hproduce height) (hsubmit height)
  · intro hallows
    exact ⟨hallows.height, fun height hread => hallows.read height (.inl hread),
      fun height hread => hallows.read height (.inr hread)⟩

instance (state : Aggregator) (target : UInt64) : Decidable (state.Allows target) :=
  decidable_of_iff _ allows_iff

instance (initialHeight : Int64) (state : Aggregator) (label : Label) :
    Decidable (state.StaysSynced initialHeight label) :=
  match label with
  | .setHeight => inferInstanceAs (Decidable (_ < _))
  | .produce (.store _) => inferInstanceAs (Decidable (_ ∧ (_ → _)))
  | .sync (.store none) => .isTrue (by simp [StaysSynced])
  | .sync (.store (some endHeight)) =>
    decidable_of_iff (state.Allows endHeight) (by simp [StaysSynced])
  | .sync .event =>
    match hwaiting : state.waiting.head? with
    | none => .isTrue (by simp [StaysSynced, hwaiting])
    | some endHeight =>
      decidable_of_iff (state.Allows endHeight) (by simp [StaysSynced, hwaiting])
  | .submit .height => inferInstanceAs (Decidable (_ ≤ _))
  | .produce .height | .produce .compare | .produce .tick | .produce (.call _)
  | .sync .subscribe | .sync .clear | .sync .cancelled
  | .submit .tick | .submit .flag | .submit .claim | .submit (.call _) | .submit .target
  | .submit .last | .submit (.check _) | .submit .request | .submit (.create _)
  | .submit (.toDA _) | .submit .toSettlement | .submit .posted
  | .handler _ | .announce _ | .execute => .isTrue trivial

end Aggregator

namespace Reference

/-- `SubmitLoop` creates a block. -/
def creates : Label → Bool
  | .submit (.call .create) => true
  | _ => false

/-- `ProduceBlockLoop` creates the next block and `SubmitLoop` gets ready to submit. -/
def producedWhenSynced : List Label :=
  [.produce (.store (some 1)), .produce .height, .produce .compare, .produce .tick,
    .produce (.call .lock), .produce (.call .height), .produce (.call (.look false)),
    .produce (.call .create), .execute, .setHeight, .produce (.call .ret),
    .submit .tick, .submit .height, .submit .flag]

/-- The settlement layer has a batch up to height five, the node is at height one, and
`SubmitLoop` produces a block. -/
def producedWhenBehind : List Label :=
  [.produce (.store (some 5)), .submit .tick, .submit .height, .submit .flag,
    .submit .claim, .submit (.call .lock), .submit (.call .height),
    .submit (.call (.look false)), .submit (.call .create)]

end Reference

open Reference

theorem created_above_sync_target_reference :
    (((Aggregator.lts Submit.Reference.oneBlock 1 (.start 1 1 1)).path (.start 1 1 1)
      producedWhenSynced).map fun move =>
        (move.target.syncTarget, move.target.height)).getLast? = some (1, 2) ∧
    ∀ move ∈ (Aggregator.lts Submit.Reference.oneBlock 1 (.start 1 1 1)).path
        (.start 1 1 1) producedWhenSynced,
      ∀ last, Creates last move → move.source.syncTarget < last + 1 := by
  refine ⟨by decide +kernel, ?_⟩
  apply created_above_sync_target
  · decide
  · have hall : ((Aggregator.lts Submit.Reference.oneBlock 1 (.start 1 1 1)).path
        (.start 1 1 1) producedWhenSynced).all (fun move =>
          decide (move.source.StaysSynced 1 move.label)) = true := by
      decide +kernel
    intro move hmove
    exact of_decide_eq_true (List.all_eq_true.1 hall move hmove)

/-- `SubmitLoop` creates a block of height two while the sync target is five: the
difference of the two heights is not zero. -/
theorem created_below_sync_target :
    ∃ move ∈ (Aggregator.lts Submit.Reference.oneBlock 1 (.start 1 1 5)).path
        (.start 1 1 5) producedWhenBehind,
      Creates 1 move ∧ move.source.syncTarget = 5 := by
  have hrun : (((Aggregator.lts Submit.Reference.oneBlock 1 (.start 1 1 5)).path
      (.start 1 1 5) producedWhenBehind).getLast?.map fun move =>
        (creates move.label, move.source.submit, move.source.syncTarget)) =
      some (true, .producing (.creating 1), 5) := by
    decide +kernel
  obtain ⟨⟨source, label, target⟩, hmove, hview⟩ := Option.map_eq_some_iff.1 hrun
  simp only [Prod.mk.injEq] at hview
  obtain ⟨hlabel, hpoint, htarget⟩ := hview
  unfold creates at hlabel
  split at hlabel
  · exact ⟨_, List.mem_of_getLast? hmove, .submitLoop hpoint, htarget⟩
  · cases hlabel

end Dymint.Loops
