import Dymint.Core.Runs

/-!
# The health of the node

Two goroutines handle the health events of the settlement layer and of the data
availability layer.  Each sets the flag of its layer, reads both flags and
publishes the health of the node.
-/

namespace Dymint.Health

open Runs

inductive Layer where
  | settlement
  | da
  deriving DecidableEq

def Layer.other : Layer → Layer
  | .settlement => .da
  | .da => .settlement

theorem Layer.other_ne (layer : Layer) : layer.other ≠ layer := by
  cases layer <;> simp [other]

theorem Layer.other_other (layer : Layer) : layer.other.other = layer := by
  cases layer <;> rfl

theorem Layer.eq_or_eq_other (layer each : Layer) : each = layer ∨ each = layer.other := by
  cases layer <;> cases each <;> simp [other]

structure HealthStatus where
  healthy : Bool
  error : Option String
  error_of_unhealthy : healthy = false → error.isSome = true

/-! ## The handler -/

structure BaseLayersHealthStatus where
  settlementHealthy : Bool
  daHealthy : Bool

namespace BaseLayersHealthStatus

def setSettlementHealth (status : BaseLayersHealthStatus) (isHealthy : Bool) :
    BaseLayersHealthStatus :=
  { status with settlementHealthy := isHealthy }

def setDAHealth (status : BaseLayersHealthStatus) (isHealthy : Bool) : BaseLayersHealthStatus :=
  { status with daHealthy := isHealthy }

def get (status : BaseLayersHealthStatus) : Bool × Bool :=
  (status.settlementHealthy, status.daHealthy)

def of (status : BaseLayersHealthStatus) : Layer → Bool
  | .settlement => status.settlementHealthy
  | .da => status.daHealthy

/-- What `healthStatusEventCallback` does first with an event of the layer. -/
def set (status : BaseLayersHealthStatus) : Layer → Bool → BaseLayersHealthStatus
  | .settlement => status.setSettlementHealth
  | .da => status.setDAHealth

theorem of_set_self (status : BaseLayersHealthStatus) (layer : Layer) (isHealthy : Bool) :
    (status.set layer isHealthy).of layer = isHealthy := by
  cases layer <;> rfl

theorem of_set_other (status : BaseLayersHealthStatus) (layer : Layer) (isHealthy : Bool) :
    (status.set layer isHealthy).of layer.other = status.of layer.other := by
  cases layer <;> rfl

end BaseLayersHealthStatus

/-- What `healthStatusHandler` decides to publish after it has read the flags. -/
def decision (status : BaseLayersHealthStatus) (err : Option String) : Option Bool :=
  let (daHealthy, settlementHealthy) := status.get
  if daHealthy && settlementHealthy then some true
  else if err.isSome then some false
  else none

/-! ## Runs -/

/-- Where the goroutine of a layer stands: it waits for an event, has received one,
has set its flag, or has read the flags and is about to publish. -/
inductive Point where
  | idle
  | received (event : HealthStatus)
  | stored (error : Option String)
  | publishing (healthy : Bool)

structure Node where
  baseLayersHealthStatus : BaseLayersHealthStatus
  point : Layer → Point
  published : Option Bool
  status : Layer → Bool

inductive Label where
  | event (layer : Layer) (event : HealthStatus)
  | step (layer : Layer)

namespace Node

def goTo (node : Node) (layer : Layer) (point : Point) : Node :=
  { node with point := Function.update node.point layer point }

def step (node : Node) : Label → Option Node
  | .event layer event =>
    match node.point layer with
    | .idle =>
      some { node.goTo layer (.received event) with
        status := Function.update node.status layer event.healthy }
    | _ => none
  | .step layer =>
    match node.point layer with
    | .idle => none
    | .received event =>
      some { node.goTo layer (.stored event.error) with
        baseLayersHealthStatus :=
          node.baseLayersHealthStatus.set layer event.healthy }
    | .stored error =>
      match decision node.baseLayersHealthStatus error with
      | some healthy => some (node.goTo layer (.publishing healthy))
      | none => some (node.goTo layer .idle)
    | .publishing healthy =>
      some { node.goTo layer .idle with published := some healthy }

def lts : Lts Node Label where
  start :=
    { baseLayersHealthStatus := ⟨true, true⟩
      point := fun _ => .idle
      published := none
      status := fun _ => true }
  step := step

def InTurn (node : Node) : Label → Prop
  | .event _ _ => True
  | .step layer =>
    ∀ error healthy, node.point layer = .stored error → node.point layer.other ≠ .publishing healthy

/-! ## The invariant -/

end Node

def Point.publishes : Point → Option Bool
  | .publishing healthy => some healthy
  | _ => none

/-- The goroutine has no event that it has not read the flags for. -/
def Point.Settled : Point → Prop
  | .idle | .publishing _ => True
  | .received _ | .stored _ => False

def Point.Known (flag status : Bool) : Point → Prop
  | .idle | .publishing _ => flag = status
  | .received event => status = event.healthy
  | .stored error => flag = status ∧ (flag = false → error.isSome = true)

variable {node : Node} {healthy : Bool}

namespace Node

def health (node : Node) : Bool :=
  (((node.point .settlement).publishes.or (node.point .da).publishes).or node.published).getD true

structure Sound (node : Node) : Prop where
  known : ∀ layer, (node.point layer).Known (node.baseLayersHealthStatus.of layer)
    (node.status layer)
  single : ∀ layer, (node.point layer).publishes = none ∨ (node.point layer.other).publishes = none
  unhealthy : ∀ layer, (node.point layer).Settled →
    node.baseLayersHealthStatus.of layer = false → node.health = false
  healthy : (∀ layer, (node.point layer).Settled ∧
    node.baseLayersHealthStatus.of layer = true) → node.health = true

theorem health_of_publishes_eq_none (layer : Layer) (hself : (node.point layer).publishes = none)
    (hother : (node.point layer.other).publishes = none) :
    node.health = node.published.getD true := by
  cases layer with
  | settlement =>
    change (node.point .da).publishes = none at hother
    rw [health, hself, hother]
    rfl
  | da =>
    change (node.point .settlement).publishes = none at hother
    rw [health, hself, hother]
    rfl

theorem health_of_publishes {layer : Layer} (hself : (node.point layer).publishes = some healthy)
    (hother : (node.point layer.other).publishes = none) : node.health = healthy := by
  cases layer with
  | settlement => rw [health, hself]; rfl
  | da =>
    change (node.point .settlement).publishes = none at hother
    rw [health, hself, hother]
    rfl

/-! ## The steps -/

/-- What a step of the goroutine of one layer leaves alone. -/
structure Frame (node next : Node) (layer : Layer) : Prop where
  point : next.point layer.other = node.point layer.other
  flag : next.baseLayersHealthStatus.of layer.other = node.baseLayersHealthStatus.of layer.other
  status : next.status layer.other = node.status layer.other

variable {node next : Node} {layer : Layer}

theorem point_goTo (point : Point) : (node.goTo layer point).point layer = point :=
  Function.update_self _ _ _

theorem frame_goTo (point : Point) : Frame node (node.goTo layer point) layer where
  point := Function.update_of_ne layer.other_ne _ _
  flag := rfl
  status := rfl

section

variable (hnode : Sound node) (hframe : Frame node next layer)
variable (hknown : (next.point layer).Known (next.baseLayersHealthStatus.of layer)
  (next.status layer))

include hnode hframe hknown

theorem Sound.of_frame
    (hsingle : (next.point layer).publishes = none ∨ (node.point layer.other).publishes = none)
    (hself : (next.point layer).Settled → next.baseLayersHealthStatus.of layer = false → next.health
      = false)
    (hother : (node.point layer.other).Settled → node.baseLayersHealthStatus.of layer.other = false
      → next.health = false)
    (hhealthy : (next.point layer).Settled → next.baseLayersHealthStatus.of layer = true →
      (node.point layer.other).Settled → node.baseLayersHealthStatus.of layer.other = true →
      next.health = true) : Sound next := by
  refine ⟨?_, ?_, ?_, ?_⟩
  · intro each
    rcases layer.eq_or_eq_other each with rfl | rfl
    · exact hknown
    · rw [hframe.point, hframe.flag, hframe.status]
      exact hnode.known layer.other
  · intro each
    rcases layer.eq_or_eq_other each with rfl | rfl
    · rw [hframe.point]
      exact hsingle
    · rw [hframe.point, layer.other_other]
      exact hsingle.symm
  · intro each
    rcases layer.eq_or_eq_other each with rfl | rfl
    · exact hself
    · rw [hframe.point, hframe.flag]
      exact hother
  · intro hall
    have hlast := hall layer.other
    rw [hframe.point, hframe.flag] at hlast
    exact hhealthy (hall layer).1 (hall layer).2 hlast.1 hlast.2

theorem Sound.pending
    (hbefore : (node.point layer).publishes = none) (hsettled : ¬ (next.point layer).Settled)
    (hpublished : next.published = node.published) : Sound next := by
  have hnone : (next.point layer).publishes = none := by
    cases hpoint : next.point layer with
    | idle | received | stored => rfl
    | publishing => exact absurd (by rw [hpoint]; trivial) hsettled
  have hhealth : next.health = node.health := by
    cases hother : (node.point layer.other).publishes with
    | none =>
      rw [health_of_publishes_eq_none layer hnone (by rw [hframe.point, hother]),
        health_of_publishes_eq_none layer hbefore hother, hpublished]
    | some healthy =>
      have hnext : (next.point layer.other).publishes = some healthy := by
        rw [hframe.point, hother]
      rw [health_of_publishes hnext (by rw [layer.other_other]; exact hnone),
        health_of_publishes hother (by rw [layer.other_other]; exact hbefore)]
  apply hnode.of_frame hframe hknown (.inl hnone)
  · intro h
    exact absurd h hsettled
  · rw [hhealth]
    exact hnode.unhealthy layer.other
  · intro h
    exact absurd h hsettled

end

theorem Sound.received (hnode : Sound node) (hpoint : node.point layer = .idle)
    (event : HealthStatus) :
    Sound { node.goTo layer (.received event) with
      status := Function.update node.status layer event.healthy } := by
  have hframe : Frame node { node.goTo layer (.received event) with
      status := Function.update node.status layer event.healthy } layer :=
    ⟨(frame_goTo (.received event)).point, rfl, Function.update_of_ne layer.other_ne _ _⟩
  apply hnode.pending hframe
  · rw [point_goTo]
    exact Function.update_self _ _ _
  · rw [hpoint]
    rfl
  · rw [point_goTo]
    exact id
  · rfl

theorem Sound.stored (hnode : Sound node) {event : HealthStatus}
    (hpoint : node.point layer = .received event) :
    Sound { node.goTo layer (.stored event.error) with
      baseLayersHealthStatus :=
        node.baseLayersHealthStatus.set layer event.healthy } := by
  have hframe : Frame node { node.goTo layer (.stored event.error) with
      baseLayersHealthStatus :=
        node.baseLayersHealthStatus.set layer event.healthy } layer :=
    ⟨(frame_goTo (.stored event.error)).point,
      node.baseLayersHealthStatus.of_set_other layer event.healthy, rfl⟩
  have hflag := node.baseLayersHealthStatus.of_set_self layer event.healthy
  have hknown := hnode.known layer
  rw [hpoint] at hknown
  apply hnode.pending hframe
  · rw [point_goTo, hflag]
    exact ⟨hknown.symm, event.error_of_unhealthy⟩
  · rw [hpoint]
    rfl
  · rw [point_goTo]
    exact id
  · rfl

theorem decision_eq (status : BaseLayersHealthStatus) (layer : Layer) (err : Option String) :
    decision status err =
      if status.of layer && status.of layer.other then some true
      else if err.isSome then some false
      else none := by
  cases layer with
  | settlement => rfl
  | da =>
    rw [Bool.and_comm]
    rfl

section

variable {error : Option String} (hnode : Sound node) (hpoint : node.point layer = .stored error)
variable (hother : (node.point layer.other).publishes = none)

include hnode hpoint hother

theorem Sound.publishing (hdecision : decision node.baseLayersHealthStatus error = some healthy) :
    Sound (node.goTo layer (.publishing healthy)) := by
  have hframe : Frame node (node.goTo layer (.publishing healthy)) layer := frame_goTo _
  have hhealth : (node.goTo layer (.publishing healthy)).health = healthy :=
    health_of_publishes (by rw [point_goTo]; rfl) (by rw [hframe.point, hother])
  have hknown := hnode.known layer
  rw [hpoint] at hknown
  rw [decision_eq _ layer] at hdecision
  cases hflags : node.baseLayersHealthStatus.of layer &&
      node.baseLayersHealthStatus.of layer.other with
  | true =>
    rw [hflags] at hdecision
    obtain rfl := Option.some.inj hdecision
    obtain ⟨hleft, hright⟩ := Bool.and_eq_true_iff.1 hflags
    apply hnode.of_frame hframe (by rw [point_goTo]; exact hknown.1) (.inr hother)
    · intro _ hfalse
      exact absurd (hleft.symm.trans hfalse) (by decide)
    · intro _ hfalse
      exact absurd (hright.symm.trans hfalse) (by decide)
    · intro _ _ _ _
      exact hhealth
  | false =>
    rw [hflags] at hdecision
    obtain ⟨-, hsome⟩ := Option.ite_none_right_eq_some.1 hdecision
    obtain rfl := Option.some.inj hsome
    apply hnode.of_frame hframe (by rw [point_goTo]; exact hknown.1) (.inr hother)
    · intro _ _
      exact hhealth
    · intro _ _
      exact hhealth
    · intro _ hleft _ hright
      change node.baseLayersHealthStatus.of layer = true at hleft
      rw [hleft, hright] at hflags
      cases hflags

theorem Sound.silent (hdecision : decision node.baseLayersHealthStatus error = none) :
    Sound (node.goTo layer .idle) := by
  have hframe : Frame node (node.goTo layer .idle) layer := frame_goTo _
  have hknown := hnode.known layer
  rw [hpoint] at hknown
  have hhealth : (node.goTo layer .idle).health = node.health := by
    rw [health_of_publishes_eq_none layer (by rw [point_goTo]; rfl) (by rw [hframe.point, hother]),
      health_of_publishes_eq_none layer (by rw [hpoint]; rfl) hother]
    rfl
  rw [decision_eq _ layer] at hdecision
  cases hflags : node.baseLayersHealthStatus.of layer &&
      node.baseLayersHealthStatus.of layer.other with
  | true =>
    rw [hflags] at hdecision
    cases hdecision
  | false =>
    have herror : error.isSome = false := by
      rw [hflags] at hdecision
      cases hsome : error.isSome with
      | false => rfl
      | true =>
        rw [hsome] at hdecision
        cases hdecision
    have hleft : node.baseLayersHealthStatus.of layer = true := by
      cases hflag : node.baseLayersHealthStatus.of layer with
      | true => rfl
      | false => exact absurd (herror.symm.trans (hknown.2 hflag)) (by decide)
    apply hnode.of_frame hframe (by rw [point_goTo]; exact hknown.1) (.inr hother)
    · intro _ hfalse
      exact absurd (hleft.symm.trans hfalse) (by decide)
    · rw [hhealth]
      exact hnode.unhealthy layer.other
    · intro _ _ _ hright
      rw [hleft, hright] at hflags
      cases hflags

end

theorem Sound.published (hnode : Sound node) (hpoint : node.point layer = .publishing healthy) :
    Sound { node.goTo layer .idle with published := some healthy } := by
  have hframe : Frame node { node.goTo layer .idle with published := some healthy }
      layer := ⟨(frame_goTo .idle).point, rfl, rfl⟩
  have hother : (node.point layer.other).publishes = none := by
    rcases hnode.single layer with hnone | hnone
    · rw [hpoint] at hnone
      cases hnone
    · exact hnone
  have hbefore : node.health = healthy := health_of_publishes (by rw [hpoint]; rfl) hother
  have hhealth : ({ node.goTo layer .idle with
      published := some healthy } : Node).health = healthy := by
    rw [health_of_publishes_eq_none layer (by rw [point_goTo]; rfl) (by rw [hframe.point, hother])]
    rfl
  have hknown := hnode.known layer
  rw [hpoint] at hknown
  have hsettled : (node.point layer).Settled := by
    rw [hpoint]
    trivial
  apply hnode.of_frame hframe (by rw [point_goTo]; exact hknown) (.inr hother)
  · intro _ hfalse
    rw [hhealth, ← hbefore]
    exact hnode.unhealthy layer hsettled hfalse
  · intro hsettled' hfalse
    rw [hhealth, ← hbefore]
    exact hnode.unhealthy layer.other hsettled' hfalse
  · intro _ hleft hsettled' hright
    rw [hhealth, ← hbefore]
    apply hnode.healthy
    intro each
    rcases layer.eq_or_eq_other each with rfl | rfl
    · exact ⟨hsettled, hleft⟩
    · exact ⟨hsettled', hright⟩

theorem Sound.step {label : Label} (hnode : Sound node) (hturn : node.InTurn label)
    (hstep : step node label = some next) : Sound next := by
  cases label with
  | event layer event =>
    cases hpoint : node.point layer with
    | idle =>
      simp only [Node.step, hpoint] at hstep
      obtain rfl := Option.some.inj hstep
      exact hnode.received hpoint event
    | _ => simp [Node.step, hpoint] at hstep
  | step layer =>
    cases hpoint : node.point layer with
    | idle => simp [Node.step, hpoint] at hstep
    | received event =>
      simp only [Node.step, hpoint] at hstep
      obtain rfl := Option.some.inj hstep
      exact hnode.stored hpoint
    | stored error =>
      simp only [Node.step, hpoint] at hstep
      have hother : (node.point layer.other).publishes = none := by
        cases hpoint' : node.point layer.other with
        | idle | received | stored => rfl
        | publishing healthy => exact absurd hpoint' (hturn error healthy hpoint)
      cases hdecision : decision node.baseLayersHealthStatus error with
      | some healthy =>
        rw [hdecision] at hstep
        obtain rfl := Option.some.inj hstep
        exact hnode.publishing hpoint hother hdecision
      | none =>
        rw [hdecision] at hstep
        obtain rfl := Option.some.inj hstep
        exact hnode.silent hpoint hother hdecision
    | publishing healthy =>
      simp only [Node.step, hpoint] at hstep
      obtain rfl := Option.some.inj hstep
      exact hnode.published hpoint

/-- All events have been handled. -/
def Quiet (node : Node) : Prop := ∀ layer, node.point layer = .idle

theorem Sound.published_eq (hnode : Sound node) (hquiet : node.Quiet) : node.published.getD true =
      (node.status .settlement && node.status .da) := by
  have hflag (layer : Layer) : node.baseLayersHealthStatus.of layer = node.status layer := by
    have hknown := hnode.known layer
    rw [hquiet layer] at hknown
    exact hknown
  have hsettled (layer : Layer) : (node.point layer).Settled := by
    rw [hquiet layer]
    trivial
  have hhealth : node.published.getD true = node.health := by
    rw [health, hquiet, hquiet]
    rfl
  rw [hhealth]
  cases hboth : node.status .settlement && node.status .da with
  | true =>
    obtain ⟨hsettlement, hda⟩ := Bool.and_eq_true_iff.1 hboth
    apply hnode.healthy
    intro layer
    refine ⟨hsettled layer, (hflag layer).trans ?_⟩
    cases layer with
    | settlement => exact hsettlement
    | da => exact hda
  | false =>
    rcases Bool.and_eq_false_iff.1 hboth with hsettlement | hda
    · exact hnode.unhealthy .settlement (hsettled _) ((hflag _).trans hsettlement)
    · exact hnode.unhealthy .da (hsettled _) ((hflag _).trans hda)

end Node

/-- In every run in which no goroutine reads the flags while the other one is about to
publish, once all events have been handled the last health published is the
conjunction of the last statuses of the layers. -/
theorem published_health_eq (labels : List Label)
    (hturn : ∀ move ∈ Node.lts.path Node.lts.start labels, move.source.InTurn move.label) :
    ∀ move ∈ Node.lts.path Node.lts.start labels, move.target.Quiet →
      move.target.published.getD true =
        (move.target.status .settlement && move.target.status .da) := by
  have hstart : Node.Sound Node.lts.start := by
    refine ⟨fun _ => ?_, fun _ => .inl rfl, fun layer _ hfalse => ?_, fun _ => rfl⟩
    · rename_i layer
      cases layer <;> rfl
    · cases layer <;> cases hfalse
  have hstep (node : Node) (label : Label) (next : Node) (hnode : node.Sound)
      (hguard : node.InTurn label) (hnext : Node.lts.step node label = some next) :
      next.Sound := hnode.step hguard hnext
  intro move hmove hquiet
  obtain ⟨-, -, htarget⟩ := Lts.forall_path_of_guard hstep hstart hturn move hmove
  exact htarget.published_eq hquiet

namespace Reference

def wellAgain : HealthStatus := ⟨true, none, by decide⟩

def failure : HealthStatus := ⟨false, some "unreachable", by decide⟩

/-- The settlement layer reports that it is healthy, which is about to be published
when the data availability layer fails. -/
def overtaken : List Label := [.event .settlement wellAgain, .step .settlement, .step .settlement,
    .event .da failure, .step .da, .step .da, .step .da, .step .settlement]

def oneByOne : List Label := [.event .settlement wellAgain, .step .settlement, .step .settlement,
    .step .settlement, .event .da failure, .step .da, .step .da, .step .da]

def quiet (node : Node) : Bool :=
  match node.point .settlement, node.point .da with
  | .idle, .idle => true
  | _, _ => false

theorem quiet_of_quiet (hquiet : quiet node = true) : node.Quiet := by
  unfold quiet at hquiet
  split at hquiet
  · rename_i hsettlement hda
    intro layer
    cases layer with
    | settlement => exact hsettlement
    | da => exact hda
  · cases hquiet

def inTurn (node : Node) : Label → Bool
  | .event _ _ => true
  | .step layer =>
    match node.point layer with
    | .stored _ => (node.point layer.other).publishes = none
    | _ => true

theorem inTurn_of_inTurn {label : Label} (hturn : inTurn node label = true) :
    node.InTurn label := by
  cases label with
  | event layer event => trivial
  | step layer =>
    intro error healthy hpoint hother
    simp [inTurn, hpoint, hother, Point.publishes] at hturn

end Reference

open Reference in
/-- The node is published as healthy although the data availability layer has
failed. -/
theorem unhealthy_node_published_healthy :
    ∃ move ∈ Node.lts.path Node.lts.start overtaken, move.target.Quiet ∧
      move.target.published = some true ∧ move.target.status .settlement = true ∧
      move.target.status .da = false := by
  have hrun : (true, some true, true, false) ∈
      (Node.lts.path Node.lts.start overtaken).map fun move =>
        (quiet move.target, move.target.published, move.target.status .settlement,
          move.target.status .da) := by
    decide +kernel
  obtain ⟨move, hmove, hview⟩ := List.mem_map.1 hrun
  simp only [Prod.mk.injEq] at hview
  obtain ⟨hquiet, hpublished, hsettlement, hda⟩ := hview
  exact ⟨move, hmove, quiet_of_quiet hquiet, hpublished, hsettlement, hda⟩

open Reference in
/-- Handled one by one, the same events end with an unhealthy node. -/
theorem published_health_eq_reference : (∀ move ∈ Node.lts.path Node.lts.start oneByOne,
      move.source.InTurn move.label) ∧
    ∃ move ∈ Node.lts.path Node.lts.start oneByOne, move.target.Quiet ∧
      move.target.status .da = false ∧
      move.target.published.getD true =
        (move.target.status .settlement && move.target.status .da) := by
  have hall : (Node.lts.path Node.lts.start oneByOne).all
      (fun move => inTurn move.source move.label) = true := by
    decide +kernel
  have hturn : ∀ move ∈ Node.lts.path Node.lts.start oneByOne, move.source.InTurn move.label :=
    fun move hmove => inTurn_of_inTurn (List.all_eq_true.1 hall move hmove)
  have hrun : (true, false) ∈ (Node.lts.path Node.lts.start oneByOne).map fun move =>
      (quiet move.target, move.target.status .da) := by
    decide +kernel
  obtain ⟨move, hmove, hview⟩ := List.mem_map.1 hrun
  simp only [Prod.mk.injEq] at hview
  have hquiet := quiet_of_quiet hview.1
  exact ⟨hturn, move, hmove, hquiet, hview.2, published_health_eq oneByOne hturn move hmove hquiet⟩

end Dymint.Health
