import Dymint.Core.Channels
import Dymint.Core.Runs
import Mathlib.Data.Nat.Basic
import Mathlib.Order.Basic

/-!
# The sync target

Two goroutines set `Manager.syncTarget`: `waitForSync` asks the settlement layer for
its latest batch once, and `SyncTargetLoop` subscribes to acceptance events, asks for
the latest batch once and then follows the events.  Between asking and storing the
answer the settlement layer may accept further batches.  The event of a batch takes its
time: the websocket delivers it to `eventHandler`, which publishes it for
`stateUpdatesHandler`, which publishes it for `SyncTargetLoop`.
-/

namespace Dymint.SyncTarget

open Runs Channels

/-- `SyncTargetLoop`; nothing is stored if the query failed or found no batch. -/
inductive LoopPoint where
  | starting
  | subscribed
  | queried (endHeight : Option UInt64)
  | running
  | ended
  deriving DecidableEq

/-- `waitForSync`, up to the point from which it only reads. -/
inductive WaitPoint where
  | starting
  | queried (endHeight : Option UInt64)
  | released
  | failed
  deriving DecidableEq

/-- `stateUpdatesHandler`. -/
inductive HandlerPoint where
  | running
  | publishing (endHeight : UInt64)
  | ended

def HandlerPoint.holds : HandlerPoint → List UInt64
  | .publishing endHeight => [endHeight]
  | .running | .ended => []

/-- The end heights of the accepted batches, the acceptances that the websocket has not
delivered (the oldest first), the subscriptions of `stateUpdatesHandler` and of
`SyncTargetLoop`, the goroutines, and the end heights that were stored in the sync
target. -/
structure Manager where
  accepted : List UInt64
  websocket : List UInt64
  stateUpdates : Subscription UInt64 1
  handler : HandlerPoint
  newBatches : Option (Subscription UInt64 1)
  loop : LoopPoint
  wait : WaitPoint
  syncTarget : UInt64
  handled : List UInt64

/-- The settlement layer accepts a batch, `eventHandler` publishes the next event, a step
of `stateUpdatesHandler`, or a step of one of the two goroutines. -/
inductive Label where
  | accept (endHeight : UInt64)
  | announce
  | handlerEvent
  | handlerPublish
  | handlerCancelled
  | subscribe
  | loopQuery (failed : Bool)
  | loopStore
  | event
  | cancelled
  | waitQuery (failed : Bool)
  | waitStore

variable {endHeight : UInt64}

namespace Manager

def updateSyncParams (manager : Manager) (endHeight : UInt64) : Manager :=
  { manager with
    syncTarget := endHeight
    handled := manager.handled ++ [endHeight] }

/-- What `waitForSync` stores without any batch. -/
def initialTarget (initialHeight : Int64) : UInt64 := (initialHeight - 1).toUInt64

def startHeight (manager : Manager) : UInt64 := manager.syncTarget + 1

/-- The events on their way, those that reach `SyncTargetLoop` first in front. -/
def transit (manager : Manager) : List UInt64 :=
  manager.newBatches.elim [] (·.out.buffer) ++ (manager.handler.holds ++
    (manager.stateUpdates.out.buffer ++ manager.websocket))

/-- `eventHandler`. -/
def announce (manager : Manager) : Option Manager :=
  match manager.websocket with
  | [] => none
  | endHeight :: websocket =>
    some { manager with
      websocket := websocket
      stateUpdates := manager.stateUpdates.publish endHeight }

def step (initialHeight : Int64) (manager : Manager) : Label → Option Manager
  | .accept endHeight =>
    if manager.accepted.all fun earlier => earlier < endHeight then
      some { manager with
        accepted := manager.accepted ++ [endHeight]
        websocket := manager.websocket ++ [endHeight] }
    else none
  | .announce => manager.announce
  | .handlerEvent =>
    match manager.handler with
    | .running =>
      manager.stateUpdates.out.receive.map fun (endHeight, out) =>
        { manager with
          stateUpdates := { manager.stateUpdates with out := out }
          handler := .publishing endHeight }
    | _ => none
  | .handlerPublish =>
    match manager.handler with
    | .publishing endHeight =>
      some { manager with
        newBatches := manager.newBatches.map (·.publish endHeight)
        handler := .running }
    | _ => none
  | .handlerCancelled =>
    match manager.handler with
    | .running =>
      if manager.stateUpdates.cancelled then some { manager with handler := .ended } else none
    | _ => none
  | .subscribe =>
    match manager.loop with
    | .starting =>
      some { manager with
        newBatches := some (.new UInt64 1)
        loop := .subscribed }
    | _ => none
  | .loopQuery failed =>
    match manager.loop with
    | .subscribed =>
      some { manager with
        loop := .queried (if failed then none else manager.accepted.getLast?) }
    | _ => none
  | .loopStore =>
    match manager.loop with
    | .queried none => some { manager with loop := .running }
    | .queried (some endHeight) =>
      some { manager.updateSyncParams endHeight with loop := .running }
    | _ => none
  | .event =>
    match manager.loop, manager.newBatches with
    | .running, some subscription =>
      subscription.out.receive.map fun (endHeight, out) =>
        { manager.updateSyncParams endHeight with
          newBatches := some { subscription with out := out } }
    | _, _ => none
  | .cancelled =>
    match manager.loop, manager.newBatches with
    | .running, some subscription =>
      if subscription.cancelled then some { manager with loop := .ended } else none
    | _, _ => none
  | .waitQuery failed =>
    match manager.wait with
    | .starting =>
      some { manager with
        wait := if failed then .failed else .queried manager.accepted.getLast? }
    | _ => none
  | .waitStore =>
    match manager.wait with
    | .queried none =>
      some { manager with
        syncTarget := initialTarget initialHeight
        wait := .released }
    | .queried (some endHeight) =>
      some { manager.updateSyncParams endHeight with wait := .released }
    | _ => none

def lts (initialHeight : Int64) : Lts Manager Label where
  start :=
    { accepted := []
      websocket := []
      stateUpdates := .new UInt64 1
      handler := .running
      newBatches := none
      loop := .starting
      wait := .starting
      syncTarget := 0
      handled := [] }
  step := step initialHeight

/-- An answer of the settlement layer has not been stored yet. -/
def Asked (manager : Manager) : Prop :=
  (∃ endHeight, manager.loop = .queried endHeight) ∨ ∃ endHeight, manager.wait = .queried endHeight

/-- No batch is accepted while an answer waits to be stored, and nothing is asked while
the event of an older batch is on its way. -/
def Timely (initialHeight : Int64) (manager : Manager) : Label → Prop
  | .accept endHeight =>
    ¬ manager.Asked ∧ initialTarget initialHeight ≤ endHeight ∧ endHeight < endHeight + 1
  | .loopQuery _ | .waitQuery _ =>
    ∀ endHeight ∈ manager.transit, manager.accepted.getLast? = some endHeight
  | _ => True

/-! ## The invariant -/

def top (initialHeight : Int64) (manager : Manager) : UInt64 :=
  manager.accepted.getLast?.getD (initialTarget initialHeight)

structure Sound (initialHeight : Int64) (manager : Manager) : Prop where
  accepted_le : ∀ endHeight ∈ manager.accepted,
    endHeight.toNat ≤ (manager.top initialHeight).toNat ∧ endHeight < endHeight + 1
  initial_le : (initialTarget initialHeight).toNat ≤ (manager.top initialHeight).toNat
  target_le : manager.syncTarget.toNat ≤ (manager.top initialHeight).toNat
  handled : ∀ endHeight ∈ manager.handled,
    endHeight ∈ manager.accepted ∧ endHeight.toNat ≤ manager.syncTarget.toNat
  sorted : manager.transit.Pairwise fun earlier later => earlier.toNat < later.toNat
  transit : ∀ endHeight ∈ manager.transit,
    endHeight ∈ manager.accepted ∧ manager.syncTarget.toNat ≤ endHeight.toNat
  loop : ∀ endHeight, manager.loop = .queried (some endHeight) →
    manager.accepted.getLast? = some endHeight
  wait : ∀ endHeight, manager.wait = .queried endHeight → manager.accepted.getLast? = endHeight
  latest : manager.Asked → ∀ endHeight ∈ manager.transit, manager.accepted.getLast? = some endHeight

variable {initialHeight : Int64} {manager next : Manager}

theorem top_of_getLast? (hlast : manager.accepted.getLast? = some endHeight) :
    manager.top initialHeight = endHeight := by
  rw [top, hlast]
  rfl

theorem top_of_nil (hnone : manager.accepted.getLast? = none) :
    manager.top initialHeight = initialTarget initialHeight := by
  rw [top, hnone]
  rfl

section

variable (hmanager : Sound initialHeight manager)

include hmanager

variable {loop : LoopPoint}

theorem Sound.store (hlast : manager.accepted.getLast? = some endHeight)
    (hlatest : ∀ event ∈ manager.transit, manager.accepted.getLast? = some event)
    {wait : WaitPoint} (hloop : ∀ endHeight, loop = .queried endHeight → manager.loop = loop)
    (hwait : ∀ endHeight, wait = .queried endHeight → manager.wait = wait) :
    Sound initialHeight { manager.updateSyncParams endHeight with
        loop := loop, wait := wait } ∧
      manager.syncTarget.toNat ≤ endHeight.toNat := by
  have htop : manager.top initialHeight = endHeight := top_of_getLast? hlast
  have hle : manager.syncTarget.toNat ≤ endHeight.toNat := htop ▸ hmanager.target_le
  refine ⟨⟨hmanager.accepted_le, hmanager.initial_le, htop ▸ le_rfl, ?_, hmanager.sorted, ?_,
    ?_, ?_, ?_⟩, hle⟩
  · intro stored hstored
    rcases List.mem_append.1 hstored with hold | hnew
    · obtain ⟨hmem, hbelow⟩ := hmanager.handled stored hold
      exact ⟨hmem, hbelow.trans hle⟩
    · rw [List.mem_singleton.1 hnew]
      exact ⟨List.mem_of_getLast? hlast, le_rfl⟩
  · intro event hevent
    have hsame := Option.some.inj (hlast.symm.trans (hlatest event hevent))
    exact ⟨(hmanager.transit event hevent).1, hsame ▸ le_rfl⟩
  · intro asked hasked
    dsimp only at hasked
    exact hmanager.loop asked ((hloop _ hasked).trans hasked)
  · intro asked hasked
    dsimp only at hasked
    exact hmanager.wait asked ((hwait _ hasked).trans hasked)
  · intro _
    exact hlatest

/-- Without any batch there is no event, and nothing has been stored. -/
theorem Sound.storeInitial (hwait : manager.wait = .queried none) :
    Sound initialHeight { manager with
        syncTarget := initialTarget initialHeight, wait := .released } ∧
      manager.syncTarget.toNat ≤ (initialTarget initialHeight).toNat := by
  have hlast := hmanager.wait none hwait
  have hnone : manager.accepted = [] := List.getLast?_eq_none_iff.1 hlast
  have htop : manager.top initialHeight = initialTarget initialHeight := top_of_nil hlast
  have hlatest := hmanager.latest (.inr ⟨_, hwait⟩)
  have hle : manager.syncTarget.toNat ≤ (initialTarget initialHeight).toNat :=
    htop ▸ hmanager.target_le
  have habsent {endHeight : UInt64} (hmem : endHeight ∈ manager.accepted) : False := by
    rw [hnone] at hmem
    cases hmem
  refine ⟨⟨hmanager.accepted_le, hmanager.initial_le, hmanager.initial_le, ?_,
    hmanager.sorted, ?_, hmanager.loop, ?_, fun _ => hlatest⟩, hle⟩
  · intro stored hstored
    exact (habsent (hmanager.handled stored hstored).1).elim
  · intro event hevent
    exact (habsent (hmanager.transit event hevent).1).elim
  · intro asked hasked
    cases hasked

/-- A goroutine goes on without storing anything. -/
theorem Sound.goOn {wait : WaitPoint}
    (hloop : ∀ endHeight, loop = .queried (some endHeight) →
      manager.accepted.getLast? = some endHeight)
    (hwait : ∀ endHeight, wait = .queried endHeight → manager.accepted.getLast? = endHeight)
    (hlatest : Asked { manager with loop := loop, wait := wait } →
      ∀ event ∈ manager.transit, manager.accepted.getLast? = some event) :
    Sound initialHeight { manager with loop := loop, wait := wait } :=
  ⟨hmanager.accepted_le, hmanager.initial_le, hmanager.target_le, hmanager.handled,
    hmanager.sorted, hmanager.transit, hloop, hwait, hlatest⟩

/-- `SyncTargetLoop` goes on to a point where it does not wait for an answer. -/
theorem Sound.goOn_loop (hloop : ∀ endHeight, loop ≠ .queried endHeight) :
    Sound initialHeight { manager with loop := loop } := by
  apply hmanager.goOn _ hmanager.wait
  · rintro (⟨endHeight, hasked⟩ | hasked)
    · exact absurd hasked (hloop endHeight)
    · exact hmanager.latest (.inr hasked)
  · intro endHeight hasked
    exact absurd hasked (hloop _)

/-- An event moves on, or is dropped. -/
theorem Sound.relay {websocket : List UInt64} {stateUpdates : Subscription UInt64 1}
    {handler : HandlerPoint} {newBatches : Option (Subscription UInt64 1)}
    (hsublist : List.Sublist (Manager.transit { manager with
        websocket := websocket, stateUpdates := stateUpdates
        handler := handler, newBatches := newBatches }) manager.transit) :
    Sound initialHeight { manager with
      websocket := websocket, stateUpdates := stateUpdates
      handler := handler, newBatches := newBatches } where
  accepted_le := hmanager.accepted_le
  initial_le := hmanager.initial_le
  target_le := hmanager.target_le
  handled := hmanager.handled
  sorted := hmanager.sorted.sublist hsublist
  transit event hevent := hmanager.transit event (hsublist.subset hevent)
  loop := hmanager.loop
  wait := hmanager.wait
  latest hasked event hevent := hmanager.latest hasked event (hsublist.subset hevent)

theorem Sound.accept (htimely : manager.Timely initialHeight (.accept endHeight))
    (hincreases : ∀ earlier ∈ manager.accepted, earlier < endHeight) :
    Sound initialHeight { manager with
      accepted := manager.accepted ++ [endHeight]
      websocket := manager.websocket ++ [endHeight] } := by
  obtain ⟨hasked, hinitial, hbound⟩ := htimely
  have hlt (earlier : UInt64) (hearlier : earlier ∈ manager.accepted) :
      earlier.toNat < endHeight.toNat :=
    UInt64.lt_iff_toNat_lt.1 (hincreases earlier hearlier)
  have htop : (manager.top initialHeight).toNat ≤ endHeight.toNat := by
    cases hlast : manager.accepted.getLast? with
    | none =>
      rw [top_of_nil hlast]
      exact UInt64.le_iff_toNat_le.1 hinitial
    | some latest =>
      rw [top_of_getLast? hlast]
      exact (hlt latest (List.mem_of_getLast? hlast)).le
  let later : Manager := { manager with
    accepted := manager.accepted ++ [endHeight]
    websocket := manager.websocket ++ [endHeight] }
  have hnewTop : later.top initialHeight = endHeight := top_of_getLast? List.getLast?_concat
  have htransit : later.transit = manager.transit ++ [endHeight] := by
    simp [later, Manager.transit]
  have hunasked : ¬ later.Asked := hasked
  refine ⟨?_, ?_, ?_, ?_, ?_, ?_, ?_, ?_, ?_⟩
  · intro batch hbatch
    change batch.toNat ≤ (later.top initialHeight).toNat ∧ _
    rw [hnewTop]
    rcases List.mem_append.1 hbatch with hold | hnew
    · exact ⟨(hlt batch hold).le, (hmanager.accepted_le batch hold).2⟩
    · rw [List.mem_singleton.1 hnew]
      exact ⟨le_rfl, hbound⟩
  · change _ ≤ (later.top initialHeight).toNat
    rw [hnewTop]
    exact UInt64.le_iff_toNat_le.1 hinitial
  · change _ ≤ (later.top initialHeight).toNat
    rw [hnewTop]
    exact hmanager.target_le.trans htop
  · intro stored hstored
    obtain ⟨hmem, hle⟩ := hmanager.handled stored hstored
    exact ⟨List.mem_append_left _ hmem, hle⟩
  · change later.transit.Pairwise _
    rw [htransit, List.pairwise_append]
    refine ⟨hmanager.sorted, List.pairwise_singleton _ _, ?_⟩
    intro event hevent other hother
    rw [List.mem_singleton.1 hother]
    exact hlt event (hmanager.transit event hevent).1
  · intro event hevent
    change event ∈ later.transit at hevent
    rw [htransit] at hevent
    rcases List.mem_append.1 hevent with hold | hnew
    · obtain ⟨hmem, hle⟩ := hmanager.transit event hold
      exact ⟨List.mem_append_left _ hmem, hle⟩
    · rw [List.mem_singleton.1 hnew]
      exact ⟨List.mem_append_right _ List.mem_cons_self, hmanager.target_le.trans htop⟩
  · intro asked hloop
    exact absurd (.inl ⟨_, hloop⟩) hunasked
  · intro asked hwait
    exact absurd (.inr ⟨_, hwait⟩) hunasked
  · intro h
    exact absurd h hunasked

theorem Sound.announce (hnext : manager.announce = some next) :
    Sound initialHeight next ∧ next.syncTarget = manager.syncTarget := by
  rw [Manager.announce] at hnext
  split at hnext
  · cases hnext
  · rename_i endHeight websocket hwebsocket
    obtain rfl := Option.some.inj hnext
    refine ⟨hmanager.relay ?_, rfl⟩
    apply List.Sublist.append_left
    apply List.Sublist.append_left
    have hpublish : List.Sublist _ (_ ++ websocket) :=
      (manager.stateUpdates.buffer_publish_sublist endHeight).append_right websocket
    rw [List.append_assoc] at hpublish
    rw [hwebsocket]
    exact hpublish

variable {out : Channel UInt64 1}

theorem Sound.handlerEvent (hhandler : manager.handler = .running)
    (hreceive : manager.stateUpdates.out.receive = some (endHeight, out)) :
    Sound initialHeight { manager with
      stateUpdates := { manager.stateUpdates with out := out }
      handler := .publishing endHeight } := by
  apply hmanager.relay
  rw [Manager.transit, Manager.transit, hhandler, Channel.buffer_of_receive hreceive]
  exact List.Sublist.refl _

theorem Sound.handlerPublish (hhandler : manager.handler = .publishing endHeight) :
    Sound initialHeight { manager with
      newBatches := manager.newBatches.map (·.publish endHeight)
      handler := .running } := by
  apply hmanager.relay
  rw [Manager.transit, Manager.transit, hhandler]
  have hpublish := (Subscription.waiting_publish_sublist manager.newBatches
    endHeight).append_right (manager.stateUpdates.out.buffer ++ manager.websocket)
  rw [List.append_assoc] at hpublish
  exact hpublish

theorem Sound.subscribe : Sound initialHeight { manager with
      newBatches := some (.new UInt64 1)
      loop := .subscribed } := by
  have hempty : Sound initialHeight { manager with newBatches := some (.new UInt64 1) } := by
    apply hmanager.relay
    exact List.sublist_append_right _ _
  exact hempty.goOn_loop fun _ => by simp

theorem Sound.event {subscription : Subscription UInt64 1}
    (hsubscription : manager.newBatches = some subscription)
    (hreceive : subscription.out.receive = some (endHeight, out)) :
    Sound initialHeight { manager.updateSyncParams endHeight with
        newBatches := some { subscription with out := out } } ∧
      manager.syncTarget.toNat ≤ endHeight.toNat := by
  let later : Manager := { manager.updateSyncParams endHeight with
    newBatches := some { subscription with out := out } }
  have htransit : manager.transit = endHeight :: later.transit := by
    simp only [later, Manager.transit, hsubscription, Option.elim_some,
      Channel.buffer_of_receive hreceive]
    rfl
  have hsorted := hmanager.sorted
  rw [htransit, List.pairwise_cons] at hsorted
  obtain ⟨hmem, hle⟩ := hmanager.transit endHeight (by rw [htransit]; simp)
  have hrest (event : UInt64) (hevent : event ∈ later.transit) : event ∈ manager.transit := by
    rw [htransit]
    exact List.mem_cons_of_mem _ hevent
  refine ⟨⟨hmanager.accepted_le, hmanager.initial_le, (hmanager.accepted_le _ hmem).1,
    ?_, hsorted.2, ?_, ?_, hmanager.wait, ?_⟩, hle⟩
  · intro stored hstored
    rcases List.mem_append.1 hstored with hold | hnew
    · obtain ⟨hmem', hbelow⟩ := hmanager.handled stored hold
      exact ⟨hmem', hbelow.trans hle⟩
    · rw [List.mem_singleton.1 hnew]
      exact ⟨hmem, le_rfl⟩
  · intro event hevent
    exact ⟨(hmanager.transit event (hrest event hevent)).1, (hsorted.1 event hevent).le⟩
  · exact hmanager.loop
  · intro hasked event hevent
    exact hmanager.latest hasked event (hrest event hevent)

theorem Sound.loopQuery (failed : Bool)
    (htimely : manager.Timely initialHeight (.loopQuery failed)) :
    Sound initialHeight { manager with
      loop := .queried (if failed then none else manager.accepted.getLast?) } := by
  refine hmanager.goOn ?_ hmanager.wait fun _ => htimely
  intro asked hasked
  cases failed with
  | true => cases hasked
  | false => exact LoopPoint.queried.inj hasked

theorem Sound.waitQuery (failed : Bool)
    (htimely : manager.Timely initialHeight (.waitQuery failed)) :
    Sound initialHeight { manager with
      wait := if failed then .failed else .queried manager.accepted.getLast? } := by
  refine hmanager.goOn hmanager.loop ?_ fun _ => htimely
  intro asked hasked
  cases failed with
  | true => cases hasked
  | false => exact WaitPoint.queried.inj hasked

theorem Sound.loopStore (hloop : manager.loop = .queried (some endHeight)) :
    Sound initialHeight { manager.updateSyncParams endHeight with loop := .running } ∧
      manager.syncTarget.toNat ≤ endHeight.toNat := by
  refine hmanager.store (hmanager.loop endHeight hloop)
    (hmanager.latest (.inl ⟨_, hloop⟩)) ?_ fun _ _ => rfl
  intro asked hasked
  cases hasked

theorem Sound.waitStore (hwait : manager.wait = .queried (some endHeight)) :
    Sound initialHeight { manager.updateSyncParams endHeight with wait := .released } ∧
      manager.syncTarget.toNat ≤ endHeight.toNat := by
  refine hmanager.store (hmanager.wait _ hwait)
    (hmanager.latest (.inr ⟨_, hwait⟩)) (fun _ _ => rfl) ?_
  intro asked hasked
  cases hasked

theorem Sound.step {label : Label} (htimely : manager.Timely initialHeight label)
    (hstep : step initialHeight manager label = some next) :
    Sound initialHeight next ∧ manager.syncTarget.toNat ≤ next.syncTarget.toNat := by
  cases label with
  | accept endHeight =>
    rw [Manager.step] at hstep
    obtain ⟨hall, hnext⟩ := Option.ite_none_right_eq_some.1 hstep
    have hincreases (earlier : UInt64) (hearlier : earlier ∈ manager.accepted) :
        earlier < endHeight :=
      of_decide_eq_true (List.all_eq_true.1 hall earlier hearlier)
    obtain rfl := Option.some.inj hnext
    exact ⟨hmanager.accept htimely hincreases, le_rfl⟩
  | announce =>
    obtain ⟨hsound, hsame⟩ := hmanager.announce hstep
    exact ⟨hsound, hsame ▸ le_rfl⟩
  | handlerEvent =>
    rw [Manager.step] at hstep
    split at hstep
    · rename_i hhandler
      obtain ⟨⟨endHeight, out⟩, hreceive, rfl⟩ := Option.map_eq_some_iff.1 hstep
      exact ⟨hmanager.handlerEvent hhandler hreceive, le_rfl⟩
    · cases hstep
  | handlerPublish =>
    rw [Manager.step] at hstep
    split at hstep
    · rename_i endHeight hhandler
      obtain rfl := Option.some.inj hstep
      exact ⟨hmanager.handlerPublish hhandler, le_rfl⟩
    · cases hstep
  | handlerCancelled =>
    rw [Manager.step] at hstep
    split at hstep
    · rename_i hhandler
      obtain ⟨-, hnext⟩ := Option.ite_none_right_eq_some.1 hstep
      obtain rfl := Option.some.inj hnext
      refine ⟨hmanager.relay ?_, le_rfl⟩
      rw [Manager.transit, Manager.transit, hhandler]
      exact List.Sublist.refl _
    · cases hstep
  | subscribe =>
    rw [Manager.step] at hstep
    split at hstep
    · obtain rfl := Option.some.inj hstep
      exact ⟨hmanager.subscribe, le_rfl⟩
    · cases hstep
  | loopQuery failed =>
    rw [Manager.step] at hstep
    split at hstep
    · obtain rfl := Option.some.inj hstep
      exact ⟨hmanager.loopQuery failed htimely, le_rfl⟩
    · cases hstep
  | loopStore =>
    rw [Manager.step] at hstep
    split at hstep
    · obtain rfl := Option.some.inj hstep
      exact ⟨hmanager.goOn_loop fun _ => by simp, le_rfl⟩
    · rename_i endHeight hloop
      obtain rfl := Option.some.inj hstep
      exact hmanager.loopStore hloop
    · cases hstep
  | event =>
    rw [Manager.step] at hstep
    split at hstep
    · rename_i subscription _ hsubscription
      obtain ⟨⟨endHeight, out⟩, hreceive, rfl⟩ := Option.map_eq_some_iff.1 hstep
      exact hmanager.event hsubscription hreceive
    · cases hstep
  | cancelled =>
    rw [Manager.step] at hstep
    split at hstep
    · obtain ⟨-, hnext⟩ := Option.ite_none_right_eq_some.1 hstep
      obtain rfl := Option.some.inj hnext
      exact ⟨hmanager.goOn_loop fun _ => by simp, le_rfl⟩
    · cases hstep
  | waitQuery failed =>
    rw [Manager.step] at hstep
    split at hstep
    · obtain rfl := Option.some.inj hstep
      exact ⟨hmanager.waitQuery failed htimely, le_rfl⟩
    · cases hstep
  | waitStore =>
    rw [Manager.step] at hstep
    split at hstep
    · rename_i hwait
      obtain rfl := Option.some.inj hstep
      exact hmanager.storeInitial hwait
    · rename_i endHeight hwait
      obtain rfl := Option.some.inj hstep
      exact hmanager.waitStore hwait
    · cases hstep

end

theorem lt_add_one_of_le {height bound : UInt64} (hle : height.toNat ≤ bound.toNat)
    (hbound : bound < bound + 1) : height.toNat < (height + 1).toNat := by
  have hone : (1 : UInt64).toNat = 1 := rfl
  rw [UInt64.lt_iff_toNat_lt, UInt64.toNat_add, hone] at hbound
  rw [UInt64.toNat_add, hone]
  have hlt := bound.toNat_lt
  omega

/-- The next batch starts after everything that was stored. -/
theorem Sound.lt_startHeight (hmanager : Sound initialHeight manager)
    (hhandled : endHeight ∈ manager.handled) : endHeight.toNat < manager.startHeight.toNat := by
  obtain ⟨hmem, hle⟩ := hmanager.handled endHeight hhandled
  cases hlast : manager.accepted.getLast? with
  | none =>
    rw [List.getLast?_eq_none_iff.1 hlast] at hmem
    cases hmem
  | some latest =>
    have htarget := hmanager.target_le
    rw [top_of_getLast? hlast] at htarget
    have hbound := (hmanager.accepted_le latest (List.mem_of_getLast? hlast)).2
    exact hle.trans_lt (lt_add_one_of_le htarget hbound)

end Manager

namespace Reference

/-- `waitForSync` asks before the second batch is accepted and stores the answer after
`SyncTargetLoop` has handled the second batch. -/
def lateStore : List Label :=
  [.accept 5, .waitQuery false, .accept 8, .subscribe, .loopQuery false, .loopStore, .waitStore]

/-- The next event reaches the subscription of `SyncTargetLoop`. -/
def delivered : List Label := [.announce, .handlerEvent, .handlerPublish]

/-- The event of the first batch arrives after `SyncTargetLoop` has asked for and
stored the second one. -/
def lateEvent : List Label :=
  [.accept 5, .accept 8, .subscribe, .loopQuery false, .loopStore] ++ delivered ++ [.event]

/-- The batches are accepted before the queries and after the answers are stored. -/
def inTime : List Label :=
  [.accept 5, .waitQuery false, .subscribe, .loopQuery false, .loopStore, .waitStore,
    .accept 8] ++ delivered ++ [.event] ++ delivered ++ [.event]

instance (manager : Manager) : Decidable manager.Asked :=
  decidable_of_iff (((match manager.loop with | .queried _ => true | _ => false) ||
    match manager.wait with | .queried _ => true | _ => false) = true) (by
      unfold Manager.Asked
      cases manager.loop <;> cases manager.wait <;> simp)

instance (initialHeight : Int64) (manager : Manager) (label : Label) :
    Decidable (manager.Timely initialHeight label) :=
  match label with
  | .accept _ => inferInstanceAs (Decidable (_ ∧ _))
  | .loopQuery _ | .waitQuery _ =>
    List.decidableBAll (fun endHeight =>
      manager.accepted.getLast? = some endHeight) manager.transit
  | .announce | .handlerEvent | .handlerPublish | .handlerCancelled | .subscribe | .loopStore
  | .event | .cancelled | .waitStore => .isTrue trivial

end Reference

end Dymint.SyncTarget
