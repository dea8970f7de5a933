import Dymint.Block.Heights
import Dymint.Block.Reference

/-!
# Exactly-once commits

A restart brings the manager back to heights that fit the application, and so
every height is committed once and in order, over any sequence of calls, with
any of their steps failing and with crashes anywhere.
-/

namespace Dymint.Manager

open Procedure Dymint.Types Store CrashSystem

variable {α β : Type} {rules : Proc.Rules (Node α) Answer} {node : Node α}

/-! ## Starting the manager -/

def ReadyWith (state : State) (node : Node α) (lost : Prop) : Prop :=
  Core.Idle { node.core with memory := stateProgress state } lost

variable {state : State} {lost : Prop}

theorem ReadyWith.always (hready : ReadyWith state node lost) : node.core.Always lost where
  toDurable := hready.toDurable
  height_le := (Core.Idle.always hready).height_le
  app_le := (Core.Idle.always hready).app_le

variable {tm : Tendermint}

theorem ReadyWith.store {message : Pb.State} (hready : ReadyWith state node lost)
    (hmessage : state.toProto tm = .ok message) :
    ReadyWith state { node with db := node.db.apply ⟨.state, some message⟩ } lost := by
  apply Core.Idle.of_eq (Core.Idle.persist hready)
  simp [Node.core, Core.persist, toProto_progress hmessage]

theorem not_one_lt_of_toNat_le {height : Int64} (hle : height.toUInt64.toNat ≤ 1) :
    ¬ height > 1 := by
  have hcases : height.toUInt64 = 0 ∨ height.toUInt64 = 1 := by
    rw [← UInt64.toNat_inj, ← UInt64.toNat_inj]
    simp only [UInt64.toNat_zero, UInt64.toNat_one]
    omega
  rw [← Int64.toInt64_toUInt64 height]
  rcases hcases with h | h
  · rw [h]
    decide
  · rw [h]
    decide

/-- The rule for old state files does not apply to states that fit. -/
theorem Progress.Tracks.not_legacy {progress : Progress} {app : UInt64}
    (htracks : progress.Tracks progress.lastStoreHeight app lost) :
    ¬ (progress.lastStoreHeight = 0 ∧ progress.lastBlockHeight > 1) := by
  rintro ⟨hzero, hblock⟩
  apply not_one_lt_of_toNat_le _ hblock
  have hlast := htracks.lastBlock
  rw [hzero, UInt64.toNat_zero] at hlast
  rcases hlast with hsame | hnext | ⟨_, hnone⟩
  · omega
  · omega
  · rw [hnone]
    decide

theorem fromProto_progress {pb : Pb.State} {app : UInt64}
    (hpb : (pbProgress pb).Tracks pb.lastStoreHeight app lost)
    (hstate : State.fromProto tm pb = .ok state) : stateProgress state = pbProgress pb := by
  obtain ⟨_, _, _, _, _, _, _, _, _, _, rfl⟩ := State.fromProto_eq_ok.1 hstate
  have hlegacy : ¬ (pb.lastStoreHeight = 0 ∧ pb.lastBlockHeight > 1) := hpb.not_legacy
  rw [stateProgress, pbProgress, State.ofMessage, Pb.State.storeHeight, if_neg hlegacy]

theorem loadState_progress (hdown : node.core.Down lost)
    (hload : loadState tm node.db = .ok state) :
    node.core.persisted = some (stateProgress state) := by
  unfold loadState at hload
  cases hpersisted : node.db .state with
  | none => simp [hpersisted] at hload
  | some pb =>
    have hrecord : node.core.persisted = some (pbProgress pb) := by
      simp [Node.core, hpersisted]
    cases hstate : State.fromProto tm pb with
    | panic | err => simp [hpersisted, hstate, wrapErr, Result.mapErr] at hload
    | ok loaded =>
      obtain rfl : loaded = state := by
        simpa [hpersisted, hstate, wrapErr, Result.mapErr] using hload
      rw [hrecord, fromProto_progress (hdown.tracks _ hrecord) hstate]

theorem loadState_tracks (hdown : node.core.Down lost) (hload : loadState tm node.db = .ok state) :
    (stateProgress state).Tracks state.lastStoreHeight node.core.appHeight lost :=
  hdown.tracks _ (loadState_progress hdown hload)

theorem appHeight_of_missing (hdown : node.core.Down lost) (hmissing : node.db .state = none) :
    node.core.appHeight = 0 :=
  hdown.fresh (by simp [Node.core, hmissing])

theorem genesis_ready (env : Env α) (hdown : node.core.Down lost)
    (hmissing : node.db .state = none ∨ lost) :
    ReadyWith (newFromGenesisDoc env.tm env.genesis) (node.loaded node.height node.baseHeight)
      lost where
  toDurable := hdown.toDurable
  memory := by
    have hheight : node.core.height = 0 := hdown.height
    change Progress.Tracks _ node.core.height node.core.appHeight lost
    rw [hheight]
    refine ⟨env.genesis.initialHeight_pos, Or.inl rfl, le_rfl, Nat.zero_le _, ?_, Or.inl rfl, ?_⟩
    · exact hmissing.imp (fun hnone => by simp [appHeight_of_missing hdown hnone])
        fun hlost => ⟨hlost, rfl⟩
    · intro hahead
      rcases hmissing with hnone | hlost
      · simp [appHeight_of_missing hdown hnone] at hahead
      · exact Or.inr ⟨hlost, rfl⟩

theorem InitialState.ready {env : Env α} {height base : UInt64}
    (hstate : InitialState env lost node state height base) (hdown : node.core.Down lost) :
    ReadyWith state (node.loaded height base) lost := by
  cases hstate with
  | loaded hload =>
    have htracks := loadState_tracks hdown hload
    exact ⟨hdown.toDurable, htracks⟩
  | genesis hmissing => exact genesis_ready env hdown hmissing

theorem updateInitChainState_progress (env : Env α) (state : State) (response : ResponseInitChain)
    (validators : List Validator) :
    stateProgress (updateInitChainState env state response validators) = stateProgress state := by
  unfold updateInitChainState
  dsimp only
  split <;> split <;> rfl

theorem updateInitChainState_sets (env : Env α) (state : State) (response : ResponseInitChain)
    (validators : List Validator) :
    let set := env.tm.incrementProposerPriority (env.tm.newValidatorSet validators)
    let initialised := updateInitChainState env state response validators
    initialised.nextValidators = set ∧ initialised.validators = set ∧
      initialised.lastValidators = set ∧
      initialised.lastBlockID = state.lastBlockID := by
  unfold updateInitChainState
  dsimp only
  split <;> split <;> exact ⟨rfl, rfl, rfl, rfl⟩

theorem core_initChain (env : Env α) (node : Node α) : (node.initChain env).core = node.core :=
  ignoresCalls_core node _ .initChain (by simp)

/-- No answer makes `LoadState` fail while a state is stored, unless a state may be
lost. -/
def LoadsStates (allowed : Node α → Answer → Prop) (lost : Prop) : Prop :=
  ∀ node answer, allowed node answer → LoadsStored node answer ∨ lost

theorem LoadsStates.read {allowed : Node α → Answer → Prop} (hloads : LoadsStates allowed lost)
    (hdown : node.core.Down lost) {answer : Answer} (hallowed : allowed node answer)
    (hfault : answer ≠ .ok) : node.db .state = none ∨ lost := by
  refine (hloads node answer hallowed).imp_left fun hstored => ?_
  by_contra hsome
  exact hfault (hstored hdown.unread (Option.isSome_iff_ne_none.2 hsome))

theorem bootSpec_heights (env : Env α)
    (hrules : ∀ node : Node α, node.core.Always lost → rules.crash node)
    (hread : ∀ answer, rules.allowed node answer → answer ≠ .ok → node.db .state = none ∨ lost)
    (hdown : node.core.Down lost) :
    BootSpec env rules lost (fun later => later.core.Idle lost)
      (fun later => later.core.Always lost) node where
  start := hrules _ hdown.always
  read := hread
  loading height base hheight := by
    suffices halways : (node.loaded height base).core.Always lost from
      ⟨hrules _ halways, halways⟩
    rcases hheight with rfl | ⟨state, hload, rfl⟩
    · exact ⟨hdown.toDurable, hdown.always.height_le, hdown.always.app_le⟩
    · exact ((InitialState.loaded hload).ready hdown).always
  resume _ _ _ hstate _ := hstate.ready hdown
  initialised state height base hstate _ := by
    have hready : ReadyWith (initialisedState env node state)
        (Node.initChain env (node.loaded height base)) lost := by
      rw [ReadyWith, core_initChain, initialisedState, updateInitChainState_progress]
      exact hstate.ready hdown
    refine ⟨hrules _ hready.always, hready.always, fun message _ hmessage => ?_⟩
    have hrecorded := hready.store hmessage
    exact ⟨hrules _ hrecorded.always, hrecorded.always, hrecorded⟩

theorem wp_newManager (env : Env α)
    (hrules : ∀ node : Node α, node.core.Always lost → rules.crash node)
    (hloads : LoadsStates rules.allowed lost) (hdown : node.core.Down lost) :
    (newManager env).wp rules
      (Proc.Ends (fun _ later => later.core.Idle lost) (fun later => later.core.Always lost)
        fun later => later.core.Always lost) node :=
  wp_newManager_of (bootSpec_heights env hrules (fun _ => hloads.read hdown) hdown)

/-! ## Runs -/

theorem crash_committed : (crash node).core.committed = node.core.committed :=
  committedHeights_log (by simp)

theorem crash_core (hnode : node.core.Always lost) : (crash node).core.Down lost where
  committed := hnode.committed.imp_left crash_committed.trans
  uncommitted hnone := hnode.uncommitted (crash_committed.symm.trans hnone)
  bounded := hnode.bounded
  fresh := hnode.fresh
  tracks := hnode.tracks
  height := rfl
  unread := rfl

theorem freshNode_down (app : α) : (freshNode app).core.Down lost where
  committed := Or.inl rfl
  uncommitted _ := rfl
  bounded := by
    simp only [freshNode, Node.core]
    decide
  fresh _ := rfl
  tracks := by simp [freshNode, Node.core, Db.empty]
  height := rfl
  unread := rfl

/-- The heights keep the invariant in every run, also in runs whose moves are
restricted. -/
theorem heights_certificate (env : Env α) (app : α) {guard : Guard (Node α) Answer Request}
    (hloads : LoadsStates guard.answer lost) :
    Certificate (system env) guard (freshNode app)
      (fun node => node.core.Idle lost) (fun node => node.core.Always lost)
      (fun node => node.core.Down lost) where
  start := freshNode_down app
  always_of_durable _ hdown := hdown.always
  always_of_idle _ hidle := hidle.always
  crash _ halways _ := crash_core halways
  boot _ hdown := wp_newManager env (fun _ h => h) hloads hdown
  serve _ request hidle _ := (heights_serve env fun _ h => h).serve request (fun _ _ => hidle) hidle

/-- The runs in which `LoadState` does not fail while a state is stored. -/
def loadGuard : Guard (Node α) Answer Request where
  answer := LoadsStored
  call _ _ := True
  crash _ := True

instance (node : Node α) (label : Label Answer Request) :
    Decidable (loadGuard.Permits node label) :=
  loadGuard.decidablePermits node (fun _ => inferInstanceAs (Decidable (LoadsStored _ _)))
    (fun _ => .isTrue trivial) (.isTrue trivial) label

theorem loadsStates_loadGuard : LoadsStates (loadGuard (α := α)).answer False := fun _ _ => Or.inl

/-- In every state of every run, the heights that the application has committed
are the initial height and its successors up to the last one, and the store is
not ahead of it, as long as `LoadState` does not fail while a state is stored. -/
theorem commits_exactly_once (env : Env α) (app : α) (hgenesis : env.genesis.initialHeight = 1)
    {config : Config (Node α) Answer Error}
    (hreach : Reachable (system env) loadGuard (freshNode app) config) :
    committedHeights config.state.app.calls = List.range' env.genesis.initialHeight.toUInt64.toNat
          config.state.app.lastBlockHeight.toUInt64.toNat ∧
      config.state.height.toNat ≤ config.state.app.lastBlockHeight.toUInt64.toNat := by
  have halways := (heights_certificate env app loadsStates_loadGuard).sound hreach
  rw [hgenesis]
  exact ⟨halways.committed.resolve_right id, halways.height_le⟩

open Reference

/-- After two blocks and a crash, `LoadState` fails: the manager starts from the
genesis document, and the application executes and commits the first block again. -/
theorem height_committed_twice : ∃ config, ReachableNode Reference.env [] config ∧
    committedHeights config.state.app.calls = [1, 2, 1] :=
  exists_reachableNode (secondDelivered ++ lostBoot ++
    .call (Reference.deliver poolFirst) :: Reference.steps 26) (by decide +kernel)

def crashAfterCommit : List (Label Answer Request) :=
  firstBoot ++ .call (produceAt 5 [[1]]) :: Reference.steps 23 ++ [.crash]

theorem commits_exactly_once_reference : Reference.env.genesis.initialHeight = 1 ∧
      ∃ config, Reachable (system Reference.env) loadGuard (freshNode []) config ∧
        config.state.app.lastBlockHeight = 1 ∧
        committedHeights config.state.app.calls =
          List.range' Reference.env.genesis.initialHeight.toUInt64.toNat
            config.state.app.lastBlockHeight.toUInt64.toNat ∧
        config.state.height.toNat ≤ config.state.app.lastBlockHeight.toUInt64.toNat := by
  have hrun : ((system Reference.env).runGuarded loadGuard ⟨freshNode [], .down⟩
      crashAfterCommit).map (fun config => config.state.app.lastBlockHeight) =
      some 1 := by decide
  obtain ⟨config, hreach, hheight⟩ := exists_reachable_of_runGuarded crashAfterCommit hrun
  exact ⟨rfl, config, hreach, hheight, commits_exactly_once Reference.env [] rfl hreach⟩

end Dymint.Manager
