import Dymint.Block.CallHistory

/-!
# Initialising the application

An application that has not committed a block has lost what `InitChain` told it
when the process restarts.  Whether `NewManager` sends `InitChain` again depends
on the persisted state, which counts the first block as the last one before the
application commits it.
-/

namespace Dymint.Manager

open Procedure Dymint.Types Store CrashSystem

/-! ## The property of the call history -/

def lifetime (calls : List AbciCall) : List AbciCall := calls.foldl (fun seen entry =>
    if entry = .restart then [] else seen ++ [entry]) []

variable {entry : AbciCall}

theorem lifetime_append (calls : List AbciCall) (hentry : entry ≠ .restart) :
    lifetime (calls ++ [entry]) = lifetime calls ++ [entry] := by
  simp [lifetime, hentry]

def InitialisedFirst (calls : List AbciCall) : Prop :=
  ∀ before height after, calls = before ++ .beginBlock height :: after →
    committedHeights before = [] → .initChain ∈ lifetime before

theorem initialisedFirst_nil : InitialisedFirst [] := by
  intro before height after heq
  simp at heq

variable {calls : List AbciCall}

theorem initialisedFirst_append (hcalls : InitialisedFirst calls)
    (hentry : ∀ height, entry = .beginBlock height → committedHeights calls = [] → .initChain ∈
      lifetime calls) : InitialisedFirst (calls ++ [entry]) := by
  intro before height after heq
  rcases List.eq_nil_or_concat after with hnil | ⟨rest, last, hconcat⟩
  · subst hnil
    obtain ⟨rfl, hlast⟩ := List.append_inj' heq rfl
    exact hentry height (List.cons.inj hlast).1
  · subst hconcat
    rw [List.concat_eq_append, ← List.cons_append, ← List.append_assoc] at heq
    exact hcalls before height rest (List.append_inj' heq rfl).1

/-- The next block may be begun. -/
structure Initialised (calls : List AbciCall) : Prop where
  first : InitialisedFirst calls
  now : committedHeights calls = [] → .initChain ∈ lifetime calls

theorem committedHeights_of_append (hnone : committedHeights (calls ++ [entry]) = []) :
    committedHeights calls = [] := by
  rw [committedHeights, List.filterMap_append] at hnone
  exact (List.append_eq_nil_iff.1 hnone).1

theorem Initialised.append (hcalls : Initialised calls) (hentry : entry ≠ .restart) :
    Initialised (calls ++ [entry]) where
  first := initialisedFirst_append hcalls.first fun _ _ => hcalls.now
  now hnone := by
    rw [lifetime_append calls hentry]
    exact List.mem_append_left _ (hcalls.now (committedHeights_of_append hnone))

/-- `InitChain` initialises the application for the current lifetime. -/
theorem InitialisedFirst.initChain (hcalls : InitialisedFirst calls) :
    Initialised (calls ++ [.initChain]) where
  first := initialisedFirst_append hcalls (by simp)
  now _ := by
    rw [lifetime_append calls (by simp)]
    simp

/-- A call of `applyBlock` sends no restart. -/
theorem During.initialised {α : Type} {env : Env α} {block : Block} {commit : Commit}
    {start later : Node α} {point : Point} (hduring : During env block commit start point later)
    (hstart : Initialised start.app.calls) : Initialised later.app.calls := by
  induction hduring with
  | start | hashed | saved => exact hstart
  | begun _ _ ih | delivered _ ih | ended _ ih | committed _ ih =>
    exact ih.append (by simp)
  | _ => assumption

/-! ## Runs -/

section

variable {α : Type} {env : Env α} {rules : Proc.Rules (Node α) Answer}
variable {node : Node α}

def CountsFirst (node : Node α) : Prop :=
  node.app.lastBlockHeight = 0 ∧ ∃ message ∈ node.db .state, message.lastBlockHeight ≠ 0

def firstBlockGuard : Guard (Node α) Answer Request where
  answer _ _ := True
  call _ _ := True
  crash node := ¬ CountsFirst node

instance (node : Node α) : Decidable (CountsFirst node) :=
  inferInstanceAs (Decidable (_ ∧ ∃ message ∈ node.db .state, message.lastBlockHeight ≠ 0))

instance (node : Node α) (label : Label Answer Request) :
    Decidable (firstBlockGuard.Permits node label) :=
  firstBlockGuard.decidablePermits node (fun _ => .isTrue trivial) (fun _ => .isTrue trivial)
    (inferInstanceAs (Decidable (¬ CountsFirst node))) label

theorem initialised_serve (env : Env α)
    (hrules : ∀ node : Node α, node.core.Always True ∧ Initialised node.app.calls →
      rules.crash node) :
    ServeInvariant env rules (fun node => node.core.Idle True ∧ Initialised node.app.calls)
      (fun node => node.core.Always True ∧ Initialised node.app.calls) where
  crash := hrules
  always_of_idle _ h := ⟨h.1.always, h.2⟩
  gossip _ _ _ h := h
  applyBlock _ _ _ h := wp_applyBlock_keeping hrules (fun _ h => ⟨h.1.always, h.2⟩)
    (height_lt_next h.1) h
    fun _ _ hnext hlater => ⟨hlater.idle h.1 hnext, hlater.initialised h.2⟩
  updateStateIndex _ index h := by
    apply Proc.wp_ends_and (wp_updateStateIndex env index (fun _ h => h) h.1)
    · exact wp_updateStateIndex_keeping (fun _ h => h) (fun _ h => h) h.2 h.2 fun _ _ => h.2
    · intro later halways hinit
      exact hrules later ⟨halways, hinit⟩

structure Restartable (node : Node α) : Prop where
  first : InitialisedFirst node.app.calls
  initial : committedHeights node.app.calls = [] →
    ∀ message ∈ node.db .state, message.lastBlockHeight = 0

theorem loadState_lastBlockHeight {tm : Tendermint} {state : State}
    (hinitial : ∀ message ∈ node.db .state, message.lastBlockHeight = 0)
    (hload : loadState tm node.db = .ok state) : state.lastBlockHeight = 0 := by
  unfold loadState at hload
  cases hpersisted : node.db .state with
  | none => simp [hpersisted] at hload
  | some message =>
    have hstate : State.fromProto tm message = .ok state := by
      cases hstate : State.fromProto tm message <;> simp_all [wrapErr, Result.mapErr]
    obtain ⟨_, _, _, _, _, _, _, _, _, _, rfl⟩ := State.fromProto_eq_ok.1 hstate
    exact hinitial message hpersisted

theorem bootSpec_initialised (hgenesis : env.genesis.initialHeight = 1)
    (hrules : ∀ node : Node α, InitialisedFirst node.app.calls → rules.crash node)
    (hnode : Restartable node) :
    BootSpec env rules True (fun later => Initialised later.app.calls)
      (fun later => InitialisedFirst later.app.calls) node where
  start := hrules _ hnode.first
  read _ _ _ := Or.inr trivial
  loading _ _ _ := ⟨hrules _ hnode.first, hnode.first⟩
  resume state height base hstate hblocks := by
    refine ⟨hnode.first, fun hnone => absurd ?_ hblocks⟩
    have hzero : state.lastBlockHeight = 0 := by
      cases hstate with
      | loaded hload => exact loadState_lastBlockHeight (hnode.initial hnone) hload
      | genesis hload => rfl
    rw [hzero, hgenesis]
    rfl
  initialised state height base _ _ := by
    have hinit := hnode.first.initChain
    exact ⟨hrules _ hinit.first, hinit.first, fun _ _ _ =>
      ⟨hrules _ hinit.first, hinit.first, hinit⟩⟩

theorem restartable_crash (hnode : node.core.Always True) (hfirst : InitialisedFirst node.app.calls)
    (hguard : ¬ CountsFirst node) : Restartable (crash node) where
  first := initialisedFirst_append hfirst (by simp)
  initial := by
    intro hnone message hmessage
    have happ : node.app.lastBlockHeight = 0 := by
      have hzero : node.app.lastBlockHeight.toUInt64 = 0 :=
        hnode.uncommitted (committedHeights_of_append hnone)
      rw [← Int64.toInt64_toUInt64 node.app.lastBlockHeight, hzero]
      rfl
    by_contra hblock
    exact hguard ⟨happ, message, hmessage, hblock⟩

theorem initialised_certificate (env : Env α) (app : α) (hgenesis : env.genesis.initialHeight = 1) :
    Certificate (system env) firstBlockGuard (freshNode app)
      (fun node => node.core.Idle True ∧ Initialised node.app.calls)
      (fun node => node.core.Always True ∧ InitialisedFirst node.app.calls)
      (fun node => node.core.Down True ∧ Restartable node) where
  start := ⟨freshNode_down app, initialisedFirst_nil, by
    simp [freshNode, Db.empty]⟩
  always_of_durable _ h := ⟨h.1.always, h.2.first⟩
  always_of_idle _ h := ⟨h.1.always, h.2.first⟩
  crash _ h hguard := ⟨crash_core h.1, restartable_crash h.1 h.2 hguard⟩
  boot _ h := Proc.wp_ends_and (wp_newManager env (fun _ h => h) (fun _ _ _ => Or.inr trivial) h.1)
      (wp_newManager_of (bootSpec_initialised hgenesis (fun _ h => h) h.2))
      fun _ => And.intro
  serve node request h _ := by
    have hrules (node : Node α) (hnode : node.core.Always True ∧ Initialised node.app.calls) :
        (firstBlockGuard.rules fun node =>
          node.core.Always True ∧ InitialisedFirst node.app.calls).crash node :=
      ⟨hnode.1, hnode.2.first⟩
    apply Proc.wp_conseq ((initialised_serve env hrules).serve request (fun _ _ => h) h)
    intro result later hlater
    cases result with
    | ok | err => exact hlater
    | panic => exact ⟨hlater.1, hlater.2.first⟩

/-- In every run without a crash between the recording of the first block and
its commit, every block that is begun before the application has committed one
is begun after an `InitChain` in the same lifetime of the process. -/
theorem initialised_before_first_block (env : Env α) (app : α)
    (hgenesis : env.genesis.initialHeight = 1) {config : Config (Node α) Answer Error}
    (hreach : Reachable (system env) firstBlockGuard (freshNode app) config) :
    InitialisedFirst config.state.app.calls :=
  ((initialised_certificate env app hgenesis).sound hreach).2

end

/-- The process crashes after `count` steps of the first block and starts
again. -/
def crashInFirstBlock (count : ℕ) : List (Label Answer Request) :=
  Reference.firstBoot ++ .call (Reference.produceAt 5 [[1]]) :: Reference.steps count ++
    [.crash, .boot]

/-- The crash comes after the batch that records the first block.  The restart
does not initialise the application, which then gets the block. -/
theorem first_block_without_initChain : ∃ config, ReachableNode Reference.env [] config ∧
      config.state.app.calls = [.initChain, .beginBlock 1, .deliverTx, .endBlock 1, .restart,
          .beginBlock 1] ∧
      ¬ InitialisedFirst config.state.app.calls := by
  have hrun : ((system Reference.env).run ⟨freshNode [], .down⟩
      (crashInFirstBlock 21 ++ Reference.steps 4 ++
        [.ret, .call (Reference.produceAt 6 [])] ++ Reference.steps 10)).map
      (fun config => config.state.app.calls) =
        some [.initChain, .beginBlock 1, .deliverTx, .endBlock 1, .restart,
          .beginBlock 1] := by decide +kernel
  obtain ⟨config, hreach, hcalls⟩ := exists_reachableNode _ hrun
  refine ⟨config, hreach, hcalls, ?_⟩
  rw [hcalls]
  intro hfirst
  have hinit := hfirst [.initChain, .beginBlock 1, .deliverTx, .endBlock 1, .restart] 1 [] rfl rfl
  simp [lifetime] at hinit

theorem initialised_before_first_block_reference : ∃ config,
      Reachable (system Reference.env) firstBlockGuard (freshNode []) config ∧
      config.state.app.calls = [.initChain, .beginBlock 1, .deliverTx, .restart, .initChain,
          .beginBlock 1] ∧
      InitialisedFirst config.state.app.calls := by
  have hrun : ((system Reference.env).runGuarded firstBlockGuard ⟨freshNode [], .down⟩
      (crashInFirstBlock 12 ++ Reference.steps 6 ++
        [.ret, .call (Reference.produceAt 6 [])] ++ Reference.steps 10)).map
      (fun config => config.state.app.calls) =
        some [.initChain, .beginBlock 1, .deliverTx, .restart, .initChain,
          .beginBlock 1] := by decide +kernel
  obtain ⟨config, hreach, hcalls⟩ := exists_reachable_of_runGuarded _ hrun
  exact ⟨config, hreach, hcalls, initialised_before_first_block Reference.env [] rfl hreach⟩

end Dymint.Manager
