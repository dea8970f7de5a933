import Dymint.Block.ExactlyOnce

/-!
# What a restart finds

A state that the manager hands to `UpdateState` counts as many blocks as it
records as stored, or one more.  After a restart it comes back as it was: the
rule for old state files does not apply to it.  Hence the height that
`validateBlock` expects is the one that the height gate of `applyBlock` lets
through.
-/

namespace Dymint.Manager

open Procedure Dymint.Types Store CrashSystem

/-! ## States that can be read back -/

/-- The validator sets and the block id of the state come back from their
conversions. -/
structure Convertible (valid : ValidatorSet → Prop) (state : State) : Prop where
  nextValidators : valid state.nextValidators
  validators : valid state.validators
  lastValidators : valid state.lastValidators
  blockID : PlainBlockID state.lastBlockID

def ConvertibleRecord (tm : Tendermint) (valid : ValidatorSet → Prop) (db : Db) : Prop :=
  ∀ message, db .state = some message →
    ∃ state, Convertible valid state ∧ state.toProto tm = .ok message

variable {tm : Tendermint} {valid : ValidatorSet → Prop} {state : State} {message : Pb.State}

theorem Convertible.fromProto_toProto (hcodec : Codec tm valid) (hstate : Convertible valid state)
    (hmessage : state.toProto tm = .ok message) (hlegacy : ¬ state.Legacy) :
    State.fromProto tm message = .ok state := by
  have hread {set message : ValidatorSet} (hset : valid set)
      (hmessage : tm.validatorSetToProto set = .ok message) :
      tm.validatorSetFromProto message = .ok set := by
    obtain ⟨other, hother, hfrom⟩ := hcodec.validatorSet set hset
    obtain rfl : other = message := Except.ok.inj (hother.symm.trans hmessage)
    exact hfrom
  obtain ⟨next, validators, last, hnext, hvalidators, hlast, rfl⟩ := State.toProto_eq_ok.1 hmessage
  obtain ⟨hash, hlength, hid⟩ := hstate.blockID
  have hblockID := hcodec.blockID hash hlength
  rw [← hid] at hblockID
  exact State.fromProto_eq_ok.2
    ⟨state.version, state.lastBlockID, state.nextValidators, state.validators,
      state.lastValidators, rfl, hblockID, hread hstate.nextValidators hnext,
      hread hstate.validators hvalidators, hread hstate.lastValidators hlast,
      (State.ofMessage_message hlegacy next validators last).symm⟩

theorem Convertible.updateState (hcodec : Codec tm valid) (hstate : Convertible valid state)
    (block : Block) : Convertible valid (Executor.updateState tm state block) where
  nextValidators := by
    simp only [Executor.updateState]
    split
    · exact hcodec.valid_increment _ hstate.nextValidators
    · exact hstate.nextValidators
  validators := hstate.nextValidators
  lastValidators := hstate.lastValidators
  blockID := ⟨_, Or.inr (block.header.hash tm).length_bytes, rfl⟩

theorem ConvertibleRecord.of_eq {db db' : Db} (hrecord : ConvertibleRecord tm valid db)
    (heq : db' .state = db .state) : ConvertibleRecord tm valid db' := by
  rw [ConvertibleRecord, heq]
  exact hrecord

theorem Convertible.record (hstate : Convertible valid state)
    (hmessage : state.toProto tm = .ok message) (db : Db) :
    ConvertibleRecord tm valid (db.apply ⟨.state, some message⟩) := by
  intro other hother
  obtain rfl : message = other := Option.some.inj ((stateWrite_state db message).symm.trans hother)
  exact ⟨state, hstate, hmessage⟩

section Restart

variable {α : Type} {env : Env α} {node start later : Node α} {lost : Prop}

structure ConvertibleNode (env : Env α) (valid : ValidatorSet → Prop) (node : Node α) : Prop where
  memory : Convertible valid node.lastState
  record : ConvertibleRecord env.tm valid node.db

section

variable (hcodec : Codec env.tm valid)

include hcodec

theorem During.convertible {block : Block} {commit : Commit} {point : Point}
    (hduring : During env block commit start point later)
    (hstart : ConvertibleNode env valid start) : ConvertibleNode env valid later := by
  have hstored {now : Node α} {response : ResponseCommit} {responses : ABCIResponses}
      (hnow : Convertible valid now.lastState) :
      Convertible valid (now.storedState env block response responses) :=
    ⟨hnow.nextValidators, hnow.validators, hnow.validators, hnow.blockID⟩
  induction hduring with
  | start => exact hstart
  | hashed => exact ⟨⟨hstart.memory.1, hstart.memory.2, hstart.memory.3, hstart.memory.4⟩, hstart.2⟩
  | saved =>
    exact ⟨hstart.memory, hstart.record.of_eq (saveBlock_state env.tm start.db block commit)⟩
  | rotated _ ih => exact ⟨⟨ih.memory.1, ih.memory.2, ih.memory.2, ih.memory.4⟩, ih.record⟩
  | recorded _ ih | resulted _ _ ih =>
    exact ⟨⟨ih.memory.1, ih.memory.2, ih.memory.3, ih.memory.4⟩, ih.record⟩
  | caughtUp _ hmessage ih =>
    exact ⟨ih.memory, ih.memory.record hmessage _⟩
  | remembered _ ih => exact ⟨ih.memory.updateState hcodec block, ih.record⟩
  | @persisted now responses message set _ hmessage _ ih =>
    refine ⟨ih.memory, (ih.memory.record hmessage now.db).of_eq ?_⟩
    exact (executionWrite_state now.db block.header.height responses message set).trans
      (stateWrite_state now.db message).symm
  | pruned _ _ _ _ _ ih =>
    exact ⟨ih.memory, ih.record.of_eq (Db.pruneAll_state ..)⟩
  | stored _ hmessage ih =>
    exact ⟨ih.memory, (hstored ih.memory).record hmessage _⟩
  | finished hnow ih =>
    cases hnow with
    | stored _ _ => exact ⟨hstored ih.memory, ih.record⟩
  | _ =>
    rename_i ih
    exact ⟨ih.memory, ih.record⟩

theorem InitialState.convertible {height base : UInt64}
    (hstate : InitialState env lost node state height base) (hdown : node.core.Down lost)
    (hrecord : ConvertibleRecord env.tm valid node.db) :
    PlainBlockID state.lastBlockID ∧ (state.lastBlockHeight ≠ 0 → Convertible valid state) := by
  cases hstate with
  | genesis _ => exact ⟨⟨[], Or.inl rfl, rfl⟩, fun hne => absurd rfl hne⟩
  | loaded hload =>
    obtain ⟨message, hmessage, hfrom⟩ := loadState_eq_ok.1 hload
    obtain ⟨written, hwritten, hto⟩ := hrecord message hmessage
    have htracks := hdown.tracks (stateProgress written)
      (by simp [Node.core, hmessage, toProto_progress hto])
    obtain rfl : written = state :=
      Result.ok.inj ((hwritten.fromProto_toProto hcodec hto htracks.not_legacy).symm.trans hfrom)
    exact ⟨hwritten.blockID, fun _ => hwritten⟩

theorem bootSpec_convertible {rules : Proc.Rules (Node α) Answer}
    (hgenesis : env.genesis.initialHeight = 1)
    (hrules : ∀ node : Node α, ConvertibleRecord env.tm valid node.db → rules.crash node)
    (hloads : LoadsStates rules.allowed lost) (hdown : node.core.Down lost)
    (hrecord : ConvertibleRecord env.tm valid node.db) :
    BootSpec env rules lost (ConvertibleNode env valid)
      (fun later => ConvertibleRecord env.tm valid later.db) node where
  start := hrules _ hrecord
  read _ := hloads.read hdown
  loading _ _ _ := ⟨hrules _ hrecord, hrecord⟩
  resume state _ _ hstate hblocks := by
    refine ⟨(hstate.convertible hcodec hdown hrecord).2 fun hzero => hblocks ?_, hrecord⟩
    rw [hzero, hgenesis]
    rfl
  initialised state height base hstate _ := by
    refine ⟨hrules _ hrecord, hrecord, fun message hsome hmessage => ?_⟩
    have hset := hcodec.valid_increment _ (hcodec.valid_new _ hsome)
    obtain ⟨hnext, hvalidators, hlast, hid⟩ := updateInitChainState_sets env state
      (env.app.initChain node.app.working (initChainRequest env)).2 (initialValidators env)
    have hinitialised : Convertible valid (initialisedState env node state) :=
      ⟨hnext ▸ hset, hvalidators ▸ hset, hlast ▸ hset,
        hid ▸ (hstate.convertible hcodec hdown hrecord).1⟩
    have hstored := hinitialised.record hmessage node.db
    exact ⟨hrules _ hstored, hstored, hinitialised, hstored⟩

/-- Whatever fails, the states in memory and on disk can be read back. -/
theorem convertible_certificate (hgenesis : env.genesis.initialHeight = 1) (app : α)
    {guard : Guard (Node α) Answer Request} (hloads : LoadsStates guard.answer lost) :
    Certificate (system env) guard (freshNode app)
      (fun node => node.core.Idle lost ∧ ConvertibleNode env valid node)
      (fun node => node.core.Always lost ∧ ConvertibleRecord env.tm valid node.db)
      (fun node => node.core.Down lost ∧ ConvertibleRecord env.tm valid node.db) where
  start := ⟨freshNode_down app, nofun⟩
  always_of_durable _ h := ⟨h.1.always, h.2⟩
  always_of_idle _ h := ⟨h.1.always, h.2.record⟩
  crash _ h _ := ⟨crash_core h.1, h.2⟩
  boot _ h := Proc.wp_ends_and (wp_newManager env (fun _ h => h) hloads h.1)
    (wp_newManager_of (bootSpec_convertible hcodec hgenesis (fun _ h => h) hloads h.1 h.2))
    fun _ => And.intro
  serve node request h _ := by
    have hinv : ServeInvariant env (guard.rules _)
        (fun node => node.core.Idle lost ∧ ConvertibleNode env valid node)
        (fun node => node.core.Always lost ∧ ConvertibleRecord env.tm valid node.db) :=
      { crash := fun _ h => h
        always_of_idle := fun _ h => ⟨h.1.always, h.2.record⟩
        gossip := fun _ _ _ h => ⟨h.1, h.2.memory, h.2.record⟩
        applyBlock := fun node block commit h =>
          wp_applyBlock_keeping (fun _ h => h) (fun _ h => ⟨h.1.always, h.2.record⟩)
            (height_lt_next h.1) h fun _ _ hnext hlater =>
              ⟨hlater.idle h.1 hnext, hlater.convertible hcodec h.2⟩
        updateStateIndex := fun node index h => by
          have hmemory : Convertible valid (node.lastState.setSLStateIndex index) :=
            ⟨h.2.memory.1, h.2.memory.2, h.2.memory.3, h.2.memory.4⟩
          exact Proc.wp_ends_and (wp_updateStateIndex env index (fun _ h => h) h.1)
            (wp_updateStateIndex_keeping (fun _ h => h) (fun _ h => h.record) h.2.record
              ⟨hmemory, h.2.record⟩ fun message hmessage =>
                ⟨hmemory, hmemory.record hmessage node.db⟩)
            fun _ => And.intro }
    exact hinv.serve request (fun _ _ => ⟨h.1, h.2.memory, h.2.record⟩) h

end

/-! ## What `LoadState` returns -/

/-- The state counts the blocks that it records as stored, or one more, and
after a crash of the node a `LoadState` whose read succeeds returns it and sets
the height of the store to the one it records. -/
structure Restorable (env : Env α) (node : Node α) (state : State) : Prop where
  store_le : state.lastStoreHeight.toNat ≤ state.lastBlockHeight.toUInt64.toNat
  block_le : state.lastBlockHeight.toUInt64.toNat ≤ state.lastStoreHeight.toNat + 1
  notLegacy : ¬ state.Legacy
  loads : ∀ answers, answers 0 = .ok →
    ((loadStoreState env).exec answers (crash node)).2 = .ok state
  height : ∀ answers, answers 0 = .ok →
    ((loadStoreState env).exec answers (crash node)).1.height = state.lastStoreHeight

theorem loadStoreState_exec (hload : loadState env.tm node.db = .ok state)
    {answers : ℕ → Answer} (hanswer : answers 0 = .ok) :
    (loadStoreState env).exec answers node =
      (node.loaded state.lastStoreHeight state.baseHeight, .ok state) := by
  simp only [loadStoreState, Proc.op, bind, Proc.bind, Proc.exec, hanswer, hload]
  rfl

theorem restorable_of_always (hcodec : Codec env.tm valid) (halways : node.core.Always)
    (hstate : Convertible valid state) (hmessage : state.toProto env.tm = .ok message)
    (hrecord : node.db .state = some message) : Restorable env node state := by
  have htracks := halways.tracks (stateProgress state)
    (by simp [Node.core, hrecord, toProto_progress hmessage])
  have hblock : state.lastBlockHeight.toUInt64.toNat = state.lastStoreHeight.toNat ∨
    state.lastBlockHeight.toUInt64.toNat = state.lastStoreHeight.toNat + 1 :=
    htracks.lastBlock.imp_right (·.resolve_right And.left)
  have hload : loadState env.tm (crash node).db = .ok state := loadState_eq_ok.2
      ⟨message, hrecord, hstate.fromProto_toProto hcodec hmessage htracks.not_legacy⟩
  exact
    { store_le := by omega
      block_le := by omega
      notLegacy := htracks.not_legacy
      loads := fun answers hanswer => by rw [loadStoreState_exec hload hanswer]
      height := fun answers hanswer => by rw [loadStoreState_exec hload hanswer]; rfl }

/-! ## The height that validation expects -/

theorem validateBasic_ne_mismatch (block : Block) :
    block.validateBasic ≠ .err (.new "block height mismatch") := by
  have hheader : block.header.validateBasic ≠ .err (.new "block height mismatch") := by
    unfold Header.validateBasic
    split <;> simp
  have hcommit : block.lastCommit.validateBasic ≠ .err (.new "block height mismatch") := by
    unfold Commit.validateBasic
    split
    · split
      · split <;> simp
      · simp
    · simp
  unfold Block.validateBasic
  cases hresult : block.header.validateBasic with
  | ok value => simpa [Data.validateBasic] using hcommit
  | err error => simpa [hresult] using hheader
  | panic => simp

theorem validateBlock_ne_mismatch {block : Block}
    (hheight : block.header.height = state.lastStoreHeight + 1) :
    Executor.validateBlock state block ≠ .err (.new "block height mismatch") := by
  have hbasic := validateBasic_ne_mismatch block
  unfold Executor.validateBlock
  cases hresult : block.validateBasic with
  | ok value =>
    simp only [Result.ok_bind]
    split_ifs <;> simp_all
  | err error => simpa [hresult] using hbasic
  | panic => simp

theorem gate_matches_validation (hidle : node.core.Idle) {block : Block}
    (hnext : block.header.height = node.height + 1) {answers : ℕ → Answer}
    {later : Node α}
    (hrun : (alignStoreWithApp env block).exec answers node = (later, .ok false)) :
    block.header.height = later.lastState.lastStoreHeight + 1 := by
  have hlt : node.height < block.header.height := hnext ▸ height_lt_next hidle
  have hcrash : ∀ point later, During env block block.lastCommit node point later → ¬ point.Final →
        (Proc.Rules.anyAnswer Answer fun _ : Node α => True).crash later :=
    fun _ _ _ _ => trivial
  have hends := Proc.exec_of_wp (going_alignStoreWithApp hcrash hlt) answers fun _ _ => trivial
  rw [hrun] at hends
  obtain ⟨rfl, happ⟩ : node = later ∧ node.core.appHeight ≠ block.header.height := hends
  have hlast : node.lastState.lastStoreHeight = node.height := (hidle.execute hnext happ).2
  rw [hlast]
  exact hnext

/-- In every run in which `LoadState` does not fail while a state is stored, the
stored state is one that the manager handed to `UpdateState` and can be restored,
and a block that passes the height gate without alignment has the height that
validation expects. -/
theorem stored_states_restore (env : Env α) (app : α) (hgenesis : env.genesis.initialHeight = 1)
    (hcodec : Codec env.tm valid) {config : Config (Node α) Answer Error}
    (hreach : Reachable (system env) loadGuard (freshNode app) config) :
    ConvertibleRecord env.tm valid config.state.db ∧
    (∀ state message, Convertible valid state → state.toProto env.tm = .ok message →
      config.state.db .state = some message → Restorable env config.state state) ∧
    ∀ node, config = ⟨node, .idle⟩ → ∀ block, block.header.height = node.height + 1 →
      ∀ answers later, (alignStoreWithApp env block).exec answers node = (later, .ok false) →
        Executor.validateBlock later.lastState block ≠ .err (.new "block height mismatch") := by
  have hcert := convertible_certificate hcodec hgenesis app loadsStates_loadGuard
  obtain ⟨halways, hrecord⟩ := hcert.sound hreach
  refine ⟨hrecord, ?_, ?_⟩
  · intro state message hstate hmessage hstored
    exact restorable_of_always hcodec halways hstate hmessage hstored
  · rintro node rfl block hnext answers later hrun
    have hidle : node.core.Idle ∧ ConvertibleNode env valid node := hcert.holds hreach
    exact validateBlock_ne_mismatch (gate_matches_validation hidle.1 hnext hrun)

end Restart

/-! ## A state stored ahead of its block -/

namespace Restart

open Reference

def failedCommit : List (Label Answer Request) :=
  firstBoot ++ .call (produceAt 5 [[1]]) :: steps 22 ++ [.step .failBefore, .ret]

/-- The state in memory is stored and has these heights. -/
def Stores (block : Int64) (store : UInt64) (node : Node (List Tx)) : Prop :=
  node.db .state = (node.lastState.toProto env.tm).toOption ∧
    (node.db .state).isSome ∧ node.lastState.lastBlockHeight = block ∧
    node.lastState.lastStoreHeight = store

instance (block : Int64) (store : UInt64) : DecidablePred (Stores block store) :=
  fun _ => inferInstanceAs (Decidable (_ ∧ _))

end Restart

/-- After one block and a crash, `LoadState` fails, and the manager starts from the
genesis document.  When the block arrives again, the store is aligned with the
application: the stored state records the block as stored and does not count it. -/
theorem stored_state_behind_store : ∃ node, ReachableNode Reference.env [] ⟨node, .idle⟩ ∧
    Restart.Stores 0 1 node :=
  exists_idleNode (Reference.firstDelivered ++ Reference.lostBoot ++
    .call (Reference.deliver Reference.poolFirst) :: Reference.steps 11 ++ [.ret])
    (by decide +kernel)

theorem stored_states_restore_reference : Reference.env.genesis.initialHeight = 1 ∧
      Codec Reference.env.tm (fun set => set.validators ≠ []) ∧
      ∃ node state, Reachable (system Reference.env) loadGuard (freshNode []) ⟨node, .idle⟩ ∧
        node.lastState.lastBlockHeight = 1 ∧ node.lastState.lastStoreHeight = 0 ∧
        node.db .state = (state.toProto Reference.env.tm).toOption ∧
        Restorable Reference.env node state := by
  have hrun : ∃ node, Reachable (system Reference.env) loadGuard (freshNode []) ⟨node, .idle⟩ ∧
      Restart.Stores 1 0 node :=
    exists_idle_of_runGuarded Restart.failedCommit (by decide +kernel)
  obtain ⟨node, hreach, _, hsome, hblock, hstore⟩ := hrun
  obtain ⟨message, hmessage⟩ := Option.isSome_iff_exists.1 hsome
  obtain ⟨hrecord, hrestore, _⟩ := stored_states_restore Reference.env [] rfl Reference.codec hreach
  obtain ⟨state, hstate, hproto⟩ := hrecord message hmessage
  refine ⟨rfl, Reference.codec, node, state, hreach, hblock, hstore, ?_,
    hrestore state message hstate hproto hmessage⟩
  rw [hproto]
  exact hmessage

end Dymint.Manager
