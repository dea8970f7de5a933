import Dymint.Block.Pruning

/-!
# The course of a call

A call of `applyBlock` with the next block goes through a few points, and what it
does to the node between two of them is one step.  This file says once what these
steps are and where the call may stop, with any of its calls into the store or the
application failing.  A property of the node at each point is then proved by
induction on the course.
-/

namespace Dymint.Manager

open Procedure Dymint.Types Store

variable {α β : Type}

/-! ## The states that a call computes -/

def committedState (tm : Tendermint) (state : State) (appHash : Bytes)
    (responses : ABCIResponses) : State :=
  { state with
    appHash := state.appHash.copy appHash
    lastResultsHash := state.lastResultsHash.copy (tm.resultsHash responses.deliverTxs).bytes }

def storedState (state : State) (validators : ValidatorSet) (height : UInt64)
    (base : UInt64) : State :=
  { state with
    lastValidators := validators
    lastStoreHeight := height
    baseHeight := base }

def rotatedState (state : State) (appHash : Hash) (height : UInt64) : State :=
  let recorded := (state.setAppHash appHash).setLastStoreHeight height
  recorded.setLastValidators recorded.validators

def alignedState (tm : Tendermint) (state : State) (appHash : Hash)
    (height : UInt64) (responses : ABCIResponses) : State :=
  let recorded := (state.setAppHash appHash).setLastStoreHeight height
  let rotated := recorded.setLastValidators recorded.validators
  rotated.setLastResultsHash
    (rotated.lastResultsHash.copy (tm.resultsHash responses.deliverTxs).bytes)

def deliverAll (app : Application α) : α → List Tx → α × List ResponseDeliverTx
  | working, [] => (working, [])
  | working, tx :: txs =>
    let delivered := app.deliverTx working tx
    let rest := deliverAll app delivered.1 txs
    (rest.1, delivered.2 :: rest.2)

def runBlock (env : Env α) (state : State) (block : Block) (working : α) : α × ABCIResponses :=
  let begun := env.app.beginBlock working
    { hash := (block.hash env.tm).bytes
      header := { toABCIHeaderPB env.tm block.header with
        chainID := env.exec.chainID
        validatorsHash := (env.tm.validatorsHash state.validators).bytes } }
  let delivered := deliverAll env.app begun.1 block.data.txs
  let ended := env.app.endBlock delivered.1 block.header.height.toInt64
  (ended.1, ⟨begun.2, delivered.2, ended.2⟩)

variable {env : Env α}

theorem runBlock_of_validatorsHash {state state' : State}
    (hhash : env.tm.validatorsHash state'.validators =
      env.tm.validatorsHash state.validators) (block : Block) (working : α) :
    runBlock env state' block working = runBlock env state block working := by
  simp only [runBlock, hhash]

/-! ## Points and steps -/

inductive Point where
  | start
  | hashed
  | recorded
  | rotated
  | resulted
  | caughtUp
  | aligned
  | saved
  | delivering (beginBlock : ResponseBeginBlock) (txs : List Tx)
      (responses : List ResponseDeliverTx)
  | executed (responses : ABCIResponses)
  | remembered (responses : ABCIResponses)
  | persisted (responses : ABCIResponses)
  | committed (response : ResponseCommit) (responses : ABCIResponses)
  | published (response : ResponseCommit) (responses : ABCIResponses)
  | pruned (response : ResponseCommit) (responses : ABCIResponses)
  | stored (response : ResponseCommit) (responses : ABCIResponses)
  | finished
  | done

def Point.Final : Point → Prop
  | .aligned | .done => True
  | _ => False

/-- The points at which a call may return with an error: before and after its calls
into the store or the application. -/
def Point.Stops : Point → Prop
  | .hashed | .recorded | .finished | .aligned | .done => False
  | _ => True

variable {point : Point}

theorem Point.Stops.not_final (hstops : point.Stops) : ¬ point.Final := by
  cases point with
  | aligned | done => exact absurd hstops id
  | _ => exact id

section

variable (env : Env α) (block : Block) (commit : Commit)

/-- What `BeginBlock` is told. -/
def beginBlockRequest (state : State) : RequestBeginBlock where
  hash := (block.hash env.tm).bytes
  header := { toABCIHeaderPB env.tm block.header with
    chainID := env.exec.chainID
    validatorsHash := (env.tm.validatorsHash state.validators).bytes }

def Node.storedState (node : Node α) (response : ResponseCommit)
    (responses : ABCIResponses) : State :=
  Manager.storedState (committedState env.tm node.lastState response.data responses)
    node.lastState.validators block.header.height node.baseHeight

omit env block commit in
def Node.cut (node : Node α) (heights : List UInt64) (base : UInt64) : Node α :=
  { node with db := node.db.pruneAll heights, baseHeight := base }

/-- The nodes that a call passes through, each at its point. -/
inductive During (start : Node α) : Point → Node α → Prop
  | start : During start .start start
  | hashed {appHash : Hash}
      (happ : start.app.lastBlockHeight.toUInt64 = block.header.height)
      (hhash : FixedBytes.ofSlice? 32 start.app.lastBlockAppHash = some appHash) :
      During start .hashed (start.mapState fun state => state.setAppHash appHash)
  | recorded {now : Node α} (hnow : During start .hashed now) :
      During start .recorded
        (now.mapState fun state => state.setLastStoreHeight block.header.height)
  | rotated {now : Node α} (hnow : During start .recorded now) :
      During start .rotated (now.mapState fun state => state.setLastValidators state.validators)
  | resulted {now : Node α} {responses : ABCIResponses}
      (hnow : During start .rotated now)
      (hresponses : now.db (.responses block.header.height) = some responses) :
      During start .resulted (now.mapState fun state => state.setLastResultsHash
        (state.lastResultsHash.copy (env.tm.resultsHash responses.deliverTxs).bytes))
  | caughtUp {now : Node α} {message : Pb.State}
      (hnow : During start .resulted now)
      (hmessage : now.lastState.toProto env.tm = .ok message) :
      During start .caughtUp { now with db := now.db.apply ⟨.state, some message⟩ }
  | aligned {now : Node α} (hnow : During start .caughtUp now) :
      During start .aligned { now with height := block.header.height }
  | saved (happ : start.app.lastBlockHeight.toUInt64 ≠ block.header.height) :
      During start .saved { start with db := start.db.commit (saveBlock env.tm block commit) }
  | begun {now : Node α} (hnow : During start .saved now)
      (hvalid : Executor.validate env.tm now.lastState block commit env.getProposer = .ok ()) :
      During start
        (.delivering (env.app.beginBlock now.app.working
          (beginBlockRequest env block now.lastState)).2 block.data.txs [])
        { now with
          app := { now.app with
            working := (env.app.beginBlock now.app.working
              (beginBlockRequest env block now.lastState)).1
            workingHeight := block.header.height.toInt64 }.log
              (.beginBlock block.header.height.toInt64) }
  | delivered {now : Node α} {beginBlock : ResponseBeginBlock} {tx : Tx}
      {txs : List Tx} {responses : List ResponseDeliverTx}
      (hnow : During start (.delivering beginBlock (tx :: txs) responses) now) :
      During start
        (.delivering beginBlock txs (responses ++ [(env.app.deliverTx now.app.working tx).2]))
        { now with
          app := { now.app with
            working := (env.app.deliverTx now.app.working tx).1 }.log .deliverTx }
  | ended {now : Node α} {beginBlock : ResponseBeginBlock}
      {responses : List ResponseDeliverTx}
      (hnow : During start (.delivering beginBlock [] responses) now) :
      During start
        (.executed ⟨beginBlock, responses, (env.app.endBlock now.app.working
          block.header.height.toInt64).2⟩)
        { now with
          app := { now.app with
            working := (env.app.endBlock now.app.working block.header.height.toInt64).1 }.log
              (.endBlock block.header.height.toInt64) }
  | remembered {now : Node α} {responses : ABCIResponses}
      (hnow : During start (.executed responses) now) :
      During start (.remembered responses)
        (now.mapState fun state => Executor.updateState env.tm state block)
  | persisted {now : Node α} {responses : ABCIResponses} {message : Pb.State}
      {set : ValidatorSet} (hnow : During start (.remembered responses) now)
      (hmessage : now.lastState.toProto env.tm = .ok message)
      (hset : env.tm.validatorSetToProto now.lastState.validators = .ok set) :
      During start (.persisted responses)
        { now with
          db := now.db.commit
            [saveBlockResponses block.header.height responses, ⟨.state, some message⟩,
              ⟨.validators block.header.height, some set⟩] }
  | committed {now : Node α} {responses : ABCIResponses}
      (hnow : During start (.persisted responses) now) :
      During start (.committed (env.app.commit now.app.working).2 responses)
        { now with
          app := now.app.commit (env.app.commit now.app.working).1
            (env.app.commit now.app.working).2.data }
  | published {now : Node α} {response : ResponseCommit}
      {responses : ABCIResponses}
      (hnow : During start (.committed response responses) now) :
      During start (.published response responses)
        { now with published := now.published ++ [block.header.height] }
  | pruned {now : Node α} {response : ResponseCommit} {responses : ABCIResponses}
      {heights : List UInt64} {base bound : UInt64}
      (hnow : During start (.published response responses) now)
      (hbound : bound.toNat ≤ now.height.toNat) (hlimit : bound.toNat ≤ now.syncTarget.toNat)
      (hheights : ∀ height ∈ heights, height.toNat < bound.toNat)
      (hretain : response.retainHeight ≤ 0 → now.cut heights base = now) :
      During start (.pruned response responses) (now.cut heights base)
  | stored {now : Node α} {response : ResponseCommit}
      {responses : ABCIResponses} {message : Pb.State}
      (hnow : During start (.pruned response responses) now)
      (hmessage : (now.storedState env block response responses).toProto env.tm = .ok message) :
      During start (.stored response responses)
        { now with db := now.db.apply ⟨.state, some message⟩ }
  | finished {now : Node α} {response : ResponseCommit}
      {responses : ABCIResponses}
      (hnow : During start (.stored response responses) now) :
      During start .finished (now.mapState fun _ => now.storedState env block response responses)
  | done {now : Node α} (hnow : During start .finished now) :
      During start .done { now with height := block.header.height }

/-- Why a call returns an error although no step fails. -/
inductive Refuses : Point → Node α → Prop
  | responses {node : Node α}
      (hnone : node.db (.responses block.header.height) = none) :
      Refuses .rotated node
  | aligned {node : Node α}
      (hmessage : ∀ message, node.lastState.toProto env.tm ≠ .ok message) :
      Refuses .resulted node
  | rejected {node : Node α} {error : Error}
      (hvalid : Executor.validate env.tm node.lastState block commit env.getProposer = .err error) :
      Refuses .saved node
  | state {node : Node α} {responses : ABCIResponses}
      (hmessage : ∀ message, node.lastState.toProto env.tm ≠ .ok message) :
      Refuses (.remembered responses) node
  | validators {node : Node α} {responses : ABCIResponses}
      (hset : ∀ set, env.tm.validatorSetToProto node.lastState.validators ≠ .ok set) :
      Refuses (.remembered responses) node
  | stored {node : Node α} {response : ResponseCommit}
      {responses : ABCIResponses}
      (hmessage : ∀ message,
        (node.storedState env block response responses).toProto env.tm ≠ .ok message) :
      Refuses (.pruned response responses) node

inductive Panics : Point → Node α → Prop
  | hash {node : Node α}
      (hhash : FixedBytes.ofSlice? 32 node.app.lastBlockAppHash = none)
      (happ : node.app.lastBlockHeight.toUInt64 = block.header.height) :
      Panics .start node
  | validation {node : Node α}
      (hvalid : Executor.validate env.tm node.lastState block commit env.getProposer = .panic) :
      Panics .saved node
  | pruning {node : Node α} {response : ResponseCommit} {responses : ABCIResponses}
      (hretain : 0 < response.retainHeight) : Panics (.pruned response responses) node

/-- Some step may fail: a call that is still at its start has failed there. -/
def Faulty (rules : Proc.Rules (Node α) Answer) (start : Node α) (point : Point) : Prop :=
  ∃ node answer, rules.allowed node answer ∧ answer ≠ .ok ∧ (point = .start → node = start)

/-- The procedure returns with `returned`, or the call stops at one of its points. -/
abbrev Going (rules : Proc.Rules (Node α) Answer) (start : Node α)
    (returned : β → Node α → Prop) : Result Error β → Node α → Prop :=
  Proc.Ends returned
    (fun later => ∃ point, During env block commit start point later ∧
      point.Stops ∧ (Faulty rules start point ∨ Refuses env block commit point later))
    (fun later => ∃ point, During env block commit start point later ∧
      Panics env block commit point later)

end

variable {later : Node α}

variable {block : Block} {commit : Commit} {start : Node α}

section

variable (hduring : During env block commit start point later)

include hduring

theorem During.height_eq (hfinal : ¬ point.Final) : later.height = start.height := by
  induction hduring with
  | start | hashed | saved => rfl
  | aligned | done => exact absurd trivial hfinal
  | _ =>
    rename_i ih
    exact ih id

theorem During.height_of_final (hfinal : point.Final) : later.height = block.header.height := by
  cases hduring with
  | aligned | done => rfl
  | _ => exact absurd hfinal id

/-- A call does not move the target of the synchronisation, and it announces
nothing to the peers. -/
theorem During.frame : later.syncTarget = start.syncTarget ∧ later.gossiped = start.gossiped := by
  induction hduring with
  | start | hashed | saved => exact ⟨rfl, rfl⟩
  | _ => assumption

end

def Accepts (env : Env α) (block : Block) (commit : Commit)
    (start : Node α) : Prop :=
  start.app.lastBlockHeight.toUInt64 ≠ block.header.height ∧
    Executor.validate env.tm start.lastState block commit env.getProposer = .ok ()

def Point.Reached (env : Env α) (block : Block) (commit : Commit)
    (start : Node α) : Point → Prop
  | .start => True
  | .hashed | .recorded | .rotated | .resulted | .caughtUp | .aligned =>
    start.app.lastBlockHeight.toUInt64 = block.header.height
  | .saved => start.app.lastBlockHeight.toUInt64 ≠ block.header.height
  | _ => Accepts env block commit start

theorem During.eq_saved (hduring : During env block commit start .saved later) :
    later = { start with db := start.db.commit (saveBlock env.tm block commit) } := by
  cases hduring
  rfl

theorem During.reached (hduring : During env block commit start point later) :
    point.Reached env block commit start := by
  induction hduring with
  | start => trivial
  | hashed happ _ | saved happ => exact happ
  | begun hnow hvalid ih =>
    rw [hnow.eq_saved] at hvalid
    exact ⟨ih, hvalid⟩
  | _ => assumption

def Point.AppHeights (block : Block) (start later : Node α) : Point → Prop
  | .start | .hashed | .recorded | .rotated | .resulted | .caughtUp | .aligned
  | .saved => later.app = start.app
  | .delivering .. | .executed _ | .remembered _ | .persisted _ =>
    later.app.workingHeight = block.header.height.toInt64 ∧
      later.app.lastBlockHeight = start.app.lastBlockHeight
  | _ => later.app.lastBlockHeight = block.header.height.toInt64

theorem During.appHeights (hduring : During env block commit start point later) :
    point.AppHeights block start later := by
  induction hduring with
  | start | hashed | saved => rfl
  | begun hnow _ _ =>
    obtain rfl := hnow.eq_saved
    exact ⟨rfl, rfl⟩
  | committed _ ih => exact ih.1
  | _ => assumption

theorem During.app_eq_or_valid (hduring : During env block commit start point later) :
    later.app = start.app ∨
      Executor.validate env.tm start.lastState block commit env.getProposer = .ok () := by
  have hreached := hduring.reached
  have happ := hduring.appHeights
  cases point with
  | start | hashed | recorded | rotated | resulted | caughtUp | aligned | saved =>
    exact Or.inl happ
  | _ => exact Or.inr hreached.2

theorem saveBlock_state (tm : Tendermint) (db : Db) (block : Block) (commit : Commit) :
    db.commit (saveBlock tm block commit) .state = db .state :=
  saveBlock_frame tm db block commit (by simp) (by simp) (by simp)

theorem stateWrite_state (db : Db) (message : Pb.State) :
    db.apply ⟨.state, some message⟩ .state = some message :=
  Db.apply_self ..

theorem executionWrite_state (db : Db) (height : UInt64)
    (responses : ABCIResponses) (message : Pb.State) (set : ValidatorSet) :
    db.commit [saveBlockResponses height responses, ⟨.state, some message⟩,
      ⟨.validators height, some set⟩] .state = some message := by
  rw [Db.commit_cons, Db.commit_cons, Db.commit_cons, Db.commit_nil,
    Db.apply_of_ne _ (by simp), Db.apply_self]

theorem executionWrite_responses (db : Db) (height : UInt64)
    (responses : ABCIResponses) (message : Pb.State) (set : ValidatorSet) :
    (fun other => db.commit [saveBlockResponses height responses, ⟨.state, some message⟩,
        ⟨.validators height, some set⟩] (.responses other)) =
      Function.update (fun other => db (.responses other)) height (some responses) := by
  funext other
  rw [Db.commit_cons, Db.commit_cons, Db.commit_cons, Db.commit_nil,
    Db.apply_of_ne _ (by simp), Db.apply_of_ne _ (by simp)]
  by_cases hother : other = height
  · rw [hother, Function.update_self]
    exact Db.apply_self _ _ _
  · rw [Function.update_of_ne hother]
    exact Db.apply_of_ne _ (by simp [saveBlockResponses, hother])

theorem blockRecords_stateWrite (db : Db) (message : Pb.State) :
    (db.apply ⟨.state, some message⟩).blockRecords = db.blockRecords :=
  have hprogress : IsProgress [⟨.state, some message⟩] := by simp [IsProgress]
  blockRecords_of_isProgress db hprogress

theorem blockRecords_executionWrite (db : Db) (height : UInt64)
    (responses : ABCIResponses) (message : Pb.State) (set : ValidatorSet) :
    (db.commit [saveBlockResponses height responses, ⟨.state, some message⟩,
      ⟨.validators height, some set⟩]).blockRecords = db.blockRecords :=
  blockRecords_of_isProgress db (by simp [IsProgress, saveBlockResponses])

def Point.Responses (env : Env α) (block : Block) (start later : Node α) : Point → Prop
  | .delivering beginBlock txs responses =>
    let begun := env.app.beginBlock start.app.working (beginBlockRequest env block start.lastState)
    let rest := deliverAll env.app later.app.working txs
    beginBlock = begun.2 ∧ deliverAll env.app begun.1 block.data.txs = (rest.1, responses ++ rest.2)
  | .executed responses | .remembered responses | .persisted responses =>
    (later.app.working, responses) = runBlock env start.lastState block start.app.working
  | .committed response responses | .published response responses
  | .pruned response responses | .stored response responses =>
    responses = (runBlock env start.lastState block start.app.working).2 ∧
      response = (env.app.commit (runBlock env start.lastState block start.app.working).1).2
  | _ => True

theorem During.responses (hduring : During env block commit start point later) :
    point.Responses env block start later := by
  induction hduring with
  | begun hnow _ _ =>
    obtain rfl := hnow.eq_saved
    exact ⟨rfl, rfl⟩
  | delivered _ ih =>
    refine ⟨ih.1, ih.2.trans ?_⟩
    rw [deliverAll, List.append_assoc]
    rfl
  | @ended now _ _ _ ih =>
    obtain ⟨rfl, hrest⟩ := ih
    simp only [deliverAll, List.append_nil] at hrest
    simp only [Point.Responses, runBlock]
    rw [beginBlockRequest] at hrest
    rw [hrest]
    rfl
  | committed _ ih =>
    rw [Point.Responses] at ih
    rw [Point.Responses, ← ih]
    exact ⟨rfl, rfl⟩
  | start | hashed | saved | recorded | rotated | resulted | caughtUp
  | aligned | finished | done => trivial
  | _ => assumption

/-! ## The steps of the procedures -/

variable {onErr : Error → Error} {responses : ABCIResponses}

section

variable {env : Env α} {block : Block} {commit : Commit} {start now : Node α}
variable {point next : Point} {rules : Proc.Rules (Node α) Answer}
variable (hcrash : ∀ point later, During env block commit start point later →
  ¬ point.Final → rules.crash later)

include hcrash

section

variable (hnow : During env block commit start point now)

include hnow

omit hcrash in
theorem During.faulty {answer : Answer} (hfail : rules.allowed now answer) (hne : answer ≠ .ok)
    (hstart : next = .start → point = .start) : Faulty rules start next := by
  refine ⟨now, answer, hfail, hne, fun heq => ?_⟩
  obtain rfl := hstart heq
  cases hnow
  rfl

theorem going_call {run : Node α → Node α × Result Error β} {value : β} (hpoint : point.Stops)
    (hnext : During env block commit start next (run now).1) (hfinal : next.Stops)
    (hstart : next = .start → point = .start) (hvalue : (run now).2 = .ok value) :
    (callWith onErr run).wp rules (Going env block commit rules start fun result later =>
        value = result ∧ (run now).1 = later) now := by
  rw [wp_callWith, hvalue]
  exact ⟨hcrash _ _ hnow hpoint.not_final, fun _ => ⟨rfl, rfl⟩,
    fun hfail => ⟨_, hnow, hpoint, .inl (hnow.faulty hfail (by simp) id)⟩,
    fun hfail => ⟨_, hnext, hfinal, .inl (hnow.faulty hfail (by simp) hstart)⟩⟩

theorem going_external (hpoint : point.Stops) : (external : M α Unit).wp rules
      (Going env block commit rules start fun _ later => now = later) now :=
  Proc.wp_ends_mono (going_call hcrash hnow hpoint hnow hpoint id rfl) fun _ _ hlater => hlater.2

end

omit hcrash in
theorem going_ofExcept {result : Except Error β}
    (hnow : During env block commit start point now) (hpoint : point.Stops)
    (hrefuses : (∀ value, result ≠ .ok value) → Refuses env block commit point now) :
    (Proc.ofResult (.ofExcept result) : M α β).wp rules
      (Going env block commit rules start fun value later =>
        result = .ok value ∧ now = later) now := by
  cases result with
  | ok value => exact ⟨rfl, rfl⟩
  | error error => exact ⟨_, hnow, hpoint, .inr (hrefuses (by simp))⟩

theorem going_updateStoreState {state : State}
    (hnow : During env block commit start point now) (hpoint : point.Stops)
    (hfinal : next.Stops) (hstart : next = .start → point = .start)
    (hrefuses : (∀ message, state.toProto env.tm ≠ .ok message) →
      Refuses env block commit point now)
    (hnext : ∀ message, state.toProto env.tm = .ok message →
      During env block commit start next { now with db := now.db.apply ⟨.state, some message⟩ }) :
    (updateStoreState env onErr state).wp rules
      (Going env block commit rules start fun _ later =>
        ∃ message, state.toProto env.tm = .ok message ∧
          later = { now with db := now.db.apply ⟨.state, some message⟩ })
      now := by
  cases hstate : updateState env.tm state with
  | ok write =>
    obtain ⟨message, hmessage, rfl⟩ := updateState_eq_ok.1 hstate
    rw [updateStoreState, wp_callWith, hstate]
    exact ⟨hcrash _ _ hnow hpoint.not_final, fun _ => ⟨message, hmessage, rfl⟩,
      fun hfail => ⟨_, hnow, hpoint, .inl (hnow.faulty hfail (by simp) id)⟩,
      fun hfail => ⟨_, hnext message hmessage, hfinal, .inl (hnow.faulty hfail (by simp) hstart)⟩⟩
  | error error =>
    have hstop : ∃ point, During env block commit start point now ∧
        point.Stops ∧ (Faulty rules start point ∨ Refuses env block commit point now) := by
      refine ⟨_, hnow, hpoint, .inr (hrefuses fun message hmessage => ?_)⟩
      rw [updateState_eq_ok.2 ⟨message, hmessage, rfl⟩] at hstate
      cases hstate
    rw [updateStoreState, wp_callWith, hstate]
    exact ⟨hcrash _ _ hnow hpoint.not_final, fun _ => hstop, fun _ => hstop, fun _ => hstop⟩

theorem going_setHeight (hlt : start.height < block.header.height)
    (hnow : During env block commit start point now) (hfinal : ¬ point.Final)
    (hnext : During env block commit start next { now with height := block.header.height }) :
    (setHeight block.header.height).wp rules
      (Going env block commit rules start fun _ later =>
        During env block commit start next later) now := by
  apply wp_setHeight (hcrash _ _ hnow hfinal) _ hnext
  rw [hnow.height_eq hfinal]
  exact hlt

/-! ### Catching up with the application -/

theorem going_loadBlockResponses (hnow : During env block commit start .rotated now) :
    (query onErr (loadBlockResponses · block.header.height)).wp rules
      (Going env block commit rules start fun responses later =>
        now.db (.responses block.header.height) = some responses ∧ now = later)
      now := by
  cases hresponses : now.db (.responses block.header.height) with
  | some responses =>
    have hload : loadBlockResponses now.db block.header.height =
        .ok responses := by rw [loadBlockResponses, hresponses]
    apply Proc.wp_ends_mono (going_call hcrash hnow trivial hnow (by trivial) (by simp) hload)
    rintro _ later ⟨rfl, rfl⟩
    exact ⟨rfl, rfl⟩
  | none =>
    have hload : loadBlockResponses now.db block.header.height =
        .err (.wrap "failed to retrieve block results from height"
          .errKeyNotFound) := by rw [loadBlockResponses, hresponses]
    have hstop : ∃ point, During env block commit start point now ∧
        point.Stops ∧ (Faulty rules start point ∨ Refuses env block commit point now) :=
      ⟨_, hnow, trivial, .inr (.responses hresponses)⟩
    rw [query, wp_callWith, hload]
    exact ⟨hcrash _ _ hnow id, fun _ => hstop, fun _ => hstop, fun _ => hstop⟩

theorem going_alignStoreWithApp (hlt : start.height < block.header.height) :
    (alignStoreWithApp env block).wp rules (Going env block commit rules start fun required later =>
        if required then During env block commit start .aligned later
        else start = later ∧ start.app.lastBlockHeight.toUInt64 ≠ block.header.height) start := by
  apply Proc.wp_bind_ends (going_call hcrash .start trivial .start (by trivial) id rfl)
  rintro _ _ ⟨rfl, rfl⟩
  split
  case isTrue happ => exact ⟨rfl, happ⟩
  case isFalse happ =>
    rw [not_not] at happ
    split
    case h_1 hhash => exact ⟨_, .start, .hash hhash happ⟩
    case h_2 appHash hhash =>
      have hhashed : During env block commit start .hashed _ := .hashed happ hhash
      have hrotated := hhashed.recorded.rotated
      apply wp_modifyLastState_bind (hcrash _ _ .start id)
      apply wp_modifyLastState_bind (hcrash _ _ hhashed id)
      apply wp_modifyLastState_bind (hcrash _ _ hhashed.recorded id)
      apply Proc.wp_bind_ends (going_loadBlockResponses hcrash hrotated)
      rintro responses _ ⟨hresponses, rfl⟩
      have hresulted := hrotated.resulted hresponses
      apply wp_modifyLastState_bind (hcrash _ _ hrotated id)
      apply wp_getLastState_bind (hcrash _ _ hresulted id)
      apply Proc.wp_bind_ends
        (going_updateStoreState hcrash hresulted trivial (by trivial) (by simp)
          .aligned fun _ => hresulted.caughtUp)
      rintro _ _ ⟨message, hmessage, rfl⟩
      have hstored := hresulted.caughtUp hmessage
      apply Proc.wp_bind_ends (going_setHeight hcrash hlt hstored id hstored.aligned)
      intro _ later hlater
      exact hlater

/-! ### Executing the block -/

theorem going_deliverTxs {beginBlock : ResponseBeginBlock} {txs : List Tx}
    {responses : List ResponseDeliverTx}
    (hnow : During env block commit start (.delivering beginBlock txs responses) now) :
    (deliverTxs env txs).wp rules
      (Going env block commit rules start fun more later =>
        During env block commit start
          (.delivering beginBlock [] (responses ++ more)) later) now := by
  induction txs generalizing now responses with
  | nil =>
    rw [← List.append_nil responses] at hnow
    exact hnow
  | cons tx txs ih =>
    apply Proc.wp_bind_ends
      (going_call hcrash hnow trivial hnow.delivered (by trivial) (by simp) rfl)
    rintro _ _ ⟨rfl, rfl⟩
    apply Proc.wp_bind_ends (ih hnow.delivered)
    intro more later hlater
    rw [List.append_assoc] at hlater
    exact hlater

theorem going_executeBlock (hnow : During env block commit start .saved now) :
    (executeBlock env block commit).wp rules
      (Going env block commit rules start fun responses later =>
        During env block commit start (.executed responses) later) now := by
  apply wp_getLastState_bind (hcrash _ _ hnow id)
  rw [Proc.wp_bind, Proc.wp_ofResult]
  cases hvalid : Executor.validate env.tm now.lastState block commit env.getProposer with
  | err error => exact ⟨_, hnow, trivial, .inr (.rejected hvalid)⟩
  | panic => exact ⟨_, hnow, .validation hvalid⟩
  | ok value =>
    apply wp_getLastState_bind (hcrash _ _ hnow id)
    apply Proc.wp_bind_ends
      (going_call hcrash hnow trivial (hnow.begun hvalid) (by trivial) (by simp) rfl)
    rintro _ _ ⟨rfl, rfl⟩
    apply Proc.wp_bind_ends (going_deliverTxs hcrash (hnow.begun hvalid))
    intro responses delivered hdelivered
    apply Proc.wp_bind_ends
      (going_call hcrash hdelivered trivial hdelivered.ended (by trivial) (by simp) rfl)
    rintro _ _ ⟨rfl, rfl⟩
    exact hdelivered.ended

/-! ### Committing it -/

theorem going_persistExecution (hnow : During env block commit start (.executed responses) now) :
    (persistExecution env block responses
      (Executor.updateState env.tm now.lastState block)).wp rules
      (Going env block commit rules start fun _ later =>
        During env block commit start (.persisted responses) later ∧
          later.lastState = Executor.updateState env.tm now.lastState block)
      now := by
  have hremembered := hnow.remembered
  apply Proc.wp_bind_ends (going_external hcrash hnow trivial)
  rintro _ _ rfl
  apply wp_modifyLastState_bind (hcrash _ _ hnow id)
  apply wp_getLastState_bind (hcrash _ _ hremembered id)
  apply Proc.wp_bind_ends (going_ofExcept hremembered trivial fun hfails =>
    .state fun message hmessage =>
      hfails _ (updateState_eq_ok.2 ⟨message, hmessage, rfl⟩))
  rintro _ _ ⟨hwrite, rfl⟩
  obtain ⟨message, hmessage, rfl⟩ := updateState_eq_ok.1 hwrite
  apply Proc.wp_bind_ends (going_external hcrash hremembered trivial)
  rintro _ _ rfl
  apply wp_getLastState_bind (hcrash _ _ hremembered id)
  apply Proc.wp_bind_ends (going_ofExcept hremembered trivial fun hfails =>
    .validators fun set hset => hfails _ (saveValidators_eq_ok.2 ⟨set, hset, rfl⟩))
  rintro _ _ ⟨hwrite, rfl⟩
  obtain ⟨set, hset, rfl⟩ := saveValidators_eq_ok.1 hwrite
  apply Proc.wp_bind_ends (going_external hcrash hremembered trivial)
  rintro _ _ rfl
  have hpersisted := hremembered.persisted hmessage hset
  apply Proc.wp_ends_mono
    (going_call hcrash hremembered trivial hpersisted (by trivial) (by simp) rfl)
  rintro _ _ ⟨_, rfl⟩
  exact ⟨hpersisted, rfl⟩

theorem going_commitBlock (hnow : During env block commit start (.persisted responses) now) :
    (commitBlock env now.lastState block responses).wp rules
      (Going env block commit rules start fun result later =>
        ∃ response, result = (committedState env.tm later.lastState response.data
            responses, response.retainHeight) ∧
          During env block commit start (.published response responses) later)
      now := by
  apply Proc.wp_bind_ends (going_external hcrash hnow trivial)
  rintro _ _ rfl
  apply Proc.wp_bind_ends (going_call hcrash hnow trivial hnow.committed (by trivial) (by simp) rfl)
  rintro _ _ ⟨rfl, rfl⟩
  apply Proc.wp_bind_ends (going_external hcrash hnow.committed trivial)
  rintro _ _ rfl
  apply Proc.wp_bind_ends (going_call hcrash hnow.committed trivial hnow.committed.published
      (by trivial) (by simp) rfl)
  rintro _ _ ⟨_, rfl⟩
  exact ⟨_, rfl, hnow.committed.published⟩

variable {response : ResponseCommit}

theorem going_pruneOnRequest
    (hnow : During env block commit start (.published response responses) now) :
    (pruneOnRequest response.retainHeight).wp rules
      (Going env block commit rules start fun _ later =>
        During env block commit start (.pruned response responses) later ∧
          later.lastState = now.lastState) now := by
  by_cases hretain : response.retainHeight > 0
  · have hpruned {later : Node α} (hlater : Cut now.syncTarget now later) :
        During env block commit start (.pruned response responses) later ∧
          later.lastState = now.lastState := by
      obtain ⟨bound, hbound, hlimit, heights, hheights, base, _, rfl⟩ := hlater
      exact ⟨hnow.pruned hbound hlimit hheights fun hle => absurd hretain (Int64.not_lt.2 hle), rfl⟩
    apply Proc.wp_conseq (wp_pruneOnRequest fun later hlater => hcrash _ _ (hpruned hlater).1 id)
    rintro result later ⟨hlater, rfl | rfl⟩
    · exact hpruned hlater
    · exact ⟨_, (hpruned hlater).1, .pruning hretain⟩
  · rw [pruneOnRequest, if_neg hretain]
    exact ⟨@During.pruned α env block commit start now response responses [] now.baseHeight 0 hnow
      (Nat.zero_le _) (Nat.zero_le _) (by simp) fun _ => rfl, rfl⟩

theorem going_finishBlock (hlt : start.height < block.header.height)
    (hnow : During env block commit start (.pruned response responses) now) :
    (finishBlock env block (committedState env.tm now.lastState response.data responses)).wp rules
      (Going env block commit rules start fun _ later =>
        During env block commit start .done later) now := by
  apply wp_getLastState_bind (hcrash _ _ hnow id)
  apply wp_read_bind (hcrash _ _ hnow id)
  apply Proc.wp_bind_ends (going_updateStoreState hcrash hnow trivial (by trivial) (by simp) .stored
      fun _ => hnow.stored)
  rintro _ _ ⟨message, hmessage, rfl⟩
  have hstored := hnow.stored hmessage
  apply wp_modifyLastState_bind (hcrash _ _ hstored id)
  exact going_setHeight hcrash hlt hstored.finished id hstored.finished.done

/-- A call with the next block that returns without an error has gone its whole
course; otherwise it has stopped on the way. -/
theorem going_applyBlock (hnext : block.header.height = start.height + 1)
    (hlt : start.height < block.header.height) :
    (applyBlock env block commit).wp rules
      (Going env block commit rules start fun _ later =>
        ∃ point, During env block commit start point later ∧ point.Final)
      start := by
  apply wp_read_bind (hcrash _ _ .start id)
  rw [if_neg (not_not.2 hnext)]
  apply Proc.wp_bind_ends (going_alignStoreWithApp hcrash hlt)
  intro required later hlater
  cases required with
  | true => exact ⟨_, hlater, trivial⟩
  | false =>
    obtain ⟨rfl, happ⟩ : start = later ∧
        start.app.lastBlockHeight.toUInt64 ≠ block.header.height := hlater
    have hsaved : During env block commit start .saved _ := .saved happ
    apply Proc.wp_bind_ends (going_call hcrash .start trivial hsaved (by trivial) (by simp) rfl)
    rintro _ _ ⟨_, rfl⟩
    apply Proc.wp_bind_ends (going_executeBlock hcrash hsaved)
    intro responses executed hexecuted
    apply wp_getLastState_bind (hcrash _ _ hexecuted id)
    apply Proc.wp_bind_ends (going_persistExecution hcrash hexecuted)
    rintro _ persisted ⟨hpersisted, hstate⟩
    rw [← hstate]
    apply Proc.wp_bind_ends (going_commitBlock hcrash hpersisted)
    rintro _ published ⟨response, rfl, hpublished⟩
    apply Proc.wp_bind_ends (going_pruneOnRequest hcrash hpublished)
    rintro _ pruned ⟨hpruned, hstate⟩
    rw [← hstate]
    apply Proc.wp_ends_mono (going_finishBlock hcrash hlt hpruned)
    intro _ later hdone
    exact ⟨_, hdone, trivial⟩

end

variable {rules : Proc.Rules (Node α) Answer}

/-- The rule for `applyBlock`: what holds where the call may be, where it returns
and where it may stop. -/
theorem wp_applyBlock_of {returned failed panicked : Node α → Prop}
    (hnext : block.header.height = start.height + 1)
    (hlt : start.height < start.height + 1)
    (hcrash : ∀ point later, During env block commit start point later →
      ¬ point.Final → rules.crash later)
    (hreturned : ∀ point later, During env block commit start point later →
      point.Final → returned later)
    (hfailed : ∀ point later, During env block commit start point later → point.Stops →
      Faulty rules start point ∨ Refuses env block commit point later → failed later)
    (hpanicked : ∀ point later, During env block commit start point later →
      Panics env block commit point later → panicked later) :
    (applyBlock env block commit).wp rules
      (Proc.Ends (fun _ => returned) failed panicked) start := by
  rw [← hnext] at hlt
  apply Proc.wp_conseq (going_applyBlock hcrash hnext hlt)
  intro result later hlater
  cases result with
  | ok value =>
    obtain ⟨point, hduring, hfinal⟩ := hlater
    exact hreturned point later hduring hfinal
  | err error =>
    obtain ⟨point, hduring, hstops, hwhy⟩ := hlater
    exact hfailed point later hduring hstops hwhy
  | panic =>
    obtain ⟨point, hduring, hstop⟩ := hlater
    exact hpanicked point later hduring hstop

variable {ready kept always : Node α → Prop}

/-- A property of the nodes that a call with the next block passes through holds
wherever a call stops, and what the end of its course has holds where it returns. -/
theorem wp_applyBlock_returning (hcrash : ∀ node, always node → rules.crash node)
    (halways : ∀ node, kept node → always node) (hready : ∀ node, ready node → kept node)
    (hlt : start.height < start.height + 1) (hstart : ready start)
    (hkept : ∀ point later, block.header.height = start.height + 1 →
      During env block commit start point later → kept later ∧ (point.Final → ready later)) :
    (applyBlock env block commit).wp rules (Proc.Ends (fun _ => ready) kept always) start := by
  by_cases hnext : block.header.height = start.height + 1
  · exact wp_applyBlock_of hnext hlt (fun point later hlater _ =>
        hcrash _ (halways _ (hkept point later hnext hlater).1))
      (fun point later hlater => (hkept point later hnext hlater).2)
      (fun point later hlater _ _ => (hkept point later hnext hlater).1)
      (fun point later hlater _ => halways _ (hkept point later hnext hlater).1)
  · apply wp_read_bind (hcrash _ (halways _ (hready _ hstart)))
    rw [if_pos hnext]
    exact hstart

theorem wp_applyBlock_keeping (hcrash : ∀ node, always node → rules.crash node)
    (halways : ∀ node, kept node → always node)
    (hlt : start.height < start.height + 1) (hstart : kept start)
    (hkept : ∀ point later, block.header.height = start.height + 1 →
      During env block commit start point later → kept later) :
    (applyBlock env block commit).wp rules (Proc.Ends (fun _ => kept) kept always) start :=
  wp_applyBlock_returning hcrash halways (fun _ h => h) hlt hstart fun point later hnext hlater =>
    ⟨hkept point later hnext hlater, fun _ => hkept point later hnext hlater⟩

theorem wp_updateStateIndex_keeping {index : UInt64} {node : Node α}
    (hcrash : ∀ node, always node → rules.crash node)
    (halways : ∀ node, kept node → always node) (hnode : always node)
    (hindexed : kept (node.mapState fun state => state.setSLStateIndex index))
    (hstored : ∀ message, (node.lastState.setSLStateIndex index).toProto env.tm = .ok message →
      kept { node.mapState fun state => state.setSLStateIndex index with
        db := node.db.apply ⟨.state, some message⟩ }) :
    (updateStateIndex env index).wp rules (Proc.Ends (fun _ => kept) kept always) node := by
  apply wp_modifyLastState_bind (hcrash _ hnode)
  apply wp_getLastState_bind (hcrash _ (halways _ hindexed))
  apply wp_updateStoreState (hcrash _ (halways _ hindexed)) fun _ => hindexed
  intro message hmessage result hresult
  cases result with
  | ok | err => exact hstored message hmessage
  | panic => exact absurd rfl hresult

end Dymint.Manager
