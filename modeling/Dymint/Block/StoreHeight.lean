import Dymint.Block.Storage
import Dymint.Core.Threads

/-!
# The height of the store under concurrent calls

`SetHeight` loads the height and swaps it if it has not changed since; that the
swap may fail is ignored.  `LoadState` reads the persisted state and then stores
the height it records, whatever the height is by then.  The calls run in any
number of threads.  If no other call is between its two accesses when one of them
makes its first, then the height never decreases and reaches what it was set to;
otherwise neither is certain.
-/

namespace Dymint.StoreHeight

open Procedure Dymint.Types Store Manager
open Runs Threads

inductive Point where
  | idle
  | setHeight (height : UInt64)
  | swap (height seen : UInt64)
  /-- `SetHeight` has returned. -/
  | returned (height : UInt64)
  | loadState
  | storeHeight (state : State)
  | storeBase (state : State)
  /-- The end of `applyBlock`. -/
  | finishBlock (block : Block) (newState : State)
  | readBase (block : Block) (newState lastState : State)
  | updateState (block : Block) (state : State)
  | setLastState (block : Block) (state : State)
  /-- A call that set no height has returned. -/
  | ended

variable {point next : Point}

section

variable {α : Type} (env : Env α)

def rest : Point → M α Unit
  | .idle | .returned _ | .ended => pure ()
  | .setHeight height => Manager.setHeight height
  | .swap height seen =>
    Proc.write fun node =>
      if node.height = seen then { node with height := height } else node
  | .loadState => do
      let _ ← loadStoreState env
  | .storeHeight state => do
      Proc.write fun node => { node with height := state.lastStoreHeight }
      Proc.write fun node => { node with baseHeight := state.baseHeight }
  | .storeBase state =>
    Proc.write fun node => { node with baseHeight := state.baseHeight }
  | .finishBlock block newState => Manager.finishBlock env block newState
  | .readBase block newState lastState => do
      let base ← Manager.storeBase
      let newState := { newState with
        lastValidators := lastState.validators
        lastStoreHeight := block.header.height
        baseHeight := base }
      updateStoreState env id newState
      modifyLastState fun _ => newState
      Manager.setHeight block.header.height
  | .updateState block state => do
      updateStoreState env id state
      modifyLastState fun _ => state
      Manager.setHeight block.header.height
  | .setLastState block state => do
      modifyLastState fun _ => state
      Manager.setHeight block.header.height

def step : Point → Answer → Node α → Option (Node α × Point)
  | .setHeight height, _, node =>
    some (node,
      if height > node.height then .swap height node.height
      else .returned height)
  | .swap height seen, _, node =>
    some (if node.height = seen then { node with height := height } else node, .returned height)
  | .loadState, answer, node =>
    some ({ node with unread := false },
      match answer, loadState env.tm node.db with
      | .ok, .ok state => .storeHeight state
      | _, _ => .ended)
  | .storeHeight state, _, node =>
    some ({ node with height := state.lastStoreHeight }, .storeBase state)
  | .storeBase state, _, node =>
    some ({ node with baseHeight := state.baseHeight }, .ended)
  | .finishBlock block newState, _, node =>
    some (node, .readBase block newState node.lastState)
  | .readBase block newState lastState, _, node =>
    some (node, .updateState block { newState with
      lastValidators := lastState.validators
      lastStoreHeight := block.header.height
      baseHeight := node.baseHeight })
  | .updateState block state, answer, node =>
    some (match Store.updateState env.tm state with
      | .error _ => (node, .ended)
      | .ok write =>
        match answer with
        | .ok =>
          ({ node with db := node.db.apply write }, .setLastState block state)
        | .failBefore => (node, .ended)
        | .failAfter => ({ node with db := node.db.apply write }, .ended))
  | .setLastState block state, _, node =>
    some (node.mapState fun _ => state, .setHeight block.header.height)
  | _, _, _ => none

theorem rest_step {answer : Answer} {node later : Node α}
    (hstep : step env point answer node = some (later, next)) :
    ∃ update cont, rest env point = .atom update cont ∧ update answer node = later ∧
      (cont answer node = rest env next ∨
        next = .ended ∧ ∃ result, cont answer node = .done result) := by
  cases point with
  | idle | returned | ended => cases hstep
  | setHeight height =>
    obtain ⟨rfl, rfl⟩ := Prod.mk.inj (Option.some.inj hstep)
    refine ⟨_, _, rfl, rfl, Or.inl ?_⟩
    change (if height > node.height then _ else _) = _
    split <;> rfl
  | swap | storeHeight | storeBase | finishBlock | readBase | setLastState =>
    obtain ⟨rfl, rfl⟩ := Prod.mk.inj (Option.some.inj hstep)
    exact ⟨_, _, rfl, rfl, Or.inl rfl⟩
  | loadState =>
    obtain ⟨rfl, rfl⟩ := Prod.mk.inj (Option.some.inj hstep)
    refine ⟨_, _, rfl, rfl, ?_⟩
    cases answer with
    | ok =>
      dsimp only
      cases loadState env.tm node.db with
      | ok state => exact Or.inl rfl
      | err | panic => exact Or.inr ⟨rfl, _, rfl⟩
    | failBefore | failAfter => exact Or.inr ⟨rfl, _, rfl⟩
  | updateState block state =>
    refine ⟨_, _, rfl, ?_⟩
    have houtcome := Option.some.inj hstep
    cases hwrite : Store.updateState env.tm state with
    | error error =>
      rw [hwrite] at houtcome
      obtain ⟨rfl, rfl⟩ := Prod.mk.inj houtcome
      cases answer <;> exact ⟨rfl, Or.inr ⟨rfl, _, rfl⟩⟩
    | ok write =>
      rw [hwrite] at houtcome
      cases answer with
      | ok =>
        obtain ⟨rfl, rfl⟩ := Prod.mk.inj houtcome
        exact ⟨rfl, Or.inl rfl⟩
      | failBefore | failAfter =>
        obtain ⟨rfl, rfl⟩ := Prod.mk.inj houtcome
        exact ⟨rfl, Or.inr ⟨rfl, _, rfl⟩⟩

def program : Program (Node α) Answer Point where
  step := step env
  entry
    | .setHeight _ | .loadState | .finishBlock _ _ => true
    | _ => false
  free
    | .idle => true
    | _ => false

end

/-! ## Calls that take turns -/

section

variable {α : Type} {env : Env α} {node later : Node α}

def persisted (tm : Tendermint) (db : Db) : ℕ :=
  match loadState tm db with
  | .ok state => state.lastStoreHeight.toNat
  | _ => 0

/-- The call has made its first access and is about to write the height. -/
def Writing : Point → Prop
  | .swap _ _ | .storeHeight _ => True
  | _ => False

def Alone (config : Config (Node α) Point) (thread : ℕ) : Prop :=
  ∀ other, other ≠ thread → ¬ Writing (config.point other)

/-- A call gets ready to write the height only when no other one is, and
`applyBlock` persists a state that can be read back and that does not go behind
the persisted one. -/
def Ready (env : Env α) (node : Node α) (alone : Prop) : Point → Prop
  | .setHeight height => height > node.height → alone
  | .loadState => alone
  | .updateState _ state =>
    Storage.Storable env.tm (.state state) ∧ persisted env.tm node.db ≤ state.lastStoreHeight.toNat
  | _ => True

/-- The condition on a move; `SetHeight` is called for a height that is already
persisted. -/
def Orderly (env : Env α) (config : Config (Node α) Point) : Label Answer Point → Prop
  | .call _ (.setHeight height) =>
    height.toNat ≤ persisted env.tm config.state.db
  | .call _ _ => True
  | .step thread _ =>
    Ready env config.state (Alone config thread) (config.point thread)

def Known (env : Env α) : Point → Node α → Prop
  | .setHeight height, node => height.toNat ≤ persisted env.tm node.db
  | .swap height seen, node =>
    node.height = seen ∧ seen.toNat < height.toNat ∧ height.toNat ≤ persisted env.tm node.db
  | .returned height, node => height.toNat ≤ node.height.toNat
  | .storeHeight state, node =>
    node.height.toNat ≤ state.lastStoreHeight.toNat ∧
      state.lastStoreHeight.toNat ≤ persisted env.tm node.db
  | .updateState block state, _ => state.lastStoreHeight = block.header.height
  | .setLastState block _, node =>
    block.header.height.toNat ≤ persisted env.tm node.db
  | _, _ => True

def Covered (env : Env α) (node : Node α) : Prop := node.height.toNat ≤ persisted env.tm node.db

theorem le_persisted_apply {state : State} {write : Write}
    (hstate : Storage.Storable env.tm (.state state))
    (hwrite : updateState env.tm state = .ok write) (db : Db) :
    state.lastStoreHeight.toNat ≤ persisted env.tm (db.apply write) := by
  obtain ⟨message, hmessage, rfl⟩ := updateState_eq_ok.1 hwrite
  have hload : loadState env.tm (db.apply ⟨.state, some message⟩) = .ok (Storage.restored state) :=
    loadState_eq_ok.2 ⟨message, Db.apply_self db .state (some message),
      Storage.fromProto_toProto_restored hstate hmessage⟩
  rw [persisted, hload]
  change _ ≤ (Storage.restored state).lastStoreHeight.toNat
  rw [Storage.restored]
  dsimp only
  split
  case isTrue hlegacy =>
    rw [hlegacy.1]
    exact Nat.zero_le _
  case isFalse => exact le_rfl

/-- What a step does to the two heights. -/
structure Effect (env : Env α) (point : Point) (node later : Node α) : Prop where
  height_le : node.height.toNat ≤ later.height.toNat
  persisted_le : persisted env.tm node.db ≤ persisted env.tm later.db
  height_eq : ¬ Writing point → later.height = node.height

theorem Effect.of_eq (hheight : later.height = node.height) (hdb : later.db = node.db) :
    Effect env point node later :=
  ⟨by rw [hheight], by rw [hdb], fun _ => hheight⟩

/-- A step that meets the condition. -/
structure Stepped (env : Env α) (alone : Prop) (point next : Point)
    (node later : Node α) : Prop extends Effect env point node later where
  covered : Covered env later
  known : Known env next later
  alone : Writing next → alone

theorem Stepped.of_eq {alone : Prop} (hcovered : Covered env node)
    (hheight : later.height = node.height) (hdb : later.db = node.db)
    (hknown : Known env next later) (halone : Writing next → alone) :
    Stepped env alone point next node later where
  toEffect := .of_eq hheight hdb
  covered := by rw [Covered, hheight, hdb]; exact hcovered
  known := hknown
  alone := halone

theorem stepped {alone : Prop} {answer : Answer} (hcovered : Covered env node)
    (hknown : Known env point node) (hready : Ready env node alone point)
    (hstep : step env point answer node = some (later, next)) :
    Stepped env alone point next node later := by
  cases point with
  | idle | returned | ended => cases hstep
  | setHeight height =>
    obtain ⟨rfl, rfl⟩ := Prod.mk.inj (Option.some.inj hstep)
    apply Stepped.of_eq hcovered rfl rfl
    · split
      case isTrue hlt => exact ⟨rfl, UInt64.lt_iff_toNat_lt.1 hlt, hknown⟩
      case isFalse hle => exact UInt64.le_iff_toNat_le.1 (UInt64.not_lt.1 hle)
    · split
      case isTrue hlt => exact fun _ => hready hlt
      case isFalse => exact False.elim
  | swap height seen =>
    obtain ⟨rfl, rfl⟩ := Prod.mk.inj (Option.some.inj hstep)
    obtain ⟨hseen, hlt, hle⟩ := hknown
    rw [if_pos hseen]
    subst hseen
    exact
      { height_le := hlt.le
        persisted_le := le_rfl
        height_eq := fun hwriting => absurd trivial hwriting
        covered := hle
        known := Nat.le_refl height.toNat
        alone := False.elim }
  | loadState =>
    obtain ⟨rfl, rfl⟩ := Prod.mk.inj (Option.some.inj hstep)
    refine Stepped.of_eq hcovered ?_ ?_ ?_ fun _ => hready
    · rfl
    · rfl
    · split
      next state hload =>
        have hpersisted : persisted env.tm node.db =
            state.lastStoreHeight.toNat := by rw [persisted, hload]
        rw [Covered, hpersisted] at hcovered
        exact ⟨hcovered, hpersisted.ge⟩
      next => trivial
  | storeHeight state =>
    obtain ⟨rfl, rfl⟩ := Prod.mk.inj (Option.some.inj hstep)
    exact
      { height_le := hknown.1
        persisted_le := le_rfl
        height_eq := fun hwriting => absurd trivial hwriting
        covered := hknown.2
        known := trivial
        alone := False.elim }
  | storeBase | finishBlock =>
    obtain ⟨rfl, rfl⟩ := Prod.mk.inj (Option.some.inj hstep)
    exact .of_eq hcovered rfl rfl trivial False.elim
  | readBase block newState lastState =>
    obtain ⟨rfl, rfl⟩ := Prod.mk.inj (Option.some.inj hstep)
    exact .of_eq hcovered rfl rfl rfl False.elim
  | setLastState block state =>
    obtain ⟨rfl, rfl⟩ := Prod.mk.inj (Option.some.inj hstep)
    exact .of_eq hcovered rfl rfl hknown False.elim
  | updateState block state =>
    have houtcome := Option.some.inj hstep
    cases hwrite : Store.updateState env.tm state with
    | error error =>
      rw [hwrite] at houtcome
      obtain ⟨rfl, rfl⟩ := Prod.mk.inj houtcome
      exact .of_eq hcovered rfl rfl trivial False.elim
    | ok write =>
      rw [hwrite] at houtcome
      have hle := le_persisted_apply hready.1 hwrite node.db
      have hgrows := hready.2.trans hle
      have hblock : block.header.height.toNat ≤ persisted env.tm (node.db.apply write) := by
        rw [← show state.lastStoreHeight = block.header.height from hknown]
        exact hle
      cases answer with
      | ok =>
        obtain ⟨rfl, rfl⟩ := Prod.mk.inj houtcome
        exact
          { height_le := le_rfl
            persisted_le := hgrows
            height_eq := fun _ => rfl
            covered := hcovered.trans hgrows
            known := hblock
            alone := False.elim }
      | failBefore =>
        obtain ⟨rfl, rfl⟩ := Prod.mk.inj houtcome
        exact .of_eq hcovered rfl rfl trivial False.elim
      | failAfter =>
        obtain ⟨rfl, rfl⟩ := Prod.mk.inj houtcome
        exact
          { height_le := le_rfl
            persisted_le := hgrows
            height_eq := fun _ => rfl
            covered := hcovered.trans hgrows
            known := trivial
            alone := False.elim }

theorem Known.stable {other : Point} (hknown : Known env point node)
    (heffect : Effect env other node later)
    (hwriting : Writing other → ¬ Writing point) : Known env point later := by
  have hheight := heffect.height_le
  have hpersisted := heffect.persisted_le
  cases point with
  | idle | loadState | storeBase | finishBlock | readBase | ended => trivial
  | setHeight | setLastState => exact hknown.trans hpersisted
  | returned height => exact hknown.trans hheight
  | updateState block state => exact hknown
  | swap height seen =>
    have hsame := heffect.height_eq fun hother => hwriting hother trivial
    exact ⟨hsame.trans hknown.1, hknown.2.1, hknown.2.2.trans hpersisted⟩
  | storeHeight state =>
    have hsame := heffect.height_eq fun hother => hwriting hother trivial
    refine ⟨?_, hknown.2.trans hpersisted⟩
    rw [hsame]
    exact hknown.1

theorem certificate (env : Env α) :
    Certificate (program env) (Orderly env) (Covered env) (Known env) Writing where
  call config thread entry hcovered hguard hentry := by
    cases entry with
    | setHeight height => exact ⟨hguard, id⟩
    | loadState | finishBlock => exact ⟨trivial, id⟩
    | _ => cases hentry
  step config thread answer next hcovered hknown hguard hstep :=
    have hstepped := stepped hcovered hknown hguard hstep
    ⟨hstepped.covered, hstepped.known, hstepped.alone⟩
  others config thread answer next point hcovered hknown hguard hstep hpoint
      hwriting :=
    hpoint.stable (stepped hcovered hknown hguard hstep).toEffect hwriting

theorem height_le_of_move {config next : Config (Node α) Point} {label : Label Answer Point}
    (hconfig : Holds (Covered env) (Known env) Writing config)
    (hguard : Orderly env config label)
    (hmove : (program env).move config label = some next) :
    config.state.height.toNat ≤ next.state.height.toNat := by
  cases label with
  | call thread entry =>
    rw [Program.move, Option.ite_none_right_eq_some] at hmove
    obtain rfl := Option.some.inj hmove.2
    exact le_rfl
  | step thread answer =>
    obtain ⟨after, hafter, rfl⟩ := Option.map_eq_some_iff.1 hmove
    exact (stepped hconfig.inv (hconfig.holds thread) hguard hafter).height_le

end

/-- In every run whose moves are orderly, the height never decreases, and a
`SetHeight` that has returned has set it. -/
theorem height_never_decreases {α : Type} (env : Env α) (node : Node α)
    (hnode : Covered env node) (labels : List (Label Answer Point))
    (horderly : ∀ move ∈ ((program env).lts node .idle).path
      ⟨node, fun _ => .idle⟩ labels, Orderly env move.source move.label) :
    ∀ move ∈ ((program env).lts node .idle).path ⟨node, fun _ => .idle⟩ labels,
      move.source.state.height.toNat ≤ move.target.state.height.toNat ∧
      ∀ thread height, move.target.point thread = .returned height →
        height.toNat ≤ move.target.state.height.toNat := by
  have hidle : Known env .idle node := trivial
  have hwriting : ¬ Writing .idle := id
  intro move hmove
  obtain ⟨hsource, hstep, htarget⟩ :=
    (certificate env).sound hnode hidle hwriting horderly move hmove
  constructor
  · exact height_le_of_move hsource (horderly move hmove) hstep
  · intro thread height hreturned
    have hknown := htarget.holds thread
    rw [hreturned] at hknown
    exact hknown

namespace Reference

open Types.Reference Manager.Reference

def stateAt (height : UInt64) : State :=
  { (default : State) with
    lastBlockHeight := height.toInt64
    nextValidators := validatorSet
    validators := validatorSet
    lastValidators := validatorSet
    lastStoreHeight := height }

def nodeAt (height : UInt64) : Node (List Tx) :=
  { freshNode [] with
    db := Db.empty.apply ⟨.state, some ((stateAt height).message env.tm
      validatorSet validatorSet validatorSet)⟩
    height := height
    lastState := stateAt height }

def hasReturned (height : UInt64) : Point → Bool
  | .returned other => other = height
  | _ => false

theorem returned_of_hasReturned {height : UInt64}
    (hpoint : hasReturned height point = true) : point = .returned height := by
  cases point with
  | returned other => rw [of_decide_eq_true hpoint]
  | _ => cases hpoint

def run (thread count : ℕ) : List (Label Answer Point) := List.replicate count (.step thread .ok)

/-- `LoadState` reads the state; `applyBlock` then finishes block 2; and then
`LoadState` goes on. -/
def staleLoad : List (Label Answer Point) :=
  [.call 0 .loadState] ++ run 0 1 ++ [.call 1 (.finishBlock poolSecond (stateAt 1))] ++
    run 1 6 ++ run 0 2

/-- Two calls of `SetHeight` load the same height. -/
def lostSwap : List (Label Answer Point) :=
  [.call 0 (.setHeight 3), .call 1 (.setHeight 2)] ++ run 0 1 ++ run 1 2 ++ run 0 1

def inTurn : List (Label Answer Point) :=
  [.call 0 (.finishBlock poolSecond (stateAt 1))] ++ run 0 6 ++
    [.call 1 .loadState] ++ run 1 3 ++ [.call 2 (.setHeight 2)] ++ run 2 1

/-- `Alone` for runs of the first three threads. -/
def aloneBelow (config : Config (Node (List Tx)) Point) (thread : ℕ) : Prop :=
  ∀ other < 3, other ≠ thread → ¬ Writing (config.point other)

instance (point : Point) : Decidable (Writing point) :=
  match point with
  | .swap _ _ | .storeHeight _ => .isTrue trivial
  | .idle | .setHeight _ | .returned _ | .loadState | .storeBase _
  | .finishBlock _ _ | .readBase _ _ _ | .updateState _ _ | .setLastState _ _
  | .ended => .isFalse id

instance (config : Config (Node (List Tx)) Point) (thread : ℕ) :
    Decidable (aloneBelow config thread) :=
  inferInstanceAs (Decidable (∀ other < 3, other ≠ thread → ¬ Writing (config.point other)))

def orderlyBelow (config : Config (Node (List Tx)) Point) : Label Answer Point → Bool
  | .call _ (.setHeight height) =>
    height.toNat ≤ persisted env.tm config.state.db
  | .call _ _ => true
  | .step thread _ =>
    match config.point thread with
    | .setHeight height => height ≤ config.state.height ∨ aloneBelow config thread
    | .loadState => aloneBelow config thread
    | .updateState _ state =>
      state.nextValidators = validatorSet ∧ state.validators = validatorSet ∧
        state.lastValidators = validatorSet ∧
        persisted env.tm config.state.db ≤ state.lastStoreHeight.toNat
    | _ => true

theorem orderly_of_below {config : Config (Node (List Tx)) Point}
    {label : Label Answer Point} (hbelow : orderlyBelow config label = true)
    (hidle : ∀ thread, 3 ≤ thread → config.point thread = .idle) :
    Orderly env config label := by
  have halone {thread : ℕ} (hthread : aloneBelow config thread) : Alone config thread := by
    intro other hother
    by_cases hlt : other < 3
    · exact hthread other hlt hother
    · rw [hidle other (by omega)]
      exact id
  cases label with
  | call thread entry =>
    cases entry with
    | setHeight height =>
      have hle : height.toNat ≤ persisted env.tm config.state.db := of_decide_eq_true hbelow
      exact hle
    | _ => trivial
  | step thread answer =>
    rw [orderlyBelow] at hbelow
    change Ready env config.state (Alone config thread) (config.point thread)
    cases hpoint : config.point thread with
    | setHeight height =>
      rw [hpoint] at hbelow
      intro hlt
      rcases of_decide_eq_true hbelow with hle | hthread
      · exact absurd hlt (UInt64.not_lt.2 hle)
      · exact halone hthread
    | loadState =>
      rw [hpoint] at hbelow
      exact halone (of_decide_eq_true hbelow)
    | updateState block state =>
      rw [hpoint] at hbelow
      obtain ⟨hnext, hvalidators, hlast, hle⟩ := of_decide_eq_true hbelow
      have hset := Storage.Reference.encodable_validatorSet
      refine ⟨⟨?_, ?_, ?_, rfl⟩, hle⟩
      · rw [hnext]
        exact hset
      · rw [hvalidators]
        exact hset
      · rw [hlast]
        exact hset
    | _ => trivial

end Reference

open Reference Manager.Reference in
/-- A `LoadState` that overlaps the end of `applyBlock` puts the height back, and
of two overlapping calls of `SetHeight` the higher one is lost. -/
theorem height_put_back_and_lost : (∃ move ∈ ((program env).lts (nodeAt 1) .idle).path
        ⟨nodeAt 1, fun _ => .idle⟩ staleLoad,
      move.source.state.height = 2 ∧ move.target.state.height = 1) ∧
    ∃ move ∈ ((program env).lts (nodeAt 1) .idle).path ⟨nodeAt 1, fun _ => .idle⟩ lostSwap,
      move.target.point 0 = .returned 3 ∧ move.target.state.height = 2 := by
  have hstale : ((2 : UInt64), (1 : UInt64)) ∈ (((program env).lts (nodeAt 1)
      .idle).path ⟨nodeAt 1, fun _ => .idle⟩ staleLoad).map fun move =>
        (move.source.state.height, move.target.state.height) := by
    decide +kernel
  have hlost : (true, (2 : UInt64)) ∈ (((program env).lts (nodeAt 1)
      .idle).path ⟨nodeAt 1, fun _ => .idle⟩ lostSwap).map fun move =>
        (hasReturned 3 (move.target.point 0), move.target.state.height) := by
    decide +kernel
  constructor
  · obtain ⟨move, hmove, hheights⟩ := List.mem_map.1 hstale
    exact ⟨move, hmove, congrArg Prod.fst hheights, congrArg Prod.snd hheights⟩
  · obtain ⟨move, hmove, hview⟩ := List.mem_map.1 hlost
    exact ⟨move, hmove, returned_of_hasReturned (congrArg Prod.fst hview), congrArg Prod.snd hview⟩

open Reference Manager.Reference in
/-- The same calls, one after the other, take the height to 2. -/
theorem height_never_decreases_reference : Covered env (nodeAt 1) ∧
      (∀ move ∈ ((program env).lts (nodeAt 1) .idle).path
        ⟨nodeAt 1, fun _ => .idle⟩ inTurn, Orderly env move.source move.label) ∧
      ∃ move ∈ ((program env).lts (nodeAt 1) .idle).path ⟨nodeAt 1, fun _ => .idle⟩ inTurn,
        move.source.state.height = 1 ∧ move.target.state.height = 2 ∧
        move.source.state.height.toNat ≤ move.target.state.height.toNat := by
  have hcovered : Covered env (nodeAt 1) := by
    unfold Covered
    decide +kernel
  have hbelow : ∀ move ∈ ((program env).lts (nodeAt 1) .idle).path
      ⟨nodeAt 1, fun _ => .idle⟩ inTurn,
      orderlyBelow move.source move.label = true := by
    rw [← List.all_eq_true]
    decide +kernel
  have hthreads : ∀ label ∈ inTurn, label.thread < 3 := by
    have hall : inTurn.all (fun label => decide (Label.thread label < 3)) = true := by
      decide +kernel
    intro label hlabel
    exact of_decide_eq_true (List.all_eq_true.1 hall label hlabel)
  have hidle := Program.point_eq_idle (program env) (nodeAt 1) Point.idle hthreads
  have horderly : ∀ move ∈ ((program env).lts (nodeAt 1) .idle).path
      ⟨nodeAt 1, fun _ => .idle⟩ inTurn, Orderly env move.source move.label :=
    fun move hmove => orderly_of_below (hbelow move hmove) (hidle move hmove)
  have hrises : ((1 : UInt64), (2 : UInt64)) ∈ (((program env).lts (nodeAt 1)
      .idle).path ⟨nodeAt 1, fun _ => .idle⟩ inTurn).map fun move =>
        (move.source.state.height, move.target.state.height) := by
    decide +kernel
  obtain ⟨move, hmove, hheights⟩ := List.mem_map.1 hrises
  have hle := height_never_decreases env (nodeAt 1) hcovered inTurn horderly move hmove
  exact ⟨hcovered, horderly, move, hmove, congrArg Prod.fst hheights,
    congrArg Prod.snd hheights, hle.1⟩

end Dymint.StoreHeight
