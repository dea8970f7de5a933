import Dymint.Block.CallHistory
import Dymint.Core.Gated

/-!
# Overlapping calls of `applyBlock`

The gossip callback, the retrieve loop and `produceBlock` each call `applyBlock` from a
goroutine of their own.  A call compares the height of its block with the height of the
store in its first step; only `produceBlock` holds a mutex, and no other call takes it.
-/

namespace Dymint.Manager

open Procedure Dymint.Types Store CrashSystem Runs

/-- The goroutines that call `applyBlock`, each one call after another. -/
inductive Caller where
  | gossip
  | retrieve
  | produce
  deriving DecidableEq

instance : Fintype Caller where
  elems := {.gossip, .retrieve, .produce}
  complete caller := by cases caller <;> decide

section

variable {α : Type} (env : Env α)

/-- `applyBlock` after its comparison of the heights. -/
def applyGate : Gated.Gate (Node α) Answer Error (Block × Commit) := fun (block, commit) node =>
    if block.header.height ≠ node.height + 1 then none
    else some do
      let isAlignRequired ← alignStoreWithApp env block
      if isAlignRequired then return ()
      else applyNextBlock env block commit

theorem applyBlock_eq_gate (block : Block) (commit : Commit) : applyBlock env block commit =
      .atom (fun _ node => node) fun _ node =>
        (applyGate env (block, commit) node).getD (pure ()) := by
  have hgate (node : Node α) : (if block.header.height ≠ node.height + 1 then return ()
      else do
        let isAlignRequired ← alignStoreWithApp env block
        if isAlignRequired then return ()
        else applyNextBlock env block commit : M α Unit) =
      (applyGate env (block, commit) node).getD (pure ()) := by
    rw [applyGate]
    split <;> rfl
  calc applyBlock env block commit = .atom (fun _ node => node) fun _ node =>
          (if block.header.height ≠ node.height + 1 then return ()
          else do
            let isAlignRequired ← alignStoreWithApp env block
            if isAlignRequired then return ()
            else applyNextBlock env block commit : M α Unit) := rfl
    _ = _ := by
        congr 1
        funext _ node
        exact hgate node

/-- A specification of `applyBlock` is one of what is left after the comparison. -/
theorem wp_applyGate {rules : Proc.Rules (Node α) Answer} {post : Result Error Unit → Node α → Prop}
    {node : Node α} {block : Block} {commit : Commit} {rest : M α Unit}
    (hallowed : rules.allowed node .ok) (hgate : applyGate env (block, commit) node = some rest)
    (happly : (applyBlock env block commit).wp rules post node) : rest.wp rules post node := by
  rw [applyBlock_eq_gate] at happly
  have hrest : ((applyGate env (block, commit) node).getD (pure ())).wp rules post
      node := happly.2 .ok hallowed
  rw [hgate] at hrest
  exact hrest

end

/-- The calls form a word of the language of the application, in which blocks are
begun, executed, ended and committed one after another, and no height was begun
twice. -/
structure OneByOne {α : Type} (node : Node α) : Prop where
  word : node.history.stage ≠ none
  once : node.history.begun.Nodup

/-- In every run in which a call passes its comparison only while no other call is
past it and the application is between two blocks, the application sees the blocks one
by one. -/
theorem blocks_one_by_one {α : Type} (env : Env α) (app : α) {node : Node α}
    (hnode : Reachable (system env) betweenGuard (freshNode app) ⟨node, .idle⟩)
    (labels : List (Gated.Label Answer (Block × Commit) Caller))
    (hexclusive : ∀ move ∈ (Gated.lts (applyGate env) node).path
        (Gated.lts (applyGate env) node).start labels,
      Gated.Exclusive (applyGate env)
        (fun node => node.history.stage = some .between) move.source move.label) :
    ∀ move ∈ (Gated.lts (applyGate env) node).path (Gated.lts (applyGate env) node).start labels,
      OneByOne move.target.state := by
  have hquiet : node.core.Idle True ∧ Orderly node := (orderly_certificate env app).holds hnode
  have hgate (node : Node α) (request : Block × Commit) (rest : M α Unit)
      (hnode : node.core.Idle True ∧ Orderly node)
      (hready : node.history.stage = some .between)
      (hopen : applyGate env request node = some rest) :
      rest.wp (.anyAnswer Answer fun node => node.core.Always True ∧ Orderly node)
        (Proc.Ends (fun _ node => node.core.Idle True ∧ Orderly node)
          (fun node => node.core.Idle True ∧ Orderly node)
          (fun node => node.core.Always True ∧ Orderly node)) node := by
    have hrules (node : Node α) (hnode : node.core.Always True ∧ Orderly node) :
        (Proc.Rules.anyAnswer Answer
          fun node : Node α => node.core.Always True ∧ Orderly node).crash node := hnode
    have happly := (orderly_apply hrules env).applyBlock node request.1 request.2
      ⟨hnode.1, hnode.2, hready⟩
    apply Proc.wp_ends_mono (wp_applyGate env trivial hopen happly)
    intro _ later hlater
    exact ⟨hlater.1, hlater.2.1⟩
  intro move hmove
  have horderly := Gated.forall_path_of_exclusive
    (fun node hnode => ⟨hnode.1.always, hnode.2⟩) hgate hquiet hexclusive move hmove
  exact ⟨horderly.2.word, horderly.2.once⟩

instance {α : Type} (env : Env α) (ready : Node α → Prop) [DecidablePred ready]
    (config : Gated.Config (Node α) Answer Error (Block × Commit) Caller)
    (label : Gated.Label Answer (Block × Commit) Caller) :
    Decidable (Gated.Exclusive (applyGate env) ready config label) :=
  match label with
  | .enter thread =>
    match htask : config.task thread with
    | .waiting request =>
      decidable_of_iff ((applyGate env request config.state).isSome →
        ready config.state ∧ ∀ other, ¬ (config.task other).Running)
        (by simp [Gated.Exclusive, htask])
    | .idle | .running _ => .isTrue (by simp [Gated.Exclusive, htask])
  | .call _ _ | .step _ _ | .ret _ => .isTrue trivial

namespace Reference

open Types.Reference

def delivered : Block × Commit := (poolFirst, commitFor poolFirst.header)

def callerSteps (caller : Caller) (count : ℕ) : List (Gated.Label Answer (Block × Commit) Caller) :=
  List.replicate count (.step caller .ok)

def overlapping : List (Gated.Label Answer (Block × Commit) Caller) :=
  [.call .gossip delivered, .call .retrieve delivered, .enter .gossip,
    .enter .retrieve] ++ callerSteps .gossip 5 ++ callerSteps .retrieve 5

def oneAfterAnother : List (Gated.Label Answer (Block × Commit) Caller) :=
  [.call .gossip delivered, .call .retrieve delivered, .enter .gossip] ++
    callerSteps .gossip 25 ++ [.ret .gossip, .enter .retrieve]

def callersPath (node : Node (List Tx))
    (labels : List (Gated.Label Answer (Block × Commit) Caller)) :=
  (Gated.lts (applyGate env) node).path (Gated.lts (applyGate env) node).start labels

def begunTwice (node : Node (List Tx)) : Bool := (callersPath node overlapping).any fun move =>
    move.target.state.app.calls = [.initChain, .beginBlock 1, .beginBlock 1]

def committedOnce (node : Node (List Tx)) : Bool :=
  (callersPath node oneAfterAnother).any fun move =>
    move.target.state.app.calls = [.initChain, .beginBlock 1, .deliverTx, .endBlock 1, .commit 1] ∧
      move.target.state.height = 1

def excludeEachOther (node : Node (List Tx)) : Bool :=
  (callersPath node oneAfterAnother).all fun move =>
    Gated.Exclusive (applyGate env) (fun node => node.history.stage = some .between)
      move.source move.label

end Reference

open Reference

/-- The same block comes by gossip and from the data availability layer, and the
application sees it begun twice. -/
theorem block_begun_by_two_callers :
    ∃ node, Reachable (system Reference.env) betweenGuard (freshNode []) ⟨node, .idle⟩ ∧
      ∃ move ∈ (Gated.lts (applyGate Reference.env) node).path
          (Gated.lts (applyGate Reference.env) node).start overlapping,
        move.target.state.app.calls = [.initChain, .beginBlock 1, .beginBlock 1] ∧
        ¬ OneByOne move.target.state := by
  have hrun : ((system Reference.env).runGuarded betweenGuard ⟨freshNode [], .down⟩
      firstBoot).map (fun config => isIdle config &&
        decide (begunTwice config.state = true)) = some true := by
    decide +kernel
  obtain ⟨node, hnode, hany⟩ := exists_idle_of_runGuarded
    (p := fun node => begunTwice node = true) _ hrun
  obtain ⟨move, hmove, hcalls⟩ := List.any_eq_true.1 hany
  have hcalls := of_decide_eq_true hcalls
  refine ⟨node, hnode, move, hmove, hcalls, fun hone => hone.word ?_⟩
  rw [Node.history, hcalls]
  rfl

theorem blocks_one_by_one_reference :
    ∃ node, Reachable (system Reference.env) betweenGuard (freshNode []) ⟨node, .idle⟩ ∧
      (∃ move ∈ (Gated.lts (applyGate Reference.env) node).path
          (Gated.lts (applyGate Reference.env) node).start oneAfterAnother,
        move.target.state.app.calls =
            [.initChain, .beginBlock 1, .deliverTx, .endBlock 1, .commit 1] ∧
          move.target.state.height = 1) ∧
      ∀ move ∈ (Gated.lts (applyGate Reference.env) node).path
          (Gated.lts (applyGate Reference.env) node).start oneAfterAnother,
        OneByOne move.target.state := by
  have hrun : ((system Reference.env).runGuarded betweenGuard ⟨freshNode [], .down⟩
      firstBoot).map (fun config => isIdle config &&
        decide (committedOnce config.state = true ∧
          excludeEachOther config.state = true)) = some true := by
    decide +kernel
  obtain ⟨node, hnode, hcommitted, hexclude⟩ := exists_idle_of_runGuarded
    (p := fun node => committedOnce node = true ∧ excludeEachOther node = true) _ hrun
  obtain ⟨move, hmove, hcalls⟩ := List.any_eq_true.1 hcommitted
  refine ⟨node, hnode, ⟨move, hmove, of_decide_eq_true hcalls⟩, ?_⟩
  apply blocks_one_by_one Reference.env [] hnode
  intro move hmove
  exact of_decide_eq_true (List.all_eq_true.1 hexclude move hmove)

end Dymint.Manager
