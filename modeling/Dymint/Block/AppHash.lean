import Dymint.Block.Panics
import Dymint.Block.Reference

/-!
# Two ways to record the hash of the application

After the application's commit, `executor.Commit` copies the hash that it returns over the
one in the state.  After a crash between this commit and the end of `applyBlock`,
`alignStoreWithApp` takes the hash from the application's `Info` and converts it to an
array instead.  The two agree on hashes of at least 32 bytes; the conversion panics on
shorter ones, of which the copy leaves the old tail in place.
-/

namespace Dymint.Types.FixedBytes

variable {n : ℕ}

/-- A copy of a source that is long enough keeps nothing of the old array. -/
theorem copy_of_le (dst : FixedBytes n) {src : Bytes} (hle : n ≤ src.length) :
    ofSlice? n src = some (dst.copy src) := by
  rw [ofSlice?, dif_pos hle]
  congr 1
  apply ext
  change src.take n = src.take n ++ dst.bytes.drop src.length
  rw [List.drop_eq_nil_of_le (dst.length_bytes.trans_le hle), List.append_nil]

theorem ofSlice?_of_lt {src : Bytes} (hlt : src.length < n) : ofSlice? n src = none := by
  rw [ofSlice?, dif_neg hlt.not_ge]

end Dymint.Types.FixedBytes

namespace Dymint.Manager

open Procedure Dymint.Types Store

variable {α β : Type}

abbrev Records (hash : Hash) : Result Error β → Node α → Prop :=
  Proc.Ends (fun _ later => later.lastState.appHash = hash) (fun _ => True) (fun _ => False)

section

variable {node : Node α} {hash : Hash}

theorem wp_records_of_keeps {proc : M α β} (hkeeps : proc.Keeps fun node => node.lastState.appHash)
    (hpanic : proc.PanicFree fun _ => True) (hnode : node.lastState.appHash = hash) :
    proc.wp anyStep (Records hash) node := by
  have hframe : proc.wp anyStep
      (fun _ later => later.lastState.appHash = node.lastState.appHash) node :=
    hkeeps.wp fun _ _ => trivial
  have hfree : proc.wp anyStep (fun result _ => result ≠ .panic) node := hpanic.wp fun _ => trivial
  apply Proc.wp_conseq (wp_anyStep_and hframe hfree)
  intro result later hlater
  cases result with
  | ok value => exact hlater.1.trans hnode
  | err error => trivial
  | panic => exact hlater.2 rfl

variable (env : Env α) (block : Block)

theorem wp_records_alignStoreWithApp
    (hheight : node.app.lastBlockHeight.toUInt64 = block.header.height)
    (hslice : FixedBytes.ofSlice? 32 node.app.lastBlockAppHash = some hash) :
    (alignStoreWithApp env block).wp anyStep (Records hash) node := by
  rw [alignStoreWithApp, Proc.wp_bind, getAppInfo, wp_callWith]
  refine ⟨trivial, fun _ => ?_, fun _ => trivial, fun _ => trivial⟩
  change (if node.app.lastBlockHeight.toUInt64 ≠ block.header.height then _
    else _ : M α Bool).wp anyStep (Records hash) node
  rw [if_neg (not_not.2 hheight), hslice]
  apply wp_modifyLastState_bind trivial
  -- from here on the hash stays, and nothing panics
  have hset : (node.mapState fun state => state.setAppHash hash).lastState.appHash = hash := rfl
  refine wp_records_of_keeps ?_ ?_ hset
  · apply Proc.Keeps.bind (Proc.keeps_op fun _ _ => rfl)
    intro _
    apply Proc.Keeps.bind (Proc.keeps_op fun _ _ => rfl)
    intro _
    apply Proc.Keeps.bind (keeps_query _ _)
    intro responses
    apply Proc.Keeps.bind (Proc.keeps_op fun _ _ => rfl)
    intro _
    apply Proc.Keeps.bind keeps_getLastState
    intro state
    apply Proc.Keeps.bind (keeps_callWith fun node => by split <;> rfl)
    intro _
    apply Proc.Keeps.bind (keeps_setHeight_of _ fun _ => rfl)
    intro _
    exact Proc.keeps_pure true
  · apply (panicFree_write _).bind
    intro _
    apply (panicFree_write _).bind
    intro _
    apply Proc.PanicFree.bind
    · exact panicFree_callWith fun _ => loadBlockResponses_ne_panic _ _
    intro responses
    apply (panicFree_write _).bind
    intro _
    apply (panicFree_read _).bind
    intro state
    apply (panicFree_updateStoreState env _ _).bind
    intro _
    apply (panicFree_setHeight _).bind
    intro _
    exact Proc.panicFree_pure true

theorem wp_commitBlock_appHash (state : State) (responses : ABCIResponses) (node : Node α) :
    (commitBlock env state block responses).wp anyStep
      (Proc.Ends (fun committed _ => committed.1.appHash =
          state.appHash.copy (env.app.commit node.app.working).2.data)
        (fun _ => True) (fun _ => False)) node := by
  have hexternal (rest : Unit → M α (State × Int64))
      {post : Result Error (State × Int64) → Node α → Prop} {node : Node α}
      (herr : ∀ error, post (.err error) node)
      (hrest : (rest ()).wp anyStep post node) :
      (external >>= rest).wp anyStep post node := by
    rw [Proc.wp_bind, external, wp_callWith]
    exact ⟨trivial, fun _ => hrest, fun _ => herr _, fun _ => herr _⟩
  apply hexternal _ fun _ => trivial
  rw [Proc.wp_bind, commitSync, wp_callWith]
  refine ⟨trivial, fun _ => ?_, fun _ => trivial, fun _ => trivial⟩
  apply hexternal _ fun _ => trivial
  rw [Proc.wp_bind, publishEvents, wp_callWith]
  exact ⟨trivial, fun _ => rfl, fun _ => trivial, fun _ => trivial⟩

end

/-- The hash that `executor.Commit` leaves in the state is the one that the alignment
leaves there when the application reports the same bytes later on, and neither of them
panics, exactly if there are at least 32 bytes. -/
theorem app_hash_recorded_alike_iff (env : Env α) (block : Block) (state : State)
    (responses : ABCIResponses) (node later : Node α)
    (hbytes : later.app.lastBlockAppHash = (env.app.commit node.app.working).2.data)
    (hheight : later.app.lastBlockHeight.toUInt64 = block.header.height) :
    ((∀ answers, ((commitBlock env state block responses).exec answers node).2 ≠ .panic) ∧
      (∀ answers, ((alignStoreWithApp env block).exec answers later).2 ≠ .panic) ∧
      ∀ answers answers' committed required,
        ((commitBlock env state block responses).exec answers node).2 = .ok committed →
        ((alignStoreWithApp env block).exec answers' later).2 = .ok required →
          ((alignStoreWithApp env block).exec answers' later).1.lastState.appHash =
            committed.1.appHash) ↔
      32 ≤ (env.app.commit node.app.working).2.data.length := by
  constructor
  · rintro ⟨_, haligned, _⟩
    by_contra hshort
    apply haligned fun _ => .ok
    have hslice : FixedBytes.ofSlice? 32 later.app.lastBlockAppHash = none := by
      rw [hbytes]
      exact FixedBytes.ofSlice?_of_lt (not_le.1 hshort)
    change ((if later.app.lastBlockHeight.toUInt64 ≠ block.header.height then _
      else _ : M α Bool).exec _ later).2 = .panic
    rw [if_neg (not_not.2 hheight), hslice]
    rfl
  · intro hlong
    have hslice := FixedBytes.copy_of_le state.appHash hlong
    rw [← hbytes] at hslice
    have hcommit (answers : ℕ → Answer) := Proc.exec_of_wp
      (wp_commitBlock_appHash env block state responses node) answers
      fun _ _ => trivial
    have halign (answers : ℕ → Answer) := Proc.exec_of_wp
      (wp_records_alignStoreWithApp env block hheight hslice) answers
      fun _ _ => trivial
    refine ⟨?_, ?_, ?_⟩
    · intro answers hpanic
      have hend := hcommit answers
      rw [hpanic] at hend
      exact hend
    · intro answers hpanic
      have hend := halign answers
      rw [hpanic] at hend
      exact hend
    · intro answers answers' committed required hcommitted hrequired
      have hleft := halign answers'
      have hright := hcommit answers
      rw [hrequired] at hleft
      rw [hcommitted] at hright
      rw [hbytes] at hleft
      exact hleft.trans hright.symm

namespace Reference

open Types.Reference

def shortEnv : Env (List Tx) :=
  { env with app := { application with commit := fun txs => (txs, ⟨[1], 0⟩) } }

def begunNode : Node (List Tx) :=
  let node : Node (List Tx) := freshNode []
  { node with app := { node.app with workingHeight := 1 } }

def committedNode (env : Env (List Tx)) : Node (List Tx) :=
  { begunNode with
    app := begunNode.app.commit [] (env.app.commit begunNode.app.working).2.data }

def noResponses : ABCIResponses := ⟨default, [], default⟩

end Reference

open Reference

/-- A hash of one byte is copied over the first byte of the old one, and the alignment
panics on it. -/
theorem short_app_hash_panics : ((commitBlock shortEnv
        ((default : State).setAppHash (Types.Reference.digest [8, 9]))
        poolFirst noResponses).exec (fun _ => .ok) begunNode).2 =
      .ok ((default : State).setAppHash (Types.Reference.digest [1, 9]), 0) ∧
    ((alignStoreWithApp shortEnv poolFirst).exec (fun _ => .ok)
      (committedNode shortEnv)).2 = .panic := by
  decide +kernel

theorem app_hash_recorded_alike_reference :
    32 ≤ (Reference.env.app.commit begunNode.app.working).2.data.length ∧
      ∀ answers, ((alignStoreWithApp Reference.env poolFirst).exec answers
        (committedNode Reference.env)).2 ≠ .panic := by
  have hlong : 32 ≤ (Reference.env.app.commit begunNode.app.working).2.data.length :=
    (commit_length _).ge
  have halike := (app_hash_recorded_alike_iff Reference.env poolFirst default
    noResponses begunNode (committedNode Reference.env) rfl
    (by decide)).2 hlong
  exact ⟨hlong, halike.2.1⟩

end Dymint.Manager
