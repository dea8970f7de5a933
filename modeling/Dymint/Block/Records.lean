import Dymint.Block.ExactlyOnce
import Dymint.Block.Pruning

/-!
# Invariants of the stored blocks

A call of `applyBlock` changes the stored blocks in three ways: it saves the block
it tries, above the heights that the application has committed; the application
commits that block once it has been accepted; and then heights below it may be
pruned.  A property that survives these three survives every call, whatever
fails on the way.
-/

namespace Dymint.Manager

open Procedure Dymint.Types Store CrashSystem

variable {α β : Type} {rules : Proc.Rules (Node α) Answer} {node : Node α}

def OfRecords (keep : Db → UInt64 → Prop) : Prop :=
  ∀ (before after : Db) (appHeight : UInt64), keep before appHeight →
    after.blockRecords = before.blockRecords → keep after appHeight

/-- A property of the stored blocks and of the height of the application is
kept: by pruning up to `limit`, and by trying blocks with `tried`. -/
structure Maintained (env : Env α) (limit : UInt64)
    (tried : Block → Commit → Prop) (keep : Db → UInt64 → Prop) : Prop where
  records : OfRecords keep
  prune : ∀ {db : Db} {appHeight bound : UInt64} {heights : List UInt64},
    keep db appHeight → bound.toNat < appHeight.toNat →
    bound.toNat ≤ limit.toNat →
    (∀ height ∈ heights, height.toNat < bound.toNat) →
    keep (db.pruneAll heights) appHeight
  save : ∀ {db : Db} {appHeight : UInt64} {block : Block} {commit : Commit},
    keep db appHeight → tried block commit →
    block.header.height.toNat = appHeight.toNat + 1 →
    keep (db.commit (saveBlock env.tm block commit)) appHeight
  accept : ∀ {db : Db} {appHeight : UInt64} {block : Block} {commit : Commit},
    keep db appHeight → tried block commit →
    block.header.height.toNat = appHeight.toNat + 1 →
    keep (db.commit (saveBlock env.tm block commit)) block.header.height

/-- Pruning may go as far as the store allows. -/
def noLimit : UInt64 := UInt64.ofNat (2 ^ 64 - 1)

theorem toNat_le_noLimit (height : UInt64) : height.toNat ≤ noLimit.toNat :=
  Nat.le_pred_of_lt height.toNat_lt

def Node.Kept (keep : Db → UInt64 → Prop) (node : Node α) : Prop :=
  keep node.db node.app.lastBlockHeight.toUInt64

/-- What the property looks at. -/
def keptView (node : Node α) : BlockRecords × Int64 :=
  (node.db.blockRecords, node.app.lastBlockHeight)

theorem ignoresProgress_keptView : IgnoresProgress (keptView : Node α → BlockRecords × Int64) where
  lastState _ _ := rfl
  height _ _ := rfl
  batch node _ hbatch := Prod.ext (blockRecords_of_isProgress node.db hbatch) rfl

variable {later : Node α} {block : Block} {commit : Commit} {point : Point}

section

variable {env : Env α} {limit : UInt64} {tried : Block → Commit → Prop}
variable {keep : Db → UInt64 → Prop}

theorem OfRecords.of_view (hrecords : OfRecords keep) (hkept : node.Kept keep)
    (hview : keptView later = keptView node) : later.Kept keep := by
  have hsame : later.db.blockRecords = node.db.blockRecords := congrArg Prod.fst hview
  have happ : later.app.lastBlockHeight = node.app.lastBlockHeight := congrArg Prod.snd hview
  unfold Node.Kept
  rw [happ]
  exact hrecords _ _ _ hkept hsame

/-- A procedure that leaves the stored blocks and the application's height
alone. -/
theorem OfRecords.wp_view (hrecords : OfRecords keep) {proc : M α β} (hkeeps : proc.Keeps keptView)
    (hrules : ∀ node : Node α, node.Kept keep → rules.crash node) (hkept : node.Kept keep) :
    proc.wp rules (fun _ later => later.Kept keep) node := by
  apply Proc.wp_conseq (hkeeps.wp fun later hlater => hrules later (hrecords.of_view hkept hlater))
  intro _ later hlater
  exact hrecords.of_view hkept hlater

/-! ## The course of a call -/

def Node.KeptAt (keep : Db → UInt64 → Prop) (block : Block) (node : Node α) : Point → Prop
  | .delivering .. | .executed _ | .remembered _ | .persisted _ =>
    node.Kept keep ∧ keep node.db block.header.height
  | _ => node.Kept keep

section

variable {start : Node α} (hmaint : Maintained env limit tried keep)
variable (hduring : During env block commit start point later)

include hmaint hduring

theorem During.keptAt_of (hlimit : start.syncTarget.toNat ≤ limit.toNat)
    (hlt : start.height.toNat < block.header.height.toNat)
    (hstart : point = .start → start.Kept keep)
    (haligned : start.app.lastBlockHeight.toUInt64 = block.header.height → start.Kept keep)
    (hsave : start.app.lastBlockHeight.toUInt64 ≠ block.header.height → keep (start.db.commit
      (saveBlock env.tm block commit)) start.app.lastBlockHeight.toUInt64)
    (haccept : Accepts env block commit start → keep (start.db.commit (saveBlock env.tm block
      commit)) block.header.height) : later.KeptAt keep block point := by
  induction hduring with
  | start => exact hstart rfl
  | hashed happ => exact haligned happ
  | saved happ => exact hsave happ
  | begun hnow hvalid ih =>
    have haccepts := (hnow.begun hvalid).reached
    obtain rfl := hnow.eq_saved
    exact ⟨hsave haccepts.1, haccept haccepts⟩
  | caughtUp _ _ ih | stored _ _ ih =>
    exact hmaint.records _ _ _ (ih nofun) (blockRecords_stateWrite ..)
  | persisted _ _ _ ih =>
    exact ⟨hmaint.records _ _ _ (ih nofun).1 (blockRecords_executionWrite ..),
      hmaint.records _ _ _ (ih nofun).2 (blockRecords_executionWrite ..)⟩
  | @committed now _ hnow ih =>
    change keep now.db now.app.workingHeight.toUInt64
    rw [hnow.appHeights.1, UInt64.toUInt64_toInt64]
    exact (ih nofun).2
  | @pruned now _ _ _ _ _ hnow hbound htarget hheights _ ih =>
    have happ : now.app.lastBlockHeight = block.header.height.toInt64 := hnow.appHeights
    rw [hnow.height_eq id] at hbound
    rw [hnow.frame.1] at htarget
    apply hmaint.prune (ih nofun) _ (htarget.trans hlimit) hheights
    rw [happ, UInt64.toUInt64_toInt64]
    exact hbound.trans_lt hlt
  | _ =>
    rename_i ih
    exact ih nofun

theorem During.keptAt
    (htried : tried block commit) (hidle : start.core.Idle) (hkept : start.Kept keep)
    (hlimit : start.syncTarget.toNat ≤ limit.toNat)
    (hnext : block.header.height = start.height + 1) :
    later.KeptAt keep block point := by
  have hheight : block.header.height.toNat = start.height.toNat + 1 := toNat_next hidle.always hnext
  have happlied (happ : start.app.lastBlockHeight.toUInt64 ≠ block.header.height) :
      block.header.height.toNat = start.app.lastBlockHeight.toUInt64.toNat + 1 := by
    have happ : start.app.lastBlockHeight.toUInt64 = start.height := (hidle.execute hnext happ).1
    rw [happ]
    exact hheight
  apply hduring.keptAt_of hmaint hlimit (by omega) (fun _ => hkept) fun _ => hkept
  · intro happ
    exact hmaint.save hkept htried (happlied happ)
  · intro haccepts
    exact hmaint.accept hkept htried (happlied haccepts.1)

end

theorem Node.KeptAt.kept (hkept : node.KeptAt keep block point) : node.Kept keep := by
  cases point with
  | delivering | executed | remembered | persisted => exact hkept.1
  | _ => exact hkept

theorem wp_applyBlock_kept (hmaint : Maintained env limit tried keep) (htried : tried block commit)
    (hrules : ∀ node : Node α, node.Kept keep → rules.crash node) (hidle : node.core.Idle)
    (hkept : node.Kept keep) (hlimit : node.syncTarget.toNat ≤ limit.toNat) :
    (applyBlock env block commit).wp rules
      (Proc.Ends (fun _ later => later.Kept keep) (fun later => later.Kept keep)
        fun later => later.Kept keep) node :=
  wp_applyBlock_keeping hrules (fun _ h => h) (height_lt_next hidle) hkept fun _ _ hnext hlater =>
      (hlater.keptAt hmaint htried hidle hkept hlimit hnext).kept

theorem OfRecords.wp_updateStateIndex (hrecords : OfRecords keep) (index : UInt64)
    (hrules : ∀ node : Node α, node.Kept keep → rules.crash node) (hkept : node.Kept keep) :
    (updateStateIndex env index).wp rules (fun _ later => later.Kept keep) node :=
  hrecords.wp_view (keeps_updateStateIndex ignoresProgress_keptView.toIgnoresRecording env index)
    hrules hkept

theorem OfRecords.wp_newManager (hrecords : OfRecords keep)
    (hrules : ∀ node : Node α, node.Kept keep → rules.crash node) (hkept : node.Kept keep) :
    (newManager env).wp rules (fun _ later => later.Kept keep) node := by
  have hkeeps := keeps_newManager env ignoresProgress_keptView (fun _ _ _ _ => rfl)
    (fun _ _ => rfl) fun _ => rfl
  exact hrecords.wp_view hkeeps hrules hkept

end

/-! ## Runs -/

def Request.pairs : Request → List (Block × Commit)
  | .gossip block commit => [(block, commit)]
  | .retrieve result => result.batches.flatMap batchPairs
  | _ => []

structure CallRule (env : Env α) (stable : Db → UInt64 → Prop)
    (fits : Node α → List (Block × Commit) → Prop) : Prop where
  records : OfRecords stable
  call : ∀ (node : Node α) (pairs : List (Block × Commit)), node.Kept stable → fits node pairs →
    ∃ keep : Db → UInt64 → Prop,
      Maintained env noLimit (fun block commit => (block, commit) ∈ pairs) keep ∧
        node.Kept keep ∧ ∀ db appHeight, keep db appHeight → stable db appHeight

variable {keep : Db → UInt64 → Prop}

namespace CallRule

variable {env : Env α} {stable : Db → UInt64 → Prop}
variable {fits : Node α → List (Block × Commit) → Prop}

abbrev Keeping (keep : Db → UInt64 → Prop) : Result Error Unit → Node α → Prop :=
  Proc.Ends (fun _ later => later.core.Idle ∧ later.Kept keep)
    (fun later => later.core.Idle ∧ later.Kept keep)
    (fun later => later.core.Always ∧ later.Kept keep)

theorem wp_applyBlock_both {tried : Block → Commit → Prop}
    (hmaint : Maintained env noLimit tried keep)
    (hrules : ∀ node : Node α, node.core.Always ∧ node.Kept keep → rules.crash node)
    (htried : tried block commit) (hnode : node.core.Idle ∧ node.Kept keep) :
    (applyBlock env block commit).wp rules (Keeping keep) node :=
  Proc.wp_ends_and (wp_applyBlock env block commit (fun _ h => h) hnode.1)
    (wp_applyBlock_kept hmaint htried (fun _ h => h) hnode.1 hnode.2 (toNat_le_noLimit _))
    fun later halways hkept => hrules later ⟨halways, hkept⟩

theorem keeping_mono (hkeep : ∀ db appHeight, keep db appHeight → stable db appHeight)
    {result : Result Error Unit} (hlater : Keeping keep result later) :
    Keeping stable result later := by
  cases result with
  | ok | err | panic => exact ⟨hlater.1, hkeep _ _ hlater.2⟩

theorem wp_applyBlock_stable {tried : Block → Commit → Prop}
    (hmaint : Maintained env noLimit tried keep)
    (hkeep : ∀ db appHeight, keep db appHeight → stable db appHeight)
    (hrules : ∀ node : Node α, node.core.Always ∧ node.Kept stable → rules.crash node)
    (htried : tried block commit) (hidle : node.core.Idle) (hkept : node.Kept keep) :
    (applyBlock env block commit).wp rules (Keeping stable) node := by
  apply Proc.wp_conseq (wp_applyBlock_both hmaint
    (fun later h => hrules later ⟨h.1, hkeep _ _ h.2⟩) htried ⟨hidle, hkept⟩)
  intro result later hlater
  exact keeping_mono hkeep hlater

theorem serve (hrule : CallRule env stable fits) (request : Request)
    (hrules : ∀ node : Node α, node.core.Always ∧ node.Kept stable → rules.crash node)
    (hnode : node.core.Idle ∧ node.Kept stable)
    (hpairs : TriesNext node request → fits node request.pairs)
    (hoffers : ∀ input block commit, request = .produce input → Offers env input node True block
      commit → fits node [(block, commit)]) :
    (Manager.serve env request).wp rules (Keeping stable) node := by
  have hcrash := hrules node ⟨hnode.1.always, hnode.2⟩
  cases request with
  | stateIndex index =>
    exact Proc.wp_ends_and (Manager.wp_updateStateIndex env index (fun _ h => h) hnode.1)
      (Proc.wp_ends_const (hrule.records.wp_updateStateIndex index (fun _ h => h) hnode.2))
      fun later halways hkept => hrules later ⟨halways, hkept⟩
  | syncTarget endHeight => exact ⟨hcrash, fun _ _ => hnode⟩
  | gossip block commit =>
    by_cases htries : TriesNext node (.gossip block commit)
    · obtain ⟨keep, hmaint, hkept, hkeep⟩ := hrule.call node _ hnode.2 (hpairs htries)
      exact wp_applyBlock_stable hmaint hkeep hrules (List.mem_singleton_self _) hnode.1 hkept
    · exact wp_serve_skipped hcrash htries (by simp) (by simp) hnode hnode ⟨hnode.1.always, hnode.2⟩
  | produce input =>
    have hread (answer : Answer) (_ : rules.allowed node answer)
        (_ : answer ≠ .ok) : True := trivial
    apply wp_produceBlock_of hcrash hread
    · intro result hresult
      cases result with
      | ok value => exact absurd rfl hresult
      | err error => exact hnode
      | panic => exact ⟨hnode.1.always, hnode.2⟩
    · intro block commit hoffer
      obtain ⟨keep, hmaint, hkept, hkeep⟩ :=
        hrule.call node _ hnode.2 (hoffers input block commit rfl hoffer)
      apply wp_callWith_bind
      rw [wp_callWith]
      refine ⟨hcrash, fun _ => ?_, fun _ => hnode, fun _ => hnode⟩
      exact wp_applyBlock_stable hmaint hkeep hrules (List.mem_singleton_self _) hnode.1 hkept
  | retrieve result =>
    by_cases htries : TriesNext node (.retrieve result)
    · obtain ⟨keep, hmaint, hkept, hkeep⟩ := hrule.call node _ hnode.2 (hpairs htries)
      have hbatches (batch : Option Batch) (hbatch : batch ∈ result.batches)
          (pair : Block × Commit) (hpair : pair ∈ batchPairs batch) :
          pair ∈ (Request.retrieve result).pairs :=
        List.mem_flatMap.2 ⟨batch, hbatch, hpair⟩
      apply Proc.wp_conseq (wp_processNextDABatch_of (fun later h => ⟨h.1.always, h.2⟩)
        (fun later block commit htried h => wp_applyBlock_both hmaint
          (fun later h => hrules later ⟨h.1, hkeep _ _ h.2⟩) htried h)
        (fun _ h => h) hbatches ⟨hnode.1, hkept⟩)
      intro result later hlater
      exact keeping_mono hkeep hlater
    · exact wp_serve_skipped hcrash htries (by simp) (by simp) hnode hnode ⟨hnode.1.always, hnode.2⟩

theorem certificate (hrule : CallRule env stable fits) (app : α) (hfresh : stable Db.empty 0)
    {guard : Guard (Node α) Answer Request} (hloads : LoadsStates guard.answer False)
    (hguard : ∀ node request, guard.call node request → TriesNext node request → fits node
      request.pairs)
    (hoffers : ∀ node input block commit, node.core.Idle → node.Kept stable → Offers env input node
      True block commit → fits node [(block, commit)]) :
    Certificate (system env) guard (freshNode app) (fun node => node.core.Idle ∧ node.Kept stable)
      (fun node => node.core.Always ∧ node.Kept stable)
      (fun node => node.core.Down ∧ node.Kept stable) where
  start := ⟨freshNode_down app, hfresh⟩
  always_of_durable _ h := ⟨h.1.always, h.2⟩
  always_of_idle _ h := ⟨h.1.always, h.2⟩
  crash _ h _ := ⟨crash_core h.1, h.2⟩
  boot _ h := Proc.wp_ends_and (Manager.wp_newManager env (fun _ h => h) hloads h.1)
    (Proc.wp_ends_const (hrule.records.wp_newManager (fun _ h => h) h.2))
    fun _ => And.intro
  serve node request hnode hcall := hrule.serve request (fun _ h => h) hnode
    (hguard node request hcall)
    fun input block commit _ => hoffers node input block commit hnode.1 hnode.2

end CallRule

end Dymint.Manager
