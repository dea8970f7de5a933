import Dymint.Block.Pruning
import Dymint.Block.Reference
import Dymint.Core.OneFault
import Mathlib.Data.Nat.SuccPred

/-!
# Pruning that fails half-way

`PruneBlocks` commits its deletions in parts of 1000 blocks and moves the base of the
store up with each part.  It moves it to the height that was deleted last, not to the one
after it.
-/

namespace Dymint.Manager

open Procedure Dymint.Types Store

variable {α β : Type}

/-- Whichever single step fails before it took effect, the procedure ends with `post`. -/
abbrev FailsWith (proc : M α β) (post : Result Error β → Node α → Prop) (node : Node α) : Prop :=
  proc.afterFault .ok .failBefore post node

/-- If an error is returned, the node satisfies `kept`. -/
def OnError (kept : Node α → Prop) : Result Error β → Node α → Prop
  | .err _, node => kept node
  | _, _ => True

def Returns (proc : M α β) : Prop :=
  ∀ node, ∃ later value, proc.execFine .ok node = (later, .ok value)

variable {rest : Unit → M α β} {base : UInt64}

variable {γ : Type}

section

variable {kept : Node α → Prop} {node : Node α}

theorem Returns.endsIn {proc : M α β} (hproc : Returns proc) (node : Node α) :
    Proc.EndsIn (OnError kept) (proc.execFine .ok node) := by
  obtain ⟨later, value, hresult⟩ := hproc node
  rw [hresult]
  trivial

theorem Returns.bind {proc : M α γ} {rest : γ → M α β} (hproc : Returns proc)
    (hrest : ∀ value, Returns (rest value)) : Returns (proc >>= rest) := by
  intro node
  obtain ⟨later, value, hresult⟩ := hproc node
  rw [Proc.execFine_bind, hresult]
  exact hrest value later

theorem failsWith_external : FailsWith (external >>= rest) (OnError kept) node ↔
      kept node ∧ FailsWith (rest ()) (OnError kept) node := Iff.rfl

theorem failsWith_enterDeletions : FailsWith (enterDeletions >>= rest) (OnError kept) node ↔
      kept node ∧ FailsWith (rest ()) (OnError kept) node := by
  unfold enterDeletions
  simp only [Proc.bind_assoc, failsWith_external, and_self_left]

theorem failsWith_commitBatch {onErr : Error → Error} {batch : WriteBatch} :
    FailsWith (commitBatch onErr batch >>= rest) (OnError kept) node ↔ kept node ∧
        FailsWith (rest ()) (OnError kept) { node with db := node.db.commit batch } :=
  Iff.rfl

theorem failsWith_read {view : Node α → γ} {rest : γ → M α β}
    (hrest : ∀ value, Returns (rest value)) :
    FailsWith (Proc.read view >>= rest) (OnError kept) node ↔
      FailsWith (rest (view node)) (OnError kept) node :=
  and_iff_right ((hrest _).endsIn node)

theorem failsWith_write {update : Node α → Node α} (hrest : Returns (rest ())) :
    FailsWith (Proc.write update >>= rest) (OnError kept) node ↔
      FailsWith (rest ()) (OnError kept) (update node) :=
  and_iff_right (hrest.endsIn (update node))

theorem returns_attempt {view : Db → Result Error γ}
    (hview : ∀ db, ∃ value, view db = Result.ofExcept value) :
    Returns (query id view : M α γ).attempt := by
  intro node
  obtain ⟨value, hvalue⟩ := hview node.db
  refine ⟨node, value, ?_⟩
  change ((Proc.done ((view node.db).mapErr id)).attempt : M α _).exec _ node = _
  rw [hvalue]
  cases value <;> rfl

theorem failsWith_attempt {view : Db → Result Error γ} {value : Except Error γ}
    {rest : Except Error γ → M α β} (hrest : ∀ value, Returns (rest value))
    (hview : view node.db = Result.ofExcept value) :
    FailsWith ((query id view).attempt >>= rest) (OnError kept) node ↔
      FailsWith (rest value) (OnError kept) node := by
  change Proc.EndsIn _ ((rest (.error .fault)).execFine .ok node) ∧
    FailsWith ((Proc.done ((view node.db).mapErr id)).attempt.bind rest) _ node ↔ _
  rw [hview]
  cases value <;> exact and_iff_right ((hrest (.error .fault)).endsIn node)

theorem returns_setBase (base : UInt64) : Returns (setBase base : M α Unit) := by
  apply Returns.bind
  · intro node
    exact ⟨node, node.baseHeight, rfl⟩
  · intro baseHeight
    split
    · intro node
      exact ⟨_, (), rfl⟩
    · intro node
      exact ⟨node, (), rfl⟩

theorem failsWith_setBase (hrest : Returns (rest ())) :
    FailsWith (setBase base >>= rest) (OnError kept) node ↔ FailsWith (rest ()) (OnError kept)
        { node with baseHeight := max node.baseHeight base } := by
  have hbranch (baseHeight : UInt64) : Returns ((if base > baseHeight then
      Proc.write fun node =>
        if node.baseHeight = baseHeight then { node with baseHeight := base } else node
      else pure () : M α Unit) >>= rest) := by
    apply Returns.bind
    · split
      · intro node
        exact ⟨_, (), rfl⟩
      · intro node
        exact ⟨node, (), rfl⟩
    · intro _
      exact hrest
  unfold setBase
  rw [Proc.bind_assoc, storeBase, failsWith_read hbranch, max_eq_ite]
  split
  · rw [failsWith_write hrest, if_pos rfl]
  · rfl

theorem returns_flush (batch : WriteBatch) (base : UInt64) :
    Returns (flush batch base : M α Unit) := by
  apply Returns.bind
  · intro node
    exact ⟨_, (), rfl⟩
  · intro _
    exact returns_setBase base

theorem failsWith_flush {batch : WriteBatch} (hrest : Returns (rest ())) :
    FailsWith (flush batch base >>= rest) (OnError kept) node ↔
      kept node ∧ FailsWith (rest ()) (OnError kept) { node with
        db := node.db.commit batch
        baseHeight := max node.baseHeight base } := by
  unfold flush
  rw [Proc.bind_assoc, failsWith_commitBatch, failsWith_setBase hrest]

end

/-! ## The loop -/

theorem loadHashFromIndex_eq_ofExcept (db : Db) (height : UInt64) :
    ∃ value, loadHashFromIndex db height = Result.ofExcept value := by
  unfold loadHashFromIndex
  split
  · exact ⟨.error _, rfl⟩
  · split
    · exact ⟨.ok _, rfl⟩
    · exact ⟨.error _, rfl⟩

def pruneRest (bound : UInt64) (count : ℕ) (height pruned : UInt64) (batch : WriteBatch) :
    M α UInt64 := do
  let (pruned, batch) ← pruneLoop count height pruned batch
  flush batch bound
  return pruned

/-- One round of the loop, once the index has been read, and what follows it. -/
def pruneRound (bound : UInt64) (count : ℕ) (height pruned : UInt64) (batch : WriteBatch) :
    Except Error Hash → M α UInt64
  | .error _ => pruneRest bound count (height + 1) pruned batch
  | .ok hash => do
      enterDeletions
      if (pruned + 1) % 1000 = 0 ∧ pruned + 1 > 0 then
        flush (batch ++ pruneHeight height hash) height
        pruneRest bound count (height + 1) (pruned + 1) []
      else
        pruneRest bound count (height + 1) (pruned + 1) (batch ++ pruneHeight height hash)

variable {kept : Node α → Prop} {node : Node α}

section

variable {bound height pruned : UInt64} {count : ℕ} {batch : WriteBatch}

theorem pruneRest_succ : (pruneRest bound (count + 1) height pruned batch : M α UInt64) =
      (query id (loadHashFromIndex · height)).attempt >>=
        pruneRound bound count height pruned batch := by
  rw [pruneRest, pruneLoop, Proc.bind_assoc]
  congr 1
  funext value
  cases value with
  | error error => rfl
  | ok hash =>
    rw [pruneRound, Proc.bind_assoc]
    congr 1
    funext _
    dsimp only
    split
    · rw [Proc.bind_assoc]
      rfl
    · rfl

theorem returns_enterDeletions : Returns (enterDeletions : M α Unit) := fun node => ⟨node, (), rfl⟩

theorem returns_pruneRound
    (hrest : ∀ pruned batch, Returns (pruneRest bound count (height + 1) pruned batch : M α UInt64))
    (value : Except Error Hash) :
    Returns (pruneRound bound count height pruned batch value : M α UInt64) := by
  cases value with
  | error error => exact hrest _ _
  | ok hash =>
    apply returns_enterDeletions.bind
    intro _
    split
    · exact (returns_flush _ _).bind fun _ => hrest _ _
    · exact hrest _ _

theorem returns_pruneRest : Returns (pruneRest bound count height pruned batch : M α UInt64) := by
  induction count generalizing height pruned batch with
  | zero =>
    apply (returns_flush batch bound).bind
    intro _ node
    exact ⟨node, pruned, rfl⟩
  | succ count ih =>
    rw [pruneRest_succ]
    apply (returns_attempt fun db => loadHashFromIndex_eq_ofExcept db height).bind
    exact returns_pruneRound fun _ _ => ih

def flushed (node : Node α) (heights : List UInt64) (last : UInt64) : Node α :=
  { node with
    db := node.db.pruneAll heights
    baseHeight := last }

theorem flushed_flushed (node : Node α) (first second : List UInt64) (middle last : UInt64) :
    flushed (flushed node first middle) second last = flushed node (first ++ second) last := by
  rw [flushed, flushed, flushed, Db.pruneAll_append]

def AtFlushes (before : ℕ) (range : List UInt64) (holds : List UInt64 → UInt64 → Prop) : Prop :=
  ∀ j last, range[j]? = some last → (before + j + 1) % 1000 = 0 → holds (range.take (j + 1)) last

theorem atFlushes_cons {before : ℕ} {first : UInt64} {range : List UInt64}
    {holds : List UInt64 → UInt64 → Prop} :
    AtFlushes before (first :: range) holds ↔ ((before + 1) % 1000 = 0 → holds [first] first) ∧
        AtFlushes (before + 1) range fun heights last => holds (first :: heights) last := by
  constructor
  · intro hall
    constructor
    · intro hfull
      exact hall 0 first rfl hfull
    · intro j last hlast hfull
      apply hall (j + 1) last hlast
      rwa [← add_assoc, add_right_comm before j 1]
  · rintro ⟨hfirst, hrest⟩ j last hlast hfull
    cases j with
    | zero =>
      obtain rfl : first = last := Option.some.inj hlast
      exact hfirst hfull
    | succ j =>
      apply hrest j last hlast
      rwa [← add_assoc, add_right_comm before j 1] at hfull

theorem failsWith_pruneRest {pending : List UInt64}
    (hbatch : node.db.commit batch = node.db.pruneAll pending)
    (hpending : ∀ other ∈ pending, other.toNat < height.toNat)
    (hrange : height.toNat + count ≤ bound.toNat) (hbase : node.baseHeight.toNat ≤ height.toNat)
    (hpruned : pruned.toNat + count < 2 ^ 64) :
    FailsWith (pruneRest bound count height pruned batch) (OnError kept) node ↔
      kept node ∧ AtFlushes pruned.toNat (indexedFrom node.db height count)
        fun heights last => kept (flushed node (pending ++ heights) last) := by
  induction count generalizing height pruned batch pending node with
  | zero =>
    have hend : Returns (pure pruned : M α UInt64) := fun node => ⟨node, pruned, rfl⟩
    have hflush : FailsWith (pruneRest bound 0 height pruned batch) (OnError kept) node ↔
        kept node ∧ FailsWith (pure pruned) (OnError kept) _ := failsWith_flush hend
    rw [hflush]
    constructor
    · rintro ⟨hkept, -⟩
      exact ⟨hkept, fun _ _ hlast => by cases hlast⟩
    · rintro ⟨hkept, -⟩
      exact ⟨hkept, trivial⟩
  | succ count ih =>
    have hsucc := toNat_succ hrange
    have hrange' : (height + 1).toNat + count ≤ bound.toNat := by omega
    obtain ⟨value, hvalue⟩ := loadHashFromIndex_eq_ofExcept node.db height
    rw [pruneRest_succ, failsWith_attempt (returns_pruneRound fun _ _ => returns_pruneRest) hvalue]
    cases value with
    | error error =>
      have hnone : hasIndex node.db height = false := by
        simp [hasIndex, hvalue, Result.ofExcept]
      have hpending' (other : UInt64) (hother : other ∈ pending) :
          other.toNat < (height + 1).toNat := by
        have hlt := hpending other hother
        omega
      rw [pruneRound, ih hbatch hpending' hrange' (by omega) (by omega), indexedFrom_of_not hnone]
    | ok hash =>
      have hnext : (pruned + 1).toNat = pruned.toNat + 1 := by
        rw [UInt64.toNat_add, UInt64.toNat_one]
        omega
      have hfull : ((pruned + 1) % 1000 = 0 ∧ pruned + 1 > 0) ↔ (pruned.toNat + 1) % 1000 = 0 := by
        rw [← UInt64.toNat_inj, UInt64.toNat_mod, gt_iff_lt, UInt64.lt_iff_toNat_lt, hnext]
        exact and_iff_left (Nat.succ_pos _)
      have hnew : height ∉ pending := fun hmem =>
        absurd (hpending height hmem) (lt_irrefl _)
      have hbatch' := commit_pruneHeight hbatch hnew hvalue
      have hpending' := lt_succ_of_pending hrange hpending
      rw [pruneRound, failsWith_enterDeletions, indexedFrom_of_ok hvalue, atFlushes_cons]
      split
      case isTrue hflush =>
        have hmax : max node.baseHeight height = height := by
          apply UInt64.toNat_inj.1
          rw [toNat_max]
          omega
        have hlater : { node with
            db := node.db.commit (batch ++ pruneHeight height hash)
            baseHeight := max node.baseHeight height } =
            flushed node (pending ++ [height]) height := by
          rw [hbatch', hmax, flushed]
        have hsame : indexedFrom (flushed node (pending ++ [height]) height).db
            (height + 1) count = indexedFrom node.db (height + 1) count :=
          indexedFrom_pruneAll hrange' hpending'
        have hbase' : (flushed node (pending ++ [height]) height).baseHeight.toNat ≤
            (height + 1).toNat := hsucc ▸ Nat.le_succ _
        have hnothing : ∀ other ∈ ([] : List UInt64), other.toNat < (height + 1).toNat := by
          simp
        rw [failsWith_flush returns_pruneRest, hlater,
          ih rfl hnothing hrange' hbase' (by omega), hsame, hnext]
        simp only [flushed_flushed, List.nil_append, List.append_assoc,
          List.singleton_append, hfull.1 hflush, true_imp_iff, and_self_left]
      case isFalse hflush =>
        rw [ih hbatch' hpending' hrange' (by omega) (by omega), hnext]
        have hnone : ¬ (pruned.toNat + 1) % 1000 = 0 := hfull.not.1 hflush
        simp only [hnone, List.append_assoc, List.singleton_append, false_imp_iff,
          true_and, and_self_left]

end

/-! ## What is still loadable -/

/-- `LoadBlock` returns a block. -/
def Loads (db : Db) (height : UInt64) : Prop := (loadBlock db height).Succeeds

def StillLoads (before after : Node α) : Prop :=
  ∀ height, after.baseHeight ≤ height → height ≤ after.height →
    Loads before.db height → Loads after.db height

def OwnHash (db : Db) (heights : List UInt64) (height : UInt64) : Prop :=
  ∀ hash, loadHashFromIndex db height = .ok hash →
    ∀ other ∈ heights, loadHashFromIndex db other ≠ .ok hash

variable {height : UInt64}

theorem loads_iff {db : Db} : Loads db height ↔ ∃ hash, loadHashFromIndex db height = .ok hash ∧
      (loadBlockByHash db hash).Succeeds := by
  rw [Loads, loadBlock, Result.succeeds_bind]
  simp only [wrapErr_eq_ok]

theorem loads_pruneAll {db : Db} {heights : List UInt64} (hloads : Loads db height) :
    Loads (db.pruneAll heights) height ↔ OwnHash db heights height := by
  obtain ⟨hash, hhash, hblock⟩ := loads_iff.1 hloads
  constructor
  · intro hlater own hown other hother hsame
    obtain rfl : hash = own := Result.ok.inj (hhash.symm.trans hown)
    have hgone : db.pruneAll heights (.block hash) = none :=
      Db.pruneAll_of_owns hother ⟨hash, hsame, _, List.mem_cons_self, rfl⟩
    obtain ⟨later, hindex, hlater⟩ := loads_iff.1 hlater
    have hindex' : db.pruneAll heights (.index height) = db (.index height) ∨
        db.pruneAll heights (.index height) = none := Db.pruneAll_or_none _
    rcases hindex' with hkept | hnone
    · have hequal : loadHashFromIndex (db.pruneAll heights) height =
          loadHashFromIndex db height := by
        rw [loadHashFromIndex, loadHashFromIndex, hkept]
      obtain rfl : hash = later := Result.ok.inj (hhash.symm.trans (hequal.symm.trans hindex))
      simp [loadBlockByHash, hgone] at hlater
    · simp [loadHashFromIndex, hnone] at hindex
  · intro hown
    have hout : height ∉ heights := fun hmem => hown hash hhash height hmem hhash
    have hkept : db.pruneAll heights (.block hash) = db (.block hash) := by
      apply Db.pruneAll_of_not_owns
      rintro other hother ⟨found, hfound, write, hwrite, hkey⟩
      simp only [pruneHeight, List.mem_cons, List.not_mem_nil, or_false] at hwrite
      rcases hwrite with rfl | rfl | rfl | rfl | rfl
      · obtain rfl : hash = found := Key.block.inj hkey
        exact hown hash hhash other hother hfound
      all_goals cases hkey
    refine loads_iff.2 ⟨hash, ?_, ?_⟩
    · rw [loadHashFromIndex_pruneAll hout, hhash]
    · rw [loadBlockByHash, hkept]
      exact hblock

def FlushesSpare (node : Node α) (heightInt : Int64) : Prop :=
  0 < heightInt → heightInt.toUInt64 ≤ node.height → node.baseHeight ≤ heightInt.toUInt64 →
      AtFlushes 0 (indexedFrom node.db node.baseHeight
          (heightInt.toUInt64.toNat - node.baseHeight.toNat))
        fun removed last => ∀ height, last ≤ height → height ≤ node.height →
          Loads node.db height → OwnHash node.db removed height

theorem stillLoads_flushed {removed : List UInt64} {last : UInt64} :
    StillLoads node (flushed node removed last) ↔
      ∀ height, last ≤ height → height ≤ node.height → Loads node.db height →
        OwnHash node.db removed height := by
  constructor
  · intro hstill height hlast hheight hloads
    exact (loads_pruneAll hloads).1 (hstill height hlast hheight hloads)
  · intro hown height hlast hheight hloads
    exact (loads_pruneAll hloads).2 (hown height hlast hheight hloads)

/-- If an error is returned in a run with at most one fault, the node satisfies `kept`. -/
abbrev Tolerates (proc : M α β) (kept : Node α → Prop) (node : Node α) : Prop :=
  Proc.EndsIn (OnError kept) (proc.execFine .ok node) ∧ FailsWith proc (OnError kept) node

theorem tolerates_read {view : Node α → γ} {rest : γ → M α β} :
    Tolerates (Proc.read view >>= rest) kept node ↔ Tolerates (rest (view node)) kept node :=
  and_self_left

variable {heightInt : Int64}

theorem tolerates_storePruneBlocks (hpositive : 0 < heightInt)
    (hheight : heightInt.toUInt64 ≤ node.height) (hbase : node.baseHeight ≤ heightInt.toUInt64) :
    Tolerates (storePruneBlocks heightInt) kept node ↔
      kept node ∧ AtFlushes 0 (indexedFrom node.db node.baseHeight
          (heightInt.toUInt64.toNat - node.baseHeight.toNat))
        fun heights last => kept (flushed node heights last) := by
  have hrange : node.baseHeight.toNat ≤ heightInt.toUInt64.toNat := UInt64.le_iff_toNat_le.1 hbase
  have hlt := heightInt.toUInt64.toNat_lt
  have hnothing : ∀ other ∈ ([] : List UInt64), other.toNat < node.baseHeight.toNat := nofun
  unfold storePruneBlocks
  rw [if_neg (Int64.not_le.2 hpositive), storeHeight, tolerates_read,
    if_neg (UInt64.not_lt.2 hheight), storeBase, tolerates_read,
    if_neg (UInt64.not_lt.2 hbase)]
  change Tolerates (pruneRest heightInt.toUInt64
    (heightInt.toUInt64.toNat - node.baseHeight.toNat) node.baseHeight 0 []) kept node ↔ _
  rw [Tolerates, and_iff_right (returns_pruneRest.endsIn node),
    failsWith_pruneRest rfl hnothing (by omega) le_rfl (by rw [UInt64.toNat_zero]; omega)]
  simp only [List.nil_append, UInt64.toNat_zero]

theorem tolerates_refused (hkept : kept node)
    (hrange : ¬ (0 < heightInt ∧ heightInt.toUInt64 ≤ node.height ∧ node.baseHeight ≤
      heightInt.toUInt64)) : Tolerates (storePruneBlocks heightInt) kept node := by
  have hfail (error : Error) : Tolerates (Proc.fail error : M α UInt64) kept node :=
    ⟨hkept, trivial⟩
  unfold storePruneBlocks
  split
  case isTrue => exact hfail _
  case isFalse hpositive =>
    rw [storeHeight, tolerates_read]
    split
    case isTrue => exact hfail _
    case isFalse hheight =>
      rw [storeBase, tolerates_read]
      split
      case isTrue => exact hfail _
      case isFalse hbase =>
        exact absurd ⟨Int64.not_le.1 hpositive, UInt64.not_lt.1 hheight,
          UInt64.not_lt.1 hbase⟩ hrange

theorem tolerates_iff {proc : M α β} : Tolerates proc kept node ↔ ∀ point error,
      (proc.exec (Proc.failAt .ok .failBefore point) node).2 = .err error →
        kept (proc.exec (Proc.failAt .ok .failBefore point) node).1 := by
  rw [Tolerates, ← Proc.forall_failAt_iff]
  apply forall_congr'
  intro point
  rw [Proc.EndsIn]
  cases (proc.exec (Proc.failAt .ok .failBefore point) node).2 <;> simp [OnError]

/-- When `PruneBlocks` fails at a deletion or a commit, everything from the base on that
could be loaded before can still be loaded, exactly if no flush removes something that is
still needed. -/
theorem failed_pruning_keeps_blocks_iff (node : Node α) (heightInt : Int64) : (∀ point error,
      ((storePruneBlocks heightInt).exec (Proc.failAt .ok .failBefore point) node).2 = .err error →
      StillLoads node
        ((storePruneBlocks heightInt).exec (Proc.failAt .ok .failBefore point) node).1) ↔
    FlushesSpare node heightInt := by
  have hnode : StillLoads node node := fun _ _ _ hloads => hloads
  rw [← tolerates_iff]
  by_cases hrange : 0 < heightInt ∧ heightInt.toUInt64 ≤ node.height ∧
      node.baseHeight ≤ heightInt.toUInt64
  case pos =>
    obtain ⟨hpositive, hheight, hbase⟩ := hrange
    rw [tolerates_storePruneBlocks hpositive hheight hbase, and_iff_right hnode]
    simp only [stillLoads_flushed]
    exact ⟨fun hspares _ _ _ => hspares, fun hspares => hspares hpositive hheight hbase⟩
  case neg =>
    refine iff_of_true (tolerates_refused hnode hrange) ?_
    intro hpositive hheight hbase
    exact absurd ⟨hpositive, hheight, hbase⟩ hrange

/-! ## A long chain -/

theorem getElem?_heightsFrom {count j : ℕ} (hj : j < count) :
    (heightsFrom base count)[j]? = some (base + UInt64.ofNat j) := by
  induction count generalizing base j with
  | zero => omega
  | succ count ih =>
    cases j with
    | zero => simp [heightsFrom]
    | succ j =>
      rw [heightsFrom, List.getElem?_cons_succ, ih (Nat.lt_of_succ_lt_succ hj),
        UInt64.ofNat_add, UInt64.add_assoc, UInt64.add_comm 1]
      rfl

namespace Reference

def hashAt (height : UInt64) : Hash := Types.Reference.digest (Types.Reference.wordBytes height)

def longDb : Db
  | .index height => if 1 ≤ height ∧ height ≤ 1001 then some (hashAt height).bytes else none
  | .block _ => some (default : Block).toProto
  | _ => none

def longNode : Node (List Tx) :=
  { freshNode [] with
    db := longDb
    height := 1001
    baseHeight := 1 }

theorem loadHashFromIndex_longDb (hfirst : 1 ≤ height) (hlast : height ≤ 1001) :
    loadHashFromIndex longDb height = .ok (hashAt height) :=
  loadHashFromIndex_eq_ok.2 (if_pos ⟨hfirst, hlast⟩)

theorem loads_longDb (hfirst : 1 ≤ height) (hlast : height ≤ 1001) : Loads longDb height := by
  refine loads_iff.2 ⟨_, loadHashFromIndex_longDb hfirst hlast, ?_⟩
  refine ⟨(default : Block).withoutEvidence, ?_⟩
  exact wrapErr_eq_ok.2 (Block.fromProto_toProto default)

theorem indexedFrom_longDb : indexedFrom longDb 1 1000 = heightsFrom 1 1000 := by
  have hbound : (1 : UInt64).toNat + 1000 ≤ (1001 : UInt64).toNat := by decide
  apply List.filter_eq_self.2
  intro height hheight
  obtain ⟨hfirst, hlast⟩ := (mem_heightsFrom hbound).1 hheight
  exact hasIndex_eq_true.2 ⟨_, loadHashFromIndex_longDb (UInt64.le_iff_toNat_le.2 hfirst)
    (UInt64.le_iff_toNat_le.2 hlast.le)⟩

end Reference

open Reference in
/-- The last commit of `PruneBlocks(1001)` fails after the block of height 1000 has been
deleted and has become the base. -/
theorem failed_pruning_loses_block : ∃ point error,
      ((storePruneBlocks 1001).exec (Proc.failAt .ok .failBefore point) longNode).2 = .err error ∧
      ¬ StillLoads longNode
        ((storePruneBlocks 1001).exec (Proc.failAt .ok .failBefore point) longNode).1 := by
  by_contra hnone
  have htolerates : Tolerates (storePruneBlocks 1001) (StillLoads longNode) longNode := by
    rw [tolerates_iff]
    intro point error herror
    by_contra hlost
    exact hnone ⟨point, error, herror, hlost⟩
  have hpositive : (0 : Int64) < 1001 := by decide
  have hheight : (1001 : Int64).toUInt64 ≤ longNode.height := by decide
  have hbase : longNode.baseHeight ≤ (1001 : Int64).toUInt64 := by decide
  obtain ⟨-, hflushes⟩ := (tolerates_storePruneBlocks hpositive hheight hbase).1 htolerates
  -- The 1000th height of the range is the last one of a flush.
  have hlast : (indexedFrom longDb 1 1000)[999]? = some 1000 := by
    rw [indexedFrom_longDb, getElem?_heightsFrom (by decide)]
    rfl
  have hremoved : (1000 : UInt64) ∈ (indexedFrom longDb 1 1000).take 1000 := by
    have htake : ((indexedFrom longDb 1 1000).take 1000)[999]? = some 1000 := by
      rw [List.getElem?_take_of_lt (by decide), hlast]
    exact List.mem_of_getElem? htake
  have hown := stillLoads_flushed.1 (hflushes 999 1000 hlast rfl) 1000 UInt64.le_rfl
    (by decide) (loads_longDb (by decide) (by decide))
  have hhash := loadHashFromIndex_longDb (show (1 : UInt64) ≤ 1000 by decide) (by decide)
  exact hown _ hhash 1000 hremoved hhash

end Dymint.Manager
