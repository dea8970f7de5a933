import Dymint.Block.Steps

/-!
# What pruning removes

`PruneBlocks` walks over the heights from the base on, collects the deletions
for the heights that have an index entry, and flushes them every 1000 blocks.
Whatever fails on the way, the database is at every moment the one from which
the records of some of these heights have been removed; without failures, of all
of them.
-/

namespace Dymint.Store

open Procedure Dymint.Types Manager

/-! ## Removing heights -/

/-- The database without the records of one height. -/
def Db.prune (db : Db) (height : UInt64) : Db :=
  match loadHashFromIndex db height with
  | .ok hash => db.commit (pruneHeight height hash)
  | _ => db

def Db.pruneAll (db : Db) (heights : List UInt64) : Db := heights.foldl Db.prune db

theorem Db.commit_append (db : Db) (left right : WriteBatch) :
    db.commit (left ++ right) = (db.commit left).commit right :=
  List.foldl_append

theorem Db.pruneAll_append (db : Db) (left right : List UInt64) :
    db.pruneAll (left ++ right) = (db.pruneAll left).pruneAll right :=
  List.foldl_append

variable {other : UInt64} {key : Key}

variable {hash : Hash}

section

variable {db : Db} {height : UInt64}

theorem Db.prune_of_ok (hhash : loadHashFromIndex db height = .ok hash) :
    db.prune height = db.commit (pruneHeight height hash) := by
  rw [prune, hhash]

theorem Db.prune_of_not_ok (hhash : ∀ hash, loadHashFromIndex db height ≠ .ok hash) :
    db.prune height = db := by
  unfold prune
  split
  case h_1 hash hok => exact absurd hok (hhash hash)
  case h_2 => rfl

theorem Db.prune_frame
    (hkey : ∀ hash, loadHashFromIndex db height = .ok hash → ∀ write ∈ pruneHeight height hash, key
      ≠ write.1) : db.prune height key = db key := by
  cases hhash : loadHashFromIndex db height with
  | ok hash =>
    rw [prune_of_ok hhash]
    exact Db.commit_of_forall_ne db (hkey hash hhash)
  | err | panic => rw [prune_of_not_ok (by simp [hhash])]

theorem Db.prune_index (hne : other ≠ height) :
    db.prune height (.index other) = db (.index other) := by
  apply prune_frame
  intro hash _ write hwrite
  simp only [pruneHeight, List.mem_cons, List.not_mem_nil, or_false] at hwrite
  rcases hwrite with rfl | rfl | rfl | rfl | rfl <;> simp [hne]

theorem Db.prune_state : db.prune height .state = db .state := by
  apply prune_frame
  intro hash _ write hwrite
  simp only [pruneHeight, List.mem_cons, List.not_mem_nil, or_false] at hwrite
  rcases hwrite with rfl | rfl | rfl | rfl | rfl <;> simp

theorem Db.prune_or_none (key : Key) :
    db.prune height key = db key ∨ db.prune height key = none := by
  cases hhash : loadHashFromIndex db height with
  | ok hash =>
    rw [prune_of_ok hhash]
    apply Db.commit_of_forall_none
    intro write hwrite
    exact (isPruning_pruneHeight height hash write hwrite).1
  | err | panic =>
    rw [prune_of_not_ok (by simp [hhash])]
    exact Or.inl rfl

end

variable {height : UInt64} {tm : Tendermint}

section

variable {db : Db} {heights : List UInt64}

/-- What every removal leaves alone, all of them together do. -/
theorem Db.pruneAll_frame {β : Type} (view : Db → β)
    (hview : ∀ (db : Db), ∀ height ∈ heights, view (db.prune height) = view db) :
    view (db.pruneAll heights) = view db := by
  induction heights generalizing db with
  | nil => rfl
  | cons height heights ih =>
    rw [pruneAll, List.foldl_cons]
    have hrest : view ((db.prune height).pruneAll heights) = view (db.prune height) :=
      ih fun db other hother => hview db other (List.mem_cons_of_mem height hother)
    exact hrest.trans (hview db height List.mem_cons_self)

theorem Db.pruneAll_index (hother : other ∉ heights) :
    db.pruneAll heights (.index other) = db (.index other) := by
  apply Db.pruneAll_frame fun db => db (.index other)
  intro db height hheight
  apply prune_index
  rintro rfl
  exact hother hheight

theorem loadHashFromIndex_pruneAll (hother : other ∉ heights) :
    loadHashFromIndex (db.pruneAll heights) other = loadHashFromIndex db other := by
  unfold loadHashFromIndex
  rw [Db.pruneAll_index hother]

theorem Db.pruneAll_state : db.pruneAll heights .state = db .state :=
  Db.pruneAll_frame (fun db => db .state) fun _ _ _ => prune_state

theorem Db.pruneAll_or_none (key : Key) :
    db.pruneAll heights key = db key ∨ db.pruneAll heights key = none := by
  induction heights generalizing db with
  | nil => exact Or.inl rfl
  | cons height heights ih =>
    rw [pruneAll, List.foldl_cons]
    rcases (ih : (db.prune height).pruneAll heights key = _ ∨ _) with hrest | hrest
    · rw [← pruneAll, hrest]
      exact prune_or_none key
    · exact Or.inr hrest

theorem Db.pruneAll_eq_none (hkey : db key = none) : db.pruneAll heights key = none :=
  (pruneAll_or_none key).elim (fun hsame => hsame.trans hkey) id

theorem shrinks_pruneAll (db : Db) (heights : List UInt64) :
    Shrinks db.blockRecords (db.pruneAll heights).blockRecords :=
  ⟨fun _ => Db.pruneAll_or_none _, fun _ => Db.pruneAll_or_none _, fun _ => Db.pruneAll_or_none _⟩

theorem Indexed.injective (hhash : HashesHeight tm) (hindexed : Indexed tm db.blockRecords)
    (hheight : db (.index height) = some hash.bytes)
    (hother : db (.index other) = some hash.bytes) : height = other := by
  obtain ⟨header, rfl, hbytes⟩ := hindexed height _ hheight
  obtain ⟨header', rfl, hbytes'⟩ := hindexed other _ hother
  exact hhash.height_eq (FixedBytes.ext (hbytes.symm.trans hbytes'))

structure SameAt (height : UInt64) (before after : Db) : Prop where
  block : loadBlock after height = loadBlock before height
  commit : loadCommit after height = loadCommit before height

theorem sameAt_prune (hhash : HashesHeight tm) (hindexed : Indexed tm db.blockRecords)
    (hne : other ≠ height) : SameAt other db (db.prune height) := by
  have hload : loadHashFromIndex (db.prune height) other = loadHashFromIndex db other := by
    unfold loadHashFromIndex
    rw [Db.prune_index hne]
  have hkept {hash : Hash} (hother : loadHashFromIndex db other = .ok hash)
      {key : Key} (hkey : key = .block hash ∨ key = .commit hash) :
      db.prune height key = db key := by
    apply Db.prune_frame
    intro pruned hpruned write hwrite hwriteKey
    -- deleting the record would mean that the two heights share their hash
    have hsame : pruned = hash := by
      simp only [pruneHeight, List.mem_cons, List.not_mem_nil, or_false] at hwrite
      grind
    rw [hsame, loadHashFromIndex_eq_ok] at hpruned
    exact hne (hindexed.injective hhash (loadHashFromIndex_eq_ok.1 hother) hpruned)
  constructor
  · rw [loadBlock, loadBlock, hload]
    cases hother : loadHashFromIndex db other with
    | ok hash =>
      have hblock : loadBlockByHash (db.prune height) hash = loadBlockByHash db hash := by
        rw [loadBlockByHash, loadBlockByHash, hkept hother (Or.inl rfl)]
      exact hblock
    | err | panic => rfl
  · rw [loadCommit, loadCommit, hload]
    cases hother : loadHashFromIndex db other with
    | ok hash =>
      have hcommit : loadCommitByHash (db.prune height) hash = loadCommitByHash db hash := by
        rw [loadCommitByHash, loadCommitByHash, hkept hother (Or.inr rfl)]
      exact hcommit
    | err | panic => rfl

theorem sameAt_pruneAll (hhash : HashesHeight tm) (hindexed : Indexed tm db.blockRecords)
    (hother : other ∉ heights) : SameAt other db (db.pruneAll heights) := by
  induction heights generalizing db with
  | nil => exact ⟨rfl, rfl⟩
  | cons height heights ih =>
    rw [List.mem_cons, not_or] at hother
    have hfirst := sameAt_prune hhash hindexed hother.1
    have hpruned : Indexed tm (db.prune height).blockRecords :=
      hindexed.shrinks (shrinks_pruneAll db [height])
    have hrest : SameAt other (db.prune height)
        ((db.prune height).pruneAll heights) := ih hpruned hother.2
    exact ⟨hrest.block.trans hfirst.block, hrest.commit.trans hfirst.commit⟩

theorem index_pruneAll_of_mem (hindexed : Indexed tm db.blockRecords) (hheight : height ∈ heights) :
    db.pruneAll heights (.index height) = none := by
  induction heights generalizing db with
  | nil => cases hheight
  | cons first heights ih =>
    have hpruned : Indexed tm (db.prune first).blockRecords :=
      hindexed.shrinks (shrinks_pruneAll db [first])
    change (db.prune first).pruneAll heights (.index height) = none
    by_cases hrest : height ∈ heights
    · exact ih hpruned hrest
    · obtain rfl : height = first := (List.mem_cons.1 hheight).resolve_right hrest
      rw [Db.pruneAll_index hrest]
      cases hentry : db (.index height) with
      | none => exact (Db.prune_or_none _).elim (fun hsame => hsame.trans hentry) id
      | some bytes =>
        obtain ⟨header, _, hbytes⟩ := hindexed height bytes hentry
        have hload : loadHashFromIndex db height = .ok (header.hash tm) :=
          loadHashFromIndex_eq_ok.2 (hentry.trans (congrArg some hbytes))
        rw [Db.prune_of_ok hload]
        simp [pruneHeight, Db.commit_cons, Db.commit_nil, Db.apply_of_ne]

end

/-! ## The heights of a range -/

/-- The heights from `base` on. -/
def heightsFrom : UInt64 → ℕ → List UInt64
  | _, 0 => []
  | base, count + 1 => base :: heightsFrom (base + 1) count

/-- Whether `PruneBlocks` finds the height in the index. -/
def hasIndex (db : Db) (height : UInt64) : Bool :=
  match loadHashFromIndex db height with
  | .ok _ => true
  | _ => false

def indexedFrom (db : Db) (base : UInt64) (count : ℕ) : List UInt64 :=
  (heightsFrom base count).filter (hasIndex db)

variable {bound : UInt64} {count : ℕ}

theorem toNat_succ (hrange : height.toNat + (count + 1) ≤ bound.toNat) :
    (height + 1).toNat = height.toNat + 1 := by
  have hlt := bound.toNat_lt
  rw [UInt64.toNat_add, UInt64.toNat_one]
  omega

variable {base : UInt64}

theorem mem_heightsFrom (hrange : base.toNat + count ≤ bound.toNat) :
    height ∈ heightsFrom base count ↔
      base.toNat ≤ height.toNat ∧ height.toNat < base.toNat + count := by
  induction count generalizing base with
  | zero =>
    simp only [heightsFrom, List.not_mem_nil, false_iff]
    omega
  | succ count ih =>
    have hsucc := toNat_succ hrange
    rw [heightsFrom, List.mem_cons, ih (by omega), hsucc, ← UInt64.toNat_inj]
    omega

theorem nodup_heightsFrom (hrange : base.toNat + count ≤ bound.toNat) :
    (heightsFrom base count).Nodup := by
  induction count generalizing base with
  | zero => exact List.nodup_nil
  | succ count ih =>
    have hsucc := toNat_succ hrange
    have hrange' : (base + 1).toNat + count ≤ bound.toNat := by omega
    rw [heightsFrom, List.nodup_cons, mem_heightsFrom hrange']
    exact ⟨by omega, ih hrange'⟩

variable {db : Db}

theorem mem_indexedFrom (hrange : base.toNat + count ≤ bound.toNat) :
    height ∈ indexedFrom db base count ↔
      (base.toNat ≤ height.toNat ∧ height.toNat < base.toNat + count) ∧ hasIndex db height := by
  rw [indexedFrom, List.mem_filter, mem_heightsFrom hrange]

variable {heights : List UInt64}

theorem hasIndex_pruneAll (hother : other ∉ heights) :
    hasIndex (db.pruneAll heights) other = hasIndex db other := by
  unfold hasIndex
  rw [loadHashFromIndex_pruneAll hother]

theorem hasIndex_eq_true :
    hasIndex db height = true ↔ ∃ hash, loadHashFromIndex db height = .ok hash := by
  unfold hasIndex
  cases loadHashFromIndex db height <;> simp

def IsResult (height : UInt64) (key : Key) : Prop :=
  key = .responses height ∨ key = .validators height

theorem Db.prune_result_of_ne (hkey : IsResult other key) (hne : other ≠ height) :
    db.prune height key = db key := by
  apply prune_frame
  intro hash _ write hwrite
  simp only [pruneHeight, List.mem_cons, List.not_mem_nil, or_false] at hwrite
  rcases hkey with rfl | rfl <;>
    rcases hwrite with rfl | rfl | rfl | rfl | rfl <;> simp [hne]

theorem Db.prune_result_self (hkey : IsResult height key) (hindex : hasIndex db height = true) :
    db.prune height key = none := by
  obtain ⟨hash, hhash⟩ := hasIndex_eq_true.1 hindex
  rw [prune_of_ok hhash]
  rcases hkey with rfl | rfl <;>
    simp [pruneHeight, Db.commit_cons, Db.commit_nil, Db.apply_of_ne]

theorem Db.pruneAll_result (hkey : IsResult height key)
    (hindex : height ∈ heights → hasIndex db height = true) :
    db.pruneAll heights key = if height ∈ heights then none else db key := by
  induction heights generalizing db with
  | nil => rfl
  | cons first heights ih =>
    change (db.prune first).pruneAll heights key = _
    by_cases hfirst : height = first
    · subst hfirst
      rw [if_pos List.mem_cons_self]
      exact pruneAll_eq_none (prune_result_self hkey (hindex List.mem_cons_self))
    · have hsame : hasIndex (db.prune first) height = hasIndex db height := by
        unfold hasIndex loadHashFromIndex
        rw [prune_index hfirst]
      rw [ih, prune_result_of_ne hkey hfirst]
      · simp [hfirst]
      · intro hmem
        rw [hsame]
        exact hindex (List.mem_cons_of_mem first hmem)

def Owns (db : Db) (height : UInt64) (key : Key) : Prop :=
  ∃ hash, loadHashFromIndex db height = .ok hash ∧ ∃ write ∈ pruneHeight height hash, key = write.1

theorem Db.prune_of_owns (hkey : Owns db height key) : db.prune height key = none := by
  obtain ⟨hash, hhash, write, hwrite, rfl⟩ := hkey
  rw [prune_of_ok hhash]
  simp only [pruneHeight, List.mem_cons, List.not_mem_nil, or_false] at hwrite
  rcases hwrite with rfl | rfl | rfl | rfl | rfl <;>
    simp [pruneHeight, Db.commit_cons, Db.commit_nil, Db.apply_of_ne]

theorem Db.pruneAll_of_owns (hheight : height ∈ heights) (hkey : Owns db height key) :
    db.pruneAll heights key = none := by
  induction heights generalizing db with
  | nil => cases hheight
  | cons first heights ih =>
    change (db.prune first).pruneAll heights key = none
    by_cases hfirst : height = first
    · subst hfirst
      exact pruneAll_eq_none (prune_of_owns hkey)
    · have hrest := (List.mem_cons.1 hheight).resolve_left hfirst
      obtain ⟨hash, hhash, hwrite⟩ := hkey
      refine ih hrest ⟨hash, ?_, hwrite⟩
      rw [loadHashFromIndex, prune_index hfirst]
      exact hhash

theorem Db.pruneAll_of_not_owns (hkey : ∀ height ∈ heights, ¬ Owns db height key) :
    db.pruneAll heights key = db key := by
  induction heights generalizing db with
  | nil => rfl
  | cons first heights ih =>
    rw [List.forall_mem_cons] at hkey
    have hfirst : db.prune first key = db key := by
      apply prune_frame
      intro hash hhash write hwrite heq
      exact hkey.1 ⟨hash, hhash, write, hwrite, heq⟩
    change (db.prune first).pruneAll heights key = db key
    rw [ih, hfirst]
    rintro height hheight ⟨hash, hhash, hwrite⟩
    refine hkey.2 height hheight ⟨hash, ?_, hwrite⟩
    -- an entry that is left in the index was there before
    have hindex : db.prune first (.index height) = db (.index height) ∨
        db.prune first (.index height) = none := prune_or_none _
    rcases hindex with hsame | hnone
    · rw [loadHashFromIndex, ← hsame]
      exact hhash
    · simp [loadHashFromIndex, hnone] at hhash

theorem indexedFrom_of_ok (hhash : loadHashFromIndex db height = .ok hash) :
    indexedFrom db height (count + 1) = height :: indexedFrom db (height + 1) count := by
  rw [indexedFrom, heightsFrom, List.filter_cons_of_pos]
  · rfl
  · simp [hasIndex, hhash]

theorem indexedFrom_of_not (hnone : hasIndex db height = false) :
    indexedFrom db height (count + 1) = indexedFrom db (height + 1) count := by
  rw [indexedFrom, heightsFrom, List.filter_cons_of_neg]
  · rfl
  · simp [hnone]

theorem indexedFrom_pruneAll (hrange : base.toNat + count ≤ bound.toNat)
    (hheights : ∀ height ∈ heights, height.toNat < base.toNat) :
    indexedFrom (db.pruneAll heights) base count = indexedFrom db base count := by
  apply List.filter_congr
  intro height hheight
  apply hasIndex_pruneAll
  intro hmem
  have hlt := hheights height hmem
  have hle := (mem_heightsFrom hrange).1 hheight
  omega

end Dymint.Store

namespace Dymint.Manager

open Procedure Dymint.Types Store

variable {α : Type} {rules : Proc.Rules (Node α) Answer}

/-- The node after the given heights have been removed; its base does not pass
`bound` by this. -/
def RemovedTo (bound : UInt64) (heights : List UInt64) (node later : Node α) : Prop :=
  ∃ base : UInt64, (node.baseHeight.toNat ≤ bound.toNat → base.toNat ≤ bound.toNat) ∧
    later = { node with
      db := node.db.pruneAll heights
      baseHeight := base }

/-- Some heights below `bound` have been removed. -/
def RemovedBelow (bound : UInt64) (node later : Node α) : Prop :=
  ∃ heights, (∀ height ∈ heights, height.toNat < bound.toNat) ∧ RemovedTo bound heights node later

theorem RemovedBelow.refl (bound : UInt64) (node : Node α) : RemovedBelow bound node node :=
  ⟨[], by simp, node.baseHeight, id, rfl⟩

variable {middle : Node α}

variable {first last : Node α}

theorem RemovedTo.trans {bound : UInt64} {heights heights' : List UInt64}
    (hfirst : RemovedTo bound heights first middle) (hlast : RemovedTo bound heights' middle last) :
    RemovedTo bound (heights ++ heights') first last := by
  obtain ⟨base, hbase, rfl⟩ := hfirst
  obtain ⟨base', hbase', rfl⟩ := hlast
  refine ⟨base', fun hbound => hbase' (hbase hbound), ?_⟩
  rw [Db.pruneAll_append]

theorem RemovedBelow.trans {bound : UInt64}
    (hfirst : RemovedBelow bound first middle) (hlast : RemovedBelow bound middle last) :
    RemovedBelow bound first last := by
  obtain ⟨heights, hheights, hfirst⟩ := hfirst
  obtain ⟨heights', hheights', hlast⟩ := hlast
  refine ⟨heights ++ heights', ?_, hfirst.trans hlast⟩
  intro height hheight
  rcases List.mem_append.1 hheight with h | h
  · exact hheights height h
  · exact hheights' height h

/-! ## The steps of `PruneBlocks` -/

variable {height : UInt64} {batch : WriteBatch} {pending : List UInt64}
variable {faultless : Prop}

section

variable {bound : UInt64} {node : Node α}

abbrev Pruning {β : Type} (bound : UInt64) (node : Node α)
    (returned : β → Node α → Prop) : Result Error β → Node α → Prop :=
  Proc.Ends returned (RemovedBelow bound node) (RemovedBelow bound node)

theorem toNat_max (left right : UInt64) : (max left right).toNat = max left.toNat right.toNat := by
  rw [show max left right = if left ≤ right then right else left from rfl]
  split
  case isTrue hle =>
    exact (Nat.max_eq_right (UInt64.le_iff_toNat_le.1 hle)).symm
  case isFalse hle =>
    rw [UInt64.le_iff_toNat_le] at hle
    exact (Nat.max_eq_left (by omega)).symm

theorem max_eq_ite (left right : UInt64) :
    max left right = if right > left then right else left := by
  apply UInt64.toNat_inj.1
  rw [toNat_max]
  split
  case isTrue hlt =>
    have hlt' := UInt64.lt_iff_toNat_lt.1 hlt
    omega
  case isFalse hle =>
    rw [gt_iff_lt, UInt64.lt_iff_toNat_lt] at hle
    omega

theorem wp_setBase {base : UInt64} (hcrash : rules.crash node) : (setBase base).wp rules
      (fun result later => result = .ok () ∧
        later = { node with baseHeight := max node.baseHeight base }) node := by
  rw [max_eq_ite]
  apply wp_read_bind hcrash
  split
  case isTrue => exact ⟨hcrash, fun _ _ => ⟨rfl, if_pos rfl⟩⟩
  case isFalse => exact ⟨rfl, rfl⟩

theorem wp_setHeight_max (hcrash : rules.crash node) : (setHeight height).wp rules
      (fun result later => result = .ok () ∧
        later = { node with height := max node.height height }) node := by
  rw [max_eq_ite]
  apply wp_read_bind hcrash
  split
  case isTrue => exact ⟨hcrash, fun _ _ => ⟨rfl, if_pos rfl⟩⟩
  case isFalse => exact ⟨rfl, rfl⟩

theorem wp_flush {heights : List UInt64} {base : UInt64}
    (hbatch : node.db.commit batch = node.db.pruneAll heights)
    (hheights : ∀ height ∈ heights, height.toNat < bound.toNat)
    (hrules : ∀ later, RemovedBelow bound node later → rules.crash later) :
    (flush batch base).wp rules (Pruning bound node fun _ later => later = { node with
        db := node.db.pruneAll heights
        baseHeight := max node.baseHeight base }) node := by
  have hflushed : RemovedBelow bound node { node with db := node.db.commit batch } :=
    ⟨heights, hheights, node.baseHeight, id, by rw [hbatch]⟩
  apply wp_callWith_bind
  rw [wp_callWith]
  refine ⟨hrules node (.refl bound node), fun _ => ?_,
    fun _ => RemovedBelow.refl bound node, fun _ => hflushed⟩
  apply Proc.wp_conseq (wp_setBase (hrules _ hflushed))
  rintro result later ⟨rfl, rfl⟩
  change _ = _
  rw [hbatch]

theorem wp_enterDeletions (hcrash : rules.crash node) : (enterDeletions : M α Unit).wp rules
      (Proc.Ends (fun _ later => later = node) (· = node) (· = node)) node := by
  have hkeeps : (enterDeletions : M α Unit).Keeps (id : Node α → Node α) :=
    follows_enterDeletions fun _ => rfl
  apply Proc.wp_ends_const
  apply hkeeps.wp
  rintro later rfl
  exact hcrash

/-! ## The loop -/

/-- What the loop leaves behind: of the heights in `range`, those in `taken` have
been taken up after the pending ones; some of them have been removed, and the
batch removes the rest.  If nothing may fail, all have been taken up. -/
def LoopEnds (bound : UInt64) (node : Node α) (pending range : List UInt64)
    (pruned : UInt64) (faultless : Prop) (result : UInt64 × WriteBatch)
    (later : Node α) : Prop :=
  ∃ removed rest taken, RemovedTo bound removed node later ∧
    later.db.commit result.2 = later.db.pruneAll rest ∧
    removed ++ rest = pending ++ taken ∧ taken.Sublist range ∧
    result.1 = pruned + UInt64.ofNat taken.length ∧ (faultless → taken = range)

section

variable {height pruned : UInt64} {pending range : List UInt64}
variable {faultless : Prop} {result : UInt64 × WriteBatch} {later : Node α}

/-- A height that is skipped. -/
theorem LoopEnds.skip {rest : List UInt64}
    (hloop : LoopEnds bound node pending rest pruned faultless result later)
    (hrest : rest.Sublist range) (hall : faultless → rest = range) :
    LoopEnds bound node pending range pruned faultless result later := by
  obtain ⟨removed, last, taken, hlater, hbatch, hlists, htaken, hcount, hexact⟩ := hloop
  exact ⟨removed, last, taken, hlater, hbatch, hlists, htaken.trans hrest, hcount,
    fun h => (hexact h).trans (hall h)⟩

theorem LoopEnds.take
    (hloop : LoopEnds bound node (pending ++ [height]) range (pruned + 1) faultless result later) :
    LoopEnds bound node pending (height :: range) pruned faultless result
      later := by
  obtain ⟨removed, last, taken, hlater, hbatch, hlists, htaken, hcount, hexact⟩ := hloop
  refine ⟨removed, last, height :: taken, hlater, hbatch, ?_,
    htaken.cons_cons height, ?_, fun h => by rw [hexact h]⟩
  · rw [hlists, List.append_assoc, List.singleton_append]
  · rw [hcount, List.length_cons, UInt64.ofNat_add, UInt64.add_assoc, UInt64.add_comm 1]
    rfl

theorem LoopEnds.flushed (hflushed : RemovedTo bound pending node middle)
    (hloop : LoopEnds bound middle [] range pruned faultless result later) :
    LoopEnds bound node pending range pruned faultless result later := by
  obtain ⟨removed, last, taken, hlater, hbatch, hlists, htaken, hcount, hexact⟩ := hloop
  refine ⟨pending ++ removed, last, taken, hflushed.trans hlater, hbatch, ?_,
    htaken, hcount, hexact⟩
  rw [List.append_assoc, hlists, List.nil_append]

end

theorem commit_pruneHeight {db : Db} {hash : Hash} (hbatch : db.commit batch = db.pruneAll pending)
    (hheight : height ∉ pending) (hhash : loadHashFromIndex db height = .ok hash) :
    db.commit (batch ++ pruneHeight height hash) = db.pruneAll (pending ++ [height]) := by
  have hlast : loadHashFromIndex (db.pruneAll pending) height = .ok hash := by
    rw [loadHashFromIndex_pruneAll hheight, hhash]
  calc
    db.commit (batch ++ pruneHeight height hash)
        = (db.pruneAll pending).commit (pruneHeight height hash) := by
          rw [Db.commit_append, hbatch]
    _ = (db.pruneAll pending).prune height := (Db.prune_of_ok hlast).symm
    _ = db.pruneAll (pending ++ [height]) := by
          rw [Db.pruneAll_append]
          rfl

theorem lt_succ_of_pending {count : ℕ} (hrange : height.toNat + (count + 1) ≤ bound.toNat)
    (hpending : ∀ other ∈ pending, other.toNat < height.toNat) :
    ∀ other ∈ pending ++ [height], other.toNat < (height + 1).toNat := by
  have hsucc := toNat_succ hrange
  intro other hother
  rcases List.mem_append.1 hother with h | h
  · have hlt := hpending other h
    omega
  · rw [List.mem_singleton.1 h]
    omega

theorem wp_pruneTaken {count : ℕ} {pruned : UInt64} {hash : Hash}
    (hbatch : node.db.commit batch = node.db.pruneAll pending)
    (hpending : ∀ other ∈ pending, other.toNat < height.toNat)
    (hrange : height.toNat + (count + 1) ≤ bound.toNat)
    (hrules : ∀ later, RemovedBelow bound node later → rules.crash later)
    (hhash : loadHashFromIndex node.db height = .ok hash)
    (hrest : ∀ (now : Node α) (batch : WriteBatch) (pending : List UInt64), now.db.commit batch =
      now.db.pruneAll pending → (∀ other ∈ pending, other.toNat < (height + 1).toNat) → (∀ later,
      RemovedBelow bound now later → rules.crash later) → (pruneLoop count (height + 1) (pruned + 1)
      batch).wp rules (Pruning bound now (LoopEnds bound now pending (indexedFrom now.db (height +
      1) count) (pruned + 1) faultless)) now) :
    (do enterDeletions
        let batch := batch ++ pruneHeight height hash
        let pruned := pruned + 1
        if pruned % 1000 = 0 ∧ pruned > 0 then
          flush batch height
          pruneLoop count (height + 1) pruned []
        else pruneLoop count (height + 1) pruned batch :
      M α (UInt64 × WriteBatch)).wp rules
      (Pruning bound node (LoopEnds bound node pending
        (indexedFrom node.db height (count + 1)) pruned faultless)) node := by
  have hsucc := toNat_succ hrange
  have hcrash := hrules node (.refl bound node)
  have hnew : height ∉ pending := fun hmem =>
    absurd (hpending height hmem) (lt_irrefl _)
  have hbatch' := commit_pruneHeight hbatch hnew hhash
  have hpending' := lt_succ_of_pending hrange hpending
  rw [indexedFrom_of_ok hhash]
  apply Proc.wp_bind_of (wp_enterDeletions hcrash)
  intro result later hlater
  cases result with
  | err | panic => exact hlater ▸ RemovedBelow.refl bound node
  | ok value =>
    obtain rfl : later = node := hlater
    rw [Proc.andThen_ok]
    dsimp only
    split
    · -- the batch is full
      have hbelow (other : UInt64) (hother : other ∈ pending ++ [height]) :
          other.toNat < bound.toNat := by
        have hlt := hpending' other hother
        omega
      apply Proc.wp_bind_ends (wp_flush hbatch' hbelow hrules)
      rintro _ flushed rfl
      have hflushed : RemovedTo bound (pending ++ [height]) later { later with
            db := later.db.pruneAll (pending ++ [height])
            baseHeight := max later.baseHeight height } := by
        refine ⟨_, fun hbound => ?_, rfl⟩
        rw [toNat_max]
        omega
      have hloop := hrest _ [] [] rfl (by simp) fun last hlast =>
        hrules last (RemovedBelow.trans ⟨_, hbelow, hflushed⟩ hlast)
      apply Proc.wp_conseq hloop
      intro result last hlast
      cases result with
      | err | panic => exact RemovedBelow.trans ⟨_, hbelow, hflushed⟩ hlast
      | ok value =>
        apply LoopEnds.take
        apply LoopEnds.flushed hflushed
        have hrange' : (height + 1).toNat + count ≤ bound.toNat := by omega
        rw [indexedFrom_pruneAll hrange' hpending'] at hlast
        exact hlast
    · apply Proc.wp_ends_mono (hrest _ _ _ hbatch' hpending' hrules)
      intro result last hlast
      exact hlast.take

theorem wp_pruneLoop {count : ℕ} {pruned : UInt64}
    (hanswers : faultless → ∀ node answer, rules.allowed node answer → answer = .ok)
    (hbatch : node.db.commit batch = node.db.pruneAll pending)
    (hpending : ∀ other ∈ pending, other.toNat < height.toNat)
    (hrange : height.toNat + count ≤ bound.toNat)
    (hrules : ∀ later, RemovedBelow bound node later → rules.crash later) :
    (pruneLoop count height pruned batch).wp rules (Pruning bound node
        (LoopEnds bound node pending (indexedFrom node.db height count) pruned
          faultless)) node := by
  induction count generalizing height pruned batch pending node with
  | zero =>
    refine ⟨[], pending, [], ⟨node.baseHeight, id, rfl⟩, hbatch, by simp, .slnil, ?_, fun _ => rfl⟩
    exact (UInt64.add_zero pruned).symm
  | succ count ih =>
    have hsucc := toNat_succ hrange
    have hcrash := hrules node (.refl bound node)
    have hlater : height.toNat < bound.toNat := by omega
    -- the rest of the loop when this height is not taken up
    have hskip (hall : faultless → hasIndex node.db height = false) :
        (pruneLoop count (height + 1) pruned batch).wp rules
          (Pruning bound node (LoopEnds bound node pending
            (indexedFrom node.db height (count + 1)) pruned faultless))
          node := by
      have hbelow (other : UInt64) (hother : other ∈ pending) :
          other.toNat < (height + 1).toNat := by
        have hlt := hpending other hother
        omega
      apply Proc.wp_ends_mono (ih hbatch hbelow (by omega) hrules)
      intro result later hloop
      apply hloop.skip
      · exact (List.sublist_cons_self height _).filter _
      · intro h
        exact (indexedFrom_of_not (hall h)).symm
    rw [pruneLoop, Proc.wp_bind, Proc.wp_attempt, query, wp_callWith]
    refine ⟨hcrash, fun _ => ?_, fun hfault => ?_, fun hfault => ?_⟩
    · dsimp only
      cases hhash : loadHashFromIndex node.db height with
      | err error => exact hskip fun _ => by simp [hasIndex, hhash]
      | panic => exact .refl bound node
      | ok hash =>
        exact wp_pruneTaken hbatch hpending hrange hrules hhash
          fun now batch pending hbatch hpending hrules =>
            ih hbatch hpending (by omega) hrules
    · exact hskip fun h => absurd (hanswers h node _ hfault) (by simp)
    · exact hskip fun h => absurd (hanswers h node _ hfault) (by simp)

/-! ## `PruneBlocks` -/

/-- A call of `PruneBlocks` that returns has removed heights from the base to the
requested one, and returns their number. -/
structure Removed (node : Node α) (height : UInt64) (faultless : Prop)
    (count : UInt64) (later : Node α) : Prop where
  base_le : node.baseHeight.toNat ≤ height.toNat
  height_le : height.toNat ≤ node.height.toNat
  removed : ∃ taken : List UInt64,
    taken.Sublist (indexedFrom node.db node.baseHeight (height.toNat - node.baseHeight.toNat)) ∧
    (faultless → taken = indexedFrom node.db node.baseHeight
      (height.toNat - node.baseHeight.toNat)) ∧
    count = UInt64.ofNat taken.length ∧
    later = { node with
      db := node.db.pruneAll taken
      baseHeight := height }

/-- Only heights below the height of the store and below `limit` have been
removed. -/
def Cut (limit : UInt64) (node later : Node α) : Prop :=
  ∃ bound : UInt64, bound.toNat ≤ node.height.toNat ∧
    bound.toNat ≤ limit.toNat ∧ RemovedBelow bound node later

theorem Cut.refl (limit : UInt64) (node : Node α) : Cut limit node node :=
  ⟨0, Nat.zero_le _, Nat.zero_le _, .refl 0 node⟩

theorem wp_pruneRange
    (hanswers : faultless → ∀ node answer, rules.allowed node answer → answer = .ok)
    (hbase : node.baseHeight.toNat ≤ height.toNat) (hheight : height.toNat ≤ node.height.toNat)
    (hrules : ∀ later, RemovedBelow height node later → rules.crash later) :
    (do let (pruned, batch) ← pruneLoop (height.toNat - node.baseHeight.toNat) node.baseHeight 0 []
        flush batch height
        return pruned : M α UInt64).wp rules
      (Pruning height node fun count later =>
        RemovedBelow height node later ∧ Removed node height faultless count later) node := by
  have hrange : node.baseHeight.toNat +
      (height.toNat - node.baseHeight.toNat) ≤ height.toNat := by omega
  have hempty : node.db.commit [] = node.db.pruneAll [] := rfl
  apply Proc.wp_bind_ends (wp_pruneLoop hanswers hempty (by simp) hrange hrules)
  rintro ⟨pruned, batch⟩ looped
    ⟨removed, rest, taken, hlooped, hbatch, hlists, htaken, hcount, hall⟩
  rw [List.nil_append] at hlists
  have hbelow (other : UInt64) (hother : other ∈ removed ++ rest) : other.toNat < height.toNat := by
    rw [hlists] at hother
    have hmem := (mem_indexedFrom hrange).1 (htaken.subset hother)
    omega
  have hpruned : RemovedBelow height node looped :=
    ⟨removed, fun other h => hbelow other (List.mem_append_left _ h), hlooped⟩
  apply Proc.wp_bind_of (wp_flush hbatch (fun other h => hbelow other (List.mem_append_right _ h))
    fun later hlater => hrules later (hpruned.trans hlater))
  intro result later hlater
  cases result with
  | err | panic => exact hpruned.trans hlater
  | ok value =>
    obtain ⟨base, hbase', rfl⟩ := hlooped
    have hfinal : later = { node with
        db := node.db.pruneAll taken
        baseHeight := height } := by
      have hmax : max base height = height := by
        apply UInt64.toNat_inj.1
        rw [toNat_max]
        exact Nat.max_eq_right (hbase' hbase)
      have hdb : (node.db.pruneAll removed).pruneAll rest = node.db.pruneAll taken := by
        rw [← Db.pruneAll_append, hlists]
      refine hlater.trans ?_
      rw [hmax, hdb]
    have hlast : RemovedBelow height node later :=
      ⟨taken, fun other h => hbelow other (hlists ▸ h), height, fun _ => le_rfl, hfinal⟩
    exact ⟨hlast, hbase, hheight, taken, htaken, hall, hcount.trans (UInt64.zero_add _), hfinal⟩

/-- `PruneBlocks` fails, or removes the heights from the base to the requested
one. -/
theorem wp_storePruneBlocks {heightInt : Int64} {limit : UInt64}
    (hanswers : faultless → ∀ node answer, rules.allowed node answer → answer = .ok)
    (hlimit : 0 < heightInt → heightInt.toUInt64.toNat ≤ limit.toNat)
    (hrules : ∀ later, Cut limit node later → rules.crash later) :
    (storePruneBlocks heightInt).wp rules (Proc.Ends (fun count later => Cut limit node later ∧
          Removed node heightInt.toUInt64 faultless count later)
        (Cut limit node) (Cut limit node)) node := by
  have hrefl := Cut.refl limit node
  have hcrash := hrules node hrefl
  unfold storePruneBlocks
  split
  case isTrue => exact hrefl
  case isFalse hpos =>
    apply wp_read_bind hcrash
    split
    case isTrue => exact hrefl
    case isFalse hheight =>
      apply wp_read_bind hcrash
      split
      case isTrue => exact hrefl
      case isFalse hbase =>
        rw [gt_iff_lt, UInt64.lt_iff_toNat_lt, not_lt] at hheight
        rw [UInt64.lt_iff_toNat_lt, not_lt] at hbase
        have hcut {later : Node α} (hlater : RemovedBelow heightInt.toUInt64 node later) :
            Cut limit node later :=
          ⟨_, hheight, hlimit (Int64.not_le.1 hpos), hlater⟩
        apply Proc.wp_conseq (wp_pruneRange hanswers hbase hheight
          fun later hlater => hrules later (hcut hlater))
        intro result later hlater
        cases result with
        | ok count => exact ⟨hcut hlater.1, hlater.2⟩
        | err | panic => exact hcut hlater

variable {retainHeight : Int64}

theorem toNat_le_syncTarget {syncTarget : UInt64}
    (hhonoured : ¬ retainHeight > syncTarget.toInt64) (hpos : 0 < retainHeight) :
    retainHeight.toUInt64.toNat ≤ syncTarget.toNat := by
  have hle : retainHeight.toInt ≤ syncTarget.toInt64.toInt :=
    Int64.le_iff_toInt_le.1 (Int64.not_lt.1 hhonoured)
  have hpos' := Int64.lt_iff_toInt_lt.1 hpos
  have hretain : retainHeight.toInt = (retainHeight.toUInt64.toNat : Int).bmod (2 ^ 64) :=
    BitVec.toInt_eq_toNat_bmod retainHeight.toBitVec
  have htarget : syncTarget.toInt64.toInt = (syncTarget.toNat : Int).bmod (2 ^ 64) :=
    BitVec.toInt_eq_toNat_bmod syncTarget.toBitVec
  have hlt := retainHeight.toUInt64.toNat_lt
  have hlt' := syncTarget.toNat_lt
  have hzero : (0 : Int64).toInt = 0 := rfl
  rw [hretain, htarget] at hle
  rw [hretain, hzero] at hpos'
  rw [Int.bmod_def] at hle hpos'
  rw [Int.bmod_def] at hle
  split at hle <;> split at hle <;> split at hpos' <;> omega

theorem wp_pruneOnRequest (hrules : ∀ later, Cut node.syncTarget node later → rules.crash later) :
    (pruneOnRequest retainHeight).wp rules (fun result later => Cut node.syncTarget node later ∧
        (result = .ok () ∨ result = .panic)) node := by
  have hrefl := Cut.refl node.syncTarget node
  unfold pruneOnRequest
  split
  case isFalse => exact ⟨hrefl, Or.inl rfl⟩
  case isTrue =>
    have hprune : (pruneBlocks retainHeight).wp rules
        (fun _ later => Cut node.syncTarget node later) node := by
      apply wp_read_bind (hrules node hrefl)
      split
      case isTrue => exact hrefl
      case isFalse hhonoured =>
        apply Proc.wp_conseq (wp_storePruneBlocks False.elim (toNat_le_syncTarget hhonoured) hrules)
        intro result later hlater
        cases result with
        | ok count => exact hlater.1
        | err | panic => exact hlater
    rw [Proc.wp_bind, Proc.wp_attempt]
    apply Proc.wp_conseq hprune
    intro result later hlater
    cases result with
    | ok | err => exact ⟨hlater, Or.inl rfl⟩
    | panic => exact ⟨hlater, Or.inr rfl⟩

end

end Dymint.Manager
