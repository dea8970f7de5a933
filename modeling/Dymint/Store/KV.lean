import Dymint.Core.Procedure
import Dymint.Types.Tendermint
import Mathlib.Data.List.AList
import Mathlib.Data.List.Induction

/-!
# Key-value stores

The entries of a store under a prefix of the node's database.  Keys are given without
the prefixes of the stores it is nested in, but an iterator returns them with these.  The
order of an iterator plays no role for its users.
-/

namespace Dymint.KV

open Procedure Dymint.Types

/-- `outer` joins the prefixes of the stores that this one is nested in. -/
structure KVStore where
  outer : Bytes
  entries : AList fun _ : Bytes => Bytes
  deriving DecidableEq

/-- One `Set` of a batch. -/
structure Write where
  key : Bytes
  value : Bytes
  deriving DecidableEq

variable {key : Bytes} {batch : List Write} {value : Bytes}

namespace KVStore

def empty (outer : Bytes) : KVStore := ⟨outer, ∅⟩

/-- The value of a key; `none` is `ErrKeyNotFound`. -/
def get (store : KVStore) (key : Bytes) : Option Bytes := store.entries.lookup key

def set (store : KVStore) (write : Write) : KVStore :=
  { store with entries := store.entries.insert write.key write.value }

def commit (store : KVStore) (batch : List Write) : KVStore := batch.foldl set store

/-- The entries whose key starts with `start`, under their full keys. -/
def prefixIterator (store : KVStore) (start : Bytes) : List (Bytes × Bytes) :=
  (store.entries.entries.filter fun entry => start.isPrefixOf entry.1).map fun entry =>
    (store.outer ++ entry.1, entry.2)

variable (store : KVStore)

@[simp]
theorem get_empty (outer key : Bytes) : (empty outer).get key = none := rfl

@[simp]
theorem outer_commit (batch : List Write) : (store.commit batch).outer = store.outer := by
  induction batch generalizing store with
  | nil => rfl
  | cons write batch ih => exact ih (store.set write)

theorem commit_append (first last : List Write) :
    store.commit (first ++ last) = (store.commit first).commit last := List.foldl_append

theorem get_set (write : Write) (key : Bytes) :
    (store.set write).get key = if key = write.key then some write.value else store.get key := by
  split
  case isTrue hkey =>
    rw [hkey]
    exact AList.lookup_insert _
  case isFalse hkey => exact AList.lookup_insert_ne hkey

/-- The last write to a key counts. -/
theorem get_commit (batch : List Write) (key : Bytes) : (store.commit batch).get key =
      ((batch.filter (·.key = key)).getLast?.map Write.value).or (store.get key) := by
  induction batch using List.reverseRecOn with
  | nil => rfl
  | append_singleton batch write ih =>
    rw [commit_append, commit, List.foldl_cons, List.foldl_nil, get_set, List.filter_append, ih]
    by_cases hkey : write.key = key
    · simp [hkey]
    · simp [hkey, Ne.symm hkey]

theorem of_get_commit (hget : (store.commit batch).get key = some value) :
    ⟨key, value⟩ ∈ batch ∨ store.get key = some value := by
  rw [get_commit, Option.or_eq_some_iff] at hget
  rcases hget with hlast | ⟨_, hstore⟩
  · obtain ⟨write, hwrite, rfl⟩ := Option.map_eq_some_iff.1 hlast
    obtain ⟨hmem, hkey⟩ := List.mem_filter.1 (List.mem_of_getLast? hwrite)
    left
    rw [← of_decide_eq_true hkey]
    exact hmem
  · exact .inr hstore

theorem exists_get_commit {write : Write} (hwrite : write ∈ batch) :
    ∃ other ∈ batch, other.key = write.key ∧
      (store.commit batch).get write.key = some other.value := by
  have hmem : write ∈ batch.filter (·.key = write.key) := List.mem_filter.2 ⟨hwrite, by simp⟩
  obtain ⟨other, hother⟩ : ∃ other, (batch.filter (·.key = write.key)).getLast? = some other :=
    Option.ne_none_iff_exists'.1 fun hnone =>
      List.ne_nil_of_mem hmem (List.getLast?_eq_none_iff.1 hnone)
  obtain ⟨hmem, hkey⟩ := List.mem_filter.1 (List.mem_of_getLast? hother)
  refine ⟨other, hmem, of_decide_eq_true hkey, ?_⟩
  rw [get_commit, hother]
  rfl

theorem get_commit_of_not_written (hkey : ∀ write ∈ batch, write.key ≠ key) :
    (store.commit batch).get key = store.get key := by
  have hnone : batch.filter (·.key = key) = [] :=
    List.filter_eq_nil_iff.2 fun write hwrite => by simpa using hkey write hwrite
  rw [get_commit, hnone]
  rfl

theorem mem_prefixIterator {start : Bytes} : (key, value) ∈ store.prefixIterator start ↔
      ∃ rest, key = store.outer ++ (start ++ rest) ∧ store.get (start ++ rest) = some value := by
  have hget (other : Bytes) : store.get other = some value ↔
      (⟨other, value⟩ : Σ _ : Bytes, Bytes) ∈ store.entries.entries := AList.mem_lookup_iff
  simp only [prefixIterator, List.mem_map, List.mem_filter, Prod.mk.injEq]
  constructor
  · rintro ⟨⟨other, _⟩, ⟨hentry, hstart⟩, rfl, rfl⟩
    obtain ⟨rest, rfl⟩ := List.isPrefixOf_iff_prefix.1 hstart
    exact ⟨rest, rfl, (hget _).2 hentry⟩
  · rintro ⟨rest, rfl, hentry⟩
    exact ⟨⟨start ++ rest, value⟩, ⟨(hget _).1 hentry, by simp⟩, rfl, rfl⟩

end KVStore

/-! ## The last writer of a key -/

section

variable {α : Type} {p : α → Prop} {xs : List α} {x y : α}

def LastWith (p : α → Prop) (xs : List α) (x : α) : Prop :=
  ∃ before after, xs = before ++ x :: after ∧ p x ∧ ∀ y ∈ after, ¬ p y

theorem LastWith.mem (hlast : LastWith p xs x) : x ∈ xs := by
  obtain ⟨before, after, rfl, _⟩ := hlast
  simp

theorem LastWith.prop (hlast : LastWith p xs x) : p x := by
  obtain ⟨_, _, _, hx, _⟩ := hlast
  exact hx

theorem LastWith.congr {q : α → Prop} (hiff : ∀ x ∈ xs, p x ↔ q x) (hlast : LastWith p xs x) :
    LastWith q xs x := by
  obtain ⟨before, after, rfl, hx, hafter⟩ := hlast
  refine ⟨before, after, rfl, (hiff x (by simp)).1 hx, fun y hy => ?_⟩
  rw [← hiff y (by simp [hy])]
  exact hafter y hy

theorem lastWith_congr {q : α → Prop} (hiff : ∀ x ∈ xs, p x ↔ q x) :
    LastWith p xs x ↔ LastWith q xs x :=
  ⟨.congr hiff, .congr fun y hy => (hiff y hy).symm⟩

theorem lastWith_concat : LastWith p (xs ++ [y]) x ↔ (p y ∧ x = y) ∨ (¬ p y ∧ LastWith p xs x) := by
  constructor
  · rintro ⟨before, after, heq, hx, hafter⟩
    cases after using List.reverseRecOn with
    | nil =>
      obtain ⟨_, hlast⟩ := List.append_inj' heq rfl
      obtain rfl : y = x := List.singleton_inj.1 hlast
      exact .inl ⟨hx, rfl⟩
    | append_singleton after z =>
      have hsplit : xs ++ [y] = (before ++ x :: after) ++ [z] := by
        rw [heq]
        simp
      obtain ⟨rfl, hlast⟩ := List.append_inj' hsplit rfl
      obtain rfl : y = z := List.singleton_inj.1 hlast
      exact .inr ⟨hafter y (by simp), before, after, rfl, hx,
        fun other hother => hafter other (by simp [hother])⟩
  · rintro (⟨hy, rfl⟩ | ⟨hy, before, after, rfl, hx, hafter⟩)
    · exact ⟨xs, [], rfl, hy, by simp⟩
    · refine ⟨before, after ++ [y], by simp, hx, fun other hother => ?_⟩
      rcases List.mem_append.1 hother with hother | hother
      · exact hafter other hother
      · rwa [List.mem_singleton.1 hother]

theorem exists_lastWith (p : α → Prop) (hx : x ∈ xs) (hp : p x) : ∃ y, LastWith p xs y := by
  induction xs using List.reverseRecOn with
  | nil => cases hx
  | append_singleton xs y ih =>
    by_cases hy : p y
    · exact ⟨y, lastWith_concat.2 (.inl ⟨hy, rfl⟩)⟩
    · rcases List.mem_append.1 hx with hx | hx
      · obtain ⟨z, hz⟩ := ih hx
        exact ⟨z, lastWith_concat.2 (.inr ⟨hy, hz⟩)⟩
      · rw [List.mem_singleton.1 hx] at hp
        exact absurd hp hy

theorem LastWith.unique (hx : LastWith p xs x) (hy : LastWith p xs y) : x = y := by
  induction xs using List.reverseRecOn with
  | nil => cases hx.mem
  | append_singleton xs z ih =>
    rcases lastWith_concat.1 hx with ⟨hz, rfl⟩ | ⟨hz, hx⟩
    · rcases lastWith_concat.1 hy with ⟨_, rfl⟩ | ⟨hz', _⟩
      · rfl
      · exact absurd hz hz'
    · rcases lastWith_concat.1 hy with ⟨hz', _⟩ | ⟨_, hy⟩
      · exact absurd hz' hz
      · exact ih hx hy

theorem get_commit_flatMap_iff {f : α → List Write} {g : α → Bytes} {outer : Bytes}
    (hg : ∀ x ∈ xs, ∀ write ∈ f x, write.key = key → write.value = g x) :
    ((KVStore.empty outer).commit (xs.flatMap f)).get key = some value ↔
      ∃ x, LastWith (fun x => ∃ write ∈ f x, write.key = key) xs x ∧ value = g x := by
  induction xs using List.reverseRecOn with
  | nil =>
    refine iff_of_false (by simp [KVStore.commit]) ?_
    rintro ⟨x, hlast, _⟩
    cases hlast.mem
  | append_singleton xs y ih =>
    rw [List.flatMap_append, KVStore.commit_append, List.flatMap_singleton]
    simp only [lastWith_concat]
    by_cases hy : ∃ write ∈ f y, write.key = key
    · obtain ⟨write, hwrite, rfl⟩ := hy
      obtain ⟨other, hother, hkey, hget⟩ :=
        ((KVStore.empty outer).commit (xs.flatMap f)).exists_get_commit hwrite
      rw [hget, hg y (by simp) other hother hkey]
      have hwrites : ∃ w ∈ f y, w.key = write.key := ⟨write, hwrite, rfl⟩
      simp only [hwrites, true_and, not_true_eq_false, false_and, or_false, exists_eq_left,
        Option.some.injEq]
      exact eq_comm
    · rw [KVStore.get_commit_of_not_written _ fun write hwrite hkey => hy ⟨write, hwrite, hkey⟩,
        ih fun x hx => hg x (by simp [hx])]
      simp [hy]

end

/-! ## Collecting values -/

/-- The distinct values of the entries that are kept. -/
def collect (keep : Bytes → Result Error Bool) :
    List (Bytes × Bytes) → List Bytes → Result Error (List Bytes)
  | [], tmp => .ok tmp
  | (key, value) :: rest, tmp => do
    let kept ← keep key
    collect keep rest (if kept then tmp.insert value else tmp)

section

variable {keep : Bytes → Result Error Bool} {entries : List (Bytes × Bytes)}

section

variable (hkeep : ∀ key value, (key, value) ∈ entries → ∃ kept, keep key = .ok kept)

include hkeep

theorem exists_collect {tmp : List Bytes} (htmp : tmp.Nodup) :
    ∃ found, collect keep entries tmp = .ok found ∧ found.Nodup ∧ ∀ value, value ∈ found ↔
        value ∈ tmp ∨ ∃ key, (key, value) ∈ entries ∧ keep key = .ok true := by
  induction entries generalizing tmp with
  | nil => exact ⟨tmp, rfl, htmp, by simp⟩
  | cons entry entries ih =>
    obtain ⟨key, value⟩ := entry
    obtain ⟨kept, hkept⟩ := hkeep key value (by simp)
    have hnext : (if kept then tmp.insert value else tmp).Nodup := by
      split
      · exact htmp.insert
      · exact htmp
    obtain ⟨found, hfound, hnodup, hmem⟩ :=
      ih (fun other value hother => hkeep other value (by simp [hother])) hnext
    refine ⟨found, ?_, hnodup, fun other => ?_⟩
    · rw [collect, hkept, Result.ok_bind]
      exact hfound
    · rw [hmem]
      cases kept with
      | true =>
        simp only [if_true, List.mem_insert_iff, List.mem_cons, Prod.mk.injEq]
        grind
      | false =>
        simp only [Bool.false_eq_true, if_false, List.mem_cons, Prod.mk.injEq]
        grind

theorem exists_mem_collect_iff :
    (∃ found, collect keep entries [] = .ok found ∧ value ∈ found) ↔
      ∃ key, (key, value) ∈ entries ∧ keep key = .ok true := by
  obtain ⟨found, hfound, _, hmem⟩ := exists_collect hkeep List.nodup_nil
  rw [hfound]
  simp [hmem]

end

theorem failure_collect {tmp : List Bytes} {fault : Option Error}
    (hfault : (collect keep entries tmp).failure = some fault) :
    ∃ key value, (key, value) ∈ entries ∧ (keep key).failure = some fault := by
  induction entries generalizing tmp with
  | nil => cases hfault
  | cons entry entries ih =>
    rw [collect] at hfault
    rcases Result.failure_bind_eq_some_iff.1 hfault with hkeep | ⟨kept, _, hrest⟩
    · exact ⟨entry.1, entry.2, by simp, hkeep⟩
    · obtain ⟨key, value, hentry, hkeep⟩ := ih hrest
      exact ⟨key, value, by simp [hentry], hkeep⟩

theorem collect_eq_panic (hkeep : ∀ key error, keep key ≠ .err error)
    (hentry : (key, value) ∈ entries) (hpanic : keep key = .panic) (tmp : List Bytes) :
    collect keep entries tmp = .panic := by
  induction entries generalizing tmp with
  | nil => cases hentry
  | cons entry entries ih =>
    rw [collect]
    rcases List.mem_cons.1 hentry with rfl | hentry
    · rw [hpanic]
      rfl
    · cases hkept : keep entry.1 with
      | ok kept => exact ih hentry _
      | err error => exact absurd hkept (hkeep entry.1 error)
      | panic => rfl

end

end Dymint.KV
