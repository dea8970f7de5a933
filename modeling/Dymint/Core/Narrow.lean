import Dymint.Core.Procedure
import Mathlib.Data.List.Nodup

/-!
# Narrowing a set of matches

A query is a conjunction.  The matches of its first condition are narrowed by those of
the others, with a flag for the first run and an exit as soon as there are no matches
left.  A map whose values are its keys is a list of its keys, and a value may be nil, in
which case a lookup finds nothing.
-/

namespace Dymint.Narrow

open Procedure

variable {κ ε : Type} [DecidableEq κ]

structure Progress (κ : Type) where
  initialized : Bool
  filtered : List κ
  deriving DecidableEq

section

variable (isNil : κ → Bool)

/-- One condition: `matched` computes what it matches on its own. -/
def narrow (matched : Result ε (List κ)) (filtered : List κ) (firstRun : Bool) :
    Result ε (List κ) :=
  if !firstRun && filtered.isEmpty then .ok filtered
  else do
    let tmp ← matched
    if tmp.isEmpty || firstRun then return tmp
    else return filtered.filter fun k => decide (k ∈ tmp) && !isNil k

end

def loop : List (List κ → Bool → Result ε (List κ)) → Progress κ → Result ε (Progress κ)
  | [], progress => .ok progress
  | matcher :: rest, progress =>
    if !progress.initialized then do
      let filtered ← matcher progress.filtered true
      if filtered.isEmpty then return ⟨true, filtered⟩
      else loop rest ⟨true, filtered⟩
    else do
      let filtered ← matcher progress.filtered false
      loop rest ⟨true, filtered⟩

variable {isNil : κ → Bool}

/-! ## The matches that are left -/

def MatchedAlone (matcher : List κ → Bool → Result ε (List κ)) (k : κ) : Prop :=
  ∃ found, matcher [] true = .ok found ∧ k ∈ found

/-- What all the conditions match. -/
def Common (conditions : List (Result ε (List κ))) (k : κ) : Prop :=
  ∀ matched ∈ conditions, ∃ set, matched = .ok set ∧ k ∈ set

def Returns (isNil : κ → Bool) (matched : Result ε (List κ)) : Prop :=
  ∃ set, matched = .ok set ∧ set.Nodup ∧ ∀ k ∈ set, isNil k = false

structure Narrowed (conditions : List (Result ε (List κ))) (progress : Progress κ) : Prop where
  initialized : progress.initialized = true ↔ conditions ≠ []
  mem_iff : conditions ≠ [] → ∀ k, k ∈ progress.filtered ↔ Common conditions k
  nodup : progress.filtered.Nodup

omit [DecidableEq κ] in
theorem narrowed_nil : Narrowed ([] : List (Result ε (List κ))) ⟨false, []⟩ where
  initialized := by simp
  mem_iff hne := absurd rfl hne
  nodup := List.nodup_nil

variable {k : κ}

omit [DecidableEq κ] in
theorem common_concat {conditions : List (Result ε (List κ))} {set : List κ} :
    Common (conditions ++ [.ok set]) k ↔ Common conditions k ∧ k ∈ set := by
  simp [Common, or_imp, forall_and]

theorem narrow_first (matched : Result ε (List κ)) (filtered : List κ) :
    narrow isNil matched filtered true = matched := by
  cases matched <;> simp [narrow]

theorem narrow_later {set filtered : List κ} (hnil : ∀ k ∈ set, isNil k = false) :
    ∃ next, narrow isNil (.ok set : Result ε (List κ)) filtered false = .ok next ∧
      (∀ k, k ∈ next ↔ k ∈ filtered ∧ k ∈ set) ∧ (filtered.Nodup → set.Nodup → next.Nodup) := by
  cases filtered with
  | nil => exact ⟨[], rfl, by simp, fun h _ => h⟩
  | cons first rest =>
    cases set with
    | nil => exact ⟨[], rfl, by simp, fun _ h => h⟩
    | cons other others =>
      refine ⟨_, rfl, fun k => ?_, fun h _ => h.filter _⟩
      rw [List.mem_filter, Bool.and_eq_true, decide_eq_true_eq, Bool.not_eq_true']
      exact ⟨fun h => ⟨h.1, h.2.1⟩, fun h => ⟨h.1, h.2, hnil k h.2⟩⟩

variable {progress : Progress κ}

/-- The loop leaves what the conditions have in common. -/
theorem exists_loop {done conditions : List (Result ε (List κ))}
    (hprogress : Narrowed done progress)
    (hconditions : ∀ matched ∈ conditions, Returns isNil matched) :
    ∃ next, loop (conditions.map (narrow isNil)) progress = .ok next ∧
      Narrowed (done ++ conditions) next := by
  induction conditions generalizing done progress with
  | nil =>
    rw [List.append_nil]
    exact ⟨progress, rfl, hprogress⟩
  | cons matched conditions ih =>
    rw [List.forall_mem_cons] at hconditions
    obtain ⟨⟨set, rfl, hnodup, hnil⟩, hrest⟩ := hconditions
    have hsplit : done ++ .ok set :: conditions = (done ++ [.ok set]) ++ conditions := by simp
    rw [List.map_cons, loop]
    by_cases hinit : progress.initialized = true
    · have hne := hprogress.initialized.1 hinit
      obtain ⟨next, hnext, hmem, hnextNodup⟩ : ∃ next,
          narrow isNil (.ok set : Result ε (List κ)) progress.filtered false = .ok next ∧
            (∀ k, k ∈ next ↔ k ∈ progress.filtered ∧ k ∈ set) ∧
            (progress.filtered.Nodup → set.Nodup → next.Nodup) := narrow_later hnil
      simp only [hinit, Bool.not_true, Bool.false_eq_true, if_false, hnext, Result.ok_bind, hsplit]
      refine ih ⟨by simp, fun _ k => ?_, hnextNodup hprogress.nodup hnodup⟩ hrest
      rw [hmem, hprogress.mem_iff hne, common_concat]
    · have hdone : done = [] := by
        by_contra hne
        exact hinit (hprogress.initialized.2 hne)
      subst hdone
      simp only [hinit, Bool.not_false, if_true, narrow_first, Result.ok_bind, hsplit]
      cases set with
      | nil =>
        refine ⟨_, rfl, by simp, fun _ k => ?_, List.nodup_nil⟩
        simp [Common]
      | cons first rest =>
        refine ih ⟨by simp, fun _ k => ?_, hnodup⟩ hrest
        simp [Common]

theorem common_map_iff {α : Type} {matched : α → Result ε (List κ)} {conditions : List α} :
    Common (conditions.map matched) k ↔
      ∀ c ∈ conditions, MatchedAlone (narrow isNil (matched c)) k := by
  simp [Common, MatchedAlone, narrow_first]

variable {first last : List (Result ε (List κ))}

omit [DecidableEq κ] in
theorem common_append : Common (first ++ last) k ↔ Common first k ∧ Common last k := by
  simp [Common, or_imp, forall_and]

/-- Two loops, one after the other, leave the common elements of all conditions. -/
theorem exists_loops (hfirst : ∀ matched ∈ first, Returns isNil matched)
    (hlast : ∀ matched ∈ last, Returns isNil matched) :
    ∃ middle final, loop (first.map (narrow isNil)) ⟨false, []⟩ = .ok middle ∧
      loop (last.map (narrow isNil)) middle = .ok final ∧ Narrowed (first ++ last) final := by
  obtain ⟨middle, hmiddle, hnarrowed⟩ := exists_loop narrowed_nil hfirst
  obtain ⟨final, hfinal, hall⟩ := exists_loop hnarrowed hlast
  exact ⟨middle, final, hmiddle, hfinal, hall⟩

/-! ## Conditions that fail -/

variable {fault : Option ε}

theorem failure_narrow {matched : Result ε (List κ)} {filtered : List κ} {firstRun : Bool}
    (hfault : (narrow isNil matched filtered firstRun).failure = some fault) :
    matched.failure = some fault := by
  rw [narrow] at hfault
  split at hfault
  case isTrue => cases hfault
  case isFalse =>
    rcases Result.failure_bind_eq_some_iff.1 hfault with hmatched | ⟨tmp, _, hrest⟩
    · exact hmatched
    · split at hrest <;> cases hrest

theorem failure_loop {α : Type} {matched : α → Result ε (List κ)} {conditions : List α}
    (hfault : (loop (conditions.map fun c => narrow isNil (matched c)) progress).failure =
      some fault) : ∃ c ∈ conditions, (matched c).failure = some fault := by
  induction conditions generalizing progress with
  | nil => cases hfault
  | cons c rest ih =>
    rw [List.exists_mem_cons_iff]
    rw [List.map_cons, loop] at hfault
    split at hfault
    case isTrue =>
      rcases Result.failure_bind_eq_some_iff.1 hfault with hmatched | ⟨filtered, _, hrest⟩
      · exact .inl (failure_narrow hmatched)
      · split at hrest
        · cases hrest
        · exact .inr (ih hrest)
    case isFalse =>
      rcases Result.failure_bind_eq_some_iff.1 hfault with hmatched | ⟨filtered, _, hrest⟩
      · exact .inl (failure_narrow hmatched)
      · exact .inr (ih hrest)

end Dymint.Narrow
