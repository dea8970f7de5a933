import Mathlib.Data.List.Basic

/-!
# Systems given by their moves

A system starts in some state and makes one labelled move after another.  What
every move keeps holds in every state that a run passes through.  If from states
that satisfy a property a move leads to such a state exactly when it meets a
condition, then the property holds throughout a run exactly when all its moves
meet the condition.
-/

namespace Dymint.Runs

variable {σ κ : Type*}

structure Lts (σ κ : Type*) where
  start : σ
  step : σ → κ → Option σ

structure Move (σ κ : Type*) where
  source : σ
  label : κ
  target : σ

variable {state : σ} {labels : List κ} {inv : σ → Prop}

namespace Lts

/-- The moves of a run from the state, up to the first that is not possible. -/
def path (lts : Lts σ κ) : σ → List κ → List (Move σ κ)
  | _, [] => []
  | state, label :: labels =>
    match lts.step state label with
    | none => []
    | some next => ⟨state, label, next⟩ :: lts.path next labels

variable {lts : Lts σ κ}

theorem path_cons_of_none {label : κ} (hnone : lts.step state label = none) :
    lts.path state (label :: labels) = [] := by
  rw [path, hnone]

theorem path_cons_of_some {next : σ} {label : κ} (hnext : lts.step state label = some next) :
    lts.path state (label :: labels) = ⟨state, label, next⟩ :: lts.path next labels := by
  rw [path, hnext]

theorem label_mem_of_mem_path {move : Move σ κ} (hmove : move ∈ lts.path state labels) :
    move.label ∈ labels := by
  induction labels generalizing state with
  | nil => cases hmove
  | cons label labels ih =>
    cases hnext : lts.step state label with
    | none =>
      rw [path_cons_of_none hnext] at hmove
      cases hmove
    | some next =>
      rw [path_cons_of_some hnext] at hmove
      rcases List.mem_cons.1 hmove with rfl | hrest
      · exact List.mem_cons_self
      · exact List.mem_cons_of_mem label (ih hrest)

/-- In a run whose moves all meet a condition, the invariant holds before and after each
of them. -/
theorem forall_path_of_guard {guard : σ → κ → Prop}
    (hstep : ∀ state label next, inv state → guard state label → lts.step state label = some next →
      inv next) (hstate : inv state)
    (hguard : ∀ move ∈ lts.path state labels, guard move.source move.label) :
    ∀ move ∈ lts.path state labels,
      inv move.source ∧ lts.step move.source move.label = some move.target ∧ inv move.target := by
  induction labels generalizing state with
  | nil => simp [path]
  | cons label labels ih =>
    cases hnext : lts.step state label with
    | none => simp [path_cons_of_none hnext]
    | some next =>
      rw [path_cons_of_some hnext, List.forall_mem_cons] at hguard ⊢
      have hinv := hstep state label next hstate hguard.1 hnext
      exact ⟨⟨hstate, hnext, hinv⟩, ih hinv hguard.2⟩

theorem forall_path
    (hstep : ∀ state label next, inv state → lts.step state label = some next → inv next)
    (hstate : inv state) (labels : List κ) : ∀ move ∈ lts.path state labels, inv move.target := by
  intro move hmove
  exact (forall_path_of_guard (fun state label next hinv (_ : True) => hstep state label next hinv)
    hstate (fun _ _ => trivial) move hmove).2.2

/-- A property holds throughout a run exactly when all moves meet the
condition. -/
theorem forall_path_iff {base : σ → Prop} {cond : σ → κ → Prop}
    (hbase : ∀ state label next, base state → lts.step state label = some next → base next)
    (hstep : ∀ state label next, base state → inv state → lts.step state label = some next → (inv
      next ↔ cond state label)) (hstate : base state) (hinv : inv state) (labels : List κ) :
    (∀ move ∈ lts.path state labels, inv move.target) ↔
      ∀ move ∈ lts.path state labels, cond move.source move.label := by
  induction labels generalizing state with
  | nil => simp [path]
  | cons label labels ih =>
    cases hnext : lts.step state label with
    | none => simp [path_cons_of_none hnext]
    | some next =>
      have hfirst := hstep state label next hstate hinv hnext
      rw [path_cons_of_some hnext, List.forall_mem_cons, List.forall_mem_cons, ← hfirst]
      exact and_congr_right fun hinv' =>
        ih (hbase state label next hstate hnext) hinv'

end Lts

end Dymint.Runs
