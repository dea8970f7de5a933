import Mathlib.Data.List.Infix

/-!
# Cutting a list by a running state

A loop over a list carries a state along and stops early.  It either leaves the element
out that leads to a bad state, or includes the one that leads to its aim.
-/

namespace Dymint.Cuts

variable {σ β : Type*} (step : σ → β → σ)

/-- The longest start of the list that stays good. -/
def cutWhile (good : σ → Prop) [DecidablePred good] : σ → List β → List β
  | _, [] => []
  | state, first :: rest =>
    if good (step state first) then
      first :: cutWhile good (step state first) rest
    else []

/-- The list up to where the aim is reached. -/
def takeUntil (aim : σ → Prop) [DecidablePred aim] : σ → List β → List β
  | _, [] => []
  | state, first :: rest =>
    if aim (step state first) then [first]
    else first :: takeUntil aim (step state first) rest

section

variable {step} {good : σ → Prop} [DecidablePred good]

theorem cutWhile_eq_iff {state : σ} {list cut : List β} : cutWhile step good state list = cut ↔
      cut <+: list ∧ (∀ part, part <+: cut → part ≠ [] → good (part.foldl step state)) ∧
        ∀ next, cut ++ [next] <+: list → ¬ good ((cut ++ [next]).foldl step state) := by
  induction list generalizing state cut with
  | nil =>
    rw [cutWhile]
    constructor
    · rintro rfl
      simp
    · intro hcut
      exact (List.prefix_nil.1 hcut.1).symm
  | cons first rest ih =>
    rw [cutWhile]
    by_cases hgood : good (step state first)
    case neg =>
      rw [if_neg hgood]
      constructor
      · rintro rfl
        refine ⟨List.nil_prefix, ?_, ?_⟩
        · intro part hpart hne
          exact absurd (List.prefix_nil.1 hpart) hne
        · intro next hnext
          obtain ⟨rfl, _⟩ := List.cons_prefix_cons.1 hnext
          exact hgood
      · rintro ⟨hlist, hparts, _⟩
        cases cut with
        | nil => rfl
        | cons other cut =>
          obtain ⟨rfl, _⟩ := List.cons_prefix_cons.1 hlist
          have hone : [other] <+: other :: cut := List.cons_prefix_cons.2 ⟨rfl, List.nil_prefix⟩
          exact absurd (hparts [other] hone (by simp)) hgood
    case pos =>
      rw [if_pos hgood]
      cases cut with
      | nil =>
        constructor
        · intro hnil
          cases hnil
        · rintro ⟨_, _, hnext⟩
          have hone : [first] <+: first :: rest := List.cons_prefix_cons.2 ⟨rfl, List.nil_prefix⟩
          exact absurd hgood (hnext first hone)
      | cons other cut =>
        rw [List.cons.injEq, ih, List.cons_prefix_cons]
        constructor
        · rintro ⟨rfl, hlist, hparts, hnext⟩
          refine ⟨⟨rfl, hlist⟩, ?_, ?_⟩
          · intro part hpart hne
            obtain ⟨head, part, rfl⟩ := List.exists_cons_of_ne_nil hne
            obtain ⟨rfl, hrest⟩ := List.cons_prefix_cons.1 hpart
            by_cases hend : part = []
            · subst hend
              exact hgood
            · exact hparts part hrest hend
          · intro next hextended
            exact hnext next (List.cons_prefix_cons.1 hextended).2
        · rintro ⟨⟨rfl, hlist⟩, hparts, hnext⟩
          refine ⟨rfl, hlist, ?_, ?_⟩
          · intro part hpart _
            exact hparts (other :: part) (List.cons_prefix_cons.2 ⟨rfl, hpart⟩) (by simp)
          · intro next hextended
            exact hnext next (List.cons_prefix_cons.2 ⟨rfl, hextended⟩)

end

section

variable (aim : σ → Prop) [DecidablePred aim] (state : σ) (list : List β)

theorem takeUntil_prefix : takeUntil step aim state list <+: list := by
  induction list generalizing state with
  | nil => exact List.prefix_rfl
  | cons first rest ih =>
    rw [takeUntil]
    split
    · exact List.cons_prefix_cons.2 ⟨rfl, List.nil_prefix⟩
    · exact List.cons_prefix_cons.2 ⟨rfl, ih _⟩

theorem takeUntil_eq_nil : takeUntil step aim state list = [] ↔ list = [] := by
  cases list with
  | nil => exact iff_of_true rfl rfl
  | cons first rest =>
    rw [takeUntil]
    split <;> simp

variable {step aim state list}

theorem not_aim_of_prefix_takeUntil {part : List β} (hpart : part <+: takeUntil step aim state list)
    (hproper : part ≠ takeUntil step aim state list) (hne : part ≠ []) :
    ¬ aim (part.foldl step state) := by
  induction list generalizing state part with
  | nil => exact absurd (List.prefix_nil.1 hpart) hne
  | cons first rest ih =>
    obtain ⟨other, part, rfl⟩ := List.exists_cons_of_ne_nil hne
    rw [takeUntil] at hpart hproper
    split at hpart
    case isTrue haim =>
      rw [if_pos haim] at hproper
      obtain ⟨rfl, hnil⟩ := List.cons_prefix_cons.1 hpart
      rw [List.prefix_nil.1 hnil] at hproper
      exact absurd rfl hproper
    case isFalse haim =>
      rw [if_neg haim] at hproper
      obtain ⟨rfl, hpart⟩ := List.cons_prefix_cons.1 hpart
      by_cases hend : part = []
      · subst hend
        exact haim
      · apply ih hpart _ hend
        rintro rfl
        exact hproper rfl

theorem aim_takeUntil (hne : list ≠ []) (haim : aim (list.foldl step state)) :
    aim ((takeUntil step aim state list).foldl step state) := by
  induction list generalizing state with
  | nil => exact absurd rfl hne
  | cons first rest ih =>
    rw [takeUntil]
    split
    case isTrue hfirst => exact hfirst
    case isFalse hfirst =>
      apply ih _ haim
      rintro rfl
      exact hfirst haim

end

end Dymint.Cuts
