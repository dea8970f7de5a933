import Mathlib.Data.List.Nodup

/-!
# Maps that index a list

The elements of a list may carry a label.  A map indexes the list by these labels
if it leads from every label to the one element that carries it, and from
everything else to nothing.
-/

namespace Dymint.ListIndex

variable {ι β : Type*} [DecidableEq ι] [DecidableEq β]

/-- The map finds the labelled elements of the list, each by its label. -/
def Indexes (map : β → Option ι) (list : List ι) (label : ι → Option β) : Prop :=
  ∀ name element, map name = some element ↔ element ∈ list ∧ label element = some name

variable {map : β → Option ι} {list : List ι} {label : ι → Option β}

variable {name : β} {element : ι}

namespace Indexes

omit [DecidableEq ι] [DecidableEq β] in
theorem congr {label' : ι → Option β} (hindex : Indexes map list label)
    (hlabel : ∀ element ∈ list, label' element = label element) : Indexes map list label' := by
  intro name element
  rw [hindex]
  apply and_congr_right
  intro helement
  rw [hlabel element helement]

omit [DecidableEq ι] [DecidableEq β] in
theorem injective (hindex : Indexes map list label) {left right : ι} (hleft : left ∈ list)
    (hright : right ∈ list) (hleft' : label left = some name) (hright' : label right = some name) :
    left = right := by
  have hfirst := (hindex name left).2 ⟨hleft, hleft'⟩
  have hsecond := (hindex name right).2 ⟨hright, hright'⟩
  exact Option.some.inj (hfirst.symm.trans hsecond)

omit [DecidableEq ι] [DecidableEq β] in
theorem eq_none (hindex : Indexes map list label)
    (hname : ∀ element ∈ list, label element ≠ some name) : map name = none := by
  rw [Option.eq_none_iff_forall_ne_some]
  intro element hfound
  obtain ⟨helement, hlabel⟩ := (hindex name element).1 hfound
  exact hname element helement hlabel

theorem erase (hindex : Indexes map list label) (hnodup : list.Nodup) (helement : element ∈ list)
    (hname : label element = some name) :
    Indexes (Function.update map name none) (list.erase element) label := by
  intro other found
  rw [hnodup.mem_erase_iff]
  by_cases hother : other = name
  · subst hother
    rw [Function.update_self]
    constructor
    · intro hnone
      cases hnone
    · rintro ⟨⟨hne, hfound⟩, hlabel⟩
      exact absurd (hindex.injective hfound helement hlabel hname) hne
  · rw [Function.update_of_ne hother, hindex]
    constructor
    · rintro ⟨hfound, hlabel⟩
      refine ⟨⟨?_, hfound⟩, hlabel⟩
      rintro rfl
      exact hother (Option.some.inj (hlabel.symm.trans hname))
    · rintro ⟨⟨-, hfound⟩, hlabel⟩
      exact ⟨hfound, hlabel⟩

omit [DecidableEq β] in
theorem erase_unlabelled (hindex : Indexes map list label) (hnodup : list.Nodup)
    (hname : label element = none) : Indexes map (list.erase element) label := by
  intro other found
  rw [hnodup.mem_erase_iff, hindex]
  constructor
  · rintro ⟨hfound, hlabel⟩
    refine ⟨⟨?_, hfound⟩, hlabel⟩
    rintro rfl
    rw [hname] at hlabel
    cases hlabel
  · rintro ⟨⟨-, hfound⟩, hlabel⟩
    exact ⟨hfound, hlabel⟩

omit [DecidableEq ι] in
theorem append (hindex : Indexes map list label) (hname : label element = some name)
    (hnew : map name = none) :
    Indexes (Function.update map name (some element)) (list ++ [element]) label := by
  intro other found
  rw [List.mem_append, List.mem_singleton]
  by_cases hother : other = name
  · subst hother
    rw [Function.update_self, Option.some.injEq]
    constructor
    · rintro rfl
      exact ⟨Or.inr rfl, hname⟩
    · rintro ⟨hfound | rfl, hlabel⟩
      · have hold := (hindex other found).2 ⟨hfound, hlabel⟩
        rw [hnew] at hold
        cases hold
      · rfl
  · rw [Function.update_of_ne hother, hindex]
    constructor
    · rintro ⟨hfound, hlabel⟩
      exact ⟨Or.inl hfound, hlabel⟩
    · rintro ⟨hfound | rfl, hlabel⟩
      · exact ⟨hfound, hlabel⟩
      · exact absurd (Option.some.inj (hlabel.symm.trans hname)) hother

omit [DecidableEq ι] [DecidableEq β] in
theorem append_unlabelled (hindex : Indexes map list label) (hname : label element = none) :
    Indexes map (list ++ [element]) label := by
  intro other found
  rw [List.mem_append, List.mem_singleton, hindex]
  constructor
  · rintro ⟨hfound, hlabel⟩
    exact ⟨Or.inl hfound, hlabel⟩
  · rintro ⟨hfound | rfl, hlabel⟩
    · exact ⟨hfound, hlabel⟩
    · rw [hname] at hlabel
      cases hlabel

end Indexes

end Dymint.ListIndex
