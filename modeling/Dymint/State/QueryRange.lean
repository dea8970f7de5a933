import Dymint.Core.Decimal
import Dymint.Core.Procedure
import Dymint.Types.Tendermint
import Mathlib.Data.List.AList

/-!
# Range conditions of queries

The conditions of a parsed query and the ranges that `LookForRanges` makes of those
with `<`, `<=`, `>` and `>=`: for every composite key one record with a bound on either
side.  A further condition on the same side overwrites the bound, while the flag that it
is inclusive stays set, and a bound that is not inclusive is turned into one by adding or
subtracting one.
-/

namespace Dymint.Query

open Procedure Dymint.Types Decimal

/-! ## Conditions -/

inductive Operator where
  | opLessEqual
  | opGreaterEqual
  | opLess
  | opGreater
  | opEqual
  | opContains
  | opExists
  deriving DecidableEq

/-- A floating point number and a time are kept as they are printed; of a time also the
seconds since 1970 are read. -/
inductive Operand where
  | string (text : Bytes)
  | int64 (value : Int64)
  | float64 (text : Bytes)
  | time (unix : Int64) (text : Bytes)
  deriving DecidableEq

/-- The operand is nil for `EXISTS`. -/
structure Condition where
  compositeKey : Bytes
  op : Operator
  operand : Option Operand
  deriving DecidableEq

/-- An operand as `%v` prints it. -/
def sprint : Option Operand → Bytes
  | none => utf8 "<nil>"
  | some (.string text) => text
  | some (.int64 value) => int64Text value
  | some (.float64 text) => text
  | some (.time _ text) => text

def Operator.Takes : Operator → Option Operand → Prop
  | .opExists, operand => operand = none
  | .opContains, operand => ∃ text, operand = some (.string text)
  | .opEqual, operand => operand ≠ none
  | _, operand => operand ≠ none ∧ ∀ text, operand ≠ some (.string text)

def Parsed (conditions : List Condition) : Prop := ∀ c ∈ conditions, c.op.Takes c.operand

/-! ## Ranges -/

inductive Side where
  | lower
  | upper
  deriving DecidableEq

structure QueryRange where
  lowerBound : Option Operand
  upperBound : Option Operand
  key : Bytes
  includeLowerBound : Bool
  includeUpperBound : Bool
  deriving DecidableEq

abbrev QueryRanges := AList fun _ : Bytes => QueryRange

/-- The next number inside of a bound, in machine arithmetic. -/
def Side.next : Side → Int64 → Int64
  | .lower, t => t + 1
  | .upper, t => t - 1

namespace QueryRange

def ofKey (key : Bytes) : QueryRange := ⟨none, none, key, false, false⟩

def anyBound (qr : QueryRange) : Option Operand :=
  match qr.lowerBound with
  | some bound => some bound
  | none => qr.upperBound

def bound (qr : QueryRange) : Side → Option Operand
  | .lower => qr.lowerBound
  | .upper => qr.upperBound

def inclusive (qr : QueryRange) : Side → Bool
  | .lower => qr.includeLowerBound
  | .upper => qr.includeUpperBound

def boundValue (qr : QueryRange) (side : Side) : Result Error (Option Operand) :=
  match qr.bound side with
  | none => .ok none
  | some bound =>
    if qr.inclusive side then .ok (some bound)
    else
      match bound with
      | .int64 t => .ok (some (.int64 (side.next t)))
      | .time unix _ => .ok (some (.int64 (side.next unix)))
      -- "not implemented"
      | _ => .panic

def lowerBoundValue (qr : QueryRange) : Result Error (Option Operand) := qr.boundValue .lower

def upperBoundValue (qr : QueryRange) : Result Error (Option Operand) := qr.boundValue .upper

def add (r : QueryRange) (c : Condition) : QueryRange :=
  match c.op with
  | .opGreater => { r with lowerBound := c.operand }
  | .opGreaterEqual => { r with includeLowerBound := true, lowerBound := c.operand }
  | .opLess => { r with upperBound := c.operand }
  | .opLessEqual => { r with includeUpperBound := true, upperBound := c.operand }
  | _ => r

end QueryRange

def isRangeOperation : Operator → Bool
  | .opGreater | .opGreaterEqual | .opLess | .opLessEqual => true
  | _ => false

/-- One round of the loop of `LookForRanges`. -/
def lookForRange (found : QueryRanges × List ℕ) (entry : Condition × ℕ) : QueryRanges × List ℕ :=
  if isRangeOperation entry.1.op then
    let key := entry.1.compositeKey
    let r := (found.1.lookup key).getD (.ofKey key)
    (found.1.insert key (r.add entry.1), found.2 ++ [entry.2])
  else found

def lookForRanges (conditions : List Condition) : QueryRanges × List ℕ :=
  conditions.zipIdx.foldl lookForRange (∅, [])

def remaining (conditions : List Condition) : List Condition :=
  (conditions.zipIdx.filter fun entry =>
    decide (entry.2 ∉ (lookForRanges conditions).2)).map Prod.fst

structure MapOrder where
  ranges : QueryRanges → List QueryRange
  ranges_perm : ∀ found : QueryRanges, (ranges found).Perm (found.entries.map Sigma.snd)
  keys : List Bytes → List Bytes
  keys_perm : ∀ found : List Bytes, (keys found).Perm found

def MapOrder.startingWith (qr : QueryRange) : MapOrder where
  ranges found :=
    let all := found.entries.map Sigma.snd
    if qr ∈ all then qr :: all.erase qr else all
  ranges_perm found := by
    dsimp only
    split
    case isTrue hqr => exact (List.perm_cons_erase hqr).symm
    case isFalse => exact List.Perm.refl _
  keys := id
  keys_perm := List.Perm.refl

instance : Nonempty MapOrder := ⟨.startingWith (.ofKey [])⟩

/-! ## The filter -/

/-- One comparison of `matchRange`: the bound is asserted to be an `int64`. -/
def within (side : Side) (bound : Option Operand) (v : Int64) : Result Error Bool :=
  match bound with
  | none => .ok true
  | some (.int64 t) =>
    match side with
    | .lower => .ok (!decide (v < t))
    | .upper => .ok (!decide (t < v))
  | some _ => .panic

/-- Both comparisons are made. -/
def includes (lowerBound upperBound : Option Operand) (v : Int64) : Result Error Bool := do
  let above ← within .lower lowerBound v
  let below ← within .upper upperBound v
  return above && below

def passes (conditions : List Condition) (key : Bytes) (v : Int64) : Result Error Bool :=
  match (lookForRanges conditions).1.lookup key with
  | none => .ok true
  | some qr => do
    let lowerBound ← qr.lowerBoundValue
    let upperBound ← qr.upperBoundValue
    includes lowerBound upperBound v

/-! ## What the conditions say -/

/-- What a range condition with an `int64` operand says about a value. -/
def Condition.Satisfied (c : Condition) (v : Int64) : Prop :=
  match c.operand with
  | some (.int64 t) =>
    match c.op with
    | .opGreater => t < v
    | .opGreaterEqual => t ≤ v
    | .opLess => v < t
    | .opLessEqual => v ≤ t
    | _ => True
  | _ => True

def relevant (conditions : List Condition) (key : Bytes) : List Condition :=
  conditions.filter fun c => isRangeOperation c.op && decide (c.compositeKey = key)

variable {conditions : List Condition} {key : Bytes}

theorem mem_relevant {c : Condition} : c ∈ relevant conditions key ↔
      c ∈ conditions ∧ isRangeOperation c.op = true ∧ c.compositeKey = key := by
  simp [relevant]

def Operator.side : Operator → Option (Side × Bool)
  | .opGreater => some (.lower, false)
  | .opGreaterEqual => some (.lower, true)
  | .opLess => some (.upper, false)
  | .opLessEqual => some (.upper, true)
  | _ => none

namespace Side

/-- The bound that no number violates. -/
def free : Side → ℤ
  | .lower => -2 ^ 63
  | .upper => 2 ^ 63 - 1

def nextInt : Side → ℤ → ℤ
  | .lower, t => t + 1
  | .upper, t => t - 1

def Admits : Side → ℤ → ℤ → Prop
  | .lower, bound, v => bound ≤ v
  | .upper, bound, v => v ≤ bound

def stricter : Side → ℤ → ℤ → ℤ
  | .lower, left, right => max left right
  | .upper, left, right => min left right

theorem admits_stricter (side : Side) (left right v : ℤ) :
    side.Admits (side.stricter left right) v ↔ side.Admits left v ∧ side.Admits right v := by
  cases side
  · exact max_le_iff
  · exact le_min_iff

theorem admits_free (side : Side) (v : Int64) : side.Admits side.free v.toInt := by
  cases side
  · exact Int64.le_toInt v
  · exact Int.le_sub_one_of_lt (Int64.toInt_lt v)

def tight (side : Side) (bound : Bool × Int64) : ℤ :=
  if bound.1 then bound.2.toInt else side.nextInt bound.2.toInt

def strictest (side : Side) (bounds : List (Bool × Int64)) : ℤ :=
  bounds.foldr (fun bound rest => side.stricter (side.tight bound) rest) side.free

theorem admits_strictest (side : Side) (bounds : List (Bool × Int64)) (v : Int64) :
    side.Admits (side.strictest bounds) v.toInt ↔
      ∀ bound ∈ bounds, side.Admits (side.tight bound) v.toInt := by
  induction bounds with
  | nil => simpa [strictest] using side.admits_free v
  | cons bound bounds ih =>
    rw [strictest, List.foldr_cons, admits_stricter, List.forall_mem_cons, ← ih]
    rfl

def folded (side : Side) (bounds : List (Bool × Int64)) : ℤ :=
  match bounds.getLast? with
  | none => side.free
  | some bound => (if bounds.any (·.1) then bound.2 else side.next bound.2).toInt

end Side

/-- The bounds that conditions with `int64` operands give for a side, in their order. -/
def sideBounds (side : Side) (conditions : List Condition) : List (Bool × Int64) :=
  conditions.filterMap fun c =>
    match c.op.side, c.operand with
    | some (other, inclusive), some (.int64 t) =>
      if other = side then some (inclusive, t) else none
    | _, _ => none

def BoundsKept (conditions : List Condition) (key : Bytes) : Prop :=
  let lower := sideBounds .lower (relevant conditions key)
  let upper := sideBounds .upper (relevant conditions key)
  (Side.lower.folded lower = Side.lower.strictest lower ∧
      Side.upper.folded upper = Side.upper.strictest upper) ∨
    (Side.upper.folded upper < Side.lower.folded lower ∧
      Side.upper.strictest upper < Side.lower.strictest lower)

instance (conditions : List Condition) (key : Bytes) : Decidable (BoundsKept conditions key) :=
  inferInstanceAs (Decidable (_ ∨ _))

def IntOperands (conditions : List Condition) : Prop :=
  ∀ c ∈ conditions, ∃ t, c.operand = some (.int64 t)

/-! ## The ranges of a list of conditions -/

def foldRange (key : Bytes) (conditions : List Condition) : Option QueryRange :=
  conditions.foldl (fun r c => some ((r.getD (.ofKey key)).add c)) none

theorem foldRange_concat (key : Bytes) (conditions : List Condition) (c : Condition) :
    foldRange key (conditions ++ [c]) =
      some (((foldRange key conditions).getD (.ofKey key)).add c) := by
  rw [foldRange, List.foldl_append]
  rfl

theorem foldRange_eq_none_iff : foldRange key conditions = none ↔ conditions = [] := by
  cases conditions using List.reverseRecOn with
  | nil => exact ⟨fun _ => rfl, fun _ => rfl⟩
  | append_singleton conditions c => simp [foldRange_concat]

theorem lookForRanges_concat (conditions : List Condition) (c : Condition) :
    lookForRanges (conditions ++ [c]) =
      lookForRange (lookForRanges conditions) (c, conditions.length) := by
  rw [lookForRanges, List.zipIdx_append, List.foldl_append, Nat.zero_add]
  rfl

theorem lookup_lookForRanges (conditions : List Condition) (key : Bytes) :
    (lookForRanges conditions).1.lookup key = foldRange key (relevant conditions key) := by
  induction conditions using List.reverseRecOn with
  | nil => rfl
  | append_singleton conditions c ih =>
    rw [lookForRanges_concat, lookForRange, relevant, List.filter_append]
    change _ = foldRange key (relevant conditions key ++ _)
    by_cases hop : isRangeOperation c.op = true
    · rw [if_pos hop]
      by_cases hkey : c.compositeKey = key
      · subst hkey
        simp only [AList.lookup_insert, ih, hop, decide_true, Bool.and_self,
          List.filter_singleton, cond_true, foldRange_concat]
      · simp only [AList.lookup_insert_ne (Ne.symm hkey), ih, hkey, decide_false,
          Bool.and_false, List.filter_singleton, cond_false, List.append_nil]
    · simp [hop, ih]

variable {qr : QueryRange}

theorem key_of_foldRange (hqr : foldRange key conditions = some qr) : qr.key = key := by
  induction conditions using List.reverseRecOn generalizing qr with
  | nil => cases hqr
  | append_singleton conditions c ih =>
    rw [foldRange_concat] at hqr
    obtain rfl := Option.some.inj hqr
    have hkey : ((foldRange key conditions).getD (.ofKey key)).key = key := by
      cases hfold : foldRange key conditions with
      | none => rfl
      | some qr => exact ih hfold
    rw [← hkey]
    unfold QueryRange.add
    split <;> simp [hkey]

theorem MapOrder.mem_ranges (order : MapOrder) : qr ∈ order.ranges (lookForRanges conditions).1 ↔
      foldRange qr.key (relevant conditions qr.key) = some qr := by
  rw [(order.ranges_perm _).mem_iff, List.mem_map]
  have hentry (key : Bytes) (other : QueryRange) :
      (⟨key, other⟩ : Σ _ : Bytes, QueryRange) ∈ (lookForRanges conditions).1.entries ↔
        foldRange key (relevant conditions key) = some other := by
    rw [← lookup_lookForRanges]
    exact AList.mem_lookup_iff.symm
  constructor
  · rintro ⟨⟨key, other⟩, hmem, rfl⟩
    have hfold := (hentry key other).1 hmem
    have hkey : other.key = key := key_of_foldRange hfold
    change foldRange other.key (relevant conditions other.key) = some other
    rw [hkey]
    exact hfold
  · intro hfold
    exact ⟨⟨qr.key, qr⟩, (hentry qr.key qr).2 hfold, rfl⟩

theorem mem_rangeIndexes {i : ℕ} : i ∈ (lookForRanges conditions).2 ↔
      ∃ c, conditions[i]? = some c ∧ isRangeOperation c.op = true := by
  induction conditions using List.reverseRecOn with
  | nil => simp [lookForRanges]
  | append_singleton conditions c ih =>
    have hlast : (∃ other, (conditions ++ [c])[i]? = some other ∧
        isRangeOperation other.op = true) ↔
        (∃ other, conditions[i]? = some other ∧ isRangeOperation other.op = true) ∨
          (i = conditions.length ∧ isRangeOperation c.op = true) := by
      grind
    rw [hlast, ← ih, lookForRanges_concat, lookForRange]
    split
    case isTrue hop => simp [hop]
    case isFalse hop => simp [hop]

theorem remaining_eq (conditions : List Condition) :
    remaining conditions = conditions.filter fun c => !isRangeOperation c.op := by
  have hsame : (conditions.zipIdx.filter fun entry =>
      decide (entry.2 ∉ (lookForRanges conditions).2)) =
      conditions.zipIdx.filter fun entry => !isRangeOperation entry.1.op := by
    apply List.filter_congr
    rintro ⟨c, i⟩ hentry
    have hget : conditions[i]? = some c := List.mem_zipIdx_iff_getElem?.1 hentry
    have hmem : i ∈ (lookForRanges conditions).2 ↔
        ∃ c, conditions[i]? = some c ∧ isRangeOperation c.op = true := mem_rangeIndexes
    rw [hget] at hmem
    simp [hmem]
  calc remaining conditions
      = (conditions.zipIdx.filter fun entry => !isRangeOperation entry.1.op).map Prod.fst := by
        rw [remaining, hsame]
    _ = (conditions.zipIdx.map Prod.fst).filter fun c => !isRangeOperation c.op := by
        rw [List.filter_map]
        rfl
    _ = conditions.filter fun c => !isRangeOperation c.op := by
        rw [List.zipIdx_map_fst]

section

variable {conditions : List Condition}

theorem sideBounds_concat (side : Side) (conditions : List Condition) (c : Condition) :
    sideBounds side (conditions ++ [c]) = sideBounds side conditions ++ sideBounds side [c] :=
  List.filterMap_append

theorem bound_add (r : QueryRange) (c : Condition) {t : Int64}
    (hoperand : c.operand = some (.int64 t)) (side : Side) :
    (r.add c).bound side =
        ((sideBounds side [c]).getLast?.map fun bound => Operand.int64 bound.2).or (r.bound side) ∧
      (r.add c).inclusive side = (r.inclusive side || (sideBounds side [c]).any (·.1)) := by
  unfold QueryRange.add sideBounds
  cases hop : c.op <;> cases side <;>
    simp [hop, hoperand, Operator.side, QueryRange.bound, QueryRange.inclusive]

theorem bound_foldRange (key : Bytes) (hint : IntOperands conditions) (side : Side) :
    ((foldRange key conditions).getD (.ofKey key)).bound side =
        (sideBounds side conditions).getLast?.map (fun bound => Operand.int64 bound.2) ∧
      ((foldRange key conditions).getD (.ofKey key)).inclusive side =
        (sideBounds side conditions).any (·.1) := by
  induction conditions using List.reverseRecOn with
  | nil => cases side <;> exact ⟨rfl, rfl⟩
  | append_singleton conditions c ih =>
    obtain ⟨t, hoperand⟩ := hint c (by simp)
    obtain ⟨hbound, hinclusive⟩ := ih fun c hc => hint c (by simp [hc])
    obtain ⟨hadd, hadd'⟩ := bound_add ((foldRange key conditions).getD (.ofKey key)) c hoperand side
    rw [foldRange_concat, Option.getD_some, hadd, hadd', hbound, hinclusive,
      sideBounds_concat, List.any_append, List.getLast?_append]
    refine ⟨?_, rfl⟩
    cases (sideBounds side [c]).getLast? with
    | none | some => rfl

theorem boundValue_foldRange (key : Bytes) (hint : IntOperands conditions) (side : Side) :
    ((foldRange key conditions).getD (.ofKey key)).boundValue side =
      .ok ((sideBounds side conditions).getLast?.map fun bound =>
        .int64 (if (sideBounds side conditions).any (·.1) then bound.2
          else side.next bound.2)) := by
  obtain ⟨hbound, hinclusive⟩ := bound_foldRange key hint side
  rw [QueryRange.boundValue, hbound, hinclusive]
  cases (sideBounds side conditions).getLast? with
  | none => rfl
  | some bound =>
    simp only [Option.map_some]
    split
    case isTrue => rfl
    case isFalse => rfl

theorem within_folded (bounds : List (Bool × Int64)) (side : Side) (v : Int64) :
    ∃ inside, within side (bounds.getLast?.map fun bound =>
        .int64 (if bounds.any (·.1) then bound.2 else side.next bound.2)) v = .ok inside ∧
      (inside = true ↔ side.Admits (side.folded bounds) v.toInt) := by
  rw [Side.folded]
  cases bounds.getLast? with
  | none => exact ⟨true, rfl, by simp [side.admits_free v]⟩
  | some bound =>
    generalize (if bounds.any (·.1) then bound.2 else side.next bound.2) = t
    cases side with
    | lower | upper =>
      refine ⟨_, rfl, ?_⟩
      simp [Side.Admits, Int64.lt_iff_toInt_lt]

end

def IntRanges (conditions : List Condition) : Prop :=
  ∀ c ∈ conditions, isRangeOperation c.op = true → ∃ t, c.operand = some (.int64 t)

theorem lookup_lookForRanges_eq_none (hop : ∀ c ∈ conditions, isRangeOperation c.op = false)
    (key : Bytes) : (lookForRanges conditions).1.lookup key = none := by
  rw [lookup_lookForRanges, foldRange_eq_none_iff, relevant, List.filter_eq_nil_iff]
  intro c hc
  simp [hop c hc]

theorem intRanges_of_forall (hop : ∀ c ∈ conditions, isRangeOperation c.op = false) :
    IntRanges conditions := by
  intro c hc hrange
  rw [hop c hc] at hrange
  cases hrange

theorem MapOrder.exists_bounds (order : MapOrder) (hint : IntRanges conditions)
    (hqr : qr ∈ order.ranges (lookForRanges conditions).1) :
    ∃ lower upper, qr.lowerBoundValue = .ok lower ∧ qr.upperBoundValue = .ok upper ∧
      ∀ v, ∃ kept, includes lower upper v = .ok kept := by
  have hoperands : IntOperands (relevant conditions qr.key) := by
    intro c hc
    obtain ⟨hmem, hop, _⟩ := mem_relevant.1 hc
    exact hint c hmem hop
  have hvalue := boundValue_foldRange qr.key hoperands
  rw [order.mem_ranges.1 hqr, Option.getD_some] at hvalue
  refine ⟨_, _, hvalue .lower, hvalue .upper, fun v => ?_⟩
  obtain ⟨above, habove, _⟩ :=
    within_folded (sideBounds .lower (relevant conditions qr.key)) .lower v
  obtain ⟨below, hbelow, _⟩ :=
    within_folded (sideBounds .upper (relevant conditions qr.key)) .upper v
  refine ⟨above && below, ?_⟩
  rw [includes, habove, hbelow]
  rfl

theorem passes_iff (hint : IntOperands (relevant conditions key)) (v : Int64) :
    passes conditions key v = .ok true ↔
      Side.lower.Admits (Side.lower.folded (sideBounds .lower (relevant conditions key))) v.toInt ∧
        Side.upper.Admits (Side.upper.folded (sideBounds .upper (relevant conditions key)))
          v.toInt := by
  rw [passes, lookup_lookForRanges]
  have hlower := boundValue_foldRange key hint .lower
  have hupper := boundValue_foldRange key hint .upper
  cases hfold : foldRange key (relevant conditions key) with
  | none =>
    rw [foldRange_eq_none_iff.1 hfold]
    exact ⟨fun _ => ⟨Side.lower.admits_free v, Side.upper.admits_free v⟩, fun _ => rfl⟩
  | some qr =>
    rw [hfold, Option.getD_some] at hlower hupper
    obtain ⟨above, hwithin, habove⟩ :=
      within_folded (sideBounds .lower (relevant conditions key)) .lower v
    obtain ⟨below, hwithin', hbelow⟩ :=
      within_folded (sideBounds .upper (relevant conditions key)) .upper v
    simp only [QueryRange.lowerBoundValue, QueryRange.upperBoundValue, hlower, hupper,
      Result.ok_bind, includes, hwithin, hwithin']
    rw [← habove, ← hbelow, ← Bool.and_eq_true]
    exact ⟨Result.ok.inj, fun h => congrArg Result.ok h⟩

theorem satisfied_iff {c : Condition} {t : Int64} (hoperand : c.operand = some (.int64 t))
    (v : Int64) :
    c.Satisfied v ↔ ∀ side, ∀ bound ∈ sideBounds side [c],
      side.Admits (side.tight bound) v.toInt := by
  have hsides (p : Side → Prop) : (∀ side, p side) ↔ p .lower ∧ p .upper :=
    ⟨fun h => ⟨h .lower, h .upper⟩, fun h side => by cases side; exacts [h.1, h.2]⟩
  rw [hsides, Condition.Satisfied, hoperand]
  cases hop : c.op <;>
    simp [sideBounds, hop, hoperand, Operator.side, Side.Admits, Side.tight, Side.nextInt,
      Int64.lt_iff_toInt_lt, Int64.le_iff_toInt_le, Int.add_one_le_iff, Int.le_sub_one_iff]

theorem forall_satisfied_iff (hint : IntOperands conditions) (v : Int64) :
    (∀ c ∈ conditions, c.Satisfied v) ↔
      ∀ side : Side, side.Admits (side.strictest (sideBounds side conditions)) v.toInt := by
  simp only [Side.admits_strictest]
  constructor
  · intro hall side bound hbound
    obtain ⟨c, hc, hside⟩ := List.mem_filterMap.1 hbound
    obtain ⟨t, hoperand⟩ := hint c hc
    apply (satisfied_iff hoperand v).1 (hall c hc) side bound
    exact List.mem_filterMap.2 ⟨c, List.mem_singleton_self c, hside⟩
  · intro hall c hc
    obtain ⟨t, hoperand⟩ := hint c hc
    refine (satisfied_iff hoperand v).2 fun side bound hbound => hall side bound ?_
    obtain ⟨other, hother, hside⟩ := List.mem_filterMap.1 hbound
    rw [List.mem_singleton.1 hother] at hside
    exact List.mem_filterMap.2 ⟨c, hc, hside⟩

/-! ## Exactness -/

/-- Two intervals have the same machine integers if and only if they have the same ends or
are empty. -/
theorem interval_iff {lower upper lower' upper' : ℤ} (hlower : -2 ^ 63 ≤ lower)
    (hlower' : -2 ^ 63 ≤ lower') (hupper : upper < 2 ^ 63) (hupper' : upper' < 2 ^ 63) :
    (∀ v : Int64, (lower ≤ v.toInt ∧ v.toInt ≤ upper) ↔ (lower' ≤ v.toInt ∧ v.toInt ≤ upper')) ↔
      (lower = lower' ∧ upper = upper') ∨ (upper < lower ∧ upper' < lower') := by
  constructor
  · intro hsame
    have hsame' (z : ℤ) (hz : -2 ^ 63 ≤ z) (hz' : z < 2 ^ 63) :
        (lower ≤ z ∧ z ≤ upper) ↔ (lower' ≤ z ∧ z ≤ upper') := by
      have hv := hsame (Int64.ofInt z)
      rwa [Int64.toInt_ofInt_of_le hz hz'] at hv
    -- the ends of an interval that is not empty are machine integers
    by_cases hempty : upper < lower
    · right
      refine ⟨hempty, ?_⟩
      by_contra hne
      have hend := hsame' lower' hlower' (by omega)
      omega
    · left
      have hfirst := hsame' lower hlower (by omega)
      have hlast := hsame' upper (by omega) hupper
      have hfirst' := hsame' lower' hlower' (by omega)
      have hlast' := hsame' upper' (by omega) hupper'
      omega
  · rintro (⟨rfl, rfl⟩ | ⟨hempty, hempty'⟩) v
    · exact Iff.rfl
    · omega

theorem Side.strictest_bounds (bounds : List (Bool × Int64)) :
    -2 ^ 63 ≤ Side.lower.strictest bounds ∧ Side.upper.strictest bounds < 2 ^ 63 := by
  induction bounds with
  | nil => decide
  | cons bound bounds ih =>
    exact ⟨le_max_of_le_right ih.1, min_lt_of_right_lt ih.2⟩

theorem Side.folded_bounds (side : Side) (bounds : List (Bool × Int64)) :
    -2 ^ 63 ≤ side.folded bounds ∧ side.folded bounds < 2 ^ 63 := by
  rw [Side.folded]
  cases bounds.getLast? with
  | none =>
    change -2 ^ 63 ≤ side.free ∧ side.free < 2 ^ 63
    cases side <;> decide
  | some bound => exact ⟨Int64.le_toInt _, Int64.toInt_lt _⟩

/-- The filter for a key lets exactly those values pass that satisfy all range conditions
for the key, if and only if the strictest bounds are kept. -/
theorem range_filter_exact_iff (conditions : List Condition) (key : Bytes)
    (hint : IntOperands (relevant conditions key)) :
    (∀ v, passes conditions key v = .ok true ↔
      ∀ c ∈ conditions, isRangeOperation c.op = true → c.compositeKey = key →
        c.Satisfied v) ↔ BoundsKept conditions key := by
  have hall (v : Int64) : (∀ c ∈ conditions, isRangeOperation c.op = true →
      c.compositeKey = key → c.Satisfied v) ↔
      Side.lower.strictest (sideBounds .lower (relevant conditions key)) ≤ v.toInt ∧
        v.toInt ≤ Side.upper.strictest (sideBounds .upper (relevant conditions key)) := by
    have hsatisfied := forall_satisfied_iff hint v
    simp only [mem_relevant, and_imp] at hsatisfied
    rw [hsatisfied]
    exact ⟨fun h => ⟨h .lower, h .upper⟩, fun h side => by cases side; exacts [h.1, h.2]⟩
  simp only [hall, passes_iff hint]
  exact interval_iff (Side.folded_bounds _ _).1 (Side.strictest_bounds _).1
    (Side.folded_bounds _ _).2 (Side.strictest_bounds _).2

/-- A condition `a op t`. -/
def onA (op : Operator) (t : Int64) : Condition := ⟨[97], op, some (.int64 t)⟩

/-- `a > 4 AND a < 10 AND b < 1`. -/
theorem range_filter_exact_between :
    BoundsKept [onA .opGreater 4, onA .opLess 10, ⟨[98], .opLess, some (.int64 1)⟩] [97] ∧
      ∀ v, passes [onA .opGreater 4, onA .opLess 10, ⟨[98], .opLess, some (.int64 1)⟩] [97] v =
        .ok true ↔ ∀ c ∈ [onA .opGreater 4, onA .opLess 10, ⟨[98], .opLess, some (.int64 1)⟩],
            isRangeOperation c.op = true → c.compositeKey = [97] → c.Satisfied v := by
  have hkept : BoundsKept
      [onA .opGreater 4, onA .opLess 10, ⟨[98], .opLess, some (.int64 1)⟩] [97] := by decide
  refine ⟨hkept, (range_filter_exact_iff _ _ ?_).2 hkept⟩
  intro c hc
  obtain ⟨hc, _, _⟩ := mem_relevant.1 hc
  simp only [List.mem_cons, List.not_mem_nil, or_false] at hc
  rcases hc with rfl | rfl | rfl
  · exact ⟨4, rfl⟩
  · exact ⟨10, rfl⟩
  · exact ⟨1, rfl⟩

/-- An earlier stricter bound is forgotten, an earlier inclusive one leaves its flag, and a
strict bound at the end of the range wraps around. -/
theorem range_filter_not_exact : passes [onA .opGreater 5, onA .opGreater 3] [97] 4 = .ok true ∧
      ¬ (onA .opGreater 5).Satisfied 4 ∧
      passes [onA .opGreaterEqual 3, onA .opGreater 4] [97] 4 = .ok true ∧
      ¬ (onA .opGreater 4).Satisfied 4 ∧
      passes [onA .opGreater Int64.maxValue] [97] 0 = .ok true ∧
      ¬ (onA .opGreater Int64.maxValue).Satisfied 0 := by
  refine ⟨by decide, ?_, by decide, ?_, by decide, ?_⟩
  · change ¬ (5 : Int64) < 4
    decide
  · change ¬ (4 : Int64) < 4
    decide
  · change ¬ Int64.maxValue < 0
    decide

end Dymint.Query
