import Dymint.State.Matching
import Mathlib.Data.List.Find

/-!
# Searches that panic

The grammar of queries allows operands that the searches do not expect.  The hash and the
height of a shortcut are asserted to be a string and an integer, a strict bound that is a
floating point number is not implemented, and if the lower bound of a range is an integer
the upper one is asserted to be one too as soon as there is a number to compare it with.
A search does not panic, in any order of its map, if and only if none of this happens.
-/

namespace Dymint.Query

open Procedure Dymint.Types KV

def NotInt (bound : Option Operand) : Prop := ∃ b, bound = some b ∧ ∀ t, b ≠ .int64 t

variable {qr : QueryRange} {side : Side}

namespace QueryRange

def Mixed (qr : QueryRange) : Prop :=
  (∃ t, qr.lowerBound = some (.int64 t)) ∧ qr.includeUpperBound = true ∧ NotInt qr.upperBound

def FloatsInclusive (qr : QueryRange) : Prop :=
  ∀ side text, qr.bound side = some (.float64 text) → qr.inclusive side = true

theorem boundValue_ne_err (qr : QueryRange) (side : Side) (error : Error) :
    qr.boundValue side ≠ .err error := by
  rw [boundValue]
  split
  · simp
  · split
    · simp
    · split <;> simp

theorem boundValue_eq_panic_iff (htext : ∀ text, qr.bound side ≠ some (.string text)) :
    qr.boundValue side = .panic ↔
      ∃ text, qr.bound side = some (.float64 text) ∧ qr.inclusive side = false := by
  cases hbound : qr.bound side with
  | none => simp [boundValue, hbound]
  | some bound =>
    cases bound with
    | string text => exact absurd hbound (htext text)
    | int64 t | float64 text | time unix text =>
      cases hinclusive : qr.inclusive side <;> simp [boundValue, hbound, hinclusive]

theorem notInt_value_iff {value : Option Operand} (hvalue : qr.boundValue side = .ok value) :
    NotInt value ↔ qr.inclusive side = true ∧ NotInt (qr.bound side) := by
  cases hbound : qr.bound side with
  | none =>
    simp only [boundValue, hbound, Result.ok.injEq] at hvalue
    simp [NotInt, ← hvalue]
  | some bound =>
    cases hinclusive : qr.inclusive side with
    | true =>
      simp only [boundValue, hbound, hinclusive, if_true, Result.ok.injEq] at hvalue
      simp [← hvalue]
    | false =>
      cases bound <;>
        simp only [boundValue, hbound, hinclusive, Bool.false_eq_true, if_false,
          Result.ok.injEq, reduceCtorEq] at hvalue <;>
        simp [NotInt, ← hvalue]

end QueryRange

theorem within_eq_panic_iff {bound : Option Operand} {v : Int64} :
    within side bound v = .panic ↔ NotInt bound := by
  cases bound with
  | none => simp [within, NotInt]
  | some bound => cases bound <;> cases side <;> simp [within, NotInt]

theorem within_ne_err (side : Side) (bound : Option Operand) (v : Int64) (error : Error) :
    within side bound v ≠ .err error := by
  unfold within
  split
  · simp
  · split <;> simp
  · simp

theorem includes_ne_err (lower upper : Option Operand) (v : Int64) (error : Error) :
    includes lower upper v ≠ .err error := by
  simp [includes, Result.bind_ne_err, within_ne_err]

theorem includes_eq_panic_iff {lower upper : Option Operand} {v : Int64} :
    includes lower upper v = .panic ↔ NotInt lower ∨ NotInt upper := by
  have hlower : within .lower lower v = .panic ↔ NotInt lower := within_eq_panic_iff
  have hupper : within .upper upper v = .panic ↔ NotInt upper := within_eq_panic_iff
  rw [← hlower, ← hupper, includes]
  cases habove : within .lower lower v with
  | ok above =>
    cases hbelow : within .upper upper v with
    | ok | err | panic => simp
  | err error => exact absurd habove (within_ne_err _ _ _ _)
  | panic => simp

/-! ## Scanning for a range -/

/-- Whether a scan takes an entry, where `number` reads the number of a key. -/
def keepsNumber (number : Bytes → Option Int64) (qr : QueryRange)
    (lowerBound upperBound : Option Operand) (key : Bytes) : Result Error Bool :=
  match number key with
  | none => .ok false
  | some v =>
    match qr.anyBound with
    | some (.int64 _) => includes lowerBound upperBound v
    | _ => .ok false

def scanRange (number : Bytes → Option Int64) (store : KVStore) (qr : QueryRange)
    (start : Bytes) : Result Error (List Bytes) := do
  let lowerBound ← qr.lowerBoundValue
  let upperBound ← qr.upperBoundValue
  collect (keepsNumber number qr lowerBound upperBound) (store.prefixIterator start) []

def Comparable (number : Bytes → Option Int64) (store : KVStore) (start : Bytes)
    (qr : QueryRange) : Prop :=
  qr.FloatsInclusive ∧ (qr.Mixed → ∀ key value, (key, value) ∈ store.prefixIterator start →
    number key = none)

section

variable {number : Bytes → Option Int64} {store : KVStore} {qr : QueryRange} {start : Bytes}
  {lower upper : Option Operand}

theorem keepsNumber_ne_err (key : Bytes) (error : Error) :
    keepsNumber number qr lower upper key ≠ .err error := by
  rw [keepsNumber]
  split
  · simp
  · split
    · exact includes_ne_err _ _ _ _
    · simp

theorem keepsNumber_eq_panic_iff (hlower : qr.lowerBoundValue = .ok lower)
    (hupper : qr.upperBoundValue = .ok upper) {key : Bytes} :
    keepsNumber number qr lower upper key = .panic ↔ qr.Mixed ∧ number key ≠ none := by
  rw [keepsNumber]
  cases number key with
  | none => simp
  | some v =>
    have hnot : includes lower upper v = .panic ↔
        (qr.includeLowerBound = true ∧ NotInt qr.lowerBound) ∨
          (qr.includeUpperBound = true ∧ NotInt qr.upperBound) := by
      rw [includes_eq_panic_iff, QueryRange.notInt_value_iff hlower,
        QueryRange.notInt_value_iff hupper]
      rfl
    cases hbound : qr.lowerBound with
    | none =>
      cases hother : qr.upperBound with
      | none => simp [QueryRange.anyBound, QueryRange.Mixed, hbound, hother]
      | some bound =>
        cases bound <;>
          simp [QueryRange.anyBound, QueryRange.Mixed, hbound, hother, hnot, NotInt]
    | some bound =>
      cases bound <;>
        simp [QueryRange.anyBound, QueryRange.Mixed, hbound, hnot, NotInt]

theorem scanRange_ne_err (error : Error) : scanRange number store qr start ≠ .err error := by
  rw [scanRange, Result.bind_ne_err]
  refine ⟨qr.boundValue_ne_err .lower error, fun lower _ => ?_⟩
  rw [Result.bind_ne_err]
  refine ⟨qr.boundValue_ne_err .upper error, fun upper _ hcollect => ?_⟩
  obtain ⟨key, value, _, hkeep⟩ := failure_collect (Result.failure_eq_err_iff.2 hcollect)
  exact keepsNumber_ne_err key error (Result.failure_eq_err_iff.1 hkeep)

theorem scanRange_eq_panic_iff (htext : ∀ side text, qr.bound side ≠ some (.string text)) :
    scanRange number store qr start = .panic ↔ ¬ Comparable number store start qr := by
  have hfloats : qr.FloatsInclusive ↔ ∀ side, qr.boundValue side ≠ .panic := by
    simp only [Ne, QueryRange.boundValue_eq_panic_iff (htext _), QueryRange.FloatsInclusive]
    grind
  have hvalue (side : Side) : (∃ value, qr.boundValue side = .ok value) ∨
      qr.boundValue side = .panic := by
    cases hside : qr.boundValue side with
    | ok value => exact .inl ⟨value, rfl⟩
    | err error => exact absurd hside (qr.boundValue_ne_err side error)
    | panic => exact .inr rfl
  rw [Comparable, hfloats]
  rcases hvalue .lower with ⟨lower, hlower⟩ | hlower
  · rcases hvalue .upper with ⟨upper, hupper⟩ | hupper
    · have hbounds : ∀ side, qr.boundValue side ≠ .panic := by
        intro side
        cases side
        · simp [hlower]
        · simp [hupper]
      have hpanic (key : Bytes) : keepsNumber number qr lower upper key = .panic ↔
          qr.Mixed ∧ number key ≠ none := keepsNumber_eq_panic_iff hlower hupper
      have hscan : scanRange number store qr start =
          collect (keepsNumber number qr lower upper) (store.prefixIterator start) [] := by
        rw [scanRange, QueryRange.lowerBoundValue, QueryRange.upperBoundValue, hlower, hupper]
        rfl
      rw [hscan]
      constructor
      · rintro hcollect ⟨_, hnumbers⟩
        obtain ⟨key, value, hentry, hkeep⟩ :=
          failure_collect (Result.failure_eq_panic_iff.2 hcollect)
        obtain ⟨hmixed, hnumber⟩ := (hpanic key).1 (Result.failure_eq_panic_iff.1 hkeep)
        exact hnumber (hnumbers hmixed key value hentry)
      · intro hnot
        have hsome : qr.Mixed ∧ ∃ key value, (key, value) ∈ store.prefixIterator start ∧
            number key ≠ none := by
          by_contra hnone
          refine hnot ⟨hbounds, fun hmixed key value hentry => ?_⟩
          by_contra hnumber
          exact hnone ⟨hmixed, key, value, hentry, hnumber⟩
        obtain ⟨hmixed, key, value, hentry, hnumber⟩ := hsome
        exact collect_eq_panic keepsNumber_ne_err hentry ((hpanic key).2 ⟨hmixed, hnumber⟩) []
    · simp only [scanRange, QueryRange.lowerBoundValue, QueryRange.upperBoundValue, hlower, hupper]
      exact iff_of_true rfl fun h => h.1 .upper hupper
  · simp only [scanRange, QueryRange.lowerBoundValue, hlower]
    exact iff_of_true rfl fun h => h.1 .lower hlower

end

theorem exists_of_bound_foldRange {key : Bytes} {conditions : List Condition}
    (hqr : foldRange key conditions = some qr) {bound : Operand}
    (hbound : qr.bound side = some bound) : ∃ c ∈ conditions, c.operand = some bound := by
  induction conditions using List.reverseRecOn generalizing qr with
  | nil => cases hqr
  | append_singleton conditions c ih =>
    rw [foldRange_concat] at hqr
    obtain rfl := Option.some.inj hqr
    have hadd (r : QueryRange) : (r.add c).bound side = c.operand ∨
        (r.add c).bound side = r.bound side := by
      unfold QueryRange.add
      cases side <;> split <;> simp [QueryRange.bound]
    rcases hadd ((foldRange key conditions).getD (.ofKey key)) with hlast | hbefore
    · exact ⟨c, by simp, hlast.symm.trans hbound⟩
    · rw [hbefore] at hbound
      cases hfold : foldRange key conditions with
      | none =>
        rw [hfold] at hbound
        cases side <;> cases hbound
      | some r =>
        rw [hfold] at hbound
        obtain ⟨other, hother, hoperand⟩ := ih hfold hbound
        exact ⟨other, by simp [hother], hoperand⟩

theorem MapOrder.bound_ne_string (order : MapOrder) {conditions : List Condition}
    (hparsed : Parsed conditions) (hqr : qr ∈ order.ranges (lookForRanges conditions).1)
    (side : Side) (text : Bytes) : qr.bound side ≠ some (.string text) := by
  intro hbound
  obtain ⟨c, hc, hoperand⟩ := exists_of_bound_foldRange (order.mem_ranges.1 hqr) hbound
  obtain ⟨hc, hop, _⟩ := mem_relevant.1 hc
  have htakes := hparsed c hc
  rw [hoperand] at htakes
  cases hc : c.op <;> simp_all [Operator.Takes, isRangeOperation]

/-! ## The ranges of a search -/

section

open Narrow Search

variable {store : KVStore} {number : Bytes → Bytes → Option Int64} {start : Bytes → Bytes}
  {conditions : List Condition}

def rangesLoop (store : KVStore) (number : Bytes → Bytes → Option Int64)
    (start : Bytes → Bytes) (conditions : List Condition) (order : MapOrder) :
    Result Error (Progress Bytes) :=
  loop ((order.ranges (lookForRanges conditions).1).map fun qr =>
    narrow List.isEmpty (scanRange (number qr.key) store qr (start qr.key))) ⟨false, []⟩

def AllComparable (store : KVStore) (number : Bytes → Bytes → Option Int64)
    (start : Bytes → Bytes) (conditions : List Condition) : Prop :=
  ∀ key qr, (lookForRanges conditions).1.lookup key = some qr →
    Comparable (number qr.key) store (start qr.key) qr

theorem rangesLoop_ne_err (order : MapOrder) (error : Error) :
    rangesLoop store number start conditions order ≠ .err error := by
  intro herr
  obtain ⟨qr, _, hscan⟩ := failure_loop (Result.failure_eq_err_iff.2 herr)
  exact scanRange_ne_err error (Result.failure_eq_err_iff.1 hscan)

theorem rangesLoop_ne_panic_iff (hparsed : Parsed conditions) :
    (∀ order, rangesLoop store number start conditions order ≠ .panic) ↔
      AllComparable store number start conditions := by
  constructor
  · intro hloop
    rw [AllComparable, ← forall_ranges_iff (.startingWith (.ofKey []))]
    intro qr hqr
    by_contra hnot
    have hmem : qr ∈ (MapOrder.startingWith qr).ranges (lookForRanges conditions).1 :=
      (MapOrder.startingWith qr).mem_ranges.2 (MapOrder.mem_ranges _ |>.1 hqr)
    have hscan : scanRange (number qr.key) store qr (start qr.key) = .panic :=
      (scanRange_eq_panic_iff ((MapOrder.startingWith qr).bound_ne_string hparsed hmem)).2 hnot
    have hall : qr ∈ (lookForRanges conditions).1.entries.map Sigma.snd :=
      ((MapOrder.startingWith qr).ranges_perm _).mem_iff.1 hmem
    have hfirst : (MapOrder.startingWith qr).ranges (lookForRanges conditions).1 =
        qr :: ((lookForRanges conditions).1.entries.map Sigma.snd).erase qr := if_pos hall
    apply hloop (.startingWith qr)
    rw [rangesLoop, hfirst, List.map_cons, hscan]
    rfl
  · intro hall order hpanic
    obtain ⟨qr, hqr, hscan⟩ := failure_loop (Result.failure_eq_panic_iff.2 hpanic)
    exact (scanRange_eq_panic_iff (order.bound_ne_string hparsed hqr)).1
      (Result.failure_eq_panic_iff.1 hscan) ((forall_ranges_iff order).2 hall qr hqr)

end

/-- The first condition `key =` has an integer as its operand. -/
def FirstEqualInt (key : Bytes) (conditions : List Condition) : Prop :=
  ∀ c, conditions.find? (fun c => decide (c.compositeKey = key ∧ c.op = .opEqual)) = some c →
    ∃ t, c.operand = some (.int64 t)

end Dymint.Query

/-! ## The transaction index -/

namespace Dymint.TxIndex

open Procedure Dymint.Types Decimal KV Query Narrow Search

def entryNumber (key : Bytes) : Option Int64 :=
  if isTagKey key then
    match extractValueFromKey key with
    | .ok text => parseInt64 text
    | _ => none
  else none

theorem rangeHashes_eq (store : KVStore) (qr : QueryRange) (start : Bytes) :
    rangeHashes store qr start = scanRange entryNumber store qr start := by
  have hkeeps (lower upper : Option Operand) :
      keepsInRange qr lower upper = keepsNumber entryNumber qr lower upper := by
    funext key
    rw [keepsInRange, keepsNumber, entryNumber]
    split
    case isTrue hkey =>
      obtain ⟨text, htext⟩ := exists_extractValueFromKey hkey
      simp only [htext, Result.ok_bind]
      cases parseInt64 text with
      | none => split <;> rfl
      | some v => rfl
    case isFalse => rfl
  simp only [rangeHashes, scanRange, hkeeps]

theorem lookForHeight_ne_panic_iff (conditions : List Condition) :
    lookForHeight conditions ≠ .panic ↔ FirstEqualInt txHeightKey conditions := by
  rw [lookForHeight_eq, FirstEqualInt]
  cases conditions.find? _ with
  | none => simp
  | some c =>
    rw [Option.elim_some]
    split
    case h_1 height hoperand => simp [hoperand]
    case h_2 hoperand => simpa using fun t => hoperand t

variable {c : Condition}

theorem filteredHashes_ne_panic_iff {store : KVStore} {conditions : List Condition}
    (hparsed : Parsed conditions) :
    (∀ order, filteredHashes store order conditions ≠ .panic) ↔
      FirstEqualInt txHeightKey conditions ∧
        AllComparable store (fun _ => entryNumber) (fun key => startKey [key]) conditions := by
  have hfiltered (order : MapOrder) : filteredHashes store order conditions =
      rangesLoop store (fun _ => entryNumber) (fun key => startKey [key]) conditions order >>=
        fun ranged => lookForHeight conditions >>= fun height =>
          loop ((remaining conditions).map fun c =>
            matchCondition store c (startKeyForCondition c height)) ranged >>=
          fun matched => .ok matched.filtered := by
    have hmatch (qr : QueryRange) (start : Bytes) : matchRange store qr start =
        narrow List.isEmpty (scanRange entryNumber store qr start) := by
      rw [← rangeHashes_eq]
      rfl
    simp only [filteredHashes, rangesLoop, hmatch]
    rfl
  rw [← rangesLoop_ne_panic_iff hparsed, ← lookForHeight_ne_panic_iff]
  simp only [hfiltered, Result.bind_ne_panic]
  constructor
  · intro hall
    refine ⟨?_, fun order => (hall order).1⟩
    -- any order will do: the ranges give no error
    obtain ⟨hloop, hrest⟩ := hall (.startingWith (.ofKey []))
    cases hranged : rangesLoop store (fun _ => entryNumber) (fun key => startKey [key])
        conditions (.startingWith (.ofKey [])) with
    | ok ranged => exact (hrest ranged hranged).1
    | err error => exact absurd hranged (rangesLoop_ne_err _ error)
    | panic => exact absurd hranged hloop
  · rintro ⟨hheight, hranges⟩ order
    refine ⟨hranges order, fun ranged _ => ⟨hheight, fun height _ => ⟨?_, by simp⟩⟩⟩
    intro hpanic
    obtain ⟨c, hc, hfault⟩ := failure_loop (Result.failure_eq_panic_iff.2 hpanic)
    rw [remaining_eq, List.mem_filter, Bool.not_eq_true'] at hc
    exact (scans_conditionHashes (hparsed c hc.1) hc.2 _).ne_panic
      (Result.failure_eq_panic_iff.1 hfault)

/-- The first condition on the hash has a text as its operand.  Without one, the first
`tx.height =` has an integer, and the bounds of all ranges can be computed and compared. -/
def Answerable (store : KVStore) (conditions : List Condition) : Prop :=
  match conditions.find? fun c => decide (c.compositeKey = txHashKey) with
  | some c => ∃ text, c.operand = some (.string text)
  | none => FirstEqualInt txHeightKey conditions ∧
      AllComparable store (fun _ => entryNumber) (fun key => startKey [key]) conditions

section

variable {codec : Codec} {store : KVStore} {conditions : List Condition}

theorem get_ne_panic (hash : Bytes) : get codec store hash ≠ .panic := by
  rw [get]
  split
  · simp
  · split
    · simp
    · split
      · simp
      · split <;> simp

theorem fetch_ne_panic (hashes : List Bytes) : fetch codec store hashes ≠ .panic := by
  induction hashes with
  | nil => simp [fetch]
  | cons hash hashes ih =>
    rw [fetch]
    split
    case h_1 => simp
    case h_2 hpanic => exact absurd hpanic (get_ne_panic hash)
    case h_3 => exact ih
    case h_4 => exact Result.bind_ne_panic.2 ⟨ih, by simp⟩

theorem search_ne_panic_of_find {order : MapOrder}
    (hfind : conditions.find? (fun c => decide (c.compositeKey = txHashKey)) = some c) :
    search codec store order conditions ≠ .panic ↔ ∃ text, c.operand = some (.string text) := by
  have hlook := @lookForHash_eq codec conditions
  rw [hfind, Option.elim_some] at hlook
  cases hoperand : c.operand with
  | none => simp [search, hlook, hoperand]
  | some operand =>
    cases operand with
    | string text =>
      rw [hoperand] at hlook
      refine iff_of_true ?_ ⟨text, rfl⟩
      cases hdecode : codec.decodeHex text with
      | error error => simp [search, hlook, hdecode, Result.ofExcept]
      | ok hash =>
        simp only [search, hlook, hdecode, Result.ofExcept, Result.ok_bind]
        split
        case h_1 => simp
        case h_2 hpanic => exact absurd hpanic (get_ne_panic hash)
        case h_3 => simp
        case h_4 => simp
    | int64 | float64 | time => simp [search, hlook, hoperand]

theorem search_ne_panic_iff (hparsed : Parsed conditions) :
    (∀ order, search codec store order conditions ≠ .panic) ↔ Answerable store conditions := by
  rw [Answerable]
  split
  case h_1 c hfind =>
    simp only [search_ne_panic_of_find hfind]
    exact forall_const MapOrder
  case h_2 hfind =>
    have hhash : lookForHash codec conditions = .ok none := lookForHash_eq_none fun c hc => by
        simpa using List.find?_eq_none.1 hfind c hc
    rw [← filteredHashes_ne_panic_iff hparsed]
    refine forall_congr' fun order => ?_
    rw [search, hhash]
    change (filteredHashes store order conditions >>= _) ≠ _ ↔ _
    rw [Result.bind_ne_panic]
    exact and_iff_left fun hashes _ => fetch_ne_panic _

end

end Dymint.TxIndex

/-! ## The block index -/

namespace Dymint.BlockIndex

open Procedure Dymint.Types Decimal KV Query Narrow Search

variable {c : Condition}

section

variable (code : OrderedCode)

def entryNumber (rangeKey key : Bytes) : Option Int64 :=
  (if rangeKey = blockHeightKey then parseValueFromPrimaryKey code key
    else parseValueFromEventKey code key).bind parseInt64

/-- The first `block.height =` has an integer as its operand.  Without one, the bounds of
all ranges can be computed and compared. -/
def Answerable (store : KVStore) (conditions : List Condition) : Prop :=
  match conditions.find?
    fun c => decide (c.compositeKey = blockHeightKey ∧ c.op = .opEqual) with
  | some c => ∃ t, c.operand = some (.int64 t)
  | none => AllComparable store (entryNumber code) code.appendString conditions

variable {code} {store : KVStore} {conditions : List Condition}

theorem rangeHeights_eq (qr : QueryRange) (start : Bytes) :
    rangeHeights code store qr start = scanRange (entryNumber code qr.key) store qr start := by
  have hkeeps (lower upper : Option Operand) : keepsInRange code qr lower upper =
        keepsNumber (entryNumber code qr.key) qr lower upper := by
    funext key
    rw [keepsInRange, keepsNumber, entryNumber]
    cases if qr.key = blockHeightKey then parseValueFromPrimaryKey code key
      else parseValueFromEventKey code key with
    | none => rfl
    | some text =>
      simp only [Option.bind_some]
      cases parseInt64 text with
      | none => split <;> rfl
      | some v => rfl
  simp only [rangeHeights, scanRange, hkeeps]

theorem filteredHeights_ne_panic_iff (hparsed : Parsed conditions) :
    (∀ order, filteredHeights code store order conditions ≠ .panic) ↔
      AllComparable store (entryNumber code) code.appendString conditions := by
  have hfiltered (order : MapOrder) : filteredHeights code store order conditions =
      rangesLoop store (entryNumber code) code.appendString conditions order >>=
        fun ranged => loop ((remaining conditions).map fun c =>
          matchCondition code store c (startKeyForCondition code c)) ranged >>=
        fun matched => .ok matched.filtered := by
    have hmatch (qr : QueryRange) (start : Bytes) : matchRange code store qr start =
        narrow List.isEmpty (scanRange (entryNumber code qr.key) store qr start) := by
      rw [← rangeHeights_eq]
      rfl
    simp only [filteredHeights, rangesLoop, hmatch]
    rfl
  rw [← rangesLoop_ne_panic_iff hparsed]
  refine forall_congr' fun order => ?_
  rw [hfiltered, Result.bind_ne_panic]
  refine and_iff_left fun ranged _ => Result.bind_ne_panic.2 ⟨fun hpanic => ?_, by simp⟩
  obtain ⟨c, hc, hfault⟩ := failure_loop (Result.failure_eq_panic_iff.2 hpanic)
  rw [remaining_eq, List.mem_filter, Bool.not_eq_true'] at hc
  exact (scans_conditionHeights code (hparsed c hc.1) hc.2 _).ne_panic
    (Result.failure_eq_panic_iff.1 hfault)

theorem search_ne_panic_of_find {order : MapOrder}
    (hfind : conditions.find?
      (fun c => decide (c.compositeKey = blockHeightKey ∧ c.op = .opEqual)) = some c) :
    search code store order conditions ≠ .panic ↔ ∃ t, c.operand = some (.int64 t) := by
  rw [search, lookForHeight_eq, hfind, Option.elim_some]
  cases c.operand with
  | none => simp
  | some operand => cases operand <;> simp

theorem search_ne_panic_iff (hparsed : Parsed conditions) :
    (∀ order, search code store order conditions ≠ .panic) ↔ Answerable code store conditions := by
  rw [Answerable]
  split
  case h_1 c hfind =>
    simp only [search_ne_panic_of_find hfind]
    exact forall_const MapOrder
  case h_2 hfind =>
    have hheight : lookForHeight conditions = .ok none :=
      lookForHeight_eq_none fun c hc hkey hop => by
        have hnot := List.find?_eq_none.1 hfind c hc
        simp [hkey, hop] at hnot
    rw [← filteredHeights_ne_panic_iff hparsed]
    refine forall_congr' fun order => ?_
    rw [search, hheight, Result.ok_bind]
    change (filteredHeights code store order conditions >>= _) ≠ _ ↔ _
    rw [Result.bind_ne_panic]
    exact and_iff_left fun heights _ => by simp

end

end Dymint.BlockIndex

/-! ## Both indexes -/

namespace Dymint.Search

open Procedure Dymint.Types Decimal KV Query

/-- For a query that the parser accepts and any contents of the indexes, the searches panic
in no order of their maps if and only if the query can be answered. -/
theorem searches_never_panic_iff (codec : TxIndex.Codec) (code : BlockIndex.OrderedCode)
    (txs blocks : KVStore) (conditions : List Condition) (hparsed : Parsed conditions) :
    ((∀ order, TxIndex.search codec txs order conditions ≠ .panic) ↔
      TxIndex.Answerable txs conditions) ∧
    ((∀ order, BlockIndex.search code blocks order conditions ≠ .panic) ↔
      BlockIndex.Answerable code blocks conditions) :=
  ⟨TxIndex.search_ne_panic_iff hparsed, BlockIndex.search_ne_panic_iff hparsed⟩

/-- `a.b > 1 AND a.b <= 2.5`. -/
def mixedQuery : List Condition := [⟨utf8 "a.b", .opGreater, some (.int64 1)⟩,
    ⟨utf8 "a.b", .opLessEqual, some (.float64 (utf8 "2.5"))⟩]

/-- A result with one attribute `a.b`. -/
def attributed (value : Bytes) : TxIndex.TxResult :=
  ⟨4, 0, [7], ⟨0, [], "", 0, 0⟩, [⟨utf8 "a", [⟨utf8 "b", value, true⟩]⟩]⟩

def seven : TxIndex.TxResult := attributed (utf8 "7")

def word : TxIndex.TxResult := attributed (utf8 "word")

/-- Bounds of two kinds are harmless for both searches as long as no number is found. -/
theorem searches_never_panic_mixed : (∀ order, TxIndex.search (.ofResults [word])
      (TxIndex.run (.ofResults [word]) [] [.index word]) order mixedQuery ≠ .panic) ∧
    ∀ order, BlockIndex.search .reference
      (BlockIndex.run .reference [] [⟨4, word.events, []⟩]) order mixedQuery ≠ .panic := by
  have hparsed : Parsed mixedQuery := by simp [Parsed, mixedQuery, Operator.Takes]
  obtain ⟨htx, hblock⟩ := searches_never_panic_iff (.ofResults [word]) .reference
    (TxIndex.run (.ofResults [word]) [] [.index word])
    (BlockIndex.run .reference [] [⟨4, word.events, []⟩]) mixedQuery hparsed
  have hcomparable (store : KVStore) (number : Bytes → Bytes → Option Int64)
      (start : Bytes → Bytes) (hwords : ∀ entry ∈ store.prefixIterator (start (utf8 "a.b")),
        number (utf8 "a.b") entry.1 = none) : AllComparable store number start mixedQuery := by
    rw [AllComparable, ← forall_ranges_iff (.startingWith (.ofKey []))]
    intro qr hqr
    obtain rfl : qr = ⟨some (.int64 1), some (.float64 (utf8 "2.5")), utf8 "a.b", false, true⟩ :=
      List.mem_singleton.1 hqr
    refine ⟨fun side text hbound => ?_, fun _ key value => hwords (key, value)⟩
    cases side with
    | lower => cases hbound
    | upper => rfl
  refine ⟨htx.2 ⟨fun c hc => ?_, hcomparable _ _ _ (by decide +kernel)⟩,
    hblock.2 (hcomparable _ _ _ (by decide +kernel))⟩
  cases hc

/-- A hash that is not a text, a height that is not an integer and a strict bound that is a
float make a search of an empty index panic, and bounds of two kinds one that finds a
number. -/
theorem searches_panic : TxIndex.search (.ofResults []) (.empty []) (.startingWith (.ofKey []))
        [⟨TxIndex.txHashKey, .opExists, none⟩] = .panic ∧
      TxIndex.search (.ofResults []) (.empty []) (.startingWith (.ofKey []))
        [⟨TxIndex.txHeightKey, .opEqual, some (.string (utf8 "abc"))⟩] = .panic ∧
      TxIndex.search (.ofResults []) (.empty []) (.startingWith (.ofKey []))
        [⟨utf8 "a.b", .opGreater, some (.float64 (utf8 "1.5"))⟩] = .panic ∧
      TxIndex.search (.ofResults [seven]) (TxIndex.run (.ofResults [seven]) [] [.index seven])
        (.startingWith (.ofKey [])) mixedQuery = .panic ∧
      BlockIndex.search .reference (.empty []) (.startingWith (.ofKey []))
        [⟨BlockIndex.blockHeightKey, .opEqual, some (.string (utf8 "x"))⟩] = .panic ∧
      BlockIndex.search .reference (.empty []) (.startingWith (.ofKey []))
        [⟨utf8 "a.b", .opGreater, some (.float64 (utf8 "1.5"))⟩] = .panic ∧
      BlockIndex.search .reference (BlockIndex.run .reference [] [⟨4, seven.events, []⟩])
        (.startingWith (.ofKey [])) mixedQuery = .panic := by
  refine ⟨rfl, rfl, rfl, ?_, rfl, rfl, ?_⟩
  · decide +kernel
  · decide +kernel

end Dymint.Search
