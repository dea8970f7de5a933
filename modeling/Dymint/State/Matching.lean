import Dymint.State.BlockIndex

/-!
# What a search collects

Both indexes go through the ranges of a query in the order of a map and then through the
other conditions, and narrow what they have found.  For the contents that indexing leaves
in a store, the matches that are collected are those that every range and every other
condition has on its own, whatever the order of the map and wherever the loops end early.
-/

namespace Dymint.Search

open Procedure Dymint.Types KV Query Narrow

def NoNil (store : KVStore) : Prop := ∀ key value, store.get key = some value → value ≠ []

/-- `found` is collected by a scan that can decide on every key. -/
def Scans (store : KVStore) (found : Result Error (List Bytes)) : Prop :=
  ∃ keep start, (∀ key, ∃ kept, keep key = .ok kept) ∧
    found = collect keep (store.prefixIterator start) []

namespace Scans

variable {store : KVStore} {result : Result Error (List Bytes)} (hscans : Scans store result)

include hscans

theorem exists_values : ∃ found, result = .ok found ∧ found.Nodup ∧
    ∀ value ∈ found, ∃ key, store.get key = some value := by
  obtain ⟨keep, start, hkeep, rfl⟩ := hscans
  obtain ⟨found, hfound, hnodup, hmem⟩ :=
    exists_collect (fun key value (_ : (key, value) ∈ store.prefixIterator start) => hkeep key)
      List.nodup_nil
  refine ⟨found, hfound, hnodup, fun value hvalue => ?_⟩
  rcases (hmem value).1 hvalue with hnil | ⟨key, hentry, _⟩
  · cases hnil
  · obtain ⟨rest, _, hget⟩ := store.mem_prefixIterator.1 hentry
    exact ⟨_, hget⟩

theorem returns (hstore : NoNil store) : Returns List.isEmpty result := by
  obtain ⟨found, hfound, hnodup, hvalues⟩ := hscans.exists_values
  refine ⟨found, hfound, hnodup, fun value hvalue => ?_⟩
  obtain ⟨key, hget⟩ := hvalues value hvalue
  exact List.isEmpty_eq_false_iff.2 (hstore key value hget)

theorem ne_panic : result ≠ .panic := by
  obtain ⟨found, rfl, _⟩ := hscans.exists_values
  simp

end Scans

variable {conditions : List Condition}

/-- The loops that look for the first condition of a kind. -/
theorem lookFor_eq {β : Type} {p : Condition → Prop} [DecidablePred p]
    {look : List Condition → β} {found : Condition → β}
    (hcons : ∀ c rest, look (c :: rest) = if p c then found c else look rest) :
    look conditions = (conditions.find? fun c => decide (p c)).elim (look []) found := by
  induction conditions with
  | nil => rfl
  | cons c rest ih =>
    rw [hcons]
    split
    case isTrue hc =>
      rw [List.find?_cons_of_pos (by simpa using hc)]
      rfl
    case isFalse hc => rw [ih, List.find?_cons_of_neg (by simpa using hc)]

theorem forall_ranges_iff (order : MapOrder) {p : QueryRange → Prop} :
    (∀ qr ∈ order.ranges (lookForRanges conditions).1, p qr) ↔
      ∀ key qr, (lookForRanges conditions).1.lookup key = some qr → p qr := by
  simp only [order.mem_ranges, lookup_lookForRanges]
  constructor
  · intro h key qr hqr
    apply h
    rw [key_of_foldRange hqr]
    exact hqr
  · exact fun h qr hqr => h qr.key qr hqr

theorem forall_remaining_iff {p : Condition → Prop} : (∀ c ∈ remaining conditions, p c) ↔
      ∀ c ∈ conditions, isRangeOperation c.op = false → p c := by
  simp [remaining_eq]

theorem ranges_or_remaining (order : MapOrder) (hne : conditions ≠ []) :
    order.ranges (lookForRanges conditions).1 ≠ [] ∨ remaining conditions ≠ [] := by
  obtain ⟨c, hc⟩ := List.exists_mem_of_ne_nil _ hne
  by_cases hop : isRangeOperation c.op = true
  · left
    have hrelevant : c ∈ relevant conditions c.compositeKey := mem_relevant.2 ⟨hc, hop, rfl⟩
    cases hfold : foldRange c.compositeKey (relevant conditions c.compositeKey) with
    | none =>
      rw [foldRange_eq_none_iff.1 hfold] at hrelevant
      cases hrelevant
    | some qr =>
      have hqr : qr ∈ order.ranges (lookForRanges conditions).1 := by
        rw [order.mem_ranges, key_of_foldRange hfold]
        exact hfold
      exact List.ne_nil_of_mem hqr
  · right
    rw [remaining_eq]
    exact List.ne_nil_of_mem (List.mem_filter.2 ⟨hc, by simp [hop]⟩)

theorem exists_matches (order : MapOrder) (hne : conditions ≠ [])
    {ofRange : QueryRange → Result Error (List Bytes)}
    {ofCondition : Condition → Result Error (List Bytes)}
    (hranges : ∀ qr ∈ order.ranges (lookForRanges conditions).1, Returns List.isEmpty (ofRange qr))
    (hremaining : ∀ c ∈ remaining conditions, Returns List.isEmpty (ofCondition c)) :
    ∃ ranged matched, loop ((order.ranges (lookForRanges conditions).1).map fun qr =>
        narrow List.isEmpty (ofRange qr)) ⟨false, []⟩ = .ok ranged ∧
      loop ((remaining conditions).map fun c =>
        narrow List.isEmpty (ofCondition c)) ranged = .ok matched ∧
      matched.filtered.Nodup ∧ ∀ k, k ∈ matched.filtered ↔
        (∀ key qr, (lookForRanges conditions).1.lookup key = some qr →
          MatchedAlone (narrow List.isEmpty (ofRange qr)) k) ∧
        ∀ c ∈ conditions, isRangeOperation c.op = false →
          MatchedAlone (narrow List.isEmpty (ofCondition c)) k := by
  obtain ⟨ranged, matched, hranged, hmatched, hnarrowed⟩ :=
    exists_loops (List.forall_mem_map.2 hranges) (List.forall_mem_map.2 hremaining)
  rw [List.map_map] at hranged hmatched
  refine ⟨ranged, matched, hranged, hmatched, hnarrowed.nodup, fun k => ?_⟩
  have hsome : (order.ranges (lookForRanges conditions).1).map ofRange ++
      (remaining conditions).map ofCondition ≠ [] := by
    rw [Ne, List.append_eq_nil_iff, List.map_eq_nil_iff, List.map_eq_nil_iff]
    have := ranges_or_remaining order hne
    tauto
  rw [hnarrowed.mem_iff hsome, common_append, common_map_iff, common_map_iff,
    forall_ranges_iff, forall_remaining_iff]

end Dymint.Search

/-! ## The transaction index -/

namespace Dymint.TxIndex

open Procedure Dymint.Types Decimal KV Query Narrow
open Search

variable {codec : Codec}

theorem noNil_run (hcodec : codec.NonEmpty) (outer : Bytes) (calls : List Call) :
    NoNil (run codec outer calls) := by
  intro key value hget
  obtain ⟨result, _, rfl | hmarshal⟩ := value_of_get_run hget
  · exact hcodec.hash result.tx
  · exact hcodec.marshal result value hmarshal

/-- The conditions `tx.height =` have integers as operands. -/
def IntHeights (conditions : List Condition) : Prop :=
  ∀ c ∈ conditions, c.compositeKey = txHeightKey → c.op = .opEqual →
    ∃ t, c.operand = some (.int64 t)

variable {conditions : List Condition}

theorem lookForHeight_eq : lookForHeight conditions =
    (conditions.find? fun c => decide (c.compositeKey = txHeightKey ∧ c.op = .opEqual)).elim
      (.ok 0) fun c => match c.operand with
        | some (.int64 height) => .ok height
        | _ => .panic :=
  lookFor_eq fun _ _ => rfl

theorem lookForHash_eq : lookForHash codec conditions =
    (conditions.find? fun c => decide (c.compositeKey = txHashKey)).elim
      (.ok none) fun c => match c.operand with
        | some (.string text) =>
          Result.ofExcept (codec.decodeHex text) >>= fun decoded => .ok (some decoded)
        | _ => .panic :=
  lookFor_eq fun _ _ => rfl

theorem exists_lookForHeight (hheights : IntHeights conditions) :
    ∃ height, lookForHeight conditions = .ok height := by
  rw [lookForHeight_eq]
  cases hfind : conditions.find? _ with
  | none => exact ⟨0, rfl⟩
  | some c =>
    have hc : c.compositeKey = txHeightKey ∧ c.op = .opEqual := by
      simpa using List.find?_some hfind
    obtain ⟨t, hoperand⟩ := hheights c (List.mem_of_find?_eq_some hfind) hc.1 hc.2
    rw [Option.elim_some, hoperand]
    exact ⟨t, rfl⟩

theorem lookForHash_eq_none (hhash : ∀ c ∈ conditions, c.compositeKey ≠ txHashKey) :
    lookForHash codec conditions = .ok none := by
  rw [lookForHash_eq, List.find?_eq_none.2 (by simpa using hhash)]
  rfl

theorem exists_keepsInRange (qr : QueryRange) {lower upper : Option Operand}
    (hincludes : ∀ v, ∃ kept, includes lower upper v = .ok kept) (key : Bytes) :
    ∃ kept, keepsInRange qr lower upper key = .ok kept := by
  rw [keepsInRange]
  split
  case isTrue hkey =>
    obtain ⟨text, htext⟩ := exists_extractValueFromKey hkey
    split
    · rw [htext, Result.ok_bind]
      split
      · exact ⟨false, rfl⟩
      · exact hincludes _
    · exact ⟨false, rfl⟩
  case isFalse => exact ⟨false, rfl⟩

theorem exists_keepsContaining (part key : Bytes) :
    ∃ kept, keepsContaining (some (.string part)) key = .ok kept := by
  rw [keepsContaining]
  split
  case isTrue hkey =>
    obtain ⟨text, htext⟩ := exists_extractValueFromKey hkey
    rw [htext, Result.ok_bind]
    exact ⟨_, rfl⟩
  case isFalse => exact ⟨false, rfl⟩

section

variable {store : KVStore}

theorem scans_rangeHashes (order : MapOrder) (hint : IntRanges conditions) {qr : QueryRange}
    (hqr : qr ∈ order.ranges (lookForRanges conditions).1) (start : Bytes) :
    Scans store (rangeHashes store qr start) := by
  obtain ⟨lower, upper, hlower, hupper, hincludes⟩ := order.exists_bounds hint hqr
  rw [rangeHashes, hlower, hupper, Result.ok_bind, Result.ok_bind]
  exact ⟨_, start, exists_keepsInRange qr hincludes, rfl⟩

theorem scans_conditionHashes {c : Condition} (hparsed : c.op.Takes c.operand)
    (hop : isRangeOperation c.op = false) (start : Bytes) :
    Scans store (conditionHashes store c start) := by
  rw [conditionHashes]
  cases hc : c.op with
  | opEqual | opExists => exact ⟨_, _, fun _ => ⟨true, rfl⟩, rfl⟩
  | opContains =>
    rw [hc] at hparsed
    obtain ⟨part, hoperand⟩ := hparsed
    rw [hoperand]
    exact ⟨_, _, exists_keepsContaining part, rfl⟩
  | opLess | opLessEqual | opGreater | opGreaterEqual =>
    rw [hc] at hop
    cases hop

end

def CollectsCommonMatches (codec : Codec) (store : KVStore) (order : MapOrder)
    (conditions : List Condition) (height : Int64) : Prop :=
  ∃ hashes, filteredHashes store order conditions = .ok hashes ∧ hashes.Nodup ∧
    search codec store order conditions = fetch codec store (order.keys hashes) ∧
    ∀ hash, hash ∈ hashes ↔ (∀ key qr, (lookForRanges conditions).1.lookup key = some qr →
        MatchedAlone (matchRange store qr (startKey [qr.key])) hash) ∧
      ∀ c ∈ conditions, isRangeOperation c.op = false →
        MatchedAlone (matchCondition store c (startKeyForCondition c height)) hash

/-- What the loops of a search collect. -/
theorem exists_filteredHashes {store : KVStore} (hstore : NoNil store) (hne : conditions ≠ [])
    (hparsed : Parsed conditions) (hint : IntRanges conditions) {height : Int64}
    (hheight : lookForHeight conditions = .ok height) (order : MapOrder) :
    ∃ hashes, filteredHashes store order conditions = .ok hashes ∧ hashes.Nodup ∧
      ∀ hash, hash ∈ hashes ↔ (∀ key qr, (lookForRanges conditions).1.lookup key = some qr →
          MatchedAlone (matchRange store qr (startKey [qr.key])) hash) ∧
        ∀ c ∈ conditions, isRangeOperation c.op = false →
          MatchedAlone (matchCondition store c (startKeyForCondition c height)) hash := by
  obtain ⟨ranged, matched, hranged, hmatched, hnodup, hmem⟩ := exists_matches order hne
    (fun qr hqr => (scans_rangeHashes order hint hqr (startKey [qr.key])).returns hstore)
    (forall_remaining_iff.2 fun c hc hop =>
      (scans_conditionHashes (hparsed c hc) hop (startKeyForCondition c height)).returns hstore)
  refine ⟨matched.filtered, ?_, hnodup, hmem⟩
  rw [filteredHashes, Result.bind_eq_ok]
  refine ⟨ranged, hranged, ?_⟩
  rw [hheight, Result.ok_bind, Result.bind_eq_ok]
  exact ⟨matched, hmatched, rfl⟩

theorem search_eq {store : KVStore} {order : MapOrder}
    (hhash : ∀ c ∈ conditions, c.compositeKey ≠ txHashKey) {hashes : List Bytes}
    (hhashes : filteredHashes store order conditions = .ok hashes) :
    search codec store order conditions = fetch codec store (order.keys hashes) := by
  rw [search, lookForHash_eq_none hhash]
  change (filteredHashes store order conditions >>= _) = _
  rw [hhashes, Result.ok_bind]

end Dymint.TxIndex

/-! ## The block index -/

namespace Dymint.BlockIndex

open Procedure Dymint.Types Decimal KV Query Narrow
open Search

theorem int64ToBytes_ne_nil (height : Int64) : int64ToBytes height ≠ [] := by
  have hput (x : ℕ) : putUvarint 10 x ≠ [] := by
    rw [putUvarint]
    split <;> simp
  exact hput _

theorem noNil_run (code : OrderedCode) (outer : Bytes) (calls : List NewBlockHeader) :
    NoNil (run code outer calls) := by
  intro key value hget
  obtain ⟨height, rfl⟩ := value_of_get_run hget
  exact int64ToBytes_ne_nil height

variable {conditions : List Condition}

theorem lookForHeight_eq : lookForHeight conditions =
    (conditions.find? fun c => decide (c.compositeKey = blockHeightKey ∧ c.op = .opEqual)).elim
      (.ok none) fun c => match c.operand with
        | some (.int64 height) => .ok (some height)
        | _ => .panic :=
  lookFor_eq fun _ _ => rfl

theorem lookForHeight_eq_none
    (hheight : ∀ c ∈ conditions, c.compositeKey = blockHeightKey → c.op ≠ .opEqual) :
    lookForHeight conditions = .ok none := by
  rw [lookForHeight_eq, List.find?_eq_none.2 (by simpa using hheight)]
  rfl

def CollectsCommonMatches (code : OrderedCode) (store : KVStore) (order : MapOrder)
    (conditions : List Condition) : Prop :=
  ∃ heights, filteredHeights code store order conditions = .ok heights ∧ heights.Nodup ∧
    search code store order conditions = .ok (fetch code store (order.keys heights)) ∧
    ∀ height, height ∈ heights ↔ (∀ key qr, (lookForRanges conditions).1.lookup key = some qr →
        MatchedAlone (matchRange code store qr (code.appendString qr.key)) height) ∧
      ∀ c ∈ conditions, isRangeOperation c.op = false →
        MatchedAlone (matchCondition code store c (startKeyForCondition code c)) height

section

variable (code : OrderedCode)

theorem exists_keepsInRange (qr : QueryRange) {lower upper : Option Operand}
    (hincludes : ∀ v, ∃ kept, includes lower upper v = .ok kept) (key : Bytes) :
    ∃ kept, keepsInRange code qr lower upper key = .ok kept := by
  simp only [keepsInRange]
  split
  · exact ⟨false, rfl⟩
  · split
    · split
      · exact ⟨false, rfl⟩
      · exact hincludes _
    · exact ⟨false, rfl⟩

theorem exists_keepsContaining (part key : Bytes) :
    ∃ kept, keepsContaining code (some (.string part)) key = .ok kept := by
  rw [keepsContaining]
  split
  · exact ⟨false, rfl⟩
  · exact ⟨_, rfl⟩

variable {store : KVStore}

theorem scans_rangeHeights (order : MapOrder) (hint : IntRanges conditions) {qr : QueryRange}
    (hqr : qr ∈ order.ranges (lookForRanges conditions).1) (start : Bytes) :
    Scans store (rangeHeights code store qr start) := by
  obtain ⟨lower, upper, hlower, hupper, hincludes⟩ := order.exists_bounds hint hqr
  rw [rangeHeights, hlower, hupper, Result.ok_bind, Result.ok_bind]
  exact ⟨_, start, exists_keepsInRange code qr hincludes, rfl⟩

theorem scans_conditionHeights {c : Condition} (hparsed : c.op.Takes c.operand)
    (hop : isRangeOperation c.op = false) (start : Bytes) :
    Scans store (conditionHeights code store c start) := by
  rw [conditionHeights]
  cases hc : c.op with
  | opEqual | opExists => exact ⟨_, _, fun _ => ⟨true, rfl⟩, rfl⟩
  | opContains =>
    rw [hc] at hparsed
    obtain ⟨part, hoperand⟩ := hparsed
    rw [hoperand]
    exact ⟨_, _, exists_keepsContaining code part, rfl⟩
  | opLess | opLessEqual | opGreater | opGreaterEqual =>
    rw [hc] at hop
    cases hop

/-- What the loops of a search collect. -/
theorem exists_filteredHeights (hstore : NoNil store) (hne : conditions ≠ []) (hparsed : Parsed conditions)
    (hint : IntRanges conditions) (order : MapOrder) :
    ∃ heights, filteredHeights code store order conditions = .ok heights ∧ heights.Nodup ∧
      ∀ height, height ∈ heights ↔ (∀ key qr, (lookForRanges conditions).1.lookup key = some qr →
          MatchedAlone (matchRange code store qr (code.appendString qr.key)) height) ∧
        ∀ c ∈ conditions, isRangeOperation c.op = false →
          MatchedAlone (matchCondition code store c (startKeyForCondition code c))
            height := by
  obtain ⟨ranged, matched, hranged, hmatched, hnodup, hmem⟩ := exists_matches order hne
    (fun qr hqr => (scans_rangeHeights code order hint hqr (code.appendString qr.key)).returns hstore)
    (forall_remaining_iff.2 fun c hc hop =>
      (scans_conditionHeights code (hparsed c hc) hop (startKeyForCondition code c)).returns hstore)
  refine ⟨matched.filtered, ?_, hnodup, hmem⟩
  rw [filteredHeights, Result.bind_eq_ok]
  refine ⟨ranged, hranged, ?_⟩
  rw [Result.bind_eq_ok]
  exact ⟨matched, hmatched, rfl⟩

end

theorem search_eq {code : OrderedCode} {store : KVStore} {order : MapOrder}
    (hheight : ∀ c ∈ conditions, c.compositeKey = blockHeightKey → c.op ≠ .opEqual)
    {heights : List Bytes} (hheights : filteredHeights code store order conditions = .ok heights) :
    search code store order conditions = .ok (fetch code store (order.keys heights)) := by
  rw [search, lookForHeight_eq_none hheight, Result.ok_bind]
  change (filteredHeights code store order conditions >>= _) = _
  rw [hheights, Result.ok_bind]
  rfl

end Dymint.BlockIndex

/-! ## Both indexes -/

namespace Dymint.Search

open Procedure Dymint.Types Decimal KV Query Narrow

/-- For every content that indexing produces, both searches collect what all ranges and all
other conditions match on their own, in any order of the map of ranges. -/
theorem search_collects_common_matches (codec : TxIndex.Codec) (code : BlockIndex.OrderedCode)
    (hcodec : codec.NonEmpty) (outer : Bytes) (conditions : List Condition) (hne : conditions ≠ [])
    (hparsed : Parsed conditions) (hint : IntRanges conditions) :
    (TxIndex.IntHeights conditions → (∀ c ∈ conditions, c.compositeKey ≠ TxIndex.txHashKey) →
      ∀ calls : List TxIndex.Call, ∃ height, TxIndex.lookForHeight conditions = .ok height ∧
        ∀ order : MapOrder, TxIndex.CollectsCommonMatches codec
          (TxIndex.run codec outer calls) order conditions height) ∧
    ((∀ c ∈ conditions, c.compositeKey = BlockIndex.blockHeightKey → c.op ≠ .opEqual) →
      ∀ (calls : List BlockIndex.NewBlockHeader) (order : MapOrder),
        BlockIndex.CollectsCommonMatches code (BlockIndex.run code outer calls) order
          conditions) := by
  constructor
  · intro hheights hhash calls
    obtain ⟨height, hheight⟩ := TxIndex.exists_lookForHeight hheights
    refine ⟨height, hheight, fun order => ?_⟩
    obtain ⟨hashes, hhashes, hnodup, hmem⟩ := TxIndex.exists_filteredHashes
      (TxIndex.noNil_run hcodec outer calls) hne hparsed hint hheight order
    exact ⟨hashes, hhashes, hnodup, TxIndex.search_eq hhash hhashes, hmem⟩
  · intro hheight calls order
    obtain ⟨heights, hheights, hnodup, hmem⟩ := BlockIndex.exists_filteredHeights code
      (BlockIndex.noNil_run code outer calls) hne hparsed hint order
    exact ⟨heights, hheights, hnodup, BlockIndex.search_eq hheight hheights, hmem⟩

/-- `a.b = 'x' AND tx.height > 3`. -/
def referenceQuery : List Condition := [⟨utf8 "a.b", .opEqual, some (.string (utf8 "x"))⟩,
    ⟨TxIndex.txHeightKey, .opGreater, some (.int64 3)⟩]

def referenceEvents : List TxIndex.Event := [⟨utf8 "a", [⟨utf8 "b", utf8 "x", true⟩]⟩]

def referenceResult : TxIndex.TxResult := ⟨4, 0, [7], ⟨0, [], "", 0, 0⟩, referenceEvents⟩

/-- A transaction and a block of height 4 with an event. -/
theorem search_collects_common_matches_reference :
    (∀ order, TxIndex.CollectsCommonMatches (.ofResults [referenceResult])
        (TxIndex.run (.ofResults [referenceResult]) [1] [.index referenceResult]) order
        referenceQuery 0) ∧
      ∀ order, BlockIndex.CollectsCommonMatches .reference
        (BlockIndex.run .reference [1] [⟨4, referenceEvents, []⟩]) order referenceQuery := by
  have hparsed : Parsed referenceQuery := by
    simp [Parsed, referenceQuery, Operator.Takes]
  have hint : IntRanges referenceQuery := by
    simp [IntRanges, referenceQuery, isRangeOperation]
  obtain ⟨htx, hblock⟩ := search_collects_common_matches (.ofResults [referenceResult])
    .reference (TxIndex.Codec.nonEmpty_ofResults _) [1] referenceQuery (List.cons_ne_nil _ _)
    hparsed hint
  have hhash : ∀ c ∈ referenceQuery, c.compositeKey ≠ TxIndex.txHashKey := by decide
  have hkey : utf8 "a.b" ≠ TxIndex.txHeightKey := by decide
  have hheights : TxIndex.IntHeights referenceQuery := by
    simp [TxIndex.IntHeights, referenceQuery, hkey]
  obtain ⟨height, hheight, hcollects⟩ := htx hheights hhash [.index referenceResult]
  obtain rfl : 0 = height := Result.ok.inj hheight
  exact ⟨hcollects, hblock (by decide) _⟩

end Dymint.Search
