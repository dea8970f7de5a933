import Dymint.State.Matching

/-!
# Exact searches for blocks

The parts of a key of the block index can be told apart, so a scan for a composite key, or
for a composite key and a value, finds the entries of exactly these.  Keys that an iterator
returns still begin with the prefixes of the stores around; they only make the composite
key longer, which the searches do not look at.
-/

namespace Dymint.BlockIndex

open Procedure Dymint.Types Decimal KV Query Narrow
open Search
open TxIndex (indexedAttributes)

/-! ## Encoded heights -/

/-- `Uvarint` reads what `PutUvarint` has written into the bytes from number `i` on. -/
theorem uvarint_putUvarint {fuel i x : ℕ} (hbytes : i + (fuel + 1) = 10) (hx : x < 2 * 128 ^ fuel) :
    uvarint (putUvarint (fuel + 1) x) i = some x := by
  induction fuel generalizing i x with
  | zero =>
    have hsmall : ¬ x ≥ 128 := by omega
    have hbyte : (UInt8.ofNat x).toNat = x := by
      rw [UInt8.toNat_ofNat']
      omega
    rw [putUvarint, if_neg hsmall, uvarint, hbyte, if_neg (by omega), if_pos (by omega),
      if_neg (by omega)]
  | succ fuel ih =>
    rw [putUvarint]
    split
    case isTrue hlarge =>
      have hbyte : (UInt8.ofNat (x % 128 + 128)).toNat = x % 128 + 128 := by
        rw [UInt8.toNat_ofNat']
        omega
      have hrest : uvarint (putUvarint (fuel + 1) (x / 128)) (i + 1) = some (x / 128) := by
        apply ih (by omega)
        rw [pow_succ] at hx
        omega
      rw [uvarint, hbyte, if_neg (by omega), if_neg (by omega), hrest]
      simp only [Option.map_some, Option.some.injEq]
      omega
    case isFalse hsmall =>
      have hbyte : (UInt8.ofNat x).toNat = x := by
        rw [UInt8.toNat_ofNat']
        omega
      rw [uvarint, hbyte, if_neg (by omega), if_pos (by omega), if_neg (by omega)]

theorem int64FromBytes_int64ToBytes (height : Int64) :
    int64FromBytes (int64ToBytes height) = height := by
  have hlower := Int64.le_toInt height
  have hupper := Int64.toInt_lt height
  have hread {x : ℕ} (hx : x < 2 ^ 64) : int64FromBytes (putUvarint 10 x) =
      .ofInt (if x % 2 = 0 then x / 2 else -(x / 2 : ℤ) - 1) := by
    rw [int64FromBytes, uvarint_putUvarint rfl (by norm_num; omega)]
  rw [int64ToBytes]
  split
  case isTrue hneg =>
    rw [hread (by omega), if_neg (by omega)]
    convert Int64.ofInt_toInt height using 2
    omega
  case isFalse hnonneg =>
    rw [hread (by omega), if_pos (by omega)]
    convert Int64.ofInt_toInt height using 2
    omega

theorem int64ToBytes_injective : Function.Injective int64ToBytes :=
  Function.LeftInverse.injective int64FromBytes_int64ToBytes

/-! ## Keys -/

variable {key value typ key' : Bytes} {height : Int64} {outer : Bytes}

section

variable {code : OrderedCode} (hcode : code.Lawful)

include hcode

theorem appendString_append_inj {text text' rest rest' : Bytes}
    (heq : code.appendString text ++ rest = code.appendString text' ++ rest') :
    text = text' ∧ rest = rest' := by
  have hparse := congrArg code.parseString heq
  rw [hcode.parseString_append, hcode.parseString_append] at hparse
  exact Prod.mk.inj (Option.some.inj hparse)

theorem appendInt64_append_inj {value value' : Int64} {rest rest' : Bytes}
    (heq : code.appendInt64 value ++ rest = code.appendInt64 value' ++ rest') :
    value = value' ∧ rest = rest' := by
  have hparse := congrArg code.parseInt64 heq
  rw [hcode.parseInt64_append, hcode.parseInt64_append] at hparse
  exact Prod.mk.inj (Option.some.inj hparse)

theorem height_of_eventKey_eq {typ' value' : Bytes} {height' : Int64}
    (heq : eventKey code key typ value height = eventKey code key' typ' value' height') :
    height = height' := by
  obtain ⟨_, hvalue⟩ := appendString_append_inj hcode heq
  obtain ⟨_, hheight⟩ := appendString_append_inj hcode hvalue
  exact (appendInt64_append_inj hcode hheight).1

theorem appendString_prefix_eventKey_iff :
    code.appendString key' <+: eventKey code key typ value height ↔ key' = key := by
  constructor
  · rintro ⟨rest, hrest⟩
    exact (appendString_append_inj hcode hrest).1
  · rintro rfl
    exact List.prefix_append _ _

theorem append_prefix_eventKey_iff {value' : Bytes} :
    code.appendString key' ++ code.appendString value' <+: eventKey code key typ value height ↔
      key' = key ∧ value' = value := by
  constructor
  · rintro ⟨rest, hrest⟩
    rw [List.append_assoc] at hrest
    obtain ⟨hkey, hvalue⟩ := appendString_append_inj hcode hrest
    exact ⟨hkey, (appendString_append_inj hcode hvalue).1⟩
  · rintro ⟨rfl, rfl⟩
    rw [eventKey, ← List.append_assoc]
    exact List.prefix_append _ _

/-- Only the keys of heights have the composite key `block.height`. -/
theorem not_prefix_heightKey (hkey : key ≠ blockHeightKey) (rest : Bytes) (height : Int64) :
    ¬ code.appendString key ++ rest <+: heightKey code height := by
  rintro ⟨last, hlast⟩
  rw [List.append_assoc] at hlast
  exact hkey (appendString_append_inj hcode hlast).1

/-- The prefixes of the stores around are read as a part of the composite key. -/
theorem appendString_outer (houter : ∀ byte ∈ outer, byte ≠ 0 ∧ byte ≠ 255) (text : Bytes) :
    outer ++ code.appendString text = code.appendString (outer ++ text) := by
  induction outer with
  | nil => rfl
  | cons byte outer ih =>
    rw [List.forall_mem_cons] at houter
    rw [List.cons_append, List.cons_append, ih houter.2,
      hcode.appendString_cons byte _ houter.1.1 houter.1.2]

theorem parseValueFromEventKey_outer (houter : ∀ byte ∈ outer, byte ≠ 0 ∧ byte ≠ 255)
    (key typ value : Bytes) (height : Int64) :
    parseValueFromEventKey code (outer ++ eventKey code key typ value height) = some value := by
  have hlast : code.parseString (code.appendString typ) = some (typ, []) := by
    simpa using hcode.parseString_append typ []
  rw [eventKey, ← List.append_assoc, appendString_outer hcode houter]
  simp [parseValueFromEventKey, hcode.parseString_append, hcode.parseInt64_append, hlast]

end

/-! ## What a scan finds -/

variable {bh : NewBlockHeader}

theorem exists_mem_attributes_iff {attr : Bytes × Bytes} : (∃ typ, (typ, attr) ∈ attributes bh) ↔
      attr ∈ indexedAttributes (bh.beginBlock ++ bh.endBlock) := by
  have happend : indexedAttributes (bh.beginBlock ++ bh.endBlock) =
      indexedAttributes bh.beginBlock ++ indexedAttributes bh.endBlock :=
    List.flatMap_append
  simp [attributes, happend, exists_or]

section

variable {code : OrderedCode} (hcode : code.Lawful) {outer : Bytes}
  {calls : List NewBlockHeader} (hcalls : ∀ bh ∈ calls, ∃ batch, writes code bh = .ok batch)

include hcalls

theorem mem_flatMap_writesOf (hbh : bh ∈ calls) {write : Write}
    (hwrite : write = ⟨heightKey code bh.height, int64ToBytes bh.height⟩ ∨ ∃ typ attr, (typ, attr) ∈
      attributes bh ∧ write = eventWrite code typ bh.height attr) :
    write ∈ calls.flatMap (writesOf code) := by
  obtain ⟨batch, hbatch⟩ := hcalls bh hbh
  refine List.mem_flatMap.2 ⟨bh, hbh, ?_⟩
  rw [writesOf, hbatch]
  change write ∈ batch
  rw [writes_eq_ok hbatch, List.mem_cons, List.mem_map]
  rcases hwrite with hheight | ⟨typ, attr, hattr, hwrite⟩
  · exact .inl hheight
  · exact .inr ⟨(typ, attr), hattr, hwrite.symm⟩

theorem has_run (hbh : bh ∈ calls) : has code (run code outer calls) bh.height = true := by
  obtain ⟨other, _, _, hget⟩ := (KVStore.empty outer).exists_get_commit
    (mem_flatMap_writesOf hcalls hbh (.inl rfl))
  rw [has, run_eq, hget]
  rfl

include hcode

theorem mem_iterator_run {start : Bytes} (hstart : ∀ height, ¬ start <+: heightKey code height) :
    (key, value) ∈ (run code outer calls).prefixIterator start ↔
      ∃ bh ∈ calls, ∃ typ attr, (typ, attr) ∈ attributes bh ∧
        start <+: eventKey code attr.1 typ attr.2 bh.height ∧
        key = outer ++ eventKey code attr.1 typ attr.2 bh.height ∧
        value = int64ToBytes bh.height := by
  rw [KVStore.mem_prefixIterator, outer_run]
  constructor
  · rintro ⟨rest, rfl, hget⟩
    rw [run_eq] at hget
    rcases KVStore.of_get_commit _ hget with hwrite | hempty
    · obtain ⟨bh, hbh, hwrite⟩ := List.mem_flatMap.1 hwrite
      rcases mem_writesOf hwrite with heq | ⟨typ, attr, hattr, heq⟩
      · have hkey : start ++ rest = heightKey code bh.height := congrArg Write.key heq
        exact absurd ⟨rest, hkey⟩ (hstart bh.height)
      · have hkey : start ++ rest = eventKey code attr.1 typ attr.2 bh.height :=
          congrArg Write.key heq
        refine ⟨bh, hbh, typ, attr, hattr, ⟨rest, hkey⟩, ?_, congrArg Write.value heq⟩
        rw [hkey]
    · cases hempty
  · rintro ⟨bh, hbh, typ, attr, hattr, ⟨rest, hrest⟩, rfl, rfl⟩
    refine ⟨rest, by rw [hrest], ?_⟩
    obtain ⟨other, hother, hsame, hget⟩ := (KVStore.empty outer).exists_get_commit
      (mem_flatMap_writesOf hcalls hbh (.inr ⟨typ, attr, hattr, rfl⟩))
    have hkey : other.key = start ++ rest := hsame.trans hrest.symm
    rw [run_eq, hrest]
    refine hget.trans (congrArg some ?_)
    -- the last write to the key is for the same height
    obtain ⟨bh', _, hwrite⟩ := List.mem_flatMap.1 hother
    rcases mem_writesOf hwrite with rfl | ⟨typ', attr', _, rfl⟩
    · exact absurd ⟨rest, hkey.symm⟩ (hstart bh'.height)
    · exact congrArg int64ToBytes (height_of_eventKey_eq hcode hsame)

theorem exists_mem_collect_run_iff {start : Bytes} {keep : Bytes → Result Error Bool}
    {p : Bytes × Bytes → Prop} (hstart : ∀ height, ¬ start <+: heightKey code height)
    (hkeep : ∀ key, ∃ kept, keep key = .ok kept)
    (hiff : ∀ typ attr height, start <+: eventKey code attr.1 typ attr.2 height ∧ keep (outer ++
      eventKey code attr.1 typ attr.2 height) = .ok true ↔ p attr) {hBz : Bytes} :
    (∃ found, collect keep ((run code outer calls).prefixIterator start) [] = .ok found ∧
      hBz ∈ found) ↔
      ∃ bh ∈ calls, hBz = int64ToBytes bh.height ∧
        ∃ attr ∈ indexedAttributes (bh.beginBlock ++ bh.endBlock), p attr := by
  rw [exists_mem_collect_iff fun key _ _ => hkeep key]
  constructor
  · rintro ⟨key, hentry, hkept⟩
    obtain ⟨bh, hbh, typ, attr, hattr, hbegins, rfl, rfl⟩ :=
      (mem_iterator_run hcode hcalls hstart).1 hentry
    exact ⟨bh, hbh, rfl, attr, exists_mem_attributes_iff.1 ⟨typ, hattr⟩,
      (hiff _ _ _).1 ⟨hbegins, hkept⟩⟩
  · rintro ⟨bh, hbh, rfl, attr, hattr, hp⟩
    obtain ⟨typ, hattr⟩ := exists_mem_attributes_iff.2 hattr
    obtain ⟨hbegins, hkept⟩ := (hiff typ attr bh.height).2 hp
    exact ⟨_, (mem_iterator_run hcode hcalls hstart).2
      ⟨bh, hbh, typ, attr, hattr, hbegins, rfl, rfl⟩, hkept⟩

end

def SatisfiedBy (c : Condition) (value : Bytes) : Prop :=
  match c.op with
  | .opEqual => value = sprint c.operand
  | .opContains => ∃ part, c.operand = some (.string part) ∧ part <:+: value
  | _ => True

def MatchedAt (calls : List NewBlockHeader) (c : Condition) (height : Int64) : Prop :=
  ∃ bh ∈ calls, bh.height = height ∧ ∃ attr ∈ indexedAttributes (bh.beginBlock ++ bh.endBlock),
      attr.1 = c.compositeKey ∧ SatisfiedBy c attr.2

section

variable {code : OrderedCode} (hcode : code.Lawful) {outer : Bytes}
  (houter : ∀ byte ∈ outer, byte ≠ 0 ∧ byte ≠ 255)
  {calls : List NewBlockHeader} (hcalls : ∀ bh ∈ calls, ∃ batch, writes code bh = .ok batch)

include hcode houter hcalls

theorem exists_mem_conditionHeights_iff {c : Condition} (hparsed : c.op.Takes c.operand)
    (hop : isRangeOperation c.op = false) (hkey : c.compositeKey ≠ blockHeightKey) {hBz : Bytes} :
    (∃ found, conditionHeights code (run code outer calls) c (startKeyForCondition code c) =
      .ok found ∧ hBz ∈ found) ↔
      ∃ height, hBz = int64ToBytes height ∧ MatchedAt calls c height := by
  have hshape : (∃ height, hBz = int64ToBytes height ∧ MatchedAt calls c height) ↔
      ∃ bh ∈ calls, hBz = int64ToBytes bh.height ∧
        ∃ attr ∈ indexedAttributes (bh.beginBlock ++ bh.endBlock),
          attr.1 = c.compositeKey ∧ SatisfiedBy c attr.2 := by
    constructor
    · rintro ⟨_, hbytes, bh, hbh, rfl, hattr⟩
      exact ⟨bh, hbh, hbytes, hattr⟩
    · rintro ⟨bh, hbh, hbytes, hattr⟩
      exact ⟨bh.height, hbytes, bh, hbh, rfl, hattr⟩
  have hstart (height : Int64) : ¬ code.appendString c.compositeKey <+: heightKey code height := by
    simpa using not_prefix_heightKey hcode hkey [] height
  have htrue (key : Bytes) : ∃ kept, (.ok true : Result Error Bool) = .ok kept := ⟨true, rfl⟩
  rw [hshape, conditionHeights]
  cases hc : c.op with
  | opEqual =>
    refine exists_mem_collect_run_iff hcode hcalls
      (not_prefix_heightKey hcode hkey _) htrue fun typ attr height => ?_
    rw [append_prefix_eventKey_iff hcode]
    simp [SatisfiedBy, hc, eq_comm]
  | opExists =>
    refine exists_mem_collect_run_iff hcode hcalls hstart htrue fun typ attr height => ?_
    rw [appendString_prefix_eventKey_iff hcode]
    simp [SatisfiedBy, hc, eq_comm]
  | opContains =>
    rw [hc] at hparsed
    obtain ⟨part, hoperand⟩ := hparsed
    rw [hoperand]
    refine exists_mem_collect_run_iff hcode hcalls hstart (exists_keepsContaining code part)
      fun typ attr height => ?_
    rw [appendString_prefix_eventKey_iff hcode, keepsContaining,
      parseValueFromEventKey_outer hcode houter]
    simp [SatisfiedBy, hc, hoperand, eq_comm]
  | opLess | opLessEqual | opGreater | opGreaterEqual =>
    rw [hc] at hop
    cases hop

end

/-! ## Exactness -/

theorem fetch_spec {code : OrderedCode} {store : KVStore} {heights : List Bytes}
    (hnodup : heights.Nodup) (hencoded : ∀ hBz ∈ heights, ∃ height, hBz = int64ToBytes height) :
    (fetch code store heights).Pairwise (· < ·) ∧ ∀ height, height ∈ fetch code store heights ↔
        int64ToBytes height ∈ heights ∧ has code store height = true := by
  have hsorted : (fetch code store heights).Pairwise fun left right => decide (left ≤ right) :=
    List.pairwise_mergeSort (fun a b c hab hbc => by
        simp only [decide_eq_true_eq] at *
        exact Int64.le_trans hab hbc)
      (fun a b => by simpa using Int64.le_total a b) _
  have hdistinct : (fetch code store heights).Nodup := by
    refine (List.mergeSort_perm _ _).nodup_iff.2 (List.Nodup.filter _ ?_)
    refine hnodup.map_on fun left hleft right hright heq => ?_
    obtain ⟨height, rfl⟩ := hencoded left hleft
    obtain ⟨height', rfl⟩ := hencoded right hright
    rw [int64FromBytes_int64ToBytes, int64FromBytes_int64ToBytes] at heq
    rw [heq]
  refine ⟨(hsorted.and hdistinct).imp fun h =>
    Int64.lt_of_le_of_ne (of_decide_eq_true h.1) h.2, fun height => ?_⟩
  rw [fetch, List.mem_mergeSort, List.mem_filter, List.mem_map]
  refine and_congr_left fun _ => ⟨?_, fun hmem => ?_⟩
  · rintro ⟨hBz, hmem, rfl⟩
    obtain ⟨height, rfl⟩ := hencoded hBz hmem
    rwa [int64FromBytes_int64ToBytes]
  · exact ⟨_, hmem, int64FromBytes_int64ToBytes height⟩

theorem foldlM_index_eq_ok {code : OrderedCode} {calls : List NewBlockHeader} {store : KVStore}
    (hrun : calls.foldlM (index code) (.empty outer) = .ok store) :
    store = run code outer calls ∧ ∀ bh ∈ calls, ∃ batch, writes code bh = .ok batch := by
  rw [run]
  generalize KVStore.empty outer = start at hrun
  induction calls generalizing start with
  | nil => exact ⟨(Except.ok.inj hrun).symm, by simp⟩
  | cons bh calls ih =>
    rw [List.foldlM_cons, except_bind_eq_ok] at hrun
    obtain ⟨next, hindex, hrun⟩ := hrun
    obtain ⟨batch, hwrites, _⟩ := except_bind_eq_ok.1 hindex
    obtain ⟨hstore, hcalls⟩ := ih next hrun
    refine ⟨?_, List.forall_mem_cons.2 ⟨⟨batch, hwrites⟩, hcalls⟩⟩
    rw [List.foldl_cons, after, hindex]
    exact hstore

/-- After calls that succeed, a search with conditions `=`, `EXISTS` and `CONTAINS` on other
keys than the height returns exactly the heights at which all conditions are met, in
increasing order, also in a store that is nested in others. -/
theorem block_search_exact (code : OrderedCode) (hcode : code.Lawful) (outer : Bytes)
    (houter : ∀ byte ∈ outer, byte ≠ 0 ∧ byte ≠ 255) (calls : List NewBlockHeader) (store : KVStore)
    (hrun : calls.foldlM (index code) (.empty outer) = .ok store) (conditions : List Condition)
    (hne : conditions ≠ []) (hparsed : Parsed conditions)
    (hconditions : ∀ c ∈ conditions, isRangeOperation c.op = false ∧ c.compositeKey ≠
      blockHeightKey) (order : MapOrder) :
    ∃ heights, search code store order conditions = .ok heights ∧ heights.Pairwise (· < ·) ∧
      ∀ height, height ∈ heights ↔ ∀ c ∈ conditions, MatchedAt calls c height := by
  obtain ⟨rfl, hcalls⟩ := foldlM_index_eq_ok hrun
  have hop (c : Condition) (hc : c ∈ conditions) : isRangeOperation c.op = false :=
    (hconditions c hc).1
  obtain ⟨heights, hheights, hnodup, hmem⟩ := exists_filteredHeights code
    (noNil_run code outer calls) hne hparsed (intRanges_of_forall hop) order
  have hmatched (hBz : Bytes) : hBz ∈ heights ↔ ∀ c ∈ conditions, ∃ height,
      hBz = int64ToBytes height ∧ MatchedAt calls c height := by
    have halone (c : Condition) (hc : c ∈ conditions) :
        MatchedAlone (matchCondition code (run code outer calls) c
          (startKeyForCondition code c)) hBz ↔
            ∃ height, hBz = int64ToBytes height ∧ MatchedAt calls c height := by
      rw [← exists_mem_conditionHeights_iff hcode houter hcalls (hparsed c hc) (hop c hc)
        (hconditions c hc).2, MatchedAlone, matchCondition, narrow_first]
    rw [hmem]
    constructor
    · exact fun h c hc => (halone c hc).1 (h.2 c hc (hop c hc))
    · refine fun h => ⟨fun key qr hqr => ?_, fun c hc _ => (halone c hc).2 (h c hc)⟩
      rw [lookup_lookForRanges_eq_none hop] at hqr
      cases hqr
  have hencoded : ∀ hBz ∈ order.keys heights, ∃ height, hBz = int64ToBytes height := by
    intro hBz hkeys
    obtain ⟨c, hc⟩ := List.exists_mem_of_ne_nil _ hne
    obtain ⟨height, hbytes, _⟩ := (hmatched hBz).1 ((order.keys_perm heights).mem_iff.1 hkeys) c hc
    exact ⟨height, hbytes⟩
  obtain ⟨hsorted, hfetch⟩ := fetch_spec ((order.keys_perm heights).nodup_iff.2 hnodup) hencoded
  refine ⟨_, search_eq (fun c hc hkey => absurd hkey (hconditions c hc).2) hheights, hsorted,
    fun height => ?_⟩
  rw [hfetch, (order.keys_perm heights).mem_iff, hmatched]
  constructor
  · rintro ⟨hall, _⟩ c hc
    obtain ⟨height', hbytes, hat⟩ := hall c hc
    rwa [int64ToBytes_injective hbytes]
  · intro hall
    refine ⟨fun c hc => ⟨height, rfl, hall c hc⟩, ?_⟩
    obtain ⟨c, hc⟩ := List.exists_mem_of_ne_nil _ hne
    obtain ⟨bh, hbh, rfl, _⟩ := hall c hc
    exact has_run hcalls hbh

/-- `a.b = 7 AND a.b CONTAINS '7' AND a.c EXISTS`. -/
def threeConditions : List Condition := [⟨utf8 "a.b", .opEqual, some (.int64 7)⟩,
    ⟨utf8 "a.b", .opContains, some (.string (utf8 "7"))⟩,
    ⟨utf8 "a.c", .opExists, none⟩]

def oneBlock : NewBlockHeader where
  height := 4
  beginBlock := [⟨utf8 "a", [⟨utf8 "b", utf8 "7", true⟩]⟩]
  endBlock := [⟨utf8 "a", [⟨utf8 "c", [], true⟩]⟩]

/-- The block is found below the prefixes that the node uses. -/
theorem block_search_exact_nested :
    ∃ heights, search .reference (run .reference (2 :: utf8 "block_events") [oneBlock])
        (.startingWith (.ofKey [])) threeConditions = .ok heights ∧
      heights.Pairwise (· < ·) ∧ 4 ∈ heights := by
  have hparsed : Parsed threeConditions := by
    simp [Parsed, threeConditions, Operator.Takes]
  have hrun : [oneBlock].foldlM (index .reference) (.empty (2 :: utf8 "block_events")) =
      .ok (run .reference (2 :: utf8 "block_events") [oneBlock]) := by
    rw [List.foldlM_cons]
    rfl
  have houter : ∀ byte ∈ 2 :: utf8 "block_events", byte ≠ 0 ∧ byte ≠ 255 := by
    decide +kernel
  obtain ⟨heights, hsearch, hsorted, hmem⟩ := block_search_exact .reference
    OrderedCode.lawful_reference (2 :: utf8 "block_events") houter [oneBlock] _ hrun
    threeConditions (List.cons_ne_nil _ _) hparsed (by decide) (.startingWith (.ofKey []))
  refine ⟨heights, hsearch, hsorted, (hmem 4).2 ?_⟩
  have hat {c : Condition} (key value : Bytes)
      (hattr : (key, value) ∈ indexedAttributes (oneBlock.beginBlock ++ oneBlock.endBlock))
      (hkey : key = c.compositeKey) (hvalue : SatisfiedBy c value) : MatchedAt [oneBlock] c 4 :=
    ⟨oneBlock, List.mem_singleton_self _, rfl, (key, value), hattr, hkey, hvalue⟩
  rw [threeConditions, List.forall_mem_cons, List.forall_mem_cons, List.forall_mem_singleton]
  refine ⟨hat (utf8 "a.b") (utf8 "7") (by decide) rfl rfl, ?_, ?_⟩
  · exact hat (utf8 "a.b") (utf8 "7") (by decide) rfl ⟨_, rfl, List.infix_refl _⟩
  · exact hat (utf8 "a.c") [] (by decide) rfl trivial

end Dymint.BlockIndex
