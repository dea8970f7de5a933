import Dymint.State.Matching

/-!
# Exact searches for transactions

An entry of the transaction index is a text that ends in the height and the index of a
result, and it leads to the hash of a transaction, under which the last result with that
transaction is stored.  A search for a value takes every entry whose text starts with the
key and the value, so what it finds depends on how the texts can be read, and on which
results have overwritten the entries of others.
-/

namespace Dymint.TxIndex

open Procedure Dymint.Types Decimal KV Query Narrow
open Search

/-! ## What is stored for a history -/

structure Codec.LawfulOn (codec : Codec) (results : List TxResult) : Prop where
  nonEmpty : codec.NonEmpty
  unmarshal : ∀ result rawBytes, codec.marshal result = .ok rawBytes →
    codec.unmarshal rawBytes = .ok result
  hash_injective : ∀ result ∈ results, ∀ other ∈ results,
    codec.hash result.tx = codec.hash other.tx → result.tx = other.tx
  hash_not_text : ∀ result ∈ results, ∀ other ∈ results, codec.hash result.tx ∉ entryTexts other
  rawBytes_not_hash : ∀ result ∈ results, ∀ other ∈ results, ∀ rawBytes,
    codec.marshal result = .ok rawBytes → rawBytes ≠ codec.hash other.tx
  rawBytes_not_text : ∀ result ∈ results, ∀ other ∈ results, ∀ rawBytes,
    codec.marshal result = .ok rawBytes → rawBytes ∉ entryTexts other

variable {result : TxResult}

section

variable {codec : Codec} {calls : List Call}
  (hcodec : codec.LawfulOn (history codec calls)) {outer : Bytes}

theorem get_iff {key value : Bytes} {concerns : TxResult → Prop} {written : TxResult → Bytes}
    (hwrites : ∀ result ∈ history codec calls, ∀ write ∈ writesOf codec result, write.key = key →
      concerns result ∧ write.value = written result)
    (hexists : ∀ result ∈ history codec calls, concerns result →
      ∃ write ∈ writesOf codec result, write.key = key) :
    (run codec outer calls).get key = some value ↔
      ∃ result, LastWith concerns (history codec calls) result ∧ value = written result := by
  rw [run_eq, get_commit_flatMap_iff fun result hresult write hwrite hkey =>
    (hwrites result hresult write hwrite hkey).2]
  refine exists_congr fun result => and_congr_left fun _ => lastWith_congr fun other hother => ?_
  exact ⟨fun ⟨write, hwrite, hkey⟩ => (hwrites other hother write hwrite hkey).1,
    hexists other hother⟩

theorem get_text_iff {text value : Bytes}
    (htext : ∀ result ∈ history codec calls, codec.hash result.tx ≠ text) :
    (run codec outer calls).get text = some value ↔
      ∃ result, LastWith (fun result => text ∈ entryTexts result) (history codec calls) result ∧
        value = codec.hash result.tx := by
  apply get_iff <;> intro result hresult <;>
    obtain ⟨rawBytes, hmarshal⟩ := encodes_of_mem_history hresult
  · intro write hwrite hkey
    rcases (mem_writesOf_iff hmarshal).1 hwrite with ⟨other, hother, rfl⟩ | rfl
    · rw [← hkey]
      exact ⟨hother, rfl⟩
    · exact absurd hkey (htext result hresult)
  · intro hmem
    exact ⟨_, (mem_writesOf_iff hmarshal).2 (.inl ⟨text, hmem, rfl⟩), rfl⟩

include hcodec

theorem get_hash_iff {first : TxResult} (hfirst : first ∈ history codec calls) {value : Bytes} :
    (run codec outer calls).get (codec.hash first.tx) = some value ↔
      ∃ result, LastWith (fun result => result.tx = first.tx) (history codec calls) result ∧
        codec.marshal result = .ok value := by
  let encoding (result : TxResult) : Bytes :=
    match codec.marshal result with
    | .ok rawBytes => rawBytes
    | .error _ => []
  have hencoding {result : TxResult} {rawBytes : Bytes}
      (hmarshal : codec.marshal result = .ok rawBytes) : encoding result = rawBytes := by
    simp only [encoding, hmarshal]
  have hget : (run codec outer calls).get (codec.hash first.tx) = some value ↔
      ∃ result, LastWith (fun result => result.tx = first.tx) (history codec calls) result ∧
        value = encoding result := by
    apply get_iff <;> intro result hresult <;>
      obtain ⟨rawBytes, hmarshal⟩ := encodes_of_mem_history hresult
    · intro write hwrite hkey
      rcases (mem_writesOf_iff hmarshal).1 hwrite with ⟨text, htext, rfl⟩ | rfl
      · obtain rfl : text = codec.hash first.tx := hkey
        exact absurd htext (hcodec.hash_not_text first hfirst result hresult)
      · exact ⟨hcodec.hash_injective result hresult first hfirst hkey, (hencoding hmarshal).symm⟩
    · intro htx
      exact ⟨_, (mem_writesOf_iff hmarshal).2 (.inr rfl), congrArg codec.hash htx⟩
  rw [hget]
  refine exists_congr fun result => and_congr_right fun hresult => ?_
  obtain ⟨rawBytes, hmarshal⟩ := encodes_of_mem_history hresult.mem
  rw [hencoding hmarshal, hmarshal, Except.ok.injEq, eq_comm]

/-- An encoding is no key of the store. -/
theorem get_rawBytes (hresult : result ∈ history codec calls) {rawBytes : Bytes}
    (hmarshal : codec.marshal result = .ok rawBytes) :
    (run codec outer calls).get rawBytes = none := by
  by_contra hsome
  obtain ⟨value, hget⟩ := Option.ne_none_iff_exists'.1 hsome
  rw [get_text_iff fun other hother heq =>
    hcodec.rawBytes_not_hash result hresult other hother rawBytes hmarshal heq.symm] at hget
  obtain ⟨other, hlast, _⟩ := hget
  exact hcodec.rawBytes_not_text result hresult other hlast.mem rawBytes hmarshal hlast.prop

theorem get_hash {first : TxResult} (hfirst : first ∈ history codec calls) :
    ∃ result, LastWith (fun result => result.tx = first.tx) (history codec calls) result ∧
      TxIndex.get codec (run codec outer calls) (codec.hash first.tx) = .ok (some result) := by
  obtain ⟨result, hlast⟩ := exists_lastWith (fun result => result.tx = first.tx) hfirst rfl
  obtain ⟨rawBytes, hmarshal⟩ := encodes_of_mem_history hlast.mem
  have hget : (run codec outer calls).get (codec.hash first.tx) = some rawBytes :=
    (get_hash_iff hcodec hfirst).2 ⟨result, hlast, hmarshal⟩
  refine ⟨result, hlast, ?_⟩
  rw [TxIndex.get, if_neg (hcodec.nonEmpty.hash first.tx), hget]
  simp only [hcodec.nonEmpty.marshal result rawBytes hmarshal, if_false,
    hcodec.unmarshal result rawBytes hmarshal]

theorem get_encoding (hresult : result ∈ history codec calls) {rawBytes : Bytes}
    (hmarshal : codec.marshal result = .ok rawBytes) :
    TxIndex.get codec (run codec outer calls) rawBytes = .ok none := by
  rw [TxIndex.get, if_neg (hcodec.nonEmpty.marshal result rawBytes hmarshal),
    get_rawBytes hcodec hresult hmarshal]

theorem exists_fetch {hashes : List Bytes} (hnodup : hashes.Nodup)
    (hhashes : ∀ hash ∈ hashes, ∃ result ∈ history codec calls, hash = codec.hash result.tx ∨
      codec.marshal result = .ok hash) :
    ∃ results, fetch codec (run codec outer calls) hashes = .ok results ∧
      (results.map TxResult.tx).Nodup ∧ ∀ result, result ∈ results ↔ codec.hash result.tx ∈ hashes ∧
          LastWith (fun other => other.tx = result.tx) (history codec calls) result := by
  induction hashes with
  | nil => exact ⟨[], rfl, List.nodup_nil, by simp⟩
  | cons hash hashes ih =>
    rw [List.forall_mem_cons] at hhashes
    rw [List.nodup_cons] at hnodup
    obtain ⟨results, hfetch, hdistinct, hmem⟩ := ih hnodup.2 hhashes.2
    obtain ⟨first, hfirst, rfl | hmarshal⟩ := hhashes.1
    · obtain ⟨result, hlast, hget⟩ := get_hash hcodec hfirst
      have htx : result.tx = first.tx := hlast.prop
      refine ⟨result :: results, ?_, ?_, fun other => ?_⟩
      · rw [fetch, hget]
        simp only [hfetch, Result.ok_bind]
        rfl
      · rw [List.map_cons, List.nodup_cons]
        refine ⟨fun hrepeated => ?_, hdistinct⟩
        obtain ⟨other, hother, heq⟩ := List.mem_map.1 hrepeated
        have hhash := ((hmem other).1 hother).1
        rw [heq, htx] at hhash
        exact hnodup.1 hhash
      · rw [List.mem_cons, List.mem_cons, hmem]
        constructor
        · rintro (rfl | ⟨hhash, hother⟩)
          · rw [htx]
            exact ⟨.inl rfl, hlast⟩
          · exact ⟨.inr hhash, hother⟩
        · rintro ⟨heq | hhash, hother⟩
          · rw [hcodec.hash_injective other hother.mem first hfirst heq] at hother
            exact .inl (hother.unique hlast)
          · exact .inr ⟨hhash, hother⟩
    · refine ⟨results, ?_, hdistinct, fun other => ?_⟩
      · rw [fetch, get_encoding hcodec hfirst hmarshal]
        exact hfetch
      · rw [hmem, List.mem_cons]
        refine and_congr_left fun hlast => ⟨.inr, ?_⟩
        rintro (heq | hother)
        · exact absurd heq.symm
            (hcodec.rawBytes_not_hash first hfirst other hlast.mem hash hmarshal)
        · exact hother

end

/-! ## What a search finds -/

def Reached (results : List TxResult) (start : Bytes) (result : TxResult) : Prop :=
  ∃ text, start <+: text ∧ LastWith (fun other => text ∈ entryTexts other) results result

variable {start : Bytes}

theorem matchedAlone_equal_iff {store : KVStore} {c : Condition} (hop : c.op = .opEqual)
    {hash : Bytes} :
    MatchedAlone (matchCondition store c start) hash ↔
      ∃ text, start <+: text ∧ store.get text = some hash := by
  rw [MatchedAlone, matchCondition, narrow_first, conditionHashes, hop]
  simp only
  rw [exists_mem_collect_iff fun _ _ _ => ⟨true, rfl⟩]
  simp only [KVStore.mem_prefixIterator, and_true]
  constructor
  · rintro ⟨_, rest, rfl, hget⟩
    exact ⟨_, List.prefix_append start rest, hget⟩
  · rintro ⟨_, ⟨rest, rfl⟩, hget⟩
    exact ⟨_, rest, rfl, hget⟩

section

variable {codec : Codec} {calls : List Call}
  (hcodec : codec.LawfulOn (history codec calls)) {outer : Bytes}

include hcodec

theorem exists_get_hash_iff (hresult : result ∈ history codec calls) : (∃ text, start <+: text ∧
        (run codec outer calls).get text = some (codec.hash result.tx)) ↔
      ∃ other, Reached (history codec calls) start other ∧ other.tx = result.tx := by
  constructor
  · rintro ⟨text, hstart, hget⟩
    by_cases hhash : ∃ other ∈ history codec calls, codec.hash other.tx = text
    · -- an encoding is not a hash
      obtain ⟨other, hother, rfl⟩ := hhash
      obtain ⟨last, hlast, hmarshal⟩ := (get_hash_iff hcodec hother).1 hget
      exact absurd rfl (hcodec.rawBytes_not_hash last hlast.mem result hresult _ hmarshal)
    · push Not at hhash
      obtain ⟨other, hlast, heq⟩ := (get_text_iff hhash).1 hget
      exact ⟨other, ⟨text, hstart, hlast⟩,
        (hcodec.hash_injective result hresult other hlast.mem heq).symm⟩
  · rintro ⟨other, ⟨text, hstart, hlast⟩, htx⟩
    refine ⟨text, hstart, (get_text_iff fun first hfirst heq => ?_).2 ⟨other, hlast, ?_⟩⟩
    · rw [← heq] at hlast
      exact hcodec.hash_not_text first hfirst other hlast.mem hlast.prop
    · rw [htx]

variable (outer) in
/-- A search with conditions `=` returns the last results with the transactions that are
reached for every condition. -/
theorem exists_search_equal {conditions : List Condition} (hne : conditions ≠ [])
    (hequal : ∀ c ∈ conditions, c.op = .opEqual ∧ c.operand ≠ none)
    (hhash : ∀ c ∈ conditions, c.compositeKey ≠ txHashKey) {height : Int64}
    (hheight : lookForHeight conditions = .ok height) (order : MapOrder) :
    ∃ results, search codec (run codec outer calls) order conditions = .ok results ∧
      (results.map TxResult.tx).Nodup ∧ ∀ result, result ∈ results ↔
        LastWith (fun other => other.tx = result.tx) (history codec calls) result ∧
          ∀ c ∈ conditions, ∃ other,
            Reached (history codec calls) (startKeyForCondition c height) other ∧
              other.tx = result.tx := by
  have hparsed : Parsed conditions := fun c hc => by
    rw [(hequal c hc).1]
    exact (hequal c hc).2
  have hop (c : Condition) (hc : c ∈ conditions) : isRangeOperation c.op = false := by
    rw [(hequal c hc).1]
    rfl
  obtain ⟨hashes, hhashes, hnodup, hmem⟩ := exists_filteredHashes
    (noNil_run hcodec.nonEmpty outer calls) hne hparsed (intRanges_of_forall hop) hheight order
  have hmatched (hash : Bytes) : hash ∈ hashes ↔ ∀ c ∈ conditions, ∃ text,
      startKeyForCondition c height <+: text ∧ (run codec outer calls).get text = some hash := by
    rw [hmem]
    constructor
    · exact fun h c hc => (matchedAlone_equal_iff (hequal c hc).1).1 (h.2 c hc (hop c hc))
    · refine fun h => ⟨fun key qr hqr => ?_, fun c hc _ =>
        (matchedAlone_equal_iff (hequal c hc).1).2 (h c hc)⟩
      rw [lookup_lookForRanges_eq_none hop] at hqr
      cases hqr
  have hvalues : ∀ hash ∈ order.keys hashes, ∃ result ∈ history codec calls,
      hash = codec.hash result.tx ∨ codec.marshal result = .ok hash := by
    intro hash hkeys
    obtain ⟨c, hc⟩ := List.exists_mem_of_ne_nil _ hne
    obtain ⟨text, _, hget⟩ := (hmatched hash).1 ((order.keys_perm hashes).mem_iff.1 hkeys) c hc
    exact value_of_get_run hget
  obtain ⟨results, hfetch, hdistinct, hresults⟩ :=
    exists_fetch hcodec ((order.keys_perm hashes).nodup_iff.2 hnodup) hvalues
  refine ⟨results, (search_eq hhash hhashes).trans hfetch, hdistinct, fun result => ?_⟩
  rw [hresults, (order.keys_perm hashes).mem_iff, hmatched, and_comm]
  refine and_congr_right fun hlast => forall₂_congr fun c _ => ?_
  exact exists_get_hash_iff hcodec hlast.mem

end

/-! ## Searches for a value -/

/-- `key = v`, with a further condition if a height is given. -/
def equalityQuery (key : Bytes) (v : Operand) (height : Option Int64) : List Condition :=
  ⟨key, .opEqual, some v⟩ :: height.toList.map fun h => ⟨txHeightKey, .opEqual, some (.int64 h)⟩

def Matches (key : Bytes) (v : Operand) (height : Option Int64) (result : TxResult) : Prop :=
  (key, sprint (some v)) ∈ indexedAttributes result.events ∧ ∀ h ∈ height, result.height = h

/-- How the texts of the entries are read: whatever has entries that start as the query
says, and keeps them, matches; and whatever matches keeps such entries. -/
structure Unambiguous (results : List TxResult) (key : Bytes) (v : Operand)
    (height : Option Int64) : Prop where
  sound : ∀ result ∈ results, (∀ c ∈ equalityQuery key v height,
    Reached results (startKeyForCondition c (height.getD 0)) result) → Matches key v height result
  complete : ∀ result ∈ results, Matches key v height result → ∀ c ∈ equalityQuery key v height,
      Reached results (startKeyForCondition c (height.getD 0)) result

theorem lookForHeight_eq_getD {conditions : List Condition} {height : Option Int64}
    (hall : ∀ c ∈ conditions, c.compositeKey = txHeightKey → c.op = .opEqual → ∃ h ∈ height,
      c.operand = some (.int64 h))
    (hexists : ∀ h ∈ height, ⟨txHeightKey, .opEqual, some (.int64 h)⟩ ∈ conditions) :
    lookForHeight conditions = .ok (height.getD 0) := by
  rw [lookForHeight_eq]
  cases hfind : conditions.find? _ with
  | none =>
    cases height with
    | none => rfl
    | some h => simpa using List.find?_eq_none.1 hfind _ (hexists h rfl)
  | some c =>
    have hc : c.compositeKey = txHeightKey ∧ c.op = .opEqual := by
      simpa using List.find?_some hfind
    obtain ⟨h, rfl, hoperand⟩ := hall c (List.mem_of_find?_eq_some hfind) hc.1 hc.2
    rw [Option.elim_some, hoperand]
    rfl

variable {results : List TxResult}

theorem lastWith_tx_iff (hdistinct : (results.map TxResult.tx).Nodup) :
    LastWith (fun other => other.tx = result.tx) results result ↔ result ∈ results := by
  refine ⟨LastWith.mem, fun hresult => ?_⟩
  obtain ⟨last, hlast⟩ := exists_lastWith (fun other => other.tx = result.tx) hresult rfl
  rwa [List.inj_on_of_nodup_map hdistinct hlast.mem hresult hlast.prop] at hlast

/-- For results with distinct transactions, a search for a value returns exactly the results
that match if and only if the texts of the entries are unambiguous. -/
theorem tx_search_exact_iff (codec : Codec) (outer : Bytes) (calls : List Call)
    (hcodec : codec.LawfulOn (history codec calls))
    (hdistinct : ((history codec calls).map TxResult.tx).Nodup) (key : Bytes) (v : Operand)
    (hkey : key ≠ txHashKey ∧ key ≠ txHeightKey) (height : Option Int64)
    (conditions : List Condition)
    (hconditions : ∀ c, c ∈ conditions ↔ c ∈ equalityQuery key v height) :
    (∀ order, ∃ results,
      search codec (run codec outer calls) order conditions = .ok results ∧ results.Nodup ∧
        ∀ result, result ∈ results ↔ result ∈ history codec calls ∧ Matches key v height result) ↔
      Unambiguous (history codec calls) key v height := by
  have hquery : ∀ c ∈ conditions, c.op = .opEqual ∧ c.operand ≠ none ∧
      c.compositeKey ≠ txHashKey ∧ (c.compositeKey = txHeightKey →
        ∃ h ∈ height, c.operand = some (.int64 h)) := by
    intro c hc
    rw [hconditions, equalityQuery, List.mem_cons, List.mem_map] at hc
    rcases hc with rfl | ⟨h, hh, rfl⟩
    · exact ⟨rfl, by simp, hkey.1, fun heq => absurd heq hkey.2⟩
    · have hkeys : txHeightKey ≠ txHashKey := by decide
      exact ⟨rfl, by simp, hkeys, fun _ => ⟨h, Option.mem_toList.1 hh, rfl⟩⟩
  have hne : conditions ≠ [] := List.ne_nil_of_mem ((hconditions _).2 (List.mem_cons_self ..))
  have hheight : lookForHeight conditions = .ok (height.getD 0) := by
    refine lookForHeight_eq_getD (fun c hc hkey _ => (hquery c hc).2.2.2 hkey) fun h hh => ?_
    rw [hconditions]
    exact List.mem_cons_of_mem _ (List.mem_map.2 ⟨h, Option.mem_toList.2 hh, rfl⟩)
  -- a reached result with the same transaction is the same result
  have hfound (order : MapOrder) : ∃ results,
      search codec (run codec outer calls) order conditions = .ok results ∧ results.Nodup ∧
        ∀ result, result ∈ results ↔ result ∈ history codec calls ∧
          ∀ c ∈ equalityQuery key v height,
            Reached (history codec calls) (startKeyForCondition c (height.getD 0)) result := by
    obtain ⟨results, hsearch, hnodup, hmem⟩ := exists_search_equal hcodec outer hne
      (fun c hc => ⟨(hquery c hc).1, (hquery c hc).2.1⟩) (fun c hc => (hquery c hc).2.2.1)
      hheight order
    refine ⟨results, hsearch, hnodup.of_map _, fun result => ?_⟩
    rw [hmem, lastWith_tx_iff hdistinct]
    refine and_congr_right fun hresult => ?_
    simp only [← hconditions]
    refine forall₂_congr fun c _ => ⟨?_, fun hreached => ⟨result, hreached, rfl⟩⟩
    rintro ⟨other, hreached, htx⟩
    have hother : other ∈ history codec calls := by
      obtain ⟨_, _, hlast⟩ := hreached
      exact hlast.mem
    rwa [← List.inj_on_of_nodup_map hdistinct hother hresult htx]
  constructor
  · intro hexact
    obtain ⟨order⟩ : Nonempty MapOrder := inferInstance
    obtain ⟨results, hsearch, _, hmem⟩ := hexact order
    obtain ⟨results', hsearch', _, hmem'⟩ := hfound order
    obtain rfl : results = results' := Result.ok.inj (hsearch.symm.trans hsearch')
    constructor
    · exact fun result hresult hreached =>
    ((hmem result).1 ((hmem' result).2 ⟨hresult, hreached⟩)).2
    · exact fun result hresult hmatches =>
        ((hmem' result).1 ((hmem result).2 ⟨hresult, hmatches⟩)).2
  · intro hunambiguous order
    obtain ⟨results, hsearch, hnodup, hmem⟩ := hfound order
    refine ⟨results, hsearch, hnodup, fun result => ?_⟩
    rw [hmem]
    exact and_congr_right fun hresult =>
      ⟨hunambiguous.sound result hresult, hunambiguous.complete result hresult⟩

/-! ## Results without separators -/

/-- No indexed key or value contains the separator, and every position is used once. -/
structure Plain (results : List TxResult) : Prop where
  separator : ∀ result ∈ results, ∀ attr ∈ indexedAttributes result.events,
    tagKeySeparator ∉ attr.1 ∧ tagKeySeparator ∉ attr.2
  positions : (results.map fun result => (result.height, result.index)).Nodup

namespace Plain

variable (hplain : Plain results) (hresult : result ∈ results)

include hplain hresult

/-- What only results of one position have, the last one with it has. -/
theorem lastWith {p : TxResult → Prop} (hp : p result)
    (hposition : ∀ other, p other → other.height = result.height ∧ other.index = result.index) :
    LastWith p results result := by
  obtain ⟨last, hlast⟩ := exists_lastWith p hresult hp
  obtain ⟨hheight, hindex⟩ := hposition last hlast.prop
  have hsame : last = result := List.inj_on_of_nodup_map hplain.positions hlast.mem hresult
    (Prod.ext hheight hindex)
  rwa [hsame] at hlast

theorem reached {text : Bytes} (htext : text ∈ entryTexts result) (hstart : start <+: text) :
    Reached results start result :=
  ⟨text, hstart, hplain.lastWith hresult htext fun _ hother =>
    position_of_mem_entryTexts hother htext⟩

theorem of_reached {c : Condition} {height : Int64}
    (hkey : tagKeySeparator ∉ c.compositeKey) (hoperand : tagKeySeparator ∉ sprint c.operand)
    (hreached : Reached results (startKeyForCondition c height) result) :
    ((c.compositeKey, sprint c.operand) ∈ indexedAttributes result.events ∨
      c.compositeKey = txHeightKey) ∧ (0 < height → result.height = height) := by
  obtain ⟨text, hstart, hlast⟩ := hreached
  obtain ⟨attr, hattr, rfl⟩ := mem_entryTexts_iff.1 hlast.prop
  have hfields : tagKeySeparator ∉ attr.1 ∧ tagKeySeparator ∉ attr.2 := by
    rcases hattr with hattr | rfl
    · exact hplain.separator result hresult attr hattr
    · exact ⟨not_mem_txHeightKey_separator, not_mem_int64Text_separator _⟩
  obtain ⟨rfl, hheight⟩ := of_isPrefix_startKey hkey hoperand hfields hstart
  exact ⟨hattr.imp_right fun h => congrArg Prod.fst h, hheight⟩

omit hresult in
/-- It is enough that neither the indexed keys and values nor the query contain the
separator and that no position is used twice. -/
theorem unambiguous {key : Bytes} {v : Operand} {height : Option Int64} (hne : key ≠ txHeightKey)
    (hkey : tagKeySeparator ∉ key) (hvalue : tagKeySeparator ∉ sprint (some v))
    (hheight : ∀ h ∈ height, 0 < h) : Unambiguous results key v height where
  sound result hresult hreached := by
    obtain ⟨hattr, hheight'⟩ := hplain.of_reached hresult hkey hvalue
      (hreached _ List.mem_cons_self)
    refine ⟨hattr.resolve_right hne, ?_⟩
    rintro h rfl
    exact hheight' (hheight h rfl)
  complete result hresult hmatches c hc := by
    rw [equalityQuery, List.mem_cons, List.mem_map] at hc
    have hsame (hpos : 0 < height.getD 0) : result.height = height.getD 0 := by
      cases height with
      | none => exact absurd hpos (by decide)
      | some h => exact hmatches.2 h rfl
    rcases hc with rfl | ⟨h, hh, rfl⟩
    · exact hplain.reached hresult (mem_entryTexts_iff.2 ⟨_, .inl hmatches.1, rfl⟩)
        (isPrefix_startKey hsame)
    · have hown : keyForEvent txHeightKey (int64Text h) result ∈ entryTexts result := by
        rw [← hmatches.2 h (Option.mem_toList.1 hh)]
        exact mem_entryTexts_iff.2 ⟨_, .inr rfl, rfl⟩
      exact hplain.reached hresult hown (isPrefix_startKey hsame)

end Plain

theorem Codec.lawfulOn_ofResults {indexed : List TxResult}
    (hhash : ∀ result ∈ indexed, ∀ other ∈ indexed, 104 :: result.tx ∉ entryTexts other) :
    (Codec.ofResults results).LawfulOn indexed := by
  have hmarshal {result : TxResult} {rawBytes : Bytes}
      (hmarshal : (Codec.ofResults results).marshal result = .ok rawBytes) :
      ∃ i, results[i]? = some result ∧ rawBytes = List.replicate (i + 1) 1 := by
    simp only [Codec.ofResults] at hmarshal
    split at hmarshal
    case h_1 i hi =>
      obtain ⟨hlt, hget, _⟩ := List.idxOf?_eq_some_iff.1 hi
      refine ⟨i, ?_, (Except.ok.inj hmarshal).symm⟩
      rw [List.getElem?_eq_getElem hlt, hget]
    case h_2 => cases hmarshal
  have hseparator {result : TxResult} {text : Bytes} (htext : text ∈ entryTexts result) :
      tagKeySeparator ∈ text := by
    obtain ⟨attr, _, rfl⟩ := mem_entryTexts_iff.1 htext
    simp [keyForEvent]
  refine ⟨nonEmpty_ofResults results, fun result rawBytes hok => ?_,
    fun result _ other _ heq => List.tail_eq_of_cons_eq heq, hhash,
    fun result _ other _ rawBytes hok => ?_, fun result _ other _ rawBytes hok htext => ?_⟩
  · obtain ⟨i, hget, rfl⟩ := hmarshal hok
    simp [Codec.ofResults, hget]
  · obtain ⟨i, _, rfl⟩ := hmarshal hok
    simp [Codec.ofResults, List.replicate_succ]
  · obtain ⟨i, _, rfl⟩ := hmarshal hok
    exact absurd (List.eq_of_mem_replicate (hseparator htext)) (by decide)

/-- A result with one attribute `a.b`. -/
def withValue (height : Int64) (tx value : Bytes) : TxResult :=
  ⟨height, 0, tx, ⟨0, [], "", 0, 0⟩, [⟨utf8 "a", [⟨utf8 "b", value, true⟩]⟩]⟩

def twoResults : List TxResult := [withValue 4 [1] (utf8 "x"), withValue 5 [2] (utf8 "y")]

/-- Of two results with different values and heights a search finds the right one. -/
theorem tx_search_exact_value : ∃ results, search (.ofResults twoResults)
        (run (.ofResults twoResults) [] [.addBatch twoResults]) (.startingWith (.ofKey []))
        (equalityQuery (utf8 "a.b") (.string (utf8 "x")) (some 4)) = .ok results ∧
      results.Nodup ∧ ∀ result, result ∈ results ↔
        result ∈ twoResults ∧ Matches (utf8 "a.b") (.string (utf8 "x")) (some 4) result := by
  have hhistory : history (.ofResults twoResults) [.addBatch twoResults] = twoResults := by
    decide
  have hexact := tx_search_exact_iff (.ofResults twoResults) [] [.addBatch twoResults]
  rw [hhistory] at hexact
  exact (hexact (Codec.lawfulOn_ofResults (by decide)) (by decide) (utf8 "a.b")
    (.string (utf8 "x")) (by decide) (some 4) _ fun c => Iff.rfl).2
      (Plain.unambiguous ⟨by decide, by decide⟩ (by decide) (by decide) (by decide) (by simp)) _

/-- The value `x/y` is found by a search for `x`, and the value `x` at height 5 by one for
the number 5 under the key `a.b/x`. -/
theorem tx_search_not_exact : search (.ofResults [withValue 5 [7] (utf8 "x/y")])
        (run (.ofResults [withValue 5 [7] (utf8 "x/y")]) [] [.index (withValue 5 [7] (utf8 "x/y"))])
        (.startingWith (.ofKey [])) (equalityQuery (utf8 "a.b") (.string (utf8 "x")) none) =
      .ok [withValue 5 [7] (utf8 "x/y")] ∧
    ¬ Matches (utf8 "a.b") (.string (utf8 "x")) none (withValue 5 [7] (utf8 "x/y")) ∧
    search (.ofResults [withValue 5 [7] (utf8 "x")])
        (run (.ofResults [withValue 5 [7] (utf8 "x")]) [] [.index (withValue 5 [7] (utf8 "x"))])
        (.startingWith (.ofKey [])) (equalityQuery (utf8 "a.b/x") (.int64 5) none) =
      .ok [withValue 5 [7] (utf8 "x")] ∧
    ¬ Matches (utf8 "a.b/x") (.int64 5) none (withValue 5 [7] (utf8 "x")) := by
  have hnot {key : Bytes} {v : Operand} {result : TxResult}
      (hattr : (key, sprint (some v)) ∉ indexedAttributes result.events) :
      ¬ Matches key v none result := fun h => hattr h.1
  exact ⟨by decide, hnot (by decide), by decide, hnot (by decide)⟩

end Dymint.TxIndex
