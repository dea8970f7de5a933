import Dymint.State.TxSearch

/-!
# Transactions that are included again

The entry for the height of a result leads to the hash of its transaction, and the hash to
the last result with that transaction.  If the same bytes are included again at a later
height, a search for the earlier height returns the later result.
-/

namespace Dymint.TxIndex

open Procedure Dymint.Types Decimal KV Query Narrow

variable {result : TxResult} {results : List TxResult}

/-! ## Searches for a height -/

def LastAtPosition (results : List TxResult) (result : TxResult) : Prop :=
  LastWith (fun other => other.height = result.height ∧ other.index = result.index) results result

/-- `tx.height = H`. -/
def heightQuery (height : Int64) : Condition := ⟨txHeightKey, .opEqual, some (.int64 height)⟩

theorem LastAtPosition.reached (hlast : LastAtPosition results result) :
    Reached results (startKeyForCondition (heightQuery result.height) result.height)
      result := by
  have hown : keyForHeight result ∈ entryTexts result := by simp [entryTexts]
  obtain ⟨before, after, hsplit, _, hafter⟩ := hlast
  have hstart : startKeyForCondition (heightQuery result.height) result.height <+:
      keyForHeight result := isPrefix_startKey fun _ => rfl
  refine ⟨keyForHeight result, hstart, before, after, hsplit, hown,
    fun other hother htext => hafter other hother ?_⟩
  exact position_of_mem_entryTexts htext hown

structure IncludedOnce (results : List TxResult) (height : Int64) : Prop where
  kept : ∀ result, result.height = height → LastAtPosition results result →
    LastWith (fun other => other.tx = result.tx) results result
  reached : ∀ first, Reached results (startKeyForCondition (heightQuery height) height) first →
    ∀ result, LastWith (fun other => other.tx = first.tx) results result →
      result.height = height ∧ LastAtPosition results result

/-- It is enough that no transaction is included twice, that no position is used twice and
that no indexed key or value contains the separator. -/
theorem Plain.includedOnce (hplain : Plain results) (hdistinct : (results.map TxResult.tx).Nodup)
    {height : Int64} (hheight : 0 < height) : IncludedOnce results height where
  kept _ _ hlast := (lastWith_tx_iff hdistinct).2 hlast.mem
  reached first hreached result hlast := by
    obtain rfl : result = first := by
      obtain ⟨_, _, hfirst⟩ := hreached
      exact List.inj_on_of_nodup_map hdistinct hlast.mem hfirst.mem hlast.prop
    obtain ⟨-, hsame⟩ := hplain.of_reached (c := heightQuery height) hlast.mem
      not_mem_txHeightKey_separator (not_mem_int64Text_separator height) hreached
    exact ⟨hsame hheight, hplain.lastWith hlast.mem ⟨rfl, rfl⟩ fun _ hother => hother⟩

/-- After any calls, a search for a height returns exactly one result for every index that
was indexed at the height, namely the one that was indexed there, if and only if no
transaction of the height is included again later and nothing else is reached. -/
theorem height_search_exact_iff (codec : Codec) (outer : Bytes) (calls : List Call)
    (hcodec : codec.LawfulOn (history codec calls)) (height : Int64) :
    (∀ order, ∃ results,
      search codec (run codec outer calls) order [heightQuery height] = .ok results ∧
        (results.map TxResult.index).Nodup ∧ ∀ result, result ∈ results ↔
          result.height = height ∧ LastAtPosition (history codec calls) result) ↔
      IncludedOnce (history codec calls) height := by
  have hfound (order : MapOrder) : ∃ results,
      search codec (run codec outer calls) order [heightQuery height] = .ok results ∧
        (results.map TxResult.tx).Nodup ∧ ∀ result, result ∈ results ↔
          LastWith (fun other => other.tx = result.tx) (history codec calls) result ∧
            ∃ other, Reached (history codec calls)
              (startKeyForCondition (heightQuery height) height) other ∧ other.tx = result.tx := by
    have hkeys : txHeightKey ≠ txHashKey := by decide
    obtain ⟨results, hsearch, hnodup, hmem⟩ := exists_search_equal hcodec outer
      (List.cons_ne_nil (heightQuery height) []) (by simp [heightQuery])
      (by simpa [heightQuery] using hkeys) rfl order
    exact ⟨results, hsearch, hnodup, by simpa using hmem⟩
  constructor
  · intro hexact
    obtain ⟨order⟩ : Nonempty MapOrder := inferInstance
    obtain ⟨results, hsearch, _, hmem⟩ := hexact order
    obtain ⟨results', hsearch', _, hmem'⟩ := hfound order
    obtain rfl : results = results' := Result.ok.inj (hsearch.symm.trans hsearch')
    constructor
    · exact fun result hheight hlast => ((hmem' result).1 ((hmem result).2 ⟨hheight, hlast⟩)).1
    · refine fun first hreached result hlast => (hmem result).1 ((hmem' result).2 ?_)
      have htx : result.tx = first.tx := hlast.prop
      rw [htx]
      exact ⟨hlast, first, hreached, rfl⟩
  · intro honce order
    obtain ⟨results, hsearch, hnodup, hmem⟩ := hfound order
    have hexact (result : TxResult) : result ∈ results ↔
        result.height = height ∧ LastAtPosition (history codec calls) result := by
      rw [hmem]
      constructor
      · rintro ⟨hlast, first, hreached, htx⟩
        rw [← htx] at hlast
        exact honce.reached first hreached result hlast
      · rintro ⟨rfl, hlast⟩
        exact ⟨honce.kept result rfl hlast, result, hlast.reached, rfl⟩
    refine
    ⟨results, hsearch, (hnodup.of_map _).map_on fun left hleft right hright heq => ?_, hexact⟩
    obtain ⟨hheight, hlast⟩ := (hexact left).1 hleft
    obtain ⟨hheight', hlast'⟩ := (hexact right).1 hright
    rw [LastAtPosition, hheight, heq] at hlast
    rw [LastAtPosition, hheight'] at hlast'
    exact hlast.unique hlast'

def plain (height : Int64) (index : UInt32) (tx : Bytes) (code : UInt32) : TxResult :=
  ⟨height, index, tx, ⟨code, [], "", 0, 0⟩, []⟩

def threeResults : List TxResult := [plain 1 0 [1] 0, plain 1 1 [2] 0, plain 2 0 [3] 0]

/-- Two transactions at height 1 and another one at height 2. -/
theorem height_search_exact_three : ∃ results, search (.ofResults threeResults)
        (run (.ofResults threeResults) [] [.addBatch threeResults]) (.startingWith (.ofKey []))
        [heightQuery 1] = .ok results ∧
      (results.map TxResult.index).Nodup ∧ ∀ result, result ∈ results ↔
        result.height = 1 ∧ LastAtPosition threeResults result := by
  have hhistory : history (.ofResults threeResults) [.addBatch threeResults] = threeResults := by
    decide
  have hexact := height_search_exact_iff (.ofResults threeResults) [] [.addBatch threeResults]
  rw [hhistory] at hexact
  exact (hexact (Codec.lawfulOn_ofResults (by decide)) 1).2
    (Plain.includedOnce ⟨by decide, by decide⟩ (by decide) (by decide)) _

/-- A transaction fails at height 1 and succeeds at height 2: the search for height 1 then
returns the result of height 2. -/
theorem earlier_inclusion_replaced : search (.ofResults [plain 1 0 [7] 1, plain 2 0 [7] 0])
        (run (.ofResults [plain 1 0 [7] 1, plain 2 0 [7] 0]) [] [.index (plain 1 0 [7] 1)])
        (.startingWith (.ofKey [])) [heightQuery 1] = .ok [plain 1 0 [7] 1] ∧
      search (.ofResults [plain 1 0 [7] 1, plain 2 0 [7] 0])
        (run (.ofResults [plain 1 0 [7] 1, plain 2 0 [7] 0]) []
          [.index (plain 1 0 [7] 1), .index (plain 2 0 [7] 0)])
        (.startingWith (.ofKey [])) [heightQuery 1] = .ok [plain 2 0 [7] 0] := by
  decide

end Dymint.TxIndex
