import Dymint.Core.Decimal
import Dymint.Core.Narrow
import Dymint.State.QueryRange
import Dymint.Store.KV

/-!
# The transaction index

`TxIndex` stores the result of a transaction under the hash of the transaction, and the
hash under a text for every attribute of the result that is marked for indexing and under
one for its height.  The parts of a text are joined by `/` without escaping, and a search
looks for texts with a given start.  The hash function, the generated codec and the
decoder of hexadecimal texts are parameters.
-/

namespace Dymint.TxIndex

open Procedure Dymint.Types Decimal KV Query Narrow

/-- An attribute of an event; `index` marks it for indexing. -/
structure EventAttribute where
  key : Bytes
  value : Bytes
  index : Bool
  deriving DecidableEq

structure Event where
  typ : Bytes
  attributes : List EventAttribute
  deriving DecidableEq

/-- `abci.TxResult`, with the events of the result beside the rest of it. -/
structure TxResult where
  height : Int64
  index : UInt32
  tx : Bytes
  result : ResponseDeliverTx
  events : List Event
  deriving DecidableEq

/-- The hash function, the generated codec and the hexadecimal decoder. -/
structure Codec where
  hash : Bytes → Bytes
  marshal : TxResult → Except Error Bytes
  unmarshal : Bytes → Except Error TxResult
  decodeHex : Bytes → Except Error Bytes

/-- Hashes and encodings are not empty. -/
structure Codec.NonEmpty (codec : Codec) : Prop where
  hash : ∀ tx, codec.hash tx ≠ []
  marshal : ∀ result rawBytes, codec.marshal result = .ok rawBytes → rawBytes ≠ []

/-- A codec for finitely many results. -/
def Codec.ofResults (results : List TxResult) : Codec where
  hash tx := 104 :: tx
  marshal result :=
    match results.idxOf? result with
    | some i => .ok (List.replicate (i + 1) 1)
    | none => .error (.new "unknown result")
  unmarshal rawBytes :=
    match results[rawBytes.length - 1]? with
    | some result => .ok result
    | none => .error (.new "unknown result")
  decodeHex text := .ok text

theorem Codec.nonEmpty_ofResults (results : List TxResult) : (ofResults results).NonEmpty where
  hash tx := List.cons_ne_nil _ _
  marshal result rawBytes hmarshal := by
    simp only [ofResults] at hmarshal
    split at hmarshal
    · rw [← Except.ok.inj hmarshal]
      exact List.cons_ne_nil _ _
    · cases hmarshal

/-! ## Keys -/

def txHashKey : Bytes := utf8 "tx.hash"

def txHeightKey : Bytes := utf8 "tx.height"

def tagKeySeparator : UInt8 := 47

/-- `type.key`, as a query names it. -/
def compositeTag (event : Event) (attr : EventAttribute) : Bytes := event.typ ++ 46 :: attr.key

/-- `key/value/height/index`. -/
def keyForEvent (key value : Bytes) (result : TxResult) : Bytes :=
  key ++ tagKeySeparator :: (value ++ tagKeySeparator ::
    (int64Text result.height ++ tagKeySeparator :: natText result.index.toNat))

/-- `tx.height/height/height/index`. -/
def keyForHeight (result : TxResult) : Bytes :=
  txHeightKey ++ tagKeySeparator :: (int64Text result.height ++ tagKeySeparator ::
    (int64Text result.height ++ tagKeySeparator :: natText result.index.toNat))

/-- The fields, each followed by a separator. -/
def startKey (fields : List Bytes) : Bytes := fields.flatMap fun field => field ++ [tagKeySeparator]

/-- The start of the entries that a condition `=` asks for. -/
def startKeyForCondition (c : Condition) (height : Int64) : Bytes :=
  if height > 0 then startKey [c.compositeKey, sprint c.operand, int64Text height]
  else startKey [c.compositeKey, sprint c.operand]

/-- The key of an entry has three separators. -/
def isTagKey (key : Bytes) : Bool := key.count tagKeySeparator == 3

/-- The second field, which the source takes unchecked. -/
def extractValueFromKey (key : Bytes) : Result Error Bytes :=
  match key.splitOn tagKeySeparator with
  | _ :: value :: _ => .ok value
  | _ => .panic

theorem length_splitOn_tagKeySeparator (key : Bytes) :
    (key.splitOn tagKeySeparator).length = key.count tagKeySeparator + 1 := by
  induction key with
  | nil => rfl
  | cons byte key ih =>
    rw [List.splitOn, List.splitOnP_cons_eq_if_modifyHead]
    by_cases hbyte : byte = tagKeySeparator
    · rw [if_pos (by simp [hbyte]), List.length_cons, hbyte, List.count_cons_self]
      exact congrArg (· + 1) ih
    · rw [if_neg (by simp [hbyte]), List.length_modifyHead, List.count_cons_of_ne hbyte]
      exact ih

theorem exists_extractValueFromKey {key : Bytes} (hkey : isTagKey key = true) :
    ∃ value, extractValueFromKey key = .ok value := by
  have hlength := length_splitOn_tagKeySeparator key
  rw [isTagKey, beq_iff_eq] at hkey
  rw [hkey] at hlength
  rw [extractValueFromKey]
  match hparts : key.splitOn tagKeySeparator with
  | [] => simp [hparts] at hlength
  | [first] => simp [hparts] at hlength
  | first :: value :: _ => exact ⟨value, rfl⟩

/-! ## Indexing -/

section

variable (codec : Codec)

/-- The entries of the attributes marked for indexing. -/
def indexEvents (result : TxResult) (hash : Bytes) : List Write :=
  result.events.flatMap fun event =>
    if event.typ = [] then []
    else event.attributes.filterMap fun attr =>
      if attr.key = [] then none
      else if attr.index then
        some ⟨keyForEvent (compositeTag event attr) attr.value result, hash⟩
      else none

/-- What is written for one result. -/
def writes (result : TxResult) : Except Error (List Write) := do
  let hash := codec.hash result.tx
  let rawBytes ← codec.marshal result
  return indexEvents result hash ++ [⟨keyForHeight result, hash⟩, ⟨hash, rawBytes⟩]

/-- `AddBatch` writes all results in one batch. -/
def addBatch (store : KVStore) (ops : List TxResult) : Except Error KVStore := do
  let batches ← ops.mapM (writes codec)
  return store.commit batches.flatten

/-- `Index` writes one result. -/
def index (store : KVStore) (result : TxResult) : Except Error KVStore := do
  let batch ← writes codec result
  return store.commit batch

/-- A call that changes the index. -/
inductive Call where
  | index (result : TxResult)
  | addBatch (ops : List TxResult)
  deriving DecidableEq

namespace Call

def results : Call → List TxResult
  | .index result => [result]
  | .addBatch ops => ops

def perform (store : KVStore) : Call → Except Error KVStore
  | .index result => TxIndex.index codec store result
  | .addBatch ops => TxIndex.addBatch codec store ops

/-- The store after a call, which leaves it alone if it fails. -/
def after (store : KVStore) (call : Call) : KVStore :=
  match call.perform codec store with
  | .ok next => next
  | .error _ => store

end Call

/-- The store after the calls, from an empty one. -/
def run (outer : Bytes) (calls : List Call) : KVStore :=
  calls.foldl (Call.after codec) (.empty outer)

end

/-! ## Searching -/

section

variable (codec : Codec) (store : KVStore)

/-- `Get`: the result stored under a hash. -/
def get (hash : Bytes) : Result Error (Option TxResult) :=
  if hash = [] then .err (.new "transaction hash cannot be empty")
  else
    match store.get hash with
    | none => .ok none
    | some rawBytes =>
      -- a value without bytes is nil
      if rawBytes = [] then .ok none
      else
        match codec.unmarshal rawBytes with
        | .error error => .err (.wrap "error reading TxResult" error)
        | .ok result => .ok (some result)

/-- The hash in the first condition on `tx.hash`. -/
def lookForHash : List Condition → Result Error (Option Bytes)
  | [] => .ok none
  | c :: conditions =>
    if c.compositeKey = txHashKey then
      match c.operand with
      | some (.string text) => do
        let decoded ← Result.ofExcept (codec.decodeHex text)
        return some decoded
      | _ => .panic
    else lookForHash conditions

/-- The height in the first `tx.height =`, or 0. -/
def lookForHeight : List Condition → Result Error Int64
  | [] => .ok 0
  | c :: conditions =>
    if c.compositeKey = txHeightKey ∧ c.op = .opEqual then
      match c.operand with
      | some (.int64 height) => .ok height
      | _ => .panic
    else lookForHeight conditions

/-- Whether `matchRange` takes an entry with this key. -/
def keepsInRange (qr : QueryRange) (lowerBound upperBound : Option Operand) (key : Bytes) :
    Result Error Bool :=
  if isTagKey key then
    match qr.anyBound with
    | some (.int64 _) => do
      let text ← extractValueFromKey key
      match parseInt64 text with
      | none => return false
      | some v => includes lowerBound upperBound v
    | _ => return false
  else return false

/-- What `matchRange` collects. -/
def rangeHashes (qr : QueryRange) (startKey : Bytes) : Result Error (List Bytes) := do
  let lowerBound ← qr.lowerBoundValue
  let upperBound ← qr.upperBoundValue
  collect (keepsInRange qr lowerBound upperBound) (store.prefixIterator startKey) []

/-- Whether `CONTAINS` takes an entry with this key. -/
def keepsContaining (operand : Option Operand) (key : Bytes) : Result Error Bool :=
  if isTagKey key then do
    let text ← extractValueFromKey key
    match operand with
    | some (.string part) => return decide (part <:+: text)
    | _ => .panic
  else return false

/-- What `match` collects for a condition. -/
def conditionHashes (c : Condition) (startKeyBz : Bytes) : Result Error (List Bytes) :=
  match c.op with
  | .opEqual => collect (fun _ => .ok true) (store.prefixIterator startKeyBz) []
  | .opExists =>
    collect (fun _ => .ok true) (store.prefixIterator (startKey [c.compositeKey])) []
  | .opContains =>
    collect (keepsContaining c.operand) (store.prefixIterator (startKey [c.compositeKey])) []
  | _ => .panic

def matchRange (qr : QueryRange) (startKey : Bytes) (filteredHashes : List Bytes)
    (firstRun : Bool) : Result Error (List Bytes) :=
  narrow List.isEmpty (rangeHashes store qr startKey) filteredHashes firstRun

def matchCondition (c : Condition) (startKeyBz : Bytes) (filteredHashes : List Bytes)
    (firstRun : Bool) : Result Error (List Bytes) :=
  narrow List.isEmpty (conditionHashes store c startKeyBz) filteredHashes firstRun

variable (order : MapOrder)

/-- The loops of `Search`: over the ranges, then over the other conditions. -/
def filteredHashes (conditions : List Condition) : Result Error (List Bytes) := do
  let ranged ← loop
    ((order.ranges (lookForRanges conditions).1).map fun qr =>
      matchRange store qr (startKey [qr.key])) ⟨false, []⟩
  let height ← lookForHeight conditions
  let matched ← loop
    ((remaining conditions).map fun c =>
      matchCondition store c (startKeyForCondition c height)) ranged
  return matched.filtered

/-- The digits of `%X`. -/
def upperHex (bytes : Bytes) : String :=
  let digit (n : ℕ) : Char := if n < 10 then .ofNat (48 + n) else .ofNat (55 + n)
  .ofList (bytes.flatMap fun byte => [digit (byte.toNat / 16), digit (byte.toNat % 16)])

/-- The results of the hashes, without those that are missing. -/
def fetch : List Bytes → Result Error (List TxResult)
  | [] => .ok []
  | hash :: hashes =>
    match get codec store hash with
    | .err error => .err (.wrap ("failed to get Tx\x7b" ++ upperHex hash ++ "\x7d") error)
    | .panic => .panic
    | .ok none => fetch hashes
    | .ok (some result) => do
      let results ← fetch hashes
      return result :: results

/-- `Search`; a condition on the hash answers the query alone. -/
def search (conditions : List Condition) : Result Error (List TxResult) :=
  match lookForHash codec conditions with
  | .err error => .err (.wrap "error during searching for a hash in the query" error)
  | .panic => .panic
  | .ok (some hash) =>
    match get codec store hash with
    | .err error => .err (.wrap "error while retrieving the result" error)
    | .panic => .panic
    | .ok none => .ok []
    | .ok (some result) => .ok [result]
  | .ok none => do
    let hashes ← filteredHashes store order conditions
    fetch codec store (order.keys hashes)

end

/-! ## What the calls leave in the store -/

variable {result : TxResult}

section

variable (codec : Codec)

/-- The writes of a result that can be encoded. -/
def writesOf (result : TxResult) : List Write :=
  match writes codec result with
  | .ok batch => batch
  | .error _ => []

def Encodes (result : TxResult) : Prop := ∃ rawBytes, codec.marshal result = .ok rawBytes

instance (result : TxResult) : Decidable (Encodes codec result) :=
  match h : codec.marshal result with
  | .ok rawBytes => isTrue ⟨rawBytes, h⟩
  | .error _ => isFalse fun ⟨_, hok⟩ => by rw [h] at hok; cases hok

/-- What a call indexes: all of its results or none. -/
def Call.indexed (call : Call) : List TxResult :=
  if ∀ result ∈ call.results, Encodes codec result then call.results else []

/-- The results that were indexed, in order. -/
def history (calls : List Call) : List TxResult := calls.flatMap (Call.indexed codec)

variable {codec}

def indexedAttribute (event : Event) (attr : EventAttribute) : Option (Bytes × Bytes) :=
  if attr.key = [] then none
  else if attr.index then some (compositeTag event attr, attr.value)
  else none

/-- The keys and values that are indexed. -/
def indexedAttributes (events : List Event) : List (Bytes × Bytes) := events.flatMap fun event =>
    if event.typ = [] then [] else event.attributes.filterMap (indexedAttribute event)

theorem indexEvents_eq (result : TxResult) (hash : Bytes) :
    indexEvents result hash = (indexedAttributes result.events).map fun attr =>
      ⟨keyForEvent attr.1 attr.2 result, hash⟩ := by
  rw [indexEvents, indexedAttributes, List.map_flatMap]
  congr 1
  funext event
  split
  case isTrue => rfl
  case isFalse =>
    rw [List.map_filterMap]
    congr 1
    funext attr
    rw [indexedAttribute]
    split
    case isTrue => rfl
    case isFalse => split <;> rfl

theorem writesOf_eq {rawBytes : Bytes} (hmarshal : codec.marshal result = .ok rawBytes) :
    writesOf codec result = indexEvents result (codec.hash result.tx) ++
      [⟨keyForHeight result, codec.hash result.tx⟩, ⟨codec.hash result.tx, rawBytes⟩] := by
  simp only [writesOf, writes, hmarshal]
  rfl

/-- The keys of the entries of a result. -/
def entryTexts (result : TxResult) : List Bytes :=
  (indexedAttributes result.events).map (fun attr => keyForEvent attr.1 attr.2 result) ++
    [keyForHeight result]

theorem mem_writesOf_iff {rawBytes : Bytes} {write : Write}
    (hmarshal : codec.marshal result = .ok rawBytes) :
    write ∈ writesOf codec result ↔
      (∃ text ∈ entryTexts result, write = ⟨text, codec.hash result.tx⟩) ∨
        write = ⟨codec.hash result.tx, rawBytes⟩ := by
  have hwrites : writesOf codec result =
      (entryTexts result).map (fun text => ⟨text, codec.hash result.tx⟩) ++
        [⟨codec.hash result.tx, rawBytes⟩] := by
    rw [writesOf_eq hmarshal, indexEvents_eq, entryTexts, List.map_append, List.map_map,
      List.append_assoc]
    rfl
  rw [hwrites, List.mem_append, List.mem_map, List.mem_singleton]
  simp only [eq_comm]

theorem writes_of_encodes (hencodes : Encodes codec result) :
    writes codec result = .ok (writesOf codec result) := by
  obtain ⟨rawBytes, hmarshal⟩ := hencodes
  rw [writesOf_eq hmarshal, writes, hmarshal]
  rfl

theorem writes_of_not_encodes (hencodes : ¬ Encodes codec result) :
    ∃ error, writes codec result = .error error := by
  cases hmarshal : codec.marshal result with
  | ok rawBytes => exact absurd ⟨rawBytes, hmarshal⟩ hencodes
  | error error =>
    refine ⟨error, ?_⟩
    rw [writes, hmarshal]
    rfl

variable {ops : List TxResult}

theorem mapM_writes (hops : ∀ result ∈ ops, Encodes codec result) :
    ops.mapM (writes codec) = .ok (ops.map (writesOf codec)) := by
  induction ops with
  | nil => rfl
  | cons result ops ih =>
    rw [List.forall_mem_cons] at hops
    rw [List.mapM_cons, writes_of_encodes hops.1, ih hops.2]
    rfl

theorem mapM_writes_error (hops : ¬ ∀ result ∈ ops, Encodes codec result) :
    ∃ error, ops.mapM (writes codec) = .error error := by
  induction ops with
  | nil => simp at hops
  | cons result ops ih =>
    rw [List.mapM_cons]
    by_cases hresult : Encodes codec result
    · obtain ⟨error, herror⟩ := ih fun hall => hops (List.forall_mem_cons.2 ⟨hresult, hall⟩)
      rw [writes_of_encodes hresult, herror]
      exact ⟨error, rfl⟩
    · obtain ⟨error, herror⟩ := writes_of_not_encodes hresult
      rw [herror]
      exact ⟨error, rfl⟩

/-- A call writes what it indexes. -/
theorem Call.after_eq (store : KVStore) (call : Call) :
    call.after codec store = store.commit ((call.indexed codec).flatMap (writesOf codec)) := by
  unfold Call.after Call.indexed
  cases call with
  | index result =>
    by_cases hresult : Encodes codec result
    · simp [Call.results, Call.perform, TxIndex.index, hresult, writes_of_encodes, bind,
        Except.bind, pure, Except.pure]
    · obtain ⟨error, herror⟩ := writes_of_not_encodes hresult
      simp [Call.results, Call.perform, TxIndex.index, hresult, herror, bind, Except.bind,
        KVStore.commit]
  | addBatch ops =>
    by_cases hops : ∀ result ∈ ops, Encodes codec result
    · have hresults : ∀ result ∈ (Call.addBatch ops).results, Encodes codec result := hops
      rw [if_pos hresults]
      simp [Call.results, Call.perform, TxIndex.addBatch, mapM_writes hops, bind,
        Except.bind, pure, Except.pure, List.flatMap]
    · obtain ⟨error, herror⟩ := mapM_writes_error hops
      have hresults : ¬ ∀ result ∈ (Call.addBatch ops).results, Encodes codec result := hops
      rw [if_neg hresults]
      simp [Call.perform, TxIndex.addBatch, herror, bind, Except.bind, KVStore.commit]

/-- The store holds the writes of the history. -/
theorem run_eq (outer : Bytes) (calls : List Call) : run codec outer calls =
      (KVStore.empty outer).commit ((history codec calls).flatMap (writesOf codec)) := by
  induction calls using List.reverseRecOn with
  | nil => rfl
  | append_singleton calls call ih =>
    have hstep : run codec outer (calls ++ [call]) = call.after codec (run codec outer calls) := by
      rw [run, List.foldl_append]
      rfl
    have hhistory : history codec (calls ++ [call]) =
        history codec calls ++ call.indexed codec := by
      simp [history]
    rw [hstep, Call.after_eq, ih, hhistory, List.flatMap_append, KVStore.commit_append]

variable {calls : List Call}

theorem encodes_of_mem_history (hresult : result ∈ history codec calls) : Encodes codec result := by
  obtain ⟨call, _, hindexed⟩ := List.mem_flatMap.1 hresult
  rw [Call.indexed] at hindexed
  split at hindexed
  case isTrue hall => exact hall result hindexed
  case isFalse => cases hindexed

/-- Every value is a hash or an encoding. -/
theorem value_of_get_run {outer key value : Bytes}
    (hget : (run codec outer calls).get key = some value) :
    ∃ result ∈ history codec calls,
      value = codec.hash result.tx ∨ codec.marshal result = .ok value := by
  rw [run_eq] at hget
  rcases KVStore.of_get_commit _ hget with hwrite | hempty
  · obtain ⟨result, hresult, hwrite⟩ := List.mem_flatMap.1 hwrite
    obtain ⟨rawBytes, hmarshal⟩ := encodes_of_mem_history hresult
    refine ⟨result, hresult, ?_⟩
    rcases (mem_writesOf_iff hmarshal).1 hwrite with ⟨text, _, heq⟩ | heq
    · exact .inl (congrArg Write.value heq)
    · have hvalue : value = rawBytes := congrArg Write.value heq
      rw [hvalue]
      exact .inr hmarshal
  · cases hempty

end

/-! ## The texts of the entries -/

/-- Every entry has a key and a value, either those of an indexed attribute or
`tx.height` and the height. -/
theorem mem_entryTexts_iff {text : Bytes} : text ∈ entryTexts result ↔
    ∃ attr, (attr ∈ indexedAttributes result.events ∨
      attr = (txHeightKey, int64Text result.height)) ∧ text = keyForEvent attr.1 attr.2 result := by
  rw [entryTexts, List.mem_append, List.mem_map, List.mem_singleton]
  constructor
  · rintro (⟨attr, hattr, rfl⟩ | rfl)
    · exact ⟨attr, .inl hattr, rfl⟩
    · exact ⟨_, .inr rfl, rfl⟩
  · rintro ⟨attr, hattr | rfl, rfl⟩
    · exact .inl ⟨attr, hattr, rfl⟩
    · exact .inr rfl

variable {left right left' right' : Bytes}

/-- The last separator divides a text in one way. -/
theorem append_separator_inj (hright : tagKeySeparator ∉ right) (hright' : tagKeySeparator ∉ right')
    (heq : left ++ tagKeySeparator :: right = left' ++ tagKeySeparator :: right') :
    left = left' ∧ right = right' := by
  rcases List.append_eq_append_iff.1 heq with ⟨middle, rfl, hmiddle⟩ | ⟨middle, rfl, hmiddle⟩
  · cases middle with
    | nil => simpa using hmiddle
    | cons byte middle =>
      have hmem : right = middle ++ tagKeySeparator :: right' := (List.cons.inj hmiddle).2
      rw [hmem] at hright
      simp at hright
  · cases middle with
    | nil => simpa using hmiddle.symm
    | cons byte middle =>
      have hmem : right' = middle ++ tagKeySeparator :: right := (List.cons.inj hmiddle).2
      rw [hmem] at hright'
      simp at hright'

/-- So does the first one, also in a text that another one starts with. -/
theorem append_separator_prefix (hleft : tagKeySeparator ∉ left) (hleft' : tagKeySeparator ∉ left')
    (hstart : left ++ tagKeySeparator :: right <+: left' ++ tagKeySeparator :: right') :
    left = left' ∧ right <+: right' := by
  induction left generalizing left' with
  | nil =>
    cases left' with
    | nil => exact ⟨rfl, (List.cons_prefix_cons.1 hstart).2⟩
    | cons byte left' => simp [(List.cons_prefix_cons.1 hstart).1] at hleft'
  | cons byte left ih =>
    rw [List.mem_cons, not_or] at hleft
    cases left' with
    | nil => exact absurd (List.cons_prefix_cons.1 hstart).1.symm hleft.1
    | cons byte' left' =>
      rw [List.mem_cons, not_or] at hleft'
      obtain ⟨rfl, hrest⟩ := List.cons_prefix_cons.1 hstart
      obtain ⟨rfl, hright⟩ := ih hleft.2 hleft'.2 hrest
      exact ⟨rfl, hright⟩

theorem not_mem_txHeightKey_separator : tagKeySeparator ∉ txHeightKey := by decide

theorem not_mem_natText_separator (n : ℕ) : tagKeySeparator ∉ natText n :=
  not_mem_natText (by decide) n

theorem not_mem_int64Text_separator (n : Int64) : tagKeySeparator ∉ int64Text n :=
  not_mem_intText (by decide) (by decide) n.toInt

/-- An entry tells the height and the index of its result. -/
theorem position_of_mem_entryTexts {other : TxResult} {text : Bytes}
    (hresult : text ∈ entryTexts result) (hother : text ∈ entryTexts other) :
    result.height = other.height ∧ result.index = other.index := by
  obtain ⟨attr, _, rfl⟩ := mem_entryTexts_iff.1 hresult
  obtain ⟨attr', _, heq⟩ := mem_entryTexts_iff.1 hother
  simp only [keyForEvent, ← List.cons_append, ← List.append_assoc] at heq
  obtain ⟨hrest, hindex⟩ := append_separator_inj (not_mem_natText_separator _)
    (not_mem_natText_separator _) heq
  obtain ⟨_, hheight⟩ := append_separator_inj (not_mem_int64Text_separator _)
    (not_mem_int64Text_separator _) hrest
  exact ⟨int64Text_injective hheight, UInt32.toNat_inj.1 (natText_injective hindex)⟩

theorem isPrefix_startKey {c : Condition} {height : Int64}
    (hheight : 0 < height → result.height = height) :
    startKeyForCondition c height <+: keyForEvent c.compositeKey (sprint c.operand) result := by
  rw [startKeyForCondition, keyForEvent]
  split
  · rename_i hpos
    exact ⟨natText result.index.toNat, by simp [startKey, hheight hpos]⟩
  · exact ⟨int64Text result.height ++ tagKeySeparator :: natText result.index.toNat,
      by simp [startKey]⟩

/-- Without separators in the fields, the start of an entry tells its key and value. -/
theorem of_isPrefix_startKey {c : Condition} {height : Int64} {attr : Bytes × Bytes}
    (hkey : tagKeySeparator ∉ c.compositeKey) (hoperand : tagKeySeparator ∉ sprint c.operand)
    (hattr : tagKeySeparator ∉ attr.1 ∧ tagKeySeparator ∉ attr.2)
    (hstart : startKeyForCondition c height <+: keyForEvent attr.1 attr.2 result) :
    attr = (c.compositeKey, sprint c.operand) ∧ (0 < height → result.height = height) := by
  have hfields (rest : Bytes) (hrest : c.compositeKey ++ tagKeySeparator ::
      (sprint c.operand ++ tagKeySeparator :: rest) <+: keyForEvent attr.1 attr.2 result) :
      attr = (c.compositeKey, sprint c.operand) ∧
        rest <+: int64Text result.height ++ tagKeySeparator :: natText result.index.toNat := by
    obtain ⟨hfirst, hrest⟩ := append_separator_prefix hkey hattr.1 hrest
    obtain ⟨hsecond, hrest⟩ := append_separator_prefix hoperand hattr.2 hrest
    exact ⟨Prod.ext hfirst.symm hsecond.symm, hrest⟩
  rw [startKeyForCondition] at hstart
  split at hstart
  · obtain ⟨hattr, hrest⟩ := hfields (int64Text height ++ [tagKeySeparator])
      (by simpa [startKey] using hstart)
    obtain ⟨htext, -⟩ := append_separator_prefix (not_mem_int64Text_separator _)
      (not_mem_int64Text_separator _) hrest
    exact ⟨hattr, fun _ => (int64Text_injective htext).symm⟩
  · rename_i hpos
    exact ⟨(hfields [] (by simpa [startKey] using hstart)).1, fun h => absurd h hpos⟩

end Dymint.TxIndex
