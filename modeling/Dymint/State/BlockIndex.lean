import Dymint.State.TxIndex

/-!
# The block index

`BlockerIndexer` stores the height of a block under a key for the height itself and under
one for every attribute of the events of BeginBlock and EndBlock that is marked for
indexing.  The keys are made by orderedcode, which is a parameter: it encodes strings and
integers one after another and reads them back.
-/

namespace Dymint.BlockIndex

open Procedure Dymint.Types Decimal KV Query Narrow
open TxIndex (Event EventAttribute compositeTag indexedAttribute indexedAttributes)

/-! ## Encodings -/

structure OrderedCode where
  appendString : Bytes → Bytes
  appendInt64 : Int64 → Bytes
  parseString : Bytes → Option (Bytes × Bytes)
  parseInt64 : Bytes → Option (Int64 × Bytes)

/-- `Parse` inverts `Append`, and strings are copied up to a final escape sequence: only the
bytes 0 and 255 are escaped. -/
structure OrderedCode.Lawful (code : OrderedCode) : Prop where
  parseString_append : ∀ text rest,
    code.parseString (code.appendString text ++ rest) = some (text, rest)
  parseInt64_append : ∀ value rest,
    code.parseInt64 (code.appendInt64 value ++ rest) = some (value, rest)
  appendString_cons : ∀ byte text, byte ≠ 0 → byte ≠ 255 →
    code.appendString (byte :: text) = byte :: code.appendString text

namespace OrderedCode.Reference

def appendString : Bytes → Bytes
  | [] => [0, 1]
  | byte :: text =>
    if byte = 0 then 0 :: 255 :: appendString text
    else if byte = 255 then 255 :: 0 :: appendString text
    else byte :: appendString text

def parseString : Bytes → Option (Bytes × Bytes)
  | [] => none
  | [_] => none
  | first :: second :: rest =>
    if first = 0 then
      if second = 1 then some ([], rest)
      else if second = 255 then (parseString rest).map fun (text, rest) => (0 :: text, rest)
      else none
    else if first = 255 then
      if second = 0 then (parseString rest).map fun (text, rest) => (255 :: text, rest)
      else none
    else (parseString (second :: rest)).map fun (text, rest) => (first :: text, rest)

theorem appendString_ne_nil (text : Bytes) : appendString text ≠ [] := by
  cases text with
  | nil => simp [appendString]
  | cons byte text =>
    rw [appendString]
    split
    · simp
    · split <;> simp

theorem parseString_append (text rest : Bytes) :
    parseString (appendString text ++ rest) = some (text, rest) := by
  induction text with
  | nil => rfl
  | cons byte text ih =>
    rw [appendString]
    split
    case isTrue hzero => simp [parseString, ih, hzero]
    case isFalse hzero =>
      split
      case isTrue hescape => simp [parseString, ih, hescape]
      case isFalse hescape =>
        obtain ⟨second, tail, htail⟩ := List.exists_cons_of_ne_nil (appendString_ne_nil text)
        rw [htail] at ih ⊢
        change parseString (byte :: second :: (tail ++ rest)) = _
        rw [parseString, if_neg hzero, if_neg hescape]
        change (parseString ((second :: tail) ++ rest)).map _ = _
        rw [ih]
        rfl

end OrderedCode.Reference

/-- Strings with escape sequences, and integers as such strings. -/
def OrderedCode.reference : OrderedCode where
  appendString := Reference.appendString
  appendInt64 value := Reference.appendString (int64Text value)
  parseString := Reference.parseString
  parseInt64 bz := do
    let (text, rest) ← Reference.parseString bz
    let value ← Decimal.parseInt64 text
    return (value, rest)

theorem OrderedCode.lawful_reference : OrderedCode.reference.Lawful where
  parseString_append := Reference.parseString_append
  parseInt64_append value rest := by
    simp only [reference, Reference.parseString_append, Option.bind_eq_bind, Option.bind_some,
      parseInt64_int64Text]
    rfl
  appendString_cons byte text hzero hescape := by
    simp only [reference, Reference.appendString, if_neg hzero, if_neg hescape]

/-- Go's `binary.PutUvarint`, for at most `fuel` bytes. -/
def putUvarint : ℕ → ℕ → Bytes
  | 0, _ => []
  | fuel + 1, x =>
    if x ≥ 128 then .ofNat (x % 128 + 128) :: putUvarint fuel (x / 128) else [.ofNat x]

/-- Go's `binary.Uvarint` from the byte with number `i` on; `none` if the bytes end too soon
or the number is too large. -/
def uvarint : Bytes → ℕ → Option ℕ
  | [], _ => none
  | byte :: rest, i =>
    if i = 10 then none
    else if byte.toNat < 128 then
      if i = 9 ∧ byte.toNat > 1 then none else some byte.toNat
    else (uvarint rest (i + 1)).map fun high => byte.toNat - 128 + 128 * high

/-- Go's `binary.PutVarint`: shift and complement are written in arithmetic. -/
def int64ToBytes (i : Int64) : Bytes :=
  putUvarint 10 (if i.toInt < 0 then (-2 * i.toInt - 1).toNat else (2 * i.toInt).toNat)

/-- Go's `binary.Varint`, without the number of bytes. -/
def int64FromBytes (bz : Bytes) : Int64 :=
  match uvarint bz 0 with
  | none => 0
  | some ux => .ofInt (if ux % 2 = 0 then ux / 2 else -(ux / 2 : ℤ) - 1)

/-! ## Keys -/

def blockHeightKey : Bytes := utf8 "block.height"

section

variable (code : OrderedCode)

def heightKey (height : Int64) : Bytes :=
  code.appendString blockHeightKey ++ code.appendInt64 height

def eventKey (compositeKey typ eventValue : Bytes) (height : Int64) : Bytes :=
  code.appendString compositeKey ++ (code.appendString eventValue ++
    (code.appendInt64 height ++ code.appendString typ))

def parseValueFromPrimaryKey (key : Bytes) : Option Bytes := do
  let (_, afterKey) ← code.parseString key
  let (height, remaining) ← code.parseInt64 afterKey
  if remaining.length ≠ 0 then none else some (int64Text height)

def parseValueFromEventKey (key : Bytes) : Option Bytes := do
  let (_, afterKey) ← code.parseString key
  let (eventValue, afterValue) ← code.parseString afterKey
  let (_, afterHeight) ← code.parseInt64 afterValue
  let (_, remaining) ← code.parseString afterHeight
  if remaining.length ≠ 0 then none else some eventValue

/-! ## Indexing -/

structure NewBlockHeader where
  height : Int64
  beginBlock : List Event
  endBlock : List Event
  deriving DecidableEq

def indexAttribute (typ : Bytes) (height : Int64) (event : Event) (attr : EventAttribute) :
    Except Error (List Write) :=
  if attr.key = [] then .ok []
  else if compositeTag event attr = blockHeightKey then
    .error (.new ("event type and attribute key \"block.height\" is reserved; " ++
      "please use a different key"))
  else if attr.index then
    .ok [⟨eventKey code (compositeTag event attr) typ attr.value height, int64ToBytes height⟩]
  else .ok []

def indexEvents (events : List Event) (typ : Bytes) (height : Int64) :
    Except Error (List Write) := do
  let writes ← events.mapM fun event =>
    if event.typ = [] then .ok []
    else event.attributes.mapM (indexAttribute code typ height event)
  return writes.flatten.flatten

def wrapErr {α : Type} (text : String) : Except Error α → Except Error α
  | .ok value => .ok value
  | .error error => .error (.wrap text error)

/-- The batch of one call. -/
def writes (bh : NewBlockHeader) : Except Error (List Write) := do
  let begins ← wrapErr "failed to index BeginBlock events"
    (indexEvents code bh.beginBlock (utf8 "begin_block") bh.height)
  let ends ← wrapErr "failed to index EndBlock events"
    (indexEvents code bh.endBlock (utf8 "end_block") bh.height)
  return ⟨heightKey code bh.height, int64ToBytes bh.height⟩ :: (begins ++ ends)

def index (store : KVStore) (bh : NewBlockHeader) : Except Error KVStore := do
  let batch ← writes code bh
  return store.commit batch

def after (store : KVStore) (bh : NewBlockHeader) : KVStore :=
  match index code store bh with
  | .ok next => next
  | .error _ => store

def run (outer : Bytes) (calls : List NewBlockHeader) : KVStore :=
  calls.foldl (after code) (.empty outer)

end

/-! ## Searching -/

section

variable (code : OrderedCode) (store : KVStore)

def has (height : Int64) : Bool := (store.get (heightKey code height)).isSome

def lookForHeight : List Condition → Result Error (Option Int64)
  | [] => .ok none
  | c :: conditions =>
    if c.compositeKey = blockHeightKey ∧ c.op = .opEqual then
      match c.operand with
      | some (.int64 height) => .ok (some height)
      | _ => .panic
    else lookForHeight conditions

/-- Whether `matchRange` takes an entry with this key. -/
def keepsInRange (qr : QueryRange) (lowerBound upperBound : Option Operand) (key : Bytes) :
    Result Error Bool :=
  let eventValue :=
    if qr.key = blockHeightKey then parseValueFromPrimaryKey code key
    else parseValueFromEventKey code key
  match eventValue with
  | none => return false
  | some text =>
    match qr.anyBound with
    | some (.int64 _) =>
      match parseInt64 text with
      | none => return false
      | some v => includes lowerBound upperBound v
    | _ => return false

def rangeHeights (qr : QueryRange) (startKey : Bytes) : Result Error (List Bytes) := do
  let lowerBound ← qr.lowerBoundValue
  let upperBound ← qr.upperBoundValue
  collect (keepsInRange code qr lowerBound upperBound) (store.prefixIterator startKey) []

def keepsContaining (operand : Option Operand) (key : Bytes) : Result Error Bool :=
  match parseValueFromEventKey code key with
  | none => return false
  | some text =>
    match operand with
    | some (.string part) => return decide (part <:+: text)
    | _ => .panic

def conditionHeights (c : Condition) (startKeyBz : Bytes) : Result Error (List Bytes) :=
  match c.op with
  | .opEqual => collect (fun _ => .ok true) (store.prefixIterator startKeyBz) []
  | .opExists =>
    collect (fun _ => .ok true) (store.prefixIterator (code.appendString c.compositeKey)) []
  | .opContains =>
    collect (keepsContaining code c.operand)
      (store.prefixIterator (code.appendString c.compositeKey)) []
  | _ => .err (.new "other operators should be handled already")

def matchRange (qr : QueryRange) (startKey : Bytes) (filteredHeights : List Bytes)
    (firstRun : Bool) : Result Error (List Bytes) :=
  narrow List.isEmpty (rangeHeights code store qr startKey) filteredHeights firstRun

def matchCondition (c : Condition) (startKeyBz : Bytes) (filteredHeights : List Bytes)
    (firstRun : Bool) : Result Error (List Bytes) :=
  narrow List.isEmpty (conditionHeights code store c startKeyBz) filteredHeights firstRun

def startKeyForCondition (c : Condition) : Bytes :=
  code.appendString c.compositeKey ++ code.appendString (sprint c.operand)

variable (order : MapOrder)

/-- The encoded heights that a search collects before it fetches them. -/
def filteredHeights (conditions : List Condition) : Result Error (List Bytes) := do
  let ranged ← loop
    ((order.ranges (lookForRanges conditions).1).map fun qr =>
      matchRange code store qr (code.appendString qr.key)) ⟨false, []⟩
  let matched ← loop
    ((remaining conditions).map fun c =>
      matchCondition code store c (startKeyForCondition code c)) ranged
  return matched.filtered

def fetch (heights : List Bytes) : List Int64 :=
  ((heights.map int64FromBytes).filter (has code store)).mergeSort
    fun left right => decide (left ≤ right)

def search (conditions : List Condition) : Result Error (List Int64) := do
  match ← lookForHeight conditions with
  | some height => return if has code store height then [height] else []
  | none =>
    let heights ← filteredHeights code store order conditions
    return fetch code store (order.keys heights)

end

/-! ## What the calls leave in the store -/

variable {batch : List Write}

section

variable (code : OrderedCode)

/-- What is written for a call that succeeds. -/
def writesOf (bh : NewBlockHeader) : List Write :=
  match writes code bh with
  | .ok batch => batch
  | .error _ => []

/-- The entry of an attribute. -/
def eventWrite (typ : Bytes) (height : Int64) (attr : Bytes × Bytes) : Write :=
  ⟨eventKey code attr.1 typ attr.2 height, int64ToBytes height⟩

def attributes (bh : NewBlockHeader) : List (Bytes × Bytes × Bytes) :=
  (indexedAttributes bh.beginBlock).map (Prod.mk (utf8 "begin_block")) ++
    (indexedAttributes bh.endBlock).map (Prod.mk (utf8 "end_block"))

variable {code}

theorem mapM_eq_ok {α β : Type} {f : α → Except Error β} {g : α → β}
    (hf : ∀ a b, f a = .ok b → b = g a) {as : List α} {bs : List β} (hmap : as.mapM f = .ok bs) :
    bs = as.map g := by
  induction as generalizing bs with
  | nil => exact (Except.ok.inj hmap).symm
  | cons a as ih =>
    rw [List.mapM_cons, except_bind_eq_ok] at hmap
    obtain ⟨b, hhead, hmap⟩ := hmap
    rw [except_bind_eq_ok] at hmap
    obtain ⟨rest, htail, hbs⟩ := hmap
    rw [← Except.ok.inj hbs, ih htail, hf a b hhead, List.map_cons]

theorem indexAttribute_eq_ok {typ : Bytes} {height : Int64} {event : Event} {attr : EventAttribute}
    (hindex : indexAttribute code typ height event attr = .ok batch) :
    batch = ((indexedAttribute event attr).map (eventWrite code typ height)).toList := by
  rw [indexAttribute] at hindex
  rw [indexedAttribute]
  split at hindex
  case isTrue hkey =>
    rw [if_pos hkey]
    exact (Except.ok.inj hindex).symm
  case isFalse hkey =>
    rw [if_neg hkey]
    split at hindex
    case isTrue => cases hindex
    case isFalse =>
      split at hindex
      case isTrue hmarked =>
        rw [if_pos hmarked]
        exact (Except.ok.inj hindex).symm
      case isFalse hmarked =>
        rw [if_neg hmarked]
        exact (Except.ok.inj hindex).symm

/-- A call that succeeds writes the entries of all attributes that are marked. -/
theorem indexEvents_eq_ok {events : List Event} {typ : Bytes} {height : Int64}
    (hindex : indexEvents code events typ height = .ok batch) :
    batch = (indexedAttributes events).map (eventWrite code typ height) := by
  rw [indexEvents, except_bind_eq_ok] at hindex
  obtain ⟨found, hfound, hbatch⟩ := hindex
  have hevent : found = events.map fun event =>
      if event.typ = [] then []
      else event.attributes.map fun attr =>
        ((indexedAttribute event attr).map (eventWrite code typ height)).toList := by
    refine mapM_eq_ok (fun event writes hwrites => ?_) hfound
    split at hwrites
    case isTrue htyp =>
      rw [if_pos htyp]
      exact (Except.ok.inj hwrites).symm
    case isFalse htyp =>
      rw [if_neg htyp]
      exact mapM_eq_ok (fun attr writes => indexAttribute_eq_ok) hwrites
  rw [← Except.ok.inj hbatch, hevent, List.flatten_flatten, List.map_map, indexedAttributes,
    List.map_flatMap, List.flatMap]
  congr 2
  funext event
  rw [Function.comp_apply]
  split
  case isTrue => rfl
  case isFalse =>
    rw [List.map_filterMap, List.filterMap_eq_flatMap_toList, List.flatMap]

theorem writes_eq_ok {bh : NewBlockHeader} (hwrites : writes code bh = .ok batch) :
    batch = ⟨heightKey code bh.height, int64ToBytes bh.height⟩ ::
      (attributes bh).map fun (typ, attr) => eventWrite code typ bh.height attr := by
  have hwrap {text : String} {result : Except Error (List Write)} {found : List Write}
      (hok : wrapErr text result = .ok found) : result = .ok found := by
    cases result with
    | ok value => exact hok
    | error error => cases hok
  rw [writes, except_bind_eq_ok] at hwrites
  obtain ⟨begins, hbegins, hwrites⟩ := hwrites
  rw [except_bind_eq_ok] at hwrites
  obtain ⟨ends, hends, hbatch⟩ := hwrites
  rw [← Except.ok.inj hbatch, indexEvents_eq_ok (hwrap hbegins),
    indexEvents_eq_ok (hwrap hends), attributes, List.map_append, List.map_map, List.map_map]
  rfl

theorem after_eq (store : KVStore) (bh : NewBlockHeader) :
    after code store bh = store.commit (writesOf code bh) := by
  rw [after, index, writesOf]
  cases writes code bh with
  | ok | error => rfl

theorem run_eq (outer : Bytes) (calls : List NewBlockHeader) :
    run code outer calls = (KVStore.empty outer).commit (calls.flatMap (writesOf code)) := by
  induction calls using List.reverseRecOn with
  | nil => rfl
  | append_singleton calls bh ih =>
    have hstep : run code outer (calls ++ [bh]) = after code (run code outer calls) bh := by
      rw [run, List.foldl_append]
      rfl
    rw [hstep, after_eq, ih, List.flatMap_append, KVStore.commit_append, List.flatMap_singleton]

@[simp]
theorem outer_run (outer : Bytes) (calls : List NewBlockHeader) :
    (run code outer calls).outer = outer := by
  rw [run_eq, KVStore.outer_commit]
  rfl

theorem mem_writesOf {bh : NewBlockHeader} {write : Write} (hwrite : write ∈ writesOf code bh) :
    write = ⟨heightKey code bh.height, int64ToBytes bh.height⟩ ∨
      ∃ typ attr, (typ, attr) ∈ attributes bh ∧ write = eventWrite code typ bh.height attr := by
  rw [writesOf] at hwrite
  split at hwrite
  case h_1 batch hwrites =>
    rw [writes_eq_ok hwrites, List.mem_cons, List.mem_map] at hwrite
    rcases hwrite with hheight | ⟨⟨typ, attr⟩, hattr, hwrite⟩
    · exact .inl hheight
    · exact .inr ⟨typ, attr, hattr, hwrite.symm⟩
  case h_2 => cases hwrite

theorem value_of_get_run {outer key value : Bytes} {calls : List NewBlockHeader}
    (hget : (run code outer calls).get key = some value) :
    ∃ height, value = int64ToBytes height := by
  rw [run_eq] at hget
  rcases KVStore.of_get_commit _ hget with hwrite | hempty
  · obtain ⟨bh, _, hwrite⟩ := List.mem_flatMap.1 hwrite
    refine ⟨bh.height, ?_⟩
    rcases mem_writesOf hwrite with heq | ⟨typ, attr, _, heq⟩
    · exact congrArg Write.value heq
    · exact congrArg Write.value heq
  · cases hempty

end

end Dymint.BlockIndex
