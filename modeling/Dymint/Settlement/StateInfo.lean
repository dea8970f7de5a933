import Dymint.Block.Submit
import Dymint.Settlement.DAPath

/-!
# State updates on the settlement layer

The hub client writes a batch as a state update: the first height, the number of
blocks, the path of the batch and a descriptor for every block.  It is read twice, from
the state that the hub stores and from the decimal attributes of the event that the hub
emits.  What the hub does in between is taken to be a copy of the fields.
-/

namespace Dymint.Settlement

open Procedure Dymint.Types Decimal Store Submit

inductive StatusCode where
  | unknown
  | success
  | timeout
  | error
  deriving DecidableEq

structure BatchMetaData where
  da : DAMetaData
  deriving DecidableEq

/-- `settlement.Batch`. -/
structure Batch where
  startHeight : UInt64
  endHeight : UInt64
  appHashes : List Hash
  metaData : BatchMetaData
  deriving DecidableEq

/-- `settlement.ResultRetrieveBatch`. -/
structure ResultRetrieveBatch where
  code : StatusCode
  message : String
  stateIndex : UInt64
  batch : Batch
  deriving DecidableEq

structure EventDataNewSettlementBatchAccepted where
  endHeight : UInt64
  stateIndex : UInt64
  deriving DecidableEq

structure BlockDescriptor where
  height : UInt64
  stateRoot : Bytes
  intermediateStatesRoot : Bytes
  deriving DecidableEq

structure MsgUpdateState where
  creator : Bytes
  rollappId : Bytes
  startHeight : UInt64
  numBlocks : UInt64
  daPath : Bytes
  version : UInt64
  bds : List BlockDescriptor
  deriving DecidableEq

/-- The fields of the hub's `StateInfo` that the client reads. -/
structure StateInfo where
  stateInfoIndex : UInt64
  startHeight : UInt64
  numBlocks : UInt64
  daPath : Bytes
  deriving DecidableEq

def dymRollappVersion : UInt64 := 0

def blockDescriptor (block : Block) : BlockDescriptor where
  height := block.header.height
  stateRoot := block.header.appHash.bytes
  intermediateStatesRoot := List.replicate 32 0

def convertBatchToMsgUpdateState (address : Result Error Bytes) (rollappID : Bytes)
    (batch : Types.Batch) (daClient : Bytes) (daHeight : UInt64) :
    Result Error MsgUpdateState := do
  let addr ← address
  return {
    creator := addr
    rollappId := rollappID
    startHeight := batch.startHeight
    numBlocks := batch.endHeight - batch.startHeight + 1
    daPath := DAMetaData.toPath ⟨daHeight, daClient⟩
    version := dymRollappVersion
    bds := batch.blocks.map blockDescriptor }

def convertStateInfoToResultRetrieveBatch (stateInfo : StateInfo) :
    Result NumError ResultRetrieveBatch := do
  let daMetaData ← DAMetaData.fromPath stateInfo.daPath
  return {
    code := .success
    message := ""
    stateIndex := stateInfo.stateInfoIndex
    batch := {
      startHeight := stateInfo.startHeight
      endHeight := stateInfo.startHeight + stateInfo.numBlocks - 1
      appHashes := []
      metaData := ⟨daMetaData⟩ } }

abbrev Events := String → List Bytes

/-- `rawEventData.Events[key][0]`. -/
def Events.first (events : Events) (key : String) : Result (List NumError) Bytes :=
  match events key with
  | value :: _ => .ok value
  | [] => .panic

/-- The errors that `multierror.Append` collects. -/
def appendErrors (results : List (Except NumError Int64)) : List NumError := results.filterMap fun
    | .error error => some error
    | .ok _ => none

def convertToNewBatchEvent (events : Events) :
    Result (List NumError) EventDataNewSettlementBatchAccepted := do
  let numBlocks := parseInt (← events.first "state_update.num_blocks")
  let startHeight := parseInt (← events.first "state_update.start_height")
  let stateIndex := parseInt (← events.first "state_update.state_info_index")
  match numBlocks, startHeight, stateIndex with
  | .ok num, .ok start, .ok index => return ⟨(start + num - 1).toUInt64, index.toUInt64⟩
  | _, _, _ => .err (appendErrors [numBlocks, startHeight, stateIndex])

/-! ## What the hub keeps of a state update -/

def MsgUpdateState.stateInfo (msg : MsgUpdateState) (index : UInt64) : StateInfo :=
  ⟨index, msg.startHeight, msg.numBlocks, msg.daPath⟩

def StateInfo.events (info : StateInfo) : Events
  | "state_update.num_blocks" => [uint64Text info.numBlocks]
  | "state_update.start_height" => [uint64Text info.startHeight]
  | "state_update.state_info_index" => [uint64Text info.stateInfoIndex]
  | _ => []

theorem parseInt_uint64Text {n : UInt64} (hlt : n.toNat < 2 ^ 63) :
    parseInt (uint64Text n) = .ok n.toInt64 := by
  rw [parseInt, parseInt64_uint64Text hlt]

theorem add_length_sub_one (start last : UInt64) : start + (last - start + 1) - 1 = last := by
  grind

theorem toUInt64_add_sub_one (start num : UInt64) :
    (start.toInt64 + num.toInt64 - 1).toUInt64 = start + num - 1 := by
  rw [Int64.toUInt64_sub, Int64.toUInt64_add, UInt64.toUInt64_toInt64, UInt64.toUInt64_toInt64]
  rfl

theorem toNat_length {start last : UInt64} (hstart : 1 ≤ start.toNat) (hle : start ≤ last)
    (hlast : last.toNat < 2 ^ 63) : (last - start + 1).toNat < 2 ^ 63 := by
  have hle' := UInt64.le_iff_toNat_le.1 hle
  rw [UInt64.toNat_add, UInt64.toNat_sub_of_le _ _ hle, UInt64.toNat_one]
  omega

theorem convertToNewBatchEvent_events {info : StateInfo} (hnum : info.numBlocks.toNat < 2 ^ 63)
    (hstart : info.startHeight.toNat < 2 ^ 63) (hindex : info.stateInfoIndex.toNat < 2 ^ 63) :
    convertToNewBatchEvent info.events =
      .ok ⟨info.startHeight + info.numBlocks - 1, info.stateInfoIndex⟩ := by
  simp only [convertToNewBatchEvent, Events.first, StateInfo.events, Result.ok_bind,
    parseInt_uint64Text hnum, parseInt_uint64Text hstart, parseInt_uint64Text hindex,
    toUInt64_add_sub_one, UInt64.toUInt64_toInt64]
  rfl

/-! ## Readings of a submitted batch -/

def ReadingsAgree (msg : MsgUpdateState) (index : UInt64) (batch : Types.Batch)
    (d : DAMetaData) : Prop :=
  convertStateInfoToResultRetrieveBatch (msg.stateInfo index) =
      .ok ⟨.success, "", index, ⟨batch.startHeight, batch.endHeight, [], ⟨d⟩⟩⟩ ∧
    convertToNewBatchEvent (msg.stateInfo index).events = .ok ⟨batch.endHeight, index⟩

/-- The descriptors are those of `NumBlocks` successive heights. -/
def DescribesRange (msg : MsgUpdateState) : Prop := msg.numBlocks.toNat = msg.bds.length ∧
    msg.bds.map (·.height) = heights msg.startHeight msg.bds.length

section

variable {batch : Types.Batch} {d : DAMetaData} {rollappID addr : Bytes} {msg : MsgUpdateState}

theorem readingsAgree {latestHeight index : UInt64}
    (hvalid : validateBatch latestHeight batch = .ok ()) (hlatest : latestHeight.toNat < 2 ^ 63)
    (hend : batch.endHeight.toNat < 2 ^ 63) (hclient : d.client ≠ []) (hdot : dot ∉ d.client)
    (hindex : index.toNat < 2 ^ 63)
    (hmsg : convertBatchToMsgUpdateState (.ok addr) rollappID batch d.client d.height = .ok msg) :
    ReadingsAgree msg index batch d := by
  obtain rfl := Result.ok.inj hmsg
  obtain ⟨hstart, hle⟩ := validateBatch_eq_ok.1 hvalid
  have hpos : 1 ≤ batch.startHeight.toNat := by
    rw [hstart, UInt64.toNat_add, UInt64.toNat_one]
    omega
  have hstart' : batch.startHeight.toNat < 2 ^ 63 := (UInt64.le_iff_toNat_le.1 hle).trans_lt hend
  constructor
  · simp only [convertStateInfoToResultRetrieveBatch, MsgUpdateState.stateInfo]
    rw [DAMetaData.fromPath_toPath hclient hdot, add_length_sub_one]
    rfl
  · rw [convertToNewBatchEvent_events (toNat_length hpos hle hend) hstart' hindex]
    simp only [MsgUpdateState.stateInfo, add_length_sub_one]

theorem map_height_of_map_loadBlock {tm : Tendermint} {db : Db} (hhash : HashesHeight tm)
    (hsaved : SavedBlocks tm db) {heights : List UInt64} {blocks : List Block}
    (hload : heights.map (loadBlock db) = blocks.map .ok) :
    blocks.map (·.header.height) = heights := by
  induction heights generalizing blocks with
  | nil =>
    rw [List.map_eq_nil_iff.1 hload.symm]
    rfl
  | cons height heights ih =>
    cases blocks with
    | nil => cases hload
    | cons block blocks =>
      rw [List.map_cons, List.map_cons] at hload
      injection hload with hhead htail
      rw [List.map_cons, ih htail, hsaved.height_eq hhash hhead]

theorem describesRange {tm : Tendermint} {db : Db} (hhash : HashesHeight tm)
    (hsaved : SavedBlocks tm db) {limits : Limits} {reader : Reader} (hreads : reader.Reads db)
    {start last : UInt64} (hcreate : createNextDABatch limits reader start last = .ok batch)
    (hmsg : convertBatchToMsgUpdateState (.ok addr) rollappID batch d.client d.height = .ok msg) :
    DescribesRange msg := by
  obtain ⟨_, count, final, hcut, rfl⟩ := cut_of_createNextDABatch hreads hcreate
  obtain rfl := Result.ok.inj hmsg
  have hheights := map_height_of_map_loadBlock hhash hsaved hcut.blocks
  have hlength : final.blocks.length = count := hcut.toFilled.length.1
  have hcount : count < 2 ^ 64 :=
    hcut.toFilled.count_le.trans_lt limits.blockBatchMaxSizeBytes.toNat_lt
  constructor
  · have hnum : start + UInt64.ofNat count - 1 - final.startHeight + 1 = UInt64.ofNat count := by
      rw [hcut.startHeight]
      grind
    simp only [List.length_map, hlength, hnum, UInt64.toNat_ofNat']
    exact Nat.mod_eq_of_lt hcount
  · rw [List.map_map, List.length_map, hlength, hcut.startHeight, ← hheights]
    rfl

end

/-- Both readings of the state update of a validated batch agree with the batch, for every
non-empty client name without dots and heights and indexes below `2 ^ 63`; and a batch
that `createNextDABatch` builds from saved blocks has a descriptor for every height. -/
theorem state_update_readings_agree (rollappID addr : Bytes) (d : DAMetaData)
    (batch : Types.Batch) :
    ∃ msg, convertBatchToMsgUpdateState (.ok addr) rollappID batch d.client d.height = .ok msg ∧
      (∀ latestHeight index : UInt64, validateBatch latestHeight batch = .ok () →
        latestHeight.toNat < 2 ^ 63 → batch.endHeight.toNat < 2 ^ 63 →
        d.client ≠ [] → dot ∉ d.client → index.toNat < 2 ^ 63 → ReadingsAgree msg index batch d) ∧
      ∀ (tm : Tendermint) (db : Db) (limits : Limits) (reader : Reader)
        (start last : UInt64), HashesHeight tm → SavedBlocks tm db → reader.Reads db →
        createNextDABatch limits reader start last = .ok batch → DescribesRange msg := by
  refine ⟨_, rfl, ?_, ?_⟩
  · intro latestHeight index hvalid hlatest hend hclient hdot hindex
    exact readingsAgree hvalid hlatest hend hclient hdot hindex rfl
  · intro tm db limits reader start last hhash hsaved hreads hcreate
    exact describesRange hhash hsaved hreads hcreate rfl

/-- A batch of one block from the reference store, found at height 9 of the layer. -/
theorem state_update_readings_agree_reference : ∃ batch, createNextDABatch Submit.Reference.oneBlock
        (Reader.ofDb Submit.Reference.store) 1 2 = .ok batch ∧ batch.blocks.length = 1 ∧
      ∃ msg, ReadingsAgree msg 4 batch ⟨9, utf8 "celestia"⟩ ∧ DescribesRange msg := by
  obtain ⟨batch, hcreate, hlength, hvalid, hend⟩ :
      ∃ batch, createNextDABatch Submit.Reference.oneBlock
          (Reader.ofDb Submit.Reference.store) 1 2 = .ok batch ∧
        batch.blocks.length = 1 ∧ validateBatch 0 batch = .ok () ∧
        batch.endHeight.toNat < 2 ^ 63 := by
    refine ⟨⟨1, 1, [Submit.Reference.block 1 [[1]]],
      [Types.Reference.commitFor (Submit.Reference.block 1 [[1]]).header]⟩, ?_, rfl, ?_, ?_⟩
    · decide
    · decide
    · decide
  have hsaved : SavedBlocks Types.Reference.tendermint Submit.Reference.store :=
    .save _ _ (.save _ _ .empty)
  have hhash : HashesHeight Types.Reference.tendermint :=
    fun _ _ => Types.Reference.height_eq_of_headerHash_eq
  obtain ⟨msg, _, hagree, hrange⟩ := state_update_readings_agree (utf8 "rollapp")
    (utf8 "dym1") ⟨9, utf8 "celestia"⟩ batch
  exact ⟨batch, hcreate, hlength, msg,
    hagree 0 4 hvalid (by decide) hend (by decide) (by decide) (by decide),
    hrange _ _ _ _ _ _ hhash hsaved (Reader.ofDb_reads _) hcreate⟩

/-- A name without dots may be empty, and then the path cannot be read; and a batch that
starts at height 0 may have `2 ^ 63` blocks, which is not an `int64`. -/
theorem state_update_readings_differ :
    (∃ msg, convertBatchToMsgUpdateState (.ok []) [] ⟨1, 1, [], []⟩ [] 5 = .ok msg ∧
      validateBatch 0 ⟨1, 1, [], []⟩ = .ok () ∧
      convertStateInfoToResultRetrieveBatch (msg.stateInfo 1) = .panic) ∧
    ∃ msg, convertBatchToMsgUpdateState (.ok []) [] ⟨0, 9223372036854775807, [], []⟩
        (utf8 "mock") 5 = .ok msg ∧
      validateBatch 18446744073709551615 ⟨0, 9223372036854775807, [], []⟩ = .ok () ∧
      convertToNewBatchEvent (msg.stateInfo 1).events =
        .err [⟨"ParseInt", utf8 "9223372036854775808"⟩] := by
  refine ⟨⟨_, rfl, ?_, ?_⟩, _, rfl, ?_, ?_⟩
  · decide +kernel
  · decide +kernel
  · decide +kernel
  · decide +kernel

end Dymint.Settlement
