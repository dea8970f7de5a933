import Dymint.Block.Reference
import Dymint.Block.Submit
import Dymint.Settlement.DAPath

/-!
# Chunks of the genesis and integer parameters

The node cuts the JSON text of the genesis into chunks and serves them by number.  Numbers
reach the methods in two ways: from JSON, by `StrInt` and `StrInt64`, and from the URI, by
`setIntParam`.
-/

namespace Dymint.RPC

open Procedure Dymint.Types Decimal Settlement

/-! ## Chunks of the genesis -/

/-- `base64.StdEncoding`: what it encodes it decodes. -/
structure Base64 where
  encode : Bytes → String
  decode : String → Option Bytes
  decode_encode : ∀ data, decode (encode data) = some data

def genesisChunkSize : ℕ := 16 * 1024 * 1024

/-- The fields of the node that `initGenesisChunks` uses; without chunks the slice is nil. -/
structure GenesisNode where
  genesis : Option GenesisDoc
  genChunks : List String

variable (base64 : Base64)

def chunksFrom (data : Bytes) (i : ℕ) : List String :=
  if i < data.length then
    let stop := if i + genesisChunkSize > data.length then data.length else i + genesisChunkSize
    base64.encode ((data.drop i).take (stop - i)) :: chunksFrom data (i + genesisChunkSize)
  else []
termination_by data.length - i
decreasing_by
  rw [genesisChunkSize]
  omega

variable (marshal : GenesisDoc → Except Error Bytes)

def initGenesisChunks (node : GenesisNode) : Except Error GenesisNode :=
  if node.genChunks ≠ [] then .ok node
  else
    match node.genesis with
    | none => .ok node
    | some genesis => do
      let data ← marshal genesis
      return { node with genChunks := chunksFrom base64 data 0 }

structure ResultGenesisChunk where
  totalChunks : ℕ
  chunkNumber : Int64
  data : String
  deriving DecidableEq

def chunk (genChunks : List String) (id : UInt64) : Result Error ResultGenesisChunk :=
  let chunkLen := genChunks.length
  if chunkLen = 0 then
    .err (.new "service configuration error, genesis chunks are not initialized")
  else if id.toInt64.toInt > chunkLen - 1 then
    .err (.new s!"there are {chunkLen - 1} chunks, {id} is invalid")
  else
    match genChunks[id.toNat]? with
    | some data => .ok ⟨chunkLen, id.toInt64, data⟩
    | none => .panic

def genesisChunked (node : GenesisNode) (id : UInt64) : Result Error ResultGenesisChunk :=
  match initGenesisChunks base64 marshal node with
  | .error err => .err (.wrap "error while creating chunks of the genesis document" err)
  | .ok node => chunk node.genChunks id

variable {base64 : Base64} {marshal : GenesisDoc → Except Error Bytes} {data : Bytes}

theorem decode_chunksFrom (i : ℕ) :
    ((chunksFrom base64 data i).mapM base64.decode).map List.flatten = some (data.drop i) := by
  fun_induction chunksFrom base64 data i with
  | case1 i hlt stop ih =>
    obtain ⟨rest, hrest, hflat⟩ := Option.map_eq_some_iff.1 ih
    have hstop : stop = min data.length (i + genesisChunkSize) := by
      simp only [stop]
      split <;> omega
    have hpiece : (data.drop i).take (stop - i) = (data.drop i).take genesisChunkSize := by
      rw [List.take_eq_take_iff, List.length_drop]
      omega
    rw [List.mapM_cons, base64.decode_encode, hrest]
    simp only [Option.pure_def, Option.bind_eq_bind, Option.bind_some, Option.map_some,
      List.flatten_cons, hflat, hpiece]
    rw [← List.drop_drop, List.take_append_drop]
  | case2 i hge => simp [List.drop_of_length_le (not_lt.1 hge)]

theorem length_chunksFrom_le (i : ℕ) : (chunksFrom base64 data i).length ≤ data.length - i := by
  fun_induction chunksFrom base64 data i with
  | case1 i hlt stop ih =>
    have hsize : 1 ≤ genesisChunkSize := by decide
    rw [List.length_cons]
    omega
  | case2 i hge => exact Nat.zero_le _

theorem chunksFrom_ne_nil (hne : data ≠ []) : chunksFrom base64 data 0 ≠ [] := by
  rw [chunksFrom, if_pos (List.length_pos_of_ne_nil hne)]
  exact List.cons_ne_nil _ _

/-- The first request and later ones find the same chunks. -/
theorem genesisChunked_eq {genesis : GenesisDoc} {node : GenesisNode}
    (hdata : marshal genesis = .ok data)
    (hnode : node = ⟨some genesis, []⟩ ∨
      initGenesisChunks base64 marshal ⟨some genesis, []⟩ = .ok node) (id : UInt64) :
    genesisChunked base64 marshal node id = chunk (chunksFrom base64 data 0) id := by
  have hfresh : initGenesisChunks base64 marshal ⟨some genesis, []⟩ =
      .ok ⟨some genesis, chunksFrom base64 data 0⟩ := by
    rw [initGenesisChunks, if_neg (not_not.2 rfl)]
    simp only [hdata]
    rfl
  rw [genesisChunked]
  obtain rfl | hnode := hnode
  · rw [hfresh]
  · cases hnode.symm.trans hfresh
    by_cases hempty : chunksFrom base64 data 0 = []
    · rw [hempty, hfresh, hempty]
    · rw [initGenesisChunks, if_pos hempty]

theorem chunk_eq {chunks : List String} (hne : chunks ≠ []) (hlength : chunks.length < 2 ^ 63)
    (id : UInt64) :
    (∀ h : id.toNat < chunks.length,
      chunk chunks id = .ok ⟨chunks.length, id.toInt64, chunks[id.toNat]⟩) ∧
    (chunks.length ≤ id.toNat → id.toNat < 2 ^ 63 → ∃ error, chunk chunks id = .err error) ∧
    (2 ^ 63 ≤ id.toNat → chunk chunks id = .panic) := by
  have hpos := List.length_pos_of_ne_nil hne
  rw [chunk, if_neg hpos.ne', Submit.toInt_toInt64]
  refine ⟨fun hlt => ?_, fun hge hsmall => ?_, fun hlarge => ?_⟩
  · rw [if_pos (show id.toNat < 2 ^ 63 by omega), if_neg (by omega), List.getElem?_eq_getElem hlt]
  · rw [if_pos hsmall, if_pos (by omega)]
    exact ⟨_, rfl⟩
  · have hbound := id.toNat_lt
    rw [if_neg (not_lt.2 hlarge), if_neg (by omega), List.getElem?_eq_none (by omega)]

/-- The chunks below the total make up the JSON text of the genesis, larger numbers are
refused as long as they are positive as an `int`, and the others panic. -/
theorem genesis_chunks (base64 : Base64) (marshal : GenesisDoc → Except Error Bytes)
    (genesis : GenesisDoc) (data : Bytes) (node : GenesisNode)
    (hdata : marshal genesis = .ok data) (hne : data ≠ []) (hlength : data.length < 2 ^ 63)
    (hnode : node = ⟨some genesis, []⟩ ∨
      initGenesisChunks base64 marshal ⟨some genesis, []⟩ = .ok node) :
    ∃ chunks : List String, (chunks.mapM base64.decode).map List.flatten = some data ∧
      ∀ id : UInt64, (∀ h : id.toNat < chunks.length, genesisChunked base64 marshal node id =
          .ok ⟨chunks.length, id.toInt64, chunks[id.toNat]⟩) ∧
        (chunks.length ≤ id.toNat → id.toNat < 2 ^ 63 →
          ∃ error, genesisChunked base64 marshal node id = .err error) ∧
        (2 ^ 63 ≤ id.toNat → genesisChunked base64 marshal node id = .panic) := by
  refine ⟨chunksFrom base64 data 0, decode_chunksFrom 0, fun id => ?_⟩
  rw [genesisChunked_eq hdata hnode]
  exact chunk_eq (chunksFrom_ne_nil hne) ((length_chunksFrom_le 0).trans_lt hlength) id

namespace Reference

def bytewise : Base64 where
  encode data := .ofList (data.map fun byte => .ofNat byte.toNat)
  decode text := some (text.toList.map fun char => .ofNat char.toNat)
  decode_encode data := by
    have hbyte (byte : UInt8) : UInt8.ofNat (Char.ofNat byte.toNat).toNat = byte := by
      have hvalid : Nat.isValidChar byte.toNat := .inl (byte.toNat_lt.trans (by decide))
      have hchar : (Char.ofNat byte.toNat).toNat = byte.toNat := by
        rw [Char.ofNat, dif_pos hvalid]
        rfl
      rw [hchar, UInt8.ofNat_toNat]
    simp [Function.comp_def, hbyte]

def genesis : GenesisDoc := Manager.Reference.env.genesis

end Reference

theorem genesis_chunks_reference :
    ∃ chunks : List String, (chunks.mapM Reference.bytewise.decode).map List.flatten =
      some [123, 125] :=
  (genesis_chunks Reference.bytewise (fun _ => .ok [123, 125]) Reference.genesis [123, 125]
    ⟨some Reference.genesis, []⟩ rfl (by decide) (by decide) (.inl rfl)).imp fun _ h => h.1

/-- The number that the request parameter `-1` becomes. -/
theorem genesis_chunk_of_negative : (-1 : Int64).toUInt64.toNat = 2 ^ 64 - 1 ∧
    genesisChunked Reference.bytewise (fun _ => .ok [123, 125]) ⟨some Reference.genesis, []⟩
      (-1 : Int64).toUInt64 = .panic := by
  refine ⟨by decide, ?_⟩
  have hdata : (fun _ => .ok [123, 125] : GenesisDoc → Except Error Bytes) Reference.genesis =
      .ok [123, 125] := rfl
  rw [genesisChunked_eq hdata (.inl rfl)]
  refine (chunk_eq (chunksFrom_ne_nil (by decide)) ?_ _).2.2 (by decide)
  exact (length_chunksFrom_le 0).trans_lt (by decide)

/-! ## Integer parameters -/

inductive Json where
  | null
  | bool (value : Bool)
  | number (text : Bytes)
  | string (value : Bytes)
  | array (elements : List Json)
  | object (members : List (Bytes × Json))

/-- The dynamic types of an `interface{}` that the type switch tells apart. -/
inductive Dynamic where
  | int (value : Int64)
  | int64 (value : Int64)
  | string (value : Bytes)
  | other

inductive ParamError where
  | outOfRange
  | unsupportedValue
  | number (error : NumError)
  deriving DecidableEq

variable (inRange : Bytes → Bool)

/-- `json.Unmarshal` into an empty interface, where numbers become `float64`s. -/
def unmarshalInterface : Json → Except ParamError Dynamic
  | .number text => if inRange text then .ok .other else .error .outOfRange
  | .string value => .ok (.string value)
  | _ => .ok .other

/-- Go's `strconv.Atoi`. -/
def atoi (num : Bytes) : Except NumError Int64 :=
  match parseInt64 num with
  | some value => .ok value
  | none => .error ⟨"Atoi", num⟩

def unmarshalStrInt64 (b : Json) : Except ParamError Int64 := do
  let i ← unmarshalInterface inRange b
  match i with
  | .int v => .ok v
  | .int64 v => .ok v
  | .string v => (atoi v).mapError .number
  | .other => .error .unsupportedValue

/-- `StrInt.UnmarshalJSON`; an `int` has 64 bits. -/
def unmarshalStrInt (b : Json) : Except ParamError Int64 := unmarshalStrInt64 inRange b

def setIntParam (rawVal : Bytes) : Except NumError Int64 := Settlement.parseInt rawVal

/-- What the comment asks for: a proper int or a quoted int. -/
def ProperInt (b : Json) (n : Int64) : Prop := b = .number (int64Text n) ∨ b = .string (int64Text n)

section

variable {inRange : Bytes → Bool} {b : Json} {n : Int64}

theorem setIntParam_int64Text : setIntParam (int64Text n) = .ok n := by
  rw [setIntParam, Settlement.parseInt, parseInt64_int64Text]

theorem mapError_atoi_eq_ok {text : Bytes} :
    (atoi text).mapError ParamError.number = .ok n ↔ setIntParam text = .ok n := by
  rw [atoi, setIntParam, Settlement.parseInt]
  cases parseInt64 text <;> simp [Except.mapError]

theorem unmarshalStrInt64_number (text : Bytes) :
    ∃ error, unmarshalStrInt64 inRange (.number text) = .error error := by
  rw [unmarshalStrInt64, unmarshalInterface]
  cases inRange text
  · exact ⟨_, rfl⟩
  · exact ⟨_, rfl⟩

theorem unmarshalStrInt64_eq_ok : unmarshalStrInt64 inRange b = .ok n ↔
    ∃ text, b = .string text ∧ setIntParam text = .ok n := by
  cases b with
  | string text =>
    have hstring : unmarshalStrInt64 inRange (.string text) = (atoi text).mapError .number := rfl
    simp [hstring, mapError_atoi_eq_ok]
  | number text =>
    obtain ⟨error, herror⟩ := @unmarshalStrInt64_number inRange text
    simp [herror]
  | null | bool | array | object =>
    refine iff_of_false (fun h => by cases h) ?_
    rintro ⟨_, h, -⟩
    cases h

/-- A value is decoded as the comment says exactly if it is neither a proper int nor a
string with another text that the URI may hold for a number. -/
theorem unmarshalStrInt64_proper_iff : (∀ m, unmarshalStrInt64 inRange b = .ok m ↔ ProperInt b m) ↔
      (∀ m, b ≠ .number (int64Text m)) ∧
        ∀ text m, b = .string text → setIntParam text = .ok m → text = int64Text m := by
  constructor
  · refine fun hproper => ⟨fun m hnumber => ?_, fun text m hstring hparam => ?_⟩
    · obtain ⟨text, hstring, -⟩ := unmarshalStrInt64_eq_ok.1 ((hproper m).2 (.inl hnumber))
      cases hnumber.symm.trans hstring
    · rcases (hproper m).1 (unmarshalStrInt64_eq_ok.2 ⟨text, hstring, hparam⟩) with h | h
      · cases hstring.symm.trans h
      · cases hstring.symm.trans h
        rfl
  · rintro ⟨hnumber, hcanonical⟩ m
    rw [unmarshalStrInt64_eq_ok]
    constructor
    · rintro ⟨text, hstring, hparam⟩
      exact .inr (hcanonical text m hstring hparam ▸ hstring)
    · rintro (h | h)
      · exact absurd h (hnumber m)
      · exact ⟨_, h, setIntParam_int64Text⟩

end

/-- `StrInt64` and `StrInt` decode the quoted numbers that the URI may hold, to the same
numbers, and nothing else: a number that is not quoted is refused. -/
theorem strInt64_decodes_iff (inRange : Bytes → Bool) (b : Json) (n : Int64) :
    (unmarshalStrInt64 inRange b = .ok n ↔ ∃ text, b = .string text ∧ setIntParam text = .ok n) ∧
    (unmarshalStrInt inRange b = .ok n ↔ ∃ text, b = .string text ∧ setIntParam text = .ok n) ∧
    unmarshalStrInt64 inRange (.string (int64Text n)) = .ok n ∧
    (∀ text, ∃ error, unmarshalStrInt64 inRange (.number text) = .error error) ∧
    ((∀ m, unmarshalStrInt64 inRange b = .ok m ↔ ProperInt b m) ↔ (∀ m, b ≠ .number (int64Text m)) ∧
        ∀ text m, b = .string text → setIntParam text = .ok m → text = int64Text m) :=
  ⟨unmarshalStrInt64_eq_ok, unmarshalStrInt64_eq_ok,
    unmarshalStrInt64_eq_ok.2 ⟨_, rfl, setIntParam_int64Text⟩, unmarshalStrInt64_number,
    unmarshalStrInt64_proper_iff⟩

/-- The number 5 is refused in JSON and read from the URI. -/
theorem strInt64_number_refused : unmarshalStrInt64 (fun _ => true) (.number [53]) =
    .error .unsupportedValue ∧ setIntParam [53] = .ok 5 :=
  ⟨rfl, by decide +kernel⟩

end Dymint.RPC
