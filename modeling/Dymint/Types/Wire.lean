import Dymint.Types.Serialization

/-!
# Binary encodings

`MarshalBinary` and `UnmarshalBinary` of the `types` package.  The generated
protobuf code that turns messages into bytes is a parameter that carries its
law: what has been marshalled unmarshals to the same message.  Nil and empty
slices are not told apart.
-/

namespace Dymint.Types

open Procedure

/-- The generated `Marshal` and `Unmarshal` of a message type. -/
structure Wire (μ : Type) where
  marshal : μ → Except Error Bytes
  unmarshal : Bytes → Except Error μ
  unmarshal_marshal : ∀ message bytes, marshal message = .ok bytes → unmarshal bytes = .ok message

def Wire.decode {μ β : Type} (wire : Wire μ) (fromProto : μ → Result Error β)
    (data : Bytes) : Result Error β := do
  let message ← .ofExcept (wire.unmarshal data)
  fromProto message

/-- Decoding what has been encoded converts the message back. -/
theorem Wire.decode_marshal {μ β : Type} (wire : Wire μ) (fromProto : μ → Result Error β)
    {message : μ} {data : Bytes} (hdata : wire.marshal message = .ok data) :
    wire.decode fromProto data = fromProto message := by
  rw [decode, wire.unmarshal_marshal message data hdata]
  rfl

def Wire.only {μ : Type} [DecidableEq μ] (sample : μ) : Wire μ where
  marshal message :=
    if message = sample then .ok [] else .error (.new "unknown message")
  unmarshal _ := .ok sample
  unmarshal_marshal := by
    intro message bytes hbytes
    split at hbytes
    case isTrue hmessage => rw [hmessage]
    case isFalse => contradiction

theorem Wire.only_marshal {μ : Type} [DecidableEq μ] (sample : μ) :
    (Wire.only sample).marshal sample = .ok [] :=
  if_pos rfl

def Block.marshalBinary (wire : Wire Pb.Block) (block : Block) : Except Error Bytes :=
  wire.marshal block.toProto

def Block.unmarshalBinary (wire : Wire Pb.Block) (data : Bytes) : Result Error Block :=
  wire.decode Block.fromProto data

def Commit.marshalBinary (wire : Wire Pb.Commit) (commit : Commit) : Except Error Bytes :=
  wire.marshal commit.toProto

def Commit.unmarshalBinary (wire : Wire Pb.Commit) (data : Bytes) : Result Error Commit :=
  wire.decode Commit.fromProto data

def Batch.marshalBinary (wire : Wire Pb.Batch) (batch : Batch) : Except Error Bytes :=
  wire.marshal batch.toProto

def Batch.unmarshalBinary (wire : Wire Pb.Batch) (data : Bytes) : Result Error Batch :=
  wire.decode Batch.fromProto data

/-! ## What a decoded block keeps -/

structure Preserved (tm : Tendermint) (block decoded : Block) : Prop where
  hash : decoded.header.hash tm = block.header.hash tm
  signBytes : tm.marshalHeader (toABCIHeaderPB tm decoded.header) =
    tm.marshalHeader (toABCIHeaderPB tm block.header)
  txs : decoded.data.txs = block.data.txs
  whole : block.data.evidence = [] → decoded = block

theorem Block.withoutEvidence_of_nil {block : Block} (hevidence : block.data.evidence = []) :
    block.withoutEvidence = block := by
  obtain ⟨header, ⟨txs, roots, evidence⟩, lastCommit⟩ := block
  obtain rfl : evidence = [] := hevidence
  rfl

theorem preserved_withoutEvidence (tm : Tendermint) (block : Block) :
    Preserved tm block block.withoutEvidence where
  hash := rfl
  signBytes := rfl
  txs := rfl
  whole := Block.withoutEvidence_of_nil

theorem map_withoutEvidence {blocks : List Block}
    (hevidence : ∀ block ∈ blocks, block.data.evidence = []) :
    blocks.map Block.withoutEvidence = blocks := by
  calc
    blocks.map Block.withoutEvidence = blocks.map id := by
      apply List.map_congr_left
      intro block hblock
      exact Block.withoutEvidence_of_nil (hevidence block hblock)
    _ = blocks := List.map_id blocks

end Dymint.Types
