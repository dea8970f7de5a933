import Dymint.DA.Celestia
import Dymint.Types.Size
import Mathlib.Algebra.Order.BigOperators.Group.List

/-!
# Batches from Avail

`RetrieveBatches` of the Avail client decodes the arguments of the extrinsics that
submit data for the application.  Its loop removes as many bytes from the data as the
decoded message has when it is encoded again.  The generated `Unmarshal` and `Size` are
parameters.
-/

namespace Dymint.DA.Avail

open Procedure Dymint.Types Manager

structure Extrinsic where
  appID : Int64
  sectionIndex : UInt8
  methodIndex : UInt8
  args : Bytes
  deriving DecidableEq

def dataCallSectionIndex : UInt8 := 29

def dataCallMethodIndex : UInt8 := 1

def Extrinsic.Matches (appID : Int64) (ext : Extrinsic) : Prop :=
  ext.appID = appID ∧ ext.sectionIndex = dataCallSectionIndex ∧
    ext.methodIndex = dataCallMethodIndex

instance (appID : Int64) (ext : Extrinsic) : Decidable (ext.Matches appID) :=
  inferInstanceAs (Decidable (_ ∧ _ ∧ _))

/-- How a loop is left: with a value, by the panic of a conversion that fails, or by the
panic of a slice beyond the data. -/
inductive Exit (β : Type) where
  | done (value : β)
  | malformed
  | outOfRange
  deriving DecidableEq

section

variable (unmarshal : Bytes → Except Error Pb.Batch) (size : Pb.Batch → ℕ)

/-- The loop over the data of one extrinsic, for at most `fuel` rounds. -/
def decodeLoop : ℕ → Bytes → List Batch → Option (Exit (List Batch))
  | 0, _, _ => none
  | fuel + 1, data, batches =>
    if data.length > 0 then
      match unmarshal data with
      -- `continue`, with the same data
      | .error _ => decodeLoop fuel data batches
      | .ok pbBatch =>
        match Batch.fromProto pbBatch with
        | .err _ => decodeLoop fuel data batches
        | .panic => some .malformed
        | .ok batch =>
          if size pbBatch ≤ data.length then
            decodeLoop fuel (data.drop (size pbBatch)) (batches ++ [batch])
          else some .outOfRange
    else some (.done batches)

def decodeExtrinsics (appID : Int64) (fuel : ℕ) :
    List Extrinsic → List Batch → Option (Exit (List Batch))
  | [], batches => some (.done batches)
  | ext :: exts, batches =>
    if ext.Matches appID then
      match decodeLoop unmarshal size fuel ext.args batches with
      | some (.done decoded) => decodeExtrinsics appID fuel exts decoded
      | other => other
    else decodeExtrinsics appID fuel exts batches

def retrieveBatches (appID : Int64) (fuel : ℕ) (block : Except Error (List Extrinsic)) :
    Option (Exit ResultRetrieveBatch) :=
  match block with
  | .error error => some (.done ⟨.error, errorText error, []⟩)
  | .ok extrinsics =>
    match decodeExtrinsics unmarshal size appID fuel extrinsics [] with
    | none => none
    | some (.done batches) => some (.done ⟨.success, "", batches.map some⟩)
    | some .malformed => some .malformed
    | some .outOfRange => some .outOfRange

end

/-! ## Data that is consumed -/

section

variable (unmarshal : Bytes → Except Error Pb.Batch) (size : Pb.Batch → ℕ)

def Leaves (data : Bytes) (batches : List Batch) : Prop :=
  ∃ fuel exit, decodeLoop unmarshal size fuel data batches = some exit ∧ exit ≠ .outOfRange

/-- As far as the messages can be converted, all of the data decodes, and the size of every
message is positive and at most that of what is left. -/
inductive Consumable : Bytes → Prop where
  | empty : Consumable []
  | malformed {data : Bytes} {pbBatch : Pb.Batch} (hne : data ≠ [])
      (hdecode : unmarshal data = .ok pbBatch) (hmalformed : ¬ pbBatch.WellFormed) :
      Consumable data
  | next {data : Bytes} {pbBatch : Pb.Batch} (hne : data ≠ [])
      (hdecode : unmarshal data = .ok pbBatch) (hpos : 0 < size pbBatch)
      (hle : size pbBatch ≤ data.length) (hrest : Consumable (data.drop (size pbBatch))) :
      Consumable data

end

section

variable {unmarshal : Bytes → Except Error Pb.Batch} {size : Pb.Batch → ℕ} {fuel : ℕ}
  {data : Bytes} {batches : List Batch} {pbBatch : Pb.Batch}

theorem decodeLoop_nil : decodeLoop unmarshal size (fuel + 1) [] batches =
    some (.done batches) := rfl

section

variable (hne : data ≠ [])

include hne

theorem decodeLoop_error {error : Error}
    (hdecode : unmarshal data = .error error) :
    decodeLoop unmarshal size (fuel + 1) data batches =
      decodeLoop unmarshal size fuel data batches := by
  rw [decodeLoop, if_pos (List.length_pos_iff.2 hne), hdecode]

theorem decodeLoop_malformed (hdecode : unmarshal data = .ok pbBatch)
    (hmalformed : ¬ pbBatch.WellFormed) :
    decodeLoop unmarshal size (fuel + 1) data batches = some .malformed := by
  have hpanic : Batch.fromProto pbBatch = .panic :=
    not_not.1 (mt Batch.fromProto_ne_panic.1 hmalformed)
  rw [decodeLoop, if_pos (List.length_pos_iff.2 hne), hdecode]
  dsimp only
  rw [hpanic]

theorem decodeLoop_ok (hdecode : unmarshal data = .ok pbBatch) {batch : Batch}
    (hbatch : Batch.fromProto pbBatch = .ok batch) :
    decodeLoop unmarshal size (fuel + 1) data batches =
      if size pbBatch ≤ data.length then
        decodeLoop unmarshal size fuel (data.drop (size pbBatch)) (batches ++ [batch])
      else some .outOfRange := by
  rw [decodeLoop, if_pos (List.length_pos_iff.2 hne), hdecode]
  dsimp only
  rw [hbatch]

theorem decodeLoop_eq_none_of_error {error : Error}
    (hdecode : unmarshal data = .error error) :
    decodeLoop unmarshal size fuel data batches = none := by
  induction fuel with
  | zero => rfl
  | succ fuel ih => rw [decodeLoop_error hne hdecode, ih]

theorem decodeLoop_eq_none_of_size_zero (hdecode : unmarshal data = .ok pbBatch)
    (hwell : pbBatch.WellFormed) (hsize : size pbBatch = 0) :
    decodeLoop unmarshal size fuel data batches = none := by
  obtain ⟨batch, hbatch⟩ := Batch.fromProto_succeeds.2 hwell
  induction fuel generalizing batches with
  | zero => rfl
  | succ fuel ih =>
    rw [decodeLoop_ok hne hdecode hbatch, hsize, if_pos (Nat.zero_le _), List.drop_zero, ih]

end

theorem exists_exit_of_consumable (hdata : Consumable unmarshal size data)
    (hfuel : data.length < fuel) :
    ∃ exit, decodeLoop unmarshal size fuel data batches = some exit ∧ exit ≠ .outOfRange := by
  induction hdata generalizing fuel batches with
  | empty =>
    obtain ⟨fuel, rfl⟩ := Nat.exists_eq_add_of_lt hfuel
    exact ⟨.done batches, decodeLoop_nil, by simp⟩
  | malformed hne hdecode hmalformed =>
    obtain ⟨fuel, rfl⟩ := Nat.exists_eq_add_of_lt hfuel
    exact ⟨.malformed, decodeLoop_malformed hne hdecode hmalformed, by simp⟩
  | @next data pbBatch hne hdecode hpos hle _ ih =>
    obtain ⟨fuel, rfl⟩ := Nat.exists_eq_add_of_lt hfuel
    by_cases hwell : pbBatch.WellFormed
    · obtain ⟨batch, hbatch⟩ := Batch.fromProto_succeeds.2 hwell
      have hshorter : (data.drop (size pbBatch)).length < data.length + fuel := by
        have hlength := List.length_pos_iff.2 hne
        rw [List.length_drop]
        omega
      rw [decodeLoop_ok hne hdecode hbatch, if_pos hle]
      exact ih hshorter
    · exact ⟨.malformed, decodeLoop_malformed hne hdecode hwell, by simp⟩

theorem consumable_of_exit {exit : Exit (List Batch)}
    (hexit : decodeLoop unmarshal size fuel data batches = some exit)
    (hrange : exit ≠ .outOfRange) : Consumable unmarshal size data := by
  induction fuel generalizing data batches with
  | zero => cases hexit
  | succ fuel ih =>
    by_cases hne : data = []
    · rw [hne]
      exact .empty
    · cases hdecode : unmarshal data with
      | error error =>
        rw [decodeLoop_eq_none_of_error hne hdecode] at hexit
        cases hexit
      | ok pbBatch =>
        by_cases hwell : pbBatch.WellFormed
        · obtain ⟨batch, hbatch⟩ := Batch.fromProto_succeeds.2 hwell
          have hpos : 0 < size pbBatch := by
            by_contra hzero
            rw [decodeLoop_eq_none_of_size_zero hne hdecode hwell (by omega)] at hexit
            cases hexit
          rw [decodeLoop_ok hne hdecode hbatch] at hexit
          split at hexit
          case isTrue hle => exact .next hne hdecode hpos hle (ih hexit)
          case isFalse => exact absurd (Option.some.inj hexit).symm hrange
        · exact .malformed hne hdecode hwell

theorem leaves_iff_consumable :
    Leaves unmarshal size data batches ↔ Consumable unmarshal size data := by
  constructor
  · rintro ⟨fuel, exit, hexit, hrange⟩
    exact consumable_of_exit hexit hrange
  · intro hdata
    obtain ⟨exit, hexit, hrange⟩ := exists_exit_of_consumable hdata (Nat.lt_succ_self data.length)
    exact ⟨data.length + 1, exit, hexit, hrange⟩

/-- With a round for every byte of the longest argument, the extrinsics are decoded. -/
theorem decodeExtrinsics_of_consumable {appID : Int64} {exts : List Extrinsic}
    (hexts : ∀ ext ∈ exts, ext.Matches appID → Consumable unmarshal size ext.args)
    (hfuel : ∀ ext ∈ exts, ext.args.length < fuel) :
    ∃ exit, decodeExtrinsics unmarshal size appID fuel exts batches = some exit ∧
      exit ≠ .outOfRange := by
  induction exts generalizing batches with
  | nil => exact ⟨.done batches, rfl, by simp⟩
  | cons ext exts ih =>
    rw [List.forall_mem_cons] at hexts hfuel
    have hrest := fun batches => @ih batches hexts.2 hfuel.2
    rw [decodeExtrinsics]
    split
    case isFalse => exact hrest batches
    case isTrue hmatches =>
      obtain ⟨exit, hexit, hrange⟩ : ∃ exit,
          decodeLoop unmarshal size fuel ext.args batches = some exit ∧ exit ≠ .outOfRange :=
        exists_exit_of_consumable (hexts.1 hmatches) hfuel.1
      rw [hexit]
      cases exit with
      | done decoded => exact hrest decoded
      | malformed => exact ⟨.malformed, rfl, by simp⟩
      | outOfRange => exact absurd rfl hrange

def rounds (exts : List Extrinsic) : ℕ := (exts.map fun ext => ext.args.length).sum + 1

theorem length_lt_rounds {exts : List Extrinsic} {ext : Extrinsic} (hext : ext ∈ exts) :
    ext.args.length < rounds exts :=
  Nat.lt_succ_of_le (List.le_sum_of_mem (List.mem_map_of_mem hext))

end

/-- The loop over an argument is left without a slice beyond the data if and only if the
argument is consumable; and if the arguments of all matching extrinsics are, then
`RetrieveBatches` returns or panics because a message cannot be converted. -/
theorem decoding_terminates_iff_consumable (unmarshal : Bytes → Except Error Pb.Batch)
    (size : Pb.Batch → ℕ) (appID : Int64) (exts : List Extrinsic) :
    (∀ ext ∈ exts, ext.Matches appID → ∀ batches,
      (Leaves unmarshal size ext.args batches ↔ Consumable unmarshal size ext.args)) ∧
    ((∀ ext ∈ exts, ext.Matches appID → Consumable unmarshal size ext.args) →
      ∃ fuel exit, retrieveBatches unmarshal size appID fuel (.ok exts) = some exit ∧
        exit ≠ .outOfRange) := by
  refine ⟨fun _ _ _ _ => leaves_iff_consumable, fun hexts => ?_⟩
  obtain ⟨exit, hexit, hrange⟩ : ∃ exit,
      decodeExtrinsics unmarshal size appID (rounds exts) exts [] = some exit ∧
        exit ≠ .outOfRange :=
    decodeExtrinsics_of_consumable hexts fun _ => length_lt_rounds
  refine ⟨rounds exts, ?_⟩
  rw [retrieveBatches, hexit]
  cases exit with
  | done | malformed => exact ⟨_, rfl, by simp⟩
  | outOfRange => exact absurd rfl hrange

/-! ## Encodings that are not canonical -/

namespace Reference

/-- A commit with an empty signature: it takes 38 bytes, but encoded again it has a
timestamp of 13 bytes more. -/
def commit : Pb.Commit := ⟨0, List.replicate 32 0, [], some ⟨0, [], default, []⟩⟩

def commitData : Bytes := [34, 36, 18, 32] ++ List.replicate 32 0 ++ [34, 0]

def unmarshal (data : Bytes) : Except Error Pb.Batch :=
  if data = [8, 0] then .ok ⟨0, 0, [], []⟩
  else if data = [8, 1] then .ok ⟨1, 0, [], []⟩
  else if data = commitData then .ok ⟨0, 0, [], [commit]⟩
  else .error (.new "proto: illegal tag")

def size : Pb.Batch → ℕ := Pb.Batch.size fun _ => 13

def extrinsic (args : Bytes) : Extrinsic := ⟨7, dataCallSectionIndex, dataCallMethodIndex, args⟩

end Reference

open Reference

/-- A block with one batch, in its canonical encoding. -/
theorem decoding_terminates_iff_consumable_reference : Leaves unmarshal size [8, 1] [] ∧
      ∃ fuel exit, retrieveBatches unmarshal size 7 fuel (.ok [extrinsic [8, 1]]) =
        some exit ∧ exit ≠ .outOfRange := by
  have hconsumable : Consumable unmarshal size [8, 1] :=
    .next (by decide) rfl (by decide) (by decide) .empty
  have hresult := decoding_terminates_iff_consumable unmarshal size 7 [extrinsic [8, 1]]
  refine ⟨(hresult.1 _ List.mem_cons_self (by decide) []).2 hconsumable, hresult.2 ?_⟩
  intro ext hext _
  rw [List.mem_singleton.1 hext]
  exact hconsumable

/-- Data that does not decode and data whose message has no bytes keep the loop running, and
a message that is longer when it is encoded again is sliced beyond the data. -/
theorem decoding_does_not_terminate :
    (∀ fuel, retrieveBatches unmarshal size 7 fuel (.ok [extrinsic [1]]) = none) ∧
      (∀ fuel, retrieveBatches unmarshal size 7 fuel (.ok [extrinsic [8, 0]]) = none) ∧
      retrieveBatches unmarshal size 7 1 (.ok [extrinsic commitData]) = some .outOfRange := by
  refine ⟨fun fuel => ?_, fun fuel => ?_, by decide⟩
  · have hloop : decodeLoop unmarshal size fuel [1] [] = none :=
      decodeLoop_eq_none_of_error (by decide) rfl
    simp [retrieveBatches, decodeExtrinsics, extrinsic, Extrinsic.Matches, hloop]
  · have hloop : decodeLoop unmarshal size fuel [8, 0] [] = none := by
      refine decodeLoop_eq_none_of_size_zero (by decide) rfl ⟨?_, ?_⟩ (by decide)
      · simp
      · simp
    simp [retrieveBatches, decodeExtrinsics, extrinsic, Extrinsic.Matches, hloop]

end Dymint.DA.Avail
