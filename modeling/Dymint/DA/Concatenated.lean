import Dymint.DA.Avail

/-!
# Several batches in one extrinsic

The loop of `RetrieveBatches` decodes all of the data that is left, and a protobuf message
does not say where it ends: the encodings of several batches, one after the other, are read
as one batch, in which later heights replace earlier ones and the blocks and commits
accumulate.  The loop gives back what was written exactly if, from each batch on, this
merging changes nothing.
-/

namespace Dymint.DA.Avail

open Procedure Dymint.Types Manager

def reread (batch : Batch) : Batch :=
  { batch with blocks := batch.blocks.map Block.withoutEvidence }

/-- Protobuf leaves out a height of zero, so that it does not replace an earlier one. -/
def merge (earlier later : Batch) : Batch where
  startHeight := if later.startHeight = 0 then earlier.startHeight else later.startHeight
  endHeight := if later.endHeight = 0 then earlier.endHeight else later.endHeight
  blocks := earlier.blocks ++ later.blocks
  commits := earlier.commits ++ later.commits

def merged (batches : List Batch) : Batch := batches.foldr merge ⟨0, 0, [], []⟩

/-- From each batch on, merging gives this batch back. -/
def Separable : List Batch → Prop
  | [] => True
  | batch :: later => merged (batch :: later) = batch ∧ Separable later

/-- A batch that is read as it was written has nothing merged into it. -/
theorem merge_eq_of_reread {batch later : Batch}
    (hreread : reread (merge batch later) = reread batch) : merge batch later = batch := by
  injection hreread with hstart hend hblocks hcommits
  have hnone : later.blocks = [] := by
    have hlength := congrArg List.length hblocks
    simp only [merge, List.length_map, List.length_append] at hlength
    exact List.eq_nil_of_length_eq_zero (by omega)
  have hsame : batch.commits ++ later.commits = batch.commits := hcommits
  calc merge batch later
      = ⟨(merge batch later).startHeight, (merge batch later).endHeight,
          batch.blocks ++ later.blocks, batch.commits ++ later.commits⟩ := rfl
    _ = batch := by rw [hstart, hend, hnone, hsame, List.append_nil]

section

variable (marshal : Pb.Batch → Bytes) (unmarshal : Bytes → Except Error Pb.Batch)

def encoded (batches : List Batch) : Bytes := batches.flatMap fun batch => marshal batch.toProto

/-- Protobuf's rule for these batches, from each of them on. -/
structure Encodes (batches : List Batch) : Prop where
  ne_nil : ∀ batch ∈ batches, marshal batch.toProto ≠ []
  decode : ∀ later ∈ batches.tails, unmarshal (encoded marshal later) = .ok (merged later).toProto

def extrinsicOf (appID : Int64) (batches : List Batch) : Extrinsic :=
  ⟨appID, dataCallSectionIndex, dataCallMethodIndex, encoded marshal batches⟩

end

section

variable {marshal : Pb.Batch → Bytes} {unmarshal : Bytes → Except Error Pb.Batch}
  {size : Pb.Batch → ℕ} {batch : Batch} {batches later decoded final rest : List Batch}
  {fuel : ℕ} {appID : Int64} {data : Bytes}

theorem Encodes.tail (hencodes : Encodes marshal unmarshal (batch :: later)) :
    Encodes marshal unmarshal later where
  ne_nil other hother := hencodes.ne_nil other (.tail _ hother)
  decode suffix hsuffix := hencodes.decode suffix (by simp [hsuffix])

theorem Encodes.decodeLoop_eq (hencodes : Encodes marshal unmarshal (batch :: later)) :
    decodeLoop unmarshal size (fuel + 1) (encoded marshal (batch :: later)) batches =
      if size (merged (batch :: later)).toProto ≤ (encoded marshal (batch :: later)).length then
        decodeLoop unmarshal size fuel
          ((encoded marshal (batch :: later)).drop (size (merged (batch :: later)).toProto))
          (batches ++ [reread (merged (batch :: later))])
      else some .outOfRange := by
  have hne : encoded marshal (batch :: later) ≠ [] := by
    simp [encoded, hencodes.ne_nil batch List.mem_cons_self]
  exact decodeLoop_ok hne (hencodes.decode _ (by simp)) (Batch.fromProto_toProto _)

section

variable (hsize : ∀ message, size message = (marshal message).length)

include hsize

/-- Where merging changes nothing, one round reads one batch. -/
theorem Encodes.decodeLoop_next (hencodes : Encodes marshal unmarshal (batch :: later))
    (hmerged : merged (batch :: later) = batch) :
    decodeLoop unmarshal size (fuel + 1) (encoded marshal (batch :: later)) batches =
      decodeLoop unmarshal size fuel (encoded marshal later) (batches ++ [reread batch]) := by
  have hencoded : encoded marshal (batch :: later) =
      marshal batch.toProto ++ encoded marshal later := rfl
  rw [hencodes.decodeLoop_eq, hmerged, hsize, hencoded, List.drop_left, if_pos]
  rw [List.length_append]
  exact Nat.le_add_right _ _

theorem Encodes.decodeLoop_of_separable (hencodes : Encodes marshal unmarshal batches)
    (hseparable : Separable batches) (hfuel : batches.length < fuel) :
    decodeLoop unmarshal size fuel (encoded marshal batches) decoded =
      some (.done (decoded ++ batches.map reread)) := by
  induction batches generalizing fuel decoded with
  | nil =>
    obtain ⟨fuel, rfl⟩ := Nat.exists_eq_add_of_lt hfuel
    rw [List.map_nil, List.append_nil]
    exact decodeLoop_nil
  | cons batch later ih =>
    obtain ⟨fuel, rfl⟩ := Nat.exists_eq_add_of_lt hfuel
    have hlater : later.length < (batch :: later).length + fuel := by
      rw [List.length_cons]
      omega
    rw [hencodes.decodeLoop_next hsize hseparable.1, ih hencodes.tail hseparable.2 hlater]
    simp

end

theorem isPrefix_of_decodeLoop
    (hloop : decodeLoop unmarshal size fuel data batches = some (.done decoded)) :
    batches <+: decoded := by
  induction fuel generalizing data batches with
  | zero => cases hloop
  | succ fuel ih =>
    rw [decodeLoop] at hloop
    split at hloop
    · split at hloop
      · exact ih hloop
      · split at hloop
        · exact ih hloop
        · cases hloop
        · split at hloop
          · exact (List.prefix_append _ _).trans (ih hloop)
          · cases hloop
    · cases hloop
      exact List.prefix_rfl

theorem isPrefix_of_decodeExtrinsics {exts : List Extrinsic}
    (hexts : decodeExtrinsics unmarshal size appID fuel exts batches = some (.done decoded)) :
    batches <+: decoded := by
  induction exts generalizing batches with
  | nil =>
    cases hexts
    exact List.prefix_rfl
  | cons ext exts ih =>
    rw [decodeExtrinsics] at hexts
    split at hexts
    · split at hexts
      · rename_i hloop
        exact (isPrefix_of_decodeLoop hloop).trans (ih hexts)
      · rename_i hloop
        exact absurd hexts (hloop _)
    · exact ih hexts

section

variable (hsize : ∀ message, size message = (marshal message).length)

include hsize

/-- The induction follows the rounds: a round whose batch is the expected one has merged
nothing into it, and so leaves the encodings of the later batches. -/
theorem Encodes.separable_of_decodeLoop (hencodes : Encodes marshal unmarshal batches)
    (hloop : decodeLoop unmarshal size fuel (encoded marshal batches) decoded = some (.done final))
    (hfinal : final <+: decoded ++ (batches.map reread ++ rest)) :
    Separable batches ∧ final = decoded ++ batches.map reread := by
  induction batches generalizing fuel decoded with
  | nil =>
    cases fuel with
    | zero => cases hloop
    | succ fuel =>
      cases hloop
      exact ⟨trivial, by simp⟩
  | cons batch later ih =>
    cases fuel with
    | zero => cases hloop
    | succ fuel =>
      have hround := hloop
      rw [hencodes.decodeLoop_eq] at hround
      split at hround
      case isFalse => cases hround
      case isTrue =>
        have hread := (isPrefix_of_decodeLoop hround).trans hfinal
        rw [List.prefix_append_right_inj, List.map_cons, List.cons_append,
          List.cons_prefix_cons] at hread
        have hmerged := merge_eq_of_reread hread.1
        rw [hencodes.decodeLoop_next hsize hmerged] at hloop
        obtain ⟨hseparable, heq⟩ := ih hencodes.tail hloop (by simpa using hfinal)
        exact ⟨⟨hmerged, hseparable⟩, by simpa using heq⟩

variable {contents : List (List Batch)}

theorem decodeExtrinsics_of_separable
    (hencodes : ∀ batches ∈ contents, Encodes marshal unmarshal batches)
    (hseparable : ∀ batches ∈ contents, Separable batches)
    (hfuel : ∀ batches ∈ contents, batches.length < fuel) :
    decodeExtrinsics unmarshal size appID fuel (contents.map (extrinsicOf marshal appID))
      decoded = some (.done (decoded ++ contents.flatten.map reread)) := by
  induction contents generalizing decoded with
  | nil => simp [decodeExtrinsics]
  | cons batches contents ih =>
    rw [List.forall_mem_cons] at hencodes hseparable hfuel
    have hloop : decodeLoop unmarshal size fuel (extrinsicOf marshal appID batches).args
        decoded = some (.done (decoded ++ batches.map reread)) :=
      hencodes.1.decodeLoop_of_separable hsize hseparable.1 hfuel.1
    rw [List.map_cons, decodeExtrinsics, if_pos ⟨rfl, rfl, rfl⟩]
    simp only [hloop, ih hencodes.2 hseparable.2 hfuel.2, List.append_assoc,
      List.flatten_cons, List.map_append]

theorem separable_of_decodeExtrinsics
    (hencodes : ∀ batches ∈ contents, Encodes marshal unmarshal batches)
    (hexts : decodeExtrinsics unmarshal size appID fuel
      (contents.map (extrinsicOf marshal appID)) decoded =
        some (.done (decoded ++ contents.flatten.map reread))) :
    ∀ batches ∈ contents, Separable batches := by
  induction contents generalizing decoded with
  | nil => simp
  | cons batches contents ih =>
    rw [List.forall_mem_cons] at hencodes ⊢
    rw [List.map_cons, decodeExtrinsics, if_pos ⟨rfl, rfl, rfl⟩] at hexts
    split at hexts
    · rename_i final hloop
      have hfinal := isPrefix_of_decodeExtrinsics hexts
      rw [List.flatten_cons, List.map_append] at hfinal hexts
      obtain ⟨hseparable, rfl⟩ := hencodes.1.separable_of_decodeLoop hsize hloop hfinal
      rw [← List.append_assoc] at hexts
      exact ⟨hseparable, ih hencodes.2 hexts⟩
    · rename_i hloop
      exact absurd hexts (hloop _)

end

end

/-- `RetrieveBatches` returns the batches of all extrinsics, in order, exactly if in each
extrinsic, from each batch on, merging gives this batch back. -/
theorem batches_retrieved_iff (marshal : Pb.Batch → Bytes)
    (unmarshal : Bytes → Except Error Pb.Batch) (size : Pb.Batch → ℕ)
    (hsize : ∀ message, size message = (marshal message).length)
    (appID : Int64) (contents : List (List Batch))
    (hencodes : ∀ batches ∈ contents, Encodes marshal unmarshal batches) :
    (∃ fuel, retrieveBatches unmarshal size appID fuel
        (.ok (contents.map (extrinsicOf marshal appID))) =
          some (.done ⟨.success, "", (contents.flatten.map reread).map some⟩)) ↔
      ∀ batches ∈ contents, Separable batches := by
  constructor
  · rintro ⟨fuel, hretrieve⟩
    simp only [retrieveBatches] at hretrieve
    split at hretrieve
    case h_2 batches hexts =>
      have hbatches : batches = contents.flatten.map reread := by
        injection hretrieve with hdone
        injection hdone with hresult
        injection hresult with _ _ hsome
        exact List.map_injective_iff.2 (Option.some_injective _) hsome
      rw [hbatches, ← List.nil_append (contents.flatten.map reread)] at hexts
      exact separable_of_decodeExtrinsics hsize hencodes hexts
    all_goals cases hretrieve
  · intro hseparable
    have hfuel (batches : List Batch) (hbatches : batches ∈ contents) :
        batches.length < contents.flatten.length + 1 :=
      Nat.lt_succ_of_le (List.sublist_flatten_of_mem hbatches).length_le
    refine ⟨contents.flatten.length + 1, ?_⟩
    simp only [retrieveBatches,
      decodeExtrinsics_of_separable hsize hencodes hseparable hfuel, List.nil_append]

namespace Concatenated

def marshal (message : Pb.Batch) : Bytes :=
  (if message.startHeight = 0 then [] else [8, message.startHeight.toUInt8]) ++
    if message.endHeight = 0 then [] else [16, message.endHeight.toUInt8]

/-- Fields may come more than once, and the last one counts. -/
def readFields : Pb.Batch → Bytes → Except Error Pb.Batch
  | message, [] => .ok message
  | message, 8 :: value :: rest => readFields { message with startHeight := value.toUInt64 } rest
  | message, 16 :: value :: rest => readFields { message with endHeight := value.toUInt64 } rest
  | _, _ => .error (.new "unexpected field")

def unmarshal : Bytes → Except Error Pb.Batch := readFields ⟨0, 0, [], []⟩

def first : Batch := ⟨1, 1, [], []⟩

def second : Batch := ⟨2, 2, [], []⟩

end Concatenated

open Concatenated in
/-- Two batches of one extrinsic come back if they are equal and have no blocks. -/
theorem batches_retrieved_iff_reference :
    ∃ fuel, retrieveBatches unmarshal (fun message => (marshal message).length) 1 fuel
        (.ok ([[first, first], [], [second]].map (extrinsicOf marshal 1))) =
      some (.done ⟨.success, "", [some first, some first, some second]⟩) := by
  refine (batches_retrieved_iff marshal unmarshal _ (fun _ => rfl) 1
    [[first, first], [], [second]] fun batches hbatches => ?_).2 fun batches hbatches => ?_
  all_goals
    simp only [List.mem_cons, List.not_mem_nil, or_false] at hbatches
    obtain rfl | rfl | rfl := hbatches
  · exact ⟨by decide, by decide +kernel⟩
  · exact ⟨by decide, by decide +kernel⟩
  · exact ⟨by decide, by decide +kernel⟩
  · exact ⟨by decide +kernel, by decide +kernel, trivial⟩
  · exact trivial
  · exact ⟨by decide +kernel, trivial⟩

/-- The second batch is read twice and the first one is lost. -/
theorem two_batches_merged :
    decodeLoop Concatenated.unmarshal (fun message => (Concatenated.marshal message).length) 3
      (Concatenated.marshal Concatenated.first.toProto ++
        Concatenated.marshal Concatenated.second.toProto) [] =
      some (.done [Concatenated.second, Concatenated.second]) := by
  decide +kernel

end Dymint.DA.Avail
