import Dymint.Types.Serialization

/-!
# Which messages can be decoded

The generated decoder leaves absent sub-messages nil, and any peer can leave out
any of them.  For each conversion of `types/serialization.go` this file says on
which messages it dereferences nothing that is nil, and which messages it
accepts.
-/

namespace Dymint.Types

open Procedure

/-! ## The shape of a message -/

structure Pb.Header.Sized (header : Pb.Header) : Prop where
  namespaceId : header.namespaceId.length = 8
  lastHeaderHash : header.lastHeaderHash.length = 32
  lastCommitHash : header.lastCommitHash.length = 32
  dataHash : header.dataHash.length = 32
  consensusHash : header.consensusHash.length = 32
  appHash : header.appHash.length = 32
  lastResultsHash : header.lastResultsHash.length = 32
  aggregatorsHash : header.aggregatorsHash.length = 32

def Pb.Commit.Sized (commit : Pb.Commit) : Prop := commit.headerHash.length = 32

def Pb.Block.HasHeader (block : Pb.Block) (header : Pb.Header) : Prop :=
  block.header = some header ∧ header.version ≠ none

def Pb.Block.LastCommitSized (block : Pb.Block) : Prop :=
  ∀ commit, block.lastCommit = some commit → commit.Sized

def Pb.Block.Readable (block : Pb.Block) : Prop :=
  ∃ header, block.HasHeader header ∧ (header.Sized → block.data ≠ none)

/-- Everything is present and has the right length. -/
def Pb.Block.WellFormed (block : Pb.Block) : Prop :=
  ∃ header, block.HasHeader header ∧ header.Sized ∧ block.data ≠ none ∧ block.LastCommitSized

structure Pb.Batch.WellFormed (batch : Pb.Batch) : Prop where
  blocks : ∀ block ∈ batch.blocks, block.WellFormed
  commits : ∀ commit ∈ batch.commits, commit.Sized

/-! ## Fields and commits -/

theorem safeCopy_ne_panic (n : ℕ) (src : Bytes) (text : String) : safeCopy n src text ≠ .panic := by
  unfold safeCopy
  split <;> simp

theorem safeCopy_bind_succeeds {α : Type} {n : ℕ} {src : Bytes} {text : String}
    {rest : FixedBytes n → Result Error α} :
    (safeCopy n src text >>= rest).Succeeds ↔
      ∃ hlength : src.length = n, (rest ⟨src, hlength⟩).Succeeds := by
  unfold safeCopy
  split
  case isTrue hlength => simp [hlength]
  case isFalse hlength => simp [hlength]

theorem Commit.fromProto_ne_panic (commit : Pb.Commit) : Commit.fromProto commit ≠ .panic := by
  rw [Commit.fromProto, Result.bind_ne_panic]
  exact ⟨safeCopy_ne_panic _ _ _, fun _ _ => by simp⟩

theorem Commit.fromProto_succeeds {commit : Pb.Commit} :
    (Commit.fromProto commit).Succeeds ↔ commit.Sized := by
  rw [Commit.fromProto, safeCopy_bind_succeeds]
  constructor
  · rintro ⟨hlength, _⟩
    exact hlength
  · intro hlength
    exact ⟨hlength, Result.succeeds_ok _⟩

/-! ## Headers -/

theorem Header.fromProto_ne_panic {header : Pb.Header} :
    Header.fromProto (some header) ≠ .panic ↔ header.version ≠ none := by
  cases hversion : header.version with
  | none => simp [Header.fromProto, hversion]
  | some version =>
    simp [Header.fromProto, hversion, Result.bind_ne_panic, safeCopy_ne_panic]

theorem Header.fromProto_succeeds {header : Pb.Header} : (Header.fromProto (some header)).Succeeds ↔
      header.version ≠ none ∧ header.Sized := by
  cases hversion : header.version with
  | none => simp [Header.fromProto, hversion]
  | some version =>
    simp only [Header.fromProto, hversion, safeCopy_bind_succeeds]
    constructor
    · rintro ⟨h1, h2, h3, h4, h5, h6, h7, h8, _⟩
      exact ⟨by simp, h1, h2, h3, h4, h5, h6, h7, h8⟩
    · rintro ⟨_, h1, h2, h3, h4, h5, h6, h7, h8⟩
      exact ⟨h1, h2, h3, h4, h5, h6, h7, h8, Result.succeeds_ok _⟩

/-! ## Blocks -/

section

variable {block : Pb.Block}

theorem Block.fromProto_ne_panic : Block.fromProto block ≠ .panic ↔ block.Readable := by
  constructor
  · intro hblock
    have hfirst := (Result.bind_ne_panic.1 hblock).1
    cases hheader : block.header with
    | none =>
      rw [hheader] at hfirst
      exact absurd rfl hfirst
    | some header =>
      rw [hheader] at hfirst
      have hversion := Header.fromProto_ne_panic.1 hfirst
      refine ⟨header, ⟨hheader, hversion⟩, fun hsized hdata => hblock ?_⟩
      obtain ⟨converted, hconverted⟩ := Header.fromProto_succeeds.2 ⟨hversion, hsized⟩
      rw [Block.fromProto, hheader, hconverted, Result.ok_bind, hdata]
  · rintro ⟨header, ⟨hheader, hversion⟩, hdata⟩
    rw [Block.fromProto, hheader, Result.bind_ne_panic]
    refine ⟨Header.fromProto_ne_panic.2 hversion, fun converted hconverted => ?_⟩
    have hsized := (Header.fromProto_succeeds.1 ⟨converted, hconverted⟩).2
    obtain ⟨data, hsome⟩ := Option.ne_none_iff_exists'.1 (hdata hsized)
    cases hlast : block.lastCommit with
    | none => simp [hsome]
    | some commit =>
      simp [hsome, Result.bind_ne_panic, Commit.fromProto_ne_panic]

theorem Block.fromProto_succeeds : (Block.fromProto block).Succeeds ↔ block.WellFormed := by
  rw [Block.fromProto, Result.succeeds_bind]
  constructor
  · rintro ⟨converted, hconverted, hrest⟩
    cases hheader : block.header with
    | none =>
      rw [hheader] at hconverted
      cases hconverted
    | some header =>
      rw [hheader] at hconverted
      obtain ⟨hversion, hsized⟩ := Header.fromProto_succeeds.1 ⟨converted, hconverted⟩
      cases hdata : block.data with
      | none => simp [hdata] at hrest
      | some data =>
        refine ⟨header, ⟨hheader, hversion⟩, hsized, by simp [hdata], ?_⟩
        intro commit hlast
        simp only [hdata, hlast, Result.succeeds_bind] at hrest
        obtain ⟨value, hvalue, _⟩ := hrest
        exact Commit.fromProto_succeeds.1 ⟨value, hvalue⟩
  · rintro ⟨header, ⟨hheader, hversion⟩, hsized, hdata, hlast⟩
    obtain ⟨converted, hconverted⟩ := Header.fromProto_succeeds.2 ⟨hversion, hsized⟩
    obtain ⟨data, hsome⟩ := Option.ne_none_iff_exists'.1 hdata
    refine ⟨converted, hheader ▸ hconverted, ?_⟩
    cases hcommit : block.lastCommit with
    | none => simp [hsome]
    | some commit =>
      obtain ⟨value, hvalue⟩ := Commit.fromProto_succeeds.2 (hlast commit hcommit)
      simp [hsome, hvalue]

end

/-! ## Batches -/

theorem convertAll_succeeds {α β : Type} {convert : α → Result Error β} {values : List α} :
    (convertAll convert values).Succeeds ↔ ∀ value ∈ values, (convert value).Succeeds := by
  induction values with
  | nil => simp [convertAll]
  | cons value values ih =>
    rw [List.forall_mem_cons, ← ih]
    cases hvalue : convert value with
    | ok converted =>
      simp only [convertAll, hvalue, Result.succeeds_bind]
      simp [Result.Succeeds]
    | err | panic => simp [convertAll, hvalue]

theorem convertAll_ne_panic {α β : Type} {convert : α → Result Error β} {values : List α} :
    convertAll convert values ≠ .panic ↔ (convertAll convert values).Succeeds := by
  induction values with
  | nil => simp [convertAll]
  | cons value values ih =>
    cases hvalue : convert value with
    | ok converted =>
      simp only [convertAll, hvalue, Result.succeeds_bind, Result.bind_ne_panic, ih]
      simp [Result.Succeeds]
    | err | panic => simp [convertAll, hvalue]

section

variable {batch : Pb.Batch}

theorem Batch.fromProto_succeeds : (Batch.fromProto batch).Succeeds ↔ batch.WellFormed := by
  have hblocks : (protoToBlocks batch.blocks).Succeeds ↔
      ∀ block ∈ batch.blocks, block.WellFormed := by
    simp only [protoToBlocks, convertAll_succeeds, Block.fromProto_succeeds]
  have hcommits : (protoToCommits batch.commits).Succeeds ↔
      ∀ commit ∈ batch.commits, commit.Sized := by
    simp only [protoToCommits, convertAll_succeeds, Commit.fromProto_succeeds]
  rw [Batch.fromProto, Result.succeeds_bind]
  constructor
  · rintro ⟨blocks, hblock, hrest⟩
    obtain ⟨commits, hcommit, _⟩ := Result.succeeds_bind.1 hrest
    exact ⟨hblocks.1 ⟨blocks, hblock⟩, hcommits.1 ⟨commits, hcommit⟩⟩
  · rintro ⟨hblock, hcommit⟩
    obtain ⟨blocks, hblock⟩ := hblocks.2 hblock
    obtain ⟨commits, hcommit⟩ := hcommits.2 hcommit
    exact ⟨blocks, hblock, Result.succeeds_bind.2 ⟨commits, hcommit, Result.succeeds_ok _⟩⟩

/-- A malformed batch is never reported as an error. -/
theorem Batch.fromProto_ne_panic : Batch.fromProto batch ≠ .panic ↔ batch.WellFormed := by
  rw [← Batch.fromProto_succeeds]
  constructor
  · intro hbatch
    rw [Batch.fromProto, Result.bind_ne_panic] at hbatch
    obtain ⟨hblocks, hrest⟩ := hbatch
    obtain ⟨blocks, hblock⟩ := convertAll_ne_panic.1 hblocks
    have hcommits := (Result.bind_ne_panic.1 (hrest blocks hblock)).1
    obtain ⟨commits, hcommit⟩ := convertAll_ne_panic.1 hcommits
    refine Result.succeeds_bind.2 ⟨blocks, hblock, ?_⟩
    exact Result.succeeds_bind.2 ⟨commits, hcommit, Result.succeeds_ok _⟩
  · rintro ⟨converted, hconverted⟩
    simp [hconverted]

end

end Dymint.Types
