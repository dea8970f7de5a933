import Dymint.Block.Panics

/-!
# Batches from Celestia

`RetrieveBatches` of the Celestia client and the part of the retrieve loop that
hands its result to `applyBlock`.  Anyone can post blobs to the namespace of a
rollup, so the blobs are arbitrary.  The generated `Unmarshal` is a parameter.
-/

namespace Dymint.DA

open Procedure Dymint.Types Manager

variable {α : Type}

/-- Go's `err.Error()`. -/
def errorText : Error → String
  | .new text => text
  | .wrap text cause => text ++ ": " ++ errorText cause
  | .errInvalidSignature => "invalid signature"
  | .errNoStateFound => "no state found"
  | .errSkippedEmptyBlock => "skipped empty block"
  | .errKeyNotFound => "Key not found"
  | .fault => "call failed"

section

variable (unmarshal : Bytes → Except Error Pb.Batch)

/-- One round of the loop of `RetrieveBatches`.  A blob that does not decode
leaves a nil entry in the result. -/
def decodeBlob (msg : Bytes) : Result Error (Option Batch) :=
  match unmarshal msg with
  | .error _ => .ok none
  | .ok message => do
    let batch ← Batch.fromProto message
    return some batch

def decodeBatches : List Bytes → Result Error (List (Option Batch))
  | [] => .ok []
  | msg :: data => do
    let entry ← decodeBlob unmarshal msg
    let batches ← decodeBatches data
    return entry :: batches

def retrieveBatches (data : Except Error (List Bytes)) : Result Error ResultRetrieveBatch :=
  match data with
  | .error error => .ok ⟨.error, errorText error, []⟩
  | .ok blobs =>
    match decodeBatches unmarshal blobs with
    | .ok batches => .ok ⟨.success, "", batches⟩
    | .err error => .ok ⟨.error, errorText error, []⟩
    | .panic => .panic

/-- `RetrieveBatches` followed by `processNextDABatch`. -/
def retrieveAndProcess (env : Env α) (data : Except Error (List Bytes)) : M α Unit := do
  let result ← Proc.ofResult (retrieveBatches unmarshal data)
  processNextDABatch env result

end

/-! ## What the blobs offer -/

def pairs (batch : Batch) : List (Block × Commit) := batch.blocks.zip batch.commits

/-- Hand a list of blocks to `applyBlock`, one after another. -/
def applyEach (env : Env α) : List (Block × Commit) → M α Unit
  | [] => return ()
  | pair :: rest => do
    applyBlock env pair.1 pair.2
    applyEach env rest

def wellFormedBatch (unmarshal : Bytes → Except Error Pb.Batch) (blob : Bytes) : Option Batch :=
  match unmarshal blob with
  | .error _ => none
  | .ok message =>
    match Batch.fromProto message with
    | .ok batch =>
      if batch.blocks.length ≤ batch.commits.length then some batch else none
    | _ => none

/-- The well-formed batches are handed to `applyBlock`, and then at most an error
is reported. -/
def Offers (env : Env α) (unmarshal : Bytes → Except Error Pb.Batch)
    (blobs : List Bytes) : Prop :=
  ∃ report : Result Error Unit, report ≠ .panic ∧ retrieveAndProcess unmarshal env (.ok blobs) =
      applyEach env ((blobs.filterMap (wellFormedBatch unmarshal)).flatMap pairs)
        >>= fun _ => Proc.ofResult report

structure Acceptable (env : Env α) (message : Pb.Batch) : Prop where
  wellFormed : message.WellFormed
  commits : message.blocks.length ≤ message.commits.length
  checkable : ∀ batch, Batch.fromProto message = .ok batch →
    ∀ pair ∈ pairs batch, Checkable env pair.1 pair.2

/-! ## Decoding -/

variable {blob : Bytes} {batches : List (Option Batch)}

section

variable {unmarshal : Bytes → Except Error Pb.Batch} {data : List Bytes}

theorem decodeBatches_eq_ok : decodeBatches unmarshal data = .ok batches ↔
      List.Forall₂ (fun blob entry => decodeBlob unmarshal blob = .ok entry)
        data batches := by
  induction data generalizing batches with
  | nil => simp [decodeBatches, eq_comm]
  | cons msg data ih =>
    simp only [decodeBatches, Result.bind_eq_ok, ih,
      List.forall₂_cons_left_iff, Result.pure_eq, Result.ok.injEq]
    constructor
    · intro h
      rcases h with ⟨entry, hentry, rest, hrest, hsame⟩
      exact ⟨entry, rest, hentry, hrest, hsame.symm⟩
    · intro h
      rcases h with ⟨entry, rest, hentry, hrest, hsame⟩
      exact ⟨entry, hentry, rest, hrest, hsame.symm⟩

theorem entry_of_blob (hbatches : decodeBatches unmarshal data = .ok batches)
    (hblob : blob ∈ data) :
    ∃ entry ∈ batches, decodeBlob unmarshal blob = .ok entry := by
  have hentries := decodeBatches_eq_ok.1 hbatches
  clear hbatches
  induction hentries with
  | nil => cases hblob
  | cons hentry _ ih =>
    rcases List.mem_cons.1 hblob with rfl | hrest
    · exact ⟨_, List.mem_cons_self, hentry⟩
    · rcases ih hrest with ⟨entry, hmem, hdecoded⟩
      exact ⟨entry, List.mem_cons_of_mem _ hmem, hdecoded⟩

theorem decodeBlob_ne_panic : decodeBlob unmarshal blob ≠ .panic ↔
      ∀ message, unmarshal blob = .ok message → message.WellFormed := by
  cases hmessage : unmarshal blob with
  | error error => simp [decodeBlob, hmessage]
  | ok message =>
    simp [decodeBlob, hmessage, Result.bind_ne_panic, Batch.fromProto_ne_panic]

theorem decodeBlob_succeeds (hblob : decodeBlob unmarshal blob ≠ .panic) :
    (decodeBlob unmarshal blob).Succeeds := by
  cases hmessage : unmarshal blob with
  | error error => simp [decodeBlob, hmessage]
  | ok message =>
    rcases Batch.fromProto_succeeds.2
      (decodeBlob_ne_panic.1 hblob message hmessage) with ⟨batch, hbatch⟩
    simp [decodeBlob, hmessage, hbatch]

theorem decodeBatches_succeeds (hdata : decodeBatches unmarshal data ≠ .panic) :
    (decodeBatches unmarshal data).Succeeds := by
  induction data with
  | nil => simp [decodeBatches]
  | cons msg data ih =>
    rw [decodeBatches, Result.bind_ne_panic] at hdata
    rcases decodeBlob_succeeds hdata.1 with ⟨entry, hentry⟩
    have hrest := (Result.bind_ne_panic.1 (hdata.2 entry hentry)).1
    rcases ih hrest with ⟨batches, hbatches⟩
    simp [decodeBatches, hentry, hbatches]

end

/-- The number of blocks and commits does not change. -/
theorem convertAll_length {β γ : Type} {convert : β → Result Error γ} {values : List β}
    {converted : List γ} (hconverted : convertAll convert values = .ok converted) :
    converted.length = values.length := by
  induction values generalizing converted with
  | nil =>
    obtain rfl := Result.ok.inj hconverted
    rfl
  | cons value values ih =>
    cases hvalue : convert value with
    | ok first =>
      simp only [convertAll, hvalue, Result.bind_eq_ok, Result.pure_eq,
        Result.ok.injEq] at hconverted
      rcases hconverted with ⟨rest, hrest, rfl⟩
      rw [List.length_cons, List.length_cons, ih hrest]
    | err | panic => simp [convertAll, hvalue] at hconverted

variable {message : Pb.Batch}

theorem fromProto_lengths {batch : Batch} (hbatch : Batch.fromProto message = .ok batch) :
    batch.blocks.length = message.blocks.length ∧
      batch.commits.length = message.commits.length := by
  simp only [Batch.fromProto, Result.bind_eq_ok, Result.pure_eq, Result.ok.injEq] at hbatch
  rcases hbatch with ⟨blocks, hblocks, commits, hcommits, rfl⟩
  exact ⟨convertAll_length hblocks, convertAll_length hcommits⟩

/-! ## Processing -/

variable {commits : List Commit} {blocks : List Block}

section

variable (env : Env α)

theorem applyEach_append (first second : List (Block × Commit)) : applyEach env (first ++ second) =
      applyEach env first >>= fun _ => applyEach env second := by
  induction first with
  | nil => rfl
  | cons pair first ih =>
    rw [List.cons_append, applyEach, applyEach, ih, Proc.bind_assoc]

theorem applyBatch_eq_applyEach (hlength : blocks.length ≤ commits.length) :
    applyBatch env blocks commits = applyEach env (blocks.zip commits) := by
  induction blocks generalizing commits with
  | nil => rfl
  | cons block blocks ih =>
    cases commits with
    | nil => exact absurd hlength (Nat.not_succ_le_zero _)
    | cons commit commits =>
      rw [applyBatch, List.zip_cons_cons, applyEach, ih (Nat.le_of_succ_le_succ hlength)]

theorem applyBatches_eq_applyEach {batches : List Batch}
    (hbatches : ∀ batch ∈ batches, batch.blocks.length ≤ batch.commits.length) :
    applyBatches env (batches.map some) = applyEach env (batches.flatMap pairs) := by
  induction batches with
  | nil => rfl
  | cons batch batches ih =>
    rw [List.forall_mem_cons] at hbatches
    rw [List.map_cons, applyBatches, ih hbatches.2,
      applyBatch_eq_applyEach env hbatches.1, List.flatMap_cons,
      applyEach_append]
    rfl

end

section

variable {env : Env α} {proposer : Sequencer}
variable (hproposer : env.getProposer = some proposer) (app : α)

include app

theorem mayReturn_applyEach (offered : List (Block × Commit)) :
    (applyEach env offered).MayReturn Sane () := by
  induction offered with
  | nil => rfl
  | cons pair offered ih =>
    exact (mayReturn_applyBlock env pair.1 pair.2 app).bind ih

include hproposer

theorem panicFree_applyBatch :
    (applyBatch env blocks commits).PanicFree Sane ↔ blocks.length ≤ commits.length ∧
        ∀ pair ∈ blocks.zip commits, Checkable env pair.1 pair.2 := by
  induction blocks generalizing commits with
  | nil => simp [applyBatch, Proc.panicFree_pure]
  | cons block blocks ih =>
    cases commits with
    | nil => simp [applyBatch, Proc.abort, Proc.PanicFree]
    | cons commit commits =>
      rw [applyBatch, Proc.panicFree_bind, panicFree_applyBlock_iff env block commit hproposer app,
        List.zip_cons_cons, List.forall_mem_cons, List.length_cons,
        List.length_cons, Nat.succ_le_succ_iff]
      have hrest : (∀ value, (applyBlock env block commit).MayReturn Sane value →
            (applyBatch env blocks commits).PanicFree Sane) ↔
          (applyBatch env blocks commits).PanicFree Sane :=
        ⟨fun h => h () (mayReturn_applyBlock env block commit app), fun h _ _ => h⟩
      rw [hrest, ih]
      tauto

theorem panicFree_applyBatches : (applyBatches env batches).PanicFree Sane ↔
      ∀ entry ∈ batches, ∃ batch, entry = some batch ∧ batch.blocks.length ≤ batch.commits.length ∧
        ∀ pair ∈ pairs batch, Checkable env pair.1 pair.2 := by
  induction batches with
  | nil => simp [applyBatches, Proc.panicFree_pure]
  | cons entry batches ih =>
    rw [List.forall_mem_cons, ← ih]
    cases entry with
    | none => simp [applyBatches, Proc.abort, Proc.PanicFree]
    | some batch =>
      rw [applyBatches, Proc.panicFree_bind, panicFree_applyBatch hproposer app]
      constructor
      · intro h
        have hreturn : (applyBatch env batch.blocks batch.commits).MayReturn Sane () := by
          rw [applyBatch_eq_applyEach env h.1.1]
          exact mayReturn_applyEach app _
        exact ⟨⟨batch, rfl, h.1⟩, h.2 () hreturn⟩
      · intro h
        rcases h with ⟨⟨same, hsame, hbatch⟩, hrest⟩
        obtain rfl := Option.some.inj hsame
        exact ⟨hbatch, fun _ _ => hrest⟩

end

/-! ## Retrieving and processing -/

section

variable {env : Env α} {unmarshal : Bytes → Except Error Pb.Batch}
variable {blobs : List Bytes}

theorem retrieveAndProcess_of_decoded (hbatches : decodeBatches unmarshal blobs = .ok batches) :
    retrieveAndProcess unmarshal env (.ok blobs) = applyBatches env batches := by
  simp only [retrieveAndProcess, retrieveBatches, hbatches]
  rfl

theorem wellFormedBatch_of_acceptable (hmessage : unmarshal blob = .ok message)
    (hacceptable : Acceptable env message) :
    ∃ batch, Batch.fromProto message = .ok batch ∧ wellFormedBatch unmarshal blob = some batch ∧
      decodeBlob unmarshal blob = .ok (some batch) ∧
      batch.blocks.length ≤ batch.commits.length := by
  rcases Batch.fromProto_succeeds.2 hacceptable.wellFormed with ⟨batch, hbatch⟩
  have hlengths := fromProto_lengths hbatch
  have hcommits : batch.blocks.length ≤ batch.commits.length := by
    rw [hlengths.1, hlengths.2]
    exact hacceptable.commits
  refine ⟨batch, hbatch, ?_, ?_, hcommits⟩
  · simp only [wellFormedBatch, hmessage, hbatch, if_pos hcommits]
  · simp [decodeBlob, hmessage, hbatch]

theorem batches_of_acceptable
    (hblobs : ∀ blob ∈ blobs, ∃ message, unmarshal blob = .ok message ∧ Acceptable env message) :
    ∃ batches : List Batch, decodeBatches unmarshal blobs = .ok (batches.map some) ∧
      blobs.filterMap (wellFormedBatch unmarshal) = batches ∧
      ∀ batch ∈ batches, batch.blocks.length ≤ batch.commits.length ∧
        ∀ pair ∈ pairs batch, Checkable env pair.1 pair.2 := by
  induction blobs with
  | nil => exact ⟨[], rfl, rfl, by simp⟩
  | cons blob blobs ih =>
    rw [List.forall_mem_cons] at hblobs
    rcases hblobs.1 with ⟨message, hmessage, hacceptable⟩
    rcases ih hblobs.2 with ⟨batches, hdecoded, hwell, hbatches⟩
    rcases wellFormedBatch_of_acceptable hmessage hacceptable with
      ⟨batch, hbatch, hfirst, hentry, hcommits⟩
    refine ⟨batch :: batches, ?_, ?_, ?_⟩
    · simp [decodeBatches, hentry, hdecoded]
    · rw [List.filterMap_cons_some hfirst, hwell]
    · rw [List.forall_mem_cons]
      exact ⟨⟨hcommits, hacceptable.checkable batch hbatch⟩, hbatches⟩

theorem acceptable_of_decoded {batch : Batch}
    (hentry : decodeBlob unmarshal blob = .ok (some batch))
    (hcommits : batch.blocks.length ≤ batch.commits.length)
    (hcheckable : ∀ pair ∈ pairs batch, Checkable env pair.1 pair.2) :
    ∃ message, unmarshal blob = .ok message ∧ Acceptable env message := by
  cases hmessage : unmarshal blob with
  | error error => simp [decodeBlob, hmessage] at hentry
  | ok message =>
    have hbatch : Batch.fromProto message = .ok batch := by
      simp only [decodeBlob, hmessage, Result.bind_eq_ok, Result.pure_eq,
        Result.ok.injEq, Option.some.injEq, exists_eq_right] at hentry
      exact hentry
    have hlengths := fromProto_lengths hbatch
    rw [hlengths.1, hlengths.2] at hcommits
    refine ⟨message, rfl, Batch.fromProto_succeeds.1 ⟨batch, hbatch⟩, hcommits,
      fun other hother => ?_⟩
    obtain rfl : batch = other := Result.ok.inj (hbatch.symm.trans hother)
    exact hcheckable

/-- Retrieving and processing the blobs of a height never panics and offers all
well-formed batches to `applyBlock` exactly when every blob decodes to a
well-formed batch with a commit for every block, and these commits have a
signature unless they claim a height or belong to an invalid block. -/
theorem blobs_processed_iff (env : Env α) {proposer : Sequencer}
    (hproposer : env.getProposer = some proposer) (app : α)
    (unmarshal : Bytes → Except Error Pb.Batch) (blobs : List Bytes) :
    ((retrieveAndProcess unmarshal env (.ok blobs)).PanicFree Sane ∧ Offers env unmarshal blobs) ↔
      ∀ blob ∈ blobs, ∃ message, unmarshal blob = .ok message ∧ Acceptable env message := by
  constructor
  · intro h blob hblob
    have hdecodes : decodeBatches unmarshal blobs ≠ .panic := by
      intro hpanic
      have hfirst := (Proc.panicFree_bind.1 h.1).1
      apply hfirst
      simp only [retrieveBatches, hpanic]
    rcases decodeBatches_succeeds hdecodes with ⟨batches, hbatches⟩
    have hfree := h.1
    rw [retrieveAndProcess_of_decoded hbatches, panicFree_applyBatches hproposer app] at hfree
    rcases entry_of_blob hbatches hblob with ⟨entry, hmem, hentry⟩
    rcases hfree entry hmem with ⟨batch, rfl, hcommits, hcheckable⟩
    exact acceptable_of_decoded hentry hcommits hcheckable
  · intro hblobs
    rcases batches_of_acceptable hblobs with
      ⟨batches, hdecoded, hwell, hbatches⟩
    have hprocess : retrieveAndProcess unmarshal env (.ok blobs) =
        applyBatches env (batches.map some) :=
      retrieveAndProcess_of_decoded hdecoded
    constructor
    · rw [hprocess, panicFree_applyBatches hproposer app]
      intro entry hentry
      rcases List.mem_map.1 hentry with ⟨batch, hbatch, rfl⟩
      exact ⟨batch, rfl, hbatches batch hbatch⟩
    · refine ⟨.ok (), by simp, ?_⟩
      rw [hprocess, hwell, applyBatches_eq_applyEach env
        fun batch hbatch => (hbatches batch hbatch).1]
      exact (Proc.bind_pure _).symm

end

/-! ## Blobs that anyone can post -/

namespace PostedBlobs

open Manager.Reference

def block : Block := Executor.createBlock env.tm env.exec 1 ⟨0, FixedBytes.zero 32, [], default⟩
    (FixedBytes.zero 32) (newFromGenesisDoc env.tm env.genesis) [[1]] 5

def batch : Batch := ⟨1, 1, [block], [Types.Reference.commitFor block.header]⟩

def unmarshal : Bytes → Except Error Pb.Batch
  | [1] => .ok batch.toProto
  | [2] => .ok { batch.toProto with commits := [] }
  | [3] => .ok
      { batch.toProto with
        commits := [{ (Types.Reference.commitFor block.header).toProto with
          headerHash := [0] }] }
  | _ => .error (.new "unexpected EOF")

def Panics (node : Node (List Tx)) (blob : Bytes) : Prop :=
  ((retrieveAndProcess unmarshal env (.ok [blob, [1]])).exec (fun _ => .ok) node).2 = .panic

instance (node : Node (List Tx)) : DecidablePred (Panics node) :=
  fun _ => inferInstanceAs (Decidable (_ = _))

end PostedBlobs

open CrashSystem in
theorem malformed_blobs_panic : ∃ node, ReachableNode Reference.env [] ⟨node, .idle⟩ ∧
      PostedBlobs.Panics node [2] ∧ PostedBlobs.Panics node [3] ∧
      PostedBlobs.Panics node [4] :=
  exists_idleNode Reference.firstBoot (by decide)

/-- A well-formed batch alone is processed. -/
theorem blobs_processed_iff_reference : Reference.env.getProposer = some Types.Reference.proposer ∧
      (retrieveAndProcess PostedBlobs.unmarshal Reference.env (.ok [[1]])).PanicFree Sane ∧
      Offers Reference.env PostedBlobs.unmarshal [[1]] := by
  have hproposer : Reference.env.getProposer = some Types.Reference.proposer := by decide
  refine ⟨hproposer, (blobs_processed_iff Reference.env hproposer []
    PostedBlobs.unmarshal [[1]]).2 ?_⟩
  intro blob hblob
  obtain rfl := List.mem_singleton.1 hblob
  have hbatch : Batch.fromProto PostedBlobs.batch.toProto = .ok PostedBlobs.batch := by decide
  refine ⟨PostedBlobs.batch.toProto, rfl, Batch.fromProto_succeeds.1 ⟨_, hbatch⟩, by decide, ?_⟩
  intro other hother
  obtain rfl : PostedBlobs.batch = other := Result.ok.inj (hbatch.symm.trans hother)
  intro pair hpair
  obtain rfl := List.mem_singleton.1 hpair
  intro _ _ _ hheight
  exact absurd hheight (by decide)

end Dymint.DA
