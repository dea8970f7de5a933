import Dymint.Core.Channels
import Dymint.Core.Runs
import Dymint.Types.Block
import Mathlib.Algebra.Order.Group.Nat
import Mathlib.Algebra.Order.Sub.Basic
import Mathlib.Order.Lattice.Nat

/-!
# The indexer service

`publishEvents` emits the header event of a block and then one event for each of
its transactions.  `IndexerService` has a subscription for either kind and takes, for
each header event, as many transaction events as the header announces.
-/

namespace Dymint.Indexer

open Dymint.Types Runs Channels

/-! ## Events -/

/-- A block with its transactions and the responses to them. -/
structure ExecutedBlock where
  header : Header
  txs : List (Tx × ResponseDeliverTx)

structure EventDataNewBlockHeader where
  header : Header
  numTxs : ℕ

structure TxResult where
  height : Int64
  index : UInt32
  tx : Tx
  result : ResponseDeliverTx

namespace ExecutedBlock

def headerEvent (block : ExecutedBlock) : EventDataNewBlockHeader where
  header := block.header
  numTxs := block.txs.length

def txResults (block : ExecutedBlock) : List TxResult := block.txs.zipIdx.map fun (entry, i) =>
    { height := block.header.height.toInt64
      index := .ofNat i
      tx := entry.1
      result := entry.2 }

def Attributable (block : ExecutedBlock) : Prop := (block.txResults.map TxResult.index).Nodup

end ExecutedBlock

/-! ## Batches -/

abbrev Batch := List (Option TxResult)

def newBatch (n : ℕ) : Batch := List.replicate n none

/-- `Batch.Add` panics if the index is out of range. -/
def Batch.add (batch : Batch) (result : TxResult) : Option Batch :=
  if result.index.toNat < batch.length then
    some (batch.set result.index.toNat (some result))
  else none

/-! ## The publisher and the service -/

inductive Point where
  | waiting
  | collecting (event : EventDataNewBlockHeader) (batch : Batch) (received : ℕ)
  | indexed (batch : Batch)
  | panicked

structure Service where
  blockHeadersSub : Subscription EventDataNewBlockHeader 10
  txsSub : Subscription TxResult 10000
  remaining : List TxResult
  point : Point
  headers : List EventDataNewBlockHeader
  batches : List Batch
  published : List ExecutedBlock
  sent : List TxResult

inductive Label where
  | publishHeader (block : ExecutedBlock)
  | publishTx
  | takeHeader
  | takeTx
  | indexBlock
  | addBatch

namespace Service

def step (service : Service) : Label → Option Service
  | .publishHeader block =>
    match service.remaining with
    | [] =>
      some { service with
        blockHeadersSub := service.blockHeadersSub.publish block.headerEvent
        remaining := block.txResults
        published := service.published ++ [block] }
    | _ :: _ => none
  | .publishTx =>
    match service.remaining with
    | [] => none
    | result :: rest =>
      some { service with
        txsSub := service.txsSub.publish result
        remaining := rest
        sent := service.sent ++ [result] }
  | .takeHeader =>
    match service.point with
    | .waiting =>
      service.blockHeadersSub.out.receive.map fun (event, out) =>
        { service with
          blockHeadersSub := { service.blockHeadersSub with out := out }
          point := .collecting event (newBatch event.numTxs) 0 }
    | _ => none
  | .takeTx =>
    match service.point with
    | .collecting event batch received =>
      if received < event.numTxs then
        service.txsSub.out.receive.map fun (result, out) =>
          { service with
            txsSub := { service.txsSub with out := out }
            point :=
              match batch.add result with
              | some batch => .collecting event batch (received + 1)
              | none => .panicked }
      else none
    | _ => none
  | .indexBlock =>
    match service.point with
    | .collecting event batch received =>
      if received < event.numTxs then none
      else
        some { service with
          headers := service.headers ++ [event]
          point := .indexed batch }
    | _ => none
  | .addBatch =>
    match service.point with
    | .indexed batch =>
      some { service with
        batches := service.batches ++ [batch]
        point := .waiting }
    | _ => none

def lts : Lts Service Label where
  start :=
    { blockHeadersSub := .new _ 10
      txsSub := .new _ 10000
      remaining := []
      point := .waiting
      headers := []
      batches := []
      published := []
      sent := [] }
  step := step

def resultsOf (blocks : List ExecutedBlock) : List TxResult :=
  blocks.flatMap ExecutedBlock.txResults

def filled (block : ExecutedBlock) (received : ℕ) : Batch :=
  (block.txResults.take received).map some ++ newBatch (block.txs.length - received)

/-- `done` are the blocks that both indexers have, and the others are in the
queues or in the hands of the goroutine, each with all its transaction events
published so far. -/
def Holds (service : Service) (done rest : List ExecutedBlock) : Point → Prop
  | .waiting =>
    service.headers = done.map ExecutedBlock.headerEvent ∧
      service.blockHeadersSub.out.buffer = rest.map ExecutedBlock.headerEvent ∧
      service.sent = resultsOf done ++ service.txsSub.out.buffer
  | .collecting event batch received =>
    ∃ block later, rest = block :: later ∧ event = block.headerEvent ∧
      received ≤ block.txs.length ∧ batch = filled block received ∧
      service.headers = done.map ExecutedBlock.headerEvent ∧
      service.blockHeadersSub.out.buffer = later.map ExecutedBlock.headerEvent ∧
      service.sent = resultsOf done ++ block.txResults.take received ++ service.txsSub.out.buffer
  | .indexed batch =>
    ∃ block later, rest = block :: later ∧ batch = block.txResults.map some ∧
      service.headers = (done ++ [block]).map ExecutedBlock.headerEvent ∧
      service.blockHeadersSub.out.buffer = later.map ExecutedBlock.headerEvent ∧
      service.sent = resultsOf (done ++ [block]) ++ service.txsSub.out.buffer
  | .panicked => False

/-- No event was lost or taken for one of another block or transaction. -/
structure Intact (service : Service) : Prop where
  holds : ∃ done rest, service.published = done ++ rest ∧
    service.batches = (done.map fun block => block.txResults.map some) ∧
    service.Holds done rest service.point
  attributable : ∀ block ∈ service.published, block.Attributable

def HasRoom (service : Service) : Label → Prop
  | .publishHeader block => service.blockHeadersSub.Accepts ∧ block.Attributable
  | .publishTx => service.txsSub.Accepts
  | _ => True

end Service

/-! ## The batch of a block -/

variable {result : TxResult}

namespace ExecutedBlock

variable {block : ExecutedBlock}

@[simp]
theorem length_txResults (block : ExecutedBlock) : block.txResults.length = block.txs.length := by
  simp [txResults]

theorem index_of_getElem? {i : ℕ} (hresult : block.txResults[i]? = some result) :
    result.index = .ofNat i := by
  rw [txResults, List.getElem?_map, List.getElem?_zipIdx] at hresult
  cases hentry : block.txs[i]? with
  | none => simp [hentry] at hresult
  | some entry =>
    simp only [hentry, Option.map_some, Option.some.injEq] at hresult
    rw [← hresult, Nat.zero_add]

/-- More than `2 ^ 32` transactions do not fit the type of the index. -/
theorem Attributable.length_le (hblock : block.Attributable) : block.txs.length ≤ 2 ^ 32 := by
  by_contra hlong
  rw [not_le] at hlong
  have hlength : (block.txResults.map TxResult.index).length = block.txs.length := by
    simp
  have hindex (i : ℕ) (hi : i < (block.txResults.map TxResult.index).length) :
      (block.txResults.map TxResult.index)[i] = .ofNat i := by
    rw [List.getElem_map]
    exact index_of_getElem? (List.getElem?_eq_getElem _)
  have hfirst : 0 < (block.txResults.map TxResult.index).length := by omega
  have hwrapped : 2 ^ 32 < (block.txResults.map TxResult.index).length := by omega
  have hsame : (block.txResults.map TxResult.index)[0] =
      (block.txResults.map TxResult.index)[2 ^ 32] := by
    rw [hindex 0 hfirst, hindex (2 ^ 32) hwrapped]
    decide
  have hzero := (List.Nodup.getElem_inj_iff hblock).1 hsame
  omega

end ExecutedBlock

namespace Service

variable {block : ExecutedBlock} {received : ℕ}

theorem filled_zero (block : ExecutedBlock) : filled block 0 = newBatch block.txs.length := by
  simp [filled]

theorem filled_length (block : ExecutedBlock) :
    filled block block.txs.length = block.txResults.map some := by
  simp [filled, newBatch, List.take_of_length_le]

theorem length_filled (hreceived : received ≤ block.txs.length) :
    (filled block received).length = block.txs.length := by
  simp [filled, newBatch]
  omega

theorem add_filled (hblock : block.Attributable)
    (hresult : block.txResults[received]? = some result) :
    (filled block received).add result = some (filled block (received + 1)) := by
  have hlt : received < block.txs.length := by
    have hsome := (List.getElem?_eq_some_iff.1 hresult).1
    simpa using hsome
  have hindex : result.index.toNat = received := by
    rw [ExecutedBlock.index_of_getElem? hresult]
    have hbound := hblock.length_le
    exact Nat.mod_eq_of_lt (by omega)
  have htake : block.txResults.take (received + 1) = block.txResults.take received ++ [result] := by
    rw [List.take_add_one, hresult]
    rfl
  have hrest : block.txs.length - received = (block.txs.length - (received + 1)) + 1 := by omega
  have hlength : ((block.txResults.take received).map some).length = received := by
    simp
    omega
  rw [Batch.add, hindex, if_pos (by rw [length_filled hlt.le]; exact hlt)]
  congr 1
  rw [filled, List.set_append_right _ _ hlength.le, hlength, Nat.sub_self, newBatch,
    hrest, List.replicate_succ, List.set_cons_zero, filled, htake, List.map_append,
    List.append_assoc]
  rfl

/-! ## Counting -/

def inHand : Point → ℕ
  | .waiting | .panicked => 0
  | .collecting .. | .indexed _ => 1

/-- The transaction events in the hands of the goroutine. -/
def taken : Point → ℕ
  | .waiting | .panicked => 0
  | .collecting _ _ received => received
  | .indexed batch => batch.length

theorem length_resultsOf (blocks : List ExecutedBlock) : (resultsOf blocks).length =
      ((blocks.map fun block => block.txResults.map some).map List.length).sum := by
  induction blocks with
  | nil => rfl
  | cons block blocks ih =>
    simp [resultsOf] at ih ⊢
    omega

theorem resultsOf_append (left right : List ExecutedBlock) :
    resultsOf (left ++ right) = resultsOf left ++ resultsOf right :=
  List.flatMap_append

theorem resultsOf_singleton (block : ExecutedBlock) : resultsOf [block] = block.txResults := by
  simp [resultsOf]

variable {service next : Service}

theorem Intact.count_headers (hservice : service.Intact) :
    service.published.length = service.batches.length + inHand service.point +
      service.blockHeadersSub.out.buffer.length := by
  obtain ⟨done, rest, hpublished, hbatches, hholds⟩ := hservice.holds
  rw [hpublished, hbatches, List.length_append, List.length_map]
  generalize service.point = point at hholds ⊢
  cases point with
  | waiting =>
    rw [hholds.2.1, List.length_map]
    rfl
  | collecting event batch received =>
    obtain ⟨block, later, rfl, -, -, -, -, hbuffer, -⟩ := hholds
    rw [hbuffer, List.length_map, List.length_cons, inHand]
    omega
  | indexed batch =>
    obtain ⟨block, later, rfl, -, -, hbuffer, -⟩ := hholds
    rw [hbuffer, List.length_map, List.length_cons, inHand]
    omega
  | panicked => exact hholds.elim

theorem Intact.count_txs (hservice : service.Intact) :
    service.sent.length = (service.batches.map List.length).sum +
      taken service.point + service.txsSub.out.buffer.length := by
  obtain ⟨done, rest, hpublished, hbatches, hholds⟩ := hservice.holds
  rw [hbatches, ← length_resultsOf]
  generalize service.point = point at hholds ⊢
  cases point with
  | waiting =>
    rw [hholds.2.2, List.length_append]
    rfl
  | collecting event batch received =>
    obtain ⟨block, later, -, -, hreceived, -, -, -, hsent⟩ := hholds
    rw [hsent, taken, List.length_append, List.length_append, List.length_take,
      ExecutedBlock.length_txResults, min_eq_left hreceived]
  | indexed batch =>
    obtain ⟨block, later, -, rfl, -, -, hsent⟩ := hholds
    rw [hsent, taken, resultsOf_append, resultsOf_singleton, List.length_append,
      List.length_append, List.length_map]
  | panicked => exact hholds.elim

/-! ## The publisher -/

def Ordered (service : Service) : Prop :=
  service.sent ++ service.remaining = resultsOf service.published

theorem intact_publishHeader_iff (hservice : service.Intact)
    (hstep : step service (.publishHeader block) = some next) :
    next.Intact ↔ service.blockHeadersSub.Accepts ∧ block.Attributable := by
  rw [step] at hstep
  split at hstep
  · obtain rfl := Option.some.inj hstep
    constructor
    · intro hnext
      refine ⟨?_, hnext.attributable block (by simp)⟩
      by_contra hfull
      have hbefore := hservice.count_headers
      have hafter := hnext.count_headers
      dsimp only at hafter
      rw [Subscription.buffer_publish_of_not_accepts hfull, List.length_append,
        List.length_singleton] at hafter
      omega
    · rintro ⟨haccepts, hblock⟩
      have hbuffer := Subscription.buffer_publish_of_accepts haccepts block.headerEvent
      obtain ⟨done, rest, hpublished, hbatches, hholds⟩ := hservice.holds
      constructor
      · refine ⟨done, rest ++ [block], ?_, hbatches, ?_⟩
        · rw [hpublished, List.append_assoc]
        · change Holds _ done (rest ++ [block]) service.point
          generalize service.point = point at hholds ⊢
          cases point with
          | waiting =>
            obtain ⟨hheaders, hqueue, hsent⟩ := hholds
            refine ⟨hheaders, ?_, hsent⟩
            rw [hbuffer, hqueue, List.map_append]
            rfl
          | collecting event batch received =>
            obtain ⟨current, later, rfl, hevent, hreceived, hbatch, hheaders, hqueue,
              hsent⟩ := hholds
            refine ⟨current, later ++ [block], rfl, hevent, hreceived, hbatch, hheaders, ?_, hsent⟩
            rw [hbuffer, hqueue, List.map_append]
            rfl
          | indexed batch =>
            obtain ⟨current, later, rfl, hbatch, hheaders, hqueue, hsent⟩ := hholds
            refine ⟨current, later ++ [block], rfl, hbatch, hheaders, ?_, hsent⟩
            rw [hbuffer, hqueue, List.map_append]
            rfl
          | panicked => exact hholds
      · intro other hother
        rcases List.mem_append.1 hother with hold | hnew
        · exact hservice.attributable other hold
        · rw [List.mem_singleton.1 hnew]
          exact hblock
  · cases hstep

theorem intact_publishTx_iff (hservice : service.Intact)
    (hstep : step service .publishTx = some next) : next.Intact ↔ service.txsSub.Accepts := by
  rw [step] at hstep
  split at hstep
  · cases hstep
  · rename_i result remaining hremaining
    obtain rfl := Option.some.inj hstep
    constructor
    · intro hnext
      by_contra hfull
      have hbefore := hservice.count_txs
      have hafter := hnext.count_txs
      dsimp only at hafter
      rw [Subscription.buffer_publish_of_not_accepts hfull, List.length_append,
        List.length_singleton] at hafter
      omega
    · intro haccepts
      have hbuffer := Subscription.buffer_publish_of_accepts haccepts result
      obtain ⟨done, rest, hpublished, hbatches, hholds⟩ := hservice.holds
      refine ⟨⟨done, rest, hpublished, hbatches, ?_⟩, hservice.attributable⟩
      change Holds _ done rest service.point
      generalize service.point = point at hholds ⊢
      cases point with
      | waiting =>
        obtain ⟨hheaders, hqueue, hsent⟩ := hholds
        refine ⟨hheaders, hqueue, ?_⟩
        rw [hbuffer, hsent, List.append_assoc]
      | collecting event batch received =>
        obtain ⟨current, later, hrest, hevent, hreceived, hbatch, hheaders, hqueue, hsent⟩ := hholds
        refine ⟨current, later, hrest, hevent, hreceived, hbatch, hheaders, hqueue, ?_⟩
        rw [hbuffer, hsent, List.append_assoc]
      | indexed batch =>
        obtain ⟨current, later, hrest, hbatch, hheaders, hqueue, hsent⟩ := hholds
        refine ⟨current, later, hrest, hbatch, hheaders, hqueue, ?_⟩
        rw [hbuffer, hsent, List.append_assoc]
      | panicked => exact hholds

/-! ## The goroutine -/

theorem Intact.takeHeader (hservice : service.Intact)
    (hstep : step service .takeHeader = some next) : next.Intact := by
  rw [step] at hstep
  split at hstep
  · rename_i hpoint
    obtain ⟨⟨event, out⟩, hreceive, rfl⟩ := Option.map_eq_some_iff.1 hstep
    obtain ⟨done, rest, hpublished, hbatches, hholds⟩ := hservice.holds
    rw [hpoint] at hholds
    obtain ⟨hheaders, hqueue, hsent⟩ := hholds
    rw [Channel.buffer_of_receive hreceive] at hqueue
    obtain ⟨block, later, rfl, rfl, hlater⟩ := List.map_eq_cons_iff.1 hqueue.symm
    refine ⟨⟨done, block :: later, hpublished, hbatches, ?_⟩, hservice.attributable⟩
    refine ⟨block, later, rfl, rfl, Nat.zero_le _, (filled_zero block).symm, hheaders,
      hlater.symm, ?_⟩
    simpa using hsent
  · cases hstep

theorem next_result {done later : List ExecutedBlock} {buffer : List TxResult}
    (hordered : service.Ordered) (hpublished : service.published = done ++ block :: later)
    (hsent : service.sent = resultsOf done ++ block.txResults.take received ++ result :: buffer)
    (hreceived : received < block.txs.length) : block.txResults[received]? = some result := by
  have hevents : resultsOf done ++ (block.txResults.take received ++
      result :: (buffer ++ service.remaining)) =
      resultsOf done ++ (block.txResults ++ resultsOf later) := by
    calc resultsOf done ++ (block.txResults.take received ++
          result :: (buffer ++ service.remaining))
        = service.sent ++ service.remaining := by rw [hsent]; simp
      _ = resultsOf service.published := hordered
      _ = resultsOf done ++ (block.txResults ++ resultsOf later) := by
          rw [hpublished, resultsOf_append]
          rfl
  have hsame := congrArg (fun list => list[received]?) (List.append_cancel_left hevents)
  have hlength : (block.txResults.take received).length = received := by
    simp
    omega
  rw [List.getElem?_append_right hlength.le, hlength, Nat.sub_self,
    List.getElem?_append_left (by simpa using hreceived)] at hsame
  exact hsame.symm

theorem Intact.takeTx (hordered : service.Ordered) (hservice : service.Intact)
    (hstep : step service .takeTx = some next) : next.Intact := by
  rw [step] at hstep
  split at hstep
  · rename_i event batch received hpoint
    obtain ⟨hlt, hmap⟩ := Option.ite_none_right_eq_some.1 hstep
    obtain ⟨⟨result, out⟩, hreceive, rfl⟩ := Option.map_eq_some_iff.1 hmap
    obtain ⟨done, rest, hpublished, hbatches, hholds⟩ := hservice.holds
    rw [hpoint] at hholds
    obtain ⟨block, later, rfl, rfl, hreceived, rfl, hheaders, hqueue, hsent⟩ := hholds
    rw [Channel.buffer_of_receive hreceive] at hsent
    have hresult := next_result hordered hpublished hsent hlt
    have hblock : block.Attributable := hservice.attributable block (by rw [hpublished]; simp)
    have htake : block.txResults.take (received + 1) =
        block.txResults.take received ++ [result] := by
      rw [List.take_add_one, hresult]
      rfl
    refine ⟨⟨done, block :: later, hpublished, hbatches, ?_⟩, hservice.attributable⟩
    dsimp only
    rw [add_filled hblock hresult]
    refine ⟨block, later, rfl, rfl, hlt, rfl, hheaders, hqueue, ?_⟩
    rw [hsent, htake]
    simp
  · cases hstep

theorem Intact.indexBlock (hservice : service.Intact)
    (hstep : step service .indexBlock = some next) : next.Intact := by
  rw [step] at hstep
  split at hstep
  · rename_i event batch received hpoint
    split at hstep
    · cases hstep
    · rename_i hall
      obtain rfl := Option.some.inj hstep
      obtain ⟨done, rest, hpublished, hbatches, hholds⟩ := hservice.holds
      rw [hpoint] at hholds
      obtain ⟨block, later, rfl, rfl, hreceived, rfl, hheaders, hqueue, hsent⟩ := hholds
      obtain rfl : received = block.txs.length := le_antisymm hreceived (not_lt.1 hall)
      refine ⟨⟨done, block :: later, hpublished, hbatches, ?_⟩, hservice.attributable⟩
      refine ⟨block, later, rfl, filled_length block, ?_, hqueue, ?_⟩
      · rw [hheaders, List.map_append]
        rfl
      · rw [hsent, resultsOf_append, resultsOf_singleton, List.take_of_length_le (by simp)]
  · cases hstep

theorem Intact.addBatch (hservice : service.Intact) (hstep : step service .addBatch = some next) :
    next.Intact := by
  rw [step] at hstep
  split at hstep
  · rename_i batch hpoint
    obtain rfl := Option.some.inj hstep
    obtain ⟨done, rest, hpublished, hbatches, hholds⟩ := hservice.holds
    rw [hpoint] at hholds
    obtain ⟨block, later, rfl, rfl, hheaders, hqueue, hsent⟩ := hholds
    refine ⟨⟨done ++ [block], later, ?_, ?_, hheaders, hqueue, hsent⟩, hservice.attributable⟩
    · rw [hpublished, List.append_assoc]
      rfl
    · rw [hbatches, List.map_append]
      rfl
  · cases hstep

theorem Ordered.step {label : Label} (hordered : service.Ordered)
    (hstep : step service label = some next) : next.Ordered := by
  cases label with
  | publishHeader block =>
    rw [Service.step] at hstep
    split at hstep
    · rename_i hremaining
      obtain rfl := Option.some.inj hstep
      rw [Ordered, hremaining, List.append_nil] at hordered
      rw [Ordered, resultsOf_append, resultsOf_singleton, hordered]
    · cases hstep
  | publishTx =>
    rw [Service.step] at hstep
    split at hstep
    · cases hstep
    · rename_i result remaining hremaining
      obtain rfl := Option.some.inj hstep
      rw [Ordered, hremaining] at hordered
      rw [Ordered, ← hordered, List.append_assoc]
      rfl
  | takeHeader =>
    rw [Service.step] at hstep
    split at hstep
    · obtain ⟨⟨event, out⟩, -, rfl⟩ := Option.map_eq_some_iff.1 hstep
      exact hordered
    · cases hstep
  | takeTx =>
    rw [Service.step] at hstep
    split at hstep
    · obtain ⟨-, hmap⟩ := Option.ite_none_right_eq_some.1 hstep
      obtain ⟨⟨result, out⟩, -, rfl⟩ := Option.map_eq_some_iff.1 hmap
      exact hordered
    · cases hstep
  | indexBlock =>
    rw [Service.step] at hstep
    split at hstep
    · split at hstep
      · cases hstep
      · obtain rfl := Option.some.inj hstep
        exact hordered
    · cases hstep
  | addBatch =>
    rw [Service.step] at hstep
    split at hstep
    · obtain rfl := Option.some.inj hstep
      exact hordered
    · cases hstep

theorem intact_step_iff {label : Label} (hordered : service.Ordered) (hservice : service.Intact)
    (hstep : step service label = some next) : next.Intact ↔ service.HasRoom label := by
  cases label with
  | publishHeader block => exact intact_publishHeader_iff hservice hstep
  | publishTx => exact intact_publishTx_iff hservice hstep
  | takeHeader => exact iff_of_true (hservice.takeHeader hstep) trivial
  | takeTx => exact iff_of_true (hservice.takeTx hordered hstep) trivial
  | indexBlock => exact iff_of_true (hservice.indexBlock hstep) trivial
  | addBatch => exact iff_of_true (hservice.addBatch hstep) trivial

end Service

/-- Throughout a run no event is lost or misattributed exactly when every event is
published while its subscription has room, and the transactions of every block can
be told apart by their index. -/
theorem intact_iff_has_room (labels : List Label) :
    (∀ move ∈ Service.lts.path Service.lts.start labels, move.target.Intact) ↔
      ∀ move ∈ Service.lts.path Service.lts.start labels, move.source.HasRoom move.label := by
  have hbase (service : Service) (label : Label) (next : Service)
      (hordered : service.Ordered) (hstep : Service.lts.step service label = some next) :
      next.Ordered := hordered.step hstep
  have hinv (service : Service) (label : Label) (next : Service)
      (hordered : service.Ordered) (hservice : service.Intact)
      (hstep : Service.lts.step service label = some next) :
      next.Intact ↔ service.HasRoom label :=
    Service.intact_step_iff hordered hservice hstep
  have hstart : Service.lts.start.Intact := by
    refine ⟨⟨[], [], rfl, rfl, rfl, rfl, rfl⟩, ?_⟩
    intro block hblock
    cases hblock
  have hordered : Service.lts.start.Ordered := rfl
  exact Lts.forall_path_iff hbase hinv hordered hstart labels

namespace Service

theorem exists_move_of_publishTxs (service : Service) {n : ℕ}
    (hremaining : service.remaining.length = n + 1) :
    ∃ move ∈ lts.path service (List.replicate (n + 1) .publishTx),
      move.target.sent.length = service.sent.length + (n + 1) ∧
      move.target.batches = service.batches ∧ move.target.point = service.point := by
  induction n generalizing service with
  | zero =>
    obtain ⟨result, hresult⟩ := List.length_eq_one_iff.1 hremaining
    have hstep : lts.step service .publishTx = some { service with
        txsSub := service.txsSub.publish result
        remaining := []
        sent := service.sent ++ [result] } := by
      change step service .publishTx = _
      rw [step, hresult]
    rw [List.replicate_succ, Lts.path_cons_of_some hstep]
    exact ⟨_, List.mem_cons_self, by simp, rfl, rfl⟩
  | succ n ih =>
    obtain ⟨result, rest, hresult⟩ := List.exists_cons_of_length_eq_add_one hremaining
    have hstep : lts.step service .publishTx = some { service with
        txsSub := service.txsSub.publish result
        remaining := rest
        sent := service.sent ++ [result] } := by
      change step service .publishTx = _
      rw [step, hresult]
    rw [hresult, List.length_cons] at hremaining
    obtain ⟨move, hmove, hsent, hbatches, hpoint⟩ := ih { service with
      txsSub := service.txsSub.publish result
      remaining := rest
      sent := service.sent ++ [result] } (by simpa using hremaining)
    rw [List.replicate_succ, Lts.path_cons_of_some hstep]
    refine ⟨move, List.mem_cons_of_mem _ hmove, ?_, hbatches, hpoint⟩
    rw [hsent, List.length_append, List.length_singleton]
    omega

/-- A block with more transactions than the subscription holds is not indexed as a
whole if the service is slow. -/
theorem exists_not_intact_of_large {block : ExecutedBlock} {n : ℕ}
    (hlength : block.txs.length = n + 1) (hlarge : 10000 ≤ n) :
    ∃ move ∈ lts.path lts.start (.publishHeader block :: List.replicate (n + 1) .publishTx),
      ¬ move.target.Intact := by
  let announced : Service := { lts.start with
    blockHeadersSub := lts.start.blockHeadersSub.publish block.headerEvent
    remaining := block.txResults
    published := [block] }
  have hstep : lts.step lts.start (.publishHeader block) = some announced := rfl
  have hremaining : announced.remaining.length = n + 1 := block.length_txResults.trans hlength
  obtain ⟨move, hmove, hsent, hbatches, hpoint⟩ := exists_move_of_publishTxs announced hremaining
  rw [Lts.path_cons_of_some hstep]
  refine ⟨move, List.mem_cons_of_mem _ hmove, fun hintact => ?_⟩
  have hcount := hintact.count_txs
  have hle := move.target.txsSub.out.length_le
  rw [hsent, hbatches, hpoint] at hcount
  simp [announced, lts, taken] at hcount
  omega

end Service

namespace Reference

def block (height : UInt64) (txs : ℕ) : ExecutedBlock :=
  ⟨{ (default : Header) with height := height }, List.replicate txs ([], ⟨0, [], "", 0, 0⟩)⟩

def elevenBlocks : List Label :=
  (List.range 11).map fun height => .publishHeader (block (.ofNat height) 0)

end Reference

open Reference in
/-- The eleventh header finds its subscription full and is lost, and so is the last
transaction of a block with 10001 of them. -/
theorem header_and_transaction_lost : (∃ move ∈ Service.lts.path Service.lts.start elevenBlocks,
      move.target.published.length = 11 ∧
      move.target.blockHeadersSub.cancelled = true ∧ ¬ move.target.Intact) ∧
    ∃ move ∈ Service.lts.path Service.lts.start
        (.publishHeader (block 1 10001) :: List.replicate 10001 .publishTx),
      ¬ move.target.Intact := by
  constructor
  · have hrun : (11, 0, true, 10) ∈
        (Service.lts.path Service.lts.start elevenBlocks).map fun move =>
          (move.target.published.length,
            move.target.batches.length + Service.inHand move.target.point,
            move.target.blockHeadersSub.cancelled,
            move.target.blockHeadersSub.out.buffer.length) := by
      decide +kernel
    obtain ⟨move, hmove, hview⟩ := List.mem_map.1 hrun
    simp only [Prod.mk.injEq] at hview
    obtain ⟨hpublished, hhandled, hcancelled, hbuffer⟩ := hview
    refine ⟨move, hmove, hpublished, hcancelled, fun hintact => ?_⟩
    have hcount := hintact.count_headers
    omega
  · exact Service.exists_not_intact_of_large (List.length_replicate) le_rfl

end Dymint.Indexer
