import Dymint.Block.Manager

/-!
# Retrieving blocks from the data availability layer

`processNextDABatch` and `updateStateIndex`, the two steps with which the
retrieve loop follows the settlement layer.  The answers of the settlement layer
and of the data availability layer are inputs.
-/

namespace Dymint.Manager

open Procedure Dymint.Types Store

variable {α : Type} (env : Env α)

inductive StatusCode where
  | unknown
  | success
  | timeout
  | error
  deriving DecidableEq

/-- `da.ResultRetrieveBatch`.  A nil entry of the list is `none`. -/
structure ResultRetrieveBatch where
  code : StatusCode
  message : String
  batches : List (Option Batch)
  deriving DecidableEq

def fetchBatch (result : ResultRetrieveBatch) :
    Result Error (List (Option Batch)) :=
  match result.code with
  | .error => .err (.new ("failed to retrieve batch: " ++ result.message))
  | .timeout => .err (.new ("timeout during retrieve batch: " ++ result.message))
  | _ => .ok result.batches

def applyBatch : List Block → List Commit → M α Unit
  | [], _ => return ()
  | _ :: _, [] => Proc.abort
  | block :: blocks, commit :: commits => do
    applyBlock env block commit
    applyBatch blocks commits

def applyBatches : List (Option Batch) → M α Unit
  | [] => return ()
  | none :: _ => Proc.abort
  | some batch :: batches => do
    applyBatch env batch.blocks batch.commits
    applyBatches batches

def processNextDABatch (result : ResultRetrieveBatch) : M α Unit := do
  let batches ← Proc.ofResult (fetchBatch result)
  applyBatches env batches

/-- `updateStateIndex` sets the index in place and persists the whole state. -/
def updateStateIndex (stateIndex : UInt64) : M α Unit := do
  modifyLastState fun state => state.setSLStateIndex stateIndex
  let lastState ← getLastState
  updateStoreState env id lastState

end Dymint.Manager
