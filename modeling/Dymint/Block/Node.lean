import Dymint.Store.Store
import Dymint.State.Executor

/-!
# The node and its atomic steps

The state that the goroutines of a node share: the block store (its database
survives a crash, its cached heights do not), the manager's `lastState`, the
connection to the application, and what the node has sent out.  Every call into
the store or the application is one atomic step, and every such call can fail
before or after it takes effect.
-/

namespace Dymint.Manager

open Procedure Dymint.Types Store

/-- What a call into an outside component does: succeed, fail without effect,
or fail after its effect has taken place. -/
inductive Answer where
  | ok
  | failBefore
  | failAfter
  deriving DecidableEq, Inhabited

inductive AbciCall where
  | initChain
  | beginBlock (height : Int64)
  | deliverTx
  | endBlock (height : Int64)
  | commit (height : Int64)
  | restart
  deriving DecidableEq

/-- The application and the history of the calls it has seen.  Until the next
commit, calls act on `working` only. -/
structure AppConn (α : Type) where
  committed : α
  working : α
  workingHeight : Int64
  lastBlockHeight : Int64
  lastBlockAppHash : Bytes
  calls : List AbciCall

structure Node (α : Type) where
  db : Db
  height : UInt64
  baseHeight : UInt64
  lastState : State
  app : AppConn α
  syncTarget : UInt64
  /-- The blocks and commits that this node has gossiped. -/
  gossiped : List (Block × Commit)
  /-- The heights whose block events this node has published. -/
  published : List UInt64
  /-- Whether the process has yet to read its state; no step depends on it. -/
  unread : Bool

/-- The configuration of a node and the components it is connected to. -/
structure Env (α : Type) where
  tm : Tendermint
  app : Application α
  exec : Executor.BlockExecutor
  genesis : GenesisDoc
  sequencersList : List Sequencer
  /-- The public part of the proposer key, and signing with its private part
  as a libp2p key and as a Tendermint key. -/
  proposerPubKey : Bytes
  sign : Bytes → Except Error Signature
  tmSign : Bytes → Except Error Bytes

def Env.getProposer {α : Type} (env : Env α) : Option Sequencer :=
  env.sequencersList.find? fun sequencer => sequencer.status = .proposer

abbrev M (α β : Type) := Proc (Node α) Answer Error β

variable {α β : Type}

/-- A call that the environment may let fail; `onErr` is the context that its
caller adds to an error. -/
def callWith (onErr : Error → Error) (run : Node α → Node α × Result Error β) :
    M α β :=
  Proc.op fun answer node =>
    match answer with
    | .ok => ((run node).1, (run node).2.mapErr onErr)
    | .failBefore => (node, .err (onErr .fault))
    | .failAfter => ((run node).1, .err (onErr .fault))

abbrev call (run : Node α → Node α × Result Error β) : M α β := callWith id run

/-- A fallible read of the database. -/
def query (onErr : Error → Error) (view : Db → Result Error β) : M α β :=
  callWith onErr fun node => (node, view node.db)

/-- A fallible step of a component whose state the model leaves out. -/
def external : M α Unit := call fun node => (node, .ok ())

def commitBatch (onErr : Error → Error) (batch : WriteBatch) : M α Unit :=
  callWith onErr fun node => ({ node with db := node.db.commit batch }, .ok ())

/-! ## The cached heights of the store -/

def storeHeight : M α UInt64 := Proc.read Node.height

def storeBase : M α UInt64 := Proc.read Node.baseHeight

/-- `SetHeight`: a load followed by a single compare-and-swap. -/
def setHeight (height : UInt64) : M α Unit := do
  let storeHeight ← storeHeight
  if height > storeHeight then
    Proc.write fun node =>
      if node.height = storeHeight then { node with height := height } else node
  else pure ()

def setBase (height : UInt64) : M α Unit := do
  let baseHeight ← storeBase
  if height > baseHeight then
    Proc.write fun node =>
      if node.baseHeight = baseHeight then { node with baseHeight := height }
      else node
  else pure ()

/-! ## The state -/

def Node.mapState (node : Node α) (update : State → State) : Node α :=
  { node with lastState := update node.lastState }

def getLastState : M α State := Proc.read Node.lastState

/-- An assignment to `m.lastState` or to one of its fields. -/
def modifyLastState (update : State → State) : M α Unit :=
  Proc.write fun node => node.mapState update

/-- `UpdateState(state, nil)`. -/
def updateStoreState (env : Env α) (onErr : Error → Error) (state : State) :
    M α Unit :=
  callWith onErr fun node =>
    match updateState env.tm state with
    | .ok write => ({ node with db := node.db.apply write }, .ok ())
    | .error error => (node, .err error)

/-- `LoadState` reads the record and then stores its two heights.  Whatever makes
the read fail, it answers that there is no state. -/
def loadStoreState (env : Env α) : M α State := do
  let state ← Proc.op fun answer node =>
    ({ node with unread := false },
      match answer with
      | .ok => loadState env.tm node.db
      | .failBefore | .failAfter => .err .errNoStateFound)
  Proc.write fun node => { node with height := state.lastStoreHeight }
  Proc.write fun node => { node with baseHeight := state.baseHeight }
  return state

/-! ## The application -/

def AppConn.log (app : AppConn α) (entry : AbciCall) : AppConn α :=
  { app with calls := app.calls ++ [entry] }

def getAppInfo (onErr : Error → Error) : M α ResponseInfo :=
  callWith onErr fun node =>
    (node, .ok ⟨node.app.lastBlockHeight, node.app.lastBlockAppHash⟩)

def initChainSync (env : Env α) (request : RequestInitChain) :
    M α ResponseInitChain :=
  call fun node =>
    let (working, response) := env.app.initChain node.app.working request
    ({ node with app := { node.app with working := working }.log .initChain }, .ok response)

def beginBlockSync (env : Env α) (request : RequestBeginBlock) :
    M α ResponseBeginBlock :=
  call fun node =>
    let (working, response) := env.app.beginBlock node.app.working request
    ({ node with
        app := { node.app with
          working := working
          workingHeight := request.header.height }.log (.beginBlock request.header.height) },
      .ok response)

def deliverTxAsync (env : Env α) (tx : Tx) : M α ResponseDeliverTx :=
  call fun node =>
    let (working, response) := env.app.deliverTx node.app.working tx
    ({ node with app := { node.app with working := working }.log .deliverTx }, .ok response)

def endBlockSync (env : Env α) (height : Int64) : M α ResponseEndBlock :=
  call fun node =>
    let (working, response) := env.app.endBlock node.app.working height
    ({ node with
        app := { node.app with working := working }.log (.endBlock height) },
      .ok response)

/-- The commit persists the working state.  From then on `Info` reports the
height of the block begun last and the hash that the commit returns. -/
def AppConn.commit (app : AppConn α) (committed : α) (appHash : Bytes) :
    AppConn α :=
  { app with
    committed := committed
    working := committed
    lastBlockHeight := app.workingHeight
    lastBlockAppHash := appHash }.log (.commit app.workingHeight)

def commitSync (env : Env α) : M α ResponseCommit :=
  call fun node =>
    let (committed, response) := env.app.commit node.app.working
    ({ node with app := node.app.commit committed response.data }, .ok response)

/-! ## Crashes -/

def crash (node : Node α) : Node α :=
  { node with
    height := 0
    baseHeight := 0
    lastState := default
    syncTarget := 0
    unread := true
    app := { node.app with
      working := node.app.committed
      workingHeight := 0 }.log .restart }

end Dymint.Manager
