import Dymint.Block.ExactlyOnce

/-!
# The calls that the application sees

On its consensus connection the application expects, in one lifetime of the
process, blocks that are begun, executed, ended and committed one after another.
`applyBlock` respects this when it finds the application between two blocks;
what it leaves behind when it fails on the way is a block that has been begun.
-/

namespace Dymint.Manager

open Procedure Dymint.Types Store CrashSystem

/-! ## The language of the consensus connection -/

/-- Where the application is in the word of calls it has seen. -/
inductive Stage where
  | between
  | begun
  | ended
  deriving DecidableEq

def Stage.next : Stage → AbciCall → Option Stage
  | _, .restart => some .between
  | .between, .initChain => some .between
  | .between, .beginBlock _ => some .begun
  | .begun, .deliverTx => some .begun
  | .begun, .endBlock _ => some .ended
  | .ended, .commit _ => some .between
  | _, _ => none

/-- What the calls amount to: the stage, unless they left the language, and the
heights of the blocks begun since the last restart. -/
structure History where
  stage : Option Stage
  begun : List ℕ
  deriving DecidableEq

def History.log (history : History) (entry : AbciCall) : History where
  stage := history.stage.bind (·.next entry)
  begun :=
    match entry with
    | .restart => []
    | .beginBlock height => history.begun ++ [height.toUInt64.toNat]
    | _ => history.begun

def history (calls : List AbciCall) : History := calls.foldl History.log ⟨some .between, []⟩

theorem history_append (calls : List AbciCall) (entry : AbciCall) :
    history (calls ++ [entry]) = (history calls).log entry := by
  simp [history]

theorem History.log_initChain {history : History} (hbetween : history.stage = some .between) :
    history.log .initChain = history := by
  obtain ⟨stage, begun⟩ := history
  obtain rfl : stage = some .between := hbetween
  rfl

def Node.history {α : Type} (node : Node α) : History := Manager.history node.app.calls

structure Orderly {α : Type} (node : Node α) : Prop where
  word : node.history.stage ≠ none
  once : node.history.begun.Nodup
  committed : node.history.stage = some .between → ∀ height ∈ node.history.begun,
    height ≤ node.core.appHeight.toNat ∧ node.core.appHeight.toNat ≤ node.height.toNat + 1

/-! ## The course of a call -/

def History.reach (history : History) (height : ℕ) : Point → History
  | .delivering .. => ⟨some .begun, history.begun ++ [height]⟩
  | .executed _ | .remembered _ | .persisted _ =>
    ⟨some .ended, history.begun ++ [height]⟩
  | .committed .. | .published .. | .pruned .. | .stored .. | .finished | .done =>
    ⟨some .between, history.begun ++ [height]⟩
  | _ => history

section

variable {α : Type} {env : Env α} {rules : Proc.Rules (Node α) Answer}
variable {block : Block} {commit : Commit} {start later : Node α} {point : Point}

section

variable (hbetween : start.history.stage = some .between)

include hbetween

theorem During.history_eq (hduring : During env block commit start point later) :
    later.history = start.history.reach block.header.height.toNat point := by
  induction hduring with
  | start | hashed | saved => rfl
  | begun hnow _ _ =>
    obtain rfl := hnow.eq_saved
    have hstage : (history start.app.calls).stage = some .between := hbetween
    rw [Node.history, AppConn.log, history_append, History.log, hstage, UInt64.toUInt64_toInt64]
    rfl
  | delivered _ ih | ended _ ih | committed _ ih =>
    exact (history_append _ _).trans (congrArg (History.log · _) ih)
  | _ => assumption

theorem Orderly.during (hnode : Orderly start)
    (hidle : start.core.Idle True)
    (hnext : block.header.height = start.height + 1)
    (hduring : During env block commit start point later) : Orderly later := by
  have hhistory := hduring.history_eq hbetween
  have happ := hduring.appHeights
  have hreached := hduring.reached
  have hnat : block.header.height.toNat = start.height.toNat + 1 := toNat_next hidle.always hnext
  have hgrows : start.height.toNat ≤ later.height.toNat := by
    by_cases hfinal : point.Final
    · rw [hduring.height_of_final hfinal]
      omega
    · rw [hduring.height_eq hfinal]
  have hbelow (happ : start.core.appHeight ≠ block.header.height) (other : ℕ)
      (hother : other ∈ start.history.begun) : other < block.header.height.toNat := by
    have hle := hnode.committed hbetween other hother
    have hne : start.core.appHeight.toNat ≠ block.header.height.toNat :=
      fun heq => happ (UInt64.toNat_inj.1 heq)
    omega
  have hheight {app : UInt64} (happ : start.core.appHeight ≠ block.header.height)
      (hlater : app = block.header.height) (other : ℕ)
      (hother : other ∈ start.history.begun ++ [block.header.height.toNat]) :
      other ≤ app.toNat ∧ app.toNat ≤ later.height.toNat + 1 := by
    rw [hlater]
    rcases List.mem_append.1 hother with hold | hnew
    · have hlt := hbelow happ other hold
      omega
    · rw [List.mem_singleton.1 hnew]
      omega
  have honce (happ : start.core.appHeight ≠ block.header.height) :
      (start.history.begun ++ [block.header.height.toNat]).Nodup := by
    rw [← List.concat_eq_append]
    apply hnode.once.concat
    intro hmem
    exact lt_irrefl _ (hbelow happ _ hmem)
  cases point with
  | start | hashed | recorded | rotated | resulted | caughtUp | aligned | saved =>
    have happ : later.core.appHeight = start.core.appHeight :=
      congrArg (fun app : AppConn α => app.lastBlockHeight.toUInt64) happ
    refine ⟨?_, ?_, ?_⟩ <;> rw [hhistory]
    · exact hnode.word
    · exact hnode.once
    · rw [happ]
      intro hstage other hother
      have hle := hnode.committed hstage other hother
      omega
  | delivering | executed | remembered | persisted =>
    refine ⟨by simp [hhistory, History.reach], ?_, ?_⟩ <;> rw [hhistory]
    · exact honce hreached.1
    · simp [History.reach]
  | committed | published | pruned | stored | finished | done =>
    refine ⟨by simp [hhistory, History.reach], ?_, ?_⟩ <;> rw [hhistory]
    · exact honce hreached.1
    · intro _
      apply hheight hreached.1
      exact (congrArg Int64.toUInt64 happ).trans (UInt64.toUInt64_toInt64 _)

theorem During.between_of_final (hduring : During env block commit start point later)
    (hfinal : point.Final) :
    later.history.stage = some .between := by
  rw [hduring.history_eq hbetween]
  cases point with
  | aligned => exact hbetween
  | done => rfl
  | _ => exact absurd hfinal id

end

end

/-! ## Runs -/

def betweenGuard {α : Type} : Guard (Node α) Answer Request where
  answer _ _ := True
  call node request := TriesNext node request → node.history.stage = some .between
  crash _ := True

instance {α : Type} (node : Node α) (label : Label Answer Request) :
    Decidable (betweenGuard.Permits node label) :=
  betweenGuard.decidablePermits node (fun _ => .isTrue trivial)
    (fun request => inferInstanceAs (Decidable (TriesNext node request →
      node.history.stage = some .between))) (.isTrue trivial) label

section

variable {α : Type} {env : Env α} {rules : Proc.Rules (Node α) Answer}
variable {node : Node α}

variable (hrules : ∀ node : Node α, node.core.Always True ∧ Orderly node → rules.crash node)

include hrules

/-- Calls that start between two blocks keep the order, and they only return
without an error when the application is between blocks again. -/
theorem orderly_apply (env : Env α) : ApplyInvariant env rules
      (fun node => node.core.Idle True ∧ Orderly node ∧ node.history.stage = some .between)
      (fun node => node.core.Idle True ∧ Orderly node)
      (fun node => node.core.Always True ∧ Orderly node) where
  crash := hrules
  always_of_idle _ h := ⟨h.1.always, h.2.1⟩
  failed_of_idle _ h := ⟨h.1, h.2.1⟩
  gossip _ _ _ h := ⟨h.1, ⟨h.2.1.word, h.2.1.once, h.2.1.committed⟩, h.2.2⟩
  applyBlock start block commit := by
    rintro ⟨hidle, horderly, hbetween⟩
    apply wp_applyBlock_returning hrules (fun _ h => ⟨h.1.always, h.2⟩)
      (fun _ h => ⟨h.1, h.2.1⟩) (height_lt_next hidle) ⟨hidle, horderly, hbetween⟩
    intro point later hnext hlater
    have hkept := horderly.during hbetween hidle hnext hlater
    exact ⟨⟨hlater.idle hidle hnext, hkept⟩, fun hfinal =>
      ⟨hlater.idle hidle hnext, hkept, hlater.between_of_final hbetween hfinal⟩⟩

theorem wp_serve_orderly (request : Request) (hidle : node.core.Idle True) (hnode : Orderly node)
    (hguard : TriesNext node request → node.history.stage = some .between) :
    (serve env request).wp rules (Proc.Ends (fun _ later => later.core.Idle True ∧ Orderly later)
        (fun later => later.core.Idle True ∧ Orderly later)
        (fun later => later.core.Always True ∧ Orderly later)) node := by
  have hkept {later : Node α} (happ : later.app = node.app) (hheight : later.height = node.height) :
      Orderly later := by
    refine ⟨?_, ?_, ?_⟩ <;> rw [Node.history, happ]
    · exact hnode.word
    · exact hnode.once
    · rw [Node.core, happ, hheight]
      exact hnode.committed
  apply (orderly_apply hrules env).serve_of_tries request
  · intro index
    exact Proc.wp_ends_and (wp_updateStateIndex env index (fun _ h => h) hidle)
      (wp_updateStateIndex_keeping (fun _ h => h) (fun _ h => h) hnode (hkept rfl rfl)
        fun _ _ => hkept rfl rfl)
      fun later halways horderly => hrules later ⟨halways, horderly⟩
  · intro endHeight
    exact ⟨hidle, hkept rfl rfl⟩
  · intro later hlater
    exact ⟨hlater.1, hlater.2.1⟩
  · exact ⟨hidle, hnode⟩
  · exact ⟨hidle.always, hnode⟩
  · intro htries
    exact ⟨hidle, hnode, hguard htries⟩

end

/-- No block has been begun since the last restart. -/
def Node.Unbegun {α : Type} (node : Node α) : Prop := node.history = ⟨some .between, []⟩

theorem Node.Unbegun.orderly {α : Type} {node : Node α} (hnode : node.Unbegun) : Orderly node := by
  refine ⟨?_, ?_, ?_⟩ <;> rw [hnode] <;> simp

/-- A restart leaves the application between two blocks. -/
theorem unbegun_crash {α : Type} {node : Node α} (hnode : Orderly node) : (crash node).Unbegun := by
  rw [Node.Unbegun, Node.history, crash, AppConn.log, history_append, History.log]
  cases hstage : (history node.app.calls).stage with
  | none => exact absurd hstage hnode.word
  | some stage => cases stage <;> rfl

/-- Starting the manager sends at most `InitChain`. -/
theorem bootSpec_orderly {α : Type} {env : Env α}
    {rules : Proc.Rules (Node α) Answer} {node : Node α}
    (hrules : ∀ node : Node α, Orderly node → rules.crash node) (hnode : node.Unbegun) :
    BootSpec env rules True Orderly Orderly node := by
  have hkept {later : Node α} (hhistory : later.history = node.history) : Orderly later :=
    Node.Unbegun.orderly (hhistory.trans hnode)
  have hinit : (history (node.app.calls ++ [.initChain])) = node.history :=
    (history_append _ _).trans (History.log_initChain (congrArg History.stage hnode))
  exact
    { start := hrules _ hnode.orderly
      read := fun _ _ _ => Or.inr trivial
      loading := fun _ _ _ => ⟨hrules _ (hkept rfl), hkept rfl⟩
      resume := fun _ _ _ _ _ => hkept rfl
      initialised := fun _ _ _ _ _ =>
        ⟨hrules _ (hkept hinit), hkept hinit, fun _ _ _ =>
          ⟨hrules _ (hkept hinit), hkept hinit, hkept hinit⟩⟩ }

theorem orderly_certificate {α : Type} (env : Env α) (app : α) :
    Certificate (system env) betweenGuard (freshNode app)
      (fun node => node.core.Idle True ∧ Orderly node)
      (fun node => node.core.Always True ∧ Orderly node)
      (fun node => node.core.Down True ∧ node.Unbegun) where
  start := ⟨freshNode_down app, rfl⟩
  always_of_durable _ h := ⟨h.1.always, h.2.orderly⟩
  always_of_idle _ h := ⟨h.1.always, h.2⟩
  crash _ h _ := ⟨crash_core h.1, unbegun_crash h.2⟩
  boot _ h := Proc.wp_ends_and (wp_newManager env (fun _ h => h) (fun _ _ _ => Or.inr trivial) h.1)
      (wp_newManager_of (bootSpec_orderly (fun _ h => h) h.2))
      fun _ => And.intro
  serve _ request h hcall := wp_serve_orderly (fun _ h => h) request h.1 h.2 hcall

/-- In every run that restarts the process after a failure inside a block before
it tries the next height again, the calls on the consensus connection form a
word of the language. -/
theorem calls_form_word {α : Type} (env : Env α) (app : α) {config : Config (Node α) Answer Error}
    (hreach : Reachable (system env) betweenGuard (freshNode app) config) :
    config.state.history.stage ≠ none :=
  ((orderly_certificate env app).sound hreach).2.word

def failedInsideBlock : List (Label Answer Request) :=
  Reference.firstBoot ++ .call (Reference.produceAt 5 [[1]]) :: Reference.steps 20 ++
    [.step .failBefore, .ret]

/-- The next call begins the block again, on top of its first execution. -/
theorem block_begun_twice : ∃ config, ReachableNode Reference.env [] config ∧
      config.state.app.calls = [.initChain, .beginBlock 1, .deliverTx, .endBlock 1, .beginBlock 1] ∧
      config.state.history.stage = none := by
  have hrun : ((system Reference.env).run ⟨freshNode [], .down⟩ (failedInsideBlock ++
        .call (Reference.produceAt 6 []) :: Reference.steps 10)).map
      (fun config => config.state.app.calls) =
        some [.initChain, .beginBlock 1, .deliverTx, .endBlock 1,
          .beginBlock 1] := by decide +kernel
  obtain ⟨config, hreach, hcalls⟩ := exists_reachableNode _ hrun
  refine ⟨config, hreach, hcalls, ?_⟩
  rw [Node.history, hcalls]
  rfl

theorem calls_form_word_reference : ∃ config,
      Reachable (system Reference.env) betweenGuard (freshNode []) config ∧
      config.state.app.calls.length = 10 ∧
      config.state.history.stage ≠ none := by
  have hrun : ((system Reference.env).runGuarded betweenGuard ⟨freshNode [], .down⟩
      (failedInsideBlock ++ .crash :: .boot :: Reference.steps 6 ++
        .ret :: .call (Reference.produceAt 6 []) :: Reference.steps 30 ++
        [.ret])).map (fun config => config.state.app.calls.length) =
      some 10 := by decide +kernel
  obtain ⟨config, hreach, hcalls⟩ := exists_reachable_of_runGuarded _ hrun
  exact ⟨config, hreach, hcalls, calls_form_word Reference.env [] hreach⟩

end Dymint.Manager
