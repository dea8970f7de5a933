import Dymint.Block.Records
import Dymint.Block.Reference
import Dymint.Core.Steered
import Dymint.Types.Wire

/-!
# One block for each height

`produceBlock` gossips a block before `applyBlock` saves it.  What keeps it from signing
another block of that height later on is the pending block in the store alone: it is
missing if the process stops between the two, and it is replaced when another block of
its height arrives.  A pending block that cannot be read counts as missing.
-/

namespace Dymint.Manager

open Procedure Dymint.Types Store CrashSystem Runs

variable {α : Type}

/-! ## Gossiped blocks and stored ones -/

def OnePerHeight (gossiped : List (Block × Commit)) : Prop :=
  ∀ first ∈ gossiped, ∀ second ∈ gossiped,
    first.1.header.height = second.1.header.height → first.1 = second.1

def Repeats (gossiped : List (Block × Commit)) (block : Block) : Prop :=
  ∀ pair ∈ gossiped, pair.1.header.height = block.header.height → block.withoutEvidence = pair.1

structure Backed (env : Env α) (gossiped : List (Block × Commit)) (db : Db)
    (appHeight : UInt64) : Prop where
  indexed : Indexed env.tm db.blockRecords
  heights : ∀ height block, loadBlock db height = .ok block → block.header.height = height
  last : 0 < appHeight.toNat → (loadBlock db appHeight).Succeeds
  stored : ∀ pair ∈ gossiped, appHeight.toNat ≤ pair.1.header.height.toNat →
    loadBlock db pair.1.header.height = .ok pair.1

section

variable {env : Env α} {gossiped : List (Block × Commit)} {db : Db}
variable {appHeight : UInt64} {block : Block} {commit : Commit}

section

variable (hbacked : Backed env gossiped db appHeight)

include hbacked

theorem Backed.forget : Backed env [] db appHeight :=
  ⟨hbacked.indexed, hbacked.heights, hbacked.last, by simp⟩

theorem Backed.of_records {after : Db}
    (hrecords : after.blockRecords = db.blockRecords) : Backed env gossiped after appHeight := by
  have hsame := sameBlocks_of_records hrecords
  constructor
  · rw [hrecords]
    exact hbacked.indexed
  · intro height block
    rw [hsame.block]
    exact hbacked.heights height block
  · rw [hsame.block]
    exact hbacked.last
  · intro pair hpair hheight
    rw [hsame.block]
    exact hbacked.stored pair hpair hheight

theorem Backed.prune (hhash : HashesHeight env.tm)
    {heights : List UInt64} (hheights : ∀ height ∈ heights, height.toNat < appHeight.toNat) :
    Backed env gossiped (db.pruneAll heights) appHeight := by
  have hsame (other : UInt64) (hother : appHeight.toNat ≤ other.toNat) :
      loadBlock (db.pruneAll heights) other = loadBlock db other := by
    apply (sameAt_pruneAll hhash hbacked.indexed _).block
    intro hmem
    exact absurd (hheights other hmem) (by omega)
  constructor
  · exact hbacked.indexed.shrinks (shrinks_pruneAll db heights)
  · intro height block hload
    exact hbacked.heights height block (loadBlock_of_shrinks (shrinks_pruneAll db heights) hload)
  · rw [hsame appHeight le_rfl]
    exact hbacked.last
  · intro pair hpair hheight
    rw [hsame _ hheight]
    exact hbacked.stored pair hpair hheight

end

section

variable (hhash : HashesHeight env.tm) (hbacked : Backed env gossiped db appHeight)
variable (hrepeats : Repeats gossiped block)
variable (hnext : block.header.height.toNat = appHeight.toNat + 1)

include hhash hbacked hrepeats hnext

theorem Backed.save :
    Backed env gossiped (db.commit (saveBlock env.tm block commit)) appHeight := by
  have hsaved := onlySaved_saveBlock block commit hhash hbacked.indexed
  have hbelow : appHeight ≠ block.header.height := by
    intro heq
    rw [heq] at hnext
    omega
  constructor
  · exact indexed_saveBlock block commit hbacked.indexed
  · intro height other hload
    by_cases hheight : height = block.header.height
    · subst hheight
      rw [hsaved.savedBlock, Result.ok.injEq] at hload
      rw [← hload]
      rfl
    · rw [hsaved.otherBlock height hheight] at hload
      exact hbacked.heights height other hload
  · rw [hsaved.otherBlock appHeight hbelow]
    exact hbacked.last
  · intro pair hpair hheight
    by_cases hsame : pair.1.header.height = block.header.height
    · rw [hsame, hsaved.savedBlock, hrepeats pair hpair hsame]
    · rw [hsaved.otherBlock _ hsame]
      exact hbacked.stored pair hpair hheight

/-- Once the saved block is committed, it is the last one of the application. -/
theorem Backed.accept :
    Backed env gossiped (db.commit (saveBlock env.tm block commit)) block.header.height := by
  have hsaved := onlySaved_saveBlock block commit hhash hbacked.indexed
  have hlater : Backed env gossiped (db.commit (saveBlock env.tm block commit))
      appHeight := hbacked.save hhash hrepeats hnext
  refine ⟨hlater.indexed, hlater.heights, fun _ => ⟨_, hsaved.savedBlock⟩, ?_⟩
  intro pair hpair hheight
  exact hlater.stored pair hpair (by omega)

end

theorem Backed.gossip (hbacked : Backed env gossiped db appHeight)
    (hload : loadBlock db block.header.height = .ok block) :
    Backed env (gossiped ++ [(block, commit)]) db appHeight where
  indexed := hbacked.indexed
  heights := hbacked.heights
  last := hbacked.last
  stored pair hpair hheight := by
    rcases List.mem_append.1 hpair with hold | hnew
    · exact hbacked.stored pair hold hheight
    · obtain rfl : pair = (block, commit) := List.mem_singleton.1 hnew
      exact hload

theorem backed_maintained (hhash : HashesHeight env.tm) (gossiped : List (Block × Commit)) :
    Maintained env noLimit (fun block _ => Repeats gossiped block) (Backed env gossiped) where
  records _ _ _ hbacked hrecords := hbacked.of_records hrecords
  prune hbacked hbound _ hheights := hbacked.prune hhash fun height hheight =>
    (hheights height hheight).trans hbound
  save hbacked hrepeats hnext := hbacked.save hhash hrepeats hnext
  accept hbacked hrepeats hnext := hbacked.accept hhash hrepeats hnext

def BringsGossiped (gossiped : List (Block × Commit)) (node : Node α)
    (pairs : List (Block × Commit)) : Prop :=
  ∀ pair ∈ pairs, node.core.appHeight.toNat < pair.1.header.height.toNat → Repeats gossiped pair.1

theorem backed_callRule (hhash : HashesHeight env.tm) (gossiped : List (Block × Commit)) :
    CallRule env (Backed env gossiped) (BringsGossiped gossiped) where
  records := (backed_maintained hhash gossiped).records
  call := by
    intro node pairs hbacked hpairs
    refine ⟨fun db appHeight => node.core.appHeight.toNat ≤ appHeight.toNat ∧
      Backed env gossiped db appHeight, ?_, ⟨le_rfl, hbacked⟩, fun _ _ h => h.2⟩
    constructor
    · rintro before after appHeight ⟨hle, hbacked⟩ hrecords
      exact ⟨hle, hbacked.of_records hrecords⟩
    · rintro db appHeight bound heights ⟨hle, hbacked⟩ hbound _ hheights
      exact ⟨hle, hbacked.prune hhash fun height hheight =>
        (hheights height hheight).trans hbound⟩
    · rintro db appHeight block commit ⟨hle, hbacked⟩ hpair hnext
      exact ⟨hle, hbacked.save hhash (hpairs _ hpair (by simp only; omega)) hnext⟩
    · rintro db appHeight block commit ⟨hle, hbacked⟩ hpair hnext
      exact ⟨by omega, hbacked.accept hhash (hpairs _ hpair (by simp only; omega)) hnext⟩

end

/-! ## The condition on the moves -/

/-- Gossip a block and apply it, the last part of `produceBlock`. -/
def offer (env : Env α) (pair : Block × Commit) : M α Unit := do
  gossipBlock pair.1 pair.2
  applyBlock env pair.1 pair.2

theorem produceBlock_eq_offer (env : Env α) (input : ProduceInput) : produceBlock env input = (do
      let height ← storeHeight
      let last ← loadLast env height
      let pair ← pendingOrNewBlock env input (height + 1) last.1 last.2
      offer env pair) := rfl

def Exposed (node : Node α) : Prop :=
  ∃ pair ∈ node.gossiped, node.core.appHeight.toNat ≤ pair.1.header.height.toNat ∧
    loadBlock node.db pair.1.header.height ≠ .ok pair.1

instance (node : Node α) : Decidable (Exposed node) :=
  inferInstanceAs (Decidable (∃ pair ∈ node.gossiped, _ ∧ _))

/-- `produceBlock` is about to read a pending block that is in the store. -/
def AtPending (env : Env α) (config : Config (Node α) Answer Error) : Prop :=
  ∃ input lastCommit lastHeaderHash,
    config.phase = .serving (pendingOrNewBlock env input (config.state.height + 1)
      lastCommit lastHeaderHash >>= offer env) ∧
    (loadBlock config.state.db (config.state.height + 1)).Succeeds

/-- `produceBlock` is about to gossip a block that is not in the store. -/
def AtGossip (env : Env α) (config : Config (Node α) Answer Error) : Prop :=
  ∃ pair, config.phase = .serving (offer env pair) ∧
    loadBlock config.state.db pair.1.header.height ≠ .ok pair.1

def Steady (env : Env α) : Condition (Node α) Answer Error Request
  | config, .step answer => LoadsStored config.state answer ∧ (answer ≠ .ok →
      ¬ Exposed config.state ∧ ¬ AtPending env config ∧
        (answer = .failAfter → ¬ AtGossip env config))
  | config, .crash => ¬ Exposed config.state
  | config, .call request => TriesNext config.state request →
      BringsGossiped config.state.gossiped config.state request.pairs
  | _, _ => True

/-! ## Calls -/

variable {rules : Proc.Rules (Node α) Answer} {proc : M α Unit} {block : Block}
variable {commit : Commit}

section

variable {env : Env α} {node : Node α}

/-- What holds at every moment. -/
def Known (env : Env α) (node : Node α) : Prop :=
  OnePerHeight node.gossiped ∧ node.core.Always ∧ node.Kept (Backed env [])

/-- What holds between calls. -/
def Safe (env : Env α) (node : Node α) : Prop :=
  OnePerHeight node.gossiped ∧ node.core.Idle ∧ node.Kept (Backed env node.gossiped)

theorem Safe.known (hsafe : Safe env node) : Known env node :=
  ⟨hsafe.1, hsafe.2.1.always, hsafe.2.2.forget⟩

theorem wp_gossiped {post : Result Error Unit → Node α → Prop} (hone : OnePerHeight node.gossiped)
    (hproc : proc.wp { rules with
        crash := fun later => later.core.Always ∧ later.Kept (Backed env []) }
      post node) (hgossip : proc.Keeps Node.gossiped)
    (hrules : ∀ later, Known env later → rules.crash later) :
    proc.wp rules (fun result later => post result later ∧ later.gossiped = node.gossiped)
      node := by
  have hgossiped : proc.wp { rules with
        crash := fun later => later.gossiped = node.gossiped }
      (fun _ later => later.gossiped = node.gossiped) node :=
    hgossip.wp fun _ hlater => hlater
  exact Proc.wp_and hproc hgossiped (fun _ _ hallowed => ⟨hallowed, hallowed⟩)
    (fun later hlater hsame => hrules later ⟨hsame ▸ hone, hlater⟩)

theorem wp_safe (hone : OnePerHeight node.gossiped)
    (hproc : proc.wp { rules with
        crash := fun later => later.core.Always ∧ later.Kept (Backed env []) }
      (CallRule.Keeping (Backed env node.gossiped)) node) (hgossip : proc.Keeps Node.gossiped)
    (hrules : ∀ later, Known env later → rules.crash later) :
    proc.wp rules (Proc.Ends (fun _ => Safe env) (Safe env) (Known env)) node := by
  apply Proc.wp_conseq (wp_gossiped hone hproc hgossip hrules)
  rintro result later ⟨hlater, hsame⟩
  have hone : OnePerHeight later.gossiped := hsame ▸ hone
  cases result with
  | ok | err => exact ⟨hone, hlater.1, hsame ▸ hlater.2⟩
  | panic => exact ⟨hone, hlater.1, hlater.2.forget⟩

theorem withoutEvidence_of_loadBlock {db : Db} {height : UInt64}
    (hload : loadBlock db height = .ok block) : block.withoutEvidence = block := by
  obtain ⟨hash, _, hbyHash⟩ := loadBlock_eq_ok.1 hload
  obtain ⟨message, _, hmessage⟩ := loadBlockByHash_eq_ok.1 hbyHash
  apply Block.withoutEvidence_of_nil
  rw [Block.fromProto, Result.bind_eq_ok] at hmessage
  obtain ⟨header, _, hrest⟩ := hmessage
  cases hdata : message.data with
  | none =>
    rw [hdata] at hrest
    cases hrest
  | some data =>
    cases hlast : message.lastCommit with
    | none =>
      simp only [hdata, hlast, Result.ok_bind] at hrest
      rw [← Result.ok.inj hrest]
    | some commit =>
      simp only [hdata, hlast, Result.bind_eq_ok] at hrest
      obtain ⟨lastCommit, _, hblock⟩ := hrest
      rw [← Result.ok.inj hblock]

theorem OnePerHeight.append {gossiped : List (Block × Commit)} (hone : OnePerHeight gossiped)
    (hblock : ∀ pair ∈ gossiped, pair.1.header.height = block.header.height → pair.1 = block) :
    OnePerHeight (gossiped ++ [(block, commit)]) := by
  intro first hfirst second hsecond hheight
  rw [List.mem_append, List.mem_singleton] at hfirst hsecond
  rcases hfirst with hfirst | rfl <;> rcases hsecond with hsecond | rfl
  · exact hone first hfirst second hsecond hheight
  · exact hblock first hfirst hheight
  · exact (hblock second hsecond hheight.symm).symm
  · rfl

def Node.gossip (node : Node α) (block : Block) (commit : Commit) : Node α :=
  { node with gossiped := node.gossiped ++ [(block, commit)] }

theorem Safe.gossip (hsafe : Safe env node) (commit : Commit)
    (hload : loadBlock node.db (node.height + 1) = .ok block) :
    Safe env (node.gossip block commit) := by
  obtain ⟨hone, hidle, hbacked⟩ := hsafe
  have hheight : block.header.height = node.height + 1 := Backed.heights hbacked _ block hload
  have happ : node.core.appHeight.toNat ≤ block.header.height.toNat := by
    rw [toNat_next hidle.always hheight]
    exact hidle.memory.app_le.resolve_right And.left
  have hload' : loadBlock node.db block.header.height = .ok block := hheight ▸ hload
  refine ⟨hone.append fun pair hpair hsame => ?_, hidle, Backed.gossip hbacked hload'⟩
  have hstored := Backed.stored hbacked pair hpair (hsame ▸ happ)
  rw [hsame, hload', Result.ok.injEq] at hstored
  exact hstored.symm

theorem wp_applyPending (hhash : HashesHeight env.tm) (hsafe : Safe env node)
    (hload : loadBlock node.db block.header.height = .ok block)
    (hpair : (block, commit) ∈ node.gossiped)
    (hrules : ∀ later, Known env later → rules.crash later) :
    (applyBlock env block commit).wp rules
      (Proc.Ends (fun _ => Safe env) (Safe env) (Known env)) node := by
  have hrepeats : Repeats node.gossiped block := by
    intro pair hmem hheight
    rw [withoutEvidence_of_loadBlock hload]
    exact (hsafe.1 pair hmem (block, commit) hpair hheight).symm
  apply wp_safe hsafe.1 _ (keeps_applyBlock env block commit) hrules
  apply CallRule.wp_applyBlock_both (backed_maintained hhash node.gossiped) _ hrepeats hsafe.2
  intro later hlater
  exact ⟨hlater.1, Backed.forget hlater.2⟩

/-- A new block is applied and thereby saved, if nothing fails before that. -/
theorem wp_applyCreated (hhash : HashesHeight env.tm) {gossiped : List (Block × Commit)}
    (hidle : node.core.Idle) (hbacked : node.Kept (Backed env gossiped))
    (hheight : block.header.height = node.height + 1) (happ : node.core.appHeight = node.height)
    (hevidence : block.withoutEvidence = block)
    (hfresh : ∀ pair ∈ gossiped, pair.1.header.height ≠ block.header.height)
    (hallowed : ∀ answer, rules.allowed node answer → answer = .ok)
    (hrules : ∀ later : Node α, later.Kept (Backed env []) → rules.crash later) :
    (applyBlock env block commit).wp rules (Proc.Ends
        (fun _ later => later.Kept (Backed env (gossiped ++ [(block, commit)])))
        (fun later => later.Kept (Backed env (gossiped ++ [(block, commit)])))
        fun later => later.Kept (Backed env (gossiped ++ [(block, commit)])))
      node := by
  have hnext : block.header.height.toNat = node.height.toNat + 1 := toNat_next hidle.always hheight
  have hnext' : block.header.height.toNat = node.core.appHeight.toNat + 1 := by
    rw [happ]
    exact hnext
  have hrepeats : Repeats gossiped block := fun pair hpair hsame =>
    absurd hsame (hfresh pair hpair)
  have hload : loadBlock (node.db.commit (saveBlock env.tm block commit))
      block.header.height = .ok block := by
    rw [loadBlock_saved, hevidence]
  have hne : node.app.lastBlockHeight.toUInt64 ≠ block.header.height := by
    intro heq
    have happ : node.core.appHeight = block.header.height := heq
    rw [happ] at hnext'
    omega
  have hsaved {point : Point} {later : Node α} (hpoint : point ≠ .start)
      (hlater : During env block commit node point later) :
      later.Kept (Backed env (gossiped ++ [(block, commit)])) := by
    apply (hlater.keptAt_of (backed_maintained hhash _) (toNat_le_noLimit _)
      (by omega) (fun h => absurd h hpoint) (fun h => absurd h hne) _ _).kept
    · exact fun _ =>
        Backed.gossip (Backed.save hhash hbacked hrepeats hnext') hload
    · exact fun _ =>
        Backed.gossip (Backed.accept hhash hbacked hrepeats hnext') hload
  apply wp_applyBlock_of hheight (height_lt_next hidle)
  · intro point later hlater hfinal
    by_cases hpoint : point = .start
    · subst hpoint
      cases hlater
      exact hrules node (Backed.forget hbacked)
    · exact hrules later (Backed.forget (hsaved hpoint hlater))
  · intro point later hlater hfinal
    apply hsaved _ hlater
    rintro rfl
    exact hfinal
  · rintro point later hlater hstops (⟨_, answer, hanswer, hfails, hstart⟩ | hrefuses)
    · refine hsaved (fun hpoint => ?_) hlater
      rw [hstart hpoint] at hanswer
      exact hfails (hallowed answer hanswer)
    · refine hsaved ?_ hlater
      rintro rfl
      cases hrefuses
  · intro point later hlater hpanics
    refine hsaved ?_ hlater
    rintro rfl
    cases hpanics with
    | hash _ heq =>
      cases hlater
      exact hne heq

abbrev SteadyCall (env : Env α) (rest : M α Unit) (node : Node α) : Prop :=
  SteeredCall (Steady env) (Safe env) (Known env) rest node

/-- What is verified for steps that only fail while nothing is exposed. -/
theorem steadyCall_of_wp
    (hproc : proc.wp ⟨fun node answer => Exposed node → answer = .ok, Known env⟩
      (Proc.Ends (fun _ => Safe env) (Safe env) (Known env)) node) : SteadyCall env proc node := by
  apply Proc.wpAt_of_wp hproc _ fun _ hknown => hknown
  intro rest later answer hanswer hexposed
  by_contra hfails
  exact (hanswer.2 hfails).1 hexposed

theorem steadyCall_pending (hhash : HashesHeight env.tm) (hsafe : Safe env node) (commit : Commit)
    (hload : loadBlock node.db (node.height + 1) = .ok block) :
    SteadyCall env (offer env (block, commit)) node := by
  have hgossip := hsafe.gossip commit hload
  have hheight : block.header.height = node.height + 1 := Backed.heights hsafe.2.2 _ block hload
  refine ⟨hsafe.known, fun answer _ => ?_⟩
  cases answer with
  | ok =>
    apply steadyCall_of_wp
    apply wp_applyPending hhash hgossip _ _ fun _ hknown => hknown
    · rw [hheight]
      exact hload
    · exact List.mem_append_right _ (List.mem_singleton_self _)
  | failBefore => exact hsafe
  | failAfter => exact hgossip

theorem Safe.appHeight_eq (hsafe : Safe env node)
    (hnew : ∀ pending, loadBlock node.db (node.height + 1) ≠ .ok pending) :
    node.core.appHeight = node.height := by
  obtain ⟨-, hidle, hbacked⟩ := hsafe
  have hle : node.height.toNat ≤ node.core.appHeight.toNat := hidle.always.height_le
  have hnext : (node.height + 1).toNat = node.height.toNat + 1 := toNat_next hidle.always rfl
  have happ : node.core.appHeight.toNat ≤ node.height.toNat + 1 :=
    hidle.memory.app_le.resolve_right And.left
  have hne : node.core.appHeight ≠ node.height + 1 := by
    intro heq
    have hpositive : 0 < node.core.appHeight.toNat := by
      rw [heq, hnext]
      omega
    obtain ⟨pending, hpending⟩ := Backed.last hbacked hpositive
    apply hnew pending
    rw [← heq]
    exact hpending
  apply UInt64.toNat_inj.1
  have hne' : node.core.appHeight.toNat ≠ (node.height + 1).toNat := fun heq =>
    hne (UInt64.toNat_inj.1 heq)
  omega

section

variable (hhash : HashesHeight env.tm) (hsafe : Safe env node)

include hhash hsafe

theorem steadyCall_created (commit : Commit)
    (hnew : ∀ pending, loadBlock node.db (node.height + 1) ≠ .ok pending)
    (hheight : block.header.height = node.height + 1) (hevidence : block.withoutEvidence = block) :
    SteadyCall env (offer env (block, commit)) node := by
  have happ := hsafe.appHeight_eq hnew
  have hbelow : node.core.appHeight.toNat ≤ block.header.height.toNat := by
    rw [toNat_next hsafe.2.1.always hheight, happ]
    exact Nat.le_succ _
  have hmissing : loadBlock node.db block.header.height ≠ .ok block := by
    rw [hheight]
    exact hnew block
  have hfresh (pair : Block × Commit) (hpair : pair ∈ node.gossiped) :
      pair.1.header.height ≠ block.header.height := by
    intro hsame
    have hstored := Backed.stored hsafe.2.2 pair hpair (hsame ▸ hbelow)
    rw [hsame, hheight] at hstored
    exact hnew pair.1 hstored
  refine ⟨hsafe.known, fun answer hanswer => ?_⟩
  cases answer with
  | ok =>
    have hexposed : Exposed (node.gossip block commit) :=
      ⟨(block, commit), List.mem_append_right _ (List.mem_singleton_self _), hbelow, hmissing⟩
    have hone : OnePerHeight (node.gossip block commit).gossiped :=
      hsafe.1.append fun pair hpair hsame => absurd hsame (hfresh pair hpair)
    have hidle : (node.gossip block commit).core.Idle := hsafe.2.1
    apply steadyCall_of_wp
    apply wp_safe hone _ (keeps_applyBlock env block commit) fun _ hknown => hknown
    have hkept : (applyBlock env block commit).wp ⟨fun node answer => Exposed node → answer = .ok,
          fun later => later.Kept (Backed env [])⟩ _ (node.gossip block commit) :=
      wp_applyCreated hhash hidle hsafe.2.2 hheight happ hevidence
        hfresh (fun answer hallowed => hallowed hexposed) fun _ hlater => hlater
    exact Proc.wp_ends_and (wp_applyBlock env block commit (fun _ h => h) hidle) hkept
      fun _ => And.intro
  | failBefore => exact hsafe
  | failAfter =>
    obtain ⟨-, -, hgossip⟩ := hanswer.2 (by simp)
    exact absurd ⟨(block, commit), rfl, hmissing⟩ (hgossip rfl)

theorem steadyCall_createSignedBlock
    (input : ProduceInput) (lastCommit : Commit) (lastHeaderHash : Hash)
    (hnew : ∀ pending, loadBlock node.db (node.height + 1) ≠ .ok pending) :
    SteadyCall env (createSignedBlock env input (node.height + 1) lastCommit
      lastHeaderHash >>= offer env) node := by
  have hcreate : (createSignedBlock env input (node.height + 1) lastCommit
      lastHeaderHash).wp (.anyAnswer Answer (Known env)) _ node :=
    wp_createSignedBlock hsafe.known
  apply Proc.wpAt_bind hcreate
  · rintro ⟨block, commit⟩ later ⟨rfl, hblock, -⟩
    dsimp only at hblock
    subst hblock
    exact steadyCall_created hhash hsafe commit hnew rfl (Block.withoutEvidence_of_nil rfl)
  · rintro error later rfl
    exact hsafe
  · rintro later rfl
    exact hsafe.known

theorem steadyCall_loaded {pending : Block}
    (hload : loadBlock node.db (node.height + 1) = .ok pending) :
    SteadyCall env ((do
      let commit ← query id (loadCommit · (node.height + 1))
      return (pending, commit)) >>= offer env) node := by
  have hquery : (query id (loadCommit · (node.height + 1)) : M α Commit).wp
      (.anyAnswer Answer (Known env))
      (Proc.Ends (fun _ later => later = node) (· = node) (· = node)) node := by
    rw [query, wp_callWith]
    refine ⟨hsafe.known, fun _ => ?_, fun _ => rfl, fun _ => rfl⟩
    dsimp only
    cases loadCommit node.db (node.height + 1) <;> rfl
  rw [Proc.bind_assoc]
  apply Proc.wpAt_bind hquery
  · rintro commit later rfl
    exact steadyCall_pending hhash hsafe commit hload
  · rintro error later rfl
    exact hsafe
  · rintro later rfl
    exact hsafe.known

theorem steadyCall_pendingOrNewBlock
    (input : ProduceInput) (lastCommit : Commit) (lastHeaderHash : Hash) :
    SteadyCall env (pendingOrNewBlock env input (node.height + 1) lastCommit
      lastHeaderHash >>= offer env) node := by
  -- A read that fails is taken for a missing block; the condition excludes it while
  -- there is one.
  have hmissing (answer : Answer) (hanswer : Steady env ⟨node, .serving (pendingOrNewBlock env input
        (node.height + 1) lastCommit lastHeaderHash >>= offer env)⟩ (.step answer))
      (hfails : answer ≠ .ok) (pending : Block) :
      loadBlock node.db (node.height + 1) ≠ .ok pending := by
    intro hload
    exact (hanswer.2 hfails).2.1 ⟨input, lastCommit, lastHeaderHash, rfl, pending, hload⟩
  refine ⟨hsafe.known, fun answer hanswer => ?_⟩
  cases answer with
  | ok =>
    dsimp only
    cases hload : loadBlock node.db (node.height + 1) with
    | ok pending => exact steadyCall_loaded hhash hsafe hload
    | err error =>
      apply steadyCall_createSignedBlock hhash hsafe
      intro pending
      rw [hload]
      simp
    | panic => exact hsafe.known
  | failBefore | failAfter =>
    exact steadyCall_createSignedBlock hhash hsafe input _ _ (hmissing _ hanswer (by simp))

/-- `produceBlock` offers the pending block if there is one. -/
theorem steadyCall_produceBlock
    (input : ProduceInput) : SteadyCall env (produceBlock env input) node := by
  rw [produceBlock_eq_offer]
  apply Proc.wpAt_read_bind hsafe.known
  have hlast : (loadLast env node.height).wp (.anyAnswer Answer (Known env)) _ node :=
    wp_loadLast hsafe.known
  apply Proc.wpAt_bind hlast
  · rintro last later ⟨rfl, -⟩
    exact steadyCall_pendingOrNewBlock hhash hsafe input last.1 last.2
  · rintro error later rfl
    exact hsafe
  · rintro later rfl
    exact hsafe.known

end

/-- The other calls do not gossip. -/
theorem keeps_serve {request : Request} (hother : ∀ input, request ≠ .produce input) :
    (serve env request).Keeps Node.gossiped := by
  cases request with
  | gossip block commit => exact keeps_applyBlock env block commit
  | produce input => exact absurd rfl (hother input)
  | retrieve result => exact follows_processNextDABatch_of (keeps_applyBlock env) result
  | stateIndex index =>
    exact keeps_updateStateIndex ⟨fun _ _ => rfl, fun _ _ _ => rfl⟩ env index
  | syncTarget endHeight => exact Proc.keeps_op fun _ _ => rfl

theorem steadyCall_serve (hhash : HashesHeight env.tm) (hsafe : Safe env node) {request : Request}
    (hpairs : TriesNext node request → BringsGossiped node.gossiped node request.pairs) :
    SteadyCall env (serve env request) node := by
  by_cases hproduce : ∃ input, request = .produce input
  · obtain ⟨input, rfl⟩ := hproduce
    exact steadyCall_produceBlock hhash hsafe input
  · have hother (input : ProduceInput) : request ≠ .produce input := fun heq =>
      hproduce ⟨input, heq⟩
    apply steadyCall_of_wp
    apply wp_safe hsafe.1 _ (keeps_serve hother) fun _ hknown => hknown
    apply (backed_callRule hhash node.gossiped).serve request _ hsafe.2 hpairs
    · intro input _ _ hinput
      exact absurd hinput (hother input)
    · exact fun later hlater => ⟨hlater.1, Backed.forget hlater.2⟩

def Stored (env : Env α) (node : Node α) : Prop :=
  OnePerHeight node.gossiped ∧ node.core.Down ∧ node.Kept (Backed env node.gossiped)

/-- Starting the process does not gossip. -/
theorem steadyBoot_newManager (hhash : HashesHeight env.tm) (hstored : Stored env node) :
    SteeredBoot (Steady env) (Safe env) (Known env) (newManager env) node := by
  have hkept : (newManager env).wp ⟨LoadsStored, fun later =>
      later.Kept (Backed env node.gossiped)⟩ _ node :=
    Proc.wp_ends_const ((backed_maintained hhash node.gossiped).records.wp_newManager
      (fun _ hlater => hlater) hstored.2.2)
  have hboot : (newManager env).wp ⟨LoadsStored, fun later =>
      later.core.Always ∧ later.Kept (Backed env [])⟩ _ node :=
    Proc.wp_ends_and
      (wp_newManager env (fun _ halways => halways) (fun _ _ => Or.inl) hstored.2.1) hkept
      fun _ halways hlater => ⟨halways, Backed.forget hlater⟩
  have hgossip : (newManager env).Keeps Node.gossiped :=
    keeps_newManager env ⟨⟨fun _ _ => rfl, fun _ _ _ => rfl⟩, fun _ _ => rfl⟩
      (fun _ _ _ _ => rfl) (fun _ _ => rfl) (fun _ => rfl)
  have hproc : (newManager env).wp ⟨LoadsStored, Known env⟩
      (Proc.Ends (fun _ => Safe env) (Known env) (Known env)) node := by
    apply Proc.wp_conseq (wp_gossiped hstored.1 hboot hgossip fun _ hknown => hknown)
    rintro result later ⟨hlater, hsame⟩
    have hone : OnePerHeight later.gossiped := hsame ▸ hstored.1
    cases result with
    | ok value => exact ⟨hone, hlater.1, hsame ▸ hlater.2⟩
    | err | panic => exact ⟨hone, hlater.1, hlater.2.forget⟩
  exact Proc.wpAt_of_wp hproc (fun _ _ _ hanswer => hanswer.1) fun _ hknown => hknown

theorem Known.crash (hknown : Known env node) (hexposed : ¬ Exposed node) :
    Stored env (crash node) := by
  obtain ⟨hone, halways, hbacked⟩ := hknown
  refine ⟨hone, crash_core halways, hbacked.indexed, hbacked.heights, hbacked.last, ?_⟩
  intro pair hpair hheight
  by_contra hmissing
  exact hexposed ⟨pair, hpair, hheight, hmissing⟩

theorem freshNode_stored (app : α) : Stored env (freshNode app) := by
  refine ⟨by simp [OnePerHeight, freshNode], freshNode_down app, ?_, ?_, ?_, ?_⟩
  · intro height bytes hbytes
    cases hbytes
  · intro height block hload
    cases hload
  · intro hpositive
    cases hpositive
  · intro pair hpair
    cases hpair

theorem gossip_steered (hhash : HashesHeight env.tm) (app : α) :
    Steered (system env) (Steady env) (freshNode app) (Safe env) (Known env) (Stored env) where
  start := freshNode_stored app
  always_of_durable _ hstored := ⟨hstored.1, hstored.2.1.always, hstored.2.2.forget⟩
  always_of_idle _ hsafe := hsafe.known
  crash _ hknown hexposed := hknown.crash hexposed
  boot _ hstored := steadyBoot_newManager hhash hstored
  serve _ _ hsafe hpairs := steadyCall_serve hhash hsafe hpairs

end

open Reference

/-- The process crashes after `count` steps of the call that produces the first block,
and once it is up again it is asked for a block with another transaction. -/
def crashInProduction (count : ℕ) : List (Label Answer Request) :=
  firstBoot ++ .call (produceAt 5 [[1]]) :: Reference.steps count ++
    .crash :: .boot :: Reference.steps 6 ++
    .ret :: .call (produceAt 6 [[2]]) :: Reference.steps 5

/-- The crash comes after the block has been gossiped and before it is saved. -/
theorem gossips_two_blocks_after_crash : ∃ config, ReachableNode Reference.env [] config ∧
      ∃ first ∈ config.state.gossiped, ∃ second ∈ config.state.gossiped,
        first.1.header.height = second.1.header.height ∧ first.1 ≠ second.1 := by
  have hrun : ((system Reference.env).run ⟨freshNode [], .down⟩
      (crashInProduction 5)).map (fun config =>
        decide (∃ first ∈ config.state.gossiped, ∃ second ∈ config.state.gossiped,
          first.1.header.height = second.1.header.height ∧ first.1 ≠ second.1)) =
      some true := by decide
  obtain ⟨config, hreach, htwo⟩ := exists_reachableNode (crashInProduction 5) hrun
  exact ⟨config, hreach, of_decide_eq_true htwo⟩

/-- In every run in which no failure, crash or block from outside gets between a
gossiped block and the store, and no stored state is lost to a failing read, no two
different blocks of one height are gossiped. -/
theorem gossips_one_block_per_height (env : Env α) (hhash : HashesHeight env.tm) (app : α)
    (labels : List (Label Answer Request))
    (hsteady : ∀ move ∈ ((system env).lts (freshNode app)).path ((system env).lts (freshNode
      app)).start labels, Steady env move.source move.label) :
    ∀ move ∈ ((system env).lts (freshNode app)).path
      ((system env).lts (freshNode app)).start labels,
      ∀ first ∈ move.target.state.gossiped, ∀ second ∈ move.target.state.gossiped,
        first.1.header.height = second.1.header.height → first.1 = second.1 := by
  intro move hmove
  have hknown := (gossip_steered hhash app).forall_path hsteady move hmove
  exact hknown.1

def isCalm (config : Config (Node α) Answer Error) : Label Answer Request → Bool
  | .step answer => answer = .ok
  | .crash => ¬ Exposed config.state
  | .call request => request.pairs.isEmpty
  | _ => true

theorem steady_of_calm {env : Env α} {config : Config (Node α) Answer Error}
    {label : Label Answer Request} (hcalm : isCalm config label) : Steady env config label := by
  cases label with
  | step answer =>
    have hok : answer = .ok := of_decide_eq_true hcalm
    exact ⟨fun _ _ => hok, fun hfails => absurd hok hfails⟩
  | crash =>
    have hexposed : ¬ Exposed config.state := of_decide_eq_true hcalm
    exact hexposed
  | call request =>
    intro _ pair hpair
    rw [List.isEmpty_iff.1 hcalm] at hpair
    cases hpair
  | boot | ret => trivial

/-- The crash comes after the block has been saved, which is then gossiped again. -/
theorem gossips_one_block_per_height_reference : HashesHeight Reference.env.tm ∧ ∃ labels,
      (∀ move ∈ ((system Reference.env).lts (freshNode [])).path
        ((system Reference.env).lts (freshNode [])).start labels,
        Steady Reference.env move.source move.label) ∧
      ∃ move ∈ ((system Reference.env).lts (freshNode [])).path
        ((system Reference.env).lts (freshNode [])).start labels,
        move.target.state.gossiped.length = 2 ∧
        ∀ first ∈ move.target.state.gossiped, ∀ second ∈ move.target.state.gossiped,
          first.1.header.height = second.1.header.height → first.1 = second.1 := by
  have hcalm : (((system Reference.env).lts (freshNode [])).path
      ((system Reference.env).lts (freshNode [])).start (crashInProduction 8)).all
      (fun move => isCalm move.source move.label) = true := by decide
  have htwice : (((system Reference.env).lts (freshNode [])).path
      ((system Reference.env).lts (freshNode [])).start (crashInProduction 8)).any
      (fun move => move.target.state.gossiped.length = 2) = true := by decide
  have hsteady : ∀ move ∈ ((system Reference.env).lts (freshNode [])).path
      ((system Reference.env).lts (freshNode [])).start (crashInProduction 8),
      Steady Reference.env move.source move.label := fun move hmove =>
    steady_of_calm (List.all_eq_true.1 hcalm move hmove)
  obtain ⟨move, hmove, hlength⟩ := List.any_eq_true.1 htwice
  exact ⟨hashesHeight, crashInProduction 8, hsteady, move, hmove, of_decide_eq_true hlength,
    gossips_one_block_per_height Reference.env hashesHeight [] _ hsteady move hmove⟩

end Dymint.Manager
