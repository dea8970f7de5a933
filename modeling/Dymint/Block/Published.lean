import Dymint.Block.ExactlyOnce

/-!
# Published blocks

`BlockExecutor.Commit` publishes the events of a block after the commit of the
application.  If that commit is the last thing that happens to a block, the next
call aligns the store with the application and never publishes it.  As long as no
call tries the next height in that situation, every stored block is published.
-/

namespace Dymint.Manager

open Procedure Dymint.Types Store CrashSystem

variable {α β : Type}

def PublishedTo (published : List UInt64) (bound : ℕ) : Prop :=
  ∀ height : UInt64, 0 < height.toNat → height.toNat ≤ bound → height ∈ published

theorem PublishedTo.mono {published : List UInt64} {bound bound' : ℕ}
    (hpublished : PublishedTo published bound) (hle : bound' ≤ bound) :
    PublishedTo published bound' := by
  intro height hpos hheight
  exact hpublished height hpos (hheight.trans hle)

theorem PublishedTo.append {published : List UInt64} {height : UInt64}
    (hpublished : PublishedTo published (height.toNat - 1)) :
    PublishedTo (published ++ [height]) height.toNat := by
  intro other hpos hother
  rw [List.mem_append, List.mem_singleton]
  by_cases heq : other = height
  · exact Or.inr heq
  · have hne : other.toNat ≠ height.toNat := fun h => heq (UInt64.toNat_inj.1 h)
    exact Or.inl (hpublished other hpos (by omega))

structure Core.StoredBelow (core : Core) (bound : ℕ) : Prop where
  height : core.height.toNat < bound
  memory : core.memory.lastStoreHeight.toNat < bound
  persisted : ∀ progress, core.persisted = some progress → progress.lastStoreHeight.toNat < bound

def Announced (node : Node α) : Prop := PublishedTo node.published node.core.appHeight.toNat

/-- At most the last block that the application has committed is not published,
and then the store does not have it yet. -/
inductive Announcing (node : Node α) : Prop
  | all (hall : Announced node)
  | last (hothers : PublishedTo node.published (node.core.appHeight.toNat - 1))
      (hbelow : node.core.StoredBelow node.core.appHeight.toNat)

theorem Announcing.stored {node : Node α} (hnode : Announcing node)
    (halways : node.core.Always True) :
    PublishedTo node.published node.height.toNat := by
  have hle : node.height.toNat ≤ node.core.appHeight.toNat := halways.height_le
  cases hnode with
  | all hall => exact hall.mono hle
  | last hothers hbelow =>
    have hlt : node.height.toNat < node.core.appHeight.toNat := hbelow.height
    exact hothers.mono (by omega)

/-! ## The course of a call -/

def Point.announces (height : UInt64) : Point → List UInt64
  | .published .. | .pruned .. | .stored .. | .finished | .done => [height]
  | _ => []

section

variable {env : Env α} {rules : Proc.Rules (Node α) Answer}
variable {node start later : Node α} {block : Block} {commit : Commit}
variable {point : Point}

theorem Announced.of_eq (hnode : Announced node) (hpublished : later.published = node.published)
    (happ : later.app.lastBlockHeight = node.app.lastBlockHeight) :
    Announced later := by
  unfold Announced
  rw [hpublished, Node.core, happ]
  exact hnode

theorem During.published_eq (hduring : During env block commit start point later) :
    later.published = start.published ++ point.announces block.header.height := by
  induction hduring with
  | start | hashed | saved => exact (List.append_nil _).symm
  | published _ ih =>
    exact congrArg (· ++ [block.header.height]) (ih.trans (List.append_nil _))
  | _ => assumption

/-- Between the commit of the application and the publication, the block at work
is the one that is not published. -/
theorem Core.Ready.storedBelow {core : Core} {height : UInt64} (hready : core.Ready height True) :
    ((core.execute height).persist.commit height).StoredBelow height.toNat := by
  have hnext := toNat_next hready.toIdle.always hready.next
  have hlast : core.memory.lastStoreHeight.toNat < height.toNat := by
    rw [hready.lastStore]
    omega
  refine ⟨?_, hlast, ?_⟩
  · change core.height.toNat < height.toNat
    omega
  · intro progress hprogress
    obtain rfl := Option.some.inj hprogress
    exact hlast

theorem Announced.during (hnode : Announced start) (hidle : start.core.Idle True)
    (hnext : block.header.height = start.height + 1)
    (hduring : During env block commit start point later) :
    Announcing later ∧ (point.Final → Announced later) := by
  have hpublished := hduring.published_eq
  have happ := hduring.appHeights
  have hreached := hduring.reached
  have hcore := hduring.core_eq
  have hall (hlater : Announced later) : Announcing later ∧ (point.Final → Announced later) :=
    ⟨.all hlater, fun _ => hlater⟩
  have hbelow : PublishedTo start.published (block.header.height.toNat - 1) := by
    rw [toNat_next hidle.always hnext]
    exact hnode.mono hidle.always.height_le
  cases point with
  | start | hashed | recorded | rotated | resulted | caughtUp | aligned | saved =>
    exact hall (hnode.of_eq (hpublished.trans (List.append_nil _))
      (congrArg AppConn.lastBlockHeight happ))
  | delivering | executed | remembered | persisted =>
    exact hall (hnode.of_eq (hpublished.trans (List.append_nil _)) happ.2)
  | committed =>
    have hready := Accepts.ready hreached hidle hnext
    have happHeight : later.core.appHeight = block.header.height := by
      rw [hcore]
      rfl
    refine ⟨.last ?_ ?_, fun hfinal => absurd hfinal id⟩
    · rw [hpublished.trans (List.append_nil _), happHeight]
      exact hbelow
    · rw [happHeight, hcore]
      exact hready.storedBelow
  | published | pruned | stored | finished | done =>
    apply hall
    unfold Announced
    rw [hpublished, hcore]
    exact hbelow.append

end

/-! ## Runs -/

def announcedGuard : Guard (Node α) Answer Request where
  answer _ _ := True
  call node request := TriesNext node request →
    node.core.appHeight = 0 ∨ node.core.appHeight ∈ node.published
  crash _ := True

instance (node : Node α) (label : Label Answer Request) :
    Decidable (announcedGuard.Permits node label) :=
  announcedGuard.decidablePermits node (fun _ => .isTrue trivial)
    (fun request => inferInstanceAs (Decidable (TriesNext node request →
      node.core.appHeight = 0 ∨ node.core.appHeight ∈ node.published))) (.isTrue trivial) label

section

variable {env : Env α} {rules : Proc.Rules (Node α) Answer} {node : Node α}

theorem Announcing.announced (hnode : Announcing node)
    (hlast : node.core.appHeight = 0 ∨ node.core.appHeight ∈ node.published) :
    Announced node := by
  cases hnode with
  | all hall => exact hall
  | last hothers hbelow =>
    intro height hpos hheight
    by_cases heq : height = node.core.appHeight
    · subst heq
      exact hlast.resolve_left fun hzero => by simp [hzero] at hpos
    · have hne : height.toNat ≠ node.core.appHeight.toNat := fun h =>
        heq (UInt64.toNat_inj.1 h)
      exact hothers height hpos (by omega)

theorem announced_apply (env : Env α)
    (hrules : ∀ node : Node α, node.core.Always True ∧ Announcing node → rules.crash node) :
    ApplyInvariant env rules (fun node => node.core.Idle True ∧ Announced node)
      (fun node => node.core.Idle True ∧ Announcing node)
      (fun node => node.core.Always True ∧ Announcing node) where
  crash := hrules
  always_of_idle _ h := ⟨h.1.always, .all h.2⟩
  failed_of_idle _ h := ⟨h.1, .all h.2⟩
  gossip _ _ _ h := ⟨h.1, h.2.of_eq rfl rfl⟩
  applyBlock start block commit := by
    rintro ⟨hidle, hnode⟩
    apply wp_applyBlock_returning hrules (fun _ h => ⟨h.1.always, h.2⟩)
      (fun _ h => ⟨h.1, .all h.2⟩) (height_lt_next hidle) ⟨hidle, hnode⟩
    intro point later hnext hlater
    have hkept := hnode.during hidle hnext hlater
    exact ⟨⟨hlater.idle hidle hnext, hkept.1⟩, fun hfinal =>
      ⟨hlater.idle hidle hnext, hkept.2 hfinal⟩⟩

theorem wp_updateStateIndex_announcing (index : UInt64)
    (hrules : ∀ node : Node α, Announcing node → rules.crash node)
    (hnode : Announcing node) :
    (updateStateIndex env index).wp rules
      (Proc.Ends (fun _ => Announcing) Announcing Announcing) node := by
  apply wp_updateStateIndex_keeping hrules (fun _ h => h) hnode
  · cases hnode with
    | all hall => exact .all (hall.of_eq rfl rfl)
    | last hothers hbelow =>
      exact .last hothers ⟨hbelow.height, hbelow.memory, hbelow.persisted⟩
  · intro message hmessage
    cases hnode with
    | all hall => exact .all (hall.of_eq rfl rfl)
    | last hothers hbelow =>
      refine .last hothers ⟨hbelow.height, hbelow.memory, ?_⟩
      intro progress hprogress
      have heq : pbProgress message = progress := by
        simpa [Node.core] using hprogress
      rw [← heq, toProto_progress hmessage]
      exact hbelow.memory

theorem wp_serve_announcing (request : Request)
    (hrules : ∀ node : Node α, node.core.Always True ∧ Announcing node → rules.crash node)
    (hidle : node.core.Idle True) (hnode : Announcing node)
    (hguard : TriesNext node request →
      node.core.appHeight = 0 ∨ node.core.appHeight ∈ node.published) :
    (serve env request).wp rules (Proc.Ends (fun _ later => later.core.Idle True ∧ Announcing later)
        (fun later => later.core.Idle True ∧ Announcing later)
        (fun later => later.core.Always True ∧ Announcing later)) node := by
  apply (announced_apply env hrules).serve_of_tries request
  · intro index
    exact Proc.wp_ends_and (wp_updateStateIndex env index (fun _ h => h) hidle)
      (wp_updateStateIndex_announcing index (fun _ h => h) hnode)
      fun later halways hannouncing => hrules later ⟨halways, hannouncing⟩
  · intro endHeight
    refine ⟨hidle, ?_⟩
    cases hnode with
    | all hall => exact .all hall
    | last hothers hbelow => exact .last hothers hbelow
  · intro later hlater
    exact ⟨hlater.1, .all hlater.2⟩
  · exact ⟨hidle, hnode⟩
  · exact ⟨hidle.always, hnode⟩
  · intro htries
    exact ⟨hidle, hnode.announced (hguard htries)⟩

/-- A start takes over the heights of the record. -/
theorem bootSpec_announcing (hrules : ∀ node : Node α, Announcing node → rules.crash node)
    (hdown : node.core.Down True) (hnode : Announcing node) :
    BootSpec env rules True Announcing Announcing node := by
  cases hnode with
  | all hall =>
    have hkept {later : Node α} (hpublished : later.published = node.published)
        (happ : later.app.lastBlockHeight = node.app.lastBlockHeight) :
        Announcing later := .all (hall.of_eq hpublished happ)
    exact
      { start := hrules _ (hkept rfl rfl)
        read := fun _ _ _ => Or.inr trivial
        loading := fun _ _ _ => ⟨hrules _ (hkept rfl rfl), hkept rfl rfl⟩
        resume := fun _ _ _ _ _ => hkept rfl rfl
        initialised := fun _ _ _ _ _ => ⟨hrules _ (hkept rfl rfl), hkept rfl rfl,
          fun _ _ _ => ⟨hrules _ (hkept rfl rfl), hkept rfl rfl, hkept rfl rfl⟩⟩ }
  | last hothers hbelow =>
    have hstate {state : State} (hload : loadState env.tm node.db = .ok state) :
        state.lastStoreHeight.toNat < node.core.appHeight.toNat :=
      hbelow.persisted _ (loadState_progress hdown hload)
    have hheight {height : UInt64} (hloads : LoadsHeight env node height) :
        height.toNat < node.core.appHeight.toNat := by
      rcases hloads with rfl | ⟨state, hload, rfl⟩
      · exact hbelow.height
      · exact hstate hload
    have hmemory {state : State} {height base : UInt64}
        (hinitial : InitialState env True node state height base) :
        state.lastStoreHeight.toNat < node.core.appHeight.toNat := by
      cases hinitial with
      | loaded hload => exact hstate hload
      | genesis hload => exact lt_of_le_of_lt (Nat.zero_le _) hbelow.height
    have hloading (height base : UInt64) (hloads : LoadsHeight env node height) :
        Announcing (node.loaded height base) :=
      .last hothers ⟨hheight hloads, hbelow.memory, hbelow.persisted⟩
    constructor
    · exact hrules _ (.last hothers hbelow)
    · exact fun _ _ _ => Or.inr trivial
    · intro height base hloads
      exact ⟨hrules _ (hloading height base hloads), hloading height base hloads⟩
    · intro state height base hinitial _
      exact .last hothers ⟨hheight hinitial.loadsHeight, hmemory hinitial, hbelow.persisted⟩
    · intro state height base hinitial _
      have hstarted : Announcing ((node.loaded height base).initChain env) :=
        .last hothers ⟨hheight hinitial.loadsHeight, hbelow.memory, hbelow.persisted⟩
      refine ⟨hrules _ hstarted, hstarted, ?_⟩
      intro message _ hmessage
      have hprogress : pbProgress message = stateProgress state := by
        rw [toProto_progress hmessage]
        exact updateInitChainState_progress env state _ _
      have hpersisted (progress : Progress) (heq : some (pbProgress message) = some progress) :
          progress.lastStoreHeight.toNat < node.core.appHeight.toNat := by
        obtain rfl := Option.some.inj heq
        rw [hprogress]
        exact hmemory hinitial
      have hrecorded : Announcing
          { (node.loaded height base).initChain env with
            db := node.db.apply ⟨.state, some message⟩ } := by
        refine .last hothers ⟨hheight hinitial.loadsHeight, hbelow.memory, ?_⟩
        intro progress heq
        exact hpersisted progress (by simpa [Node.core] using heq)
      refine ⟨hrules _ hrecorded, hrecorded, .last hothers ⟨hheight hinitial.loadsHeight, ?_, ?_⟩⟩
      · change (stateProgress (initialisedState env node state) ).lastStoreHeight.toNat < _
        rw [initialisedState, updateInitChainState_progress]
        exact hmemory hinitial
      · intro progress heq
        exact hpersisted progress (by simpa [Node.core] using heq)

theorem announcing_crash (hnode : Announcing node) : Announcing (crash node) := by
  cases hnode with
  | all hall => exact .all (hall.of_eq rfl rfl)
  | last hothers hbelow =>
    have hpos : 0 < node.core.appHeight.toNat := lt_of_le_of_lt (Nat.zero_le _) hbelow.height
    exact .last hothers ⟨hpos, hpos, hbelow.persisted⟩

theorem announcing_certificate (env : Env α) (app : α) :
    Certificate (system env) announcedGuard (freshNode app)
      (fun node => node.core.Idle True ∧ Announcing node)
      (fun node => node.core.Always True ∧ Announcing node)
      (fun node => node.core.Down True ∧ Announcing node) where
  start := by
    refine ⟨freshNode_down app, .all ?_⟩
    intro height hpos hheight
    exact absurd (hpos.trans_le hheight) (lt_irrefl _)
  always_of_durable _ h := ⟨h.1.always, h.2⟩
  always_of_idle _ h := ⟨h.1.always, h.2⟩
  crash _ h _ := ⟨crash_core h.1, announcing_crash h.2⟩
  boot _ h := Proc.wp_ends_and (wp_newManager env (fun _ h => h) (fun _ _ _ => Or.inr trivial) h.1)
    (wp_newManager_of (bootSpec_announcing (fun _ h => h) h.1 h.2))
    fun _ => And.intro
  serve _ request h hcall := wp_serve_announcing request (fun _ h => h) h.1 h.2 hcall

end

/-- In every run that tries the next block only while the last committed one is
published, every height up to that of the store is published. -/
theorem stored_blocks_published (env : Env α) (app : α) {config : Config (Node α) Answer Error}
    (hreach : Reachable (system env) announcedGuard (freshNode app) config)
    {height : UInt64} (hpos : 0 < height) (hheight : height ≤ config.state.height) :
    height ∈ config.state.published := by
  obtain ⟨halways, hnode⟩ := (announcing_certificate env app).sound hreach
  exact hnode.stored halways height (UInt64.lt_iff_toNat_lt.1 hpos)
    (UInt64.le_iff_toNat_le.1 hheight)

open Reference

def unpublishedFirst : List (Label Answer Request) :=
  firstBoot ++ .call (Reference.deliver poolFirst) ::
    Reference.steps 19 ++ .crash :: .boot :: Reference.steps 4 ++ .ret ::
    .call (Reference.deliver poolFirst) :: Reference.steps 11 ++ [.ret]

/-- The alignment stores the block, and nothing is ever published. -/
theorem aligned_block_unpublished : ∃ node, ReachableNode Reference.env [] ⟨node, .idle⟩ ∧
      node.height = 1 ∧ node.published = [] :=
  exists_idleNode unpublishedFirst (by decide +kernel)

/-- A node that applies two blocks, with a crash after the first. -/
theorem stored_blocks_published_reference :
    ∃ node, Reachable (system Reference.env) announcedGuard (freshNode [])
        ⟨node, .idle⟩ ∧ node.height = 2 ∧ 1 ∈ node.published ∧
      2 ∈ node.published := by
  have hrun : ∃ node, Reachable (system Reference.env) announcedGuard
      (freshNode []) ⟨node, .idle⟩ ∧ node.height = 2 :=
    exists_idle_of_runGuarded (firstDelivered ++ .crash :: .boot :: Reference.steps 4 ++
        .ret :: .call (Reference.deliver poolSecond) :: Reference.steps 26 ++ [.ret])
      (by decide +kernel)
  obtain ⟨node, hreach, hheight⟩ := hrun
  have hpublished {height : UInt64} (hpos : 0 < height) (hle : height ≤ 2) :
      height ∈ node.published :=
    stored_blocks_published Reference.env [] hreach hpos (hheight ▸ hle)
  exact ⟨node, hreach, hheight, hpublished (by decide) (by decide),
    hpublished (by decide) (by decide)⟩

end Dymint.Manager
