import Mathlib.Data.UInt

/-!
# The ids of peers

`MempoolIDs` gives every peer of the mempool a 16-bit id.  The search for an unused id
runs round the 16-bit counter, and ids come back in any order.
-/

namespace Dymint.PeerIDs

def maxActiveIDs : ℕ := 65535

structure MempoolIDs (ρ : Type) where
  peerMap : ρ → Option UInt16
  nextID : UInt16
  activeIDs : Finset UInt16

/-- The loop of `nextPeerID`, for a number of rounds. -/
def search (activeIDs : Finset UInt16) : ℕ → UInt16 → Option UInt16
  | 0, _ => none
  | rounds + 1, nextID =>
    if nextID ∈ activeIDs then search activeIDs rounds (nextID + 1) else some nextID

namespace MempoolIDs

variable {ρ : Type} [DecidableEq ρ] {ids next later : MempoolIDs ρ} {peer : ρ} {id : UInt16}

/-- After 65536 rounds the counter is back where it began, and the loop goes on for ever. -/
def nextPeerID (ids : MempoolIDs ρ) : Option (UInt16 × MempoolIDs ρ) :=
  if ids.activeIDs.card = maxActiveIDs then none -- the panic
  else (search ids.activeIDs 65536 ids.nextID).map fun curID =>
    (curID, { ids with nextID := curID + 1 })

def assign (ids : MempoolIDs ρ) (peer : ρ) : Option (UInt16 × MempoolIDs ρ) :=
  ids.nextPeerID.map fun (curID, ids) =>
    (curID, { ids with
      peerMap := Function.update ids.peerMap peer (some curID)
      activeIDs := insert curID ids.activeIDs })

def reserveForPeer (ids : MempoolIDs ρ) (peer : ρ) : Option (MempoolIDs ρ) :=
  (ids.assign peer).map Prod.snd

def reclaim (ids : MempoolIDs ρ) (peer : ρ) : MempoolIDs ρ :=
  match ids.peerMap peer with
  | none => ids
  | some removedID =>
    { ids with
      activeIDs := ids.activeIDs.erase removedID
      peerMap := Function.update ids.peerMap peer none }

def getForPeer (ids : MempoolIDs ρ) (peer : ρ) : Option (UInt16 × MempoolIDs ρ) :=
  match ids.peerMap peer with
  | some id => some (id, ids)
  | none => ids.assign peer

def newMempoolIDs : MempoolIDs ρ := ⟨fun _ => none, 1, {0}⟩

inductive Call (ρ : Type) where
  | getForPeer (peer : ρ)
  | reserveForPeer (peer : ρ)
  | reclaim (peer : ρ)
  deriving DecidableEq

def step (ids : MempoolIDs ρ) : Call ρ → Option (MempoolIDs ρ)
  | .getForPeer peer => (ids.getForPeer peer).map Prod.snd
  | .reserveForPeer peer => ids.reserveForPeer peer
  | .reclaim peer => some (ids.reclaim peer)

/-- One call after the other, under the mutex; `none` when one of them does not return. -/
def run (ids : MempoolIDs ρ) (calls : List (Call ρ)) : Option (MempoolIDs ρ) :=
  calls.foldlM step ids

/-! ## The search -/

variable {active : Finset UInt16}

theorem search_not_mem {rounds : ℕ} {start : UInt16}
    (hfound : search active rounds start = some id) : id ∉ active := by
  induction rounds generalizing start with
  | zero => cases hfound
  | succ rounds ih =>
    rw [search] at hfound
    split at hfound
    · exact ih hfound
    · cases hfound
      assumption

theorem mem_of_search_eq_none {rounds : ℕ} {start : UInt16}
    (hnone : search active rounds start = none) :
    ∀ k < rounds, start + .ofNat k ∈ active := by
  induction rounds generalizing start with
  | zero => intro k hk; omega
  | succ rounds ih =>
    rw [search] at hnone
    split at hnone
    next hstart =>
      intro k hk
      cases k with
      | zero => simpa using hstart
      | succ k =>
        have hnext := ih hnone k (by omega)
        rwa [UInt16.add_assoc, UInt16.add_comm 1, ← UInt16.ofNat_one, ← UInt16.ofNat_add] at hnext
    · cases hnone

theorem search_isSome (hcard : active.card < 65536)
    (start : UInt16) : (search active 65536 start).isSome := by
  by_contra hnone
  have hall := mem_of_search_eq_none (Option.not_isSome_iff_eq_none.1 hnone)
  have hinj : Set.InjOn (fun k => start + UInt16.ofNat k) (Finset.range 65536) := by
    intro a ha b hb heq
    have hofNat := congrArg UInt16.toNat (add_left_cancel heq)
    rw [UInt16.toNat_ofNat', UInt16.toNat_ofNat'] at hofNat
    rw [Finset.coe_range, Set.mem_Iio] at ha hb
    omega
  have hle := Finset.card_le_card_of_injOn (t := active) _
    (fun k hk => hall k (Finset.mem_range.1 hk)) hinj
  rw [Finset.card_range] at hle
  omega

/-! ## What the calls keep -/

structure Sound (ids : MempoolIDs ρ) : Prop where
  zero : 0 ∈ ids.activeIDs
  active : ∀ peer id, ids.peerMap peer = some id → id ≠ 0 ∧ id ∈ ids.activeIDs
  apart : ∀ peer other id, ids.peerMap peer = some id → ids.peerMap other = some id → peer = other

theorem assign_eq_some (hassign : ids.assign peer = some (id, next)) :
    id ∉ ids.activeIDs ∧ next.peerMap = Function.update ids.peerMap peer (some id) ∧
      next.activeIDs = insert id ids.activeIDs := by
  rw [assign, nextPeerID] at hassign
  split at hassign
  · cases hassign
  · rw [Option.map_map, Option.map_eq_some_iff] at hassign
    obtain ⟨curID, hfound, heq⟩ := hassign
    cases heq
    exact ⟨search_not_mem hfound, rfl, rfl⟩

theorem Sound.assign (hids : ids.Sound) (hassign : ids.assign peer = some (id, next)) :
    next.Sound := by
  obtain ⟨hnew, hmap, hactive⟩ := assign_eq_some hassign
  refine ⟨by simp [hactive, hids.zero], fun other otherID hother => ?_,
    fun left right otherID hleft hright => ?_⟩
  · rw [hmap, Function.update_apply] at hother
    split at hother
    · cases hother
      exact ⟨fun hzero => hnew (hzero ▸ hids.zero), by simp [hactive]⟩
    · have hold := hids.active other otherID hother
      exact ⟨hold.1, by simp [hactive, hold.2]⟩
  · -- the new id was not active, so nobody held it
    have hnobody : ∀ other, ids.peerMap other ≠ some id := fun other hother =>
      hnew (hids.active other id hother).2
    rw [hmap, Function.update_apply] at hleft hright
    split at hleft <;> split at hright
    · simp_all
    · cases hleft
      exact absurd hright (hnobody right)
    · cases hright
      exact absurd hleft (hnobody left)
    · exact hids.apart left right otherID hleft hright

theorem Sound.reclaim (hids : ids.Sound) (peer : ρ) : (ids.reclaim peer).Sound := by
  rw [MempoolIDs.reclaim]
  split
  · exact hids
  next removedID hremoved =>
    have hold {other otherID}
        (hother : Function.update ids.peerMap peer none other = some otherID) :
        other ≠ peer ∧ ids.peerMap other = some otherID := by
      rw [Function.update_apply] at hother
      split at hother
      · cases hother
      · exact ⟨‹_›, hother⟩
    refine ⟨Finset.mem_erase.2 ⟨(hids.active peer removedID hremoved).1.symm, hids.zero⟩,
      fun other otherID hother => ?_, fun left right otherID hleft hright =>
        hids.apart left right otherID (hold hleft).2 (hold hright).2⟩
    obtain ⟨hne, hother⟩ := hold hother
    have hactive := hids.active other otherID hother
    exact ⟨hactive.1, Finset.mem_erase.2 ⟨fun heq => hne
      (hids.apart other peer otherID hother (heq ▸ hremoved)), hactive.2⟩⟩

omit [DecidableEq ρ] in
theorem sound_newMempoolIDs : (newMempoolIDs : MempoolIDs ρ).Sound where
  zero := Finset.mem_singleton_self 0
  active _ _ hheld := by cases hheld
  apart _ _ _ hheld := by cases hheld

variable {call : Call ρ}

theorem step_cases (hstep : ids.step call = some next) :
    (∃ peer, call = .getForPeer peer ∧ next = ids) ∨
      (∃ peer, call = .reclaim peer ∧ next = ids.reclaim peer) ∨
      ∃ peer id, ids.assign peer = some (id, next) ∧ (call = .reserveForPeer peer ∨
        call = .getForPeer peer ∧ ids.peerMap peer = none) := by
  cases call with
  | reclaim peer => exact .inr (.inl ⟨peer, rfl, (Option.some.inj hstep).symm⟩)
  | reserveForPeer peer =>
    obtain ⟨⟨id, _⟩, hassign, rfl⟩ := Option.map_eq_some_iff.1 hstep
    exact .inr (.inr ⟨peer, id, hassign, .inl rfl⟩)
  | getForPeer peer =>
    obtain ⟨⟨id, _⟩, hget, rfl⟩ := Option.map_eq_some_iff.1 hstep
    rw [getForPeer] at hget
    split at hget
    · cases hget
      exact .inl ⟨peer, rfl, rfl⟩
    · exact .inr (.inr ⟨peer, id, hget, .inr ⟨rfl, ‹_›⟩⟩)

theorem Sound.step (hids : ids.Sound) (hstep : ids.step call = some next) : next.Sound := by
  obtain ⟨-, -, rfl⟩ | ⟨peer, -, rfl⟩ | ⟨peer, id, hassign, -⟩ := step_cases hstep
  · exact hids
  · exact hids.reclaim peer
  · exact hids.assign hassign

theorem kept_step (hheld : ids.peerMap peer = some id)
    (hreserve : call ≠ .reserveForPeer peer) (hreclaim : call ≠ .reclaim peer)
    (hstep : ids.step call = some next) : next.peerMap peer = some id := by
  obtain ⟨-, -, rfl⟩ | ⟨other, rfl, rfl⟩ | ⟨other, otherID, hassign, hcall⟩ := step_cases hstep
  · exact hheld
  · have hne : peer ≠ other := fun heq => hreclaim (heq ▸ rfl)
    rw [MempoolIDs.reclaim]
    split
    · exact hheld
    · exact (Function.update_of_ne hne none ids.peerMap).trans hheld
  · have hne : peer ≠ other := by
      rintro rfl
      obtain hcall | ⟨-, hnone⟩ := hcall
      · exact hreserve hcall
      · exact absurd (hheld.symm.trans hnone) (Option.some_ne_none id)
    rw [(assign_eq_some hassign).2.1, Function.update_of_ne hne, hheld]

theorem run_invariant {P : MempoolIDs ρ → Prop} {calls : List (Call ρ)}
    (hstep : ∀ ids next, ∀ call ∈ calls, P ids → ids.step call = some next → P next)
    (hids : P ids) (hrun : ids.run calls = some later) : P later := by
  induction calls generalizing ids with
  | nil =>
    cases hrun
    exact hids
  | cons call calls ih =>
    rw [run, List.foldlM_cons] at hrun
    obtain ⟨middle, hmiddle, hrest⟩ := Option.bind_eq_some_iff.1 hrun
    exact ih (fun ids next other hother => hstep ids next other (by simp [hother]))
      (hstep ids middle call (by simp) hids hmiddle) hrest

theorem getForPeer_held (hget : ids.getForPeer peer = some (id, next)) :
    next.peerMap peer = some id := by
  rw [getForPeer] at hget
  split at hget
  next hheld =>
    cases hget
    exact hheld
  · rw [(assign_eq_some hget).2.1, Function.update_self]

/-- After any calls, peers hold different ids other than 0 and the ids they hold are
active; a peer keeps its id until it is reclaimed or reserved anew; and the search for the
next id ends. -/
theorem peer_ids_apart (calls : List (Call ρ)) (ids : MempoolIDs ρ)
    (hrun : newMempoolIDs.run calls = some ids) :
    (∀ peer other id, ids.peerMap peer = some id → ids.peerMap other = some id → peer = other) ∧
    (∀ peer id, ids.peerMap peer = some id → id ≠ 0 ∧ id ∈ ids.activeIDs) ∧
    (∀ peer id next more later, ids.getForPeer peer = some (id, next) →
      .reserveForPeer peer ∉ more → .reclaim peer ∉ more → next.run more = some later →
      later.getForPeer peer = some (id, later)) ∧
    (ids.activeIDs.card < maxActiveIDs → ids.nextPeerID.isSome) := by
  have hsound : ids.Sound := run_invariant (fun _ _ _ _ hids => hids.step) sound_newMempoolIDs hrun
  refine ⟨hsound.apart, hsound.active, ?_, fun hcard => ?_⟩
  · intro peer id next more later hget hreserve hreclaim hmore
    have hheld : later.peerMap peer = some id :=
      run_invariant (P := fun ids => ids.peerMap peer = some id)
        (fun _ _ call hcall hheld hstep => kept_step hheld
          (fun heq => hreserve (heq ▸ hcall)) (fun heq => hreclaim (heq ▸ hcall)) hstep)
        (getForPeer_held hget) hmore
    rw [getForPeer, hheld]
  · have hfound := search_isSome (hcard.trans (by decide)) ids.nextID
    rw [nextPeerID, if_neg hcard.ne, Option.isSome_map]
    exact hfound

def twoPeers : List (Call Bool) :=
  [.getForPeer true, .reserveForPeer true, .reclaim false, .getForPeer false]

theorem peer_ids_apart_twoPeers : ∃ ids : MempoolIDs Bool,
    newMempoolIDs.run twoPeers = some ids ∧ ids.peerMap true = some 2 ∧
      (ids.activeIDs.card < maxActiveIDs → ids.nextPeerID.isSome) := by
  refine ⟨_, rfl, rfl, (peer_ids_apart twoPeers _ rfl).2.2.2⟩

end MempoolIDs

end Dymint.PeerIDs
