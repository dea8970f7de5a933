import Mathlib.Data.List.Basic

/-!
# Buffered channels and subscriptions

A channel holds at most as many values as its capacity; a send to a full channel
has to wait.  The publisher of a subscription does not wait: a subscription whose
buffer is full is cancelled and gets nothing more, while its reader may still take
what the buffer holds.
-/

namespace Dymint.Channels

variable {α : Type*} {capacity : ℕ}

structure Channel (α : Type*) (capacity : ℕ) where
  buffer : List α
  length_le : buffer.length ≤ capacity

variable {channel : Channel α capacity}

namespace Channel

def empty (α : Type*) (capacity : ℕ) : Channel α capacity := ⟨[], Nat.zero_le _⟩

def Full (channel : Channel α capacity) : Prop := channel.buffer.length = capacity

instance (channel : Channel α capacity) : Decidable channel.Full :=
  inferInstanceAs (Decidable (_ = _))

def send (channel : Channel α capacity) (value : α) : Option (Channel α capacity) :=
  if hroom : channel.buffer.length < capacity then
    some ⟨channel.buffer ++ [value], by
      rw [List.length_append, List.length_singleton]
      exact hroom⟩
  else none

def receive (channel : Channel α capacity) : Option (α × Channel α capacity) :=
  match hbuffer : channel.buffer with
  | [] => none
  | value :: rest =>
    some (value, ⟨rest, by
      have hle := channel.length_le
      rw [hbuffer, List.length_cons] at hle
      exact Nat.le_of_succ_le hle⟩)

theorem send_eq_none_of_full (hfull : channel.Full) (value : α) : channel.send value = none := by
  rw [send, dif_neg]
  rw [Full] at hfull
  omega

theorem buffer_of_send {next : Channel α capacity} {value : α}
    (hsend : channel.send value = some next) : next.buffer = channel.buffer ++ [value] := by
  unfold send at hsend
  split at hsend
  · rw [← Option.some.inj hsend]
  · cases hsend

theorem buffer_of_receive {next : Channel α capacity} {value : α}
    (hreceive : channel.receive = some (value, next)) : channel.buffer = value :: next.buffer := by
  unfold receive at hreceive
  split at hreceive
  · cases hreceive
  · rename_i hbuffer
    obtain ⟨rfl, rfl⟩ := Prod.mk.inj (Option.some.inj hreceive)
    exact hbuffer

end Channel

/-- What a subscriber can still take, and whether it was cancelled. -/
structure Subscription (α : Type*) (capacity : ℕ) where
  out : Channel α capacity
  cancelled : Bool

variable {subscription : Subscription α capacity}

namespace Subscription

def new (α : Type*) (capacity : ℕ) : Subscription α capacity := ⟨.empty α capacity, false⟩

def publish (subscription : Subscription α capacity) (value : α) : Subscription α capacity :=
  if subscription.cancelled then subscription
  else
    match subscription.out.send value with
    | some out => { subscription with out := out }
    | none => { subscription with cancelled := true }

/-- The next value will reach the subscriber. -/
def Accepts (subscription : Subscription α capacity) : Prop :=
  subscription.cancelled = false ∧ ¬ subscription.out.Full

instance (subscription : Subscription α capacity) : Decidable subscription.Accepts :=
  inferInstanceAs (Decidable (_ ∧ _))

theorem publish_of_accepts (haccepts : subscription.Accepts) (value : α) :
    ∃ out : Channel α capacity, out.buffer = subscription.out.buffer ++ [value] ∧
      subscription.publish value = { subscription with out := out } := by
  cases hsend : subscription.out.send value with
  | none =>
    unfold Channel.send at hsend
    split at hsend
    · cases hsend
    · have hle := subscription.out.length_le
      have hfull : subscription.out.Full := by
        rw [Channel.Full]
        omega
      exact absurd hfull haccepts.2
  | some out =>
    refine ⟨out, Channel.buffer_of_send hsend, ?_⟩
    rw [publish, haccepts.1, hsend]
    rfl

theorem buffer_publish_of_accepts (haccepts : subscription.Accepts) (value : α) :
    (subscription.publish value).out.buffer = subscription.out.buffer ++ [value] := by
  obtain ⟨out, hout, hpublish⟩ := publish_of_accepts haccepts value
  rw [hpublish]
  exact hout

theorem buffer_publish_of_not_accepts (haccepts : ¬ subscription.Accepts) (value : α) :
    (subscription.publish value).out.buffer = subscription.out.buffer := by
  unfold publish
  split
  · rfl
  · rename_i hcancelled
    rw [Bool.not_eq_true] at hcancelled
    have hfull : subscription.out.Full := by
      by_contra hroom
      exact haccepts ⟨hcancelled, hroom⟩
    rw [Channel.send_eq_none_of_full hfull]

theorem buffer_publish_sublist (subscription : Subscription α capacity) (value : α) :
    (subscription.publish value).out.buffer.Sublist (subscription.out.buffer ++ [value]) := by
  by_cases haccepts : subscription.Accepts
  · rw [buffer_publish_of_accepts haccepts]
  · rw [buffer_publish_of_not_accepts haccepts]
    exact List.sublist_append_left _ _

/-- What waits for a subscriber, if there is one, after a publication. -/
theorem waiting_publish_sublist (subscribed : Option (Subscription α capacity)) (value : α) :
    ((subscribed.map (·.publish value)).elim [] (·.out.buffer)).Sublist
      (subscribed.elim [] (·.out.buffer) ++ [value]) := by
  cases subscribed with
  | none => exact List.nil_sublist _
  | some subscription => exact buffer_publish_sublist subscription value

end Subscription

end Dymint.Channels
