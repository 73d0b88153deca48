import Mathlib.Logic.Function.Basic

/-!
Bounded channels with many senders and one receiver, over arbitrary messages.

A table of channels says for each what its queue holds and whether its receiver is gone.  The queue
of a closed channel is what was left in it: nobody receives it any more.

* `trySend`: give up on a full queue; `send`: wait while the queue is full;
* `queue_push`, `queue_pop`, `closed_close`: reading after writing.
-/

namespace Lib

abbrev ChannelId := Nat

structure Channels (M : Type) where
  queue : ChannelId → List M
  closed : ChannelId → Bool

inductive Sending where
  | ok
  | closed
  | full
deriving DecidableEq

namespace Channels

variable {M : Type} {cs cs' : Channels M} {c c' : ChannelId} {m : M} {cap : Nat}

def empty : Channels M := ⟨fun _ => [], fun _ => false⟩

def push (cs : Channels M) (c : ChannelId) (m : M) : Channels M :=
  { cs with queue := Function.update cs.queue c (cs.queue c ++ [m]) }

def close (cs : Channels M) (c : ChannelId) : Channels M :=
  { cs with closed := Function.update cs.closed c true }

def pop (cs : Channels M) (c : ChannelId) : Channels M :=
  { cs with queue := Function.update cs.queue c (cs.queue c).tail }

/-- The first message and the channels without it. -/
def recv (cs : Channels M) (c : ChannelId) : Option (M × Channels M) :=
  (cs.queue c).head?.map fun m => (m, cs.pop c)

def trySend (cap : Nat) (cs : Channels M) (c : ChannelId) (m : M) : Channels M × Sending :=
  if cs.closed c then (cs, .closed)
  else if (cs.queue c).length < cap then (cs.push c m, .ok)
  else (cs, .full)

/-- A message to a closed channel is lost; on a full queue the sender waits. -/
def send (cap : Nat) (cs : Channels M) (c : ChannelId) (m : M) : Option (Channels M) :=
  match cs.trySend cap c m with
  | (cs', .ok) => some cs'
  | (_, .closed) => some cs
  | (_, .full) => none

/-! ## Reading after writing -/

theorem queue_push (cs : Channels M) (c c' : ChannelId) (m : M) :
    (cs.push c m).queue c' = if c' = c then cs.queue c ++ [m] else cs.queue c' := by
  simp only [push, Function.update_apply]

theorem mem_queue_push {m' : M} :
    m' ∈ (cs.push c m).queue c' ↔ m' ∈ cs.queue c' ∨ (c' = c ∧ m' = m) := by
  rw [queue_push]
  split
  next h => simp [h]
  next h => simp [h]

theorem closed_close (cs : Channels M) (c c' : ChannelId) :
    (cs.close c).closed c' = if c' = c then true else cs.closed c' := by
  simp only [close, Function.update_apply]

theorem closed_close_of_ne (h : c' ≠ c) : (cs.close c).closed c' = cs.closed c' := by
  rw [closed_close, if_neg h]

theorem queue_pop (cs : Channels M) (c c' : ChannelId) :
    (cs.pop c).queue c' = if c' = c then (cs.queue c).tail else cs.queue c' := by
  simp only [pop, Function.update_apply]

theorem recv_eq_some {r : M × Channels M} (h : cs.recv c = some r) :
    (∃ rest, cs.queue c = r.1 :: rest) ∧ r.2 = cs.pop c := by
  obtain ⟨m, hm, rfl⟩ := Option.map_eq_some_iff.mp h
  exact ⟨List.head?_eq_some_iff.mp hm, rfl⟩

theorem recv_eq_none (h : cs.recv c = none) : cs.queue c = [] :=
  List.head?_eq_none_iff.mp (Option.map_eq_none_iff.mp h)

theorem mem_of_mem_pop {m' : M} (h : m' ∈ (cs.pop c).queue c') : m' ∈ cs.queue c' := by
  rw [queue_pop] at h
  split at h
  next heq => exact heq ▸ List.mem_of_mem_tail h
  · exact h

/-- All that a receive takes away is the message at the front. -/
theorem mem_pop_or {m' : M} {rest : List M} (hm : cs.queue c = m :: rest) (h : m' ∈ cs.queue c') :
    m' ∈ (cs.pop c).queue c' ∨ (c' = c ∧ m' = m) := by
  rw [queue_pop]
  split
  next heq =>
    rw [heq, hm] at h
    rw [hm]
    rcases List.mem_cons.mp h with rfl | h
    · exact .inr ⟨heq, rfl⟩
    · exact .inl h
  · exact .inl h

/-- What became of a message that was sent. -/
theorem send_eq_some (h : cs.send cap c m = some cs') :
    (cs.closed c = true ∧ cs' = cs) ∨ (cs.closed c = false ∧ cs' = cs.push c m) := by
  unfold send trySend at h
  split at h
  next heq =>
    split at heq
    · cases heq
    · split at heq <;> cases heq
      cases h
      exact .inr ⟨by simpa using ‹¬ cs.closed c = true›, rfl⟩
  next heq =>
    split at heq
    · cases h
      exact .inl ⟨‹cs.closed c = true›, rfl⟩
    · split at heq <;> cases heq
  · cases h

end Channels

end Lib
