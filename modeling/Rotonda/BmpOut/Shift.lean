import Rotonda.BmpOut.Aggregator

/-!
The aggregator does not look at what was handed over before.

It asks its sink for the clock and for the answer of the consumer by the number of the message.  So
after other messages it does what it would do at the start with a sink that counts from there.

* `Shifts`: two computations that differ by the messages before;
* `RouteAggregator.add_shifts`, `RouteAggregator.flushAll_shifts`: the calls of the walk.
-/

namespace Rotonda.BmpOut

open Lib Lib.Bytes

def Sink.after (sink : Sink) (n : Nat) : Sink :=
  ⟨fun i => sink.clock (n + i), fun i => sink.accepts (n + i)⟩

section Shifts

variable {pre sent : Sent} {sink : Sink} {α β : Type}

/-- The second computation ends as the first, with the messages `pre` before. -/
def Shifts (pre : Sent) (sentOf : α → Sent) (same : α → α → Prop) :
    Except Sent α → Except Sent α → Prop
  | .ok a, .ok b => same a b ∧ sentOf b = pre ++ sentOf a
  | .error s, .error t => t = pre ++ s
  | _, _ => False

theorem Shifts.bind {sentOf : α → Sent} {same : α → α → Prop} {sentOf' : β → Sent}
    {same' : β → β → Prop} {x y : Except Sent α} {f g : α → Except Sent β}
    (h : Shifts pre sentOf same x y)
    (hf : ∀ a b, same a b → sentOf b = pre ++ sentOf a → Shifts pre sentOf' same' (f a) (g b)) :
    Shifts pre sentOf' same' (x >>= f) (y >>= g) := by
  cases x with
  | error s =>
    cases y with
    | error t => exact h
    | ok b => cases h
  | ok a =>
    cases y with
    | error t => cases h
    | ok b => exact hf a b h.1 h.2

/-- The result is what was handed over. -/
def ShiftsSent (pre : Sent) : Except Sent Sent → Except Sent Sent → Prop :=
  Shifts pre (fun s => s) fun _ _ => True

theorem push_shifts (build : Clock → Bytes) (count : Nat) :
    ShiftsSent pre ((sink.after pre.length).push sent build count)
      (sink.push (pre ++ sent) build count) := by
  unfold Sink.push Sink.after
  simp only [List.length_append]
  split
  · exact ⟨trivial, List.append_assoc ..⟩
  · exact List.append_assoc ..

theorem AggGroup.emit_shifts (g : AggGroup) (peer : PeerInfo) :
    ShiftsSent pre (g.emit (sink.after pre.length) peer sent) (g.emit sink peer (pre ++ sent)) := by
  unfold emit
  split
  · exact ⟨trivial, rfl⟩
  · exact push_shifts ..

namespace RouteAggregator

variable {agg : RouteAggregator} {peer : PeerInfo}

/-- The result is an aggregator, the same in both, and what was handed over. -/
def ShiftsAll (pre : Sent) :
    Except Sent (RouteAggregator × Sent) → Except Sent (RouteAggregator × Sent) → Prop :=
  Shifts pre Prod.snd fun a b => a.1 = b.1

variable (agg : RouteAggregator)

theorem takeGroup_shifts (key : AggKey) (peer : PeerInfo) (pamap : RotondaPaMap) :
    Shifts pre (fun r => r.2.2) (fun a b => a.1 = b.1 ∧ a.2.1 = b.2.1)
      (agg.takeGroup (sink.after pre.length) key peer pamap sent)
      (agg.takeGroup sink key peer pamap (pre ++ sent)) := by
  unfold takeGroup
  split
  next g _ =>
    dsimp only
    split
    · exact ⟨⟨rfl, rfl⟩, rfl⟩
    · exact (g.emit_shifts peer).bind fun a b _ hb => ⟨⟨rfl, rfl⟩, hb⟩
  · exact ⟨⟨rfl, rfl⟩, rfl⟩

theorem flushFull_shifts (group : AggGroup) (peer : PeerInfo) (nlriLen : Nat) :
    Shifts pre Prod.snd (fun a b => a.1 = b.1)
      (flushFull (sink.after pre.length) group peer nlriLen sent)
      (flushFull sink group peer nlriLen (pre ++ sent)) := by
  unfold flushFull
  split
  · exact (group.emit_shifts peer).bind fun a b _ hb => ⟨rfl, hb⟩
  · exact ⟨rfl, rfl⟩

theorem emitSingle_shifts (peer : PeerInfo) (p : Prefix) (pamap : RotondaPaMap) :
    ShiftsSent pre (emitSingle (sink.after pre.length) peer p pamap sent)
      (emitSingle sink peer p pamap (pre ++ sent)) := by
  have hclock : (sink.after pre.length).clock sent.length = sink.clock (pre ++ sent).length := by
    rw [List.length_append]
    rfl
  unfold emitSingle
  rw [hclock]
  split
  · exact push_shifts ..
  · exact ⟨trivial, rfl⟩

theorem evictLoop_shifts (target : Nat) (ks : List AggKey) (agg : RouteAggregator) :
    ShiftsAll pre (evictLoop (sink.after pre.length) target ks agg sent)
      (evictLoop sink target ks agg (pre ++ sent)) := by
  induction ks generalizing agg sent with
  | nil => exact ⟨rfl, rfl⟩
  | cons k ks ih =>
    unfold evictLoop
    split
    · exact ⟨rfl, rfl⟩
    · split
      · exact ih agg
      next g _ =>
        dsimp only
        split
        next peer _ =>
          refine (g.emit_shifts peer).bind fun a b _ hb => ?_
          subst hb
          exact ih _
        · exact ih _

theorem place_shifts (key : AggKey) (group : AggGroup) (peer : PeerInfo) (call : AddCall) :
    ShiftsAll pre (agg.place (sink.after pre.length) key group peer call sent)
      (agg.place sink key group peer call (pre ++ sent)) := by
  unfold place
  split
  · exact (emitSingle_shifts peer call.pfx call.pamap).bind fun a b _ hb => ⟨rfl, hb⟩
  · dsimp only
    split
    · exact evictLoop_shifts ..
    · exact ⟨rfl, rfl⟩

theorem add_shifts (hash : Bytes → UInt64) (agg : RouteAggregator) (call : AddCall) :
    ShiftsAll pre (agg.add hash (sink.after pre.length) call sent)
      (agg.add hash sink call (pre ++ sent)) := by
  unfold add
  split
  · exact ⟨rfl, rfl⟩
  next peer _ =>
    refine (agg.takeGroup_shifts _ peer call.pamap).bind fun a b hab hb => ?_
    obtain ⟨agg₁, g₁, sent₁⟩ := a
    obtain ⟨_, _, _⟩ := b
    obtain ⟨rfl, rfl⟩ := hab
    subst hb
    refine (flushFull_shifts g₁ peer _).bind fun a b hab hb => ?_
    obtain ⟨g₂, sent₂⟩ := a
    obtain ⟨_, _⟩ := b
    cases hab
    subst hb
    exact place_shifts ..

theorem flushLoop_shifts (ks : List AggKey) :
    ShiftsSent pre (flushLoop (sink.after pre.length) agg ks sent)
      (flushLoop sink agg ks (pre ++ sent)) := by
  induction ks generalizing sent with
  | nil => exact ⟨trivial, rfl⟩
  | cons k ks ih =>
    unfold flushLoop
    split
    next g peer _ _ =>
      refine (g.emit_shifts peer).bind fun a b _ hb => ?_
      subst hb
      exact ih
    · exact ih

theorem flushAll_shifts (order : List AggKey) :
    ShiftsAll pre (agg.flushAll (sink.after pre.length) order sent)
      (agg.flushAll sink order (pre ++ sent)) :=
  (flushLoop_shifts agg order).bind fun _ _ _ hb => ⟨rfl, hb⟩

end RouteAggregator

end Shifts

end Rotonda.BmpOut
