import Rotonda.BmpOut.Aggregator
import Rotonda.Lib.Runs

/-!
The memory budget of the aggregator.

Groups are taken out of the map, changed and put back, and every exit of `add` keeps the books on
its own.  Between calls the buffered bytes are the costs of the open groups and within the budget,
whatever routes and peers arrive.

* `addSubtractions`: the subtractions that a call makes from the buffered bytes;
* `WithinBudget`: what holds of the open groups between calls;
* `withinBudget_run`: it holds after any calls, and no call from there subtracts too much.
-/

namespace Rotonda.BmpOut

open Lib Lib.Runs Dict

namespace RouteAggregator

/-! ## Calls -/

/-- A call, by which a walk feeds the aggregator. -/
inductive Call where
  | add (call : AddCall)
  | insertPeer (id : IngressId) (info : PeerInfo)

/-- A call of a sink that accepts everything: the aggregator and what was sent so far. -/
def step (hash : Bytes → UInt64) (clock : Nat → Clock) (st : RouteAggregator × Sent) :
    Call → Option (RouteAggregator × Sent)
  | .add call => (st.1.add hash (.accepting clock) call st.2).toOption
  | .insertPeer id info => some (st.1.insertPeer id info, st.2)

/-- The key of the group for a route. -/
def keyOf (hash : Bytes → UInt64) (call : AddCall) : AggKey :=
  ⟨call.ingressId, call.pfx.isV4, hash call.pamap.pathAttributes⟩

/-- The call iterates, if it evicts, over the open groups and its own. -/
def Iterates (hash : Bytes → UInt64) (agg : RouteAggregator) (call : AddCall) : Prop :=
  call.order.Nodup ∧ ∀ k, k ∈ call.order ↔ k = keyOf hash call ∨ (agg.groups.get k).isSome

def Ordered (hash : Bytes → UInt64) (st : RouteAggregator × Sent) : Call → Prop
  | .add call => st.1.Iterates hash call
  | .insertPeer .. => True

/-! ## Subtractions -/

def evictSubtractions (target : Nat) : List AggKey → RouteAggregator → List (Nat × Nat)
  | [], _ => []
  | k :: ks, agg =>
    if agg.bufferedBytes ≤ target then []
    else match agg.groups.get k with
      | none => evictSubtractions target ks agg
      | some g => (agg.bufferedBytes, g.cost) :: evictSubtractions target ks (agg.evict k g)

def takeSubtractions (agg : RouteAggregator) (key : AggKey) : List (Nat × Nat) :=
  ((agg.groups.get key).map fun g => (agg.bufferedBytes, g.cost)).toList

def placeSubtractions (agg : RouteAggregator) (key : AggKey) (group : AggGroup) (call : AddCall) :
    List (Nat × Nat) :=
  if group.prefixes = [] ∧ group.baseLen + nlriEncodedLen call.pfx > maxBgpUpdateLen then []
  else
    let agg := agg.store key group call.pfx
    if agg.bufferedBytes > agg.maxBytes then
      evictSubtractions (agg.maxBytes / 2) (agg.evictionOrder call.order) agg
    else []

def addSubtractions (hash : Bytes → UInt64) (sink : Sink) (agg : RouteAggregator) (call : AddCall)
    (sent : Sent) : Except Sent (List (Nat × Nat)) :=
  match agg.peerInfo.get call.ingressId with
  | none => .ok []
  | some peer => do
    let key := keyOf hash call
    let (agg', group, sent) ← agg.takeGroup sink key peer call.pamap sent
    let (group, _) ← flushFull sink group peer (nlriEncodedLen call.pfx) sent
    return agg.takeSubtractions key ++ agg'.placeSubtractions key group call

/-! ## The bound -/

/-- The open groups between two calls. -/
structure WithinBudget (maxBytes : Nat) (agg : RouteAggregator) : Prop where
  finite : ∃ order, agg.groups.IterOrder order
  costs : ∀ order, agg.groups.IterOrder order →
    agg.bufferedBytes = ((agg.groups.select order fun _ _ => true).map fun e => e.2.cost).sum
  bound : agg.bufferedBytes ≤ maxBytes
  filled : ∀ k g, agg.groups.get k = some g → g.prefixes ≠ []
  length : ∀ k g, agg.groups.get k = some g → ∀ clock peer sent,
    ∃ msg, g.emit (.accepting clock) peer sent = .ok (sent ++ [(msg, g.prefixes.length)]) ∧
      (bgpUpdateOf msg).length = g.bgpUpdateLen
  short : ∀ k g, agg.groups.get k = some g → 1 < g.prefixes.length → g.bgpUpdateLen ≤ 4096

/-- What is known of an aggregator between calls, the routes it has to account for apart. -/
structure Kept (maxBytes : Nat) (agg : RouteAggregator) (sent : Sent) : Prop where
  accounts : ∃ expected, agg.AccountsFor sent [] expected
  filled : ∀ k g, agg.groups.get k = some g → g.prefixes ≠ []
  bound : agg.bufferedBytes ≤ maxBytes
  budget : agg.maxBytes = maxBytes

variable {hash : Bytes → UInt64} {clock : Nat → Clock} {agg agg' : RouteAggregator} {sent sent' : Sent}
  {expected : List PeerRoute} {peer : PeerInfo} {call : AddCall} {maxBytes : Nat}

theorem kept_new (maxBytes : Nat) (peers : Dict IngressId PeerInfo) :
    (new maxBytes peers).Kept maxBytes [] where
  accounts := ⟨[], accounts_new peers⟩
  filled := by
    intro k g hg
    cases hg
  bound := Nat.zero_le _
  budget := rfl

theorem Kept.withinBudget (h : agg.Kept maxBytes sent) : agg.WithinBudget maxBytes := by
  obtain ⟨expected, hacc⟩ := h.accounts
  obtain ⟨order, parts, horder, _, hcost, _⟩ := hacc.balance
  refine ⟨⟨order, horder⟩, fun order' horder' => ?_, h.bound, h.filled, ?_, ?_⟩
  · have hperm := (flat_perm (f := fun _ (g : AggGroup) => [g.cost]) horder horder').sum_nat
    rw [hcost, hperm, flat_eq_select, ← List.map_eq_flatMap]
  · intro k g hg clock peer sent
    refine ⟨g.message (clock sent.length) peer, ?_, (hacc.sound k g hg).1.length_message _ peer⟩
    rw [AggGroup.emit, if_neg (h.filled k g hg)]
    rfl
  · intro k g hg _
    exact (hacc.sound k g hg).1.short (h.filled k g hg)

/-! ## Steps -/

/-- A peer that arrives or changes leaves the groups alone. -/
theorem Kept.insertPeer (h : agg.Kept maxBytes sent) (id : IngressId) (info : PeerInfo) :
    (agg.insertPeer id info).Kept maxBytes sent := by
  obtain ⟨expected, hacc⟩ := h.accounts
  obtain ⟨order, parts, horder, hparts, hcost, _⟩ := hacc.balance
  refine ⟨⟨_, ⟨fun k g hg => ⟨(hacc.sound k g hg).1, ?_⟩, order, parts, horder, hparts, hcost,
    .refl _⟩⟩, h.filled, h.bound, h.budget⟩
  have hknown := (hacc.sound k g hg).2
  rw [RouteAggregator.insertPeer, get_insert]
  by_cases hid : k.ingressId = id <;> simp [hid, hknown]

theorem ok_of_bind {α β : Type} {x : Except Sent α} {f : α → Except Sent β} {b : β}
    (h : (x >>= f) = .ok b) : ∃ a, x = .ok a ∧ f a = .ok b := by
  cases x with
  | error _ => cases h
  | ok a => exact ⟨a, rfl, h⟩

/-- The group of the key is out of the map, and nothing is added. -/
theorem get_takeGroup {sink : Sink} {key : AggKey} {pamap : RotondaPaMap} {g : AggGroup}
    (h : agg.takeGroup sink key peer pamap sent = .ok (agg', g, sent')) :
    (∀ k, agg'.groups.get k = (agg.groups.erase key).get k) ∧
      agg'.bufferedBytes ≤ agg.bufferedBytes := by
  unfold takeGroup at h
  cases hg : agg.groups.get key with
  | none =>
    rw [hg] at h
    cases h
    refine ⟨fun k => ?_, Nat.le_refl _⟩
    rw [get_erase]
    by_cases hk : k = key <;> simp [hk, hg]
  | some g' =>
    rw [hg] at h
    by_cases hblob : g'.blob = pamap.pathAttributes
    · simp only [if_pos hblob] at h
      cases h
      exact ⟨fun _ => rfl, Nat.sub_le ..⟩
    · simp only [if_neg hblob] at h
      obtain ⟨_, _, h⟩ := ok_of_bind h
      cases h
      exact ⟨fun _ => rfl, Nat.sub_le ..⟩

/-- An eviction only takes groups out. -/
theorem get_evictLoop {sink : Sink} {target : Nat} {ks : List AggKey}
    (h : evictLoop sink target ks agg sent = .ok (agg', sent')) {k : AggKey} {g : AggGroup}
    (hg : agg'.groups.get k = some g) : agg.groups.get k = some g := by
  induction ks generalizing agg sent with
  | nil =>
    cases h
    exact hg
  | cons k' ks ih =>
    unfold evictLoop at h
    by_cases hunder : agg.bufferedBytes ≤ target
    · rw [if_pos hunder] at h
      cases h
      exact hg
    · rw [if_neg hunder] at h
      cases hg' : agg.groups.get k' with
      | none =>
        rw [hg'] at h
        exact ih h
      | some g' =>
        rw [hg'] at h
        obtain ⟨sent₁, h⟩ : ∃ sent₁,
            evictLoop sink target ks (agg.evict k' g') sent₁ = .ok (agg', sent') := by
          cases hpeer : agg.peerInfo.get k'.ingressId with
          | none =>
            simp only [hpeer] at h
            exact ⟨sent, h⟩
          | some peer =>
            simp only [hpeer] at h
            obtain ⟨sent₁, _, h⟩ := ok_of_bind h
            exact ⟨sent₁, h⟩
        have hleft := ih h
        rw [evict, get_erase] at hleft
        by_cases hk : k = k'
        · simp [hk] at hleft
        · rwa [if_neg hk] at hleft

theorem evictSubtractions_le {target : Nat} (ks : List AggKey)
    (h : agg.AccountsFor sent [] expected) : ∀ s ∈ evictSubtractions target ks agg, s.2 ≤ s.1 := by
  induction ks generalizing agg sent with
  | nil => simp [evictSubtractions]
  | cons k ks ih =>
    unfold evictSubtractions
    by_cases hunder : agg.bufferedBytes ≤ target
    · simp [hunder]
    · rw [if_neg hunder]
      cases hg : agg.groups.get k with
      | none => exact ih h
      | some g =>
        obtain ⟨hsound, hknown⟩ := h.sound k g hg
        obtain ⟨peer, hpeer⟩ := Option.isSome_iff_exists.mp hknown
        obtain ⟨htake, hle⟩ := h.take hg hpeer
        obtain ⟨sent', _, hacc⟩ := AggGroup.emit_accounts (fun _ => ⟨0, 0⟩) hsound htake
        have hrest : ∀ s ∈ evictSubtractions target ks (agg.evict k g), s.2 ≤ s.1 := ih hacc
        intro s hs
        rcases List.mem_cons.mp hs with rfl | hs
        · exact hle
        · exact hrest s hs

/-- The middle of `add`: the group of the route is in hand, and the rest of the aggregator is as it
was without that group. -/
structure Holding (agg : RouteAggregator) (key : AggKey) (peer : PeerInfo) (call : AddCall)
    (agg' : RouteAggregator) (g : AggGroup) (sent : Sent) : Prop where
  same : agg.SameConfig agg'
  get : ∀ k, agg'.groups.get k = (agg.groups.erase key).get k
  le : agg'.bufferedBytes ≤ agg.bufferedBytes
  accounts : ∃ expected, agg'.AccountsFor sent (g.routes peer) expected
  collects : g.Collects call.pamap key.isV4
  room : g.prefixes = [] ∧ g.nlriTotal = 0 ∨
    g.bgpUpdateLen + nlriEncodedLen call.pfx ≤ maxBgpUpdateLen

theorem Kept.holding (h : agg.Kept maxBytes sent) (hash : Bytes → UInt64) (clock : Nat → Clock)
    (hpeer : agg.peerInfo.get call.ingressId = some peer) :
    ∃ agg₁ g₁ sent₁ g₂ sent₂,
      agg.takeGroup (.accepting clock) (keyOf hash call) peer call.pamap sent =
        .ok (agg₁, g₁, sent₁) ∧
      flushFull (.accepting clock) g₁ peer (nlriEncodedLen call.pfx) sent₁ = .ok (g₂, sent₂) ∧
      agg.Holding (keyOf hash call) peer call agg₁ g₂ sent₂ := by
  obtain ⟨expected, hacc⟩ := h.accounts
  obtain ⟨agg₁, g₁, sent₁, htake, hsame, hnone, hg₁, hacc₁⟩ :=
    takeGroup_accounts clock (keyOf hash call) call.pamap hacc hpeer
  obtain ⟨g₂, sent₂, hflush, hg₂, hacc₂, hroom⟩ :=
    flushFull_accounts clock hacc₁ hg₁ (nlriEncodedLen call.pfx)
  obtain ⟨hget, hle⟩ := get_takeGroup htake
  exact ⟨agg₁, g₁, sent₁, g₂, sent₂, htake, hflush, hsame, hget, hle, ⟨expected, hacc₂⟩, hg₂, hroom⟩

namespace Holding

variable {key : AggKey} {g : AggGroup}

section

variable (h : agg.Holding key peer call agg' g sent)
include h

theorem get_key : agg'.groups.get key = none := by
  rw [h.get, get_erase, if_pos rfl]

/-- The group goes back with one more prefix, which no longer makes it too long. -/
theorem stored (hpeer : agg.peerInfo.get key.ingressId = some peer) (hv4 : call.pfx.isV4 = key.isV4)
    (halone : ¬ (g.prefixes = [] ∧ g.baseLen + nlriEncodedLen call.pfx > maxBgpUpdateLen)) :
    ∃ expected, (agg'.store key g call.pfx).AccountsFor sent [] expected := by
  obtain ⟨expected, hacc⟩ := h.accounts
  exact ⟨_, store_accounts hacc (by rw [h.same.1]; exact hpeer) h.get_key hv4 h.collects
    (fits_of_not_alone halone h.room)⟩

theorem get_store (k : AggKey) :
    (agg'.store key g call.pfx).groups.get k =
      if k = key then some (g.push call.pfx (nlriEncodedLen call.pfx)) else agg.groups.get k := by
  rw [store, get_insert]
  by_cases hk : k = key
  · rw [if_pos hk, if_pos hk]
  · rw [if_neg hk, if_neg hk, h.get, get_erase, if_neg hk]

/-- Every exit of `add` leaves the books in order. -/
theorem place (hkept : agg.Kept maxBytes sent') (clock : Nat → Clock)
    (hpeer : agg.peerInfo.get key.ingressId = some peer) (hv4 : call.pfx.isV4 = key.isV4)
    (horder : call.order.Nodup ∧ ∀ k, k ∈ call.order ↔ k = key ∨ (agg.groups.get k).isSome) :
    ∃ agg₂ sent₂, agg'.place (.accepting clock) key g peer call sent = .ok (agg₂, sent₂) ∧
      agg₂.Kept maxBytes sent₂ := by
  unfold RouteAggregator.place
  by_cases halone : g.prefixes = [] ∧ g.baseLen + nlriEncodedLen call.pfx > maxBgpUpdateLen
  · obtain ⟨expected, hacc⟩ := h.accounts
    have hroutes : g.routes peer = [] := by simp [AggGroup.routes, halone.1]
    rw [hroutes] at hacc
    obtain ⟨sent₂, hemit, hacc₂⟩ := emitSingle_accounts clock hacc
    refine ⟨agg', sent₂, by rw [if_pos halone, hemit]; rfl, ⟨_, hacc₂⟩, fun k g' hg' => ?_,
      Nat.le_trans h.le hkept.bound, h.same.2.trans hkept.budget⟩
    rw [h.get, get_erase] at hg'
    by_cases hk : k = key
    · simp [hk] at hg'
    · rw [if_neg hk] at hg'
      exact hkept.filled k g' hg'
  · have hbudget : (agg'.store key g call.pfx).maxBytes = maxBytes :=
      h.same.2.trans hkept.budget
    obtain ⟨expected, hacc⟩ := h.stored hpeer hv4 halone
    have hfilled : ∀ k g', (agg'.store key g call.pfx).groups.get k = some g' →
        g'.prefixes ≠ [] := by
      intro k g' hg'
      rw [h.get_store] at hg'
      by_cases hk : k = key
      · rw [if_pos hk, Option.some.injEq] at hg'
        simp [← hg', AggGroup.push]
      · rw [if_neg hk] at hg'
        exact hkept.filled k g' hg'
    rw [if_neg halone]
    by_cases hover : (agg'.store key g call.pfx).bufferedBytes > (agg'.store key g call.pfx).maxBytes
    · have hiter : (agg'.store key g call.pfx).groups.IterOrder call.order := by
        refine ⟨horder.1, fun k => ?_⟩
        rw [horder.2 k, h.get_store]
        by_cases hk : k = key <;> simp [hk]
      obtain ⟨agg₂, sent₂, hevict, hsame, hacc₂, hhalf⟩ :=
        evictUntilUnderBudget_bufferedBytes_le clock hacc hiter
      refine ⟨agg₂, sent₂, by simpa only [if_pos hover] using hevict, ⟨expected, hacc₂⟩, ?_, ?_,
        hsame.2.trans hbudget⟩
      · intro k g' hg'
        exact hfilled k g' (get_evictLoop hevict hg')
      · omega
    · refine ⟨_, _, by simp only [if_neg hover], ⟨expected, hacc⟩, hfilled, ?_, hbudget⟩
      rw [← hbudget]
      exact Nat.le_of_not_lt hover

theorem placeSubtractions_le (hpeer : agg.peerInfo.get key.ingressId = some peer)
    (hv4 : call.pfx.isV4 = key.isV4) : ∀ s ∈ agg'.placeSubtractions key g call, s.2 ≤ s.1 := by
  unfold placeSubtractions
  by_cases halone : g.prefixes = [] ∧ g.baseLen + nlriEncodedLen call.pfx > maxBgpUpdateLen
  · simp [halone]
  · obtain ⟨expected, hacc⟩ := h.stored hpeer hv4 halone
    rw [if_neg halone]
    by_cases hover : (agg'.store key g call.pfx).bufferedBytes > (agg'.store key g call.pfx).maxBytes
    · simp only [if_pos hover]
      exact evictSubtractions_le _ hacc
    · simp [hover]

end

end Holding

theorem Kept.add (h : agg.Kept maxBytes sent) (clock : Nat → Clock) (horder : agg.Iterates hash call) :
    ∃ agg' sent', agg.add hash (.accepting clock) call sent = .ok (agg', sent') ∧
      agg'.Kept maxBytes sent' := by
  unfold RouteAggregator.add
  cases hpeer : agg.peerInfo.get call.ingressId with
  | none => exact ⟨agg, sent, rfl, h⟩
  | some peer =>
    obtain ⟨agg₁, g₁, sent₁, g₂, sent₂, htake, hflush, hholding⟩ := h.holding hash clock hpeer
    obtain ⟨agg₃, sent₃, hplace, hkept⟩ := hholding.place h clock hpeer rfl horder
    refine ⟨agg₃, sent₃, ?_, hkept⟩
    rw [keyOf] at htake hplace
    simp only [htake, bind, Except.bind, hflush, hplace]

/-- No subtraction of a call goes below zero. -/
theorem Kept.addSubtractions (h : agg.Kept maxBytes sent) (hash : Bytes → UInt64) (clock : Nat → Clock)
    (call : AddCall) :
    ∃ subs, agg.addSubtractions hash (.accepting clock) call sent = .ok subs ∧
      ∀ s ∈ subs, s.2 ≤ s.1 := by
  unfold RouteAggregator.addSubtractions
  cases hpeer : agg.peerInfo.get call.ingressId with
  | none => exact ⟨[], rfl, by simp⟩
  | some peer =>
    obtain ⟨agg₁, g₁, sent₁, g₂, sent₂, htake, hflush, hholding⟩ := h.holding hash clock hpeer
    refine ⟨_, by simp only [htake, bind, Except.bind, hflush]; rfl, fun s hs => ?_⟩
    rcases List.mem_append.mp hs with hs | hs
    · obtain ⟨expected, hacc⟩ := h.accounts
      obtain ⟨g, hg, rfl⟩ := Option.map_eq_some_iff.mp (Option.mem_toList.mp hs)
      exact (hacc.take hg hpeer).2
    · exact hholding.placeSubtractions_le hpeer rfl s hs

theorem Kept.step {st st' : RouteAggregator × Sent} {c : Call} (h : st.1.Kept maxBytes st.2)
    (horder : Ordered hash st c) (hs : step hash clock st c = some st') : st'.1.Kept maxBytes st'.2 := by
  cases c with
  | insertPeer id info =>
    cases hs
    exact h.insertPeer id info
  | add call =>
    obtain ⟨agg', sent', hadd, hkept⟩ := h.add clock horder
    rw [RouteAggregator.step, hadd] at hs
    cases hs
    exact hkept

theorem Kept.exec {st : RouteAggregator × Sent} {calls : List Call} (h : st.1.Kept maxBytes st.2)
    (horder : Along (RouteAggregator.step hash clock) (Ordered hash) st calls) :
    ∃ st', exec (RouteAggregator.step hash clock) st calls = some st' ∧
      st'.1.Kept maxBytes st'.2 := by
  induction calls generalizing st with
  | nil => exact ⟨st, rfl, h⟩
  | cons c calls ih =>
    -- the sink accepts everything, so a step returns before its order is asked for
    obtain ⟨st₁, hs⟩ : ∃ st₁, RouteAggregator.step hash clock st c = some st₁ := by
      cases c with
      | insertPeer id info => exact ⟨_, rfl⟩
      | add call =>
        obtain ⟨expected, hacc⟩ := h.accounts
        obtain ⟨agg', sent', hadd, _⟩ := add_accounts hash clock hacc call
        exact ⟨(agg', sent'), by rw [RouteAggregator.step, hadd]; rfl⟩
    obtain ⟨hguard, hrest⟩ := horder st₁ hs
    obtain ⟨st', hexec, hkept⟩ := ih (h.step hguard hs) hrest
    exact ⟨st', (exec_cons_eq_some _).mpr ⟨st₁, hs, hexec⟩, hkept⟩

/-- After any calls of `add` and `insert_peer` the buffered bytes are the costs of the open groups
and within the budget, no group is empty, its predicted length is that of the message it would be
emitted as, and no further call subtracts more from the buffered bytes than there is. -/
theorem withinBudget_run (hash : Bytes → UInt64) (clock : Nat → Clock) (maxBytes : Nat)
    (peers : Dict IngressId PeerInfo) {calls : List Call}
    (horder : Along (step hash clock) (Ordered hash) (new maxBytes peers, []) calls) :
    ∃ st, exec (step hash clock) (new maxBytes peers, []) calls = some st ∧
      st.1.WithinBudget maxBytes ∧
      ∀ call, ∃ subs, st.1.addSubtractions hash (.accepting clock) call st.2 = .ok subs ∧
        ∀ s ∈ subs, s.2 ≤ s.1 := by
  obtain ⟨st, hexec, hkept⟩ := Kept.exec (kept_new maxBytes peers) horder
  exact ⟨st, hexec, hkept.withinBudget, fun call => hkept.addSubtractions hash clock call⟩

def discovered : List Call :=
  [.insertPeer 1 (.fromIngressInfo {}), .add ⟨1, .slash8 10, ⟨0, 0, []⟩, [⟨1, true, 0⟩]⟩]

/-- A budget that is smaller than a group. -/
theorem withinBudget_discovered :
    ∃ st, exec (step (fun _ => 0) fun _ => ⟨0, 0⟩) (new 100 .empty, []) discovered = some st ∧
      st.1.WithinBudget 100 := by
  have horder : Along (step (fun _ => 0) fun _ => ⟨0, 0⟩) (Ordered fun _ => 0) (new 100 .empty, [])
      discovered := by
    have hv4 : (Prefix.slash8 10).isV4 = true := rfl
    refine along_cons _ rfl trivial fun st' _ => ⟨⟨by simp, fun k => ?_⟩, trivial⟩
    simp [keyOf, insertPeer, new, hv4]
  obtain ⟨st, hexec, hwithin, _⟩ := withinBudget_run (fun _ => 0) (fun _ => ⟨0, 0⟩) 100 .empty horder
  exact ⟨st, hexec, hwithin⟩

end RouteAggregator

end Rotonda.BmpOut
