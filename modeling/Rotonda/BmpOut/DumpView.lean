import Rotonda.BmpOut.Receiver
import Rotonda.BmpOut.Shift

/-!
What the receiver holds of one peer after the initial dump.

The routes of the walk go through the aggregator, which may emit them in any order and in between
the Peer Ups of peers that the walk finds.

* `Walk.Tallies`: the routes of the peer that were read are in messages or in the aggregator;
* `viewOf_performInitialDump`: after the dump the receiver holds the routes that were read.
-/

namespace Rotonda.BmpOut

open Lib Lib.Bytes List RouteAggregator

/-- At every read of the register the peer is there, as a peer, and its header is that of no other
entry. -/
structure Names (id : IngressId) (h : Bytes) (w : World) : Prop where
  registered (n : Nat) : ∃ info, (w.regs n).get id = some info ∧ isPeerType info.ingressType = true
  header {n : Nat} {id' : IngressId} {info : IngressInfo} (hget : (w.regs n).get id' = some info) :
    headerKey w.cfg info = h ↔ id' = id

/-- The call is about a route that can be sent. -/
def AddCall.Fits (call : AddCall) : Prop := (buildBgpUpdate call.pfx call.pamap false).isSome

/-- What was read of a route of the peer. -/
def ReadAs (id : IngressId) (calls : List AddCall) (p : Prefix) (v : Option Announcement) : Prop :=
  ∀ a, v = some a ↔
    ∃ call ∈ calls, call.ingressId = id ∧ call.pfx = p ∧ announcementOf call.pfx call.pamap = a

theorem ReadAs.unique {id : IngressId} {calls : List AddCall} {p : Prefix}
    {v v' : Option Announcement} (h : ReadAs id calls p v) (h' : ReadAs id calls p v') : v = v' :=
  Option.ext fun a => (h a).trans (h' a).symm

def readFor (id : IngressId) (h : Bytes) (calls : List AddCall) : List PeerRoute :=
  (calls.filter (·.ingressId = id)).map fun call => (h, announcementOf call.pfx call.pamap)

/-! ## The walk -/

section Walk

variable {id : IngressId} {h : Bytes} {w : World} {done calls : List AddCall}
  {agg : RouteAggregator} {sent : Sent} {pending : List PeerRoute}
variable {call : AddCall}

theorem carried_of_carries {parts : List (List PeerRoute)} (hsent : List.Forall₂ Carries sent parts) :
    carried (sent.map Prod.fst) = parts.flatten ∧ ∀ msg ∈ sent, Announces msg.1 := by
  induction hsent with
  | nil => exact ⟨rfl, nofun⟩
  | @cons msg routes sent parts hmsg _ ih =>
    refine ⟨?_, forall_mem_cons.mpr ⟨.inl ?_, ih.2⟩⟩
    · rw [map_cons, ← singleton_append, carried_append, ih.1]
      simp [carried, hmsg.decodes]
    · rw [hmsg.decodes]
      rfl

/-- A new peer comes in: what was sent so far is put on record, and what is left in the groups is
still pending. -/
theorem RouteAggregator.AccountsFor.insertPeer (hacc : agg.AccountsFor sent [] pending)
    {id' : IngressId} (hid : agg.peerInfo.get id' = none) (peer : PeerInfo) :
    ∃ rest, (agg.insertPeer id' peer).AccountsFor [] [] rest ∧
      (carried (sent.map Prod.fst) ++ rest).Perm pending ∧ ∀ msg ∈ sent, Announces msg.1 := by
  obtain ⟨order, parts, horder, hparts, hcost, hperm⟩ := hacc.balance
  obtain ⟨hcarried, hannounces⟩ := carried_of_carries hparts
  have hne {k : AggKey} {g : AggGroup} (hg : agg.groups.get k = some g) : k.ingressId ≠ id' := by
    rintro rfl
    have hsome := (hacc.sound k g hg).2
    rw [hid] at hsome
    cases hsome
  have hheld {k : AggKey} {g : AggGroup} (hg : agg.groups.get k = some g) :
      heldBy (agg.peerInfo.insert id' peer) k g = heldBy agg.peerInfo k g := by
    rw [heldBy, heldBy, Dict.get_insert_of_ne peer (hne hg)]
  refine ⟨agg.groups.flat (heldBy agg.peerInfo) order, ⟨fun k g hg => ?_, ?_⟩, ?_, hannounces⟩
  · obtain ⟨hsound, hsome⟩ := hacc.sound k g hg
    refine ⟨hsound, ?_⟩
    change ((agg.peerInfo.insert id' peer).get k.ingressId).isSome
    rwa [Dict.get_insert_of_ne peer (hne hg)]
  · refine ⟨order, [], horder, .nil, hcost, ?_⟩
    rw [← Dict.flat_congr_right fun k g hg => hheld hg]
    exact .refl _
  · rw [hcarried]
    exact hperm

/-- The routes of the peer that were read are in messages or in the aggregator. -/
structure Walk.Tallies (id : IngressId) (h : Bytes) (infos : Dict IngressId PeerInfo)
    (done : List AddCall) (st : Walk) : Prop where
  keys {id' : IngressId} {peer : PeerInfo} (hpeer : st.agg.peerInfo.get id' = some peer) :
    peer.key = h ↔ id' = id
  known {id' : IngressId} (hid : st.agg.hasPeer id') :
    (infos.get id').isSome ∨ id' ∈ st.discovered.map Prod.fst
  listed {call : AddCall} (hcall : call ∈ done) (hid : call.ingressId = id) : st.agg.hasPeer id
  balance : ∃ before sent pending, st.sent = before ++ sent ∧
    (∀ msg ∈ before, Announces msg.1) ∧ st.agg.AccountsFor sent [] pending ∧
    ((carried (before.map Prod.fst) ++ pending).filter (·.1 = h)).Perm (readFor id h done)

/-- What the aggregator is to bring of a call, as far as the peer is concerned. -/
theorem filter_expectedOf {peers : Dict IngressId PeerInfo}
    (hkeys : ∀ peer, peers.get call.ingressId = some peer → (peer.key = h ↔ call.ingressId = id))
    (hknown : (peers.get call.ingressId).isSome) (hfits : call.ingressId = id → call.Fits) :
    (RouteAggregator.expectedOf peers call).filter (·.1 = h) = readFor id h [call] := by
  obtain ⟨peer, hpeer⟩ := Option.isSome_iff_exists.mp hknown
  rw [RouteAggregator.expectedOf, hpeer, Option.elim_some]
  by_cases hid : call.ingressId = id
  · have hkey := (hkeys peer hpeer).mpr hid
    have hbuild : (buildBgpUpdate call.pfx call.pamap false).isSome = true := hfits hid
    rw [if_pos hbuild]
    simp [readFor, hid, hkey]
  · have hkey : peer.key ≠ h := mt (hkeys peer hpeer).mp hid
    split <;> simp [readFor, hid, hkey]

theorem readFor_append (id : IngressId) (h : Bytes) (done calls : List AddCall) :
    readFor id h (done ++ calls) = readFor id h done ++ readFor id h calls := by
  simp [readFor]

variable {infos : Dict IngressId PeerInfo} {st : Walk}

theorem Walk.Tallies.add (ht : st.Tallies id h infos done) (hash : Bytes → UInt64)
    (clock : Nat → Clock) (hknown : st.agg.hasPeer call.ingressId)
    (hfits : call.ingressId = id → call.Fits) :
    ∃ st', st.add hash (.accepting clock) call = .ok st' ∧
      st'.Tallies id h infos (done ++ [call]) := by
  obtain ⟨before, sent, pending, hsent, hbefore, hacc, hperm⟩ := ht.balance
  obtain ⟨agg', sent', hadd, hsame, hacc'⟩ :=
    add_accounts hash (fun i => clock (before.length + i)) hacc call
  -- the aggregator does the same after the messages that went before
  have hshift := @add_shifts before sent (.accepting clock) hash st.agg call
  rw [← hsent] at hshift
  rw [show (Sink.accepting clock).after before.length =
    .accepting (fun i => clock (before.length + i)) from rfl, hadd] at hshift
  cases hres : st.agg.add hash (.accepting clock) call st.sent with
  | error s => rw [hres] at hshift; cases hshift
  | ok r =>
    rw [hres] at hshift
    obtain ⟨hagg, hsent'⟩ := hshift
    obtain ⟨agg'', sent''⟩ := r
    cases hagg
    dsimp only at hsent'
    subst hsent'
    refine ⟨{ st with agg := agg', sent := before ++ sent' }, ?_, ⟨?_, ?_, ?_, ?_⟩⟩
    · rw [Walk.add, hres]
      rfl
    · intro id' peer hpeer
      rw [hsame.1] at hpeer
      exact ht.keys hpeer
    · intro id' hid
      rw [RouteAggregator.hasPeer, hsame.1] at hid
      exact ht.known hid
    · intro call' hcall hid
      rw [RouteAggregator.hasPeer, hsame.1]
      rcases mem_append.mp hcall with hcall | hcall
      · exact ht.listed hcall hid
      · cases mem_singleton.mp hcall
        rw [← hid]
        exact hknown
    · refine ⟨before, sent', _, rfl, hbefore, hacc', ?_⟩
      rw [← append_assoc, filter_append, readFor_append,
        filter_expectedOf (fun peer hpeer => ht.keys hpeer) hknown hfits]
      exact hperm.append_right _

theorem decodeRoutes_buildPeerUp (now : Clock) (peer : PeerInfo) (gr : Bool) :
    decodeRoutes (buildPeerUp now peer gr) = none := by
  cases hdecode : decodeRouteMonitoring (buildPeerUp now peer gr) with
  | none => rw [decodeRoutes, hdecode, Option.bind_none]
  | some routes =>
    have hevent := eventOf_of_decode hdecode
    rw [eventOf_buildPeerUp] at hevent
    cases hevent

/-- The walk finds a peer and sends its Peer Up. -/
theorem Walk.Tallies.discover (ht : st.Tallies id h infos done) {id' : IngressId}
    (hid : st.agg.hasPeer id' = false) {peer : PeerInfo} (hkey : peer.key = h ↔ id' = id)
    (now : Clock) (n : Nat) :
    Walk.Tallies id h infos done ⟨st.agg.insertPeer id' peer, st.discovered ++ [(id', peer)],
      st.sent ++ [(buildPeerUp now peer false, 0)], n⟩ := by
  have hnone : st.agg.peerInfo.get id' = none := by
    simpa [RouteAggregator.hasPeer] using hid
  have hget (id'' : IngressId) : (st.agg.insertPeer id' peer).peerInfo.get id'' =
      if id'' = id' then some peer else st.agg.peerInfo.get id'' := Dict.get_insert ..
  refine ⟨?_, ?_, ?_, ?_⟩
  · intro id'' peer'' hpeer
    rw [hget] at hpeer
    split at hpeer
    next heq =>
      cases hpeer
      rw [heq]
      exact hkey
    · exact ht.keys hpeer
  · intro id'' hid''
    rw [RouteAggregator.hasPeer, hget] at hid''
    rw [map_append, mem_append]
    split at hid''
    next heq => exact .inr (.inr (by rw [heq]; exact mem_singleton_self _))
    · exact (ht.known hid'').imp_right .inl
  · intro call hcall hcid
    rw [RouteAggregator.hasPeer, hget]
    split
    · rfl
    · exact ht.listed hcall hcid
  · obtain ⟨before, sent, pending, hsent, hbefore, hacc, hperm⟩ := ht.balance
    obtain ⟨rest, hacc', hrest, hannounces⟩ := hacc.insertPeer hnone peer
    refine ⟨st.sent ++ [(buildPeerUp now peer false, 0)], [], rest, (append_nil _).symm, ?_,
      hacc', ?_⟩
    · intro msg hmsg
      rw [hsent, append_assoc, mem_append, mem_append, mem_singleton] at hmsg
      rcases hmsg with hmsg | hmsg | rfl
      · exact hbefore msg hmsg
      · exact hannounces msg hmsg
      · exact .inr ⟨_, eventOf_buildPeerUp ..⟩
    · have hup : carried [buildPeerUp now peer false] = [] := by
        simp [carried, decodeRoutes_buildPeerUp]
      rw [hsent, map_append, map_append, carried_append, carried_append, map_cons,
        map_nil, hup, append_nil, append_assoc]
      exact ((hrest.append_left _).filter _).trans hperm

section

variable (ht : st.Tallies id h infos done) (hw : Names id h w) (hash : Bytes → UInt64)
  (clock : Nat → Clock)
include ht hw hash

/-- One stored route. -/
theorem Walk.Tallies.record (hfits : call.ingressId = id → call.Fits) :
    ∃ st', st.record hash (.accepting clock) w call = .ok st' ∧
      st'.Tallies id h infos (done ++ [call]) := by
  unfold Walk.record
  split
  next hhas => exact ht.add hash clock hhas hfits
  next hhas =>
    split
    next info hinfo =>
      obtain ⟨hinfo, _⟩ := Option.filter_eq_some_iff.mp hinfo
      have hkey : (buildPeerInfoForEmit w.cfg (w.regs (st.reads + 1)) info).key = h ↔
          call.ingressId = id := by
        rw [key_buildPeerInfoForEmit]
        exact hw.header hinfo
      have hfound := ht.discover (by simpa using hhas) hkey (clock st.sent.length) (st.reads + 2)
      exact hfound.add hash clock (by simp [RouteAggregator.hasPeer, RouteAggregator.insertPeer]) hfits
    next hskip =>
      -- an ingress that is no peer is not the one that is named
      have hne : call.ingressId ≠ id := by
        intro hid
        obtain ⟨info, hget, htype⟩ := hw.registered st.reads
        rw [hid, hget] at hskip
        simp [htype] at hskip
      have hread : readFor id h (done ++ [call]) = readFor id h done := by
        rw [readFor_append]
        simp [readFor, hne]
      refine ⟨_, rfl, ht.keys, ht.known, ?_, by rw [hread]; exact ht.balance⟩
      intro call' hcall hid
      rcases mem_append.mp hcall with hcall | hcall
      · exact ht.listed hcall hid
      · cases mem_singleton.mp hcall
        exact absurd hid hne

theorem Walk.Tallies.records (hfits : ∀ call ∈ calls, call.ingressId = id → call.Fits) :
    ∃ st', Walk.records hash (.accepting clock) w calls st = .ok st' ∧
      st'.Tallies id h infos (done ++ calls) := by
  induction calls generalizing st done with
  | nil => exact ⟨st, rfl, by rwa [append_nil]⟩
  | cons call calls ih =>
    obtain ⟨st₁, hrecord, ht₁⟩ := ht.record hw hash clock (hfits call mem_cons_self)
    obtain ⟨st₂, hrecords, ht₂⟩ := ih ht₁ fun call' hcall' =>
      hfits call' (mem_cons_of_mem _ hcall')
    refine ⟨st₂, ?_, by rwa [append_assoc] at ht₂⟩
    simp only [Walk.records, hrecord, bind, Except.bind, hrecords]

end

/-- After the final flush the routes of the peer that were read are in messages. -/
theorem Walk.Tallies.flushAll (ht : st.Tallies id h infos calls) (clock : Nat → Clock)
    {order : List AggKey} (horder : st.agg.groups.IterOrder order) :
    ∃ agg sent, st.agg.flushAll (.accepting clock) order st.sent = .ok (agg, sent) ∧
      (∀ msg ∈ sent, Announces msg.1) ∧
      ((carried (sent.map Prod.fst)).filter (·.1 = h)).Perm (readFor id h calls) := by
  obtain ⟨before, sent, pending, hsent, hbefore, hacc, hperm⟩ := ht.balance
  obtain ⟨agg', out, parts, hflush, hparts, hflat⟩ :=
    flushAll_accounts (fun i => clock (before.length + i)) hacc horder
  obtain ⟨hcarried, hannounces⟩ := carried_of_carries hparts
  have hshift := @flushAll_shifts before sent (.accepting clock) st.agg order
  rw [← hsent, show (Sink.accepting clock).after before.length =
    .accepting (fun i => clock (before.length + i)) from rfl, hflush] at hshift
  cases hres : st.agg.flushAll (.accepting clock) order st.sent with
  | error s => rw [hres] at hshift; cases hshift
  | ok r =>
    rw [hres] at hshift
    obtain ⟨_, hout⟩ := hshift
    refine ⟨r.1, r.2, rfl, ?_, ?_⟩
    · rw [hout]
      exact forall_mem_append.mpr ⟨hbefore, hannounces⟩
    · rw [hout, map_append, carried_append, hcarried]
      exact ((hflat.append_left _).filter _).trans hperm

end Walk

/-! ## The dump -/

section Dump

variable {id : IngressId} {h : Bytes} {w : World} {args : DumpArgs} {c : Client}
  {infos : Dict IngressId PeerInfo} {calls : List AddCall}

/-- The enumerated peers are known, and their headers tell the peer from the others. -/
structure Enumerates (id : IngressId) (h : Bytes) (c : Client) (infos : Dict IngressId PeerInfo) :
    Prop where
  keys {id' : IngressId} {peer : PeerInfo} (hpeer : infos.get id' = some peer) :
    peer.key = h ↔ id' = id
  known {id' : IngressId} (hid : (infos.get id').isSome) : c.knows id' = true

/-- The Peer Ups of the enumerated peers. -/
theorem enumerates_dumpPeerUps (n : Nat) {peers : List (IngressId × IngressInfo)}
    (hpeers : ∀ e ∈ peers, headerKey w.cfg e.2 = h ↔ e.1 = id) (henum : Enumerates id h c infos) :
    viewOf (dumpPeerUps w n peers c infos).1.sent = viewOf c.sent ∧
      Enumerates id h (dumpPeerUps w n peers c infos).1 (dumpPeerUps w n peers c infos).2 := by
  induction peers generalizing n c infos with
  | nil => exact ⟨rfl, henum⟩
  | cons e peers ih =>
    obtain ⟨id', info⟩ := e
    have hkey : (buildPeerInfoForEmit w.cfg (w.regs n) info).key = h ↔ id' = id := by
      rw [key_buildPeerInfoForEmit]
      exact hpeers _ mem_cons_self
    have hnext : Enumerates id h
        ((c.sendPeerUp w id' (buildPeerInfoForEmit w.cfg (w.regs n) info) true).addKnownPeer id')
        (infos.insert id' (buildPeerInfoForEmit w.cfg (w.regs n) info)) := by
      constructor
      · intro id'' peer hpeer
        rcases Dict.of_get_insert hpeer with ⟨rfl, rfl⟩ | ⟨_, hpeer⟩
        · exact hkey
        · exact henum.keys hpeer
      · intro id'' hid''
        rw [knows_addKnownPeer]
        rw [Dict.get_insert] at hid''
        split at hid''
        next heq => exact .inl heq
        · exact .inr (henum.known hid'')
    obtain ⟨hview, henum'⟩ := ih (n + 1) (fun e he => hpeers e (mem_cons_of_mem _ he)) hnext
    exact ⟨hview.trans (viewOf_sendPeerUp c w id' _ true), henum'⟩

theorem viewOf_sendEndOfRib (c : Client) (w : World) (peer : PeerInfo) :
    viewOf (c.sendEndOfRib w peer).sent = viewOf c.sent := by
  simp [Client.sendEndOfRib]

theorem viewOf_endEnumerated (c : Client) (peers : List (IngressId × IngressInfo)) :
    ∃ sent, peers.foldl (Client.endEnumerated w infos) c = { c with sent := sent } ∧
      viewOf sent = viewOf c.sent := by
  induction peers generalizing c with
  | nil => exact ⟨c.sent, rfl, rfl⟩
  | cons e peers ih =>
    rw [foldl_cons, Client.endEnumerated]
    split
    next peer _ =>
      obtain ⟨sent, heq, hview⟩ := ih (c.sendEndOfRib w peer)
      exact ⟨sent, heq, hview.trans (viewOf_sendEndOfRib c w peer)⟩
    · exact ih c

theorem viewOf_endDiscovered (c : Client) (discovered : List (IngressId × PeerInfo)) :
    ∃ sent known, discovered.foldl (Client.endDiscovered w) c =
        { c with sent := sent, knownPeers := known } ∧ viewOf sent = viewOf c.sent ∧
      ∀ id', (known.get id').isSome ↔ c.knows id' = true ∨ id' ∈ discovered.map Prod.fst := by
  induction discovered generalizing c with
  | nil => exact ⟨c.sent, c.knownPeers, rfl, rfl, by simp [Client.knows]⟩
  | cons e discovered ih =>
    obtain ⟨sent, known, heq, hview, hknown⟩ := ih (Client.endDiscovered w c e)
    refine ⟨sent, known, heq, hview.trans (viewOf_sendEndOfRib _ w e.2), fun id' => ?_⟩
    rw [hknown, map_cons, mem_cons, ← or_assoc]
    exact or_congr_left ((knows_addKnownPeer c e.1 id').trans or_comm)

/-- The client and the headers after the Peer Ups of the enumerated peers. -/
def enumerated (args : DumpArgs) (w : World) : Client × Dict IngressId PeerInfo :=
  dumpPeerUps w 3 (dumpPeers w args.orders)
    (Client.new.send w fun _ => buildInitiationMessage args.sysName args.sysDescr) .empty

def walkClock (args : DumpArgs) (w : World) (i : Nat) : Clock :=
  w.clock ((enumerated args w).1.sent.length + i)

def walked (args : DumpArgs) (w : World) (calls : List AddCall) : Except Sent Walk :=
  Walk.records args.hash ⟨walkClock args w, args.accepts⟩ w calls
    ⟨.new dumpAggregatorMaxBytes (enumerated args w).2, [], [],
      3 + (dumpPeers w args.orders).length⟩

theorem performInitialDump_eq (args : DumpArgs) (w : World) (calls : List AddCall) :
    Client.new.performInitialDump args w calls =
      match walkRib args ⟨walkClock args w, args.accepts⟩ w dumpAggregatorMaxBytes
        (3 + (dumpPeers w args.orders).length) (enumerated args w).2 calls with
      | .error sent => ((enumerated args w).1.forward sent [], false)
      | .ok st => (st.discovered.foldl (Client.endDiscovered w)
          ((dumpPeers w args.orders).foldl (Client.endEnumerated w (enumerated args w).2)
            ((enumerated args w).1.forward st.sent st.discovered)), true) := rfl

/-- The consumer takes every message, the final flush goes through the groups that are open then,
and the routes of the peer can be sent. -/
structure Completes (id : IngressId) (args : DumpArgs) (w : World) (calls : List AddCall) : Prop where
  accepts : args.accepts = fun _ => true
  flushes (st : Walk) (hst : walked args w calls = .ok st) : st.agg.groups.IterOrder args.flushOrder
  fits {call : AddCall} (hcall : call ∈ calls) (hid : call.ingressId = id) : call.Fits

theorem mem_carried {msgs : List Bytes} (hperm : ((carried msgs).filter (·.1 = h)).Perm
    (readFor id h calls)) (a : Announcement) :
    (h, a) ∈ carried msgs ↔
      ∃ call ∈ calls, call.ingressId = id ∧ announcementOf call.pfx call.pamap = a := by
  have hmem := hperm.mem_iff (a := (h, a))
  rw [mem_filter] at hmem
  simpa [readFor, and_assoc] using hmem

theorem enumerates_enumerated (hw : Names id h w) (args : DumpArgs) :
    viewOf (enumerated args w).1.sent = .empty ∧
      Enumerates id h (enumerated args w).1 (enumerated args w).2 := by
  have hpeers : ∀ e ∈ dumpPeers w args.orders, headerKey w.cfg e.2 = h ↔ e.1 = id := by
    intro e he
    obtain ⟨n, hget, _⟩ := mem_dumpPeers he
    exact hw.header hget
  have hinit : Enumerates id h
      (Client.new.send w fun _ => buildInitiationMessage args.sysName args.sysDescr) .empty :=
    ⟨nofun, nofun⟩
  obtain ⟨hview, henum⟩ := enumerates_dumpPeerUps 3 hpeers hinit
  rw [viewOf_send, receive_buildInitiationMessage] at hview
  exact ⟨hview, henum⟩

/-- The messages of the whole walk. -/
theorem walkRib_tallies (hw : Names id h w) (hfits : ∀ call ∈ calls, call.ingressId = id → call.Fits)
    (henum : Enumerates id h c infos) (clock : Nat → Clock) (maxBytes n : Nat)
    (hflush : ∀ st, Walk.records args.hash (.accepting clock) w calls
      ⟨.new maxBytes infos, [], [], n⟩ = .ok st → st.agg.groups.IterOrder args.flushOrder) :
    ∃ st, walkRib args (.accepting clock) w maxBytes n infos calls = .ok st ∧
      (∀ msg ∈ st.sent, Announces msg.1) ∧
      ((carried (st.sent.map Prod.fst)).filter (·.1 = h)).Perm (readFor id h calls) ∧
      ∀ call ∈ calls, call.ingressId = id →
        (infos.get id).isSome ∨ id ∈ st.discovered.map Prod.fst := by
  have hstart : Walk.Tallies id h infos [] ⟨.new maxBytes infos, [], [], n⟩ :=
    ⟨henum.keys, .inl, nofun, [], [], [], rfl, nofun, accounts_new infos, .refl _⟩
  obtain ⟨st, hrecords, ht⟩ := hstart.records hw args.hash clock hfits
  rw [nil_append] at ht
  obtain ⟨agg, sent, hflushed, hannounces, hperm⟩ := ht.flushAll clock (hflush st hrecords)
  refine ⟨{ st with agg := agg, sent := sent }, ?_, hannounces, hperm,
    fun call hcall hid => ht.known (ht.listed hcall hid)⟩
  simp only [walkRib, hrecords, bind, Except.bind, hflushed, pure, Except.pure]

/-- The routes of a peer after announcements that bring none of them twice. -/
theorem foldl_announce_eq_some_iff {routes : List PeerRoute} {p : Prefix} {a : Announcement}
    (honly : ∀ b b', (h, b) ∈ routes → (h, b') ∈ routes → b.pfx = b'.pfx → b = b') :
    routes.foldl View.announce .empty h p = some a ↔ (h, a) ∈ routes ∧ a.pfx = p := by
  by_cases hex : ∃ b, (h, b) ∈ routes ∧ b.pfx = p
  · obtain ⟨b, hmem, hpfx⟩ := hex
    have hsame : ∀ r ∈ routes, r.1 = h → r.2.pfx = p → r.2 = b := by
      rintro ⟨k, b'⟩ hr hk hp
      cases hk
      exact honly b' b hr hmem (hp.trans hpfx.symm)
    rw [foldl_announce_eq_some .empty hmem hpfx hsame, Option.some.injEq]
    constructor
    · rintro rfl
      exact ⟨hmem, hpfx⟩
    · rintro ⟨ha, hp⟩
      exact honly b a hmem ha (hpfx.trans hp.symm)
  · have hne : ∀ r ∈ routes, r.1 = h → r.2.pfx ≠ p := by
      rintro ⟨k, b⟩ hr hk hp
      cases hk
      exact hex ⟨b, hr, hp⟩
    rw [foldl_announce_of_forall_ne .empty hne]
    exact ⟨nofun, fun hmem => absurd ⟨a, hmem⟩ hex⟩

/-- The dump tells the receiver what was read of the peer. -/
theorem viewOf_performInitialDump (hw : Names id h w) (hargs : Completes id args w calls)
    (hread : ∀ p, ∃ v, ReadAs id calls p v) :
    ∃ c, Client.new.performInitialDump args w calls = (c, true) ∧ c.Serves id h ∧
      ∀ p, ReadAs id calls p (viewOf c.sent h p) := by
  obtain ⟨hview, henum⟩ := enumerates_enumerated hw args
  have hcache : (enumerated args w).1.peerInfoCache = .empty :=
    peerInfoCache_dumpPeerUps w 3 (dumpPeers w args.orders) _ .empty
  have hflush := hargs.flushes
  unfold walked at hflush
  rw [hargs.accepts] at hflush
  obtain ⟨st, hwalk, hannounces, hperm, hknown⟩ := walkRib_tallies hw
    (fun call hcall hid => hargs.fits hcall hid) henum (walkClock args w)
    dumpAggregatorMaxBytes (3 + (dumpPeers w args.orders).length) hflush
  obtain ⟨sent₁, hend₁, hview₁⟩ := @viewOf_endEnumerated w (enumerated args w).2
    ((enumerated args w).1.forward st.sent st.discovered) (dumpPeers w args.orders)
  obtain ⟨sent₂, known, hend₂, hview₂, hknown₂⟩ := @viewOf_endDiscovered w
    { (enumerated args w).1.forward st.sent st.discovered with sent := sent₁ } st.discovered
  -- only the messages of the walk have routes
  have hroutes : viewOf sent₂ = (carried (st.sent.map Prod.fst)).foldl View.announce .empty := by
    rw [hview₂, hview₁, Client.forward, viewOf_append, hview]
    refine foldl_receive_of_announces .empty fun msg hmsg => ?_
    obtain ⟨m, hm, rfl⟩ := mem_map.mp hmsg
    exact hannounces m hm
  have hiff : ∀ p, ReadAs id calls p (viewOf sent₂ h p) := by
    intro p a
    rw [hroutes, foldl_announce_eq_some_iff, mem_carried hperm]
    · constructor
      · rintro ⟨⟨call, hcall, hid, rfl⟩, rfl⟩
        exact ⟨call, hcall, hid, rfl, rfl⟩
      · rintro ⟨call, hcall, hid, rfl, rfl⟩
        exact ⟨⟨call, hcall, hid, rfl⟩, rfl⟩
    · intro b b' hb hb' hpfx
      obtain ⟨call, hcall, hid, rfl⟩ := (mem_carried hperm b).mp hb
      obtain ⟨call', hcall', hid', rfl⟩ := (mem_carried hperm b').mp hb'
      obtain ⟨v, hv⟩ := hread call.pfx
      have hb := (hv _).mpr ⟨call, hcall, hid, rfl, rfl⟩
      have hb' := (hv _).mpr ⟨call', hcall', hid', hpfx.symm, rfl⟩
      exact Option.some.inj (hb.symm.trans hb')
  refine ⟨{ (enumerated args w).1.forward st.sent st.discovered with
    sent := sent₂, knownPeers := known }, ?_, ⟨?_, ?_, ?_⟩, hiff⟩
  · rw [performInitialDump_eq, hargs.accepts]
    rw [show (⟨walkClock args w, fun _ => true⟩ : Sink) = .accepting (walkClock args w) from rfl,
      hwalk]
    dsimp only
    rw [hend₁, hend₂]
  · intro id' peer hpeer
    change (enumerated args w).1.peerInfoCache.get id' = some peer at hpeer
    rw [hcache] at hpeer
    cases hpeer
  · intro hsome
    change ((enumerated args w).1.peerInfoCache.get id).isSome at hsome
    rw [hcache] at hsome
    cases hsome
  · intro hid p
    refine Option.eq_none_iff_forall_ne_some.mpr fun a ha => ?_
    obtain ⟨call, hcall, hcid, _⟩ := (hiff p a).mp ha
    have hsome : (known.get id).isSome :=
      (hknown₂ id).mpr ((hknown call hcall hcid).imp_left henum.known)
    rw [Client.knows, hsome] at hid
    cases hid

end Dump

end Rotonda.BmpOut
