import Rotonda.BmpOut.Discipline
import Rotonda.RibUnit.Footprint

/-!
Whom a BMP client is told about.

The dump looks at the type of an entry before it announces it.  The handlers of updates do not:
they announce every ingress that an update brings.

* `Admits`: what the client knows, and what it was sent Peer Ups for, is admissible;
* `Client.admits_sendUpdate`: an update keeps that, if what it brings is admissible;
* `Start.admits`: a dump does, if the types that stand for peers are.
-/

namespace Rotonda.BmpOut

open Lib Lib.Bytes Lib.Runs Lib.Sessions List

/-- The ids that are known or were announced are admissible, and so are the headers of all Peer Ups
that were sent. -/
structure Admits (ok : IngressId → Prop) (okKey : Bytes → Prop) (c : Client) : Prop where
  known {id : IngressId} (h : c.knows id = true) : ok id
  peerUps {id : IngressId} (h : id ∈ c.peerUps) : ok id
  sent {msg : Bytes} (h : msg ∈ c.sent) {k : Bytes} (hk : eventOf msg = some (.opens k)) : okKey k

/-- The headers of admissible entries are admissible. -/
def Endorses (ok : IngressId → Prop) (okKey : Bytes → Prop) (w : World) : Prop :=
  ∀ n id info, (w.regs n).get id = some info → ok id → okKey (headerKey w.cfg info)

section Requests

variable {ok : IngressId → Prop} {okKey : Bytes → Prop} {c : Client} {w : World} {id : IngressId}

section

variable (h : Admits ok okKey c)
include h

theorem Admits.mono {ok' : IngressId → Prop} {okKey' : Bytes → Prop} (hok : ∀ id, ok id → ok' id)
    (hkey : ∀ k, okKey k → okKey' k) : Admits ok' okKey' c :=
  ⟨fun hid => hok _ (h.known hid), fun hid => hok _ (h.peerUps hid),
    fun hmsg _ hk => hkey _ (h.sent hmsg hk)⟩

/-- A message that is no Peer Up. -/
theorem Admits.send {build : Clock → Bytes}
    (hbuild : ∀ now k, eventOf (build now) ≠ some (.opens k)) :
    Admits ok okKey (c.send w build) := by
  refine ⟨h.known, h.peerUps, fun {msg} hmsg k hk => ?_⟩
  rcases mem_append.mp hmsg with hmsg | hmsg
  · exact h.sent hmsg hk
  · cases mem_singleton.mp hmsg
    exact absurd hk (hbuild _ k)

theorem Admits.addKnownPeer (hid : ok id) : Admits ok okKey (c.addKnownPeer id) := by
  refine ⟨fun {id'} hid' => ?_, h.peerUps, h.sent⟩
  rw [Client.knows, Client.addKnownPeer, Dict.get_insert] at hid'
  split at hid'
  next heq =>
    rw [heq]
    exact hid
  · exact h.known hid'

theorem Admits.cache (id : IngressId) (peer : PeerInfo) :
    Admits ok okKey { c with peerInfoCache := c.peerInfoCache.insert id peer } :=
  ⟨h.known, h.peerUps, h.sent⟩

theorem Admits.sendPeerUp (hid : ok id) {peer : PeerInfo} (hkey : okKey peer.key)
    (gracefulRestart : Bool) : Admits ok okKey (c.sendPeerUp w id peer gracefulRestart) := by
  refine ⟨h.known, fun {id'} hid' => ?_, fun {msg} hmsg k hk => ?_⟩
  · rcases mem_append.mp hid' with hid' | hid'
    · exact h.peerUps hid'
    · rw [mem_singleton.mp hid']
      exact hid
  · rcases mem_append.mp hmsg with hmsg | hmsg
    · exact h.sent hmsg hk
    · rw [mem_singleton.mp hmsg, eventOf_buildPeerUp] at hk
      cases hk
      exact hkey

theorem Admits.introduce (hw : Endorses ok okKey w) (n : Nat)
    (hid : ok id) : Admits ok okKey (c.introduce w n id) := by
  unfold Client.introduce
  split
  · exact h
  · dsimp only
    split
    next info hinfo =>
      refine (h.addKnownPeer hid).sendPeerUp hid ?_ false
      rw [key_buildPeerInfoForEmit]
      exact hw n id info hinfo hid
    · exact h.addKnownPeer hid

theorem Admits.sendRoute (peer : PeerInfo) (payload : Payload) :
    Admits ok okKey (c.sendRoute w peer payload) := by
  unfold Client.sendRoute
  dsimp only
  split
  next msg hmsg =>
    refine h.send fun _ k hk => ?_
    rw [eventOf_buildRouteMonitoring hmsg] at hk
    cases hk
  · exact h

theorem Admits.sendPayload (hw : Endorses ok okKey w) {payload : Payload}
    (hid : ok payload.ingressId) : Admits ok okKey (c.sendPayload w payload) := by
  unfold Client.sendPayload
  dsimp only
  split
  next peer _ => exact h.sendRoute peer payload
  · have hc := h.introduce hw 0 hid
    split
    · exact (hc.cache _ _).sendRoute _ payload
    · exact hc.sendRoute _ payload

theorem Admits.sendPeerStats (hw : Endorses ok okKey w) (hid : ok id)
    (body : Bytes) : Admits ok okKey (c.sendPeerStats w id body) := by
  unfold Client.sendPeerStats
  have hc := h.introduce hw 0 hid
  dsimp only
  split
  next info _ => exact hc.send fun now k hk => by rw [eventOf_buildStatisticsReport] at hk; cases hk
  · exact hc

theorem Admits.sendPeerDown (id : IngressId)
    (snapshot : Option IngressInfo) : Admits ok okKey (c.sendPeerDown w id snapshot) := by
  unfold Client.sendPeerDown
  split
  · have hc : Admits ok okKey (c.send w fun now => buildPeerDown now
        (buildPeerInfoForEmit w.cfg (w.regs 1) (snapshot.getD (((w.regs 0).get id).getD {})))) :=
      h.send fun now k hk => by rw [eventOf_buildPeerDown] at hk; cases hk
    refine ⟨fun {id'} hid' => hc.known ?_, hc.peerUps, hc.sent⟩
    rw [Client.knows, Client.removeKnownPeer, Dict.get_erase] at hid'
    split at hid'
    · cases hid'
    · exact hid'
  · exact h

theorem Admits.sendPeerReappeared (hw : Endorses ok okKey w)
    (hid : ((w.regs 0).get id).isSome → ok id) : Admits ok okKey (c.sendPeerReappeared w id) := by
  unfold Client.sendPeerReappeared
  split
  next info hinfo =>
    replace hid : ok id := hid (by rw [hinfo]; rfl)
    split
    · exact h
    · refine (h.addKnownPeer hid).sendPeerUp hid ?_ false
      rw [key_buildPeerInfoForEmit]
      exact hw 0 id info hinfo hid
  · exact h

end

/-- A reappearance that is found becomes known, whatever it is. -/
theorem Client.knows_sendPeerReappeared {info : IngressInfo} (h : (w.regs 0).get id = some info) :
    (c.sendPeerReappeared w id).knows id = true := by
  simp only [sendPeerReappeared, h]
  split
  next hknows => exact hknows
  · change ((c.knownPeers.insert id ()).get id).isSome = true
    rw [Dict.get_insert_self]
    rfl

/-- What a request brings is admissible; a reappearance brings something only if it is found. -/
def Request.Admissible (ok : IngressId → Prop) (w : World) : Request → Prop
  | .payload p => ok p.ingressId
  | .peerDown .. => True
  | .reappeared id => ((w.regs 0).get id).isSome → ok id
  | .peerStats id _ => ok id

theorem Client.admits_handle (h : Admits ok okKey c) (hw : Endorses ok okKey w) {r : Request}
    (hr : r.Admissible ok w) : Admits ok okKey (c.handle w r) := by
  cases r with
  | payload p => exact h.sendPayload hw hr
  | peerDown id snapshot => exact h.sendPeerDown id snapshot
  | reappeared id => exact h.sendPeerReappeared hw hr
  | peerStats id body => exact h.sendPeerStats hw hr body

theorem Client.admits_sendUpdate {worlds : Nat → World} {u : Update} (h : Admits ok okKey c)
    (hw : ∀ i, Endorses ok okKey (worlds i)) (hu : ∀ e ∈ requestsIn worlds u, e.2.Admissible ok e.1)
    : Admits ok okKey (c.sendUpdate worlds u) := by
  refine run_invariant Client.step (fun _ c => Admits ok okKey c) c (requestsIn worlds u) h
    (fun pre e hpre hc => ?_) _ (prefix_refl _)
  have hmem : e ∈ requestsIn worlds u := hpre.subset (mem_append_right pre (by simp))
  obtain ⟨⟨r, i⟩, _, rfl⟩ := mem_map.mp hmem
  exact admits_handle hc (hw i) (hu _ hmem)

end Requests

/-! ## The dump -/

section Dump

variable {ok : IngressId → Prop} {okKey : Bytes → Prop} {c : Client} {w : World}

/-- Every entry of a type that stands for peers is admissible. -/
def Recognizes (ok : IngressId → Prop) (w : World) : Prop :=
  ∀ n id info, (w.regs n).get id = some info → isPeerType info.ingressType = true → ok id

/-- None of the messages is a Peer Up of another header. -/
def Screened (okKey : Bytes → Prop) (sent : Sent) : Prop :=
  ∀ msg ∈ sent, ∀ k, eventOf msg.1 = some (.opens k) → okKey k

theorem Screened.extends {peers : Dict IngressId PeerInfo} {sent sent' : Sent}
    (h : Screened okKey sent) (hext : Extends peers sent sent') : Screened okKey sent' := by
  obtain ⟨new, rfl, hnew⟩ := hext
  intro msg hmsg k hk
  rcases mem_append.mp hmsg with hmsg | hmsg
  · exact h msg hmsg k hk
  · obtain ⟨_, _, _, huse⟩ := hnew msg hmsg
    cases huse.symm.trans hk

/-- What the walk has found and handed over is admissible. -/
structure Walk.Fit (ok : IngressId → Prop) (okKey : Bytes → Prop) (st : Walk) : Prop where
  discovered {e : IngressId × PeerInfo} (h : e ∈ st.discovered) : ok e.1
  sent : Screened okKey st.sent

/-- A walk that ends well, or one that was cut off. -/
def FitWalk (ok : IngressId → Prop) (okKey : Bytes → Prop) : Except Sent Walk → Prop
  | .ok st => st.Fit ok okKey
  | .error sent => Screened okKey sent

theorem FitWalk.bind {x : Except Sent Walk} {f : Walk → Except Sent Walk} (h : FitWalk ok okKey x)
    (hf : ∀ st, st.Fit ok okKey → FitWalk ok okKey (f st)) : FitWalk ok okKey (x >>= f) := by
  cases x with
  | error sent => exact h
  | ok st => exact hf st h

theorem Walk.Fit.monitors {st : Walk} (h : st.Fit ok okKey)
    {x : Except Sent (RouteAggregator × Sent)}
    (hx : RouteAggregator.MonitorsAll st.agg.peerInfo st.sent x) :
    FitWalk ok okKey (x.map fun r => { st with agg := r.1, sent := r.2 }) := by
  cases x with
  | error sent => exact h.sent.extends hx
  | ok r => exact ⟨h.discovered, h.sent.extends hx.2⟩

theorem Walk.Fit.record {st : Walk} (h : st.Fit ok okKey) (hw : Endorses ok okKey w)
    (hpeers : Recognizes ok w) (hash : Bytes → UInt64) (sink : Sink) (call : AddCall) :
    FitWalk ok okKey (st.record hash sink w call) := by
  have hadd {st : Walk} (h : st.Fit ok okKey) : FitWalk ok okKey (st.add hash sink call) :=
    h.monitors (RouteAggregator.add_monitors hash sink st.agg call st.sent)
  unfold Walk.record
  split
  · exact hadd h
  · split
    next info hinfo =>
      obtain ⟨hinfo, htype⟩ := Option.filter_eq_some_iff.mp hinfo
      have hid := hpeers st.reads call.ingressId info hinfo htype
      have hsent (now : Clock) (reg : Register) : Screened okKey
          (st.sent ++ [(buildPeerUp now (buildPeerInfoForEmit w.cfg reg info) false, 0)]) := by
        intro msg hmsg k hk
        rcases mem_append.mp hmsg with hmsg | hmsg
        · exact h.sent msg hmsg k hk
        · rw [mem_singleton.mp hmsg, eventOf_buildPeerUp, key_buildPeerInfoForEmit] at hk
          cases hk
          exact hw st.reads call.ingressId info hinfo hid
      unfold Sink.push
      dsimp only
      split
      · refine hadd ⟨fun he => ?_, hsent _ _⟩
        rcases mem_append.mp he with he | he
        · exact h.discovered he
        · rw [mem_singleton.mp he]
          exact hid
      · exact hsent _ _
    · exact ⟨h.discovered, h.sent⟩

theorem fitWalk_walkRib (hw : Endorses ok okKey w) (hpeers : Recognizes ok w) (args : DumpArgs)
    (sink : Sink) (maxBytes n : Nat) (infos : Dict IngressId PeerInfo) (calls : List AddCall) :
    FitWalk ok okKey (walkRib args sink w maxBytes n infos calls) := by
  have hrecords {st : Walk} (h : st.Fit ok okKey) :
      FitWalk ok okKey (Walk.records args.hash sink w calls st) := by
    induction calls generalizing st with
    | nil => exact h
    | cons call calls ih => exact (h.record hw hpeers args.hash sink call).bind fun st' hst' => ih hst'
  have hnew : Walk.Fit ok okKey ⟨.new maxBytes infos, [], [], n⟩ := ⟨nofun, nofun⟩
  refine (hrecords hnew).bind fun st hst => ?_
  have hflush := hst.monitors (RouteAggregator.flushAll_monitors sink st.agg args.flushOrder st.sent)
  cases hx : st.agg.flushAll sink args.flushOrder st.sent with
  | error _ | ok _ =>
    rw [hx] at hflush
    exact hflush

theorem admits_dumpPeerUps (hw : Endorses ok okKey w) (n : Nat)
    {peers : List (IngressId × IngressInfo)} (infos : Dict IngressId PeerInfo)
    (h : Admits ok okKey c) (hpeers : ∀ e ∈ peers, ok e.1 ∧ ∃ m, (w.regs m).get e.1 = some e.2) :
    Admits ok okKey (dumpPeerUps w n peers c infos).1 := by
  induction peers generalizing n c infos with
  | nil => exact h
  | cons e peers ih =>
    obtain ⟨hid, m, hm⟩ := hpeers e mem_cons_self
    refine ih (n + 1) _ ((h.sendPeerUp hid ?_ true).addKnownPeer hid)
      fun e he => hpeers e (mem_cons_of_mem _ he)
    rw [key_buildPeerInfoForEmit]
    exact hw m e.1 e.2 hm hid

theorem Admits.sendEndOfRib (h : Admits ok okKey c) (peer : PeerInfo) :
    Admits ok okKey (c.sendEndOfRib w peer) := by
  refine (h.send fun now k hk => ?_).send fun now k hk => ?_
  · rw [eventOf_buildEorIpv4] at hk
    cases hk
  · rw [eventOf_buildEorMpUnreach] at hk
    cases hk

theorem Admits.forward (h : Admits ok okKey c) {sent : Sent} (hsent : Screened okKey sent)
    {discovered : List (IngressId × PeerInfo)} (hdiscovered : ∀ e ∈ discovered, ok e.1) :
    Admits ok okKey (c.forward sent discovered) := by
  refine ⟨h.known, fun {id} hid => ?_, fun {msg} hmsg k hk => ?_⟩
  · rcases mem_append.mp hid with hid | hid
    · exact h.peerUps hid
    · obtain ⟨e, he, rfl⟩ := mem_map.mp hid
      exact hdiscovered e he
  · rcases mem_append.mp hmsg with hmsg | hmsg
    · exact h.sent hmsg hk
    · obtain ⟨m, hm, rfl⟩ := mem_map.mp hmsg
      exact hsent m hm k hk

theorem admits_initiation (w : World) (sysName sysDescr : String) :
    Admits ok okKey (Client.new.send w fun _ => buildInitiationMessage sysName sysDescr) := by
  have hnew : Admits ok okKey Client.new :=
    ⟨fun h => (by cases h), fun h => (by cases h), fun h => (by cases h)⟩
  refine hnew.send fun _ k hk => ?_
  rw [eventOf_buildInitiationMessage] at hk
  cases hk

theorem Client.admits_performInitialDump (hw : Endorses ok okKey w) (hpeers : Recognizes ok w)
    (args : DumpArgs) (calls : List AddCall) :
    Admits ok okKey (Client.new.performInitialDump args w calls).1 := by
  have hread : ∀ e ∈ dumpPeers w args.orders, ok e.1 ∧ ∃ m, (w.regs m).get e.1 = some e.2 := by
    intro e he
    obtain ⟨m, hm, htype⟩ := mem_dumpPeers he
    exact ⟨hpeers m e.1 e.2 hm htype, m, hm⟩
  have hc := admits_dumpPeerUps hw 3 .empty (admits_initiation w args.sysName args.sysDescr) hread
  unfold Client.performInitialDump
  dsimp only
  generalize dumpPeerUps w 3 (dumpPeers w args.orders) _ .empty = r at *
  obtain ⟨c, infos⟩ := r
  have hwalk := fitWalk_walkRib hw hpeers args ⟨fun i => w.clock (c.sent.length + i), args.accepts⟩
    dumpAggregatorMaxBytes (3 + (dumpPeers w args.orders).length) infos calls
  dsimp only at *
  split
  next sent hsent =>
    rw [hsent] at hwalk
    exact hc.forward hwalk nofun
  next st hst =>
    rw [hst] at hwalk
    have hend : Admits ok okKey ((dumpPeers w args.orders).foldl (endEnumerated w infos)
        (c.forward st.sent st.discovered)) := by
      refine List.foldlRecOn _ _ (hc.forward hwalk.sent fun _ => hwalk.discovered) fun c hc e _ => ?_
      unfold endEnumerated
      split
      next peer _ => exact hc.sendEndOfRib peer
      · exact hc
    exact List.foldlRecOn _ _ hend fun c hc e he =>
      (hc.addKnownPeer (hwalk.discovered he)).sendEndOfRib e.2

def Start.world : Start → World
  | .noRib w _ _ | .dump w _ _ => w

theorem Start.admits {start : Start} (hw : Endorses ok okKey start.world)
    (hpeers : Recognizes ok start.world) : Admits ok okKey start.client.1 := by
  cases start with
  | noRib w sysName sysDescr => exact admits_initiation w sysName sysDescr
  | dump w args calls => exact Client.admits_performInitialDump hw hpeers args calls

end Dump

end Rotonda.BmpOut
