import Rotonda.BmpOut.Client
import Rotonda.Lib.Sessions

/-!
The session discipline of the stream that a BMP client is sent: a Peer Up opens the session of its
per-peer header, Route Monitoring and Statistics use it, a Peer Down closes it.

* `RouteAggregator.add_monitors`, `RouteAggregator.flushAll_monitors`: what the aggregator sends is
  about peers it was given;
* `Coherent`: what the client knows and has cached agrees with the sessions that are open;
* `Client.coherent_performInitialDump`, `Client.coherent_handle`: a dump and a request keep it, if
  the register entries that they read are there and have kept their header;
* `Client.disciplined_of_steady`: the discipline of whole runs.
-/

namespace Rotonda.BmpOut

open Lib Lib.Bytes Lib.Runs Lib.Sessions Option Dict

variable {msg : Bytes} {build : Clock → Bytes} {n : Nat}

/-! ## Events -/

/-- The part of the per-peer header that identifies the peer. -/
def keyOf (msg : Bytes) : Bytes := (msg.drop bmpCommonHeaderLen).take 34

/-- What a message does to the session of its peer; an Initiation message has no peer. -/
def eventOf (msg : Bytes) : Option (Event Bytes) :=
  msg[5]?.bind fun code =>
    if code = MsgType.peerUp.code then some (.opens (keyOf msg))
    else if code = MsgType.peerDown.code then some (.closes (keyOf msg))
    else if code = MsgType.routeMonitoring.code ∨ code = MsgType.statisticsReport.code then
      some (.uses (keyOf msg))
    else none

def events (msgs : List Bytes) : List (Event Bytes) := msgs.filterMap eventOf

theorem keyOf_messageOf (t : MsgType) (now : Clock) (peer : PeerInfo) (bodyLen : Nat) (body : Bytes) :
    keyOf (messageOf t now peer bodyLen body) = peer.key := by
  have hlen : (writeCommonHeader t (bmpCommonHeaderLen + bmpPerPeerHeaderLen + bodyLen)).length =
      bmpCommonHeaderLen := by
    simp [writeCommonHeader, bmpCommonHeaderLen]
  rw [keyOf, messageOf, List.append_assoc, List.drop_left' hlen, writePerPeerHeader]
  simp only [List.append_assoc]
  exact List.take_left' peer.length_key

theorem eventOf_messageOf (t : MsgType) (now : Clock) (peer : PeerInfo) (bodyLen : Nat)
    (body : Bytes) : eventOf (messageOf t now peer bodyLen body) =
      match t with
      | .peerUp => some (.opens peer.key)
      | .peerDown => some (.closes peer.key)
      | .routeMonitoring | .statisticsReport => some (.uses peer.key)
      | .initiation | .termination => none := by
  have hcode : (messageOf t now peer bodyLen body)[5]? = some t.code := rfl
  rw [eventOf, hcode, bind_some, keyOf_messageOf]
  cases t <;> rfl

section

variable (now : Clock) (peer : PeerInfo)

@[simp] theorem eventOf_buildPeerUp (gr : Bool) :
    eventOf (buildPeerUp now peer gr) = some (.opens peer.key) :=
  eventOf_messageOf ..

@[simp] theorem eventOf_buildPeerDown :
    eventOf (buildPeerDown now peer) = some (.closes peer.key) :=
  eventOf_messageOf ..

@[simp] theorem eventOf_buildStatisticsReport (body : Bytes) :
    eventOf (buildStatisticsReport now peer body) = some (.uses peer.key) :=
  eventOf_messageOf ..

@[simp] theorem eventOf_buildEorIpv4 :
    eventOf (buildEorIpv4 now peer) = some (.uses peer.key) :=
  eventOf_messageOf ..

@[simp] theorem eventOf_buildEorMpUnreach (a : AfiSafiType) :
    eventOf (buildEorMpUnreach now peer a) = some (.uses peer.key) :=
  eventOf_messageOf ..

end

@[simp] theorem eventOf_buildInitiationMessage (sysName sysDescr : String) :
    eventOf (buildInitiationMessage sysName sysDescr) = none := by
  have hcode : (buildInitiationMessage sysName sysDescr)[5]? = some MsgType.initiation.code := rfl
  rw [eventOf, hcode]
  rfl

theorem eventOf_buildAggregatedRouteMonitoring (now : Clock) (peer : PeerInfo)
    (prefixes : List Prefix) (paBytes : Bytes) (nextHop : Option Bytes) (isV4 : Bool) :
    eventOf (buildAggregatedRouteMonitoring now peer prefixes paBytes nextHop isV4) =
      some (.uses peer.key) :=
  eventOf_messageOf ..

variable {peer : PeerInfo}

theorem eventOf_buildRouteMonitoring {now : Clock} {p : Prefix} {pamap : RotondaPaMap}
    {isWithdrawal : Bool} (h : buildRouteMonitoring now peer p pamap isWithdrawal = some msg) :
    eventOf msg = some (.uses peer.key) := by
  obtain ⟨update, _, rfl⟩ := map_eq_some_iff.mp h
  exact eventOf_messageOf ..

@[simp] theorem events_append (msgs msgs' : List Bytes) :
    events (msgs ++ msgs') = events msgs ++ events msgs' :=
  List.filterMap_append

theorem events_snoc {e : Event Bytes} (msgs : List Bytes)
    (h : eventOf msg = some e) : events (msgs ++ [msg]) = events msgs ++ [e] := by
  rw [events_append]
  simp [events, h]

/-! ## The aggregator -/

variable {id : IngressId}

section Monitors

variable {peers : Dict IngressId PeerInfo} {sink : Sink} {agg : RouteAggregator} {sent : Sent}
  {peer : PeerInfo} {α β : Type}

/-- What was handed over since then is about routes of these peers. -/
def Extends (peers : Dict IngressId PeerInfo) (sent sent' : Sent) : Prop :=
  ∃ new, sent' = sent ++ new ∧
    ∀ msg ∈ new, ∃ id peer, peers.get id = some peer ∧ eventOf msg.1 = some (.uses peer.key)

theorem Extends.refl (peers : Dict IngressId PeerInfo) (sent : Sent) : Extends peers sent sent :=
  ⟨[], by simp, by simp⟩

theorem Extends.trans {sent₁ sent₂ sent₃ : Sent} (h : Extends peers sent₁ sent₂)
    (h' : Extends peers sent₂ sent₃) : Extends peers sent₁ sent₃ := by
  obtain ⟨new, rfl, hnew⟩ := h
  obtain ⟨new', rfl, hnew'⟩ := h'
  refine ⟨new ++ new', by simp, fun msg hmsg => ?_⟩
  rcases List.mem_append.mp hmsg with hmsg | hmsg
  · exact hnew msg hmsg
  · exact hnew' msg hmsg

/-- A computation that hands over messages about these peers, also if the consumer goes away, and
ends in a result with a property. -/
def Monitors (peers : Dict IngressId PeerInfo) (sent : Sent) (sentOf : α → Sent) (post : α → Prop) :
    Except Sent α → Prop
  | .ok r => post r ∧ Extends peers sent (sentOf r)
  | .error sent' => Extends peers sent sent'

theorem Monitors.bind {sentOf : α → Sent} {post : α → Prop} {sentOf' : β → Sent} {post' : β → Prop}
    {x : Except Sent α} {f : α → Except Sent β} (h : Monitors peers sent sentOf post x)
    (hf : ∀ r, post r → Monitors peers (sentOf r) sentOf' post' (f r)) :
    Monitors peers sent sentOf' post' (x >>= f) := by
  cases x with
  | error sent' => exact h
  | ok r =>
    obtain ⟨hpost, hext⟩ := h
    have hrest := hf r hpost
    change Monitors peers sent sentOf' post' (f r)
    cases hfr : f r with
    | error sent' =>
      rw [hfr] at hrest
      exact hext.trans hrest
    | ok r' =>
      rw [hfr] at hrest
      exact ⟨hrest.1, hext.trans hrest.2⟩

theorem monitors_push (hpeer : peers.get id = some peer)
    (hbuild : ∀ now, eventOf (build now) = some (.uses peer.key)) (count : Nat) :
    Monitors peers sent (fun s => s) (fun _ => True) (sink.push sent build count) := by
  have hext : Extends peers sent (sent ++ [(build (sink.clock sent.length), count)]) :=
    ⟨_, rfl, by simpa using ⟨id, peer, hpeer, hbuild _⟩⟩
  unfold Sink.push
  dsimp only
  split
  · exact ⟨trivial, hext⟩
  · exact hext

theorem AggGroup.emit_monitors (g : AggGroup) (hpeer : peers.get id = some peer) :
    Monitors peers sent (fun s => s) (fun _ => True) (g.emit sink peer sent) := by
  unfold emit
  split
  · exact ⟨trivial, .refl ..⟩
  · exact monitors_push hpeer (fun now => eventOf_buildAggregatedRouteMonitoring ..) _

namespace RouteAggregator

/-- The result is an aggregator with these peers and what was handed over. -/
def MonitorsAll (peers : Dict IngressId PeerInfo) (sent : Sent) :
    Except Sent (RouteAggregator × Sent) → Prop :=
  Monitors peers sent Prod.snd fun r => r.1.peerInfo = peers

theorem monitorsAll_ok (h : agg.peerInfo = peers) (sent : Sent) :
    MonitorsAll peers sent (.ok (agg, sent)) :=
  ⟨h, .refl ..⟩

theorem takeGroup_monitors {key : AggKey} (hpeer : agg.peerInfo.get key.ingressId = some peer)
    (pamap : RotondaPaMap) :
    Monitors agg.peerInfo sent (fun r => r.2.2) (fun r => r.1.peerInfo = agg.peerInfo)
      (agg.takeGroup sink key peer pamap sent) := by
  unfold takeGroup
  split
  next g hg =>
    dsimp only
    split
    · exact ⟨rfl, .refl ..⟩
    · exact (g.emit_monitors hpeer).bind fun sent' _ => ⟨rfl, .refl ..⟩
  · exact ⟨rfl, .refl ..⟩

theorem flushFull_monitors (group : AggGroup) (hpeer : peers.get id = some peer) (nlriLen : Nat) :
    Monitors peers sent Prod.snd (fun _ => True) (flushFull sink group peer nlriLen sent) := by
  unfold flushFull
  split
  · exact (group.emit_monitors hpeer).bind fun sent' _ => ⟨trivial, .refl ..⟩
  · exact ⟨trivial, .refl ..⟩

theorem emitSingle_monitors (hpeer : peers.get id = some peer) (p : Prefix) (pamap : RotondaPaMap) :
    Monitors peers sent (fun s => s) (fun _ => True) (emitSingle sink peer p pamap sent) := by
  unfold emitSingle
  split
  next msg hmsg => exact monitors_push hpeer (fun _ => eventOf_buildRouteMonitoring hmsg) _
  · exact ⟨trivial, .refl ..⟩

theorem evictLoop_monitors (h : agg.peerInfo = peers) (target : Nat) (ks : List AggKey) :
    MonitorsAll peers sent (evictLoop sink target ks agg sent) := by
  induction ks generalizing agg sent with
  | nil => exact monitorsAll_ok h sent
  | cons k ks ih =>
    unfold evictLoop
    split
    · exact monitorsAll_ok h sent
    · split
      · exact ih h
      next g _ =>
        have hevict (sent' : Sent) : MonitorsAll peers sent'
            (evictLoop sink target ks (agg.evict k g) sent') := ih h
        dsimp only
        split
        next peer hpeer => exact (g.emit_monitors (h ▸ hpeer)).bind fun sent' _ => hevict sent'
        · exact hevict sent

theorem place_monitors {key : AggKey} (group : AggGroup) (call : AddCall)
    (h : agg.peerInfo = peers) (hpeer : peers.get id = some peer) :
    MonitorsAll peers sent (agg.place sink key group peer call sent) := by
  unfold place
  split
  · have hsingle : Monitors peers sent (fun s => s) (fun _ => True)
        (emitSingle sink peer call.pfx call.pamap sent) := emitSingle_monitors hpeer ..
    cases hres : emitSingle sink peer call.pfx call.pamap sent with
    | error sent' =>
      rw [hres] at hsingle
      exact hsingle
    | ok sent' =>
      rw [hres] at hsingle
      exact ⟨h, hsingle.2⟩
  · dsimp only
    split
    · exact evictLoop_monitors (show (agg.store key group call.pfx).peerInfo = peers from h) _ _
    · exact monitorsAll_ok h sent

/-- A call of `add` sends messages about the peers of the aggregator only. -/
theorem add_monitors (hash : Bytes → UInt64) (sink : Sink) (agg : RouteAggregator) (call : AddCall)
    (sent : Sent) : MonitorsAll agg.peerInfo sent (agg.add hash sink call sent) := by
  unfold add
  split
  · exact monitorsAll_ok rfl sent
  next peer hpeer =>
    refine (takeGroup_monitors hpeer call.pamap).bind fun ⟨agg₁, g₁, sent₁⟩ h₁ => ?_
    refine (flushFull_monitors g₁ hpeer _).bind fun ⟨g₂, sent₂⟩ _ => ?_
    exact place_monitors g₂ call h₁ hpeer

theorem flushLoop_monitors (agg : RouteAggregator) (ks : List AggKey) (sent : Sent) :
    Monitors agg.peerInfo sent (fun s => s) (fun _ => True) (flushLoop sink agg ks sent) := by
  induction ks generalizing sent with
  | nil => exact ⟨trivial, .refl ..⟩
  | cons k ks ih =>
    unfold flushLoop
    split
    next g peer _ hpeer => exact (g.emit_monitors hpeer).bind fun sent' _ => ih sent'
    · exact ih sent

theorem flushAll_monitors (sink : Sink) (agg : RouteAggregator) (order : List AggKey)
    (sent : Sent) : MonitorsAll agg.peerInfo sent (agg.flushAll sink order sent) :=
  (flushLoop_monitors agg order sent).bind fun _ _ => ⟨rfl, .refl ..⟩

end RouteAggregator

end Monitors

/-! ## Sessions of peers -/

section Tracks

variable {msgs : List Bytes} {announced : Dict IngressId Bytes} {id : IngressId} {k : Bytes}

/-- No peer is announced under this header. -/
def Fresh (announced : Dict IngressId Bytes) (k : Bytes) : Prop :=
  ∀ id, announced.get id ≠ some k

/-- The stream is disciplined, and its open sessions are those of the announced peers, one each. -/
structure Tracks (msgs : List Bytes) (announced : Dict IngressId Bytes) : Prop where
  isOpen : ∀ k, isOpen (events msgs) k = true ↔ ∃ id, announced.get id = some k
  injective : ∀ id id' k, announced.get id = some k → announced.get id' = some k → id = id'
  disciplined : Disciplined (events msgs)

theorem tracks_initiation (sysName sysDescr : String) :
    Tracks [buildInitiationMessage sysName sysDescr] .empty := by
  have hnone : events [buildInitiationMessage sysName sysDescr] = [] := by simp [events]
  refine ⟨?_, ?_, ?_⟩
  · simp [hnone]
  · simp
  · rw [hnone]
    exact disciplined_nil

section

variable (h : Tracks msgs announced)
include h

theorem Tracks.append_uses {new : List Bytes}
    (hnew : ∀ msg ∈ new, ∃ id k, announced.get id = some k ∧ eventOf msg = some (.uses k)) :
    Tracks (msgs ++ new) announced := by
  have hevents : ∀ e ∈ events new, ∃ k, e = .uses k ∧ Lib.Sessions.isOpen (events msgs) k = true := by
    intro e he
    obtain ⟨msg, hmsg, heq⟩ := List.mem_filterMap.mp he
    obtain ⟨id, k, hk, huse⟩ := hnew msg hmsg
    exact ⟨k, Option.some.inj (heq.symm.trans huse), (h.isOpen k).mpr ⟨id, hk⟩⟩
  obtain ⟨hdisc, hsame⟩ := h.disciplined.append_uses hevents
  rw [← events_append] at hdisc hsame
  exact ⟨fun k => by rw [hsame]; exact h.isOpen k, h.injective, hdisc⟩

theorem Tracks.use (hk : announced.get id = some k)
    (hmsg : eventOf msg = some (.uses k)) : Tracks (msgs ++ [msg]) announced :=
  h.append_uses fun msg' hmsg' => by
    cases List.mem_singleton.mp hmsg'
    exact ⟨id, k, hk, hmsg⟩

theorem Tracks.opens (hid : announced.get id = none) (hk : Fresh announced k)
    (hmsg : eventOf msg = some (.opens k)) : Tracks (msgs ++ [msg]) (announced.insert id k) := by
  have hclosed : Lib.Sessions.isOpen (events msgs) k = false := by
    rw [Bool.eq_false_iff]
    intro hopen
    obtain ⟨id', hid'⟩ := (h.isOpen k).mp hopen
    exact hk id' hid'
  refine ⟨fun k' => ?_, fun id₁ id₂ k' h₁ h₂ => ?_, ?_⟩
  · rw [events_snoc msgs hmsg, isOpen_snoc, after, Bool.or_eq_true, h.isOpen, decide_eq_true_iff]
    constructor
    · rintro (rfl | ⟨id', hid'⟩)
      · exact ⟨id, get_insert_self ..⟩
      · refine ⟨id', (get_insert_of_ne _ ?_).trans hid'⟩
        rintro rfl
        rw [hid] at hid'
        cases hid'
    · rintro ⟨id', hid'⟩
      rcases of_get_insert hid' with ⟨_, rfl⟩ | ⟨_, hid'⟩
      · exact .inl rfl
      · exact .inr ⟨id', hid'⟩
  · rcases of_get_insert h₁ with ⟨rfl, hk₁⟩ | ⟨_, hold₁⟩ <;>
      rcases of_get_insert h₂ with ⟨rfl, hk₂⟩ | ⟨_, hold₂⟩
    · rfl
    · exact absurd (hk₁ ▸ hold₂) (hk id₂)
    · exact absurd (hk₂ ▸ hold₁) (hk id₁)
    · exact h.injective id₁ id₂ k' hold₁ hold₂
  · rw [events_snoc msgs hmsg]
    exact disciplined_snoc.mpr ⟨h.disciplined, hclosed⟩

theorem Tracks.closes (hid : announced.get id = some k)
    (hmsg : eventOf msg = some (.closes k)) : Tracks (msgs ++ [msg]) (announced.erase id) := by
  refine ⟨fun k' => ?_, fun id₁ id₂ k' h₁ h₂ => ?_, ?_⟩
  · rw [events_snoc msgs hmsg, isOpen_snoc, after, Bool.and_eq_true, h.isOpen, decide_eq_true_iff]
    constructor
    · rintro ⟨hne, id', hid'⟩
      refine ⟨id', (get_erase_of_ne ?_).trans hid'⟩
      rintro rfl
      rw [hid] at hid'
      exact hne (Option.some.inj hid').symm
    · rintro ⟨id', hid'⟩
      obtain ⟨hne, hid'⟩ := of_get_erase hid'
      refine ⟨?_, id', hid'⟩
      rintro rfl
      exact hne (h.injective id' id k' hid' hid)
  · exact h.injective id₁ id₂ k' (of_get_erase h₁).2 (of_get_erase h₂).2
  · rw [events_snoc msgs hmsg]
    exact disciplined_snoc.mpr ⟨h.disciplined, (h.isOpen k).mpr ⟨id, hid⟩⟩

end

end Tracks

/-! ## Requests -/

/-- The header of the entry that a read of the register finds. -/
def World.keyAt (w : World) (n : Nat) (id : IngressId) : Option Bytes :=
  ((w.regs n).get id).map (headerKey w.cfg)

/-- The peers that the client knows are the announced ones, and cached headers are those of the
Peer Ups. -/
structure Coherent (c : Client) : Prop where
  tracks : Tracks c.sent c.announced
  known : ∀ id, c.knows id = true ↔ (c.announced.get id).isSome
  cached : ∀ id peer, c.peerInfoCache.get id = some peer → c.announced.get id = some peer.key

/-- The header that is built for a message is that of the peer's Peer Up, or the peer is new, its
Peer Up is sent first and no other peer has its header. -/
def Identified (w : World) (c : Client) (id : IngressId) : Prop :=
  ∃ k, w.keyAt 2 id = some k ∧
    if c.knows id then c.announced.get id = some k
    else w.keyAt 0 id = some k ∧ Fresh c.announced k

/-- The register entries that a request reads are there and have kept their headers. -/
def Steady (w : World) (c : Client) : Request → Prop
  | .payload p => (c.peerInfoCache.get p.ingressId).isSome ∨ Identified w c p.ingressId
  | .peerStats id _ => (c.knows id = true ∧ w.keyAt 2 id = none) ∨ Identified w c id
  | .reappeared id => c.knows id = true ∨ ∀ k, w.keyAt 0 id = some k → Fresh c.announced k
  | .peerDown id snapshot => c.knows id = true →
    c.announced.get id = some (headerKey w.cfg (snapshot.getD (((w.regs 0).get id).getD {})))

section Requests

variable {w : World} {c : Client} {id : IngressId} {k : Bytes}

section

variable (h : Coherent c)
include h

theorem Coherent.announced_eq_none (hid : c.knows id = false) : c.announced.get id = none := by
  have := (h.known id).not.mp (by simp [hid])
  simpa using this

theorem Coherent.use (hk : c.announced.get id = some k)
    (hbuild : ∀ now, eventOf (build now) = some (.uses k)) : Coherent (c.send w build) :=
  ⟨h.tracks.use hk (hbuild _), h.known, h.cached⟩

theorem Coherent.sendPeerUp (hid : c.knows id = false) (hk : Fresh c.announced peer.key) (gr : Bool)
    : Coherent ((c.addKnownPeer id).sendPeerUp w id peer gr) := by
  have hnone := h.announced_eq_none hid
  refine ⟨h.tracks.opens hnone hk (eventOf_buildPeerUp ..), fun id' => ?_, fun id' peer' hcache => ?_⟩
  · have := h.known id'
    simp only [Client.knows, Client.sendPeerUp, Client.addKnownPeer, Client.send,
      get_insert] at this ⊢
    by_cases heq : id' = id <;> simp [heq, this]
  · have hold := h.cached id' peer' hcache
    refine (get_insert_of_ne _ ?_).trans hold
    rintro rfl
    rw [hnone] at hold
    cases hold

theorem Coherent.cache (hk : c.announced.get id = some peer.key) :
    Coherent { c with peerInfoCache := c.peerInfoCache.insert id peer } := by
  refine ⟨h.tracks, h.known, fun id' peer' hcache => ?_⟩
  rcases of_get_insert hcache with ⟨rfl, rfl⟩ | ⟨_, hcache⟩
  · exact hk
  · exact h.cached id' peer' hcache

theorem Coherent.sendPeerDown (hk : c.announced.get id = some peer.key) :
    Coherent ((c.send w fun now => buildPeerDown now peer).removeKnownPeer id) := by
  refine ⟨h.tracks.closes hk (eventOf_buildPeerDown ..), fun id' => ?_, fun id' peer' hcache => ?_⟩
  · have := h.known id'
    simp only [Client.knows, Client.removeKnownPeer, Client.send, get_erase] at this ⊢
    by_cases heq : id' = id <;> simp [heq, this]
  · simp only [Client.removeKnownPeer, Client.send, get_erase] at hcache ⊢
    split at hcache
    · cases hcache
    next hne => rw [if_neg hne]; exact h.cached id' peer' hcache

/-- After the lazy Peer Up the peer is announced under the header that is used next. -/
theorem Coherent.introduce (hk : if c.knows id then c.announced.get id = some k
      else w.keyAt 0 id = some k ∧ Fresh c.announced k) :
    Coherent (c.introduce w 0 id) ∧ (c.introduce w 0 id).announced.get id = some k := by
  unfold Client.introduce
  cases hknows : c.knows id with
  | true =>
    rw [hknows, if_pos rfl] at hk
    exact ⟨h, hk⟩
  | false =>
    rw [hknows, if_neg (by simp)] at hk
    obtain ⟨hread, hfresh⟩ := hk
    obtain ⟨info, hinfo, rfl⟩ := map_eq_some_iff.mp hread
    simp only [Bool.false_eq_true, if_false, hinfo]
    refine ⟨h.sendPeerUp hknows (by simpa using hfresh) false, ?_⟩
    simp [Client.sendPeerUp]

theorem Coherent.sendRoute (hk : c.announced.get id = some peer.key)
    (payload : Payload) : Coherent (c.sendRoute w peer payload) := by
  unfold Client.sendRoute
  dsimp only
  split
  next msg hmsg => exact h.use hk fun _ => eventOf_buildRouteMonitoring hmsg
  · exact h

theorem Coherent.sendPayload {payload : Payload}
    (hsteady : (c.peerInfoCache.get payload.ingressId).isSome ∨ Identified w c payload.ingressId) :
    Coherent (c.sendPayload w payload) := by
  unfold Client.sendPayload
  dsimp only
  split
  next peer hcache => exact h.sendRoute (h.cached _ _ hcache) payload
  next hcache =>
    obtain ⟨k, hread, hk⟩ := hsteady.resolve_left (by simp [hcache])
    obtain ⟨info, hinfo, rfl⟩ := map_eq_some_iff.mp hread
    obtain ⟨hcoh, hann⟩ := h.introduce hk
    have hkey : (c.introduce w 0 payload.ingressId).announced.get payload.ingressId =
        some (buildPeerInfoForEmit w.cfg (w.regs 3) info).key := by
      rw [key_buildPeerInfoForEmit]
      exact hann
    simp only [hinfo, getD_some]
    split
    · exact (hcoh.cache hkey).sendRoute hkey payload
    · exact hcoh.sendRoute hkey payload

theorem Coherent.sendPeerStats {body : Bytes}
    (hsteady : (c.knows id = true ∧ w.keyAt 2 id = none) ∨ Identified w c id) :
    Coherent (c.sendPeerStats w id body) := by
  unfold Client.sendPeerStats
  rcases hsteady with ⟨hknows, hnone⟩ | ⟨k, hread, hk⟩
  · rw [map_eq_none_iff.mp hnone, Client.introduce, if_pos hknows]
    exact h
  · obtain ⟨info, hinfo, rfl⟩ := map_eq_some_iff.mp hread
    obtain ⟨hcoh, hann⟩ := h.introduce hk
    simp only [hinfo]
    exact hcoh.use hann fun now => by simp

/-- A request keeps the client coherent if the register is steady. -/
theorem Client.coherent_handle {r : Request} (hsteady : Steady w c r) :
    Coherent (c.handle w r) := by
  cases r with
  | payload p => exact h.sendPayload hsteady
  | peerStats id body => exact h.sendPeerStats hsteady
  | reappeared id =>
    simp only [Client.handle, Client.sendPeerReappeared]
    split
    next info hinfo =>
      cases hknows : c.knows id with
      | true => exact h
      | false =>
        have hfresh := hsteady.resolve_left (by simp [hknows]) (headerKey w.cfg info)
          (by simp [World.keyAt, hinfo])
        exact h.sendPeerUp hknows (by simpa using hfresh) false
    · exact h
  | peerDown id snapshot =>
    simp only [Client.handle, Client.sendPeerDown]
    split
    next hknows => exact h.sendPeerDown (by rw [key_buildPeerInfoForEmit]; exact hsteady hknows)
    · exact h

end

end Requests

/-! ## The dump -/

/-- While the dump reads the register no entry changes its type, and different ids have different
headers; the orders of iteration are orders of the maps that are iterated. -/
structure DumpSteady (w : World) (args : DumpArgs) : Prop where
  distinct : ∀ n m id id' k, w.keyAt n id = some k → w.keyAt m id' = some k → id = id'
  types : ∀ n m id info info', (w.regs n).get id = some info → (w.regs m).get id = some info' →
    info.ingressType = info'.ingressType
  orders : ∀ n < 3, (w.regs n).IterOrder (args.orders n)

variable {k : Bytes}

section Dump

variable {w : World} {args : DumpArgs} {c : Client} {infos : Dict IngressId PeerInfo}
  {announced : Dict IngressId Bytes} {base : List Bytes}
variable {t : IngressType} {info : IngressInfo} {st : Walk}

/-- Every announced header was read from the register. -/
def Read (w : World) (announced : Dict IngressId Bytes) : Prop :=
  ∀ id k, announced.get id = some k → ∃ n, w.keyAt n id = some k

theorem Read.fresh (h : Read w announced) (hsteady : DumpSteady w args) (hk : w.keyAt n id = some k)
    (hid : announced.get id = none) : Fresh announced k := by
  intro id' hid'
  obtain ⟨m, hm⟩ := h id' k hid'
  cases hsteady.distinct m n id' id k hm hk
  rw [hid] at hid'
  cases hid'

theorem Read.insert (h : Read w announced)
    (hk : w.keyAt n id = some k) : Read w (announced.insert id k) := by
  intro id' k' hid'
  rcases of_get_insert hid' with ⟨rfl, rfl⟩ | ⟨_, hid'⟩
  · exact ⟨n, hk⟩
  · exact h id' k' hid'

theorem isPeerType_of_peerFilter (h : peerFilter t info = true) (ht : isPeerType (some t) = true) :
    isPeerType info.ingressType = true := by
  rw [peerFilter, Bool.and_eq_true, decide_eq_true_iff] at h
  rw [h.1]
  exact ht

theorem mem_dumpPeers {orders : Nat → List IngressId} {e : IngressId × IngressInfo}
    (h : e ∈ dumpPeers w orders) :
    ∃ n, (w.regs n).get e.1 = some e.2 ∧ isPeerType e.2.ingressType = true := by
  have hread {n : Nat} {t : IngressType} (ht : isPeerType (some t) = true)
      (h : e ∈ (w.regs n).search (orders n) (peerFilter t)) :
      ∃ n, (w.regs n).get e.1 = some e.2 ∧ isPeerType e.2.ingressType = true := by
    obtain ⟨_, hget, hfilter⟩ := mem_select.mp h
    exact ⟨n, hget, isPeerType_of_peerFilter hfilter ht⟩
  rw [dumpPeers, List.mem_append, List.mem_append] at h
  rcases h with (h | h) | h
  · exact hread rfl h
  · exact hread rfl h
  · exact hread rfl h

theorem DumpSteady.disjoint_search (h : DumpSteady w args) {m : Nat} {t' : IngressType}
    (ht : t ≠ t') (order order' : List IngressId) :
    (((w.regs n).search order (peerFilter t)).map Prod.fst).Disjoint
      (((w.regs m).search order' (peerFilter t')).map Prod.fst) := by
  intro id hid hid'
  obtain ⟨e, he, rfl⟩ := List.mem_map.mp hid
  obtain ⟨e', he', heq⟩ := List.mem_map.mp hid'
  obtain ⟨_, hget, hfilter⟩ := mem_select.mp he
  obtain ⟨_, hget', hfilter'⟩ := mem_select.mp he'
  have hsame := h.types n m e.1 e.2 e'.2 hget (by rw [← heq]; exact hget')
  simp only [peerFilter, Bool.and_eq_true, decide_eq_true_iff] at hfilter hfilter'
  rw [hfilter.1, hfilter'.1] at hsame
  exact ht (Option.some.inj hsame)

theorem DumpSteady.nodup_dumpPeers (h : DumpSteady w args) :
    ((dumpPeers w args.orders).map Prod.fst).Nodup := by
  have hsearch (n : Nat) (hn : n < 3) (t : IngressType) :
      (((w.regs n).search (args.orders n) (peerFilter t)).map Prod.fst).Nodup :=
    nodup_select (h.orders n hn).1 _
  rw [dumpPeers, List.map_append, List.map_append]
  apply List.Nodup.append
  · apply List.Nodup.append (hsearch 0 (by omega) _) (hsearch 1 (by omega) _)
    exact h.disjoint_search (by decide) _ _
  · exact hsearch 2 (by omega) _
  · rw [List.disjoint_append_left]
    exact ⟨h.disjoint_search (by decide) _ _, h.disjoint_search (by decide) _ _⟩

theorem coherent_dumpPeerUps (hsteady : DumpSteady w args) (n : Nat)
    {peers : List (IngressId × IngressInfo)} (h : Coherent c) (hread : Read w c.announced)
    (hinfos : c.announced = infos.map PeerInfo.key) (hnodup : (peers.map Prod.fst).Nodup)
    (hnew : ∀ e ∈ peers, c.knows e.1 = false)
    (hreg : ∀ e ∈ peers, ∃ m, w.keyAt m e.1 = some (headerKey w.cfg e.2)) :
    Coherent (dumpPeerUps w n peers c infos).1 ∧
      Read w (dumpPeerUps w n peers c infos).1.announced ∧
      (dumpPeerUps w n peers c infos).1.announced =
        (dumpPeerUps w n peers c infos).2.map PeerInfo.key := by
  induction peers generalizing n c infos with
  | nil => exact ⟨h, hread, hinfos⟩
  | cons e peers ih =>
    obtain ⟨id, info⟩ := e
    obtain ⟨hnotin, hnodup⟩ := List.nodup_cons.mp hnodup
    obtain ⟨m, hm⟩ := hreg _ List.mem_cons_self
    have hid := hnew _ List.mem_cons_self
    have hfresh := hread.fresh hsteady hm (h.announced_eq_none hid)
    rw [← key_buildPeerInfoForEmit w.cfg (w.regs n)] at hm hfresh
    refine ih (n + 1) (h.sendPeerUp hid hfresh true) (hread.insert hm) ?_ hnodup ?_
      fun e he => hreg e (List.mem_cons_of_mem _ he)
    · change c.announced.insert id _ = _
      rw [hinfos, map_insert]
    · intro e he
      have hne : e.1 ≠ id := by
        rintro rfl
        exact hnotin (List.mem_map.mpr ⟨e, he, rfl⟩)
      have hknows := hnew e (List.mem_cons_of_mem _ he)
      rw [Client.knows] at hknows ⊢
      rwa [← get_insert_of_ne () hne] at hknows

/-- The stream so far, `base` and what the walk handed over, is that of the peers of the
aggregator: the enumerated ones and those found by the walk. -/
structure Walk.Good (w : World) (base : List Bytes) (infos : Dict IngressId PeerInfo) (st : Walk) :
    Prop where
  tracks : Tracks (base ++ st.sent.map Prod.fst) (st.agg.peerInfo.map PeerInfo.key)
  read : Read w (st.agg.peerInfo.map PeerInfo.key)
  peers : st.agg.peerInfo = st.discovered.foldl (fun m e => m.insert e.1 e.2) infos
  enumerated : ∀ id peer, infos.get id = some peer → st.agg.peerInfo.get id = some peer
  discovered : ∀ e ∈ st.discovered, st.agg.peerInfo.get e.1 = some e.2

/-- A walk that ends well, or a stream that was cut off. -/
def GoodWalk (w : World) (base : List Bytes) (infos : Dict IngressId PeerInfo) :
    Except Sent Walk → Prop
  | .ok st => st.Good w base infos
  | .error sent => Disciplined (events (base ++ sent.map Prod.fst))

theorem GoodWalk.bind {x : Except Sent Walk} {f : Walk → Except Sent Walk}
    (h : GoodWalk w base infos x) (hf : ∀ st, st.Good w base infos → GoodWalk w base infos (f st)) :
    GoodWalk w base infos (x >>= f) := by
  cases x with
  | error sent => exact h
  | ok st => exact hf st h

theorem Tracks.of_extends {peers : Dict IngressId PeerInfo} {sent sent' : Sent}
    (h : Tracks (base ++ sent.map Prod.fst) (peers.map PeerInfo.key))
    (hext : Extends peers sent sent') :
    Tracks (base ++ sent'.map Prod.fst) (peers.map PeerInfo.key) := by
  obtain ⟨new, rfl, hnew⟩ := hext
  rw [List.map_append, ← List.append_assoc]
  refine h.append_uses fun msg hmsg => ?_
  obtain ⟨m, hm, rfl⟩ := List.mem_map.mp hmsg
  obtain ⟨id, peer, hpeer, huse⟩ := hnew m hm
  exact ⟨id, peer.key, by simp [hpeer], huse⟩

section

variable (h : st.Good w base infos)
include h

/-- Steps of the aggregator keep the walk good. -/
theorem Walk.Good.monitors {x : Except Sent (RouteAggregator × Sent)}
    (hx : RouteAggregator.MonitorsAll st.agg.peerInfo st.sent x) :
    GoodWalk w base infos (x.map fun r => { st with agg := r.1, sent := r.2 }) := by
  cases x with
  | error sent => exact (h.tracks.of_extends hx).disciplined
  | ok r =>
    obtain ⟨agg, sent⟩ := r
    obtain ⟨hpeers, hext⟩ := hx
    replace hpeers : agg.peerInfo = st.agg.peerInfo := hpeers
    change Walk.Good w base infos ⟨agg, st.discovered, sent, st.reads⟩
    refine ⟨?_, ?_, ?_, ?_, ?_⟩ <;> simp only [hpeers]
    · exact h.tracks.of_extends hext
    · exact h.read
    · exact h.peers
    · exact h.enumerated
    · exact h.discovered

theorem Walk.Good.add (hash : Bytes → UInt64) (sink : Sink)
    (call : AddCall) : GoodWalk w base infos (st.add hash sink call) :=
  h.monitors (RouteAggregator.add_monitors hash sink st.agg call st.sent)

/-- The Peer Up of a peer that the walk finds. -/
theorem Walk.Good.discover (hsteady : DumpSteady w args)
    (hid : st.agg.hasPeer id = false) (hinfo : (w.regs st.reads).get id = some info)
    (hpeer : peer.key = headerKey w.cfg info) (now : Clock) :
    Walk.Good w base infos ⟨st.agg.insertPeer id peer, st.discovered ++ [(id, peer)],
      st.sent ++ [(buildPeerUp now peer false, 0)], st.reads + 2⟩ := by
  have hread : w.keyAt st.reads id = some peer.key := by simp [World.keyAt, hinfo, hpeer]
  have hnone : (st.agg.peerInfo.map PeerInfo.key).get id = none := by
    simpa [RouteAggregator.hasPeer] using hid
  have hkeep {id' : IngressId} {peer' : PeerInfo} (h' : st.agg.peerInfo.get id' = some peer') :
      (st.agg.peerInfo.insert id peer).get id' = some peer' := by
    rw [get_insert_of_ne peer, h']
    rintro rfl
    simp [h'] at hnone
  refine ⟨?_, ?_, ?_, fun id' peer' hid' => hkeep (h.enumerated id' peer' hid'), fun e he => ?_⟩
  · simp only [RouteAggregator.insertPeer, map_insert, List.map_append, List.map_cons,
      List.map_nil, ← List.append_assoc]
    exact h.tracks.opens hnone (h.read.fresh hsteady hread hnone) (eventOf_buildPeerUp ..)
  · simp only [RouteAggregator.insertPeer, map_insert]
    exact h.read.insert hread
  · simp [RouteAggregator.insertPeer, h.peers, List.foldl_append]
  · rcases List.mem_append.mp he with he | he
    · exact hkeep (h.discovered e he)
    · cases List.mem_singleton.mp he
      exact get_insert_self ..

theorem Walk.Good.record (hsteady : DumpSteady w args) (hash : Bytes → UInt64) (sink : Sink)
    (call : AddCall) : GoodWalk w base infos (st.record hash sink w call) := by
  unfold Walk.record
  split
  · exact h.add hash sink call
  next hhas =>
    split
    next info hinfo =>
      obtain ⟨hinfo, _⟩ := filter_eq_some_iff.mp hinfo
      have hgood := h.discover hsteady (by simpa using hhas) hinfo
        (key_buildPeerInfoForEmit w.cfg (w.regs (st.reads + 1)) info) (sink.clock st.sent.length)
      unfold Sink.push
      dsimp only
      split
      · exact hgood.add hash sink call
      · exact hgood.tracks.disciplined
    · exact ⟨h.tracks, h.read, h.peers, h.enumerated, h.discovered⟩

theorem Walk.Good.records (hsteady : DumpSteady w args) (hash : Bytes → UInt64) (sink : Sink)
    (calls : List AddCall) : GoodWalk w base infos (Walk.records hash sink w calls st) := by
  induction calls generalizing st with
  | nil => exact h
  | cons call calls ih => exact (h.record hsteady hash sink call).bind fun st' hst' => ih hst'

end

theorem goodWalk_walkRib (hsteady : DumpSteady w args) (sink : Sink) (maxBytes n : Nat)
    (h : Tracks base (infos.map PeerInfo.key)) (hread : Read w (infos.map PeerInfo.key))
    (calls : List AddCall) :
    GoodWalk w base infos (walkRib args sink w maxBytes n infos calls) := by
  have hnew : Walk.Good w base infos ⟨.new maxBytes infos, [], [], n⟩ :=
    ⟨by simpa [RouteAggregator.new] using h, hread, rfl, fun _ _ h => h, nofun⟩
  refine (hnew.records hsteady args.hash sink calls).bind fun st hst => ?_
  have hflush := hst.monitors (RouteAggregator.flushAll_monitors sink st.agg args.flushOrder st.sent)
  cases hx : st.agg.flushAll sink args.flushOrder st.sent with
  | error _ | ok _ =>
    rw [hx] at hflush
    exact hflush

theorem Tracks.sendEndOfRib (h : Tracks c.sent c.announced)
    (hk : c.announced.get id = some peer.key) : Tracks (c.sendEndOfRib w peer).sent c.announced :=
  (h.use hk (eventOf_buildEorIpv4 ..)).use hk (eventOf_buildEorMpUnreach ..)

theorem coherent_endEnumerated (h : Tracks c.sent c.announced)
    (hinfos : ∀ id peer, infos.get id = some peer → c.announced.get id = some peer.key)
    (peers : List (IngressId × IngressInfo)) :
    ∃ sent, peers.foldl (Client.endEnumerated w infos) c = { c with sent := sent } ∧
      Tracks sent c.announced := by
  induction peers generalizing c with
  | nil => exact ⟨c.sent, rfl, h⟩
  | cons e peers ih =>
    rw [List.foldl_cons, Client.endEnumerated]
    split
    next peer hpeer =>
      obtain ⟨sent, heq, htracks⟩ := ih (h.sendEndOfRib (w := w) (hinfos _ _ hpeer)) hinfos
      exact ⟨sent, heq, htracks⟩
    · exact ih h hinfos

theorem coherent_endDiscovered (h : Tracks c.sent c.announced)
    {discovered : List (IngressId × PeerInfo)}
    (hk : ∀ e ∈ discovered, c.announced.get e.1 = some e.2.key) :
    ∃ sent known, discovered.foldl (Client.endDiscovered w) c =
        { c with sent := sent, knownPeers := known } ∧
      Tracks sent c.announced ∧
      ∀ id, (known.get id).isSome ↔ (c.knownPeers.get id).isSome ∨ id ∈ discovered.map Prod.fst := by
  induction discovered generalizing c with
  | nil => exact ⟨c.sent, c.knownPeers, rfl, h, by simp⟩
  | cons e discovered ih =>
    have hhead := hk e List.mem_cons_self
    obtain ⟨sent, known, heq, htracks, hknown⟩ :=
      ih (c := Client.endDiscovered w c e) (h.sendEndOfRib hhead)
        fun e' he' => hk e' (List.mem_cons_of_mem _ he')
    refine ⟨sent, known, heq, htracks, fun id => ?_⟩
    rw [hknown, List.map_cons, List.mem_cons]
    change ((c.knownPeers.insert e.1 ()).get id).isSome ∨ _ ↔ _
    rw [get_insert]
    by_cases hid : id = e.1 <;> simp [hid]

section

variable (discovered : List (IngressId × PeerInfo)) (infos : Dict IngressId PeerInfo)

theorem map_foldl_insert :
    (discovered.foldl (fun m e => m.insert e.1 e.2) infos).map PeerInfo.key =
      discovered.foldl (fun m e => m.insert e.1 e.2.key) (infos.map PeerInfo.key) := by
  induction discovered generalizing infos with
  | nil => rfl
  | cons e discovered ih => rw [List.foldl_cons, List.foldl_cons, ih, map_insert]

theorem isSome_foldl_insert (id : IngressId) :
    ((discovered.foldl (fun m e => m.insert e.1 e.2) infos).get id).isSome ↔
      (infos.get id).isSome ∨ id ∈ discovered.map Prod.fst := by
  induction discovered generalizing infos with
  | nil => simp
  | cons e discovered ih =>
    rw [List.foldl_cons, ih, List.map_cons, List.mem_cons, get_insert]
    by_cases hid : id = e.1 <;> simp [hid]

end

/-- After the walk: what was found is announced, and End-of-RIB makes it known. -/
theorem Walk.Good.coherent (hc : Coherent c) (hinfos : c.announced = infos.map PeerInfo.key)
    (hcache : c.peerInfoCache = .empty) (h : st.Good w c.sent infos)
    (peers : List (IngressId × IngressInfo)) :
    Coherent (st.discovered.foldl (Client.endDiscovered w)
      (peers.foldl (Client.endEnumerated w infos) (c.forward st.sent st.discovered))) := by
  have hann : (c.forward st.sent st.discovered).announced = st.agg.peerInfo.map PeerInfo.key := by
    rw [h.peers, map_foldl_insert, ← hinfos]
    rfl
  have htracks : Tracks (c.forward st.sent st.discovered).sent
      (c.forward st.sent st.discovered).announced := by
    rw [hann]
    exact h.tracks
  obtain ⟨sent, heq, htracks⟩ := coherent_endEnumerated (w := w) htracks
    (fun id peer hid => by rw [hann]; simp [h.enumerated id peer hid]) peers
  rw [heq]
  have hdiscovered : ∀ e ∈ st.discovered,
      (c.forward st.sent st.discovered).announced.get e.1 = some e.2.key := by
    intro e he
    rw [hann]
    simp [h.discovered e he]
  obtain ⟨sent', known, heq', htracks', hknown⟩ := coherent_endDiscovered (w := w)
    (c := { c.forward st.sent st.discovered with sent := sent }) htracks hdiscovered
  rw [heq']
  refine ⟨htracks', fun id => ?_, fun id peer hid => ?_⟩
  · change (known.get id).isSome = true ↔ ((c.forward st.sent st.discovered).announced.get id).isSome
    rw [hknown, hann, Dict.get_map, isSome_map, h.peers, isSome_foldl_insert]
    have hold := hc.known id
    rw [hinfos, Dict.get_map, isSome_map] at hold
    rw [← hold]
    rfl
  · change c.peerInfoCache.get id = _ at hid
    rw [hcache] at hid
    cases hid

theorem peerInfoCache_dumpPeerUps (w : World) (n : Nat) (peers : List (IngressId × IngressInfo))
    (c : Client) (infos : Dict IngressId PeerInfo) :
    (dumpPeerUps w n peers c infos).1.peerInfoCache = c.peerInfoCache := by
  induction peers generalizing n c infos with
  | nil => rfl
  | cons e peers ih =>
    rw [dumpPeerUps, ih]
    rfl

theorem coherent_initiation (w : World) (sysName sysDescr : String) :
    Coherent (Client.new.send w fun _ => buildInitiationMessage sysName sysDescr) :=
  ⟨tracks_initiation .., by simp [Client.knows, Client.new, Client.send], nofun⟩

/-- A dump sends a disciplined stream; if the client stays, it is coherent after it. -/
theorem Client.coherent_performInitialDump (hsteady : DumpSteady w args) (calls : List AddCall) :
    Disciplined (events (Client.new.performInitialDump args w calls).1.sent) ∧
      ((Client.new.performInitialDump args w calls).2 = true →
        Coherent (Client.new.performInitialDump args w calls).1) := by
  have hreg : ∀ e ∈ dumpPeers w args.orders, ∃ m,
      w.keyAt m e.1 = some (headerKey w.cfg e.2) := by
    intro e he
    obtain ⟨m, hget, _⟩ := mem_dumpPeers he
    exact ⟨m, by simp [World.keyAt, hget]⟩
  obtain ⟨hc, hread, hinfos⟩ := coherent_dumpPeerUps hsteady 3
    (coherent_initiation w args.sysName args.sysDescr) (fun _ _ h => by cases h)
    (map_empty PeerInfo.key).symm hsteady.nodup_dumpPeers (fun _ _ => rfl) hreg
  have hcache := peerInfoCache_dumpPeerUps w 3 (dumpPeers w args.orders)
    (Client.new.send w fun _ => buildInitiationMessage args.sysName args.sysDescr) .empty
  unfold Client.performInitialDump
  dsimp only
  generalize dumpPeerUps w 3 (dumpPeers w args.orders) _ .empty = r at *
  obtain ⟨c, infos⟩ := r
  dsimp only at *
  have hwalk := goodWalk_walkRib hsteady ⟨fun i => w.clock (c.sent.length + i), args.accepts⟩
    dumpAggregatorMaxBytes (3 + (dumpPeers w args.orders).length) (hinfos ▸ hc.tracks)
    (hinfos ▸ hread) calls
  split
  next sent hsent =>
    rw [hsent] at hwalk
    exact ⟨hwalk, (by simp)⟩
  next st hst =>
    rw [hst] at hwalk
    have hend := Walk.Good.coherent hc hinfos hcache hwalk (dumpPeers w args.orders)
    exact ⟨hend.tracks.disciplined, fun _ => hend⟩

end Dump

/-! ## Runs -/

def Start.Steady : Start → Prop
  | .noRib .. => True
  | .dump w args _ => DumpSteady w args

theorem Start.coherent {start : Start} (h : start.Steady) :
    Disciplined (events start.client.1.sent) ∧ (start.client.2 = true → Coherent start.client.1) := by
  cases start with
  | noRib w sysName sysDescr =>
    have hinit := coherent_initiation w sysName sysDescr
    exact ⟨hinit.tracks.disciplined, fun _ => hinit⟩
  | dump w args calls => exact Client.coherent_performInitialDump h calls

/-- Every request is made while the register is steady. -/
def SteadyAlong (c : Client) (us : List ((Nat → World) × Update)) : Prop :=
  ∀ pre e, pre ++ [e] <+: us.flatMap (fun e => requestsIn e.1 e.2) →
    Steady e.1 (run Client.step c pre) e.2

/-- If the register is steady during the dump and at every request, the stream is disciplined. -/
theorem Client.disciplined_of_steady (start : Start) (us : List ((Nat → World) × Update))
    (hstart : start.Steady) (hsteady : SteadyAlong start.client.1 us) :
    Disciplined (events start.client.1.sent) ∧
      (start.client.2 = true →
        Disciplined (events (start.client.1.sendUpdates us).sent)) := by
  obtain ⟨hdump, hcoh⟩ := start.coherent hstart
  refine ⟨hdump, fun halive => ?_⟩
  have hrun := run_invariant Client.step (fun _ c => Coherent c) start.client.1
    (us.flatMap fun e => requestsIn e.1 e.2) (hcoh halive)
    (fun pre e hpre hc => Client.coherent_handle hc (hsteady pre e hpre))
  rw [Client.sendUpdates_eq_run]
  exact (hrun _ (List.prefix_refl _)).tracks.disciplined

/-! ## A register with one peer -/

def peerEntry : IngressInfo where
  ingressType := some .bgp
  state := some .connected
  remoteAddr := some (.v4 192 0 2 1)
  remoteAsn := some 65001

def onePeer : Register := ⟨2, Dict.empty.insert 1 peerEntry⟩

def worldOf (reg : Register) : World := ⟨⟨false, none⟩, fun _ => reg, fun _ => ⟨0, 0⟩⟩

/-- Different ids have different headers, at every read. -/
def DistinctHeaders (w : World) : Prop :=
  ∀ n id id' k, w.keyAt n id = some k → w.keyAt n id' = some k → id = id'

theorem keyAt_onePeer (h : (worldOf onePeer).keyAt n id = some k) : id = 1 := by
  by_contra hne
  have hnone : onePeer.get id = none := get_insert_of_ne _ hne
  simp [World.keyAt, worldOf, hnone] at h

/-- The entry of an announced peer is removed and then the peer is withdrawn: the Peer Down has
the header of no peer at all. -/
theorem Client.peerDown_after_removal : ∃ (start : Start) (us : List ((Nat → World) × Update)),
    start.Steady ∧ start.client.2 = true ∧ (∀ e ∈ us, ∀ i, DistinctHeaders (e.1 i)) ∧
      ¬ Disciplined (events (start.client.1.sendUpdates us).sent) := by
  refine ⟨.noRib (worldOf onePeer) "" "", [(fun _ => worldOf onePeer, .ingressReappeared 1),
    (fun _ => worldOf .new, .withdraw 1 none)], trivial, rfl, ?_, ?_⟩
  · intro e he i n id id' k hid hid'
    rcases List.mem_pair.mp he with rfl | rfl
    · rw [keyAt_onePeer hid, keyAt_onePeer hid']
    · cases hid
  · intro h
    have hopen : isOpen [.opens (headerKey ⟨false, none⟩ peerEntry)]
        (headerKey ⟨false, none⟩ {}) = true := h _ (.closes _) [] rfl
    revert hopen
    decide

/-- A dump of one route, and a withdrawal while the entry is still there. -/
theorem Client.disciplined_onePeer :
    let start : Start := .dump (worldOf onePeer) ⟨fun _ => [1], fun _ => 0, fun _ => true,
      [⟨1, true, 0⟩], "", ""⟩ [⟨1, ⟨.v4 198 51 100 0, 24, by decide, by decide⟩,
        .emptyPathAttributes, []⟩]
    start.client.2 = true ∧ Disciplined (events (start.client.1.sendUpdates
      [(fun _ => worldOf onePeer, .withdraw 1 none)]).sent) := by
  intro start
  have hregister (n : Nat) : ((worldOf onePeer).regs n).IterOrder [1] := by
    refine ⟨by simp, fun id => ?_⟩
    change id ∈ [1] ↔ ((Dict.empty.insert 1 peerEntry).get id).isSome
    rw [get_insert]
    by_cases hid : id = 1 <;> simp [hid]
  have hstart : start.Steady :=
    ⟨fun n m id id' k hid hid' => by rw [keyAt_onePeer hid, keyAt_onePeer hid'],
      fun n m id info info' hid hid' => by cases hid.symm.trans hid'; rfl,
      fun n _ => hregister n⟩
  have hsteady : SteadyAlong start.client.1 [(fun _ => worldOf onePeer, .withdraw 1 none)] := by
    intro pre e hpre
    obtain ⟨rest, hrest⟩ := hpre
    cases pre with
    | nil =>
      cases hrest
      intro _
      rfl
    | cons e' pre => simp [requestsIn, requests] at hrest
  exact ⟨rfl, (Client.disciplined_of_steady start _ hstart hsteady).2 rfl⟩

end Rotonda.BmpOut
