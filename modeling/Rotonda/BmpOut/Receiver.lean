import Rotonda.BmpOut.Discipline

/-!
The routes that the receiver of a BMP stream holds.

A Route Monitoring message adds and removes routes of its peer, a Peer Down removes all of them.

* `View.receive`: one message; `viewOf`: a stream;
* `receive_buildPeerDown`, `receive_buildRouteMonitoring`, …: what each builder's messages do;
* `foldl_receive_of_announces`: a stream that only announces adds the routes it carries;
* `foldl_announce_eq_some`: the order of announcements does not matter if none is repeated;
* `Client.Serves`: what a client keeps of one peer.
-/

namespace Rotonda.BmpOut

open Lib Lib.Bytes Lib.Sessions List

/-- Routes by the header of their peer and their prefix. -/
abbrev View := Bytes → Prefix → Option Announcement

namespace View

def empty : View := fun _ _ => none

def set (v : View) (k : Bytes) (p : Prefix) (a : Option Announcement) : View :=
  fun k' p' => if k' = k ∧ p' = p then a else v k' p'

/-- The end of the session of a peer. -/
def close (v : View) (k : Bytes) : View := fun k' p => if k' = k then none else v k' p

def announce (v : View) (r : PeerRoute) : View := v.set r.1 r.2.pfx (some r.2)

/-- An UPDATE of a peer: withdrawals come first. -/
def update (v : View) (k : Bytes) (routes : RoutesView) : View :=
  (routes.announced.map (k, ·)).foldl announce
    (routes.withdrawn.foldl (fun v p => v.set k p none) v)

def receive (v : View) (msg : Bytes) : View :=
  match eventOf msg with
  | some (.closes k) => v.close k
  | some (.uses _) => match decodeRouteMonitoring msg with
    | some (k, routes) => v.update k routes
    | none => v
  | _ => v

end View

def viewOf (msgs : List Bytes) : View := msgs.foldl View.receive .empty

@[simp] theorem viewOf_append (msgs msgs' : List Bytes) :
    viewOf (msgs ++ msgs') = msgs'.foldl View.receive (viewOf msgs) := foldl_append

variable (c : Client)

@[simp] theorem viewOf_send (w : World) (build : Clock → Bytes) :
    viewOf (c.send w build).sent = (viewOf c.sent).receive (build (w.clock c.sent.length)) := by
  rw [Client.send, viewOf_append]
  rfl

/-! ## Messages -/

section Messages

variable {v : View} {msg : Bytes} {now : Clock} {peer : PeerInfo}

theorem code_of_decodeMessage {typ : UInt8} {key body : Bytes}
    (h : decodeMessage msg = some (typ, key, body)) : msg[5]? = some typ := by
  unfold decodeMessage at h
  split at h
  · split at h
    · obtain ⟨_, _, heq⟩ := Option.map_eq_some_iff.mp h
      cases heq
      rfl
    · cases h
  · cases h

variable {routes : Bytes × RoutesView}

/-- Only Route Monitoring messages have routes. -/
theorem code_of_decode (h : decodeRouteMonitoring msg = some routes) :
    msg[5]? = some MsgType.routeMonitoring.code := by
  rw [decodeRouteMonitoring] at h
  simp only [Option.bind_eq_bind, Option.bind_eq_some_iff] at h
  obtain ⟨⟨typ, key, body⟩, hmsg, h⟩ := h
  dsimp only at h
  split at h
  next htyp =>
    rw [code_of_decodeMessage hmsg, htyp]
  · cases h

theorem eventOf_of_decode
    (h : decodeRouteMonitoring msg = some routes) : eventOf msg = some (.uses (keyOf msg)) := by
  rw [eventOf, code_of_decode h]
  rfl

theorem receive_of_decode {k : Bytes} {routes : RoutesView}
    (h : decodeRouteMonitoring msg = some (k, routes)) : v.receive msg = v.update k routes := by
  simp only [View.receive, eventOf_of_decode h, h]

theorem receive_of_opens {k : Bytes} (h : eventOf msg = some (.opens k)) : v.receive msg = v := by
  simp only [View.receive, h]

@[simp] theorem receive_buildInitiationMessage (v : View) (sysName sysDescr : String) :
    v.receive (buildInitiationMessage sysName sysDescr) = v := by
  simp only [View.receive, eventOf_buildInitiationMessage]

@[simp] theorem receive_buildPeerUp (v : View) (now : Clock) (peer : PeerInfo) (gr : Bool) :
    v.receive (buildPeerUp now peer gr) = v :=
  receive_of_opens (eventOf_buildPeerUp now peer gr)

@[simp] theorem viewOf_sendPeerUp (w : World) (id : IngressId) (peer : PeerInfo)
    (gr : Bool) : viewOf (c.sendPeerUp w id peer gr).sent = viewOf c.sent := by
  have hsent : (c.sendPeerUp w id peer gr).sent =
      (c.send w fun now => buildPeerUp now peer gr).sent := rfl
  rw [hsent, viewOf_send, receive_buildPeerUp]

section

variable (v : View) (now : Clock) (peer : PeerInfo)

@[simp] theorem receive_buildPeerDown :
    v.receive (buildPeerDown now peer) = v.close peer.key := by
  simp only [View.receive, eventOf_buildPeerDown]

@[simp] theorem receive_buildStatisticsReport
    (body : Bytes) : v.receive (buildStatisticsReport now peer body) = v := by
  simp only [View.receive, eventOf_buildStatisticsReport]
  split
  next h =>
    have hcode : (buildStatisticsReport now peer body)[5]? =
      some MsgType.statisticsReport.code := rfl
    cases hcode.symm.trans (code_of_decode h)
  · rfl

@[simp] theorem receive_buildEorIpv4 :
    v.receive (buildEorIpv4 now peer) = v :=
  receive_of_decode (decode_buildEorIpv4 now peer)

@[simp] theorem receive_buildEorMpUnreach :
    v.receive (buildEorMpUnreach now peer .ipv6Unicast) = v :=
  receive_of_decode (decode_buildEorMpUnreach now peer)

end

/-- The single-route message adds or removes its route. -/
theorem receive_buildRouteMonitoring {p : Prefix} {pamap : RotondaPaMap} {isWithdrawal : Bool}
    (h : buildRouteMonitoring now peer p pamap isWithdrawal = some msg) :
    v.receive msg =
      v.set peer.key p (if isWithdrawal then none else some (announcementOf p pamap)) := by
  cases isWithdrawal with
  | true => exact receive_of_decode (decode_buildRouteMonitoring_withdrawal h)
  | false => exact receive_of_decode (decode_buildRouteMonitoring h)

end Messages

/-! ## Streams that only announce -/

section Announcing

variable {k : Bytes} {p : Prefix} {msgs : List Bytes} {routes : List PeerRoute}

theorem foldl_announce_of_forall_ne (v : View)
    (h : ∀ r ∈ routes, r.1 = k → r.2.pfx ≠ p) : routes.foldl View.announce v k p = v k p := by
  induction routes generalizing v with
  | nil => rfl
  | cons r routes ih =>
    rw [foldl_cons, ih _ fun r' hr' => h r' (mem_cons_of_mem r hr')]
    refine if_neg fun heq => h r mem_cons_self heq.1.symm heq.2.symm

/-- A route that is announced once is there in the end, wherever it stands. -/
theorem foldl_announce_eq_some (v : View) {a : Announcement} (hmem : (k, a) ∈ routes)
    (hpfx : a.pfx = p) (honly : ∀ r ∈ routes, r.1 = k → r.2.pfx = p → r.2 = a) :
    routes.foldl View.announce v k p = some a := by
  induction routes generalizing v with
  | nil => cases hmem
  | cons r routes ih =>
    have htail : ∀ r' ∈ routes, r'.1 = k → r'.2.pfx = p → r'.2 = a :=
      fun r' hr' => honly r' (mem_cons_of_mem r hr')
    rw [foldl_cons]
    by_cases hlater : (k, a) ∈ routes
    · exact ih _ hlater htail
    · have hr : r = (k, a) := ((mem_cons.mp hmem).resolve_right hlater).symm
      rw [foldl_announce_of_forall_ne _ fun r' hr' hk hp => hlater ?_]
      · rw [hr]
        exact if_pos ⟨rfl, hpfx.symm⟩
      · rw [← htail r' hr' hk hp, ← hk]
        exact hr'

def Announces (msg : Bytes) : Prop :=
  (decodeRoutes msg).isSome ∨ ∃ k, eventOf msg = some (.opens k)

/-- The routes that the messages of a stream announce. -/
def carried (msgs : List Bytes) : List PeerRoute := msgs.flatMap fun msg => (decodeRoutes msg).getD []

@[simp] theorem carried_append (msgs msgs' : List Bytes) :
    carried (msgs ++ msgs') = carried msgs ++ carried msgs' := flatMap_append

theorem receive_of_announces {msg : Bytes} (v : View) (h : Announces msg) :
    v.receive msg = ((decodeRoutes msg).getD []).foldl View.announce v := by
  cases hroutes : decodeRoutes msg with
  | some routes =>
    obtain ⟨⟨k, ⟨announced, withdrawn⟩⟩, hdecode, hview⟩ := Option.bind_eq_some_iff.mp hroutes
    dsimp only at hview
    split at hview
    next hnil =>
      cases hview
      rw [receive_of_decode hdecode, hnil]
      rfl
    · cases hview
  | none =>
    rw [Announces, hroutes] at h
    obtain ⟨k, hevent⟩ := h.resolve_left (by exact nofun)
    exact receive_of_opens hevent

/-- What a stream that only announces makes of a view. -/
theorem foldl_receive_of_announces (v : View) (h : ∀ msg ∈ msgs, Announces msg) :
    msgs.foldl View.receive v = (carried msgs).foldl View.announce v := by
  induction msgs generalizing v with
  | nil => rfl
  | cons msg msgs ih =>
    rw [foldl_cons, receive_of_announces v (h msg mem_cons_self),
      ih _ fun msg' hmsg' => h msg' (mem_cons_of_mem msg hmsg')]
    simp [carried, foldl_append]

end Announcing

/-! ## The stream of a client -/

/-- How a client serves a peer: no header it caches is confused with that of the peer, and while it
does not know the peer the receiver has no routes of it. -/
structure Client.Serves (id : IngressId) (h : Bytes) (c : Client) : Prop where
  cache {id' : IngressId} {peer : PeerInfo} (hpeer : c.peerInfoCache.get id' = some peer) :
    peer.key = h ↔ id' = id
  cached (hid : (c.peerInfoCache.get id).isSome) : c.knows id = true
  known (hid : c.knows id = false) (p : Prefix) : viewOf c.sent h p = none

theorem knows_addKnownPeer (id id' : IngressId) :
    (c.addKnownPeer id).knows id' = true ↔ id' = id ∨ c.knows id' = true := by
  rw [Client.knows, Client.addKnownPeer, Dict.get_insert]
  split
  next heq => exact ⟨fun _ => .inl heq, fun _ => rfl⟩
  next hne => exact ⟨.inr, fun hor => hor.resolve_left hne⟩

end Rotonda.BmpOut
