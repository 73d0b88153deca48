import Rotonda.BmpOut.Receiver
import Rotonda.Lib.Replay

/-!
What the updates that a client is sent make of the receiver's routes of one peer.

* `Request.sets`: what a request is to make of a route;
* `Request.Named`, `Request.Sendable`: its header is the right one and its message can be built;
* `Client.Serves.handle`: then the receiver's routes change as they should;
* `Client.Serves.sendUpdate`: the same for all requests of an update.
-/

namespace Rotonda.BmpOut

open Lib Lib.Bytes Lib.Runs Lib.Replay

/-- What a request makes of a route of the peer, if it is about it. -/
def Request.sets (id : IngressId) : Request → Prefix → Option (Option Announcement)
  | .payload q, p =>
    if q.ingressId = id ∧ q.rxValue.pfx = p then
      some (if q.routeStatus = .withdrawn then none
        else some (announcementOf p q.rxValue.rotondaPamap))
    else none
  | .peerDown id' _, _ => if id' = id then some none else none
  | .reappeared _, _ | .peerStats .., _ => none

/-- The header that the request is sent with is that of the peer exactly if it is about the peer.
A cached header is not read again. -/
def Request.Named (id : IngressId) (h : Bytes) (w : World) : Request → Prop
  | .payload q => headerKey w.cfg (((w.regs 2).get q.ingressId).getD {}) = h ↔ q.ingressId = id
  | .peerDown id' snapshot =>
    headerKey w.cfg (snapshot.getD (((w.regs 0).get id').getD {})) = h ↔ id' = id
  | .reappeared _ | .peerStats .. => True

/-- The route of the peer fits into a message. -/
def Request.Sendable (id : IngressId) : Request → Prop
  | .payload q => q.ingressId = id → (buildBgpUpdate q.rxValue.pfx q.rxValue.rotondaPamap
      (q.routeStatus = .withdrawn)).isSome
  | _ => True

section Requests

variable {id : IngressId} {h : Bytes} {c : Client} {w : World}
variable {peer : PeerInfo} {q : Payload}

/-! ## Payloads -/

section

variable (c : Client) (w : World) (n : Nat) (id : IngressId)

theorem viewOf_introduce :
    viewOf (c.introduce w n id).sent = viewOf c.sent := by
  unfold Client.introduce
  split
  · rfl
  · dsimp only
    split
    · rw [viewOf_sendPeerUp]; rfl
    · rfl

theorem knows_introduce (id' : IngressId) :
    (c.introduce w n id).knows id' = true ↔ id' = id ∨ c.knows id' = true := by
  unfold Client.introduce
  split
  next hknows =>
    constructor
    · exact .inr
    · rintro (rfl | hknown)
      · exact hknows
      · exact hknown
  · dsimp only
    split
    · exact knows_addKnownPeer c id id'
    · exact knows_addKnownPeer c id id'

theorem peerInfoCache_introduce :
    (c.introduce w n id).peerInfoCache = c.peerInfoCache := by
  unfold Client.introduce
  split
  · rfl
  · dsimp only
    split <;> rfl

end

/-- A route is sent under a header. -/
theorem viewOf_sendRoute (hkey : peer.key = h ↔ q.ingressId = id)
    (hsend : (Request.payload q).Sendable id) (p : Prefix) :
    viewOf (c.sendRoute w peer q).sent h p =
      ((Request.payload q).sets id p).getD (viewOf c.sent h p) := by
  unfold Client.sendRoute
  dsimp only
  split
  next msg hmsg =>
    rw [viewOf_send, receive_buildRouteMonitoring hmsg, View.set, Request.sets]
    by_cases habout : q.ingressId = id ∧ q.rxValue.pfx = p
    · obtain ⟨hid, rfl⟩ := habout
      simp [hid, hkey.mpr hid]
    · have hother : ¬ (h = peer.key ∧ p = q.rxValue.pfx) :=
        fun ⟨hk, hp⟩ => habout ⟨hkey.mp hk.symm, hp.symm⟩
      rw [if_neg hother, if_neg habout, Option.getD_none]
  next hnone =>
    -- a route of the peer would have been sent
    have hid : q.ingressId ≠ id := by
      intro hid
      have hbuild := hsend hid
      rw [Option.map_eq_none_iff.mp hnone] at hbuild
      cases hbuild
    rw [Request.sets, if_neg fun habout => hid habout.1, Option.getD_none]

theorem knows_sendRoute (c : Client) (w : World) (peer : PeerInfo) (q : Payload) :
    (c.sendRoute w peer q).knows = c.knows ∧
      (c.sendRoute w peer q).peerInfoCache = c.peerInfoCache := by
  unfold Client.sendRoute
  dsimp only
  split <;> exact ⟨rfl, rfl⟩

/-- The receiver's routes of the peer are now those, and the client still serves the peer. -/
def Client.Brings (id : IngressId) (h : Bytes) (c c' : Client) (r : Request) : Prop :=
  c'.Serves id h ∧ ∀ p, viewOf c'.sent h p = (r.sets id p).getD (viewOf c.sent h p)

section

variable (hc : c.Serves id h)
include hc

/-- A route is sent; if it is one of the peer then the client knows the peer. -/
theorem Client.Serves.sendRoute (hknows : q.ingressId = id → c.knows id = true)
    (hkey : peer.key = h ↔ q.ingressId = id) (hsend : (Request.payload q).Sendable id) :
    c.Brings id h (c.sendRoute w peer q) (.payload q) := by
  obtain ⟨hsame, hcache⟩ := knows_sendRoute c w peer q
  refine ⟨⟨?_, ?_, ?_⟩, viewOf_sendRoute hkey hsend⟩
  · rw [hcache]
    exact hc.cache
  · rw [hcache, hsame]
    exact hc.cached
  · rw [hsame]
    intro hid p
    have hne : q.ingressId ≠ id := by
      intro heq
      rw [hknows heq] at hid
      cases hid
    rw [viewOf_sendRoute hkey hsend, Request.sets, if_neg fun habout => hne habout.1]
    exact hc.known hid p

/-- A client that got to know more peers and sent no routes. -/
theorem Client.Serves.mono {c' : Client} (hcache : c'.peerInfoCache = c.peerInfoCache)
    (hview : viewOf c'.sent = viewOf c.sent)
    (hknows : c.knows id = true → c'.knows id = true) : c'.Serves id h := by
  refine ⟨?_, ?_, fun hid p => ?_⟩
  · rw [hcache]
    exact hc.cache
  · rw [hcache]
    exact fun hsome => hknows (hc.cached hsome)
  · rw [hview]
    refine hc.known (Bool.eq_false_iff.mpr fun hknown => ?_) p
    rw [hknows hknown] at hid
    cases hid

theorem Client.Serves.introduce (w : World) (n : Nat) (id' : IngressId) :
    (c.introduce w n id').Serves id h :=
  hc.mono (peerInfoCache_introduce c w n id') (viewOf_introduce c w n id')
    fun hknows => (knows_introduce c w n id' id).mpr (.inr hknows)

/-- The header of a known peer is cached. -/
theorem Client.Serves.cacheInsert {id' : IngressId} (hkey : peer.key = h ↔ id' = id)
    (hknows : c.knows id' = true) :
    Client.Serves id h { c with peerInfoCache := c.peerInfoCache.insert id' peer } := by
  refine ⟨fun {id'' peer''} hpeer => ?_, fun hsome => ?_, hc.known⟩
  · rcases Dict.of_get_insert hpeer with ⟨rfl, rfl⟩ | ⟨_, hpeer⟩
    · exact hkey
    · exact hc.cache hpeer
  · rw [Dict.get_insert] at hsome
    split at hsome
    next heq =>
      rw [heq]
      exact hknows
    · exact hc.cached hsome

theorem Client.Serves.sendPayload (hnamed : (Request.payload q).Named id h w)
    (hsend : (Request.payload q).Sendable id) : c.Brings id h (c.sendPayload w q) (.payload q) := by
  have hknows := (knows_introduce c w 0 q.ingressId q.ingressId).mpr (.inl rfl)
  have hkey : (buildPeerInfoForEmit w.cfg (w.regs 3)
      (((w.regs 2).get q.ingressId).getD {})).key = h ↔ q.ingressId = id := by
    rw [key_buildPeerInfoForEmit]
    exact hnamed
  have hself : q.ingressId = id → (c.introduce w 0 q.ingressId).knows id = true :=
    fun hid => (knows_introduce c w 0 q.ingressId id).mpr (.inl hid.symm)
  have hintro := hc.introduce w 0 q.ingressId
  unfold Client.sendPayload
  dsimp only
  split
  next peer hpeer =>
    refine hc.sendRoute (fun hid => hc.cached ?_) (hc.cache hpeer) hsend
    rw [← hid, hpeer]
    rfl
  · split
    · have hcached := (hintro.cacheInsert hkey hknows).sendRoute (w := w) hself hkey hsend
      rwa [Brings, viewOf_introduce] at hcached
    · have hsent := hintro.sendRoute (w := w) hself hkey hsend
      rwa [Brings, viewOf_introduce] at hsent

/-! ## Sessions -/

theorem Client.Serves.sendPeerDown {id' : IngressId} {snapshot : Option IngressInfo}
    (hnamed : (Request.peerDown id' snapshot).Named id h w) :
    c.Brings id h (c.sendPeerDown w id' snapshot) (.peerDown id' snapshot) := by
  unfold Client.sendPeerDown
  split
  next hknows =>
    dsimp only
    have hkey : (buildPeerInfoForEmit w.cfg (w.regs 1)
        (snapshot.getD (((w.regs 0).get id').getD {}))).key = h ↔ id' = id := by
      rw [key_buildPeerInfoForEmit]
      exact hnamed
    have hview (p : Prefix) : viewOf (c.send w fun now => buildPeerDown now
        (buildPeerInfoForEmit w.cfg (w.regs 1)
          (snapshot.getD (((w.regs 0).get id').getD {})))).sent h p =
        if id' = id then none else viewOf c.sent h p := by
      rw [viewOf_send, receive_buildPeerDown, View.close]
      simp only [eq_comm (a := h), hkey]
    refine ⟨⟨fun {id'' peer} hpeer => ?_, fun hsome => ?_, fun hid p => ?_⟩, fun p => ?_⟩
    · exact hc.cache (Dict.of_get_erase hpeer).2
    · rw [Client.removeKnownPeer, Dict.get_erase] at hsome
      rw [Client.knows, Client.removeKnownPeer, Dict.get_erase]
      split at hsome
      · cases hsome
      next hne =>
        rw [if_neg hne]
        exact hc.cached hsome
    · rw [Client.knows, Client.removeKnownPeer, Dict.get_erase] at hid
      refine (hview p).trans ?_
      split
      · rfl
      next hne =>
        rw [if_neg (Ne.symm hne)] at hid
        exact hc.known hid p
    · refine (hview p).trans ?_
      rw [Request.sets]
      split <;> rfl
  next hknows =>
    refine ⟨hc, fun p => ?_⟩
    rw [Request.sets]
    split
    next hid =>
      rw [hid, Bool.not_eq_true] at hknows
      exact hc.known hknows p
    · rfl

theorem Client.Serves.sendPeerReappeared (id' : IngressId) :
    c.Brings id h (c.sendPeerReappeared w id') (.reappeared id') := by
  unfold Client.sendPeerReappeared
  split
  next info _ =>
    split
    · exact ⟨hc, fun _ => rfl⟩
    · have hview : viewOf ((c.addKnownPeer id').sendPeerUp w id'
          (buildPeerInfoForEmit w.cfg (w.regs 1) info) false).sent = viewOf c.sent := by
        rw [viewOf_sendPeerUp]
        rfl
      refine ⟨hc.mono rfl hview fun hknows => ?_, fun p => by rw [hview]; rfl⟩
      exact (knows_addKnownPeer c id' id).mpr (.inr hknows)
  · exact ⟨hc, fun _ => rfl⟩

theorem Client.Serves.sendPeerStats (id' : IngressId) (body : Bytes) :
    c.Brings id h (c.sendPeerStats w id' body) (.peerStats id' body) := by
  have hintro := hc.introduce w 0 id'
  unfold Client.sendPeerStats
  dsimp only
  split
  next info _ =>
    have hview : viewOf ((c.introduce w 0 id').send w fun now => buildStatisticsReport now
        (buildPeerInfoForEmit w.cfg (w.regs 3) info) body).sent = viewOf (c.introduce w 0 id').sent := by
      rw [viewOf_send, receive_buildStatisticsReport]
    exact ⟨hintro.mono rfl hview fun hknows => hknows, fun p => by rw [hview, viewOf_introduce]; rfl⟩
  · exact ⟨hintro, fun p => by rw [viewOf_introduce]; rfl⟩

/-! ## Updates -/

theorem Client.Serves.handle {r : Request} (hnamed : r.Named id h w)
    (hsend : r.Sendable id) : c.Brings id h (c.handle w r) r := by
  cases r with
  | payload q => exact hc.sendPayload hnamed hsend
  | peerDown id' snapshot => exact hc.sendPeerDown hnamed
  | reappeared id' => exact hc.sendPeerReappeared id'
  | peerStats id' body => exact hc.sendPeerStats id' body

end

/-- The requests that an update makes are sent as they should be. -/
def Tuned (id : IngressId) (h : Bytes) (worlds : Nat → World) (u : Update) : Prop :=
  ∀ e ∈ requestsIn worlds u, e.2.Named id h e.1 ∧ e.2.Sendable id

theorem Client.Serves.run (hc : c.Serves id h) {es : List (World × Request)}
    (hes : ∀ e ∈ es, e.2.Named id h e.1 ∧ e.2.Sendable id) :
    (Lib.Runs.run Client.step c es).Serves id h ∧
      ∀ p, viewOf (Lib.Runs.run Client.step c es).sent h p =
        replay (Request.sets id) p (viewOf c.sent h p) (es.map Prod.snd) := by
  induction es generalizing c with
  | nil => exact ⟨hc, fun _ => rfl⟩
  | cons e es ih =>
    obtain ⟨hnamed, hsend⟩ := hes e List.mem_cons_self
    obtain ⟨hc', hview⟩ := hc.handle hnamed hsend
    obtain ⟨hrest, hviews⟩ := ih hc' fun e' he' => hes e' (List.mem_cons_of_mem _ he')
    refine ⟨hrest, fun p => ?_⟩
    rw [run_cons, List.map_cons, replay_cons]
    exact (hviews p).trans (congrArg (replay _ p · _) (hview p))

/-- An update does to the receiver's routes of the peer what its requests set. -/
theorem Client.Serves.sendUpdate (hc : c.Serves id h) {worlds : Nat → World} {u : Update}
    (hu : Tuned id h worlds u) :
    (c.sendUpdate worlds u).Serves id h ∧ ∀ p, viewOf (c.sendUpdate worlds u).sent h p =
      replay (Request.sets id) p (viewOf c.sent h p) (requests u) := by
  have hrequests : (requestsIn worlds u).map Prod.snd = requests u := by
    rw [requestsIn, List.map_map]
    exact List.zipIdx_map_fst ..
  rw [← hrequests]
  exact hc.run hu

end Requests

end Rotonda.BmpOut
