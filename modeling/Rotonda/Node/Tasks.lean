import Rotonda.Node.Calls

/-!
The BMP task keeps to what it owns.

A task owns the id of its connection and the ids of its peers.  Every program of the task takes
what it adds to its peers before it shows them, and gives an id up only after it has stopped
showing it.

* `Machine`: what a state machine asks of the tenures;
* `wp_processMsg`, `wp_resolveRebind`, `wp_handleMsg`, `wp_accept`: the programs.
-/

namespace Rotonda

open Lib Lib.Ownership List Option Dict Protocol

variable {s : Session} {pph : PerPeerHeader} {id : IngressId} {peers peers' : PeerStates}
  {st : PeerState}

/-! ## What a message reports -/

namespace BmpIn

/-- The routing update, if there is one, carries routes of one ingress. -/
def Reports (id : IngressId) (res : MessageType) : Prop :=
  ∀ u, res.update = some u → ∃ ps, u = .bulk ps ∧ ∀ p ∈ ps, p.ingressId = id

namespace Session

theorem reports_routesOf (h : s.peerStates.getPeerIngressId pph = some id) (update : BgpUpdate) :
    Reports id (s.routesOf pph update).1 := by
  unfold routesOf
  cases hextract : s.extractRouteMonitoringRoutes pph update with
  | error err => exact nofun
  | ok r =>
    obtain ⟨payloads, n⟩ := r
    dsimp only
    cases update.announcementsVec with
    | error err => exact nofun
    | ok announcements =>
      rintro u hu
      cases hu
      refine ⟨payloads, rfl, fun p hp => ?_⟩
      unfold extractRouteMonitoringRoutes at hextract
      cases hreach : update.explodeAnnouncements with
      | error err => rw [hreach] at hextract; cases hextract
      | ok reach =>
        cases hunreach : update.explodeWithdrawals with
        | error err => rw [hreach, hunreach] at hextract; cases hextract
        | ok unreach =>
          rw [hreach, hunreach, h] at hextract
          cases hextract
          rcases mem_append.mp hp with hp | hp <;>
            obtain ⟨route, _, rfl⟩ := mem_map.mp hp <;> rfl

theorem getPeerIngressId_of_editedAt (h : PeerStates.EditedAt pph peers peers')
    (hst : peers.get pph = some st) : peers'.getPeerIngressId pph = some st.ingressId := by
  obtain ⟨config, pending, hget⟩ := h.2 st hst
  rw [PeerStates.getPeerIngressId, hget]
  rfl

/-- The routes of a Route Monitoring message are stored under the id of its peer. -/
theorem reports_routeMonitoring (hst : s.peerStates.get pph = some st) (dumping : Bool)
    (reg : Register) (orders : IterOrders) (bgpUpdate : SessionConfig → Except String BgpUpdate) :
    Reports st.ingressId (s.routeMonitoring dumping reg orders pph bgpUpdate).1 := by
  unfold routeMonitoring
  rw [ensurePeer_of_isSome (by rw [hst]; rfl)]
  dsimp only
  cases s.peerStates.getPeerConfig pph with
  | none => exact nofun
  | some config =>
    dsimp only
    cases parseUpdate bgpUpdate config with
    | error err => exact nofun
    | ok parsed =>
      obtain ⟨update, config', retry⟩ := parsed
      dsimp only
      generalize hs' : (if retry = true then
        { s with peerStates := s.peerStates.updatePeerConfig pph config' } else s) = s'
      have hedit : PeerStates.EditedAt pph s.peerStates s'.peerStates := by
        subst hs'
        split
        · exact PeerStates.editedAt_updatePeerConfig ..
        · exact .refl ..
      cases update.isEor with
      | none => exact reports_routesOf (getPeerIngressId_of_editedAt hedit hst) update
      | some afiSafi =>
        dsimp only
        split
        · exact nofun
        · exact reports_routesOf (getPeerIngressId_of_editedAt
            (hedit.trans (PeerStates.editedAt_removePendingEor _ orders.peers _ _)) hst) update

end Session

end BmpIn

namespace Node

open BmpIn

variable {S : Type} [PrefixStore S RotondaPaMap] {units : List IngressId} {cfg : RibConfig}
  {l : Option Connection} {ω : Dict IngressId Tenure}
variable {c : Connection} {router : IngressId} {info identity : IngressInfo}
  {R : Post (Option (Option Update × BmpState))}
  {src : PerPeerHeader} {ids : List IngressId} {orders : IterOrders} {view : BmpState → Connection}

/-! ## What a task owns -/

/-- The state machine runs under an id of its own, and its peers are entered. -/
structure Machine (st : BmpState) (ω : Dict IngressId Tenure) : Prop where
  carries : Carries st.ingressId st.peerStates ω
  own : ω.get st.ingressId = some (if st.isInitiating then .provisional else .router)

theorem Machine.runs {st : BmpState} (h : Machine st ω) : Runs st.ingressId ω := by
  have hown := h.own
  split at hown
  · exact .inl hown
  · exact .inr hown

theorem Machine.visible (h : Machine c.stateMachine ω) : Visible (some c) ω := by
  rintro c' ⟨rfl⟩
  exact ⟨h.carries, h.runs⟩

theorem carries_empty (router : IngressId) : Carries router .empty ω := by
  intro pph st hst
  rw [get_empty] at hst
  cases hst

section

variable (h : Carries router peers ω)
include h

theorem Carries.mono {ω' : Dict IngressId Tenure}
    (hω : ∀ pph st, peers.get pph = some st → ω'.get st.ingressId = ω.get st.ingressId) :
    Carries router peers ω' :=
  fun pph st hst => (hω pph st hst).trans (h pph st hst)

theorem Carries.of_ids_eq (hids : peers'.ids = peers.ids) : Carries router peers' ω := by
  intro pph st hst
  have hid : peers.ids.get pph = some st.ingressId := by
    rw [← hids, PeerStates.ids, Dict.get_map, hst]
    rfl
  rw [PeerStates.ids, Dict.get_map] at hid
  obtain ⟨st', hst', hid⟩ := map_eq_some_iff.mp hid
  rw [← hid]
  exact h pph st' hst'

/-- A new peer, entered under an id that was nobody's. -/
theorem Carries.insert (hid : ω.get id = none) (pph : PerPeerHeader) (hst : st.ingressId = id) :
    Carries router (peers.insert pph st) (ω.insert id (.peer router pph)) := by
  intro pph' st' hget
  rcases of_get_insert hget with ⟨rfl, rfl⟩ | ⟨_, hget⟩
  · rw [hst, get_insert_self]
  · have hpeer := h pph' st' hget
    have hne : st'.ingressId ≠ id := by
      rintro rfl
      cases hid.symm.trans hpeer
    rw [get_insert_of_ne _ hne, hpeer]

/-- Two peers with one id have one header. -/
theorem Carries.inj {pph' : PerPeerHeader} {st' : PeerState} (hst : peers.get pph = some st)
    (hst' : peers.get pph' = some st') (hid : st.ingressId = st'.ingressId) : pph = pph' := by
  have hpeer := h pph st hst
  rw [hid, h pph' st' hst'] at hpeer
  cases hpeer
  rfl

end

/-! ## Entering a peer -/

theorem wp_claimOrRegister
    {R : Post (IngressId × Option IngressId)}
    (hl : Visible l ω) (order : List IngressId) (query : IngressInfo)
    (hR : ∀ id existing t, ω.get id = none → t = .claimed ∨ t = .vacant →
      (∀ id' ∈ existing, id' = id) → R (id, existing) l (ω.insert id t)) :
    taskWp S units cfg (Steps.claimOrRegister order query) l ω R := by
  apply wp_bind
  refine wp_findExistingPeerAndClaim hl ?_ order query fun id info hid => ?_
  · apply wp_bind
    exact wp_register hl fun id hid => hR id none .vacant hid (.inr rfl) nofun
  · exact hR id (some id) .claimed hid (.inl rfl) fun id' hid' => (Option.some.inj hid').symm

variable {parent : IngressId}

theorem isPeer_merge (h : IsPeer parent pph info)
    (e : Option IngressInfo) : IsPeer parent pph (updated e info) := by
  cases e with
  | none => exact h
  | some old =>
    exact ⟨by simp [updated, IngressInfo.merge, h.state],
      by simp [updated, IngressInfo.merge, h.ingressType],
      by simp [updated, IngressInfo.merge, h.parentIngress],
      by simp [updated, IngressInfo.merge, h.remoteAddr],
      by simp [updated, IngressInfo.merge, h.remoteAsn],
      by simp [updated, IngressInfo.merge, h.peerRibType]⟩

theorem wp_updateInfo_peer {R : Post Unit}
    {t : Tenure} (hinfo : IsPeer parent pph info) (hid : ω.get id = none)
    (ht : t = .claimed ∨ t = .vacant) (hparent : ω.get parent = some .router) (hl : Visible l ω)
    (hR : R () l (ω.insert id (.peer parent pph))) :
    taskWp S units cfg (Steps.updateInfo id info) l (ω.insert id t) R := by
  have hne : parent ≠ id := by
    rintro rfl
    cases hid.symm.trans hparent
  rw [← ω.insert_insert id t] at hR
  refine wp_updateInfo (.peer parent pph) rfl (get_insert_self ..)
    (fun e _ => ⟨updated e info, rfl, isPeer_merge hinfo e⟩) (fun hub hsound hholds => ?_) ?_ hR
  · have hpeer := isPeer_merge hinfo (hub.register.get id)
    refine ⟨fun _ _ => hpeer.ingressType, fun {old} hold hsome => ?_,
      .inr hpeer.ingressType, fun hu => (by cases hpeer.remoteAsn.symm.trans hu.2.1),
      fun {p} hp => .inr ?_⟩
    · -- a vacant id has no entry, and a claimed one is a peer's
      have hok := (hholds id t (get_insert_self ..)).2.2
      rcases ht with rfl | rfl
      · obtain ⟨info', hget, htype, _⟩ := hok
        cases hget.symm.trans hold
        rw [hpeer.ingressType, htype]
      · cases hold.symm.trans hok
    · cases hpeer.parentIngress.symm.trans hp
      obtain ⟨router, hget, _, hstate, _⟩ :=
        (hholds parent .router (by rw [get_insert_of_ne _ hne, hparent])).2.2
      rw [Register.stateOf, hget]
      change router.state ≠ _
      rw [hstate]
      simp
  · rw [ω.insert_insert]
    exact hl.insert_free hid _

theorem isPeer_query (msg : PeerUp) (router : IngressId) :
    IsPeer router msg.pph (msg.query router) := ⟨rfl, rfl, rfl, rfl, rfl, rfl⟩

theorem isPeer_adaptedTo (h : IsPeer router src info) (hsrc : src.sameIdentity pph = true) :
    IsPeer router pph (adaptedTo info pph) := by
  obtain ⟨_, _, haddr, hasn, _⟩ := PerPeerHeader.sameIdentity_iff.mp hsrc
  exact ⟨rfl, h.ingressType, h.parentIngress, by rw [← haddr]; exact h.remoteAddr,
    by rw [← hasn]; exact h.remoteAsn, rfl⟩

theorem get_insert_router (hid : ω.get id = none) (h : ω.get router = some .router) (t : Tenure) :
    (ω.insert id t).get router = some .router := by
  have hne : router ≠ id := by
    rintro rfl
    cases hid.symm.trans h
  rw [get_insert_of_ne _ hne, h]

/-- What a program of the state machine leaves: a session whose peers are entered, and an update
about peers of the task. -/
structure Grown (s : Session) (update : Option Update) (s' : Session)
    (ω : Dict IngressId Tenure) : Prop where
  ingressId : s'.ingressId = s.ingressId
  carries : Carries s.ingressId s'.peerStates ω
  router : ω.get s.ingressId = some .router
  announces : ∀ u ∈ update, ∀ id ∈ introduces u, ∃ parent pph, ω.get id = some (.peer parent pph)

/-- What a message leaves after the Initiation. -/
structure Answered (router : IngressId) (update : Option Update) (st : BmpState)
    (ω : Dict IngressId Tenure) : Prop where
  ingressId : st.ingressId = router
  session : st.isInitiating = false
  carries : Carries router st.peerStates ω
  router : ω.get router = some .router
  announces : ∀ u ∈ update, ∀ id ∈ introduces u, ∃ parent pph, ω.get id = some (.peer parent pph)

theorem Grown.answered {s' : Session} {update : Option Update} (h : Grown s update s' ω)
    (dumping : Bool) :
    Answered s.ingressId update (if dumping then .dumping s' else .updating s') ω := by
  cases dumping <;> exact ⟨h.ingressId, rfl, h.carries, h.router, h.announces⟩

/-- The ids are marked one after the other; the task must not show them any more. -/
theorem wp_disconnectAll {R : Post Unit}
    (hnodup : ids.Nodup) (hids : ∀ id ∈ ids, ∃ parent pph, ω.get id = some (.peer parent pph))
    (hl : Visible l ω) (hhidden : ∀ c ∈ l, ∀ pph st, c.stateMachine.peerStates.get pph = some st →
      st.ingressId ∉ ids)
    (hR : ∀ ω', Visible l ω' → (∀ id, id ∉ ids → ω'.get id = ω.get id) → R () l ω') :
    taskWp S units cfg (Steps.disconnectAll ids) l ω R := by
  induction ids generalizing ω with
  | nil => exact hR ω hl fun _ _ => rfl
  | cons id ids ih =>
    obtain ⟨parent, pph, hid⟩ := hids id mem_cons_self
    obtain ⟨hnot, hnodup⟩ := nodup_cons.mp hnodup
    have hget (id' : IngressId) (hne : id' ≠ id) : (ω.erase id).get id' = ω.get id' := by
      rw [get_erase_of_ne hne]
    have hvis : Visible l (ω.erase id) := by
      intro c hc
      obtain ⟨hcarries, hruns⟩ := hl c hc
      refine ⟨fun pph' st hst => ?_, ?_⟩
      · have hne : st.ingressId ≠ id :=
          fun heq => hhidden c hc pph' st hst (heq ▸ mem_cons_self)
        rw [hget _ hne]
        exact hcarries pph' st hst
      · have hne : c.stateMachine.ingressId ≠ id := by
          rintro rfl
          rcases hruns with h | h <;> cases hid.symm.trans h
        rw [Runs, hget _ hne]
        exact hruns
    apply wp_bind'
    refine wp_mark hid rfl hvis (ih hnodup (fun id' hid' => ?_) hvis (fun c hc pph' st hst hmem => ?_)
      fun ω' hvis' hω' => hR ω' hvis' fun id' hid' => ?_)
    · rw [hget id' fun heq => hnot (heq ▸ hid')]
      exact hids id' (mem_cons_of_mem _ hid')
    · exact hhidden c hc pph' st hst (mem_cons_of_mem _ hmem)
    · rw [mem_cons, not_or] at hid'
      rw [hω' id' hid'.2, hget id' hid'.1]

/-- The ids of selected peers are entered, and each of them once. -/
theorem Carries.select (h : Carries router peers ω) {order : List PerPeerHeader}
    (horder : order.Nodup) (p : PerPeerHeader → PeerState → Bool) :
    ((peers.select order p).map fun e => e.2.ingressId).Nodup ∧
      ∀ id ∈ (peers.select order p).map fun e => e.2.ingressId,
        ∃ parent pph, ω.get id = some (.peer parent pph) := by
  constructor
  · refine (nodup_map_iff_inj_on (.of_map _ (nodup_select horder p))).mpr ?_
    rintro ⟨k, st⟩ he ⟨k', st'⟩ he' hid
    obtain ⟨_, hst, _⟩ := mem_select.mp he
    obtain ⟨_, hst', _⟩ := mem_select.mp he'
    cases h.inj hst hst' hid
    cases hst.symm.trans hst'
    rfl
  · intro id hid
    obtain ⟨⟨k, st⟩, he, rfl⟩ := mem_map.mp hid
    obtain ⟨_, hst, _⟩ := mem_select.mp he
    exact ⟨router, k, h k st hst⟩

/-- Peers that are taken out are no longer shown. -/
theorem Carries.erase (h : Carries router peers ω) {es : List (PerPeerHeader × PeerState)}
    (hes : ∀ e ∈ es, peers.get e.1 = some e.2) :
    let peers' := es.foldl (fun peers e => peers.erase e.1) peers
    Carries router peers' ω ∧ ∀ pph st, peers'.get pph = some st →
      st.ingressId ∉ es.map fun e => e.2.ingressId := by
  intro peers'
  have hget {pph : PerPeerHeader} {st : PeerState} (hst : peers'.get pph = some st) :
      pph ∉ es.map Prod.fst ∧ peers.get pph = some st := by
    rw [get_foldl_erase] at hst
    split at hst
    · cases hst
    next hnot => exact ⟨hnot, hst⟩
  refine ⟨fun pph st hst => h pph st (hget hst).2, fun pph st hst hmem => ?_⟩
  obtain ⟨hnot, hst⟩ := hget hst
  obtain ⟨⟨k, st'⟩, he, hid⟩ := mem_map.mp hmem
  cases h.inj (hes _ he) hst hid
  exact hnot (mem_map_of_mem he)

theorem router_not_mem (h : ω.get router = some .router)
    (hids : ∀ id ∈ ids, ∃ parent pph, ω.get id = some (.peer parent pph)) : router ∉ ids := by
  intro hmem
  obtain ⟨_, _, hpeer⟩ := hids router hmem
  cases h.symm.trans hpeer

theorem introduces_withdrawalOf (removed : List PeerState) :
    introduces (Session.withdrawalOf removed) = [] := by
  unfold Session.withdrawalOf
  split
  · split <;> rfl
  · rfl

section Messages

variable (hl : Visible l ω) (hs : Carries s.ingressId s.peerStates ω)
  (hrouter : ω.get s.ingressId = some .router)
include hl hs hrouter

theorem wp_peerUp {R : Post (Option Update × Session)} (orders : IterOrders) (msg : PeerUp)
    (hR : ∀ u s' ω', Grown s u s' ω' → Visible l ω' → R (u, s') l ω') :
    taskWp S units cfg (Steps.peerUp s orders msg) l ω R := by
  unfold Steps.peerUp
  split
  · exact hR none s ω ⟨rfl, hs, hrouter, (by simp)⟩ hl
  · apply wp_bind
    refine wp_claimOrRegister hl _ _ fun id existing t hid ht hexisting => ?_
    apply wp_bind
    refine wp_updateInfo_peer (isPeer_query msg s.ingressId) hid ht hrouter hl ?_
    refine hR _ _ _ ⟨rfl, hs.insert hid msg.pph rfl, get_insert_router hid hrouter _, ?_⟩
      (hl.insert_free hid _)
    rintro u hu id' hid'
    obtain ⟨id'', hex, rfl⟩ := map_eq_some_iff.mp hu
    cases mem_singleton.mp hid'
    cases hexisting id' hex
    exact ⟨_, _, get_insert_self ..⟩

theorem wp_peerDown {R : Post (Option Update × Session)}
    (horders : orders.peers.Nodup) {view : Session → Connection} (pph : PerPeerHeader)
    (hview : ∀ s, (view s).stateMachine.peerStates = s.peerStates ∧
      (view s).stateMachine.ingressId = s.ingressId)
    (hR : ∀ u s' l' ω', Grown s u s' ω' → Visible l' ω' → R (u, s') l' ω') :
    taskWp S units cfg (Steps.peerDown view s orders pph) l ω R := by
  unfold Steps.peerDown PeerStates.removePeerIdentitySiblings
  obtain ⟨hnodup, hpeers⟩ := hs.select horders fun k _ => k.sameIdentity pph
  have hes (e : PerPeerHeader × PeerState)
      (he : e ∈ s.peerStates.select orders.peers fun k _ => k.sameIdentity pph) :
      s.peerStates.get e.1 = some e.2 := (mem_select.mp he).2.1
  generalize s.peerStates.select orders.peers (fun k _ => k.sameIdentity pph) = es
    at hnodup hpeers hes
  obtain ⟨hcarries, hhidden⟩ := hs.erase hes
  cases es with
  | nil => exact hR none s l ω ⟨rfl, hs, hrouter, nofun⟩ hl
  | cons e es =>
    dsimp only
    generalize (e :: es).foldl (fun peers e => peers.erase e.1) s.peerStates = peers
      at hcarries hhidden
    obtain ⟨hviewPeers, hviewId⟩ := hview { s with peerStates := peers }
    have hvis : Visible (some (view { s with peerStates := peers })) ω := by
      rintro c ⟨rfl⟩
      constructor
      · rw [hviewPeers, hviewId]
        exact hcarries
      · rw [hviewId]
        exact .inr hrouter
    have hmap : ((e :: es).map Prod.snd).map PeerState.ingressId =
        (e :: es).map fun e => e.2.ingressId := map_map ..
    apply wp_bind
    refine ⟨hvis, ?_⟩
    apply wp_bind
    rw [hmap]
    refine wp_disconnectAll hnodup hpeers hvis ?_ fun ω' hvis' hω' => ?_
    · rintro c ⟨rfl⟩ k st hst
      rw [hviewPeers] at hst
      exact hhidden k st hst
    · refine hR _ _ _ _ ⟨rfl, hcarries.mono fun k st hst => hω' _ (hhidden k st hst), ?_, ?_⟩ hvis'
      · rw [hω' _ (router_not_mem hrouter hpeers), hrouter]
      · rintro u ⟨rfl⟩ id hid
        rw [introduces_withdrawalOf] at hid
        cases hid

/-! ## Route Monitoring -/

theorem wp_synthesize {R : Post Steps.Found}
    (orders : IterOrders) {source : PeerState}
    (hsource : s.peerStates.get src = some source) (hsrc : src.sameIdentity pph = true)
    (hR : ∀ s' ω', Grown s none s' ω' → (s'.peerStates.get pph).isSome → Visible l ω' →
      R (.ready s') l ω') :
    taskWp S units cfg (Steps.synthesize s orders pph source) l ω R := by
  apply wp_bind
  refine wp_get hl (hs src source hsource) fun e hfits => ?_
  obtain ⟨info, rfl, hpeer⟩ := hfits
  apply wp_bind
  refine wp_claimOrRegister hl _ _ fun id existing t hid ht _ => ?_
  apply wp_bind
  refine wp_updateInfo_peer (isPeer_adaptedTo hpeer hsrc) hid ht hrouter hl ?_
  exact hR _ _ ⟨rfl, hs.insert hid pph rfl, get_insert_router hid hrouter _, nofun⟩
    (by simp [Session.withCopy]) (hl.insert_free hid _)

theorem wp_ensurePeer {R : Post Steps.Found}
    (orders : IterOrders) (pph : PerPeerHeader)
    (hmissing : R .missing l ω)
    (hready : ∀ s' ω', Grown s none s' ω' → (s'.peerStates.get pph).isSome → Visible l ω' →
      R (.ready s') l ω') :
    taskWp S units cfg (Steps.ensurePeer s orders pph) l ω R := by
  unfold Steps.ensurePeer
  split
  next hsome => exact hready s ω ⟨rfl, hs, hrouter, nofun⟩ hsome hl
  · cases hnulled : s.peerStates.get pph.nulledFlags with
    | some source =>
      exact wp_synthesize hl hs hrouter orders hnulled pph.sameIdentity_nulledFlags hready
    | none =>
      rw [none_or]
      cases hsibling : (s.peerStates.findSiblingPph orders.peers pph).bind s.peerStates.get with
      | none => exact hmissing
      | some source =>
        obtain ⟨src, hfind, hget⟩ := bind_eq_some_iff.mp hsibling
        obtain ⟨_, hid, _⟩ := PeerStates.findSiblingPph_eq_some hfind
        exact wp_synthesize hl hs hrouter orders hget hid hready

theorem wp_routeMonitoring (dumping : Bool) (orders : IterOrders) (pph : PerPeerHeader)
    (bgpUpdate : SessionConfig → Except String BgpUpdate)
    (hR : ∀ u st ω', Answered s.ingressId u st ω' → Visible l ω' → R (some (u, st)) l ω') :
    taskWp S units cfg (Steps.routeMonitoring dumping s orders pph bgpUpdate) l ω
      R := by
  apply wp_bind
  refine wp_ensurePeer hl hs hrouter orders pph ?_ fun s' ω' hgrown hsome hvis => ?_
  · have hsame : Grown s none s ω := ⟨rfl, hs, hrouter, nofun⟩
    exact hR _ _ _ (hsame.answered dumping) hl
  · obtain ⟨st, hst⟩ := isSome_iff_exists.mp hsome
    obtain ⟨_, hcases⟩ := s'.routeMonitoring_cases dumping .new orders pph bgpUpdate
    rw [Session.ensurePeer_of_isSome hsome] at hcases
    obtain ⟨_, _, s₂, hid, hedit, hres⟩ := hcases
    have hgrown₂ : Grown s (s'.routeMonitoring dumping .new orders pph bgpUpdate).1.update s₂ ω' := by
      refine ⟨hid.trans hgrown.ingressId, hgrown.carries.of_ids_eq (hedit.ids_eq hsome),
        hgrown.router, fun u hu id hmem => ?_⟩
      obtain ⟨ps, rfl, hps⟩ := Session.reports_routeMonitoring hst dumping .new orders bgpUpdate u hu
      obtain ⟨p, hp, rfl⟩ := mem_map.mp hmem
      rw [hps p hp]
      exact ⟨_, _, hgrown.carries pph st hst⟩
    refine hR _ _ _ ?_ hvis
    rcases hres with hres | hres <;> rw [hres]
    · exact hgrown₂.answered dumping
    · exact hgrown₂.answered false

/-! ## Messages -/

omit hl in
theorem wp_terminate {R : Post (Option Update × BmpState)} (horders : orders.peers.Nodup)
    (hview : ∀ st, (view st).stateMachine = st)
    (hR : ∀ u st l' ω', Answered s.ingressId u st ω' → Visible l' ω' → R (u, st) l' ω') :
    taskWp S units cfg (Steps.terminate view s orders) l ω R := by
  obtain ⟨hnodup, hpeers⟩ := hs.select horders fun _ _ => true
  have hempty : Visible (some (view (.terminated s.ingressId))) ω := by
    rintro c ⟨rfl⟩
    constructor <;> rw [hview]
    · exact carries_empty _
    · exact .inr hrouter
  unfold Steps.terminate
  apply wp_bind
  refine ⟨hempty, ?_⟩
  apply wp_bind
  refine wp_disconnectAll hnodup hpeers hempty ?_ fun ω' hvis' hω' => ?_
  · rintro c ⟨rfl⟩ pph st hst
    rw [hview] at hst
    cases hst
  · refine hR _ _ _ _ ⟨rfl, rfl, carries_empty _, ?_, ?_⟩ hvis'
    · rw [hω' _ (router_not_mem hrouter hpeers), hrouter]
    · intro u hu id hid
      split at hu <;> cases hu
      cases hid

theorem wp_sessionMsg (dumping : Bool) (horders : orders.peers.Nodup)
    (hview : ∀ st, (view st).stateMachine = st) (msg : BmpMsg)
    (hR : ∀ u st l' ω', Answered s.ingressId u st ω' → Visible l' ω' → R (some (u, st)) l' ω') :
    taskWp S units cfg (Steps.sessionMsg dumping view s orders msg) l ω R := by
  have hsame (s' : Session) (hid : s'.ingressId = s.ingressId)
      (hpeers : s'.peerStates = s.peerStates) : Grown s none s' ω :=
    ⟨hid, by rw [hpeers]; exact hs, hrouter, nofun⟩
  unfold Steps.sessionMsg
  cases msg with
  | initiationMessage names descs extra =>
    exact hR _ _ _ _ ((hsame (s.initiate names descs extra) rfl rfl).answered dumping) hl
  | peerUpNotification m =>
    apply wp_bind
    exact wp_peerUp hl hs hrouter orders m fun u s' ω' h hvis =>
      hR _ _ _ _ (h.answered dumping) hvis
  | peerDownNotification pph =>
    apply wp_bind
    refine wp_peerDown hl hs hrouter horders pph (fun s' => ?_) fun u s' l' ω' h hvis =>
      hR _ _ _ _ (h.answered dumping) hvis
    rw [hview]
    cases dumping <;> exact ⟨rfl, rfl⟩
  | routeMonitoring pph bgpUpdate =>
    exact wp_routeMonitoring hl hs hrouter dumping orders pph bgpUpdate fun u st ω' h hvis =>
      hR _ _ _ _ h hvis
  | terminationMessage =>
    apply wp_bind
    exact wp_terminate hs hrouter horders hview fun u st l' ω' h hvis => hR _ _ _ _ h hvis
  | statisticsReport pph raw =>
    suffices hgrown : Grown s (s.statisticsReport pph raw).update s ω from
      hR _ _ _ _ (hgrown.answered dumping) hl
    refine ⟨rfl, hs, hrouter, fun u hu id hid => ?_⟩
    unfold Session.statisticsReport at hu
    cases hpeer : s.peerStates.getPeerIngressId pph with
    | none => rw [hpeer] at hu; cases hu
    | some id' =>
      rw [hpeer] at hu
      dsimp only at hu
      split at hu <;> cases hu
      cases mem_singleton.mp hid
      obtain ⟨st, hst, rfl⟩ := map_eq_some_iff.mp hpeer
      exact ⟨_, _, hs pph st hst⟩
  | routeMirroring pph => exact hR _ _ _ _ ((hsame s rfl rfl).answered dumping) hl

end Messages

/-! ## The Initiation -/

/-- The entry of a router, once its Initiation has named it. -/
theorem fits_router {e : Option IngressInfo} (htype : identity.ingressType = some .bmp)
    (hstate : identity.state = some .connected) (hasn : identity.remoteAsn = none)
    (he : ∀ old, e = some old → old.remoteAsn = none) :
    Tenure.router.Fits units (some (updated e identity)) := by
  refine ⟨_, rfl, ?_⟩
  cases e with
  | none => exact ⟨htype, hstate, hasn⟩
  | some old =>
    have hold := he old rfl
    simp [updated, IngressInfo.merge, htype, hstate, hasn, hold]

variable {unit : IngressId}

theorem wp_updateInfo_router {R : Post Unit}
    {t : Tenure} (hid : ω.get id = some t) (ht : t = .provisional ∨ t = .router)
    (htype : identity.ingressType = some .bmp) (hstate : identity.state = some .connected)
    (hasn : identity.remoteAsn = none) (hname : identity.name ≠ none) (hunit : unit ∈ units)
    (hparent : identity.parentIngress = some unit) (hl : Visible l (ω.insert id .router))
    (hR : R () l (ω.insert id .router)) :
    taskWp S units cfg (Steps.updateInfo id identity) l ω R := by
  have hfits (e : Option IngressInfo) (he : t.Fits units e) (old : IngressInfo)
      (hold : e = some old) : old.remoteAsn = none ∧ old.ingressType = some .bmp := by
    rcases ht with rfl | rfl
    · obtain ⟨info, rfl, htype, _, hasn, _⟩ := he
      cases hold
      exact ⟨hasn, htype⟩
    · obtain ⟨info, rfl, htype, _, hasn⟩ := he
      cases hold
      exact ⟨hasn, htype⟩
  refine wp_updateInfo .router rfl hid (fun e he =>
    fits_router htype hstate hasn fun old hold => (hfits e he old hold).1)
    (fun hub hsound hholds => ?_) hl hR
  have hold := hfits _ (hholds id t hid).2.2
  obtain ⟨new, heq, hnew, _, hnewAsn⟩ : Tenure.router.Fits units _ :=
    fits_router htype hstate hasn fun old h => (hold old h).1
  cases heq
  have hnamed : (updated (hub.register.get id) identity).name ≠ none := by
    cases hub.register.get id with
    | none => exact hname
    | some old => exact fun h => hname (or_eq_none_iff.mp h).1
  refine ⟨fun _ hsome => ?_, fun h _ => ?_, .inl hnew, fun hu => absurd hu.2.2 hnamed,
    fun {p} hp => .inr ?_⟩
  · rw [hnewAsn] at hsome
    cases hsome
  · rw [hnew, (hold _ h).2]
  · have hp' : (updated (hub.register.get id) identity).parentIngress = some unit := by
      cases hub.register.get id <;> simp [updated, IngressInfo.merge, hparent]
    cases hp'.symm.trans hp
    rw [Register.stateOf, (hsound.unit hunit).2]
    simp

theorem wp_initiatingMsg {R : Post BmpState}
    {ingressId : IngressId} (orders : IterOrders) (msg : BmpMsg) (hl : Visible l ω)
    (hid : ω.get ingressId = some .provisional)
    (hsame : R (.initiating ingressId) l ω)
    (hR : ∀ s ω', s.peerStates = .empty → ω'.get s.ingressId = some .router → Visible l ω' →
      (s.ingressId = ingressId ∨ ω'.get ingressId = some .provisional) → R (.dumping s) l ω') :
    taskWp S units cfg (Steps.initiatingMsg ingressId orders msg) l ω R := by
  cases msg with
  | initiationMessage names descs extra =>
    apply wp_bind
    refine wp_get hl hid fun e he => ?_
    obtain ⟨info, rfl, htype, _, hasn, _, unit, hunit, hparent⟩ := he
    apply wp_bind
    refine wp_findExistingBmpRouterAndClaim hl ?_ orders.register htype nofun
      fun existing info' hfree => ?_
    · -- a new router keeps its id
      have hvis : Visible l (ω.insert ingressId .router) :=
        hl.insert (fun _ _ h => by cases hid.symm.trans h) (.inr (.inr rfl))
      apply wp_bind
      refine wp_updateInfo_router hid (.inl rfl) htype rfl hasn nofun hunit hparent ?_ ?_
      · exact hvis
      · exact hR _ _ rfl (get_insert_self ..) hvis (.inl rfl)
    · -- a known router takes the id it had
      have hne : ingressId ≠ existing := by
        rintro rfl
        cases hfree.symm.trans hid
      dsimp only [map_some, getD_some]
      apply wp_bind
      refine wp_updateInfo_router (get_insert_self ..) (.inr rfl) htype rfl hasn nofun hunit hparent
        ?_ ?_ <;> rw [ω.insert_insert]
      · exact hl.insert_free hfree _
      · refine hR _ _ rfl (get_insert_self ..) (hl.insert_free hfree _) (.inr ?_)
        rw [get_insert_of_ne _ hne, hid]
  | _ => exact hsame

/-! ## The connection -/

structure Settled (c : Connection) (ω : Dict IngressId Tenure) : Prop where
  machine : Machine c.stateMachine ω
  aligned : c.Aligned

/-- A connection whose state machine has answered: it may run under the id of a known router
now. -/
structure Ready (c : Connection) (ω : Dict IngressId Tenure) : Prop where
  machine : Machine c.stateMachine ω
  adopted : c.stateMachine.ingressId = c.ingressId ∨ c.rebindResolved = false ∧
    c.stateMachine.isInitiating = false ∧ ω.get c.ingressId = some .provisional
  resolved : c.rebindResolved = true → c.stateMachine.isInitiating = false

theorem Settled.ready (h : Settled c ω) : Ready c ω := by
  refine ⟨h.machine, .inl h.aligned.1, fun hresolved => ?_⟩
  have hal := h.aligned.2
  rw [hresolved] at hal
  simpa using hal

theorem wp_processMsg (horders : orders.peers.Nodup) (msg : BmpMsg) (hc : Settled c ω)
    (hR : ∀ u st l' ω', Ready { c with stateMachine := st } ω' →
      (∀ u' ∈ u, ∀ id ∈ introduces u', ∃ parent pph, ω'.get id = some (.peer parent pph)) →
      Visible l' ω' → R (some (u, st)) l' ω') :
    taskWp S units cfg (Steps.processMsg c orders msg) (some c) ω R := by
  have hmachine := hc.machine
  have hvis := hmachine.visible
  obtain ⟨hid, hresolved⟩ := hc.aligned
  -- after the Initiation the id of the connection is final
  have hsession (s : Session) (hcarries : Carries s.ingressId s.peerStates ω)
      (hrouter : ω.get s.ingressId = some .router) (hid : s.ingressId = c.ingressId)
      (dumping : Bool) : taskWp S units cfg
        (Steps.sessionMsg dumping (fun st => { c with stateMachine := st }) s orders msg) (some c)
        ω R := by
    refine wp_sessionMsg hvis hcarries hrouter dumping horders (fun st => rfl) msg
      fun u st l' ω' h hvis' => hR u st l' ω' ⟨⟨?_, ?_⟩, .inl ?_, fun _ => h.session⟩ h.announces hvis'
    · exact h.ingressId.symm ▸ h.carries
    · rw [h.session, h.ingressId]
      exact h.router
    · exact h.ingressId.trans hid
  unfold Steps.processMsg
  cases hst : c.stateMachine with
  | initiating id =>
    rw [hst] at hmachine hid hresolved
    have hown := hmachine.own
    apply wp_bind
    refine wp_initiatingMsg orders msg hvis hown ?_ fun s ω' hempty hrouter hvis' hor => ?_
    · refine hR none _ _ ω ⟨⟨carries_empty _, hown⟩, .inl hid, fun h => ?_⟩ nofun hvis
      rw [hresolved] at h
      cases h
    · refine hR none _ _ ω' ⟨⟨fun pph st hget => ?_, hrouter⟩, ?_, fun _ => rfl⟩ nofun hvis'
      · change s.peerStates.get pph = some st at hget
        rw [hempty] at hget
        cases hget
      · rcases hor with hsid | hprov
        · exact .inl (hsid.trans hid)
        · exact .inr ⟨hresolved, rfl, hid ▸ hprov⟩
  | dumping s =>
    rw [hst] at hmachine hid
    exact hsession s hmachine.carries hmachine.own hid true
  | updating s =>
    rw [hst] at hmachine hid
    exact hsession s hmachine.carries hmachine.own hid false
  | terminated id =>
    rw [hst] at hmachine hid
    exact hR none _ _ ω ⟨hmachine, .inl hid, fun _ => rfl⟩ nofun hvis

variable {R : Post Connection}

section Updates

variable [LawfulPrefixStore S]

theorem wp_resolveRebind
    (hc : Ready c ω) (hR : ∀ c' ω', Settled c' ω' → Visible (some c) ω' → R c' (some c) ω') :
    taskWp S units cfg (Steps.resolveRebind c) (some c) ω R := by
  have hl := hc.machine.visible
  unfold Steps.resolveRebind
  split
  next hresolved =>
    have hid : c.stateMachine.ingressId = c.ingressId := by
      rcases hc.adopted with hid | ⟨hnot, _⟩
      · exact hid
      · rw [hresolved] at hnot
        cases hnot
    exact hR c ω ⟨hc.machine, hid, by rw [hresolved, hc.resolved hresolved]; rfl⟩ hl
  · split
    next hne =>
      -- the provisional id is freed before the router is announced
      obtain ⟨_, hin, hprov⟩ := hc.adopted.resolve_left hne
      have hkeep {id : IngressId} {t : Tenure} (hid : ω.get id = some t) (ht : t ≠ .provisional) :
          (ω.erase c.ingressId).get id = some t := by
        have hne' : id ≠ c.ingressId := by
          rintro rfl
          cases hprov.symm.trans hid
          exact ht rfl
        rw [get_erase_of_ne hne', hid]
      have hrouter := hc.machine.own
      rw [hin] at hrouter
      have hcarries : Carries c.stateMachine.ingressId c.stateMachine.peerStates
          (ω.erase c.ingressId) :=
        fun pph st hst => hkeep (hc.machine.carries pph st hst) nofun
      have hvis : Visible (some c) (ω.erase c.ingressId) := by
        rintro c' ⟨rfl⟩
        exact ⟨hcarries, .inr (hkeep hrouter nofun)⟩
      apply wp_bind
      refine wp_remove hprov hvis ?_
      apply wp_bind
      refine wp_updateData (fun id hid => ?_) hvis (hR _ _ ⟨⟨?_, ?_⟩, rfl, ?_⟩ hvis)
      · cases mem_singleton.mp hid
        exact .inr ⟨rfl, hkeep hrouter nofun⟩
      · exact hcarries
      · rw [hin]
        exact hkeep hrouter nofun
      · rw [hin]
        rfl
    next hid => exact hR _ ω ⟨hc.machine, not_not.mp hid, rfl⟩ hl

theorem wp_handleMsg {R : Post (Option Connection)}
    (ignorePostPolicyRoutes accepted : Bool) (horders : orders.peers.Nodup) (msg : BmpMsg)
    (hc : Settled c ω) (hR : ∀ c' l' ω', Settled c' ω' → Visible l' ω' → R (some c') l' ω') :
    taskWp S units cfg
      (Steps.handleMsg ignorePostPolicyRoutes accepted c orders msg) (some c) ω R := by
  have hvis := hc.machine.visible
  have hrebind : taskWp S units cfg (Steps.resolveRebind c) (some c) ω
      fun c' l' ω' => R (some c') l' ω' :=
    wp_resolveRebind hc.ready fun c' ω' hc' hvis' => hR c' _ ω' hc' hvis'
  unfold Steps.handleMsg
  split
  · exact wp_bind hrebind
  · apply wp_bind
    refine wp_updateData nofun hvis ?_
    split
    · exact wp_bind hrebind
    · apply wp_bind
      refine wp_processMsg horders msg hc fun u st l' ω' hready hannounces hvis' => ?_
      have hvis₁ : Visible (some { c with stateMachine := st }) ω' := hready.machine.visible
      have hrest : taskWp S units cfg
          (Steps.resolveRebind { c with stateMachine := st }) (some { c with stateMachine := st })
          ω' fun c' l' ω' => R (some c') l' ω' :=
        wp_resolveRebind hready fun c' ω' hc' hvis' => hR c' _ ω' hc' hvis'
      apply wp_bind
      refine ⟨hvis₁, ?_⟩
      apply wp_bind
      cases u with
      | none => exact wp_bind hrest
      | some u =>
        refine wp_bind' (wp_updateData (fun id hid => .inl ?_) hvis₁ ?_)
        · exact hannounces u rfl id hid
        · exact wp_bind hrest

end Updates

theorem wp_accept (hunit : unit ∈ units) (addr : IpAddr) (hR : ∀ c ω', Settled c ω' → R c none ω') :
    taskWp S units cfg (Steps.accept unit addr) none ω R := by
  apply wp_bind
  refine wp_register nofun fun id hid => ?_
  apply wp_bind
  refine wp_updateInfo .provisional rfl (get_insert_self ..) (fun e he => ?_)
    (fun hub hsound hholds => ?_) nofun (hR _ _ ⟨⟨carries_empty _, ?_⟩, rfl, rfl⟩)
  · cases he
    exact ⟨_, rfl, rfl, nofun, rfl, rfl, unit, hunit, rfl⟩
  · have hnone := (hholds id .vacant (get_insert_self ..)).2.2
    change hub.register.get id = none at hnone
    rw [hnone]
    refine ⟨fun _ hasn => absurd hasn nofun, nofun, .inl rfl, fun _ {_} h => (by cases h),
      fun {p} hp => .inr ?_⟩
    cases hp
    rw [Register.stateOf, (hsound.unit hunit).2]
    simp
  · exact get_insert_self ..

end Node

end Rotonda
