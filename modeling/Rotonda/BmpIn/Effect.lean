import Rotonda.BmpIn.Machine
import Rotonda.Lib.Runs

/-!
What one message can do to the peers of a session, function by function.

A message adds at most one peer, under its own header, removes all peers of one identity or all
peers, and otherwise changes only the parser settings and the pending End-of-RIBs of its own peer.

* `addPeerConfig_cases`, `get_removePeerIdentitySiblings`, `ensurePeer_cases`,
  `routeMonitoring_cases`: the ways the functions can end;
* `BmpState.next`, `BmpState.log`: sequences of messages.
-/

namespace Rotonda.BmpIn

open Lib PeerStates

theorem PerPeerHeader.sameIdentity_iff {k pph : PerPeerHeader} :
    k.sameIdentity pph = true ↔ k.peerType = pph.peerType ∧ k.distinguisher = pph.distinguisher ∧
      k.address = pph.address ∧ k.asn = pph.asn ∧ k.bgpId = pph.bgpId := by
  rw [sameIdentity, decide_eq_true_iff]

@[simp] theorem PerPeerHeader.sameIdentity_refl (pph : PerPeerHeader) :
    pph.sameIdentity pph = true := by
  simp [sameIdentity]

theorem PerPeerHeader.sameIdentity_nulledFlags (pph : PerPeerHeader) :
    pph.nulledFlags.sameIdentity pph = true := by
  simp [sameIdentity, nulledFlags]

namespace PeerStates

variable {peers : PeerStates} {order : List PerPeerHeader} {pph : PerPeerHeader}

/-! ## Removing an identity -/

theorem get_removePeerIdentitySiblings (h : peers.Covers order) (k : PerPeerHeader) :
    (peers.removePeerIdentitySiblings order pph).2.get k =
      if k.sameIdentity pph then none else peers.get k := by
  rw [removePeerIdentitySiblings]
  dsimp only
  rw [Dict.get_foldl_erase]
  by_cases hid : k.sameIdentity pph = true
  · rw [if_pos hid]
    split
    · rfl
    next hmem =>
      cases hget : peers.get k with
      | none => rfl
      | some st =>
        have hsel : (k, st) ∈ peers.select order fun k _ => k.sameIdentity pph :=
          (Dict.mem_select_of_covers h).mpr ⟨hget, hid⟩
        exact absurd (List.mem_map_of_mem hsel) hmem
  · rw [if_neg hid, if_neg]
    intro hmem
    obtain ⟨e, he, rfl⟩ := List.mem_map.mp hmem
    exact hid ((Dict.mem_select_of_covers h).mp he).2

theorem mem_removePeerIdentitySiblings (h : peers.Covers order) {st : PeerState} :
    st ∈ (peers.removePeerIdentitySiblings order pph).1 ↔
      ∃ k, k.sameIdentity pph = true ∧ peers.get k = some st := by
  rw [removePeerIdentitySiblings, List.mem_map]
  constructor
  · rintro ⟨⟨k, st'⟩, he, rfl⟩
    obtain ⟨hget, hid⟩ := (Dict.mem_select_of_covers h).mp he
    exact ⟨k, hid, hget⟩
  · rintro ⟨k, hid, hget⟩
    exact ⟨(k, st), (Dict.mem_select_of_covers h).mpr ⟨hget, hid⟩, rfl⟩

/-! ## Adding peers -/

/-- A Peer Up is a duplicate, or it adds a peer under its header. -/
theorem addPeerConfig_cases (peers : PeerStates) (reg : Register) (order : List IngressId)
    (bmpId : IngressId) (msg : PeerUp) :
    ((peers.get msg.pph).isSome ∧
      peers.addPeerConfig reg order bmpId msg = (false, none, peers, reg)) ∨
    (peers.get msg.pph = none ∧ ∃ id existing reg',
      claimOrRegister reg order (msg.query bmpId) = (id, existing, reg') ∧
      peers.addPeerConfig reg order bmpId msg = (true, existing,
        peers.insert msg.pph ⟨msg.sessionConfig, msg.gracefulRestart, [], id, false⟩,
        reg'.updateInfo id (msg.query bmpId))) := by
  unfold addPeerConfig
  cases hget : peers.get msg.pph with
  | some st => exact .inl ⟨rfl, rfl⟩
  | none => exact .inr ⟨rfl, _, _, _, rfl, rfl⟩

theorem findSiblingPph_eq_some {k : PerPeerHeader} (h : peers.findSiblingPph order pph = some k) :
    k ≠ pph ∧ k.sameIdentity pph = true ∧ (peers.get k).isSome := by
  obtain ⟨⟨k', st⟩, hfind, rfl⟩ := Option.map_eq_some_iff.mp h
  obtain ⟨_, hget, hp⟩ := Dict.find_eq_some hfind
  rw [Bool.and_eq_true, decide_eq_true_iff] at hp
  exact ⟨hp.1, hp.2, by rw [hget]; rfl⟩

/-! ## Edits of one peer -/

/-- The peers are the same up to the parser settings and pending End-of-RIBs of one header. -/
def EditedAt (pph : PerPeerHeader) (peers peers' : PeerStates) : Prop :=
  (∀ k, k ≠ pph → peers'.get k = peers.get k) ∧
    ∀ st, peers.get pph = some st → ∃ config pending,
      peers'.get pph = some { st with sessionConfig := config, pendingEors := pending }

theorem EditedAt.refl (pph : PerPeerHeader) (peers : PeerStates) : EditedAt pph peers peers :=
  ⟨fun _ _ => rfl, fun st h => ⟨st.sessionConfig, st.pendingEors, h⟩⟩

theorem EditedAt.trans {peers₁ peers₂ peers₃ : PeerStates} (h : EditedAt pph peers₁ peers₂)
    (h' : EditedAt pph peers₂ peers₃) : EditedAt pph peers₁ peers₃ := by
  refine ⟨fun k hk => (h'.1 k hk).trans (h.1 k hk), fun st hst => ?_⟩
  obtain ⟨config, pending, hget⟩ := h.2 st hst
  obtain ⟨config', pending', hget'⟩ := h'.2 _ hget
  exact ⟨config', pending', hget'⟩

theorem editedAt_insert {st : PeerState} (hget : peers.get pph = some st)
    (config : SessionConfig) (pending : List EoRProperties) :
    EditedAt pph peers
      (peers.insert pph { st with sessionConfig := config, pendingEors := pending }) := by
  refine ⟨fun k hk => Dict.get_insert_of_ne _ hk, fun st' hst' => ?_⟩
  cases hget.symm.trans hst'
  exact ⟨config, pending, Dict.get_insert_self ..⟩

theorem editedAt_updatePeerConfig (peers : PeerStates) (pph : PerPeerHeader)
    (config : SessionConfig) : EditedAt pph peers (peers.updatePeerConfig pph config) := by
  unfold updatePeerConfig
  split
  next st hget => exact editedAt_insert hget config st.pendingEors
  · exact .refl ..

theorem editedAt_addPendingEor (peers : PeerStates) (pph : PerPeerHeader) (afiSafi : AfiSafiType) :
    EditedAt pph peers (peers.addPendingEor pph afiSafi) := by
  unfold addPendingEor
  split
  next st hget => exact editedAt_insert hget st.sessionConfig _
  · exact .refl ..

theorem editedAt_removePendingEor (peers : PeerStates) (order : List PerPeerHeader)
    (pph : PerPeerHeader) (afiSafi : AfiSafiType) :
    EditedAt pph peers (peers.removePendingEor order pph afiSafi).2 := by
  unfold removePendingEor
  dsimp only
  split
  next st hget => exact editedAt_insert hget st.sessionConfig _
  · exact .refl ..

end PeerStates

/-! ## Route Monitoring -/

/-- The entry of a peer as it is copied for one with another header. -/
def adaptedTo (info : IngressInfo) (pph : PerPeerHeader) : IngressInfo :=
  { info with
    ribType := some pph.ribType
    peerRibType := some pph.peerRibType
    state := some .connected }

namespace Session

variable {s : Session} {reg : Register} {orders : IterOrders} {pph : PerPeerHeader}

/-- A Peer Down removes the peers of its identity, and no others. -/
theorem get_peerDown (h : s.peerStates.Covers orders.peers) (p k : PerPeerHeader) :
    (s.peerDown reg orders p).2.1.peerStates.get k =
      if k.sameIdentity p then none else s.peerStates.get k := by
  have hget : (s.peerStates.removePeerIdentitySiblings orders.peers p).2.get k =
      if k.sameIdentity p then none else s.peerStates.get k :=
    get_removePeerIdentitySiblings h k
  have hmem (st : PeerState) : st ∈ (s.peerStates.removePeerIdentitySiblings orders.peers p).1 ↔
      ∃ k, k.sameIdentity p = true ∧ s.peerStates.get k = some st :=
    mem_removePeerIdentitySiblings h
  unfold peerDown
  generalize s.peerStates.removePeerIdentitySiblings orders.peers p = r at hget hmem
  obtain ⟨removed, peers⟩ := r
  cases removed with
  | nil =>
    -- nothing has the identity, so nothing is lost either
    change s.peerStates.get k = _
    split
    next hid =>
      cases hst : s.peerStates.get k with
      | none => rfl
      | some st => exact absurd ((hmem st).mpr ⟨k, hid, hst⟩) List.not_mem_nil
    · rfl
  | cons st removed => exact hget

def withCopy (s : Session) (pph : PerPeerHeader) (source : PeerState) (id : IngressId) : Session :=
  { s with
    peerStates := s.peerStates.insert pph
      { source with ingressId := id, synthesized := true } }

/-- The ways to come by a peer for a Route Monitoring message: it is there; it is copied from a
peer with the same identity; that peer has no register entry; or there is none. -/
inductive Ensured (s : Session) (reg : Register) (orders : IterOrders) (pph : PerPeerHeader) :
    Except MessageType Session × Register → Prop
  | known (h : (s.peerStates.get pph).isSome) : Ensured s reg orders pph (.ok s, reg)
  | synthesized {src : PerPeerHeader} {source : PeerState} {info : IngressInfo} {id : IngressId}
      {existing : Option IngressId} {reg' : Register} (hnew : s.peerStates.get pph = none)
      (hsrc : src.sameIdentity pph = true) (hsource : s.peerStates.get src = some source)
      (hinfo : reg.get source.ingressId = some info)
      (hclaim : claimOrRegister reg orders.register (adaptedTo info pph) = (id, existing, reg')) :
      Ensured s reg orders pph
        (.ok (s.withCopy pph source id), reg'.updateInfo id (adaptedTo info pph))
  | panicked {src : PerPeerHeader} {source : PeerState} (hnew : s.peerStates.get pph = none)
      (hsource : s.peerStates.get src = some source) (hinfo : reg.get source.ingressId = none) :
      Ensured s reg orders pph (.error .panicked, reg)
  | unknown (err : String) (hnew : s.peerStates.get pph = none) :
      Ensured s reg orders pph (.error (.invalidMessage err (some false)), reg)

theorem ensured_synthesize {src : PerPeerHeader} {source : PeerState}
    (hnew : s.peerStates.get pph = none) (hsrc : src.sameIdentity pph = true)
    (hsource : s.peerStates.get src = some source) (err : String) :
    Ensured s reg orders pph (s.synthesize reg orders pph source err) := by
  unfold synthesize
  split
  next hinfo => exact .panicked hnew hsource hinfo
  next info hinfo =>
    have hadd (id : IngressId) : s.peerStates.addClonedPeerConfig source pph id =
        (true, s.peerStates.insert pph { source with ingressId := id, synthesized := true }) := by
      simp [PeerStates.addClonedPeerConfig, hnew]
    simp only [hadd, if_true]
    exact .synthesized hnew hsrc hsource hinfo rfl

theorem ensurePeer_cases (s : Session) (reg : Register) (orders : IterOrders)
    (pph : PerPeerHeader) : Ensured s reg orders pph (s.ensurePeer reg orders pph) := by
  unfold ensurePeer
  split
  next st hget => exact .known (by rw [hget]; rfl)
  next hnew =>
    split
    next source hsource =>
      exact ensured_synthesize hnew pph.sameIdentity_nulledFlags hsource _
    · split
      next source hsource =>
        obtain ⟨src, hfind, hget⟩ := Option.bind_eq_some_iff.mp hsource
        obtain ⟨_, hid, _⟩ := findSiblingPph_eq_some hfind
        exact ensured_synthesize hnew hid hget _
      · exact .unknown _ hnew

theorem isSome_of_ensurePeer {s' : Session} {reg' : Register}
    (h : s.ensurePeer reg orders pph = (.ok s', reg')) : (s'.peerStates.get pph).isSome := by
  have hcases := s.ensurePeer_cases reg orders pph
  rw [h] at hcases
  cases hcases with
  | known hknown => exact hknown
  | synthesized => simp [withCopy]

/-- A message that is no teardown: it withdraws no ingress. -/
def Keeps : MessageType → Prop
  | .routingUpdate (.bulk _) | .invalidMessage .. | .stateTransition => True
  | _ => False

theorem routesOf_cases (s : Session) (pph : PerPeerHeader) (update : BgpUpdate) :
    Keeps (s.routesOf pph update).1 ∧ (s.routesOf pph update).2.ingressId = s.ingressId ∧
      PeerStates.EditedAt pph s.peerStates (s.routesOf pph update).2.peerStates := by
  unfold routesOf
  split
  · exact ⟨trivial, rfl, .refl ..⟩
  · split
    · exact ⟨trivial, rfl, .refl ..⟩
    · refine ⟨trivial, rfl, ?_⟩
      dsimp only
      split
      · split
        · exact editedAt_addPendingEor ..
        · exact .refl ..
      · exact .refl ..

/-- The state around a session: Dumping or Updating. -/
def wrap (dumping : Bool) (s : Session) : BmpState :=
  if dumping then .dumping s else .updating s

theorem peerStates_wrap (dumping : Bool) (s : Session) :
    (wrap dumping s).peerStates = s.peerStates := by
  cases dumping <;> rfl

/-- The end of the handling of an update: its End-of-RIB and its routes. -/
def finish (dumping : Bool) (s : Session) (orders : IterOrders) (pph : PerPeerHeader)
    (update : BgpUpdate) : MessageType × BmpState :=
  match update.isEor with
  | none => ((s.routesOf pph update).1, wrap dumping (s.routesOf pph update).2)
  | some afiSafi =>
    let res := s.peerStates.removePendingEor orders.peers pph afiSafi
    let s := { s with peerStates := res.2 }
    if dumping && res.1 then (.stateTransition, .updating s)
    else ((s.routesOf pph update).1, wrap dumping (s.routesOf pph update).2)

/-- The handling of a Route Monitoring message once there is a peer for it. -/
def monitor (dumping : Bool) (s : Session) (orders : IterOrders) (pph : PerPeerHeader)
    (bgpUpdate : SessionConfig → Except String BgpUpdate) : MessageType × BmpState :=
  match s.peerStates.getPeerConfig pph with
  | none => (.panicked, wrap dumping s)
  | some config =>
    match parseUpdate bgpUpdate config with
    | .error _ =>
      (.invalidMessage "Invalid BMP RouteMonitoring BGP UPDATE message" (some true), wrap dumping s)
    | .ok (update, config, retry) =>
      let s := if retry then
          { s with peerStates := s.peerStates.updatePeerConfig pph config }
        else s
      s.finish dumping orders pph update

theorem routeMonitoring_eq (dumping : Bool) (s : Session) (reg : Register) (orders : IterOrders)
    (pph : PerPeerHeader) (bgpUpdate : SessionConfig → Except String BgpUpdate) :
    s.routeMonitoring dumping reg orders pph bgpUpdate =
      match s.ensurePeer reg orders pph with
      | (.error res, reg) => (res, wrap dumping s, reg)
      | (.ok s, reg) => ((s.monitor dumping orders pph bgpUpdate).1,
          (s.monitor dumping orders pph bgpUpdate).2, reg) := by
  unfold routeMonitoring monitor
  rcases s.ensurePeer reg orders pph with ⟨res | s₁, reg'⟩
  · rfl
  · dsimp only
    cases s₁.peerStates.getPeerConfig pph with
    | none => rfl
    | some config =>
      dsimp only
      rcases parseUpdate bgpUpdate config with err | ⟨update, config', retry⟩
      · rfl
      · dsimp only
        generalize (if retry = true then
          { s₁ with peerStates := s₁.peerStates.updatePeerConfig pph config' } else s₁) = s'
        unfold finish
        cases update.isEor with
        | none => rfl
        | some afiSafi =>
          dsimp only
          split <;> rfl

/-- The handling of an UPDATE withdraws nothing and edits its own peer only. -/
def Edits (dumping : Bool) (s : Session) (pph : PerPeerHeader) (res : MessageType)
    (st : BmpState) : Prop :=
  Keeps res ∧ ∃ s₂, s₂.ingressId = s.ingressId ∧
    PeerStates.EditedAt pph s.peerStates s₂.peerStates ∧
    (st = wrap dumping s₂ ∨ st = .updating s₂)

theorem edits_finish (dumping : Bool) (s : Session) (orders : IterOrders) (pph : PerPeerHeader)
    (update : BgpUpdate) :
    s.Edits dumping pph (s.finish dumping orders pph update).1
      (s.finish dumping orders pph update).2 := by
  unfold finish
  cases update.isEor with
  | none =>
    obtain ⟨hkeeps, hid, hroutes⟩ := s.routesOf_cases pph update
    exact ⟨hkeeps, _, hid, hroutes, .inl rfl⟩
  | some afiSafi =>
    let s' := { s with peerStates := (s.peerStates.removePendingEor orders.peers pph afiSafi).2 }
    have hremove : PeerStates.EditedAt pph s.peerStates s'.peerStates :=
      editedAt_removePendingEor _ orders.peers _ _
    dsimp only
    split
    · exact ⟨trivial, s', rfl, hremove, .inr rfl⟩
    · obtain ⟨hkeeps, hid, hroutes⟩ := s'.routesOf_cases pph update
      exact ⟨hkeeps, _, hid, hremove.trans hroutes, .inl rfl⟩

theorem edits_monitor (dumping : Bool) (h : (s.peerStates.get pph).isSome) (orders : IterOrders)
    (bgpUpdate : SessionConfig → Except String BgpUpdate) :
    s.Edits dumping pph (s.monitor dumping orders pph bgpUpdate).1
      (s.monitor dumping orders pph bgpUpdate).2 := by
  obtain ⟨st, hget⟩ := Option.isSome_iff_exists.mp h
  unfold monitor
  rw [PeerStates.getPeerConfig, hget]
  dsimp only [Option.map_some]
  rcases parseUpdate bgpUpdate st.sessionConfig with err | ⟨update, config, retry⟩
  · exact ⟨trivial, s, rfl, .refl .., .inl rfl⟩
  · -- the settings that parsed the message are remembered
    cases retry with
    | false => exact s.edits_finish dumping orders pph update
    | true =>
      obtain ⟨hkeeps, s₂, hid, hedit, hst⟩ := edits_finish dumping
        { s with peerStates := s.peerStates.updatePeerConfig pph config } orders pph update
      exact ⟨hkeeps, s₂, hid, (editedAt_updatePeerConfig ..).trans hedit, hst⟩

/-- Once there is a peer for it, a Route Monitoring message edits that peer only. -/
theorem routeMonitoring_cases (dumping : Bool) (s : Session) (reg : Register) (orders : IterOrders)
    (pph : PerPeerHeader) (bgpUpdate : SessionConfig → Except String BgpUpdate) :
    let res := s.routeMonitoring dumping reg orders pph bgpUpdate
    res.2.2 = (s.ensurePeer reg orders pph).2 ∧
    match (s.ensurePeer reg orders pph).1 with
    | .error err => res.1 = err ∧ res.2.1 = wrap dumping s
    | .ok s₁ => (s₁.peerStates.get pph).isSome ∧ s₁.Edits dumping pph res.1 res.2.1 := by
  rw [routeMonitoring_eq]
  rcases hens : s.ensurePeer reg orders pph with ⟨res | s₁, reg'⟩
  · exact ⟨rfl, rfl, rfl⟩
  · have hsome := isSome_of_ensurePeer hens
    exact ⟨rfl, hsome, edits_monitor dumping hsome orders bgpUpdate⟩

/-- A session never goes back to Initiating. -/
theorem isInitiating_processMsg (dumping : Bool) (s : Session) (reg : Register)
    (orders : IterOrders) (msg : BmpMsg) :
    (s.processMsg dumping reg orders msg).2.1.isInitiating = false := by
  have hwrap (s : Session) : (wrap dumping s).isInitiating = false := by
    cases dumping <;> rfl
  unfold processMsg
  cases msg with
  | routeMonitoring pph bgpUpdate =>
    have hcases := (s.routeMonitoring_cases dumping reg orders pph bgpUpdate).2
    cases hres : (s.ensurePeer reg orders pph).1 with
    | error res =>
      rw [hres] at hcases
      rw [hcases.2]
      exact hwrap s
    | ok s₁ =>
      rw [hres] at hcases
      obtain ⟨_, _, s₂, _, _, hst | hst⟩ := hcases
      · rw [hst]
        exact hwrap s₂
      · rw [hst]
        rfl
  | terminationMessage =>
    simp only [terminate]
    split <;> rfl
  | _ => exact hwrap _

end Session

/-! ## Sequences of messages -/

structure Input where
  register : Register
  orders : IterOrders
  msg : BmpMsg

namespace BmpState

def inSession : BmpState → Bool
  | dumping _ | updating _ => true
  | initiating _ | terminated _ => false

def next (st : BmpState) (e : Input) : BmpState := (st.processMsg e.register e.orders e.msg).2.1

def answer (st : BmpState) (e : Input) : MessageType :=
  (st.processMsg e.register e.orders e.msg).1

def log : BmpState → List Input → List (BmpMsg × MessageType)
  | _, [] => []
  | st, e :: es => (e.msg, st.answer e) :: log (st.next e) es

theorem log_snoc (st : BmpState) (es : List Input) (e : Input) :
    st.log (es ++ [e]) = st.log es ++ [(e.msg, (Lib.Runs.run next st es).answer e)] := by
  induction es generalizing st with
  | nil => rfl
  | cons e' es ih =>
    rw [List.cons_append, log, ih, log]
    rfl

end BmpState

def BmpMsg.monitored : BmpMsg → Option PerPeerHeader
  | .routeMonitoring pph _ => some pph
  | _ => none

/-- The order of the peers covers those of the state and the one that the message is about. -/
def Input.Ordered (e : Input) (st : BmpState) : Prop :=
  st.peerStates.Covers e.orders.peers ∧ ∀ pph ∈ e.msg.monitored, pph ∈ e.orders.peers

/-- The orders of all messages of a sequence are right. -/
def BmpState.OrderedAlong (st : BmpState) (es : List Input) : Prop :=
  ∀ pre e, pre ++ [e] <+: es → e.Ordered (Lib.Runs.run next st pre)

theorem BmpState.orderedAlong_cons {st : BmpState} {e : Input} {es : List Input} :
    st.OrderedAlong (e :: es) ↔ e.Ordered st ∧ (st.next e).OrderedAlong es :=
  Lib.Runs.steps_cons next (P := fun st e => e.Ordered st)

theorem BmpState.orderedAlong_nil (st : BmpState) : st.OrderedAlong [] :=
  Lib.Runs.steps_nil next (P := fun st e => e.Ordered st) st

end Rotonda.BmpIn
