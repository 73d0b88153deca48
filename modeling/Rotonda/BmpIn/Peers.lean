import Rotonda.Payload

/-!
The peers of one BMP session: per-peer headers and what the state machine keeps for each.

* `PerPeerHeader`: the header without its timestamps, which its equality ignores; the policy and
  RIB-type flags stand apart, since the state machine clears them;
* `PeerStates`: the map of peers, with the operations of the state machine on it.
-/

namespace Rotonda.BmpIn

open Lib

structure PerPeerHeader where
  peerType : PeerType
  /-- The flag for post-policy routes. -/
  isPostPolicy : Bool
  /-- The flag for Adj-RIB-Out. -/
  adjRibOut : Bool
  otherFlags : UInt8
  distinguisher : Distinguisher
  address : IpAddr
  asn : Asn
  bgpId : UInt32
  deriving DecidableEq

namespace PerPeerHeader

def adjRibType (pph : PerPeerHeader) : RibType :=
  if pph.adjRibOut then .adjRibOut else .adjRibIn

def ribType (pph : PerPeerHeader) : RibType :=
  if pph.peerType = .localRibInstance then .locRib else pph.adjRibType

def peerRibType (pph : PerPeerHeader) : PeerRibType := .ofRibType pph.isPostPolicy pph.ribType

/-- The header with the RIB type and policy flags zeroed. -/
def nulledFlags (pph : PerPeerHeader) : PerPeerHeader :=
  { pph with isPostPolicy := false, adjRibOut := false }

/-- Both headers are about the same peer, whatever their flags. -/
def sameIdentity (k pph : PerPeerHeader) : Bool :=
  decide (k.peerType = pph.peerType ∧ k.distinguisher = pph.distinguisher ∧
    k.address = pph.address ∧ k.asn = pph.asn ∧ k.bgpId = pph.bgpId)

/-- The pre-policy header of a peer at 192.0.2.7, for concrete runs. -/
def ofPeer : PerPeerHeader :=
  ⟨.globalInstance, false, false, 0, ⟨[0, 0, 0, 0, 0, 0, 0, 0], rfl⟩, .v4 192 0 2 7, 64500, 1⟩

end PerPeerHeader

/-- The parser settings of a session; the alternative to a failing one differs in the width of
AS numbers. -/
structure SessionConfig where
  fourOctetAsns : Bool
  addpaths : List AfiSafiType
  deriving DecidableEq

def generateAlternateConfig (peerConfig : SessionConfig) : Option SessionConfig :=
  some { peerConfig with fourOctetAsns := !peerConfig.fourOctetAsns }

structure EoRProperties where
  afiSafi : AfiSafiType
  postPolicy : Bool
  adjRibOut : Bool
  deriving DecidableEq

def EoRProperties.new (pph : PerPeerHeader) (afiSafi : AfiSafiType) : EoRProperties :=
  ⟨afiSafi, pph.isPostPolicy, pph.adjRibType = .adjRibOut⟩

structure PeerState where
  sessionConfig : SessionConfig
  eorCapable : Bool
  pendingEors : List EoRProperties
  ingressId : IngressId
  synthesized : Bool
  deriving DecidableEq

abbrev PeerStates := Dict PerPeerHeader PeerState

/-- The orders in which the maps are iterated while one message is handled. -/
structure IterOrders where
  register : List IngressId
  peers : List PerPeerHeader

/-! ## Claiming an ingress -/

/-- Rebind to a known peer that is not connected, or take a fresh id. -/
def claimOrRegister (reg : Register) (order : List IngressId) (query : IngressInfo) :
    IngressId × Option IngressId × Register :=
  match reg.findExistingPeerAndClaim order query with
  | (some (id, _), reg) => (id, some id, reg)
  | (none, reg) => (reg.register.1, none, reg.register.2)

/-- The id is that of an entry that matches and is not connected, or a fresh one. -/
theorem claimOrRegister_cases {reg reg' : Register} {order : List IngressId}
    {query : IngressInfo} {id : IngressId} {existing : Option IngressId}
    (h : claimOrRegister reg order query = (id, existing, reg')) :
    (∃ old, reg.get id = some old ∧ Register.matchesPeer query old = true ∧ existing = some id ∧
      reg' = reg.insert id { old with state := some .connected }) ∨
    (id = reg.register.1 ∧ existing = none ∧ reg' = reg.register.2) := by
  unfold claimOrRegister at h
  split at h
  next id' info reg₁ hclaim =>
    cases h
    obtain ⟨old, hget, hfound, rfl, rfl⟩ := Register.findAndClaim_eq_some hclaim
    exact .inl ⟨old, hget, hfound, rfl, rfl⟩
  next reg₁ hclaim =>
    cases h
    obtain ⟨rfl, _⟩ := Register.findAndClaim_eq_none hclaim
    exact .inr ⟨rfl, rfl, rfl⟩

structure PeerUp where
  pph : PerPeerHeader
  sessionConfig : SessionConfig
  /-- The received OPEN has the graceful restart capability. -/
  gracefulRestart : Bool
  localCapabilities : Bytes
  remoteCapabilities : Bytes
  vrfName : Option String

def PeerUp.query (msg : PeerUp) (bmpIngressId : IngressId) : IngressInfo where
  ingressType := some .bgpViaBmp
  parentIngress := some bmpIngressId
  state := some .connected
  remoteAddr := some msg.pph.address
  remoteAsn := some msg.pph.asn
  ribType := some msg.pph.ribType
  peerRibType := some msg.pph.peerRibType
  peerType := some msg.pph.peerType
  distinguisher := match msg.pph.peerType with
    | .rdInstance | .localInstance | .localRibInstance => some msg.pph.distinguisher
    | .globalInstance | .other _ => none
  vrfName := msg.vrfName
  localCapabilities := some msg.localCapabilities
  remoteCapabilities := some msg.remoteCapabilities

namespace PeerStates

/-- Remember the peer of a Peer Up: whether it was added, the id of a known peer it was rebound
to, the peers and the register.  A peer that is up already leaves both alone. -/
def addPeerConfig (peers : PeerStates) (reg : Register) (order : List IngressId)
    (bmpIngressId : IngressId) (msg : PeerUp) :
    Bool × Option IngressId × PeerStates × Register :=
  if (peers.get msg.pph).isSome then (false, none, peers, reg)
  else
    let query := msg.query bmpIngressId
    let (id, existing, reg) := claimOrRegister reg order query
    let reg := reg.updateInfo id query
    (true, existing,
      peers.insert msg.pph ⟨msg.sessionConfig, msg.gracefulRestart, [], id, false⟩, reg)

def getPeerConfig (peers : PeerStates) (pph : PerPeerHeader) : Option SessionConfig :=
  (peers.get pph).map PeerState.sessionConfig

def getPeerIngressId (peers : PeerStates) (pph : PerPeerHeader) : Option IngressId :=
  (peers.get pph).map PeerState.ingressId

def isPeerEorCapable (peers : PeerStates) (pph : PerPeerHeader) : Option Bool :=
  (peers.get pph).map PeerState.eorCapable

def updatePeerConfig (peers : PeerStates) (pph : PerPeerHeader) (config : SessionConfig) :
    PeerStates :=
  match peers.get pph with
  | some st => peers.insert pph { st with sessionConfig := config }
  | none => peers

def findSiblingPph (peers : PeerStates) (order : List PerPeerHeader) (pph : PerPeerHeader) :
    Option PerPeerHeader :=
  (peers.find order fun k _ => decide (k ≠ pph) && k.sameIdentity pph).map Prod.fst

/-- Copy a peer under another header and id; false when there was one already. -/
def addClonedPeerConfig (peers : PeerStates) (source : PeerState) (dst : PerPeerHeader)
    (ingressId : IngressId) : Bool × PeerStates :=
  ((peers.get dst).isNone,
    peers.insert dst { source with ingressId := ingressId, synthesized := true })

def removePeerIdentitySiblings (peers : PeerStates) (order : List PerPeerHeader)
    (pph : PerPeerHeader) : List PeerState × PeerStates :=
  let removed := peers.select order fun k _ => k.sameIdentity pph
  (removed.map Prod.snd, removed.foldl (fun peers e => peers.erase e.1) peers)

def addPendingEor (peers : PeerStates) (pph : PerPeerHeader) (afiSafi : AfiSafiType) :
    PeerStates :=
  match peers.get pph with
  | some st => peers.insert pph
      { st with pendingEors := st.pendingEors.insert (EoRProperties.new pph afiSafi) }
  | none => peers

/-- Note an End-of-RIB; also whether no peer waits for one any more. -/
def removePendingEor (peers : PeerStates) (order : List PerPeerHeader) (pph : PerPeerHeader)
    (afiSafi : AfiSafiType) : Bool × PeerStates :=
  let peers := match peers.get pph with
    | some st => peers.insert pph
        { st with pendingEors := st.pendingEors.erase (EoRProperties.new pph afiSafi) }
    | none => peers
  ((peers.select order fun _ _ => true).all fun e => e.2.pendingEors.isEmpty, peers)

def disconnectIntoRegister (peers : PeerStates) (order : List PerPeerHeader) (reg : Register) :
    List (IngressId × Option IngressInfo) × Register :=
  let ids := (peers.select order fun _ _ => true).map fun e => e.2.ingressId
  (ids.map fun id => (id, none), ids.foldl (fun reg id =>
    reg.updateInfo id (.withState .disconnected)) reg)

end PeerStates

end Rotonda.BmpIn
