import Rotonda.BmpIn.Peers

/-!
The BMP state machine of one monitored router: Initiating, Dumping, Updating, Terminated.

A message is handled in one step on the state, the ingress register and the message, and yields
what the connection handler makes of it (`MessageType`).  Parsing is the library's: a Route
Monitoring message comes with the result of parsing it under any session configuration.

* `processMsg`: the four states;
* `parseUpdate_eq`: the parse retry tries the peer's configuration and its one alternative.
-/

namespace Rotonda.BmpIn

open Lib

/-- What the handling of a Route Monitoring message reads of a parsed BGP UPDATE. -/
structure BgpUpdate where
  isEor : Option AfiSafiType
  explodeAnnouncements : Except String (List RotondaRoute)
  explodeWithdrawals : Except String (List RotondaRoute)
  /-- The families of the announced NLRI, or an error if one of them cannot be parsed. -/
  announcementsVec : Except String (List AfiSafiType)

inductive BmpMsg where
  /-- The sysName, sysDesc and free-form information of an Initiation, each in order. -/
  | initiationMessage (sysNames sysDescs extra : List String)
  | peerUpNotification (msg : PeerUp)
  | peerDownNotification (pph : PerPeerHeader)
  | routeMonitoring (pph : PerPeerHeader) (bgpUpdate : SessionConfig → Except String BgpUpdate)
  | statisticsReport (pph : PerPeerHeader) (raw : Bytes)
  | terminationMessage
  | routeMirroring (pph : PerPeerHeader)

inductive MessageType where
  /-- The error, without what it quotes of the message, and whether the peer was known. -/
  | invalidMessage (err : String) (knownPeer : Option Bool)
  | other
  | routingUpdate (update : Update)
  | stateTransition
  /-- The task panics on a register entry it takes for granted. -/
  | panicked

/-- What the caller of the state machine sees: the peer knowledge is for its reports only. -/
def MessageType.reported : MessageType → MessageType
  | invalidMessage err _ => invalidMessage err none
  | res => res

/-- What Dumping and Updating carry. -/
structure Session where
  ingressId : IngressId
  sysName : String
  sysDesc : String
  sysExtra : List String
  peerStates : PeerStates

inductive BmpState where
  | initiating (ingressId : IngressId)
  | dumping (session : Session)
  | updating (session : Session)
  | terminated (ingressId : IngressId)

namespace BmpState

def new (sourceId : IngressId) : BmpState := .initiating sourceId

def ingressId : BmpState → IngressId
  | initiating id => id
  | dumping s => s.ingressId
  | updating s => s.ingressId
  | terminated id => id

def isInitiating : BmpState → Bool
  | initiating _ => true
  | _ => false

def peerStates : BmpState → PeerStates
  | dumping s => s.peerStates
  | updating s => s.peerStates
  | initiating _ | terminated _ => .empty

def disconnectIntoRegister (st : BmpState) (order : List PerPeerHeader) (reg : Register) :
    List (IngressId × Option IngressInfo) × Register :=
  match st with
  | dumping s | updating s => s.peerStates.disconnectIntoRegister order reg
  | initiating _ | terminated _ => ([], reg)

end BmpState

/-! ## Parsing with a retry -/

/-- The retry loop: the configurations that are handed to the parser, in order, and the parsed update
with the configuration that parsed it and whether that was a retry, or the error of the last
attempt. -/
def parseLoop (bgpUpdate : SessionConfig → Except String BgpUpdate) :
    Nat → List SessionConfig → SessionConfig → Bool →
      List SessionConfig × Except String (BgpUpdate × SessionConfig × Bool)
  | 0, _, _, _ => ([], .error "out of attempts")
  | fuel + 1, tried, config, retry =>
    match bgpUpdate config with
    | .ok update => ([config], .ok (update, config, retry))
    | .error err =>
      match generateAlternateConfig config with
      | some alt =>
        if alt ∈ config :: tried then ([config], .error err)
        else
          let (attempts, res) := parseLoop bgpUpdate fuel (config :: tried) alt true
          (config :: attempts, res)
      | none => ([config], .error err)

/-- The retry loop from the configuration of the peer.  Three rounds are never exceeded. -/
def parseUpdate (bgpUpdate : SessionConfig → Except String BgpUpdate) (config : SessionConfig) :
    Except String (BgpUpdate × SessionConfig × Bool) :=
  (parseLoop bgpUpdate 3 [] config false).2

theorem parseUpdate_eq (bgpUpdate : SessionConfig → Except String BgpUpdate)
    (config : SessionConfig) :
    parseUpdate bgpUpdate config =
      match bgpUpdate config with
      | .ok update => .ok (update, config, false)
      | .error _ =>
        let alt := { config with fourOctetAsns := !config.fourOctetAsns }
        match bgpUpdate alt with
        | .ok update => .ok (update, alt, true)
        | .error err => .error err := by
  obtain ⟨four, addpaths⟩ := config
  rw [parseUpdate, parseLoop]
  cases bgpUpdate ⟨four, addpaths⟩ with
  | ok update => rfl
  | error err =>
    have hne : (⟨!four, addpaths⟩ : SessionConfig) ∉ [⟨four, addpaths⟩] := by
      cases four <;> simp
    simp only [generateAlternateConfig, hne, if_false]
    rw [parseLoop]
    cases bgpUpdate ⟨!four, addpaths⟩ with
    | ok update => rfl
    | error err' => simp [generateAlternateConfig]

/-! ## The messages of a session -/

namespace Session

def initiate (s : Session) (sysNames sysDescs extra : List String) : Session :=
  { s with
    sysName := "|".intercalate sysNames
    sysDesc := "|".intercalate sysDescs
    sysExtra := extra }

def peerUp (s : Session) (reg : Register) (orders : IterOrders) (msg : PeerUp) :
    MessageType × Session × Register :=
  match s.peerStates.addPeerConfig reg orders.register s.ingressId msg with
  | (false, _, _, reg) =>
    (.invalidMessage "PeerUpNotification received for peer that is already 'up'" (some true), s,
      reg)
  | (true, some existing, peers, reg) =>
    (.routingUpdate (.ingressReappeared existing), { s with peerStates := peers }, reg)
  | (true, none, peers, reg) => (.other, { s with peerStates := peers }, reg)

def peerDown (s : Session) (reg : Register) (orders : IterOrders) (pph : PerPeerHeader) :
    MessageType × Session × Register :=
  match s.peerStates.removePeerIdentitySiblings orders.peers pph with
  | ([], _) =>
    (.invalidMessage "PeerDownNotification received for peer that was not 'up'" (some false), s,
      reg)
  | (removed, peers) =>
    let reg := removed.foldl (fun reg peer =>
      reg.updateInfo peer.ingressId (.withState .disconnected)) reg
    let update := match removed with
      | [peer] =>
        if peer.synthesized then Update.withdrawBulk [(peer.ingressId, none)]
        else Update.withdraw peer.ingressId none
      | removed => Update.withdrawBulk (removed.map fun peer => (peer.ingressId, none))
    (.routingUpdate update, { s with peerStates := peers }, reg)

/-- Octets of the common and the per-peer header of a message. -/
def bodyOffset : Nat := 6 + 42

def statisticsReport (s : Session) (pph : PerPeerHeader) (raw : Bytes) : MessageType :=
  match s.peerStates.getPeerIngressId pph with
  | none => .other
  | some id =>
    if raw.length < bodyOffset then .other
    else .routingUpdate (.peerStats id (raw.drop bodyOffset))

/-- Make up the missing peer of a Route Monitoring message from one with other flags. -/
def synthesize (s : Session) (reg : Register) (orders : IterOrders) (pph : PerPeerHeader)
    (source : PeerState) (err : String) : Except MessageType Session × Register :=
  match reg.get source.ingressId with
  | none => (.error .panicked, reg)
  | some info =>
    let adapted := { info with
      ribType := some pph.ribType
      peerRibType := some pph.peerRibType
      state := some .connected }
    let (id, _, reg) := claimOrRegister reg orders.register adapted
    let reg := reg.updateInfo id adapted
    let (added, peers) := s.peerStates.addClonedPeerConfig source pph id
    if added then (.ok { s with peerStates := peers }, reg)
    else (.error (.invalidMessage err (some false)), reg)

/-- The session with a peer for the header: the one it has, one made up from the header without
policy flags, or one made up from any sibling. -/
def ensurePeer (s : Session) (reg : Register) (orders : IterOrders) (pph : PerPeerHeader) :
    Except MessageType Session × Register :=
  match s.peerStates.get pph with
  | some _ => (.ok s, reg)
  | none =>
    match s.peerStates.get pph.nulledFlags with
    | some source => s.synthesize reg orders pph source
        "Could not synthesize PPH/PeerState for RouteMonitoring message lacking PeerUpNotification"
    | none =>
      match (s.peerStates.findSiblingPph orders.peers pph).bind s.peerStates.get with
      | some source => s.synthesize reg orders pph source
          "Could not synthesize PPH/PeerState from sibling for RouteMonitoring"
      | none => (.error (.invalidMessage
          "RouteMonitoring message received for peer that is not 'up'" (some false)), reg)

/-- The payloads of a parsed update, announcements before withdrawals, and the number of
announcements. -/
def extractRouteMonitoringRoutes (s : Session) (pph : PerPeerHeader) (update : BgpUpdate) :
    Except String (List Payload × Nat) := do
  let reach ← update.explodeAnnouncements
  let unreach ← update.explodeWithdrawals
  match s.peerStates.getPeerIngressId pph with
  | some id => return (reach.map (⟨·, id, .active⟩) ++ unreach.map (⟨·, id, .withdrawn⟩),
      reach.length)
  | none => .error "missing ingress_id"

def routesOf (s : Session) (pph : PerPeerHeader) (update : BgpUpdate) : MessageType × Session :=
  match s.extractRouteMonitoringRoutes pph update with
  | .error _ => (.invalidMessage ("Invalid BMP RouteMonitoring BGP UPDATE message. " ++
      "The message cannot be parsed.") (some true), s)
  | .ok (payloads, nValidAnnouncements) =>
    match update.announcementsVec with
    | .error _ => (.invalidMessage ("Invalid BMP RouteMonitoring BGP UPDATE message. " ++
        "One or more elements in the NLRI(s) cannot be parsed") (some true), s)
    | .ok announcements =>
      let peers :=
        if 0 < nValidAnnouncements ∧ s.peerStates.isPeerEorCapable pph = some true then
          match announcements.head? with
          | some afiSafi => s.peerStates.addPendingEor pph afiSafi
          | none => s.peerStates
        else s.peerStates
      (.routingUpdate (.bulk payloads), { s with peerStates := peers })

/-- Route Monitoring in Dumping (`dumping`) or Updating.  The next state is Updating when the
last End-of-RIB arrived during Dumping. -/
def routeMonitoring (dumping : Bool) (s : Session) (reg : Register) (orders : IterOrders)
    (pph : PerPeerHeader) (bgpUpdate : SessionConfig → Except String BgpUpdate) :
    MessageType × BmpState × Register :=
  let wrap := fun s => if dumping then BmpState.dumping s else BmpState.updating s
  match s.ensurePeer reg orders pph with
  | (.error res, reg) => (res, wrap s, reg)
  | (.ok s, reg) =>
    match s.peerStates.getPeerConfig pph with
    | none => (.panicked, wrap s, reg)
    | some config =>
      match parseUpdate bgpUpdate config with
      | .error _ =>
        (.invalidMessage "Invalid BMP RouteMonitoring BGP UPDATE message" (some true), wrap s, reg)
      | .ok (update, config, retry) =>
        let s := if retry then
            { s with peerStates := s.peerStates.updatePeerConfig pph config }
          else s
        match update.isEor with
        | none =>
          let res := s.routesOf pph update
          (res.1, wrap res.2, reg)
        | some afiSafi =>
          let (done, peers) := s.peerStates.removePendingEor orders.peers pph afiSafi
          let s := { s with peerStates := peers }
          if dumping && done then (.stateTransition, .updating s, reg)
          else
            let res := s.routesOf pph update
            (res.1, wrap res.2, reg)

def terminate (s : Session) (reg : Register) (orders : IterOrders) :
    MessageType × BmpState × Register :=
  let (entries, reg) := s.peerStates.disconnectIntoRegister orders.peers reg
  if entries.isEmpty then (.stateTransition, .terminated s.ingressId, reg)
  else (.routingUpdate (.withdrawBulk entries), .terminated s.ingressId, reg)

def processMsg (dumping : Bool) (s : Session) (reg : Register) (orders : IterOrders)
    (msg : BmpMsg) : MessageType × BmpState × Register :=
  let wrap := fun s => if dumping then BmpState.dumping s else BmpState.updating s
  match msg with
  | .initiationMessage names descs extra => (.other, wrap (s.initiate names descs extra), reg)
  | .peerUpNotification msg =>
    let (res, s, reg) := s.peerUp reg orders msg
    (res, wrap s, reg)
  | .peerDownNotification pph =>
    let (res, s, reg) := s.peerDown reg orders pph
    (res, wrap s, reg)
  | .routeMonitoring pph bgpUpdate => s.routeMonitoring dumping reg orders pph bgpUpdate
  | .terminationMessage => s.terminate reg orders
  | .statisticsReport pph raw => (s.statisticsReport pph raw, wrap s, reg)
  | .routeMirroring _ => (.other, wrap s, reg)

end Session

/-- The first message: resolve the identity of the router by its name, adopting the id of a known
router that is not connected. -/
def initiatingProcessMsg (ingressId : IngressId) (reg : Register) (orders : IterOrders)
    (msg : BmpMsg) : MessageType × BmpState × Register :=
  match msg with
  | .initiationMessage names descs extra =>
    let identity := { (reg.get ingressId).getD {} with
      state := some .connected
      name := some (names.head?.getD "no-sysname")
      desc := some (descs.head?.getD "no-sysdesc") }
    let (resolved, reg) := match reg.findExistingBmpRouterAndClaim orders.register identity with
      | (some (existing, _), reg) =>
        if existing ≠ ingressId then (existing, reg.updateInfo existing identity)
        else (ingressId, reg.updateInfo ingressId identity)
      | (none, reg) => (ingressId, reg.updateInfo ingressId identity)
    let s : Session := ⟨resolved, "", "", [], .empty⟩
    (.stateTransition, .dumping (s.initiate names descs extra), reg)
  | _ => (.invalidMessage "RFC 7854 4.3 violation: Expected BMP Initiation Message" none,
      .initiating ingressId, reg)

def BmpState.processMsg (st : BmpState) (reg : Register) (orders : IterOrders) (msg : BmpMsg) :
    MessageType × BmpState × Register :=
  let (res, st, reg) := match st with
    | .initiating id => initiatingProcessMsg id reg orders msg
    | .dumping s => s.processMsg true reg orders msg
    | .updating s => s.processMsg false reg orders msg
    | .terminated id => (.invalidMessage ("RFC 7854 4.3 violation: " ++
        "No messages should be received in the terminated state") none, .terminated id, reg)
  (res.reported, st, reg)

end Rotonda.BmpIn
