import Rotonda.BmpOut.Aggregator
import Rotonda.Lib.Runs

/-!
What a BMP client is sent: the initial dump and the handling of one update.

Known peers and cached headers are keyed by ingress id, while headers are built from the register
at the time of each message.  The register changes at any time, so every read of it may see
another one: a handler is given the registers that its reads see, in their order.

* `Client.sendUpdate`: one update, replayed or live;
* `Client.performInitialDump`: Peer Up for all peers, the walk, End-of-RIB.
-/

namespace Rotonda.BmpOut

open Lib Lib.Bytes Lib.Runs

/-! ## Headers -/

structure EmitConfig where
  forwardRouterInfo : Bool
  /-- The hash of the upstream router's id, if the fan-in distinguisher is enabled. -/
  fanInPeerDistinguisher : Option (IngressId → UInt64)

def resolveAdminLabel (cfg : EmitConfig) (reg : Register) (info : IngressInfo) : Option String :=
  if !cfg.forwardRouterInfo then none
  else (info.parentIngress.bind reg.get).bind fun parent =>
    buildAdminLabelJson parent.name parent.desc

def buildPeerInfoForEmit (cfg : EmitConfig) (reg : Register) (info : IngressInfo) : PeerInfo :=
  let peerInfo := { PeerInfo.fromIngressInfo info with
    adminLabel := resolveAdminLabel cfg reg info }
  match cfg.fanInPeerDistinguisher, info.parentIngress with
  | some hash, some parent =>
    peerInfo.applyFanInDistinguisher (PeerInfo.fanInDistinguisherTag hash parent)
  | _, _ => peerInfo

/-- The header key of an entry; the register at large only adds a label. -/
def headerKey (cfg : EmitConfig) (info : IngressInfo) : Bytes :=
  (buildPeerInfoForEmit cfg Register.new info).key

@[simp] theorem key_buildPeerInfoForEmit (cfg : EmitConfig) (reg : Register) (info : IngressInfo) :
    (buildPeerInfoForEmit cfg reg info).key = headerKey cfg info := by
  unfold headerKey buildPeerInfoForEmit
  cases cfg.fanInPeerDistinguisher with
  | none => rfl
  | some hash =>
    cases info.parentIngress with
    | none => rfl
    | some parent =>
      simp only [PeerInfo.applyFanInDistinguisher]
      split <;> rfl

/-! ## The client -/

/-- What the handlers read of the world: the registers that their reads see, one after the other,
and the clock of the nth message. -/
structure World where
  cfg : EmitConfig
  regs : Nat → Register
  clock : Nat → Clock

/-- `announced` and `peerUps` are history only and no function reads them: the header key of the
Peer Up for an id since its last Peer Down, and the ids of all Peer Ups. -/
structure Client where
  knownPeers : Dict IngressId Unit
  peerInfoCache : Dict IngressId PeerInfo
  sent : List Bytes
  announced : Dict IngressId Bytes
  peerUps : List IngressId

namespace Client

def new : Client := ⟨.empty, .empty, [], .empty, []⟩

def knows (c : Client) (id : IngressId) : Bool := (c.knownPeers.get id).isSome

def addKnownPeer (c : Client) (id : IngressId) : Client :=
  { c with knownPeers := c.knownPeers.insert id () }

def removeKnownPeer (c : Client) (id : IngressId) : Client :=
  { c with
    knownPeers := c.knownPeers.erase id
    peerInfoCache := c.peerInfoCache.erase id
    announced := c.announced.erase id }

def send (c : Client) (w : World) (build : Clock → Bytes) : Client :=
  { c with sent := c.sent ++ [build (w.clock c.sent.length)] }

def sendPeerUp (c : Client) (w : World) (id : IngressId) (peer : PeerInfo)
    (gracefulRestart : Bool) : Client :=
  { c.send w fun now => buildPeerUp now peer gracefulRestart with
    announced := c.announced.insert id peer.key
    peerUps := c.peerUps ++ [id] }

/-- Mark a peer as known; if it was not, and the register has it, send its Peer Up.  The reads
are those with number `n` and `n + 1`. -/
def introduce (c : Client) (w : World) (n : Nat) (id : IngressId) : Client :=
  if c.knows id then c
  else
    let c := c.addKnownPeer id
    match (w.regs n).get id with
    | some info => c.sendPeerUp w id (buildPeerInfoForEmit w.cfg (w.regs (n + 1)) info) false
    | none => c

/-! ## Updates -/

def sendRoute (c : Client) (w : World) (peer : PeerInfo) (payload : Payload) : Client :=
  let isWithdrawal := payload.routeStatus = .withdrawn
  match buildRouteMonitoringFromRoute (w.clock c.sent.length) peer payload.rxValue isWithdrawal with
  | some msg => c.send w fun _ => msg
  | none => c

def sendPayload (c : Client) (w : World) (payload : Payload) : Client :=
  let id := payload.ingressId
  match c.peerInfoCache.get id with
  | some peer => c.sendRoute w peer payload
  | none =>
    let c := c.introduce w 0 id
    let peer := buildPeerInfoForEmit w.cfg (w.regs 3) (((w.regs 2).get id).getD {})
    let c := if ((w.regs 4).get id).isSome then
        { c with peerInfoCache := c.peerInfoCache.insert id peer }
      else c
    c.sendRoute w peer payload

def sendPeerStats (c : Client) (w : World) (id : IngressId) (body : Bytes) : Client :=
  let c := c.introduce w 0 id
  match (w.regs 2).get id with
  | some info =>
    let peer := buildPeerInfoForEmit w.cfg (w.regs 3) info
    c.send w fun now => buildStatisticsReport now peer body
  | none => c

def sendPeerDown (c : Client) (w : World) (id : IngressId) (snapshot : Option IngressInfo) :
    Client :=
  if c.knows id then
    let info := snapshot.getD (((w.regs 0).get id).getD {})
    let peer := buildPeerInfoForEmit w.cfg (w.regs 1) info
    (c.send w fun now => buildPeerDown now peer).removeKnownPeer id
  else c

def sendPeerReappeared (c : Client) (w : World) (id : IngressId) : Client :=
  match (w.regs 0).get id with
  | some info =>
    if c.knows id then c
    else (c.addKnownPeer id).sendPeerUp w id
      (buildPeerInfoForEmit w.cfg (w.regs 1) info) false
  | none => c

end Client

/-- One thing an update asks of a client. -/
inductive Request where
  | payload (p : Payload)
  | peerDown (id : IngressId) (snapshot : Option IngressInfo)
  | reappeared (id : IngressId)
  | peerStats (id : IngressId) (body : Bytes)

def requests : Update → List Request
  | .single p => [.payload p]
  | .bulk ps => ps.map .payload
  | .withdraw id _ => [.peerDown id none]
  | .withdrawBulk entries => entries.map fun e => .peerDown e.1 e.2
  | .ingressReappeared id => [.reappeared id]
  | .peerStats id body => [.peerStats id body]
  | _ => []

def Client.handle (c : Client) (w : World) : Request → Client
  | .payload p => c.sendPayload w p
  | .peerDown id snapshot => c.sendPeerDown w id snapshot
  | .reappeared id => c.sendPeerReappeared w id
  | .peerStats id body => c.sendPeerStats w id body

def Client.step (c : Client) (e : World × Request) : Client := c.handle e.1 e.2

def requestsIn (worlds : Nat → World) (u : Update) : List (World × Request) :=
  (requests u).zipIdx.map fun r => (worlds r.2, r.1)

def Client.sendUpdate (c : Client) (worlds : Nat → World) (u : Update) : Client :=
  run Client.step c (requestsIn worlds u)

def Client.sendUpdates (c : Client) (us : List ((Nat → World) × Update)) : Client :=
  run (fun c e => c.sendUpdate e.1 e.2) c us

theorem Client.sendUpdates_eq_run (c : Client) (us : List ((Nat → World) × Update)) :
    c.sendUpdates us = run Client.step c (us.flatMap fun e => requestsIn e.1 e.2) := by
  induction us generalizing c with
  | nil => rfl
  | cons e us ih =>
    rw [List.flatMap_cons, run_append]
    exact ih (c.sendUpdate e.1 e.2)

/-! ## The initial dump -/

def isPeerType (t : Option IngressType) : Bool :=
  t = some .bgpViaBmp || t = some .bgp || t = some .mrt

/-- The filter of the enumeration: peers that are connected, and all MRT replays. -/
def peerFilter (t : IngressType) (info : IngressInfo) : Bool :=
  info.ingressType = some t && (t = .mrt || info.state = some .connected)

/-- What the dump is given besides the world: the orders in which the register is iterated, the
hash of attribute blobs, whether the consumer takes the nth message of the walk, the order of the
final flush and the name and description of the system. -/
structure DumpArgs where
  orders : Nat → List IngressId
  hash : Bytes → UInt64
  accepts : Nat → Bool
  flushOrder : List AggKey
  sysName : String
  sysDescr : String

def dumpPeers (w : World) (orders : Nat → List IngressId) : List (IngressId × IngressInfo) :=
  (w.regs 0).search (orders 0) (peerFilter .bgpViaBmp) ++
    (w.regs 1).search (orders 1) (peerFilter .bgp) ++
    (w.regs 2).search (orders 2) (peerFilter .mrt)

def dumpPeerUps (w : World) : Nat → List (IngressId × IngressInfo) → Client →
    Dict IngressId PeerInfo → Client × Dict IngressId PeerInfo
  | _, [], c, infos => (c, infos)
  | n, (id, info) :: peers, c, infos =>
    let peer := buildPeerInfoForEmit w.cfg (w.regs n) info
    dumpPeerUps w (n + 1) peers ((c.sendPeerUp w id peer true).addKnownPeer id)
      (infos.insert id peer)

/-- The walk over the RIB: the aggregator, the peers found on the way, what went to the consumer
and the number of the next read. -/
structure Walk where
  agg : RouteAggregator
  discovered : List (IngressId × PeerInfo)
  sent : Sent
  reads : Nat

def Walk.add (st : Walk) (hash : Bytes → UInt64) (sink : Sink) (call : AddCall) :
    Except Sent Walk :=
  (st.agg.add hash sink call st.sent).map fun r => { st with agg := r.1, sent := r.2 }

/-- One stored route.  A peer that was not enumerated is looked up, and skipped if it is none. -/
def Walk.record (st : Walk) (hash : Bytes → UInt64) (sink : Sink) (w : World) (call : AddCall) :
    Except Sent Walk :=
  if st.agg.hasPeer call.ingressId then st.add hash sink call
  else match ((w.regs st.reads).get call.ingressId).filter fun info => isPeerType info.ingressType with
    | some info => do
      let peer := buildPeerInfoForEmit w.cfg (w.regs (st.reads + 1)) info
      let sent ← sink.push st.sent (fun now => buildPeerUp now peer false) 0
      Walk.add ⟨st.agg.insertPeer call.ingressId peer,
        st.discovered ++ [(call.ingressId, peer)], sent, st.reads + 2⟩ hash sink call
    | none => .ok { st with reads := st.reads + 1 }

def Walk.records (hash : Bytes → UInt64) (sink : Sink) (w : World) :
    List AddCall → Walk → Except Sent Walk
  | [], st => .ok st
  | call :: calls, st => do
    let st ← st.record hash sink w call
    Walk.records hash sink w calls st

def walkRib (args : DumpArgs) (sink : Sink) (w : World) (maxBytes n : Nat)
    (infos : Dict IngressId PeerInfo) (calls : List AddCall) : Except Sent Walk := do
  let st ← Walk.records args.hash sink w calls ⟨.new maxBytes infos, [], [], n⟩
  let (agg, sent) ← st.agg.flushAll sink args.flushOrder st.sent
  return { st with agg := agg, sent := sent }

def dumpAggregatorMaxBytes : Nat := 256 * 1024 * 1024

namespace Client

def sendEndOfRib (c : Client) (w : World) (peer : PeerInfo) : Client :=
  (c.send w fun now => buildEorIpv4 now peer).send w fun now =>
    buildEorMpUnreach now peer .ipv6Unicast

def endEnumerated (w : World) (infos : Dict IngressId PeerInfo) (c : Client)
    (entry : IngressId × IngressInfo) : Client :=
  match infos.get entry.1 with
  | some peer => c.sendEndOfRib w peer
  | none => c

/-- A peer found by the walk becomes known now; its Peer Up is already sent. -/
def endDiscovered (w : World) (c : Client) (entry : IngressId × PeerInfo) : Client :=
  (c.addKnownPeer entry.1).sendEndOfRib w entry.2

/-- The messages of the walk, and the history of the Peer Ups among them. -/
def forward (c : Client) (sent : Sent) (discovered : List (IngressId × PeerInfo)) : Client :=
  { c with
    sent := c.sent ++ sent.map Prod.fst
    announced := discovered.foldl (fun m e => m.insert e.1 e.2.key) c.announced
    peerUps := c.peerUps ++ discovered.map Prod.fst }

/-- The dump up to the buffered updates, over the routes that the walk reads.  The flag says
whether the client is still there. -/
def performInitialDump (c : Client) (args : DumpArgs) (w : World) (calls : List AddCall) :
    Client × Bool :=
  let c := c.send w fun _ => buildInitiationMessage args.sysName args.sysDescr
  let peers := dumpPeers w args.orders
  let (c, infos) := dumpPeerUps w 3 peers c .empty
  let sink : Sink := ⟨fun i => w.clock (c.sent.length + i), args.accepts⟩
  match walkRib args sink w dumpAggregatorMaxBytes (3 + peers.length) infos calls with
  | .error sent => (c.forward sent [], false)
  | .ok st =>
    let c := peers.foldl (endEnumerated w infos) (c.forward st.sent st.discovered)
    (st.discovered.foldl (endDiscovered w) c, true)

end Client

/-- How a client starts: with a dump, or without a RIB with an Initiation message only. -/
inductive Start where
  | noRib (w : World) (sysName sysDescr : String)
  | dump (w : World) (args : DumpArgs) (calls : List AddCall)

def Start.client : Start → Client × Bool
  | .noRib w sysName sysDescr =>
    (Client.new.send w fun _ => buildInitiationMessage sysName sysDescr, true)
  | .dump w args calls => Client.new.performInitialDump args w calls

end Rotonda.BmpOut
