import Rotonda.BmpIn.Change
import Rotonda.Lib.Ownership

/-!
The BMP task in the steps in which it uses what it shares with other tasks.

Every lock of the register is one call, and so is every update that the task sends and awaits.
Between two calls the state machine is the task's own; where a part of it is given up before the
calls that follow (a Peer Down, a Termination), the program says so (`publish`).

* `Call`: the calls;
* `Steps.handleMsg`, `Steps.accept`: the programs, written after `Connection.handleMsg` and
  `Connection.accept`.
-/

namespace Rotonda.BmpIn

open Lib Lib.Ownership

variable {s : Session} {pph : PerPeerHeader}

inductive Call where
  | findExistingPeerAndClaim (order : List IngressId) (query : IngressInfo)
  | findExistingBmpRouterAndClaim (order : List IngressId) (query : IngressInfo)
  | register
  | get (id : IngressId)
  | updateInfo (id : IngressId) (info : IngressInfo)
  | remove (id : IngressId)
  /-- An update through the gate, which is awaited. -/
  | updateData (update : Update)

namespace Call

abbrev Resp : Call → Type
  | findExistingPeerAndClaim .. | findExistingBmpRouterAndClaim .. =>
    Option (IngressId × IngressInfo)
  | register => IngressId
  | get _ => Option IngressInfo
  | updateInfo .. | remove _ | updateData _ => Unit

def onRegister (reg : Register) : (call : Call) → call.Resp × Register
  | findExistingPeerAndClaim order query => reg.findExistingPeerAndClaim order query
  | findExistingBmpRouterAndClaim order query => reg.findExistingBmpRouterAndClaim order query
  | register => reg.register
  | get id => (reg.get id, reg)
  | updateInfo id info => ((), reg.updateInfo id info)
  | remove id => ((), reg.remove id)
  | updateData _ => ((), reg)

def sends : Call → List Update
  | updateData update => [update]
  | _ => []

/-- A call on the register and on the list of the updates sent so far. -/
def record (s : Register × List Update) (call : Call) : call.Resp × (Register × List Update) :=
  ((call.onRegister s.1).1, (call.onRegister s.1).2, s.2 ++ call.sends)

end Call

/-- The visible state of a BMP task is its connection, once there is one. -/
abbrev Steps (α : Type) := Prog Call Call.Resp (Option Connection) α

/-- The routing update in the answer of the state machine. -/
def MessageType.update : MessageType → Option Update
  | routingUpdate update => some update
  | _ => none

theorem Session.ensurePeer_of_isSome (h : (s.peerStates.get pph).isSome) (reg : Register)
    (orders : IterOrders) : s.ensurePeer reg orders pph = (.ok s, reg) := by
  obtain ⟨st, hst⟩ := Option.isSome_iff_exists.mp h
  rw [ensurePeer, hst]

/-- Once there is a peer for it, a Route Monitoring message has no business with the register. -/
theorem Session.routeMonitoring_of_ensurePeer {s₁ : Session} {reg reg₁ : Register}
    {orders : IterOrders} (h : s.ensurePeer reg orders pph = (.ok s₁, reg₁)) (dumping : Bool)
    (bgpUpdate : SessionConfig → Except String BgpUpdate) (reg' : Register) :
    s.routeMonitoring dumping reg orders pph bgpUpdate =
      ((s₁.routeMonitoring dumping reg' orders pph bgpUpdate).1,
        (s₁.routeMonitoring dumping reg' orders pph bgpUpdate).2.1, reg₁) := by
  rw [routeMonitoring_eq, routeMonitoring_eq, h, ensurePeer_of_isSome (isSome_of_ensurePeer h)]

namespace Steps

def perform (call : Call) : Steps call.Resp := Prog.perform call

def findExistingPeerAndClaim (order : List IngressId) (query : IngressInfo) :
    Steps (Option (IngressId × IngressInfo)) :=
  perform (.findExistingPeerAndClaim order query)

def findExistingBmpRouterAndClaim (order : List IngressId) (query : IngressInfo) :
    Steps (Option (IngressId × IngressInfo)) :=
  perform (.findExistingBmpRouterAndClaim order query)

def register : Steps IngressId := perform .register

def get (id : IngressId) : Steps (Option IngressInfo) := perform (.get id)

def updateInfo (id : IngressId) (info : IngressInfo) : Steps Unit := perform (.updateInfo id info)

def remove (id : IngressId) : Steps Unit := perform (.remove id)

def updateData (update : Update) : Steps Unit := perform (.updateData update)

/-! ## The programs -/

def claimOrRegister (order : List IngressId) (query : IngressInfo) :
    Steps (IngressId × Option IngressId) := do
  match ← findExistingPeerAndClaim order query with
  | some (id, _) => return (id, some id)
  | none =>
    let id ← register
    return (id, none)

def disconnectAll (ids : List IngressId) : Steps Unit :=
  .each (fun id => updateInfo id (.withState .disconnected)) ids

def peerUp (s : Session) (orders : IterOrders) (msg : PeerUp) :
    Steps (Option Update × Session) :=
  if (s.peerStates.get msg.pph).isSome then return (none, s)
  else do
    let query := msg.query s.ingressId
    let (id, existing) ← claimOrRegister orders.register query
    updateInfo id query
    return (existing.map .ingressReappeared,
      { s with
        peerStates := s.peerStates.insert msg.pph
          ⟨msg.sessionConfig, msg.gracefulRestart, [], id, false⟩ })

/-- The removed peers are no longer the session's when they are marked. -/
def peerDown (view : Session → Connection) (s : Session) (orders : IterOrders)
    (pph : PerPeerHeader) : Steps (Option Update × Session) :=
  match s.peerStates.removePeerIdentitySiblings orders.peers pph with
  | ([], _) => return (none, s)
  | (removed, peers) => do
    let s := { s with peerStates := peers }
    .publish (some (view s))
    disconnectAll (removed.map PeerState.ingressId)
    return (some (Session.withdrawalOf removed), s)

/-- What comes of looking for the peer of a Route Monitoring message. -/
inductive Found where
  | panicked
  | missing
  | ready (s : Session)

def synthesize (s : Session) (orders : IterOrders) (pph : PerPeerHeader) (source : PeerState) :
    Steps Found := do
  match ← get source.ingressId with
  | none => return .panicked
  | some info =>
    let adapted := adaptedTo info pph
    let (id, _) ← claimOrRegister orders.register adapted
    updateInfo id adapted
    return .ready (s.withCopy pph source id)

def ensurePeer (s : Session) (orders : IterOrders) (pph : PerPeerHeader) : Steps Found :=
  if (s.peerStates.get pph).isSome then return .ready s
  else
    match (s.peerStates.get pph.nulledFlags).or
        ((s.peerStates.findSiblingPph orders.peers pph).bind s.peerStates.get) with
    | some source => synthesize s orders pph source
    | none => return .missing

/-- A peer that is there leaves the register alone, so the rest may see any. -/
def routeMonitoring (dumping : Bool) (s : Session) (orders : IterOrders) (pph : PerPeerHeader)
    (bgpUpdate : SessionConfig → Except String BgpUpdate) :
    Steps (Option (Option Update × BmpState)) := do
  match ← ensurePeer s orders pph with
  | .panicked => return none
  | .missing => return some (none, if dumping then .dumping s else .updating s)
  | .ready s =>
    let res := s.routeMonitoring dumping .new orders pph bgpUpdate
    return some (res.1.update, res.2.1)

/-- The session is over before its peers are marked. -/
def terminate (view : BmpState → Connection) (s : Session) (orders : IterOrders) :
    Steps (Option Update × BmpState) := do
  let ids := (s.peerStates.select orders.peers fun _ _ => true).map fun e => e.2.ingressId
  .publish (some (view (.terminated s.ingressId)))
  disconnectAll ids
  return (if ids.isEmpty then none else some (.withdrawBulk (ids.map fun id => (id, none))),
    .terminated s.ingressId)

def sessionMsg (dumping : Bool) (view : BmpState → Connection) (s : Session)
    (orders : IterOrders) (msg : BmpMsg) : Steps (Option (Option Update × BmpState)) :=
  let wrap := fun s => if dumping then BmpState.dumping s else BmpState.updating s
  match msg with
  | .initiationMessage names descs extra => return some (none, wrap (s.initiate names descs extra))
  | .peerUpNotification msg => do
    let (update, s) ← peerUp s orders msg
    return some (update, wrap s)
  | .peerDownNotification pph => do
    let (update, s) ← peerDown (fun s => view (wrap s)) s orders pph
    return some (update, wrap s)
  | .routeMonitoring pph bgpUpdate => routeMonitoring dumping s orders pph bgpUpdate
  | .terminationMessage => do
    let res ← terminate view s orders
    return some res
  | .statisticsReport pph raw => return some ((s.statisticsReport pph raw).update, wrap s)
  | .routeMirroring _ => return some (none, wrap s)

def initiatingMsg (ingressId : IngressId) (orders : IterOrders) (msg : BmpMsg) : Steps BmpState :=
  match msg with
  | .initiationMessage names descs extra => do
    let known ← get ingressId
    let identity := { known.getD {} with
      state := some .connected
      name := some (names.head?.getD "no-sysname")
      desc := some (descs.head?.getD "no-sysdesc") }
    let found ← findExistingBmpRouterAndClaim orders.register identity
    let resolved := (found.map Prod.fst).getD ingressId
    updateInfo resolved identity
    let s : Session := ⟨resolved, "", "", [], .empty⟩
    return .dumping (s.initiate names descs extra)
  | _ => return .initiating ingressId

def processMsg (c : Connection) (orders : IterOrders) (msg : BmpMsg) :
    Steps (Option (Option Update × BmpState)) :=
  let view := fun st => { c with stateMachine := st }
  match c.stateMachine with
  | .initiating id => do
    let st ← initiatingMsg id orders msg
    return some (none, st)
  | .dumping s => sessionMsg true view s orders msg
  | .updating s => sessionMsg false view s orders msg
  | .terminated id => return some (none, .terminated id)

def resolveRebind (c : Connection) : Steps Connection :=
  if c.rebindResolved then return c
  else if c.stateMachine.ingressId ≠ c.ingressId then do
    remove c.ingressId
    updateData (.ingressReappeared c.stateMachine.ingressId)
    return { c with ingressId := c.stateMachine.ingressId, rebindResolved := true }
  else return { c with rebindResolved := !c.stateMachine.isInitiating }

def handleMsg (ignorePostPolicyRoutes accepted : Bool) (c : Connection) (orders : IterOrders)
    (msg : BmpMsg) : Steps (Option Connection) :=
  if ignorePostPolicyRoutes && Connection.isPostPolicyRoutes msg then do
    let c ← resolveRebind c
    return some c
  else do
    updateData .outputStream
    if !accepted then
      let c ← resolveRebind c
      return some c
    else
      match ← processMsg c orders msg with
      | none => return none
      | some (update, st) =>
        let c := { c with stateMachine := st }
        .publish (some c)
        .each updateData update.toList
        let c ← resolveRebind c
        return some c

def accept (unitIngressId : IngressId) (addr : IpAddr) : Steps Connection := do
  let id ← register
  updateInfo id
    { parentIngress := some unitIngressId, remoteAddr := some addr, ingressType := some .bmp }
  return ⟨.new id, id, false⟩

end Steps

end Rotonda.BmpIn
