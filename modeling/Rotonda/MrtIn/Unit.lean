import Rotonda.MrtIn.Normalize
import Rotonda.UpdateMessage

/-!
The MRT unit: RIB dumps and update files, one file after the other.

A dump has a table of its peers, and each entry of the table gets an ingress id of its own; update
messages look the id of their peer up in the register.  What the unit sends is kept with the peer
whose record caused it.

* `Iteration`: an order of iteration for every register, as the lookups need it;
* `processFile`: peers and routes of a dump, then messages and state changes;
* `stateChange_exact_iff`: a peer that goes down is withdrawn only if it has no id.
-/

namespace Rotonda.MrtIn

open Lib Lib.Runs

/-! ## Files -/

structure PeerEntry where
  addr : IpAddr
  asn : Asn
  deriving DecidableEq

/-- A route of a dump, for the peer at an index of the table. -/
structure RibEntry where
  afisafi : AfiSafiType
  peerId : Nat
  pfx : Prefix
  rawAttr : Bytes

inductive FsmState where
  | idle
  | connect
  | active
  | openSent
  | openConfirm
  | established
  deriving DecidableEq

structure StateChange where
  peer : PeerEntry
  oldState : FsmState
  newState : FsmState

inductive BgpMsg where
  | update (upd : UpdateMessage)
  | openMessage
  | notification
  | keepalive
  | routeRefresh

structure Message where
  peer : PeerEntry
  bgpMsg : Except String BgpMsg

/-- A record of an update file.  Those with AS numbers of two octets are converted to these. -/
inductive Bgp4Mp where
  | stateChange (sc : StateChange)
  | message (msg : Message)

/-- What the library finds in a file. -/
structure MrtFile where
  peerIndexTable : Except String (List PeerEntry)
  ribEntries : Except String (List RibEntry)
  messages : List Bgp4Mp

inductive MrtError where
  | io
  | parse (e : String)
  | other (e : String)

/-- A file of the queue; it may be impossible to open or to decompress. -/
structure File where
  filename : String
  content : Except MrtError MrtFile

/-- How the processing of a file can end early: with an error or with a panic, which ends the task
that works on the queue. -/
inductive Failure where
  | error (e : MrtError)
  | panicked

/-! ## The unit -/

def Iteration : Type :=
  { order : Register → List IngressId //
    ∀ reg : Register, reg.Numbered → reg.IterOrder (order reg) }

/-- In the order of the ids, for concrete runs. -/
def Iteration.ascending : Iteration :=
  ⟨fun reg => (List.range reg.serial).filter fun id => (reg.get id).isSome, fun reg hnum => by
    refine ⟨List.nodup_range.filter _, fun id => ?_⟩
    rw [List.mem_filter, List.mem_range]
    exact ⟨fun h => h.2, fun h => ⟨hnum id h, h⟩⟩⟩

structure Emission where
  peer : PeerEntry
  update : Update

structure Runner where
  parentId : IngressId
  register : Register
  sent : List Emission
  stopped : Bool

namespace Runner

variable {r : Runner}

def start (reg : Register) (unitName : String) : Runner :=
  let (parentId, reg) := reg.register
  { parentId
    register := reg.updateInfo parentId
      { unitName := some unitName, desc := some "mrt-file-in unit" }
    sent := []
    stopped := false }

def updateData (r : Runner) (peer : PeerEntry) (update : Update) : Runner :=
  { r with sent := r.sent ++ [⟨peer, update⟩] }

def peerInfo (r : Runner) (peer : PeerEntry) : IngressInfo where
  parentIngress := some r.parentId
  remoteAddr := some peer.addr
  remoteAsn := some peer.asn
  ingressType := some .mrt

def registerInfo (r : Runner) (info : IngressInfo) : IngressId × Runner :=
  let (id, reg) := r.register.register
  (id, { r with register := reg.updateInfo id info })

/-! ### Update files -/

def processStateChange (it : Iteration) (r : Runner) (sc : StateChange) : Runner :=
  if sc.oldState = sc.newState then r
  else match sc.oldState, sc.newState with
    | .established, .idle =>
      match r.register.findExistingPeer (it.1 r.register)
          { remoteAddr := some sc.peer.addr, remoteAsn := some sc.peer.asn } with
      | some (ingressId, _) => r.updateData sc.peer (.withdraw ingressId none)
      | none => r
    | _, _ => r

def ingressFor (it : Iteration) (r : Runner) (peer : PeerEntry) : IngressId × Runner :=
  match r.register.findExistingPeer (it.1 r.register) (r.peerInfo peer) with
  | some (id, _) => (id, r)
  | none => r.registerInfo (r.peerInfo peer)

def processMessage (it : Iteration) (r : Runner) (msg : Message) : Runner × Option Failure :=
  match msg.bgpMsg with
  | .error _ => (r, none)
  | .ok (.update upd) =>
    match upd.explodeAnnouncements, upd.explodeWithdrawals with
    | .error e, _ | _, .error e => (r, some (.error (.parse e)))
    | .ok reach, .ok unreach =>
      let (id, r) := r.ingressFor it msg.peer
      (r.updateData msg.peer
        (.bulk (reach.map (⟨·, id, .active⟩) ++ unreach.map (⟨·, id, .withdrawn⟩))), none)
  | .ok .openMessage | .ok .notification | .ok .keepalive | .ok .routeRefresh => (r, none)

def processRecord (r : Runner) (record : Bgp4Mp × Iteration) : Runner × Option Failure :=
  match record.1 with
  | .stateChange sc => (r.processStateChange record.2 sc, none)
  | .message msg => r.processMessage record.2 msg

/-! ### Dumps -/

/-- The loop over the peer index table: the map from its indices to ids. -/
def registerPeers (filename : String) :
    List PeerEntry → Runner → List (PeerEntry × IngressId) →
      Runner × List (PeerEntry × IngressId)
  | [], r, ingressMap => (r, ingressMap)
  | peer :: peers, r, ingressMap =>
    let (id, r) := r.registerInfo { r.peerInfo peer with filename := some filename }
    registerPeers filename peers r (ingressMap ++ [(peer, id)])

/-- Parse info of messages with AS numbers of four octets. -/
def modern (rawAttr : Bytes) : RotondaPaMap := ⟨RovStatus.notChecked.toByte, 1, rawAttr⟩

/-- The route of an entry; `none` for a family that is skipped.  The text of a failed conversion is
the library's. -/
def toRoute (e : RibEntry) : Except Failure (Option RotondaRoute) :=
  match e.afisafi with
  | .ipv4Unicast =>
    if h : e.pfx.family = .v4 then .ok (some (.ipv4Unicast ⟨e.pfx, h⟩ (modern e.rawAttr)))
    else .error (.error (.other "not an IPv4 prefix"))
  | .ipv6Unicast =>
    match normalizeMrtMpReach e.rawAttr 2 1 e.pfx with
    | none => .error .panicked
    | some rawAttr =>
      if h : e.pfx.family = .v6 then .ok (some (.ipv6Unicast ⟨e.pfx, h⟩ (modern rawAttr)))
      else .error (.error (.other "not an IPv6 prefix"))
  | .ipv4Multicast | .ipv6Multicast | .other .. => .ok none

def processRibEntry (ingressMap : List (PeerEntry × IngressId)) (r : Runner) (e : RibEntry) :
    Runner × Option Failure :=
  match toRoute e with
  | .error failure => (r, some failure)
  | .ok none => (r, none)
  | .ok (some rr) =>
    match ingressMap[e.peerId]? with
    | none => (r, some .panicked)
    | some (peer, id) => (r.updateData peer (.single ⟨rr, id, .active⟩), none)

/-- The first part of a file; a file without a peer index table has none. -/
def processDump (filename : String) (file : MrtFile) (r : Runner) : Runner × Option Failure :=
  match file.peerIndexTable with
  | .error _ => (r, none)
  | .ok table =>
    let (r, ingressMap) := registerPeers filename table r []
    match file.ribEntries with
    | .error e => (r, some (.error (.parse e)))
    | .ok entries => runUntil (processRibEntry ingressMap) r entries

/-- A file; `its n` is the order in which the map is iterated for the `n`th record. -/
def processFile (r : Runner) (file : File) (its : Nat → Iteration) : Runner × Option Failure :=
  match file.content with
  | .error e => (r, some (.error e))
  | .ok content =>
    match processDump file.filename content r with
    | (r, some failure) => (r, some failure)
    | (r, none) =>
      runUntil processRecord r (content.messages.zipIdx.map fun (record, n) => (record, its n))

/-- The next file of the queue. -/
def step (r : Runner) (item : File × (Nat → Iteration)) : Runner :=
  if r.stopped then r
  else match r.processFile item.1 item.2 with
    | (r, some .panicked) => { r with stopped := true }
    | (r, _) => r

/-! ## Ids of a peer -/

/-- The id is one of the peer's under this unit. -/
def IsPeer (r : Runner) (peer : PeerEntry) (id : IngressId) : Prop :=
  ∃ info, r.register.get id = some info ∧ info.parentIngress = some r.parentId ∧
    info.remoteAddr = some peer.addr ∧ info.remoteAsn = some peer.asn

theorem get_registerInfo (hnum : r.register.Numbered) (hun : r.register.Unwrapped)
    (info : IngressInfo) (id : IngressId) : (r.registerInfo info).2.register.get id =
      if id = r.register.serial then some info else r.register.get id := by
  have hget : (r.registerInfo info).2.register.get id =
      (r.register.register.2.updateInfo r.register.register.1 info).get id := rfl
  rw [hget, hun.register, Register.get_updateInfo, Register.get_register, Register.get_register,
    hnum.get_serial, Option.elim_none]

theorem numbered_registerInfo (hnum : r.register.Numbered) (info : IngressInfo) :
    (r.registerInfo info).2.register.Numbered :=
  hnum.register.updateInfo r.register.register_lt info

variable {peer : PeerEntry}

/-- A peer that is registered gets the next id, and the other ids stay. -/
theorem isPeer_registerInfo_iff (hnum : r.register.Numbered) (hun : r.register.Unwrapped)
    {info : IngressInfo} (hparent : info.parentIngress = some r.parentId)
    (haddr : info.remoteAddr = some peer.addr) (hasn : info.remoteAsn = some peer.asn)
    (peer' : PeerEntry) (id : IngressId) :
    (r.registerInfo info).2.IsPeer peer' id ↔
      r.IsPeer peer' id ∨ id = r.register.serial ∧ peer' = peer := by
  have hparentId : (r.registerInfo info).2.parentId = r.parentId := rfl
  simp only [IsPeer, get_registerInfo hnum hun, hparentId]
  by_cases hid : id = r.register.serial
  · subst hid
    have hpeer : info.remoteAddr = some peer'.addr ∧ info.remoteAsn = some peer'.asn ↔
        peer' = peer := by
      rw [haddr, hasn, Option.some.injEq, Option.some.injEq]
      cases peer
      cases peer'
      simp only [PeerEntry.mk.injEq]
      exact ⟨fun h => ⟨h.1.symm, h.2.symm⟩, fun h => ⟨h.1.symm, h.2.symm⟩⟩
    simp [hnum.get_serial, hparent, hpeer]
  · simp [hid]

/-! ## A peer that goes down -/

def down (peer : PeerEntry) : StateChange := ⟨peer, .established, .idle⟩

/-- What handling it has to send: a withdrawal for each id of the peer, and nothing else. -/
def WithdrawsExactly (r : Runner) (peer : PeerEntry) (r' : Runner) : Prop :=
  ∃ emissions, r'.sent = r.sent ++ emissions ∧
    ∀ u, (∃ e ∈ emissions, e.update = u) ↔ ∃ id, r.IsPeer peer id ∧ u = .withdraw id none

/-- The query names no parent, so that it matches no entry. -/
theorem matchesPeer_orphan {query : IngressInfo} (h : query.parentIngress = none)
    (info : IngressInfo) : Register.matchesPeer query info = false := by
  have hparent : Register.mandatory info.parentIngress query.parentIngress = false := by
    rw [h, Register.mandatory]
    cases info.parentIngress <;> rfl
  simp [Register.matchesPeer, hparent]

theorem processStateChange_eq (it : Iteration) (r : Runner) (sc : StateChange) :
    r.processStateChange it sc = r := by
  have hfind : r.register.findExistingPeer (it.1 r.register)
      { remoteAddr := some sc.peer.addr, remoteAsn := some sc.peer.asn } = none := by
    cases h : r.register.findExistingPeer (it.1 r.register)
        { remoteAddr := some sc.peer.addr, remoteAsn := some sc.peer.asn } with
    | none => rfl
    | some found =>
      have hmatch := (Dict.find_eq_some h).2.2
      rw [matchesPeer_orphan rfl] at hmatch
      cases hmatch
  unfold processStateChange
  split
  · rfl
  · split
    · rw [hfind]
    · rfl

theorem not_withdrawsExactly {id : IngressId}
    (hid : r.IsPeer peer id) : ¬ r.WithdrawsExactly peer r := by
  rintro ⟨emissions, hsent, hexact⟩
  have hnil : emissions = [] := by simpa using hsent
  obtain ⟨e, he, _⟩ := (hexact (.withdraw id none)).mpr ⟨id, hid, rfl⟩
  rw [hnil] at he
  cases he

/-- Handling the state change withdraws exactly the ids of the peer if and only if it has none. -/
theorem stateChange_exact_iff (it : Iteration) (r : Runner) (peer : PeerEntry) :
    r.WithdrawsExactly peer (r.processStateChange it (down peer)) ↔ ¬ ∃ id, r.IsPeer peer id := by
  rw [processStateChange_eq]
  constructor
  · rintro hexact ⟨id, hid⟩
    exact not_withdrawsExactly hid hexact
  · intro hnone
    refine ⟨[], by simp, fun u => ⟨?_, ?_⟩⟩
    · rintro ⟨e, he, _⟩
      cases he
    · rintro ⟨id, hid, _⟩
      exact absurd ⟨id, hid⟩ hnone

/-! ### A peer of a dump -/

def peer65000 : PeerEntry := ⟨.v4 192 0 2 1, 65000⟩

def dumpOf (peers : List PeerEntry) : File :=
  ⟨"rib.mrt", .ok ⟨.ok peers, .ok [⟨.ipv4Unicast, 0, .slash8 10, []⟩], []⟩⟩

def dumped : Runner := (start .new "mrt-in").step (dumpOf [peer65000], fun _ => .ascending)

/-- The peer of the dump has an id, its route was sent under it, and nothing is withdrawn when the
peer goes down. -/
theorem down_not_withdrawn :
    dumped.IsPeer peer65000 2 ∧
      dumped.sent.map Emission.update = [.single (.slash8 10 2 .active)] ∧
      (dumped.processStateChange .ascending (down peer65000)).sent = dumped.sent ∧
      ¬ dumped.WithdrawsExactly peer65000
        (dumped.processStateChange .ascending (down peer65000)) := by
  have hpeer : dumped.IsPeer peer65000 2 := ⟨_, rfl, rfl, rfl, rfl⟩
  rw [processStateChange_eq]
  exact ⟨hpeer, rfl, rfl, not_withdrawsExactly hpeer⟩

end Runner

end Rotonda.MrtIn
