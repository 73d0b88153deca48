import Rotonda.Lib.Bytes
import Rotonda.Payload

/-!
BMP messages at byte level: per-peer headers, Peer Up and Down, Route Monitoring for one prefix or
for many, End-of-RIB markers and Statistics Reports.

The clock that stamps a header is an argument.  Length fields are computed as the sums that the
builders write and are truncated to their width.

* `PeerInfo.key`: the octets of the per-peer header that identify the peer;
* `filterPaFromRaw`: the path attributes without MP_REACH and MP_UNREACH, and the next hop;
* `buildRouteMonitoring`, `buildAggregatedRouteMonitoring`: the two encoders of routes.
-/

namespace Rotonda.BmpOut

open Lib.Bytes

inductive MsgType where
  | routeMonitoring
  | statisticsReport
  | peerDown
  | peerUp
  | initiation
  | termination
  deriving DecidableEq

def MsgType.code : MsgType → UInt8
  | routeMonitoring => 0
  | statisticsReport => 1
  | peerDown => 2
  | peerUp => 3
  | initiation => 4
  | termination => 5

def bmpVersion : UInt8 := 3
def bmpCommonHeaderLen : Nat := 6
def bmpPerPeerHeaderLen : Nat := 42
def bgpMarker : Bytes := List.replicate 16 0xFF
def bgpMsgOpen : UInt8 := 1
def bgpMsgUpdate : UInt8 := 2
def maxBgpUpdateLen : Nat := 4096

/-! ## Peers -/

structure PeerInfo where
  peerType : PeerType
  peerFlags : UInt8
  peerDistinguisher : Distinguisher
  peerAddress : IpAddr
  peerAsn : Asn
  peerBgpId : { bs : Bytes // bs.length = 4 }
  adminLabel : Option String
  deriving DecidableEq

def zeroDistinguisher : Distinguisher := ⟨List.replicate 8 0, rfl⟩

namespace PeerInfo

def ribTypeFlags : Option PeerRibType → UInt8
  | some .inPost => 0x40
  | some .inPre => 0
  | some .outPost => 0x50
  | some .outPre => 0x10
  | some .loc | none => 0x40

def fromIngressInfo (info : IngressInfo) : PeerInfo :=
  let address := info.remoteAddr.getD (.v4 0 0 0 0)
  { peerType := info.peerType.getD .globalInstance
    peerFlags := (if address.family = .v6 then 0x80 else 0) ||| ribTypeFlags info.peerRibType
    peerDistinguisher := info.distinguisher.getD zeroDistinguisher
    peerAddress := address
    peerAsn := info.remoteAsn.getD 0
    peerBgpId := ⟨List.replicate 4 0, rfl⟩
    adminLabel := none }

def applyFanInDistinguisher (peer : PeerInfo) (tag : Distinguisher) : PeerInfo :=
  if peer.peerDistinguisher = zeroDistinguisher then { peer with peerDistinguisher := tag }
  else peer

/-- The distinguisher that tells the upstream routers apart, from a hash of the router's id; it is
never zero. -/
def fanInDistinguisherTag (hash : IngressId → UInt64) (parentIngressId : IngressId) :
    Distinguisher :=
  let v := hash parentIngressId
  ⟨be64 (if v = 0 then 1 else v).toNat, rfl⟩

def typeCode : PeerType → UInt8
  | .globalInstance => 0
  | .rdInstance => 1
  | .localInstance => 2
  | .localRibInstance => 3
  | .other code => code

def address16 (a : IpAddr) : Bytes :=
  match a.family with
  | .v4 => List.replicate 12 0 ++ a.octets
  | .v6 => a.octets

/-- What identifies a peer in its header: type, flags, distinguisher, address, AS, BGP id. -/
def key (peer : PeerInfo) : Bytes :=
  [typeCode peer.peerType, peer.peerFlags] ++ peer.peerDistinguisher.val ++
    address16 peer.peerAddress ++ be32 peer.peerAsn.toNat ++ peer.peerBgpId.val

theorem length_address16 (a : IpAddr) : (address16 a).length = 16 := by
  have h := a.length_eq
  unfold address16
  cases hf : a.family <;> rw [hf] at h <;> simp [h, Family.octets]

@[simp] theorem length_key (peer : PeerInfo) : peer.key.length = 34 := by
  simp [key, length_address16, peer.peerDistinguisher.property, peer.peerBgpId.property]

end PeerInfo

/-- The time of day that a header is stamped with. -/
structure Clock where
  seconds : UInt32
  micros : UInt32

def writeCommonHeader (msgType : MsgType) (totalLen : Nat) : Bytes :=
  bmpVersion :: be32 totalLen ++ [msgType.code]

def writePerPeerHeader (now : Clock) (peer : PeerInfo) : Bytes :=
  peer.key ++ be32 now.seconds.toNat ++ be32 now.micros.toNat

/-- A message about a peer, with the length that its builder has summed up for the body. -/
def messageOf (msgType : MsgType) (now : Clock) (peer : PeerInfo) (bodyLen : Nat) (body : Bytes) :
    Bytes :=
  writeCommonHeader msgType (bmpCommonHeaderLen + bmpPerPeerHeaderLen + bodyLen) ++
    writePerPeerHeader now peer ++ body

/-- The same with the length of a body that is there already. -/
def peerMessage (msgType : MsgType) (now : Clock) (peer : PeerInfo) (body : Bytes) : Bytes :=
  messageOf msgType now peer body.length body

@[simp] theorem length_writePerPeerHeader (now : Clock) (peer : PeerInfo) :
    (writePerPeerHeader now peer).length = bmpPerPeerHeaderLen := by
  simp [writePerPeerHeader, bmpPerPeerHeaderLen]

theorem length_peerMessage (msgType : MsgType) (now : Clock) (peer : PeerInfo) (body : Bytes) :
    (peerMessage msgType now peer body).length =
      bmpCommonHeaderLen + bmpPerPeerHeaderLen + body.length := by
  simp only [peerMessage, messageOf, writeCommonHeader, List.length_append, List.length_cons,
    length_be32, length_writePerPeerHeader, List.length_nil, bmpCommonHeaderLen]

/-! ## Admin labels -/

/-- Two characters that stand for one: a backslash and a letter or the character itself. -/
def escaped (code : Nat) : List Char := [Char.ofNat 92, Char.ofNat code]

def escapeJsonChar (c : Char) : List Char :=
  match c.toNat with
  | 34 => escaped 34
  | 92 => escaped 92
  | 10 => escaped 110
  | 13 => escaped 114
  | 9 => escaped 116
  | n =>
    if n < 32 ∨ 127 ≤ n ∧ n < 160 then
      let hex := Nat.toDigits 16 n
      escaped 117 ++ List.replicate (4 - hex.length) (Char.ofNat 48) ++ hex
    else [c]

def escapeJsonString (s : String) : String := String.ofList (s.toList.flatMap escapeJsonChar)

/-- The name and description of a router as JSON, unless both are missing or placeholders. -/
def buildAdminLabelJson (name desc : Option String) : Option String :=
  let name := name.filter fun s => s != "no-sysname" && !s.isEmpty
  let desc := desc.filter fun s => s != "no-sysdesc" && !s.isEmpty
  if name.isNone && desc.isNone then none
  else
    let sysName := name.elim "" fun n => "\"sysName\":\"" ++ escapeJsonString n ++ "\""
    let sep := if name.isSome && desc.isSome then "," else ""
    let sysDescr := desc.elim "" fun d => "\"sysDescr\":\"" ++ escapeJsonString d ++ "\""
    some ("\x7b" ++ sysName ++ sep ++ sysDescr ++ "\x7d")

/-! ## Messages without routes -/

def utf8 (s : String) : Bytes := s.toUTF8.data.toList

/-- A type-length-value field of a message. -/
def tlv (typ : Nat) (value : Bytes) : Bytes := be16 typ ++ be16 value.length ++ value

def buildInitiationMessage (sysName sysDescr : String) : Bytes :=
  let totalLen := bmpCommonHeaderLen + (4 + (utf8 sysDescr).length) + (4 + (utf8 sysName).length)
  writeCommonHeader .initiation totalLen ++ tlv 1 (utf8 sysDescr) ++ tlv 2 (utf8 sysName)

/-- A multiprotocol capability for unicast routes. -/
def mpCapability (afi : Nat) : Bytes := [1, 4] ++ be16 afi ++ [0, 1]

def gracefulRestartEntry (afi : Nat) : Bytes := be16 afi ++ [1, 0]

def buildBgpOpen (asn : Asn) (includeIpv6 advertiseGracefulRestart : Bool) : Bytes :=
  let afis := if includeIpv6 then [1, 2] else [1]
  let caps := [65, 4] ++ be32 asn.toNat ++ afis.flatMap mpCapability ++
    (if advertiseGracefulRestart then
      [64, UInt8.ofNat (2 + afis.length * 4)] ++ be16 0 ++ afis.flatMap gracefulRestartEntry
    else [])
  let optParams := [2, UInt8.ofNat caps.length] ++ caps
  let totalLen := 19 + (10 + optParams.length)
  let twoByteAsn := if asn.toNat > 65535 then 23456 else asn.toNat
  bgpMarker ++ be16 totalLen ++ [bgpMsgOpen] ++ [4] ++ be16 twoByteAsn ++ be16 90 ++
    List.replicate 4 0 ++ [UInt8.ofNat optParams.length] ++ optParams

def buildPeerUp (now : Clock) (peer : PeerInfo) (advertiseGracefulRestart : Bool) : Bytes :=
  let sentOpen := buildBgpOpen peer.peerAsn true advertiseGracefulRestart
  let receivedOpen := buildBgpOpen peer.peerAsn true advertiseGracefulRestart
  let adminLabel := (peer.adminLabel.map utf8).filter fun label => label.length ≤ 65535
  let adminLabelTlvLen := adminLabel.elim 0 fun label => 4 + label.length
  let peerUpBodyLen := 16 + 2 + 2 + sentOpen.length + receivedOpen.length + adminLabelTlvLen
  messageOf .peerUp now peer peerUpBodyLen (List.replicate 16 0 ++ be16 0 ++ be16 179 ++ sentOpen ++
    receivedOpen ++ adminLabel.elim [] (tlv 4))

/-- Peer Down with reason "remote system closed, no notification". -/
def buildPeerDown (now : Clock) (peer : PeerInfo) : Bytes := messageOf .peerDown now peer 1 [4]

def buildStatisticsReport (now : Clock) (peer : PeerInfo) (body : Bytes) : Bytes :=
  peerMessage .statisticsReport now peer body

/-! ## Path attributes -/

/-- A path attribute; the extended-length flag says how its length is written. -/
structure Attribute where
  flags : UInt8
  typeCode : UInt8
  value : Bytes
  deriving DecidableEq

namespace Attribute

def extended (a : Attribute) : Bool := a.flags &&& 0x10 ≠ 0

def encode (a : Attribute) : Bytes :=
  [a.flags, a.typeCode] ++
    (if a.extended then be16 a.value.length else [UInt8.ofNat a.value.length]) ++ a.value

def Fits (a : Attribute) : Prop :=
  a.value.length < if a.extended then 65536 else 256

/-- Take one attribute off the front of a blob, if all of it is there. -/
def next : Bytes → Option (Attribute × Bytes)
  | flags :: typeCode :: rest =>
    if flags &&& 0x10 ≠ 0 then
      match rest with
      | hi :: lo :: rest => (splitExact (hi.toNat * 256 + lo.toNat) rest).map fun (value, rest) =>
        (⟨flags, typeCode, value⟩, rest)
      | _ => none
    else
      match rest with
      | len :: rest => (splitExact len.toNat rest).map fun (value, rest) =>
        (⟨flags, typeCode, value⟩, rest)
      | [] => none
  | _ => none

def nextHopOf (value : Bytes) : Option Bytes :=
  match value with
  | _ :: _ :: _ :: nhLen :: rest => if nhLen.toNat ≤ rest.length then some (rest.take nhLen.toNat)
    else none
  | _ => none

end Attribute

/-- The loop over the attributes: the bytes to keep and the last next hop seen. -/
def filterLoop : Nat → Bytes → Bytes → Option Bytes → Bytes × Option Bytes
  | 0, _, result, nextHop => (result, nextHop)
  | fuel + 1, blob, result, nextHop =>
    match Attribute.next blob with
    | none => (result, nextHop)
    | some (a, rest) =>
      if a.typeCode = 14 then filterLoop fuel rest result ((Attribute.nextHopOf a.value).or nextHop)
      else if a.typeCode ≠ 15 then filterLoop fuel rest (result ++ a.encode) nextHop
      else filterLoop fuel rest result nextHop

/-- The path attributes other than MP_REACH and MP_UNREACH, and the next hop of the former. -/
def filterPaFromRaw (raw : Bytes) : Bytes × Option Bytes :=
  if raw.length < 2 then ([], none) else filterLoop (raw.drop 2).length (raw.drop 2) [] none

def filterRawPathAttributes (pamap : RotondaPaMap) : Bytes × Option Bytes :=
  filterPaFromRaw pamap.raw

/-! ## Routes -/

def encodePrefixNlri (p : Prefix) : Bytes := UInt8.ofNat p.len :: p.significant

def nlriEncodedLen (p : Prefix) : Nat := 1 + (p.len + 7) / 8

theorem length_encodePrefixNlri (p : Prefix) : (encodePrefixNlri p).length = nlriEncodedLen p := by
  rw [encodePrefixNlri, List.length_cons, p.significant_length, nlriEncodedLen]
  omega

def bgpHeader (totalLen : Nat) (msgType : UInt8) : Bytes := bgpMarker ++ be16 totalLen ++ [msgType]

/-- An attribute that is optional, with an extended length if it needs one. -/
def optionalAttribute (typeCode : UInt8) (valueLen : Nat) (value : Bytes) : Bytes :=
  if valueLen > 255 then [0x90, typeCode] ++ be16 valueLen ++ value
  else [0x80, typeCode, UInt8.ofNat valueLen] ++ value

def afiOf (p : Prefix) : Nat := if p.isV4 then 1 else 2

/-- The value of an MP_REACH attribute for unicast routes. -/
def mpReachValue (afi : Nat) (nextHop nlri : Bytes) : Bytes :=
  be16 afi ++ [1, UInt8.ofNat nextHop.length] ++ nextHop ++ [0] ++ nlri

def buildMpReachNlri (p : Prefix) (nextHop : Option Bytes) : Bytes :=
  let nlri := encodePrefixNlri p
  let nh := nextHop.getD (List.replicate (if p.isV4 then 4 else 16) 0)
  let valueLen := 2 + 1 + 1 + nh.length + 1 + nlri.length
  optionalAttribute 14 valueLen (mpReachValue (afiOf p) nh nlri)

def buildMpUnreachNlri (p : Prefix) : Bytes :=
  let nlri := encodePrefixNlri p
  optionalAttribute 15 (2 + 1 + nlri.length) (be16 (afiOf p) ++ [1] ++ nlri)

def buildBgpUpdateWithdrawal (p : Prefix) : Bytes :=
  if p.isV4 then
    let nlri := encodePrefixNlri p
    let totalLen := 19 + (2 + nlri.length + 2)
    bgpHeader totalLen bgpMsgUpdate ++ be16 nlri.length ++ nlri ++ be16 0
  else
    let mpUnreach := buildMpUnreachNlri p
    let totalLen := 19 + (2 + 2 + mpUnreach.length)
    bgpHeader totalLen bgpMsgUpdate ++ be16 0 ++ be16 mpUnreach.length ++ mpUnreach

def buildBgpUpdate (p : Prefix) (pamap : RotondaPaMap) (isWithdrawal : Bool) : Option Bytes :=
  if isWithdrawal then some (buildBgpUpdateWithdrawal p)
  else
    let (paBytes, origNextHop) := filterRawPathAttributes pamap
    if p.isV4 then
      let nlri := encodePrefixNlri p
      let totalLen := 19 + (2 + 2 + paBytes.length + nlri.length)
      if totalLen > 65535 then none
      else some (bgpHeader totalLen bgpMsgUpdate ++ be16 0 ++ be16 paBytes.length ++ paBytes ++ nlri)
    else
      let mpReach := buildMpReachNlri p origNextHop
      let totalPaLen := paBytes.length + mpReach.length
      let totalLen := 19 + (2 + 2 + totalPaLen)
      if totalLen > 65535 then none
      else some (bgpHeader totalLen bgpMsgUpdate ++ be16 0 ++ be16 totalPaLen ++ paBytes ++ mpReach)

def buildRouteMonitoring (now : Clock) (peer : PeerInfo) (p : Prefix) (pamap : RotondaPaMap)
    (isWithdrawal : Bool) : Option Bytes :=
  (buildBgpUpdate p pamap isWithdrawal).map (peerMessage .routeMonitoring now peer)

def buildRouteMonitoringFromRoute (now : Clock) (peer : PeerInfo) (route : RotondaRoute)
    (isWithdrawal : Bool) : Option Bytes :=
  buildRouteMonitoring now peer route.pfx route.rotondaPamap isWithdrawal

/-- One message for several prefixes of one family that share their attributes. -/
def buildAggregatedRouteMonitoring (now : Clock) (peer : PeerInfo) (prefixes : List Prefix)
    (paBytes : Bytes) (nextHop : Option Bytes) (isV4 : Bool) : Bytes :=
  let nlri := prefixes.flatMap encodePrefixNlri
  let bgpUpdate :=
    if isV4 then
      let totalLen := 19 + (2 + 2 + paBytes.length + nlri.length)
      bgpHeader totalLen bgpMsgUpdate ++ be16 0 ++ be16 paBytes.length ++ paBytes ++ nlri
    else
      let nh := nextHop.getD (List.replicate 16 0)
      let valueLen := 2 + 1 + 1 + nh.length + 1 + nlri.length
      let mpReachLen := 4 + valueLen
      let totalPaLen := paBytes.length + mpReachLen
      let totalLen := 19 + (2 + 2 + totalPaLen)
      bgpHeader totalLen bgpMsgUpdate ++ be16 0 ++ be16 totalPaLen ++ paBytes ++
        [0x90, 14] ++ be16 valueLen ++ mpReachValue 2 nh nlri
  peerMessage .routeMonitoring now peer bgpUpdate

/-! ## End-of-RIB -/

def afiSafi : AfiSafiType → Nat × UInt8
  | .ipv4Unicast => (1, 1)
  | .ipv6Unicast => (2, 1)
  | .ipv4Multicast => (1, 2)
  | .ipv6Multicast => (2, 2)
  | .other afi safi => (afi.toNat, safi)

def buildEorIpv4 (now : Clock) (peer : PeerInfo) : Bytes :=
  let bgpUpdateLen := 23
  messageOf .routeMonitoring now peer bgpUpdateLen
    (bgpHeader bgpUpdateLen bgpMsgUpdate ++ be16 0 ++ be16 0)

def buildEorMpUnreach (now : Clock) (peer : PeerInfo) (afisafi : AfiSafiType) : Bytes :=
  let mpUnreach := [0x80, 15, 3] ++ be16 (afiSafi afisafi).1 ++ [(afiSafi afisafi).2]
  let bgpUpdateLen := 19 + (2 + 2 + mpUnreach.length)
  messageOf .routeMonitoring now peer bgpUpdateLen
    (bgpHeader bgpUpdateLen bgpMsgUpdate ++ be16 0 ++ be16 mpUnreach.length ++ mpUnreach)

def buildEndOfRibMarker (now : Clock) (peer : PeerInfo) : AfiSafiType → Option Bytes
  | .ipv4Unicast => some (buildEorIpv4 now peer)
  | .ipv6Unicast => some (buildEorMpUnreach now peer .ipv6Unicast)
  | _ => none

end Rotonda.BmpOut
