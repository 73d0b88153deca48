import Rotonda.Store
import Rotonda.Ingress.Register

/-!
What the units of a pipeline pass to each other: routes with their path attributes, RTR updates
and the `Update` type that carries both.

* a `RotondaRoute` carries the proof that its prefix belongs to the family of its variant;
* a `RotondaPaMap` keeps the RPKI byte, the parse-info byte and the path attribute blob, so a map
  without the two leading bytes cannot be built.
-/

namespace Rotonda

/-! ## Routes -/

inductive RovStatus where
  | notChecked
  | notFound
  | valid
  | invalid
  deriving DecidableEq, Repr

def RovStatus.toByte : RovStatus → UInt8
  | notChecked => 0
  | notFound => 1
  | valid => 2
  | invalid => 4

/-- The raw bytes of the source: RPKI info, PDU parse info, then the attribute blob. -/
structure RotondaPaMap where
  rpki : UInt8
  ppi : UInt8
  pathAttributes : Bytes
  deriving DecidableEq, Repr

namespace RotondaPaMap

def raw (pa : RotondaPaMap) : Bytes := pa.rpki :: pa.ppi :: pa.pathAttributes

def emptyPathAttributes : RotondaPaMap := ⟨RovStatus.notChecked.toByte, 1, []⟩

def setRpkiInfo (pa : RotondaPaMap) (rov : RovStatus) : RotondaPaMap :=
  { pa with rpki := rov.toByte }

end RotondaPaMap

abbrev PrefixOf (f : Family) := { p : Prefix // p.family = f }

inductive RotondaRoute where
  | ipv4Unicast (nlri : PrefixOf .v4) (pamap : RotondaPaMap)
  | ipv6Unicast (nlri : PrefixOf .v6) (pamap : RotondaPaMap)
  | ipv4Multicast (nlri : PrefixOf .v4) (pamap : RotondaPaMap)
  | ipv6Multicast (nlri : PrefixOf .v6) (pamap : RotondaPaMap)
  deriving DecidableEq, Repr

namespace RotondaRoute

def pfx : RotondaRoute → Prefix
  | ipv4Unicast n _ | ipv6Unicast n _ | ipv4Multicast n _ | ipv6Multicast n _ => n.1

def rotondaPamap : RotondaRoute → RotondaPaMap
  | ipv4Unicast _ pa | ipv6Unicast _ pa | ipv4Multicast _ pa | ipv6Multicast _ pa => pa

/-- Whether the route lives in the multicast store. -/
def multicast : RotondaRoute → Bool
  | ipv4Unicast .. | ipv6Unicast .. => false
  | ipv4Multicast .. | ipv6Multicast .. => true

def setRpkiInfo (rov : RovStatus) : RotondaRoute → RotondaRoute
  | ipv4Unicast n pa => ipv4Unicast n (pa.setRpkiInfo rov)
  | ipv6Unicast n pa => ipv6Unicast n (pa.setRpkiInfo rov)
  | ipv4Multicast n pa => ipv4Multicast n (pa.setRpkiInfo rov)
  | ipv6Multicast n pa => ipv6Multicast n (pa.setRpkiInfo rov)

@[simp] theorem pfx_setRpkiInfo (rov : RovStatus) (rr : RotondaRoute) :
    (rr.setRpkiInfo rov).pfx = rr.pfx := by
  cases rr <;> rfl

@[simp] theorem multicast_setRpkiInfo (rov : RovStatus) (rr : RotondaRoute) :
    (rr.setRpkiInfo rov).multicast = rr.multicast := by
  cases rr <;> rfl

end RotondaRoute

/-- A route update of one ingress.  The trace id and the time of receipt are left out: they are
only logged. -/
structure Payload where
  rxValue : RotondaRoute
  ingressId : IngressId
  routeStatus : RouteStatus
  deriving DecidableEq, Repr

def PrefixOf.slash8 (a : UInt8) : PrefixOf .v4 := ⟨.slash8 a, rfl⟩

def Payload.slash8 (a : UInt8) (id : IngressId) (st : RouteStatus) : Payload :=
  ⟨.ipv4Unicast (.slash8 a) .emptyPathAttributes, id, st⟩

/-! ## RTR -/

inductive RtrAction where
  | announce
  | withdraw
  deriving DecidableEq, Repr

/-- A route origin authorisation as the RTR cache sends it.  Origins with one resolved max-length
are equal, whether it was given or not. -/
structure RouteOrigin where
  pfx : Prefix
  resolvedMaxLen : Nat
  asn : Asn
  maxLen_ok : pfx.len ≤ resolvedMaxLen ∧ resolvedMaxLen ≤ pfx.family.bits
  deriving DecidableEq

/-- An origin without a max-length, for concrete runs. -/
def RouteOrigin.slash8 (a : UInt8) (asn : Asn) : RouteOrigin :=
  ⟨.slash8 a, 8, asn, Nat.le_refl 8, Nat.le_of_ble_eq_true rfl⟩

/-- What the RIB unit reads of a route origin.  When two origins are equal is left to the library
that defines them, so the RTR handling is generic in their type. -/
class RtrOrigin (O : Type) where
  pfx : O → Prefix
  asn : O → Asn
  resolvedMaxLen : O → Nat

instance : RtrOrigin RouteOrigin := ⟨(·.pfx), (·.asn), (·.resolvedMaxLen)⟩

structure RouterKey where
  keyIdentifier : Bytes
  asn : Asn
  keyInfo : Bytes
  deriving DecidableEq

structure Aspa where
  customer : Asn
  providers : List Asn
  deriving DecidableEq

inductive RtrPayload (O : Type) where
  | origin (routeOrigin : O)
  | routerKey (key : RouterKey)
  | aspa (aspa : Aspa)
  deriving DecidableEq

inductive RtrUpdate (O : Type) where
  | full (verbs : List (RtrAction × RtrPayload O))
  | delta (verbs : List (RtrAction × RtrPayload O))
  deriving DecidableEq

/-! ## Updates -/

inductive UpstreamStatus where
  | endOfStream (ingressId : IngressId)
  deriving DecidableEq

inductive Update where
  | single (payload : Payload)
  | bulk (payloads : List Payload)
  | withdraw (ingressId : IngressId) (afisafi : Option AfiSafiType)
  | withdrawBulk (entries : List (IngressId × Option IngressInfo))
  | ingressReappeared (ingressId : IngressId)
  | upstreamStatusChange (status : UpstreamStatus)
  | outputStream
  | rtr (update : RtrUpdate RouteOrigin)
  | peerStats (ingressId : IngressId) (body : Bytes)
  deriving DecidableEq

def Update.payloads : Update → List Payload
  | single p => [p]
  | bulk ps => ps
  | _ => []

end Rotonda
