import Rotonda.Query
import Rotonda.RibUnit.Rib

/-!
Queries of the HTTP API for the routes of a prefix: what the store answers, thinned out by the
filters of the query.

The getters for path attributes, the texts of its types and the compiled filters are the library's:
`Library` lists what is read of them.

* `applyFilter`: the filters one after the other; `applyFilter_eq` says that a record passes them
  together or not at all;
* `searchRoutes`: the query on one of the two stores.
-/

namespace Rotonda

open PrefixStore

def RovStatus.ofByte (b : UInt8) : RovStatus :=
  if b = 1 then .notFound else if b = 2 then .valid else if b = 4 then .invalid else .notChecked

def RotondaPaMap.rovStatus (pa : RotondaPaMap) : RovStatus := .ofByte pa.rpki

abbrev StandardCommunity := UInt32

structure LargeCommunity where
  global : UInt32
  local1 : UInt32
  local2 : UInt32
  deriving DecidableEq, Repr

inductive Include where
  | moreSpecifics
  | lessSpecifics
  deriving DecidableEq, Repr

/-- The parameters of a query; its output format is read by the caller. -/
structure QueryFilter where
  includes : List Include := []
  ingressId : Option IngressId := none
  originAsn : Option Asn := none
  otc : Option Asn := none
  community : Option StandardCommunity := none
  largeCommunity : Option LargeCommunity := none
  ribType : Option PeerRibType := none
  rovStatus : Option RovStatus := none
  peerAsn : Option Asn := none
  peerAddr : Option IpAddr := none
  fieldsPathAttributes : Option (List UInt8) := none
  rotoFunction : Option String := none

/-- A compiled filter: whether it accepts the attributes. -/
abbrev RotoHttpFilter := RotondaPaMap → Bool

structure Library where
  getOtc : RotondaPaMap → Option Asn
  getCommunities : RotondaPaMap → Option (List StandardCommunity)
  getLargeCommunities : RotondaPaMap → Option (List LargeCommunity)
  /-- The origin of the AS path, if it has one and it is a single AS. -/
  getOrigin : RotondaPaMap → Option Asn
  displayAfiSafi : AfiSafiType → String
  displayStoreError : PrefixStoreError → String
  rotoPackage : Option (String → Option RotoHttpFilter)

/-! ## Filters -/

/-- `retain`, if there is something to compare with. -/
def retainIf {α M : Type} (wanted : Option α) (keep : α → Record M → Bool)
    (records : List (Record M)) : List (Record M) :=
  match wanted with
  | some a => records.filter (keep a)
  | none => records

theorem retainIf_eq {α M : Type} (wanted : Option α) (keep : α → Record M → Bool)
    (records : List (Record M)) :
    retainIf wanted keep records = records.filter fun r => wanted.all fun a => keep a r := by
  cases wanted <;> simp [retainIf]

section Filters

variable (lib : Library) (filter : QueryFilter) (info : IngressId → Option IngressInfo)

/-- A comparison with the info of the record's ingress; a record without one passes. -/
def infoPasses (test : IngressInfo → Bool) (r : Record RotondaPaMap) : Bool :=
  ((info r.multiUniqId).map test).getD true

/-- The comparisons with the RPKI status and the path attributes of a record. -/
def attributesPass (r : Record RotondaPaMap) : Bool :=
  (filter.rovStatus.all fun rov => r.metaData.rovStatus == rov) &&
  (filter.otc.all fun otc => some otc == lib.getOtc r.metaData) &&
  (filter.largeCommunity.all fun c =>
    match lib.getLargeCommunities r.metaData with
    | some list => list.contains c
    | none => false) &&
  (filter.community.all fun c =>
    match lib.getCommunities r.metaData with
    | some list => list.contains c
    | none => false) &&
  filter.originAsn.all fun asn => some asn == lib.getOrigin r.metaData

/-- Whether the query compares anything with the attributes. -/
def QueryFilter.onAttributes : Bool :=
  filter.originAsn.isSome || filter.otc.isSome || filter.community.isSome ||
    filter.largeCommunity.isSome || filter.rovStatus.isSome

def applyFilter (roto : Option RotoHttpFilter) (records : List (Record RotondaPaMap)) :
    List (Record RotondaPaMap) :=
  let records := retainIf filter.ingressId (fun id r => r.multiUniqId == id) records
  let records := retainIf filter.ribType
    (fun ribType => infoPasses info fun ii => ii.peerRibType == some ribType) records
  let records := retainIf filter.peerAsn
    (fun asn => infoPasses info fun ii => ii.remoteAsn == some asn) records
  let records := retainIf filter.peerAddr
    (fun addr => infoPasses info fun ii => ii.remoteAddr == some addr) records
  let records := retainIf roto (fun f r => f r.metaData) records
  if filter.onAttributes then records.filter (attributesPass lib filter) else records

/-- A record passes every filter of the query. -/
def passes (roto : Option RotoHttpFilter) (r : Record RotondaPaMap) : Bool :=
  (filter.ingressId.all fun id => r.multiUniqId == id) &&
  (filter.ribType.all fun ribType => infoPasses info (fun ii => ii.peerRibType == some ribType) r) &&
  (filter.peerAsn.all fun asn => infoPasses info (fun ii => ii.remoteAsn == some asn) r) &&
  (filter.peerAddr.all fun addr => infoPasses info (fun ii => ii.remoteAddr == some addr) r) &&
  (roto.all fun f => f r.metaData) &&
  attributesPass lib filter r

theorem attributesPass_of_not_onAttributes (h : filter.onAttributes = false)
    (r : Record RotondaPaMap) : attributesPass lib filter r = true := by
  simp only [QueryFilter.onAttributes, Bool.or_eq_false_iff, Option.isSome_eq_false_iff,
    Option.isNone_iff_eq_none] at h
  obtain ⟨⟨⟨⟨horigin, hotc⟩, hcommunity⟩, hlarge⟩, hrov⟩ := h
  simp [attributesPass, horigin, hotc, hcommunity, hlarge, hrov]

/-- The filters one after the other are one. -/
theorem applyFilter_eq (roto : Option RotoHttpFilter) (records : List (Record RotondaPaMap)) :
    applyFilter lib filter info roto records = records.filter (passes lib filter info roto) := by
  have hattr : ∀ rs : List (Record RotondaPaMap),
      (if filter.onAttributes then rs.filter (attributesPass lib filter) else rs) =
        rs.filter (attributesPass lib filter) := by
    intro rs
    cases hon : filter.onAttributes with
    | true => rfl
    | false =>
      have hall := attributesPass_of_not_onAttributes lib filter hon
      exact (List.filter_eq_self.mpr fun r _ => hall r).symm
  rw [applyFilter, hattr]
  simp only [retainIf_eq, List.filter_filter]
  refine List.filter_congr fun r _ => ?_
  simp only [passes, Bool.and_comm, Bool.and_left_comm]

end Filters

/-! ## The search -/

/-- What else the queries ask of the store: its keys by family, and the prefix that the answer of a
query is for. -/
class SearchStore (S : Type) (M : outParam Type) [PrefixStore S M] [QueryStore S M] where
  prefixesKeysIterFor : Family → S → List Prefix
  matchedPrefix : S → Prefix → QueryOptions → Option Prefix

structure SearchResult where
  pfx : Option Prefix
  queryResult : QueryResult RotondaPaMap
  ingressInfo : IngressId → Option IngressInfo
  queryFilter : QueryFilter

def QueryFilter.options (filter : QueryFilter) : QueryOptions where
  matchType := .exactMatch
  includeWithdrawn := false
  includeLessSpecifics := filter.includes.contains .lessSpecifics
  includeMoreSpecifics := filter.includes.contains .moreSpecifics
  mui := filter.ingressId

/-- The compiled filter that a query names. -/
def Library.rotoFilter (lib : Library) (filter : QueryFilter) :
    Except String (Option RotoHttpFilter) :=
  match filter.rotoFunction with
  | some name => match lib.rotoPackage.bind fun package => package name with
    | some f => .ok (some f)
    | none => .error s!"no roto function '{name}' defined"
  | none => .ok none

namespace Rib

variable {S : Type} [PrefixStore S RotondaPaMap] [QueryStore S RotondaPaMap]
  [SearchStore S RotondaPaMap] (lib : Library)

def storeFor (rib : Rib S) : AfiSafiType → Except String S
  | .ipv4Unicast | .ipv6Unicast => .ok rib.unicast
  | .ipv4Multicast | .ipv6Multicast => .ok rib.multicast
  | u => .error s!"address family {lib.displayAfiSafi u} unsupported"

def retainSet (apply : List (Record RotondaPaMap) → List (Record RotondaPaMap))
    (set : List (PrefixRecord RotondaPaMap)) : List (PrefixRecord RotondaPaMap) :=
  (set.map fun pr => { pr with metaData := apply pr.metaData }).filter fun pr =>
    !pr.metaData.isEmpty

def searchRoutes (rib : Rib S) (afisafi : AfiSafiType) (nlri : Prefix) (filter : QueryFilter) :
    Except String SearchResult := do
  let store ← rib.storeFor lib afisafi
  let res := QueryStore.query store nlri filter.options
  let roto ← lib.rotoFilter filter
  match res with
  | .error err => .error (lib.displayStoreError err)
  | .ok res =>
    let info := rib.ingressRegister.get
    let apply := applyFilter lib filter info roto
    return {
      pfx := SearchStore.matchedPrefix store nlri filter.options
      queryResult := {
        records := apply res.records
        moreSpecifics := res.moreSpecifics.map (retainSet apply)
        lessSpecifics := res.lessSpecifics.map (retainSet apply) }
      ingressInfo := info
      queryFilter := filter }

end Rib

end Rotonda
