import Mathlib.Data.List.Forall2
import Rotonda.BmpOut.Decode

/-!
The aggregator that packs the routes of an initial dump into messages for many prefixes.

Routes that share peer, family and attributes wait in one group.  A route leaves its group when
the group would outgrow a BGP message, when another attribute blob with the same hash displaces
it, when the memory budget evicts the fullest groups, or at the final flush.

The hash function, the clock, the answers of the sink and the orders in which the hash map is
iterated are arguments.

* `Accounts`: every route is either in a message, in a group or in hand;
* `RouteAggregator.add_accounts`, `RouteAggregator.flushAll_accounts`: no step loses a route;
* `RouteAggregator.addAll_flushAll_conserves`: all messages together announce what the
  single-route messages would.
-/

namespace Rotonda.BmpOut

open Lib Lib.Bytes List Option Dict

variable {isV4 : Bool} {p : Prefix} {pamap : RotondaPaMap}

def aggMemPerGroup : Nat := 128
def aggMemPerPrefix : Nat := 32

/-! ## The sink -/

/-- What was handed to the sink: messages, each with its number of routes. -/
abbrev Sent := List (Bytes × Nat)

/-- The time at which the nth message is built, and whether the consumer takes it. -/
structure Sink where
  clock : Nat → Clock
  accepts : Nat → Bool

def Sink.accepting (clock : Nat → Clock) : Sink := ⟨clock, fun _ => true⟩

/-- Hand a message to the sink.  An error is the answer `false`, on which every caller returns. -/
def Sink.push (sink : Sink) (sent : Sent) (build : Clock → Bytes) (count : Nat) :
    Except Sent Sent :=
  let sent' := sent ++ [(build (sink.clock sent.length), count)]
  if sink.accepts sent.length then .ok sent' else .error sent'

/-! ## Groups -/

structure AggKey where
  ingressId : IngressId
  isV4 : Bool
  hash : UInt64
  deriving DecidableEq

structure AggGroup where
  raw : Bytes
  isV4 : Bool
  prefixes : List Prefix
  nlriTotal : Nat
  baseLen : Nat

namespace AggGroup

/-- The length of the UPDATE without prefixes. -/
def baseLenOf (pamap : RotondaPaMap) (isV4 : Bool) : Nat :=
  let (paBytes, nextHop) := filterRawPathAttributes pamap
  if isV4 then 19 + 2 + 2 + paBytes.length
  else
    let nhLen := nextHop.elim 16 List.length
    19 + 2 + 2 + paBytes.length + 4 + (2 + 1 + 1 + nhLen + 1)

def new (pamap : RotondaPaMap) (isV4 : Bool) : AggGroup :=
  ⟨pamap.raw, isV4, [], 0, baseLenOf pamap isV4⟩

def blob (g : AggGroup) : Bytes := g.raw.drop 2

def bgpUpdateLen (g : AggGroup) : Nat := g.baseLen + g.nlriTotal

def cost (g : AggGroup) : Nat := aggMemPerGroup + g.prefixes.length * aggMemPerPrefix

def push (g : AggGroup) (p : Prefix) (nlriLen : Nat) : AggGroup :=
  { g with prefixes := g.prefixes ++ [p], nlriTotal := g.nlriTotal + nlriLen }

def resetPrefixes (g : AggGroup) : AggGroup := { g with prefixes := [], nlriTotal := 0 }

def emit (g : AggGroup) (sink : Sink) (peer : PeerInfo) (sent : Sent) : Except Sent Sent :=
  if g.prefixes = [] then .ok sent
  else
    let (paBytes, nextHop) := filterPaFromRaw g.raw
    let nh := if g.isV4 then none else nextHop.or (some (List.replicate 16 0))
    sink.push sent (fun now => buildAggregatedRouteMonitoring now peer g.prefixes paBytes nh g.isV4)
      g.prefixes.length

end AggGroup

/-! ## The aggregator -/

structure RouteAggregator where
  groups : Dict AggKey AggGroup
  peerInfo : Dict IngressId PeerInfo
  bufferedBytes : Nat
  maxBytes : Nat
  groupsCreated : Nat
  budgetEvictions : Nat

/-- The arguments of a call of `add`, with the order in which the map of groups is iterated if the
call evicts. -/
structure AddCall where
  ingressId : IngressId
  pfx : Prefix
  pamap : RotondaPaMap
  order : List AggKey

namespace RouteAggregator

def new (maxBytes : Nat) (peerInfo : Dict IngressId PeerInfo) : RouteAggregator :=
  ⟨.empty, peerInfo, 0, maxBytes, 0, 0⟩

def hasPeer (agg : RouteAggregator) (id : IngressId) : Bool := (agg.peerInfo.get id).isSome

def insertPeer (agg : RouteAggregator) (id : IngressId) (info : PeerInfo) : RouteAggregator :=
  { agg with peerInfo := agg.peerInfo.insert id info }

/-- The keys of the open groups, fullest first.  The sort is stable, and as the order of the map
is arbitrary so is the order of equally full groups. -/
def evictionOrder (agg : RouteAggregator) (order : List AggKey) : List AggKey :=
  let count := fun k => (agg.groups.get k).elim 0 fun g => g.prefixes.length
  order.mergeSort fun k k' => count k' ≤ count k

def evict (agg : RouteAggregator) (k : AggKey) (g : AggGroup) : RouteAggregator :=
  { agg with
    groups := agg.groups.erase k
    bufferedBytes := agg.bufferedBytes - g.cost
    budgetEvictions := agg.budgetEvictions + 1 }

def evictLoop (sink : Sink) (target : Nat) :
    List AggKey → RouteAggregator → Sent → Except Sent (RouteAggregator × Sent)
  | [], agg, sent => .ok (agg, sent)
  | k :: ks, agg, sent =>
    if agg.bufferedBytes ≤ target then .ok (agg, sent)
    else match agg.groups.get k with
      | none => evictLoop sink target ks agg sent
      | some g => do
        let sent ← match agg.peerInfo.get k.ingressId with
          | some peer => g.emit sink peer sent
          | none => .ok sent
        evictLoop sink target ks (agg.evict k g) sent

def evictUntilUnderBudget (agg : RouteAggregator) (sink : Sink) (order : List AggKey)
    (sent : Sent) : Except Sent (RouteAggregator × Sent) :=
  evictLoop sink (agg.maxBytes / 2) (agg.evictionOrder order) agg sent

/-- Take the group of a key out of the map, or open a new one.  A group with other attributes is
flushed. -/
def takeGroup (agg : RouteAggregator) (sink : Sink) (key : AggKey) (peer : PeerInfo)
    (pamap : RotondaPaMap) (sent : Sent) : Except Sent (RouteAggregator × AggGroup × Sent) :=
  match agg.groups.get key with
  | some g =>
    let agg' := { agg with
      groups := agg.groups.erase key
      bufferedBytes := agg.bufferedBytes - g.cost }
    if g.blob = pamap.pathAttributes then .ok (agg', g, sent)
    else do
      let sent ← g.emit sink peer sent
      return ({ agg' with groupsCreated := agg.groupsCreated + 1 }, .new pamap key.isV4, sent)
  | none =>
    .ok ({ agg with groupsCreated := agg.groupsCreated + 1 }, .new pamap key.isV4, sent)

def flushFull (sink : Sink) (group : AggGroup) (peer : PeerInfo) (nlriLen : Nat) (sent : Sent) :
    Except Sent (AggGroup × Sent) :=
  if group.prefixes ≠ [] ∧ group.bgpUpdateLen + nlriLen > maxBgpUpdateLen then do
    let sent ← group.emit sink peer sent
    return (group.resetPrefixes, sent)
  else .ok (group, sent)

/-- A route whose attributes alone fill a message: the single-route builder, if it can. -/
def emitSingle (sink : Sink) (peer : PeerInfo) (p : Prefix) (pamap : RotondaPaMap)
    (sent : Sent) : Except Sent Sent :=
  match buildRouteMonitoring (sink.clock sent.length) peer p pamap false with
  | some msg => sink.push sent (fun _ => msg) 1
  | none => .ok sent

def store (agg : RouteAggregator) (key : AggKey) (group : AggGroup) (p : Prefix) :
    RouteAggregator :=
  let group := group.push p (nlriEncodedLen p)
  { agg with
    groups := agg.groups.insert key group
    bufferedBytes := agg.bufferedBytes + group.cost }

/-- The end of `add`, with the group in hand: the route goes out alone or into its group. -/
def place (agg : RouteAggregator) (sink : Sink) (key : AggKey) (group : AggGroup) (peer : PeerInfo)
    (call : AddCall) (sent : Sent) : Except Sent (RouteAggregator × Sent) :=
  if group.prefixes = [] ∧ group.baseLen + nlriEncodedLen call.pfx > maxBgpUpdateLen then
    (emitSingle sink peer call.pfx call.pamap sent).map (agg, ·)
  else
    let agg := agg.store key group call.pfx
    if agg.bufferedBytes > agg.maxBytes then agg.evictUntilUnderBudget sink call.order sent
    else .ok (agg, sent)

def add (hash : Bytes → UInt64) (sink : Sink) (agg : RouteAggregator) (call : AddCall)
    (sent : Sent) : Except Sent (RouteAggregator × Sent) :=
  match agg.peerInfo.get call.ingressId with
  | none => .ok (agg, sent)
  | some peer => do
    let key : AggKey := ⟨call.ingressId, call.pfx.isV4, hash call.pamap.pathAttributes⟩
    let (agg, group, sent) ← agg.takeGroup sink key peer call.pamap sent
    let (group, sent) ← flushFull sink group peer (nlriEncodedLen call.pfx) sent
    agg.place sink key group peer call sent

/-- A walk over stored routes. -/
def addAll (hash : Bytes → UInt64) (sink : Sink) :
    List AddCall → RouteAggregator → Sent → Except Sent (RouteAggregator × Sent)
  | [], agg, sent => .ok (agg, sent)
  | call :: calls, agg, sent => do
    let (agg, sent) ← agg.add hash sink call sent
    addAll hash sink calls agg sent

def flushLoop (sink : Sink) (agg : RouteAggregator) : List AggKey → Sent → Except Sent Sent
  | [], sent => .ok sent
  | k :: ks, sent =>
    match agg.groups.get k, agg.peerInfo.get k.ingressId with
    | some g, some peer => do
      let sent ← g.emit sink peer sent
      flushLoop sink agg ks sent
    | _, _ => flushLoop sink agg ks sent

/-- Emit every open group, in the order in which the map is drained. -/
def flushAll (agg : RouteAggregator) (sink : Sink) (order : List AggKey) (sent : Sent) :
    Except Sent (RouteAggregator × Sent) := do
  let sent ← flushLoop sink agg order sent
  return ({ agg with groups := .empty, bufferedBytes := 0 }, sent)

end RouteAggregator

/-! ## What a message carries -/

/-- A route as a receiver attributes it: the header of its peer and the announcement. -/
abbrev PeerRoute := Bytes × Announcement

def decodeRoutes (msg : Bytes) : Option (List PeerRoute) :=
  (decodeRouteMonitoring msg).bind fun (peer, view) =>
    if view.withdrawn = [] then some (view.announced.map (peer, ·)) else none

def bgpUpdateOf (msg : Bytes) : Bytes := msg.drop (bmpCommonHeaderLen + bmpPerPeerHeaderLen)

theorem bgpUpdateOf_peerMessage (msgType : MsgType) (now : Clock) (peer : PeerInfo)
    (body : Bytes) : bgpUpdateOf (peerMessage msgType now peer body) = body := by
  have hlen : (writeCommonHeader msgType (bmpCommonHeaderLen + bmpPerPeerHeaderLen + body.length) ++
      writePerPeerHeader now peer).length = bmpCommonHeaderLen + bmpPerPeerHeaderLen := by
    simp [writeCommonHeader, bmpCommonHeaderLen, bmpPerPeerHeaderLen]
  rw [bgpUpdateOf, peerMessage, messageOf, drop_left' hlen]

/-- The message carries these routes, counts them, and is no longer than a BGP message may be
unless it carries one route only. -/
structure Carries (msg : Bytes × Nat) (routes : List PeerRoute) : Prop where
  decodes : decodeRoutes msg.1 = some routes
  count : msg.2 = routes.length
  short : 1 < routes.length → (bgpUpdateOf msg.1).length ≤ maxBgpUpdateLen
  lengths : LengthsExact msg.1

theorem decodeRoutes_of {msg : Bytes} {peer : Bytes} {announced : List Announcement}
    (h : decodeRouteMonitoring msg = some (peer, ⟨announced, []⟩)) :
    decodeRoutes msg = some (announced.map (peer, ·)) := by
  simp [decodeRoutes, h]

variable {g : AggGroup}

namespace AggGroup

/-- The group belongs to its family, its lengths are those of its content, and its message is not
too long. -/
structure Sound (g : AggGroup) (isV4 : Bool) : Prop where
  family : g.isV4 = isV4
  attributes : ∃ pamap : RotondaPaMap, g.raw = pamap.raw ∧ g.baseLen = baseLenOf pamap isV4
  prefixes : ∀ p ∈ g.prefixes, p.isV4 = isV4
  nlri : g.nlriTotal = (g.prefixes.flatMap encodePrefixNlri).length
  short : g.prefixes ≠ [] → g.bgpUpdateLen ≤ maxBgpUpdateLen

/-- A route with the attributes of a raw map. -/
def announcementFrom (raw : Bytes) (p : Prefix) : Announcement :=
  ⟨p, (filterPaFromRaw raw).1,
    if p.isV4 then none else some ((filterPaFromRaw raw).2.getD (List.replicate 16 0))⟩

def routes (g : AggGroup) (peer : PeerInfo) : List PeerRoute :=
  g.prefixes.map fun p => (peer.key, announcementFrom g.raw p)

theorem announcementFrom_raw (pamap : RotondaPaMap) (p : Prefix) :
    announcementFrom pamap.raw p = announcementOf p pamap := rfl

theorem baseLenOf_v6 (pamap : RotondaPaMap) :
    baseLenOf pamap false = 19 + (2 + 2 + ((filterRawPathAttributes pamap).1.length + (4 + (2 + 1 +
      1 + (nextHopFor pamap).length + 1)))) := by
  have hnh : (filterRawPathAttributes pamap).2.elim 16 List.length =
      (nextHopFor pamap).length := by
    rw [nextHopFor]
    cases (filterRawPathAttributes pamap).2 <;> simp
  rw [baseLenOf]
  simp only [Bool.false_eq_true, if_false, hnh]
  omega

theorem sound_new (pamap : RotondaPaMap) (isV4 : Bool) : (new pamap isV4).Sound isV4 where
  family := rfl
  attributes := ⟨pamap, rfl, rfl⟩
  prefixes := nofun
  nlri := rfl
  short := fun h => absurd rfl h

theorem Sound.resetPrefixes (h : g.Sound isV4) : g.resetPrefixes.Sound isV4 where
  family := h.family
  attributes := h.attributes
  prefixes := nofun
  nlri := rfl
  short := fun h => absurd rfl h

theorem Sound.push (h : g.Sound isV4) (hp : p.isV4 = isV4)
    (hshort : g.bgpUpdateLen + nlriEncodedLen p ≤ maxBgpUpdateLen) :
    (g.push p (nlriEncodedLen p)).Sound isV4 where
  family := h.family
  attributes := h.attributes
  prefixes := by
    intro q hq
    rcases mem_append.mp hq with hq | hq
    · exact h.prefixes q hq
    · cases mem_singleton.mp hq
      exact hp
  nlri := by
    have := h.nlri
    simp only [AggGroup.push, flatMap_append, flatMap_singleton, length_append,
      length_encodePrefixNlri]
    omega
  short := fun _ => by
    simp only [bgpUpdateLen, AggGroup.push] at hshort ⊢
    omega

def message (g : AggGroup) (now : Clock) (peer : PeerInfo) : Bytes :=
  buildAggregatedRouteMonitoring now peer g.prefixes (filterPaFromRaw g.raw).1
    (if g.isV4 then none else (filterPaFromRaw g.raw).2.or (some (List.replicate 16 0))) g.isV4

theorem Sound.message_eq (h : g.Sound isV4) (hraw : g.raw = pamap.raw) (now : Clock)
    (peer : PeerInfo) :
    g.message now peer = buildAggregatedRouteMonitoring now peer g.prefixes
      (filterRawPathAttributes pamap).1 (if isV4 then none else some (nextHopFor pamap)) isV4 := by
  have hnh : (filterRawPathAttributes pamap).2.or (some (List.replicate 16 0)) =
      some (nextHopFor pamap) := by
    rw [nextHopFor]
    cases (filterRawPathAttributes pamap).2 <;> rfl
  rw [message, h.family, hraw, ← hnh]
  rfl

theorem Sound.length_message (h : g.Sound isV4) (now : Clock)
    (peer : PeerInfo) : (bgpUpdateOf (g.message now peer)).length = g.bgpUpdateLen := by
  obtain ⟨pamap, hraw, hbase⟩ := h.attributes
  rw [h.message_eq hraw, bgpUpdateLen, hbase, h.nlri]
  cases isV4 with
  | true =>
    simp only [if_true, buildAggregatedRouteMonitoring, bgpUpdateOf_peerMessage, baseLenOf]
    simp [bgpHeader, bgpMarker]
    omega
  | false =>
    rw [baseLenOf_v6]
    simp only [Bool.false_eq_true, if_false, buildAggregatedRouteMonitoring,
      bgpUpdateOf_peerMessage, getD_some]
    simp [bgpHeader, bgpMarker, mpReachValue]
    omega

theorem Sound.carries (h : g.Sound isV4) (hne : g.prefixes ≠ []) (now : Clock) (peer : PeerInfo) :
    Carries (g.message now peer, g.prefixes.length) (g.routes peer) := by
  obtain ⟨pamap, hraw, hbase⟩ := h.attributes
  have hshort := h.short hne
  have hlength : (bgpUpdateOf (g.message now peer)).length ≤ maxBgpUpdateLen := by
    rw [h.length_message]
    exact hshort
  have hroutes : g.routes peer =
      (g.prefixes.map (announcementOf · pamap)).map (peer.key, ·) := by
    simp only [routes, hraw, announcementFrom_raw, List.map_map]
    rfl
  have hdecode : decodeRouteMonitoring (g.message now peer) =
      some (peer.key, ⟨g.prefixes.map (announcementOf · pamap), []⟩) := by
    rw [h.message_eq hraw]
    rw [bgpUpdateLen, hbase, h.nlri, maxBgpUpdateLen] at hshort
    have hpref := h.prefixes
    cases isV4 with
    | true =>
      simp only [baseLenOf, if_true] at hshort
      exact decode_buildAggregatedRouteMonitoring_v4 rfl now peer hpref none (by omega)
    | false =>
      rw [baseLenOf_v6] at hshort
      exact decode_buildAggregatedRouteMonitoring_v6 rfl now peer
        (fun p (hp : p ∈ g.prefixes) => by simp [hpref p hp]) (by omega)
  rw [hroutes]
  exact ⟨decodeRoutes_of hdecode, by simp, fun _ => hlength, lengthsExact_of_decode hdecode⟩

end AggGroup

/-! ## Accounts -/

section Accounts

variable {peers : Dict IngressId PeerInfo} {groups : Dict AggKey AggGroup} {buffered : Nat}
  {sent : Sent} {hand expected : List PeerRoute} {k : AggKey} {g : AggGroup} {peer : PeerInfo}

def heldBy (peers : Dict IngressId PeerInfo) (k : AggKey) (g : AggGroup) : List PeerRoute :=
  (peers.get k.ingressId).elim [] g.routes

/-- The routes expected so far are those in messages, those in hand and those in groups; and the
buffered bytes are the costs of the groups. -/
structure Accounts (peers : Dict IngressId PeerInfo) (groups : Dict AggKey AggGroup)
    (buffered : Nat) (sent : Sent) (hand expected : List PeerRoute) : Prop where
  sound : ∀ k g, groups.get k = some g → g.Sound k.isV4 ∧ (peers.get k.ingressId).isSome
  balance : ∃ order parts, groups.IterOrder order ∧ List.Forall₂ Carries sent parts ∧
    buffered = (groups.flat (fun _ g => [g.cost]) order).sum ∧
    (parts.flatten ++ (hand ++ groups.flat (heldBy peers) order)).Perm expected

theorem accounts_new (peers : Dict IngressId PeerInfo) : Accounts peers .empty 0 [] [] [] :=
  ⟨nofun, [], [], iterOrder_empty, .nil, rfl, .nil⟩

/-- A group is taken out of the map. -/
theorem Accounts.take (h : Accounts peers groups buffered sent hand expected)
    (hg : groups.get k = some g) (hpeer : peers.get k.ingressId = some peer) :
    Accounts peers (groups.erase k) (buffered - g.cost) sent (g.routes peer ++ hand) expected ∧
      g.cost ≤ buffered := by
  obtain ⟨order, parts, horder, hparts, hcost, hperm⟩ := h.balance
  have hcosts := (flat_erase (f := fun _ (g : AggGroup) => [g.cost]) horder hg).sum_nat
  rw [sum_append, sum_singleton, ← hcost] at hcosts
  have hheld := flat_erase (f := heldBy peers) horder hg
  rw [show heldBy peers k g = g.routes peer by simp [heldBy, hpeer]] at hheld
  refine ⟨⟨fun k' g' hg' => ?_, order.erase k, parts, horder.erase k, hparts, by omega, ?_⟩,
    by omega⟩
  · exact h.sound k' g' (of_get_erase hg').2
  · refine List.Perm.trans (List.Perm.append_left _ ?_) hperm
    calc g.routes peer ++ hand ++ (groups.erase k).flat (heldBy peers) (order.erase k)
        |>.Perm (hand ++ g.routes peer ++
          (groups.erase k).flat (heldBy peers) (order.erase k)) :=
          perm_append_comm.append_right _
      _ |>.Perm (hand ++ groups.flat (heldBy peers) order) := by
          rw [append_assoc]
          exact hheld.symm.append_left _

/-- The routes in hand become a group of the map. -/
theorem Accounts.put (h : Accounts peers groups buffered sent (g.routes peer) expected)
    (hk : groups.get k = none) (hpeer : peers.get k.ingressId = some peer) (hsound : g.Sound k.isV4)
    : Accounts peers (groups.insert k g) (buffered + g.cost) sent [] expected := by
  obtain ⟨order, parts, horder, hparts, hcost, hperm⟩ := h.balance
  refine ⟨fun k' g' hg' => ?_, k :: order, parts, horder.insert hk g, hparts, ?_, ?_⟩
  · rcases of_get_insert hg' with ⟨rfl, rfl⟩ | ⟨_, hg'⟩
    · exact ⟨hsound, by simp [hpeer]⟩
    · exact h.sound k' g' hg'
  · rw [flat_insert horder hk, sum_append, sum_singleton, hcost, Nat.add_comm]
  · rw [flat_insert horder hk, show heldBy peers k g = g.routes peer by simp [heldBy, hpeer]]
    exact hperm

/-- A message takes routes out of the hand. -/
theorem Accounts.send {routes : List PeerRoute} {msg : Bytes × Nat}
    (h : Accounts peers groups buffered sent (routes ++ hand) expected) (hmsg : Carries msg routes) :
    Accounts peers groups buffered (sent ++ [msg]) hand expected := by
  obtain ⟨order, parts, horder, hparts, hcost, hperm⟩ := h.balance
  refine ⟨h.sound, order, parts ++ [routes], horder, rel_append hparts (.cons hmsg .nil), hcost, ?_⟩
  simpa using hperm

/-- A route arrives in hand. -/
theorem Accounts.arrive (h : Accounts peers groups buffered sent hand expected)
    (new : List PeerRoute) : Accounts peers groups buffered sent (hand ++ new) (expected ++ new) := by
  obtain ⟨order, parts, horder, hparts, hcost, hperm⟩ := h.balance
  refine ⟨h.sound, order, parts, horder, hparts, hcost, ?_⟩
  refine List.Perm.trans ?_ (hperm.append_right new)
  simp only [append_assoc]
  exact (perm_append_comm.append_left hand).append_left _

end Accounts

/-! ## Steps -/

section Steps

variable {hash : Bytes → UInt64} {clock : Nat → Clock} {agg : RouteAggregator} {sent : Sent}
  {hand expected : List PeerRoute} {peer : PeerInfo}
variable {pa pb : RotondaPaMap}

/-- The attributes of a map depend on its blob only. -/
theorem filterRawPathAttributes_congr (h : pa.pathAttributes = pb.pathAttributes) :
    filterRawPathAttributes pa = filterRawPathAttributes pb := by
  simp [filterRawPathAttributes, filterPaFromRaw, RotondaPaMap.raw, h]

theorem AggGroup.baseLenOf_congr (h : pa.pathAttributes = pb.pathAttributes) (isV4 : Bool) :
    baseLenOf pa isV4 = baseLenOf pb isV4 := by
  simp only [baseLenOf, filterRawPathAttributes_congr h]

structure AggGroup.Collects (g : AggGroup) (pamap : RotondaPaMap) (isV4 : Bool) : Prop where
  sound : g.Sound isV4
  attributes : filterPaFromRaw g.raw = filterRawPathAttributes pamap
  baseLen : g.baseLen = baseLenOf pamap isV4

theorem AggGroup.collects_new (pamap : RotondaPaMap) (isV4 : Bool) :
    (AggGroup.new pamap isV4).Collects pamap isV4 :=
  ⟨sound_new pamap isV4, rfl, rfl⟩

theorem AggGroup.Sound.collects (h : g.Sound isV4)
    (hblob : g.blob = pamap.pathAttributes) : g.Collects pamap isV4 := by
  obtain ⟨pamap', hraw, hbase⟩ := h.attributes
  have hsame : pamap'.pathAttributes = pamap.pathAttributes := by
    rw [← hblob, blob, hraw]
    rfl
  refine ⟨h, ?_, hbase.trans (baseLenOf_congr hsame isV4)⟩
  rw [hraw]
  exact filterRawPathAttributes_congr hsame

theorem AggGroup.routes_push (h : g.Collects pamap isV4) (p : Prefix) (n : Nat) (peer : PeerInfo) :
    (g.push p n).routes peer = g.routes peer ++ [(peer.key, announcementOf p pamap)] := by
  have hlast : announcementFrom g.raw p = announcementOf p pamap := by
    rw [announcementFrom, announcementOf, h.attributes, nextHopFor]
  simp [routes, push, hlast]

variable (clock : Nat → Clock)

theorem AggGroup.emit_accounts {peers : Dict IngressId PeerInfo}
    {groups : Dict AggKey AggGroup} {buffered : Nat} (hsound : g.Sound isV4)
    (h : Accounts peers groups buffered sent (g.routes peer ++ hand) expected) :
    ∃ sent', g.emit (.accepting clock) peer sent = .ok sent' ∧
      Accounts peers groups buffered sent' hand expected := by
  by_cases hempty : g.prefixes = []
  · refine ⟨sent, by rw [emit, if_pos hempty], ?_⟩
    simpa [routes, hempty] using h
  · exact ⟨_, by rw [emit, if_neg hempty]; rfl, h.send (hsound.carries hempty _ peer)⟩

namespace RouteAggregator

variable {group : AggGroup} {order : List AggKey}

/-- What the calls so far expect, in terms of the aggregator. -/
def AccountsFor (agg : RouteAggregator) (sent : Sent) (hand expected : List PeerRoute) : Prop :=
  Accounts agg.peerInfo agg.groups agg.bufferedBytes sent hand expected

def SameConfig (agg agg' : RouteAggregator) : Prop :=
  agg'.peerInfo = agg.peerInfo ∧ agg'.maxBytes = agg.maxBytes

theorem takeGroup_accounts (key : AggKey) (pamap : RotondaPaMap)
    (h : agg.AccountsFor sent [] expected) (hpeer : agg.peerInfo.get key.ingressId = some peer) :
    ∃ agg' g sent', agg.takeGroup (.accepting clock) key peer pamap sent = .ok (agg', g, sent') ∧
      agg.SameConfig agg' ∧ agg'.groups.get key = none ∧ g.Collects pamap key.isV4 ∧
      agg'.AccountsFor sent' (g.routes peer) expected := by
  unfold takeGroup
  cases hg : agg.groups.get key with
  | none => exact ⟨_, _, _, rfl, ⟨rfl, rfl⟩, hg, AggGroup.collects_new .., h⟩
  | some g =>
    have htake := (h.take hg hpeer).1
    have hsound := (h.sound key g hg).1
    have hnone : (agg.groups.erase key).get key = none := by simp [get_erase]
    by_cases hblob : g.blob = pamap.pathAttributes
    · simp only [if_pos hblob]
      exact ⟨_, _, _, rfl, ⟨rfl, rfl⟩, hnone, hsound.collects hblob, by
        simpa [AccountsFor] using htake⟩
    · simp only [if_neg hblob]
      obtain ⟨sent', hemit, hsent'⟩ := AggGroup.emit_accounts clock hsound htake
      rw [hemit]
      exact ⟨_, _, _, rfl, ⟨rfl, rfl⟩, hnone, AggGroup.collects_new .., hsent'⟩

theorem flushFull_accounts (h : agg.AccountsFor sent (group.routes peer) expected)
    (hgroup : group.Collects pamap isV4) (nlriLen : Nat) :
    ∃ g sent', flushFull (.accepting clock) group peer nlriLen sent = .ok (g, sent') ∧
      g.Collects pamap isV4 ∧ agg.AccountsFor sent' (g.routes peer) expected ∧
      (g.prefixes = [] ∧ g.nlriTotal = 0 ∨ g.bgpUpdateLen + nlriLen ≤ maxBgpUpdateLen) := by
  unfold flushFull
  split
  next hfull =>
    rw [← append_nil (group.routes peer)] at h
    obtain ⟨sent', hemit, hsent'⟩ := AggGroup.emit_accounts clock hgroup.sound h
    rw [hemit]
    exact ⟨_, _, rfl, ⟨hgroup.sound.resetPrefixes, hgroup.attributes, hgroup.baseLen⟩, hsent',
      .inl ⟨rfl, rfl⟩⟩
  next hfull =>
    refine ⟨_, _, rfl, hgroup, h, ?_⟩
    by_cases hempty : group.prefixes = []
    · exact .inl ⟨hempty, by rw [hgroup.sound.nlri, hempty]; rfl⟩
    · exact .inr (by simpa [hempty] using hfull)

theorem evictLoop_accounts {target : Nat} (ks : List AggKey)
    (h : agg.AccountsFor sent [] expected) :
    ∃ agg' sent', evictLoop (.accepting clock) target ks agg sent = .ok (agg', sent') ∧
      agg.SameConfig agg' ∧ agg'.AccountsFor sent' [] expected ∧
      (agg'.bufferedBytes ≤ target ∨
        ∀ k, (agg'.groups.get k).isSome → (agg.groups.get k).isSome ∧ k ∉ ks) := by
  induction ks generalizing agg sent with
  | nil => exact ⟨_, _, rfl, ⟨rfl, rfl⟩, h, .inr fun k hk => ⟨hk, nofun⟩⟩
  | cons k ks ih =>
    unfold evictLoop
    split
    next hunder => exact ⟨_, _, rfl, ⟨rfl, rfl⟩, h, .inl hunder⟩
    · cases hg : agg.groups.get k with
      | none =>
        obtain ⟨agg', sent', hloop, hsame, hacc, hleft⟩ := ih h
        refine ⟨agg', sent', hloop, hsame, hacc, hleft.imp_right fun hleft k' hk' => ?_⟩
        obtain ⟨hsome, hnot⟩ := hleft k' hk'
        refine ⟨hsome, not_mem_cons_of_ne_of_not_mem ?_ hnot⟩
        rintro rfl
        simp [hg] at hsome
      | some g =>
        obtain ⟨hsound, hknown⟩ := h.sound k g hg
        obtain ⟨peer, hpeer⟩ := isSome_iff_exists.mp hknown
        obtain ⟨sent₁, hemit, hsent₁⟩ := AggGroup.emit_accounts clock hsound
          (h.take hg hpeer).1
        have hevict : (agg.evict k g).AccountsFor sent₁ [] expected := hsent₁
        obtain ⟨agg', sent', hloop, hsame, hacc, hleft⟩ := ih hevict
        simp only [hpeer, hemit]
        refine ⟨agg', sent', hloop, hsame, hacc, hleft.imp_right fun hleft k' hk' => ?_⟩
        obtain ⟨hsome, hnot⟩ := hleft k' hk'
        simp only [evict, get_erase] at hsome
        split at hsome
        · cases hsome
        next hne => exact ⟨hsome, not_mem_cons_of_ne_of_not_mem hne hnot⟩

/-- The single-route builder can build what fits a group. -/
theorem buildBgpUpdate_isSome
    (h : AggGroup.baseLenOf pamap p.isV4 + nlriEncodedLen p ≤ maxBgpUpdateLen) :
    (buildBgpUpdate p pamap false).isSome := by
  unfold buildBgpUpdate
  simp only [Bool.false_eq_true, if_false]
  cases hv4 : p.isV4 with
  | true =>
    simp only [hv4, AggGroup.baseLenOf, if_true, maxBgpUpdateLen] at h
    rw [if_pos rfl, if_neg (by rw [length_encodePrefixNlri]; omega)]
    rfl
  | false =>
    rw [hv4, AggGroup.baseLenOf_v6, maxBgpUpdateLen] at h
    have hreach : (buildMpReachNlri p (filterRawPathAttributes pamap).2).length ≤
        4 + (2 + 1 + 1 + (nextHopFor pamap).length + 1 + nlriEncodedLen p) := by
      simp only [buildMpReachNlri, optionalAttribute, hv4, Bool.false_eq_true, if_false]
      rw [show (filterRawPathAttributes pamap).2.getD (List.replicate 16 0) = nextHopFor pamap
        from rfl]
      split <;> simp [length_mpReachValue, length_encodePrefixNlri] <;> omega
    rw [if_neg (by simp), if_neg (by omega)]
    rfl

/-- What a call of `add` is to bring: the route, if its peer is known and the single-route builder
does not drop it. -/
def expectedOf (peers : Dict IngressId PeerInfo) (call : AddCall) : List PeerRoute :=
  (peers.get call.ingressId).elim [] fun peer =>
    if (buildBgpUpdate call.pfx call.pamap false).isSome then
      [(peer.key, announcementOf call.pfx call.pamap)]
    else []

theorem emitSingle_accounts (h : agg.AccountsFor sent [] expected) :
    ∃ sent', emitSingle (.accepting clock) peer p pamap sent = .ok sent' ∧
      agg.AccountsFor sent' [] (expected ++ if (buildBgpUpdate p pamap false).isSome then
        [(peer.key, announcementOf p pamap)] else []) := by
  unfold emitSingle
  cases hbuild : buildRouteMonitoring ((Sink.accepting clock).clock sent.length) peer p pamap
      false with
  | none =>
    have hnone := map_eq_none_iff.mp hbuild
    refine ⟨sent, rfl, ?_⟩
    simpa [hnone] using h
  | some msg =>
    obtain ⟨update, hupdate, _⟩ := map_eq_some_iff.mp hbuild
    have hdecode := decode_buildRouteMonitoring hbuild
    refine ⟨sent ++ [(msg, 1)], rfl, ?_⟩
    rw [if_pos (by simp [hupdate])]
    have harrive := h.arrive [(peer.key, announcementOf p pamap)]
    rw [nil_append, ← append_nil [_]] at harrive
    exact harrive.send ⟨decodeRoutes_of hdecode, rfl, fun hlong => by simp at hlong,
      lengthsExact_of_decode hdecode⟩

theorem SameConfig.trans {agg₁ agg₂ agg₃ : RouteAggregator} (h : agg₁.SameConfig agg₂)
    (h' : agg₂.SameConfig agg₃) : agg₁.SameConfig agg₃ :=
  ⟨h'.1.trans h.1, h'.2.trans h.2⟩

/-- The prefix goes into its group and the group back into the map. -/
theorem store_accounts {key : AggKey} {call : AddCall}
    (h : agg.AccountsFor sent (group.routes peer) expected)
    (hpeer : agg.peerInfo.get key.ingressId = some peer) (hnone : agg.groups.get key = none)
    (hv4 : call.pfx.isV4 = key.isV4) (hgroup : group.Collects call.pamap key.isV4)
    (hfits : group.bgpUpdateLen + nlriEncodedLen call.pfx ≤ maxBgpUpdateLen) :
    (agg.store key group call.pfx).AccountsFor sent []
      (expected ++ [(peer.key, announcementOf call.pfx call.pamap)]) := by
  have harrive := h.arrive [(peer.key, announcementOf call.pfx call.pamap)]
  rw [← AggGroup.routes_push hgroup call.pfx (nlriEncodedLen call.pfx)] at harrive
  exact harrive.put hnone hpeer (hgroup.sound.push hv4 hfits)

/-- A group that is not sent around has room for the prefix. -/
theorem fits_of_not_alone {nlriLen : Nat}
    (halone : ¬ (group.prefixes = [] ∧ group.baseLen + nlriLen > maxBgpUpdateLen))
    (hroom : group.prefixes = [] ∧ group.nlriTotal = 0 ∨
      group.bgpUpdateLen + nlriLen ≤ maxBgpUpdateLen) :
    group.bgpUpdateLen + nlriLen ≤ maxBgpUpdateLen := by
  rcases hroom with ⟨hempty, htotal⟩ | hroom
  · rw [AggGroup.bgpUpdateLen, htotal]
    simp only [hempty, true_and] at halone
    omega
  · exact hroom

theorem place_accounts {key : AggKey} {call : AddCall}
    (h : agg.AccountsFor sent (group.routes peer) expected)
    (hpeer : agg.peerInfo.get key.ingressId = some peer) (hnone : agg.groups.get key = none)
    (hv4 : call.pfx.isV4 = key.isV4) (hgroup : group.Collects call.pamap key.isV4)
    (hroom : group.prefixes = [] ∧ group.nlriTotal = 0 ∨
      group.bgpUpdateLen + nlriEncodedLen call.pfx ≤ maxBgpUpdateLen) :
    ∃ agg' sent', agg.place (.accepting clock) key group peer call sent = .ok (agg', sent') ∧
      agg.SameConfig agg' ∧
      agg'.AccountsFor sent' [] (expected ++
        if (buildBgpUpdate call.pfx call.pamap false).isSome then
          [(peer.key, announcementOf call.pfx call.pamap)] else []) := by
  unfold place
  split
  next halone =>
    have hroutes : group.routes peer = [] := by simp [AggGroup.routes, halone.1]
    rw [hroutes] at h
    obtain ⟨sent', hemit, hacc⟩ := emitSingle_accounts clock h
    exact ⟨agg, sent', by rw [hemit]; rfl, ⟨rfl, rfl⟩, hacc⟩
  next halone =>
    have hfits := fits_of_not_alone halone hroom
    have hbuild : (buildBgpUpdate call.pfx call.pamap false).isSome := by
      apply buildBgpUpdate_isSome
      rw [hv4, ← hgroup.baseLen]
      rw [AggGroup.bgpUpdateLen] at hfits
      omega
    rw [if_pos hbuild]
    have hstored := store_accounts h hpeer hnone hv4 hgroup hfits
    dsimp only
    split
    · obtain ⟨agg', sent', hloop, hsame, hacc, _⟩ := evictLoop_accounts clock _ hstored
      exact ⟨agg', sent', hloop, hsame, hacc⟩
    · exact ⟨_, _, rfl, ⟨rfl, rfl⟩, hstored⟩

theorem add_accounts (hash : Bytes → UInt64) (clock : Nat → Clock)
    (h : agg.AccountsFor sent [] expected) (call : AddCall) :
    ∃ agg' sent', agg.add hash (.accepting clock) call sent = .ok (agg', sent') ∧
      agg.SameConfig agg' ∧
      agg'.AccountsFor sent' [] (expected ++ expectedOf agg.peerInfo call) := by
  unfold add expectedOf
  cases hpeer : agg.peerInfo.get call.ingressId with
  | none => exact ⟨agg, sent, rfl, ⟨rfl, rfl⟩, by simpa using h⟩
  | some peer =>
    obtain ⟨agg₁, g₁, sent₁, htake, hsame₁, hnone, hg₁, hacc₁⟩ := takeGroup_accounts clock
      ⟨call.ingressId, call.pfx.isV4, hash call.pamap.pathAttributes⟩ call.pamap h hpeer
    obtain ⟨g₂, sent₂, hflush, hg₂, hacc₂, hroom⟩ :=
      flushFull_accounts clock hacc₁ hg₁ (nlriEncodedLen call.pfx)
    obtain ⟨agg₃, sent₃, hplace, hsame₃, hacc₃⟩ :=
      place_accounts clock hacc₂ (by rw [hsame₁.1]; exact hpeer) hnone rfl hg₂ hroom
    refine ⟨agg₃, sent₃, ?_, hsame₁.trans hsame₃, hacc₃⟩
    simp only [htake, bind, Except.bind, hflush, hplace]

theorem addAll_accounts (hash : Bytes → UInt64) (clock : Nat → Clock) (calls : List AddCall)
    (h : agg.AccountsFor sent [] expected) :
    ∃ agg' sent', addAll hash (.accepting clock) calls agg sent = .ok (agg', sent') ∧
      agg.SameConfig agg' ∧
      agg'.AccountsFor sent' [] (expected ++ calls.flatMap (expectedOf agg.peerInfo)) := by
  induction calls generalizing agg sent expected with
  | nil => exact ⟨agg, sent, rfl, ⟨rfl, rfl⟩, by simpa using h⟩
  | cons call calls ih =>
    obtain ⟨agg₁, sent₁, hadd, hsame₁, hacc₁⟩ := add_accounts hash clock h call
    obtain ⟨agg₂, sent₂, hrest, hsame₂, hacc₂⟩ := ih hacc₁
    refine ⟨agg₂, sent₂, by simp only [addAll, hadd, bind, Except.bind, hrest],
      hsame₁.trans hsame₂, ?_⟩
    rw [hsame₁.1, append_assoc] at hacc₂
    exact hacc₂

theorem evictUntilUnderBudget_bufferedBytes_le
    (h : agg.AccountsFor sent [] expected) (horder : agg.groups.IterOrder order) :
    ∃ agg' sent', agg.evictUntilUnderBudget (.accepting clock) order sent = .ok (agg', sent') ∧
      agg.SameConfig agg' ∧ agg'.AccountsFor sent' [] expected ∧
      agg'.bufferedBytes ≤ agg.maxBytes / 2 := by
  obtain ⟨agg', sent', hloop, hsame, hacc, hleft⟩ :=
    evictLoop_accounts clock (agg.evictionOrder order) h
  refine ⟨agg', sent', hloop, hsame, hacc, hleft.elim id fun hleft => ?_⟩
  -- No group is left, so nothing is buffered.
  obtain ⟨order', _, horder', _, hcost, _⟩ := hacc.balance
  have hempty : order' = [] := by
    rw [eq_nil_iff_forall_not_mem]
    intro k hk
    obtain ⟨hsome, hnot⟩ := hleft k ((horder'.2 k).mp hk)
    exact hnot (mem_mergeSort.mpr ((horder.2 k).mpr hsome))
  rw [hcost, hempty]
  exact Nat.zero_le _

theorem flushLoop_carries
    (hsound : ∀ k g, agg.groups.get k = some g →
      g.Sound k.isV4 ∧ (agg.peerInfo.get k.ingressId).isSome) (ks : List AggKey) (sent : Sent) :
    ∃ new parts, flushLoop (.accepting clock) agg ks sent = .ok (sent ++ new) ∧
      List.Forall₂ Carries new parts ∧
      parts.flatten = agg.groups.flat (heldBy agg.peerInfo) ks := by
  induction ks generalizing sent with
  | nil => exact ⟨[], [], by simp [flushLoop], .nil, rfl⟩
  | cons k ks ih =>
    unfold flushLoop
    cases hg : agg.groups.get k with
    | none =>
      obtain ⟨new, parts, hloop, hnew, hparts⟩ := ih sent
      exact ⟨new, parts, hloop, hnew, by simp [hparts, Dict.flat, hg]⟩
    | some g =>
      obtain ⟨hg', hknown⟩ := hsound k g hg
      obtain ⟨peer, hpeer⟩ := isSome_iff_exists.mp hknown
      simp only [hpeer]
      by_cases hempty : g.prefixes = []
      · obtain ⟨new, parts, hloop, hnew, hparts⟩ := ih sent
        refine ⟨new, parts, by rw [AggGroup.emit, if_pos hempty]; exact hloop, hnew, ?_⟩
        simp [hparts, Dict.flat, hg, heldBy, hpeer, AggGroup.routes, hempty]
      · have hcarries := hg'.carries hempty (clock sent.length) peer
        obtain ⟨new, parts, hloop, hnew, hparts⟩ := ih (sent ++ [_])
        refine ⟨_ :: new, g.routes peer :: parts, ?_, .cons hcarries hnew, ?_⟩
        · rw [AggGroup.emit, if_neg hempty]
          rw [append_assoc] at hloop
          exact hloop
        · simp [hparts, Dict.flat, hg, heldBy, hpeer]

/-- The final flush puts every route that is left into a message. -/
theorem flushAll_accounts (h : agg.AccountsFor sent [] expected)
    (horder : agg.groups.IterOrder order) :
    ∃ agg' out parts, agg.flushAll (.accepting clock) order sent = .ok (agg', out) ∧
      List.Forall₂ Carries out parts ∧ parts.flatten.Perm expected := by
  obtain ⟨order', parts, horder', hparts, _, hperm⟩ := h.balance
  obtain ⟨new, parts', hloop, hnew, hflat⟩ := flushLoop_carries clock h.sound order sent
  refine ⟨_, sent ++ new, parts ++ parts', by
    simp only [flushAll, hloop, bind, Except.bind, pure, Except.pure]; rfl,
    rel_append hparts hnew, ?_⟩
  rw [flatten_append, hflat]
  exact ((flat_perm horder horder').append_left _).trans hperm

end RouteAggregator

end Steps

/-! ## Conservation -/

/-- The message that the single-route builder makes for an added route of a known peer. -/
def AddCall.singleMessage (now : Clock) (peers : Dict IngressId PeerInfo) (call : AddCall) :
    Option Bytes :=
  (peers.get call.ingressId).bind fun peer =>
    buildRouteMonitoring now peer call.pfx call.pamap false

/-- The messages announce together what the single-route messages announce, their counts add up,
only messages with one route are longer than a BGP message may be, and length fields are right. -/
def Conserves (out : Sent) (singles : List Bytes) : Prop :=
  ∃ parts expected, (out.map Prod.fst).mapM decodeRoutes = some parts ∧
    singles.mapM decodeRoutes = some expected ∧ parts.flatten.Perm expected.flatten ∧
    (out.map Prod.snd).sum = parts.flatten.length ∧
    ∀ msg ∈ out, LengthsExact msg.1 ∧ ∀ routes, decodeRoutes msg.1 = some routes →
      1 < routes.length → (bgpUpdateOf msg.1).length ≤ maxBgpUpdateLen

theorem decodes_of_carries {out : Sent} {parts : List (List PeerRoute)}
    (h : List.Forall₂ Carries out parts) :
    (out.map Prod.fst).mapM decodeRoutes = some parts ∧
      (out.map Prod.snd).sum = parts.flatten.length ∧
      ∀ msg ∈ out, LengthsExact msg.1 ∧ ∀ routes, decodeRoutes msg.1 = some routes →
        1 < routes.length → (bgpUpdateOf msg.1).length ≤ maxBgpUpdateLen := by
  induction h with
  | nil => exact ⟨rfl, rfl, nofun⟩
  | @cons msg routes out parts hmsg _ ih =>
    obtain ⟨hdecode, hsum, hall⟩ := ih
    refine ⟨?_, ?_, fun msg' hmsg' => ?_⟩
    · simp [hmsg.decodes, hdecode]
    · simp [hmsg.count, hsum]
    · rcases mem_cons.mp hmsg' with rfl | hmsg'
      · refine ⟨hmsg.lengths, fun routes' hroutes' => ?_⟩
        cases hmsg.decodes.symm.trans hroutes'
        exact hmsg.short
      · exact hall msg' hmsg'

theorem decodes_singles (now : Clock) (peers : Dict IngressId PeerInfo) (calls : List AddCall) :
    ∃ singles, (calls.filterMap (AddCall.singleMessage now peers)).mapM decodeRoutes =
      some singles ∧ singles.flatten = calls.flatMap (RouteAggregator.expectedOf peers) := by
  induction calls with
  | nil => exact ⟨[], rfl, rfl⟩
  | cons call calls ih =>
    obtain ⟨singles, hdecode, hflat⟩ := ih
    rw [filterMap_cons, flatMap_cons, AddCall.singleMessage, RouteAggregator.expectedOf]
    cases hpeer : peers.get call.ingressId with
    | none => exact ⟨singles, hdecode, by simp [hflat]⟩
    | some peer =>
      simp only [bind_some, elim_some]
      cases hbuild : buildRouteMonitoring now peer call.pfx call.pamap false with
      | none =>
        have hnone := map_eq_none_iff.mp hbuild
        exact ⟨singles, hdecode, by simp [hnone, hflat]⟩
      | some msg =>
        obtain ⟨update, hupdate, _⟩ := map_eq_some_iff.mp hbuild
        have hmsg := decodeRoutes_of (decode_buildRouteMonitoring hbuild)
        refine ⟨[(peer.key, announcementOf call.pfx call.pamap)] :: singles,
          by simp [hmsg, hdecode], ?_⟩
        simp [hupdate, hflat]

/-- Every walk and the flush after it announce exactly what the single-route messages would, for
every budget, hash function and order of iteration. -/
theorem RouteAggregator.addAll_flushAll_conserves (hash : Bytes → UInt64) (clock : Nat → Clock)
    (maxBytes : Nat) (peers : Dict IngressId PeerInfo) (calls : List AddCall) (now : Clock) :
    ∃ agg sent, addAll hash (.accepting clock) calls (new maxBytes peers) [] = .ok (agg, sent) ∧
      (∃ order, agg.groups.IterOrder order) ∧
      ∀ order, agg.groups.IterOrder order →
        ∃ agg' out, agg.flushAll (.accepting clock) order sent = .ok (agg', out) ∧
          Conserves out (calls.filterMap (AddCall.singleMessage now peers)) := by
  have hnew : (new maxBytes peers).AccountsFor [] [] [] := accounts_new peers
  obtain ⟨agg, sent, hwalk, _, hacc⟩ := addAll_accounts hash clock calls hnew
  obtain ⟨order, _, horder, _⟩ := hacc.balance
  refine ⟨agg, sent, hwalk, ⟨order, horder⟩, fun order horder => ?_⟩
  obtain ⟨agg', out, parts, hflush, hparts, hperm⟩ := flushAll_accounts clock hacc horder
  obtain ⟨singles, hsingles, hflat⟩ := decodes_singles now peers calls
  obtain ⟨hdecode, hsum, hall⟩ := decodes_of_carries hparts
  rw [nil_append, show (new maxBytes peers).peerInfo = peers from rfl, ← hflat] at hperm
  exact ⟨agg', out, hflush, parts, singles, hdecode, hsingles, hperm, hsum, hall⟩

end Rotonda.BmpOut
