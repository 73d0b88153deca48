import Rotonda.BmpOut.Aggregator

/-!
The next hop of a route before and after it is restreamed.

A stored blob has the next hop of an IPv6 route in its MP_REACH attribute, and that of an IPv4 route
in a NEXT_HOP attribute or in MP_REACH.  Both encoders strip MP_REACH; they write a new one for IPv6
prefixes and none for IPv4 prefixes.

* `nextHopIn`: the next hop in a list of attributes, `Announcement.decodedNextHop` in an announcement;
* `decodedNextHop_announcementOf_iff`: the next hop survives exactly when the blob has it where the
  encoders for its family take it from;
* `nextHop_survives_iff`: the same for the single-route builder and for all runs of the aggregator;
* `filterAt`, `filterPaFromRaw_exact`: the filter as a walk over positions, and what it computes.
-/

namespace Rotonda.BmpOut

open Lib Lib.Bytes List Option

/-! ## Reading next hops -/

def attributeOf (code : UInt8) (as : List Attribute) : Option Attribute :=
  as.find? fun a => a.typeCode = code

def mpNextHop (as : List Attribute) : Option Bytes :=
  (attributeOf 14 as).bind fun a => Attribute.nextHopOf a.value

def nextHopIn (f : Family) (as : List Attribute) : Option Bytes :=
  match f with
  | .v4 => ((attributeOf 3 as).map Attribute.value).or (mpNextHop as)
  | .v6 => mpNextHop as

def Announcement.decodedNextHop (a : Announcement) : Option Bytes :=
  match a.pfx.family with
  | .v4 => (((decodeAttributes a.attributes).bind (attributeOf 3)).map Attribute.value).or a.nextHop
  | .v6 => a.nextHop

/-- The blob is a list of attributes, none of them twice, and its MP_REACH has a next hop. -/
structure WellFormed (pamap : RotondaPaMap) (as : List Attribute) : Prop where
  decodes : decodeAttributes pamap.pathAttributes = some as
  nodup : (as.map Attribute.typeCode).Nodup
  reach : ∀ a ∈ as, a.typeCode = 14 → (Attribute.nextHopOf a.value).isSome

/-- The next hop is where the encoders for the family take it from, or there is none to take. -/
def NextHopKept (f : Family) (as : List Attribute) : Prop :=
  match f with
  | .v4 => (attributeOf 3 as).isSome ∨ mpNextHop as = none
  | .v6 => (mpNextHop as).isSome

/-! ## Stripping -/

/-- The loop over the attributes keeps the last next hop it sees. -/
def lastNextHop (nextHop : Option Bytes) (as : List Attribute) : Option Bytes :=
  as.foldl (fun nh a => if a.typeCode = 14 then (Attribute.nextHopOf a.value).or nh else nh) nextHop

theorem lastNextHop_append (nextHop : Option Bytes) (as bs : List Attribute) :
    lastNextHop nextHop (as ++ bs) = lastNextHop (lastNextHop nextHop as) bs :=
  foldl_append

theorem lastNextHop_cons_reach {a : Attribute} {nh : Bytes} (hcode : a.typeCode = 14)
    (hnh : Attribute.nextHopOf a.value = some nh) (nextHop : Option Bytes) (as : List Attribute) :
    lastNextHop nextHop (a :: as) = lastNextHop (some nh) as := by
  simp [lastNextHop, hcode, hnh]

variable {as : List Attribute}

theorem lastNextHop_of_ne (h : ∀ a ∈ as, a.typeCode ≠ 14)
    (nextHop : Option Bytes) : lastNextHop nextHop as = nextHop := by
  induction as with
  | nil => rfl
  | cons a as ih =>
    have hskip : lastNextHop nextHop (a :: as) = lastNextHop nextHop as := by
      simp [lastNextHop, h a mem_cons_self]
    rw [hskip]
    exact ih fun a' ha' => h a' (mem_cons_of_mem _ ha')

theorem filterLoop_snd (fuel : Nat) (blob result : Bytes) (nextHop : Option Bytes) :
    (filterLoop fuel blob result nextHop).2 =
      lastNextHop nextHop (scan Attribute.next fuel blob) := by
  induction fuel generalizing blob result nextHop with
  | zero => rfl
  | succ fuel ih =>
    rw [filterLoop, scan]
    cases Attribute.next blob with
    | none => rfl
    | some item =>
      obtain ⟨a, rest⟩ := item
      by_cases h14 : a.typeCode = 14
      · simp [h14, ih, lastNextHop]
      · by_cases h15 : a.typeCode = 15
        · simp [h15, ih, lastNextHop]
        · simp [h14, h15, ih, lastNextHop]

theorem filterPaFromRaw_snd (rpki ppi : UInt8) (blob : Bytes) :
    (filterPaFromRaw (rpki :: ppi :: blob)).2 =
      lastNextHop none (scan Attribute.next blob.length blob) := by
  rw [filterPaFromRaw, if_neg (by simp)]
  exact filterLoop_snd ..

theorem lastNextHop_of_nodup (h : (as.map Attribute.typeCode).Nodup)
    (nextHop : Option Bytes) : lastNextHop nextHop as = (mpNextHop as).or nextHop := by
  induction as generalizing nextHop with
  | nil => rfl
  | cons a as ih =>
    obtain ⟨hnot, hnodup⟩ := nodup_cons.mp h
    have hstep := ih hnodup
    by_cases h14 : a.typeCode = 14
    · -- no other attribute of this type follows
      have hnone : attributeOf 14 as = none := by
        rw [attributeOf, List.find?_eq_none]
        intro a' ha' hcode
        rw [h14] at hnot
        exact hnot (mem_map.mpr ⟨a', ha', by simpa using hcode⟩)
      have hmp : mpNextHop as = none := by rw [mpNextHop, hnone, bind_none]
      have hfirst : mpNextHop (a :: as) = Attribute.nextHopOf a.value := by
        simp [mpNextHop, attributeOf, h14]
      have hloop : lastNextHop nextHop (a :: as) =
          lastNextHop ((Attribute.nextHopOf a.value).or nextHop) as := by
        simp [lastNextHop, h14]
      rw [hloop, hstep, hmp, hfirst, none_or]
    · have hfirst : mpNextHop (a :: as) = mpNextHop as := by
        simp [mpNextHop, attributeOf, h14]
      have hloop : lastNextHop nextHop (a :: as) = lastNextHop nextHop as := by
        simp [lastNextHop, h14]
      rw [hloop, hstep, hfirst]

section Stored

variable {pamap : RotondaPaMap} {as : List Attribute}

theorem WellFormed.routeAttributes_eq (h : WellFormed pamap as) : routeAttributes pamap = as :=
  scan_of_many rfl h.decodes

/-- The next hop that goes into a new MP_REACH attribute. -/
theorem WellFormed.filtered_nextHop (h : WellFormed pamap as) :
    (filterRawPathAttributes pamap).2 = mpNextHop as := by
  have hscan : scan Attribute.next pamap.pathAttributes.length pamap.pathAttributes = as :=
    h.routeAttributes_eq
  rw [filterRawPathAttributes, RotondaPaMap.raw, filterPaFromRaw_snd, hscan,
    lastNextHop_of_nodup h.nodup, or_none]

/-- Attributes that carry no routes are found after stripping as before. -/
theorem attributeOf_kept {code : UInt8} (hcode : code ≠ 14 ∧ code ≠ 15) (as : List Attribute) :
    attributeOf code (as.filter fun a => !a.carriesRoutes) = attributeOf code as := by
  rw [attributeOf, attributeOf, List.find?_filter]
  congr 1
  funext a
  by_cases ha : a.typeCode = code
  · simp [ha, hcode, Attribute.carriesRoutes]
  · simp [ha]

theorem attributeOf_announcementOf (h : WellFormed pamap as) (p : Prefix) :
    (decodeAttributes (announcementOf p pamap).attributes).bind (attributeOf 3) =
      attributeOf 3 as := by
  rw [announcementOf, filterRawPathAttributes_fst,
    decodeAttributes_flatMap (fits_keptAttributes pamap), bind_some, keptAttributes,
    h.routeAttributes_eq]
  exact attributeOf_kept (by decide) as

/-- The next hop survives exactly when the encoders find it. -/
theorem decodedNextHop_announcementOf_iff (h : WellFormed pamap as) (p : Prefix) :
    (announcementOf p pamap).decodedNextHop = nextHopIn p.family as ↔ NextHopKept p.family as := by
  have hattr := attributeOf_announcementOf h p
  have hpfx : (announcementOf p pamap).pfx = p := rfl
  rw [Announcement.decodedNextHop, hpfx]
  cases hf : p.family with
  | v4 =>
    have hnone : (announcementOf p pamap).nextHop = none := by simp [announcementOf, Prefix.isV4, hf]
    simp only [hattr, hnone, nextHopIn, NextHopKept, or_none]
    cases attributeOf 3 as with
    | none => simp [eq_comm]
    | some a => simp
  | v6 =>
    have hsome : (announcementOf p pamap).nextHop = some (nextHopFor pamap) := by
      simp [announcementOf, Prefix.isV4, hf]
    simp only [hsome, nextHopIn, NextHopKept, nextHopFor, h.filtered_nextHop]
    cases mpNextHop as with
    | none => simp
    | some nh => simp

end Stored

/-! ## Restreaming -/

/-- The announcement has the next hop of the stored route exactly when the encoders find it. -/
def NextHopSurvives (p : Prefix) (pamap : RotondaPaMap) (a : Announcement) : Prop :=
  ∀ as, WellFormed pamap as → (a.decodedNextHop = nextHopIn p.family as ↔ NextHopKept p.family as)

/-- The route of the call goes out: its peer is known and its message is not too long. -/
def AddCall.goesOut (peers : Dict IngressId PeerInfo) (call : AddCall) : Bool :=
  (peers.get call.ingressId).isSome && (buildBgpUpdate call.pfx call.pamap false).isSome

/-- What a route that was added comes out as. -/
structure AddCall.Restreamed (peers : Dict IngressId PeerInfo) (call : AddCall) (r : PeerRoute) :
    Prop where
  peer : (peers.get call.ingressId).map PeerInfo.key = some r.1
  pfx : r.2.pfx = call.pfx
  nextHop : NextHopSurvives call.pfx call.pamap r.2

theorem nextHopSurvives_announcementOf (p : Prefix) (pamap : RotondaPaMap) :
    NextHopSurvives p pamap (announcementOf p pamap) :=
  fun _ h => decodedNextHop_announcementOf_iff h p

theorem restreamed_expectedOf (peers : Dict IngressId PeerInfo) (calls : List AddCall) :
    List.Forall₂ (AddCall.Restreamed peers) (calls.filter (AddCall.goesOut peers))
      (calls.flatMap (RouteAggregator.expectedOf peers)) := by
  induction calls with
  | nil => exact .nil
  | cons call calls ih =>
    rw [flatMap_cons, RouteAggregator.expectedOf, filter_cons, AddCall.goesOut]
    cases hpeer : peers.get call.ingressId with
    | none => exact ih
    | some peer =>
      by_cases hfits : (buildBgpUpdate call.pfx call.pamap false).isSome = true
      · simp only [elim_some, hfits, if_true, isSome_some, Bool.and_self]
        refine .cons ⟨by rw [hpeer]; rfl, rfl, nextHopSurvives_announcementOf _ _⟩ ih
      · simpa [hfits] using ih

/-- What the aggregator sends for the calls: every route that goes out, once. -/
theorem RouteAggregator.addAll_flushAll_restreams (hash : Bytes → UInt64) (clock : Nat → Clock)
    (maxBytes : Nat) (peers : Dict IngressId PeerInfo) (calls : List AddCall) :
    ∃ agg sent, addAll hash (.accepting clock) calls (new maxBytes peers) [] = .ok (agg, sent) ∧
      ∀ order, agg.groups.IterOrder order → ∃ agg' out parts routes,
        agg.flushAll (.accepting clock) order sent = .ok (agg', out) ∧
        List.Forall₂ (fun msg part => decodeRoutes msg.1 = some part) out parts ∧
        parts.flatten.Perm routes ∧
        List.Forall₂ (AddCall.Restreamed peers) (calls.filter (AddCall.goesOut peers)) routes := by
  have hnew : (new maxBytes peers).AccountsFor [] [] [] := accounts_new peers
  obtain ⟨agg, sent, hwalk, _, hacc⟩ := addAll_accounts hash clock calls hnew
  refine ⟨agg, sent, hwalk, fun order horder => ?_⟩
  obtain ⟨agg', out, parts, hflush, hparts, hperm⟩ := flushAll_accounts clock hacc horder
  refine ⟨agg', out, parts, _, hflush, ?_, hperm, restreamed_expectedOf peers calls⟩
  exact hparts.imp fun _ _ h => h.decodes

/-- The next hop of a route survives both encoders exactly when the stored blob has it where the
encoders for the family take it from: in MP_REACH for IPv6, in a NEXT_HOP attribute for IPv4. -/
theorem nextHop_survives_iff (hash : Bytes → UInt64) (clock : Nat → Clock) (maxBytes : Nat)
    (peers : Dict IngressId PeerInfo) (calls : List AddCall) :
    (∀ now peer route msg, buildRouteMonitoringFromRoute now peer route false = some msg →
      ∃ a, decodeRouteMonitoring msg = some (peer.key, ⟨[a], []⟩) ∧ a.pfx = route.pfx ∧
        NextHopSurvives route.pfx route.rotondaPamap a) ∧
    ∃ agg sent, RouteAggregator.addAll hash (.accepting clock) calls (.new maxBytes peers) [] =
        .ok (agg, sent) ∧
      ∀ order, agg.groups.IterOrder order → ∃ agg' out parts routes,
        agg.flushAll (.accepting clock) order sent = .ok (agg', out) ∧
        List.Forall₂ (fun msg part => decodeRoutes msg.1 = some part) out parts ∧
        parts.flatten.Perm routes ∧
        List.Forall₂ (AddCall.Restreamed peers) (calls.filter (AddCall.goesOut peers))
          routes := by
  constructor
  · intro now peer route msg h
    exact ⟨_, decode_buildRouteMonitoring h, rfl, nextHopSurvives_announcementOf _ _⟩
  · exact RouteAggregator.addAll_flushAll_restreams hash clock maxBytes peers calls

def slash8With (attributes : List Attribute) : RotondaRoute :=
  .ipv4Unicast (.slash8 10)
    ⟨RovStatus.notChecked.toByte, 1, attributes.flatMap Attribute.encode⟩

def nextHopAttribute : Attribute := ⟨0x40, 3, [192, 0, 2, 1]⟩

def mpReachAttribute : Attribute := ⟨0x80, 14, [0, 1, 1, 4, 192, 0, 2, 1, 0, 8, 10]⟩

theorem nextHop_survives_v4 :
    ∃ msg a, buildRouteMonitoringFromRoute ⟨0, 0⟩ (.fromIngressInfo {})
        (slash8With [nextHopAttribute]) false = some msg ∧
      decodeRouteMonitoring msg = some ((PeerInfo.fromIngressInfo {}).key, ⟨[a], []⟩) ∧
      a.decodedNextHop = some [192, 0, 2, 1] := by
  obtain ⟨msg, hmsg⟩ : ∃ msg, buildRouteMonitoringFromRoute ⟨0, 0⟩ (.fromIngressInfo {})
      (slash8With [nextHopAttribute]) false = some msg := ⟨_, rfl⟩
  obtain ⟨a, hdecode, _, hnext⟩ :=
    (nextHop_survives_iff (fun _ => 0) (fun _ => ⟨0, 0⟩) 0 .empty []).1 _ _ _ _ hmsg
  refine ⟨msg, a, hmsg, hdecode, ?_⟩
  have hwf : WellFormed (slash8With [nextHopAttribute]).rotondaPamap [nextHopAttribute] :=
    ⟨by decide, by decide, by decide⟩
  exact (hnext _ hwf).mpr (.inl rfl)

/-- An IPv4 route whose next hop is in MP_REACH is announced without a next hop. -/
theorem nextHop_lost_v4 :
    WellFormed (slash8With [mpReachAttribute]).rotondaPamap [mpReachAttribute] ∧
      nextHopIn .v4 [mpReachAttribute] = some [192, 0, 2, 1] ∧
      ∃ msg a, buildRouteMonitoringFromRoute ⟨0, 0⟩ (.fromIngressInfo {})
          (slash8With [mpReachAttribute]) false = some msg ∧
        decodeRouteMonitoring msg = some ((PeerInfo.fromIngressInfo {}).key, ⟨[a], []⟩) ∧
        a.decodedNextHop = none := by
  obtain ⟨msg, hmsg⟩ : ∃ msg, buildRouteMonitoringFromRoute ⟨0, 0⟩ (.fromIngressInfo {})
      (slash8With [mpReachAttribute]) false = some msg := ⟨_, rfl⟩
  exact ⟨⟨by decide, by decide, by decide⟩, by decide, msg, _, hmsg,
    decode_buildRouteMonitoring hmsg, by decide⟩

/-! ## The filter by positions -/

/-- A range of a slice; `none` if it is out of bounds. -/
def slice (bs : Bytes) (start stop : Nat) : Option Bytes :=
  if start ≤ stop ∧ stop ≤ bs.length then some ((bs.drop start).take (stop - start)) else none

def attrLenAt (blob : Bytes) (pos : Nat) (extended : Bool) : Option Nat := do
  let hi ← blob[pos + 2]?
  if extended then
    let lo ← blob[pos + 3]?
    return hi.toNat * 256 + lo.toNat
  else return hi.toNat

def nextHopAt (value : Bytes) (nextHop : Option Bytes) : Option (Option Bytes) :=
  if 4 ≤ value.length then do
    let nhLen ← value[3]?
    if 4 + nhLen.toNat ≤ value.length then (slice value 4 (4 + nhLen.toNat)).map some
    else return nextHop
  else return nextHop

/-- The loop of `filter_pa_from_raw` over the positions of the blob; `none` is a read out of bounds
or a walk that does not end within the fuel. -/
def filterAt (blob : Bytes) : Nat → Nat → Bytes → Option Bytes → Option (Bytes × Option Bytes)
  | 0, _, _, _ => none
  | fuel + 1, pos, result, nextHop =>
    if blob.length ≤ pos ∨ blob.length < pos + 2 then return (result, nextHop)
    else do
      let flags ← blob[pos]?
      let typeCode ← blob[pos + 1]?
      let headerLen := if flags &&& 0x10 ≠ 0 then 4 else 3
      if blob.length < pos + headerLen then return (result, nextHop)
      else
        let attrLen ← attrLenAt blob pos (flags &&& 0x10 ≠ 0)
        let totalAttrLen := headerLen + attrLen
        if blob.length < pos + totalAttrLen then return (result, nextHop)
        else if typeCode = 14 then
          let value ← slice blob (pos + headerLen) (pos + totalAttrLen)
          let nextHop ← nextHopAt value nextHop
          filterAt blob fuel (pos + totalAttrLen) result nextHop
        else if typeCode ≠ 15 then
          let kept ← slice blob pos (pos + totalAttrLen)
          filterAt blob fuel (pos + totalAttrLen) (result ++ kept) nextHop
        else filterAt blob fuel (pos + totalAttrLen) result nextHop

def filterRaw (raw : Bytes) : Option (Bytes × Option Bytes) :=
  if raw.length < 2 then return ([], none) else filterAt (raw.drop 2) (raw.length - 1) 0 [] none

theorem nextHopAt_eq (value : Bytes) (nextHop : Option Bytes) :
    nextHopAt value nextHop = some ((Attribute.nextHopOf value).or nextHop) := by
  rcases value with _ | ⟨a, _ | ⟨b, _ | ⟨c, _ | ⟨nhLen, rest⟩⟩⟩⟩
  case cons.cons.cons.cons =>
    by_cases h : nhLen.toNat ≤ rest.length <;>
      simp [nextHopAt, Attribute.nextHopOf, slice, h, Nat.add_comm 4]
  all_goals simp [nextHopAt, Attribute.nextHopOf]

/-- The walk at the front of what is left over. -/
theorem filterAt_succ (pre rest result : Bytes) (nextHop : Option Bytes) (fuel : Nat) :
    filterAt (pre ++ rest) (fuel + 1) pre.length result nextHop =
      match Attribute.next rest with
      | none => some (result, nextHop)
      | some (a, _) =>
        if a.typeCode = 14 then filterAt (pre ++ rest) fuel (pre ++ a.encode).length result
          ((Attribute.nextHopOf a.value).or nextHop)
        else if a.typeCode ≠ 15 then
          filterAt (pre ++ rest) fuel (pre ++ a.encode).length (result ++ a.encode) nextHop
        else filterAt (pre ++ rest) fuel (pre ++ a.encode).length result nextHop := by
  have hstart (n : Nat) : ¬ (pre.length + (n + 3) ≤ pre.length ∨ n + 3 < 2) := by omega
  have hheader (n k : Nat) : ¬ n + k < k := by omega
  rcases rest with _ | ⟨flags, _ | ⟨typeCode, rest⟩⟩
  case cons.cons =>
    by_cases hext : flags &&& 0x10 = 0
    · rcases rest with _ | ⟨len, rest⟩
      · simp [filterAt, hext, Attribute.next]
      · by_cases hlen : len.toNat ≤ rest.length
        · have hencode : Attribute.encode ⟨flags, typeCode, rest.take len.toNat⟩ =
              flags :: typeCode :: len :: rest.take len.toNat := by
            simp [Attribute.encode, Attribute.extended, hext, hlen]
          simp [filterAt, attrLenAt, slice, hext, Attribute.next, splitExact, hlen, nextHopAt_eq,
            hencode, Nat.add_comm 3, Nat.add_sub_add_left, Nat.not_lt.mpr hlen, Nat.add_assoc, hstart,
            hheader]
        · simp [filterAt, attrLenAt, hext, Attribute.next, splitExact, hlen]
          omega
    · rcases rest with _ | ⟨hi, _ | ⟨lo, rest⟩⟩
      · simp [filterAt, hext, Attribute.next]
      · simp [filterAt, hext, Attribute.next]
      · by_cases hlen : hi.toNat * 256 + lo.toNat ≤ rest.length
        · have hencode : Attribute.encode ⟨flags, typeCode, rest.take (hi.toNat * 256 + lo.toNat)⟩ =
              flags :: typeCode :: hi :: lo :: rest.take (hi.toNat * 256 + lo.toNat) := by
            simp [Attribute.encode, Attribute.extended, hext, hlen, be16_toNat]
          simp [filterAt, attrLenAt, slice, hext, Attribute.next, splitExact, hlen, nextHopAt_eq,
            hencode, Nat.add_comm 4, Nat.add_sub_add_left, Nat.not_lt.mpr hlen, Nat.add_assoc, hstart,
            hheader]
        · simp [filterAt, attrLenAt, hext, Attribute.next, splitExact, hlen]
          omega
  all_goals simp [filterAt, Attribute.next]

theorem filterAt_eq {fuel : Nat} (pre rest result : Bytes) (nextHop : Option Bytes)
    (hfuel : rest.length ≤ fuel) :
    filterAt (pre ++ rest) (fuel + 1) pre.length result nextHop =
      some (filterLoop fuel rest result nextHop) := by
  induction fuel generalizing pre rest result nextHop with
  | zero =>
    obtain rfl : rest = [] := length_eq_zero_iff.mp (by omega)
    exact filterAt_succ pre [] result nextHop 0
  | succ fuel ih =>
    rw [filterAt_succ, filterLoop]
    cases h : Attribute.next rest with
    | none => rfl
    | some item =>
      obtain ⟨-, rfl⟩ := Attribute.next_eq_some h
      simp only [← append_assoc]
      have hshort : item.2.length ≤ fuel := by
        simp [Attribute.encode] at hfuel
        omega
      simp only [ih _ _ _ _ hshort, apply_ite some]

theorem lastNextHop_eq (as : List Attribute) (nextHop : Option Bytes) :
    lastNextHop nextHop as = ((as.filter fun a => a.typeCode = 14).reverse.findSome?
      fun a => Attribute.nextHopOf a.value).or nextHop := by
  induction as generalizing nextHop with
  | nil => rfl
  | cons a as ih =>
    rw [lastNextHop, List.foldl_cons, ← lastNextHop, ih]
    by_cases h14 : a.typeCode = 14 <;> simp [h14, Option.or_assoc]

theorem filterPaFromRaw_flatMap {tail : Bytes} (x y : UInt8)
    (has : ∀ a ∈ as, a.Fits) (htail : Attribute.next tail = none) :
    filterPaFromRaw (x :: y :: (as.flatMap Attribute.encode ++ tail)) =
      ((as.filter fun a => !a.carriesRoutes).flatMap Attribute.encode, lastNextHop none as) := by
  have hreads : ∀ a ∈ as, Reads Attribute.next Attribute.encode a := fun a ha =>
    Attribute.readsAttribute (has a ha)
  have hfuel : as.length ≤ (as.flatMap Attribute.encode ++ tail).length := by
    have hlen := length_le_flatMap hreads
    rw [length_append]
    omega
  have hscan := scan_flatMap_append hreads htail hfuel
  rw [filterPaFromRaw, if_neg (by simp), drop_succ_cons, drop_succ_cons, drop_zero]
  refine Prod.ext ?_ ?_
  · rw [filterLoop_fst, hscan, nil_append]
  · rw [filterLoop_snd, hscan]

/-- The filter for every blob, in terms of the attributes that it starts with. -/
theorem filterPaFromRaw_exact (raw : Bytes) :
    filterRaw raw = some (filterPaFromRaw raw) ∧
      (∃ (as : List Attribute) (tail : Bytes), raw.drop 2 = as.flatMap Attribute.encode ++ tail ∧
        (∀ a ∈ as, a.Fits) ∧ (∀ a : Attribute, a.Fits → ¬ a.encode <+: tail) ∧
        (filterPaFromRaw raw).1 =
          (as.filter fun a => a.typeCode ≠ 14 ∧ a.typeCode ≠ 15).flatMap Attribute.encode ∧
        (filterPaFromRaw raw).2 = (as.filter fun a => a.typeCode = 14).reverse.findSome?
          fun a => Attribute.nextHopOf a.value) ∧
      ∀ x y, filterPaFromRaw (x :: y :: (filterPaFromRaw raw).1) =
        ((filterPaFromRaw raw).1, none) := by
  rcases raw with _ | ⟨x, _ | ⟨y, blob⟩⟩
  case cons.cons =>
    obtain ⟨as, tail, rfl, hfits, htail⟩ : ∃ (as : List Attribute) (tail : Bytes),
        blob = as.flatMap Attribute.encode ++ tail ∧ (∀ a ∈ as, a.Fits) ∧
          Attribute.next tail = none := by
      refine ⟨_, _,
        (flatMap_scan_append_unread (fun _ _ _ h => (Attribute.next_eq_some h).2) _ blob).symm,
        mem_scan_of (fun _ _ _ h => (Attribute.next_eq_some h).1) _ _,
        next_unread rfl (fun bs a rest h => ?_) (Nat.le_refl _)⟩
      obtain ⟨-, rfl⟩ := Attribute.next_eq_some h
      simp [Attribute.encode]
      omega
    have hraw := filterPaFromRaw_flatMap x y hfits htail
    have hkept : (as.filter fun a => !a.carriesRoutes) =
        as.filter fun a => a.typeCode ≠ 14 ∧ a.typeCode ≠ 15 := by
      simp [Attribute.carriesRoutes]
    refine ⟨?_, ⟨as, tail, rfl, hfits, fun a ha => ?_, ?_, ?_⟩, fun x' y' => ?_⟩
    · rw [filterRaw, if_neg (by simp), filterPaFromRaw, if_neg (by simp)]
      exact filterAt_eq [] _ _ _ (Nat.le_refl _)
    · rintro ⟨rest, rfl⟩
      rw [(Attribute.readsAttribute ha).reads] at htail
      cases htail
    · rw [hraw, hkept]
    · rw [hraw, lastNextHop_eq, or_none]
    · have hagain := filterPaFromRaw_flatMap x' y'
        (fun a ha => hfits a (mem_of_mem_filter (p := fun a => !a.carriesRoutes) ha))
        (show Attribute.next [] = none from rfl)
      rw [append_nil, lastNextHop_eq] at hagain
      rw [hraw, hagain]
      simp [Attribute.carriesRoutes]
      exact fun a _ h14 hne => absurd h14 hne
  all_goals exact ⟨rfl, ⟨[], [], rfl, by simp, by simp [Attribute.encode], rfl, rfl⟩, fun _ _ => rfl⟩

end Rotonda.BmpOut
