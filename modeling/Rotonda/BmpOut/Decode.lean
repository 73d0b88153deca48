import Rotonda.BmpOut.Builder

/-!
What a receiver reads of a BMP message, with every length field checked.

A decoder accepts a message only if each length field is the length of what it announces, so that
a message that decodes has the right lengths.

* `lengthsExact_of_decode`: the length fields of a message that decodes;
* `decodePrefixes_flatMap`, `decodeAttributes_flatMap`: NLRI and path attributes read back;
* `decode_buildRouteMonitoring`: the single-route message announces its route;
* `decode_buildAggregatedRouteMonitoring_v4`, `_v6`: the message for many prefixes announces what
  their single-route messages announce;
* `decode_buildRouteMonitoring_withdrawal`, `decode_buildEorIpv4`, `decode_buildEorMpUnreach`:
  withdrawals and End-of-RIB markers.
-/

namespace Rotonda.BmpOut

open Lib.Bytes List Option

variable {p : Prefix} {ps : List Prefix} {a : Attribute} {as : List Attribute} {value msg : Bytes}
  {pamap : RotondaPaMap}

/-! ## Decoders -/

def decodeMessage (msg : Bytes) : Option (UInt8 × Bytes × Bytes) :=
  match msg with
  | version :: l₁ :: l₂ :: l₃ :: l₄ :: typ :: rest =>
    if version = bmpVersion ∧ readBe [l₁, l₂, l₃, l₄] = msg.length then
      (splitExact bmpPerPeerHeaderLen rest).map fun (header, body) =>
        (typ, header.take 34, body)
    else none
  | _ => none

/-- Take one prefix of the family off the front of NLRI. -/
def nextPrefix (f : Family) : Bytes → Option (Prefix × Bytes)
  | [] => none
  | len :: rest =>
    if hlen : len.toNat ≤ f.bits then
      (splitExact ((len.toNat + 7) / 8) rest).bind fun (significant, rest) =>
        let octets := significant ++ List.replicate (f.octets - (len.toNat + 7) / 8) 0
        if h : octets.length = f.octets ∧ hostBitsZero octets len.toNat = true then
          some (⟨⟨f, octets, h.1⟩, len.toNat, hlen, h.2⟩, rest)
        else none
    else none

def decodePrefixes (f : Family) (nlri : Bytes) : Option (List Prefix) :=
  many (nextPrefix f) nlri.length nlri

def decodeAttributes (bs : Bytes) : Option (List Attribute) := many Attribute.next bs.length bs

def familyOfAfi : Nat → Option Family
  | 1 => some .v4
  | 2 => some .v6
  | _ => none

def decodeMpReach (value : Bytes) : Option (Bytes × List Prefix) :=
  match value with
  | a₁ :: a₂ :: safi :: nhLen :: rest =>
    if safi = 1 then do
      let f ← familyOfAfi (readBe [a₁, a₂])
      let (nextHop, rest) ← splitExact nhLen.toNat rest
      let prefixes ← decodePrefixes f (rest.drop 1)
      return (nextHop, prefixes)
    else none
  | _ => none

def decodeMpUnreach (value : Bytes) : Option (List Prefix) :=
  match value with
  | a₁ :: a₂ :: safi :: rest =>
    if safi = 1 then (familyOfAfi (readBe [a₁, a₂])).bind fun f => decodePrefixes f rest else none
  | _ => none

/-- A route as it is announced: prefix, attributes other than MP_REACH and MP_UNREACH, and the
next hop of the former. -/
structure Announcement where
  pfx : Prefix
  attributes : Bytes
  nextHop : Option Bytes
  deriving DecidableEq

structure RoutesView where
  announced : List Announcement
  withdrawn : List Prefix
  deriving DecidableEq

def Attribute.carriesRoutes (a : Attribute) : Bool := a.typeCode = 14 || a.typeCode = 15

def decodeFields (withdrawn pathAttributes nlri : Bytes) : Option RoutesView := do
  let withdrawn ← decodePrefixes .v4 withdrawn
  let attributes ← decodeAttributes pathAttributes
  let nlri ← decodePrefixes .v4 nlri
  let others := (attributes.filter fun a => !a.carriesRoutes).flatMap Attribute.encode
  let reach ← (attributes.filter fun a => a.typeCode = 14).mapM fun a => decodeMpReach a.value
  let unreach ← (attributes.filter fun a => a.typeCode = 15).mapM fun a => decodeMpUnreach a.value
  return {
    announced := nlri.map (⟨·, others, none⟩) ++
      reach.flatMap fun (nextHop, prefixes) => prefixes.map (⟨·, others, some nextHop⟩)
    withdrawn := withdrawn ++ unreach.flatten }

def decodeUpdate (update : Bytes) : Option RoutesView := do
  let (marker, rest) ← splitExact 16 update
  let (len, rest) ← splitExact 2 rest
  let (typ, rest) ← splitExact 1 rest
  let (withdrawnLen, rest) ← splitExact 2 rest
  let (withdrawn, rest) ← splitExact (readBe withdrawnLen) rest
  let (paLen, rest) ← splitExact 2 rest
  let (pathAttributes, nlri) ← splitExact (readBe paLen) rest
  if marker = bgpMarker ∧ readBe len = update.length ∧ typ = [bgpMsgUpdate] then
    decodeFields withdrawn pathAttributes nlri
  else none

def decodeRouteMonitoring (msg : Bytes) : Option (Bytes × RoutesView) := do
  let (typ, peer, body) ← decodeMessage msg
  if typ = MsgType.routeMonitoring.code then
    let routes ← decodeUpdate body
    return (peer, routes)
  else none

/-! ## Headers -/

theorem decodeMessage_peerMessage (msgType : MsgType) (now : Clock) (peer : PeerInfo)
    (body : Bytes) (hbody : bmpCommonHeaderLen + bmpPerPeerHeaderLen + body.length < 4294967296) :
    decodeMessage (peerMessage msgType now peer body) = some (msgType.code, peer.key, body) := by
  have hlen := length_peerMessage msgType now peer body
  have hsplit : splitExact bmpPerPeerHeaderLen (writePerPeerHeader now peer ++ body) =
      some (writePerPeerHeader now peer, body) :=
    splitExact_append (length_writePerPeerHeader now peer)
  have hkey : (writePerPeerHeader now peer).take 34 = peer.key := by
    rw [writePerPeerHeader, append_assoc, take_left' peer.length_key]
  have hread := readBe_be32 (bmpCommonHeaderLen + bmpPerPeerHeaderLen + body.length)
  rw [Nat.mod_eq_of_lt hbody] at hread
  have hmsg : peerMessage msgType now peer body =
      bmpVersion :: (be32 (bmpCommonHeaderLen + bmpPerPeerHeaderLen + body.length) ++
        msgType.code :: (writePerPeerHeader now peer ++ body)) := by
    simp [peerMessage, messageOf, writeCommonHeader]
  rw [hmsg] at hlen ⊢
  simp only [be32, cons_append, nil_append] at hlen hread ⊢
  simp only [decodeMessage, hlen, hread, and_self, if_true, hsplit, map_some, hkey]

/-! ## NLRI -/

theorem readsPrefix {f : Family} (hp : p.family = f) : Reads (nextPrefix f) encodePrefixNlri p := by
  subst hp
  have hbits : p.len ≤ p.family.bits := p.len_le
  have hlt : p.len < 256 := by
    have : p.family.bits ≤ 128 := by cases p.family <;> decide
    omega
  have hlen : (UInt8.ofNat p.len).toNat = p.len := by
    simp only [UInt8.toNat_ofNat']
    omega
  refine ⟨by simp [encodePrefixNlri], fun rest => ?_⟩
  have hoct := p.octets_eq_significant
  have hsplit : splitExact ((p.len + 7) / 8) (p.significant ++ rest) =
      some (p.significant, rest) := splitExact_append p.significant_length
  rw [encodePrefixNlri, cons_append, nextPrefix]
  simp only [hlen, hbits, dite_true, hsplit, Option.bind_some]
  have hzero := p.host_zero
  have hl := p.addr.length_eq
  rw [hoct] at hzero hl
  rw [dif_pos ⟨hl, hzero⟩]
  congr 2
  cases p with
  | mk addr len _ _ =>
    cases addr
    simp only at hoct
    simp only [Prefix.family, hoct.symm]

theorem decodePrefixes_flatMap {f : Family} (hps : ∀ p ∈ ps, p.family = f) :
    decodePrefixes f (ps.flatMap encodePrefixNlri) = some ps :=
  have hreads : ∀ p ∈ ps, Reads (nextPrefix f) encodePrefixNlri p := fun p hp =>
    readsPrefix (hps p hp)
  many_flatMap hreads (length_le_flatMap hreads)

/-! ## Path attributes -/

namespace Attribute

theorem readsAttribute (ha : a.Fits) : Reads next encode a := by
  refine ⟨by simp [encode], fun rest => ?_⟩
  unfold Fits at ha
  have hsplit : splitExact a.value.length (a.value ++ rest) = some (a.value, rest) :=
    splitExact_append rfl
  by_cases hext : a.extended = true
  · rw [if_pos hext] at ha
    have hflag : a.flags &&& 0x10 ≠ 0 := by simpa [extended] using hext
    have hlen : (UInt8.ofNat (a.value.length / 256)).toNat * 256 +
        (UInt8.ofNat a.value.length).toNat = a.value.length := by
      simp only [UInt8.toNat_ofNat']
      omega
    simp only [encode, hext, if_true, be16, cons_append, nil_append, next]
    simp only [ne_eq, hflag, not_false_eq_true, if_true, hlen, hsplit, map_some]
  · rw [if_neg hext] at ha
    have hflag : ¬ a.flags &&& 0x10 ≠ 0 := by simpa [extended] using hext
    have hlen : (UInt8.ofNat a.value.length).toNat = a.value.length := by
      simp only [UInt8.toNat_ofNat']
      omega
    simp only [encode, hext, Bool.false_eq_true, if_false, cons_append, nil_append, next]
    simp only [hflag, if_false, hlen, hsplit, map_some]

/-- What comes off the front of a blob is an encoded attribute that fits its length field. -/
theorem next_eq_some {bs : Bytes} {rest : Bytes}
    (h : next bs = some (a, rest)) : a.Fits ∧ bs = a.encode ++ rest := by
  unfold next at h
  split at h
  next flags typeCode tail =>
    split at h
    next hext =>
      split at h
      next hi lo tail =>
        obtain ⟨⟨value, rest'⟩, hsplit, heq⟩ := map_eq_some_iff.mp h
        cases heq
        obtain ⟨htail, hlen⟩ := splitExact_eq_some hsplit
        have hhi := hi.toNat_lt
        have hlo := lo.toNat_lt
        have hextended : (⟨flags, typeCode, value⟩ : Attribute).extended = true := by
          simpa [extended] using hext
        constructor
        · rw [Fits, if_pos hextended, hlen]
          omega
        · rw [encode, if_pos hextended, hlen, be16_toNat, htail]
          simp
      · cases h
    next hext =>
      split at h
      next len tail =>
        obtain ⟨⟨value, rest'⟩, hsplit, heq⟩ := map_eq_some_iff.mp h
        cases heq
        obtain ⟨htail, hlen⟩ := splitExact_eq_some hsplit
        have hbound := len.toNat_lt
        have hextended : ¬ (⟨flags, typeCode, value⟩ : Attribute).extended = true := by
          simpa [extended] using hext
        constructor
        · rw [Fits, if_neg hextended, hlen]
          omega
        · rw [encode, if_neg hextended, hlen, UInt8.ofNat_toNat, htail]
          simp
      · cases h
  · cases h

end Attribute

theorem decodeAttributes_flatMap (has : ∀ a ∈ as, a.Fits) :
    decodeAttributes (as.flatMap Attribute.encode) = some as :=
  have hreads : ∀ a ∈ as, Reads Attribute.next Attribute.encode a := fun a ha =>
    Attribute.readsAttribute (has a ha)
  many_flatMap hreads (length_le_flatMap hreads)

theorem decodeAttributes_eq_some {bs : Bytes} (h : decodeAttributes bs = some as) :
    bs = as.flatMap Attribute.encode ∧ ∀ a ∈ as, a.Fits :=
  ⟨flatMap_of_many (fun _ _ _ h => (Attribute.next_eq_some h).2) h,
    mem_many_of (fun _ _ _ h => (Attribute.next_eq_some h).1) h⟩

/-! ## Length fields -/

/-- The length fields of a BGP UPDATE are the lengths of what they announce. -/
def UpdateLengthsExact (update : Bytes) : Prop :=
  ∃ len withdrawnLen withdrawn paLen nlri : Bytes, ∃ attributes : List Attribute,
    update = bgpMarker ++ (len ++ ([bgpMsgUpdate] ++ (withdrawnLen ++ (withdrawn ++ (paLen ++
      (attributes.flatMap Attribute.encode ++ nlri)))))) ∧
    len.length = 2 ∧ withdrawnLen.length = 2 ∧ paLen.length = 2 ∧
    readBe len = update.length ∧ readBe withdrawnLen = withdrawn.length ∧
    readBe paLen = (attributes.flatMap Attribute.encode).length ∧
    ∀ a ∈ attributes, a.Fits ∧ (a.typeCode = 14 → ∃ afi nhLen nextHop rest,
      a.value = afi ++ 1 :: nhLen :: (nextHop ++ rest) ∧ afi.length = 2 ∧
        nhLen.toNat = nextHop.length)

def LengthsExact (msg : Bytes) : Prop :=
  ∃ len header update : Bytes,
    msg = bmpVersion :: len ++ MsgType.routeMonitoring.code :: (header ++ update) ∧
    len.length = 4 ∧ header.length = bmpPerPeerHeaderLen ∧ readBe len = msg.length ∧
    UpdateLengthsExact update

theorem nextHop_of_decodeMpReach {nextHop : Bytes} (h : decodeMpReach value = some (nextHop, ps)) :
    ∃ afi nhLen nextHop rest, value = afi ++ 1 :: nhLen :: (nextHop ++ rest) ∧ afi.length = 2 ∧
      nhLen.toNat = nextHop.length := by
  unfold decodeMpReach at h
  split at h
  next a₁ a₂ safi nhLen rest =>
    split at h
    next hsafi =>
      obtain ⟨f, _, h⟩ := bind_eq_some_iff.mp h
      obtain ⟨⟨nh, tail⟩, hsplit, _⟩ := bind_eq_some_iff.mp h
      obtain ⟨hrest, hlen⟩ := splitExact_eq_some hsplit
      exact ⟨[a₁, a₂], nhLen, nh, tail, by rw [hsafi, hrest]; rfl, rfl, hlen.symm⟩
    · cases h
  · cases h

theorem exists_of_mapM_eq_some {α β : Type} {f : α → Option β} {as : List α} {bs : List β}
    (h : as.mapM f = some bs) : ∀ a ∈ as, ∃ b, f a = some b := by
  induction as generalizing bs with
  | nil => nofun
  | cons a as ih =>
    rw [List.mapM_cons] at h
    obtain ⟨b, hb, h⟩ := bind_eq_some_iff.mp h
    obtain ⟨tail, htail, _⟩ := bind_eq_some_iff.mp h
    intro a' ha'
    rcases mem_cons.mp ha' with rfl | ha'
    · exact ⟨b, hb⟩
    · exact ih htail a' ha'

theorem updateLengthsExact_of_decode {update : Bytes} {view : RoutesView}
    (h : decodeUpdate update = some view) : UpdateLengthsExact update := by
  unfold decodeUpdate at h
  obtain ⟨⟨marker, rest₁⟩, h₁, h⟩ := bind_eq_some_iff.mp h
  obtain ⟨⟨len, rest₂⟩, h₂, h⟩ := bind_eq_some_iff.mp h
  obtain ⟨⟨typ, rest₃⟩, h₃, h⟩ := bind_eq_some_iff.mp h
  obtain ⟨⟨withdrawnLen, rest₄⟩, h₄, h⟩ := bind_eq_some_iff.mp h
  obtain ⟨⟨withdrawn, rest₅⟩, h₅, h⟩ := bind_eq_some_iff.mp h
  obtain ⟨⟨paLen, rest₆⟩, h₆, h⟩ := bind_eq_some_iff.mp h
  obtain ⟨⟨pa, nlri⟩, h₇, h⟩ := bind_eq_some_iff.mp h
  replace h : (if marker = bgpMarker ∧ readBe len = update.length ∧ typ = [bgpMsgUpdate] then
      decodeFields withdrawn pa nlri else none) = some view := h
  split at h
  next hfields =>
    obtain ⟨hmarker, hlen, htyp⟩ := hfields
    obtain ⟨_, _, h⟩ := bind_eq_some_iff.mp h
    obtain ⟨attributes, hattrs, h⟩ := bind_eq_some_iff.mp h
    obtain ⟨_, _, h⟩ := bind_eq_some_iff.mp h
    obtain ⟨reach, hreach, _⟩ := bind_eq_some_iff.mp h
    obtain ⟨hpa, hfits⟩ := decodeAttributes_eq_some hattrs
    obtain ⟨e₁, _⟩ := splitExact_eq_some h₁
    obtain ⟨e₂, l₂⟩ := splitExact_eq_some h₂
    obtain ⟨e₃, _⟩ := splitExact_eq_some h₃
    obtain ⟨e₄, l₄⟩ := splitExact_eq_some h₄
    obtain ⟨e₅, l₅⟩ := splitExact_eq_some h₅
    obtain ⟨e₆, l₆⟩ := splitExact_eq_some h₆
    obtain ⟨e₇, l₇⟩ := splitExact_eq_some h₇
    refine ⟨len, withdrawnLen, withdrawn, paLen, nlri, attributes, ?_, l₂, l₄, l₆, hlen, l₅.symm,
      by rw [← hpa, l₇], fun a ha => ⟨hfits a ha, fun hcode => ?_⟩⟩
    · rw [e₁, e₂, e₃, e₄, e₅, e₆, e₇, hmarker, htyp, hpa]
    · obtain ⟨⟨nextHop, ps⟩, hdecode⟩ := exists_of_mapM_eq_some hreach a
        (mem_filter.mpr ⟨ha, by simpa using hcode⟩)
      exact nextHop_of_decodeMpReach hdecode
  · cases h

theorem lengthsExact_of_decode {routes : Bytes × RoutesView}
    (h : decodeRouteMonitoring msg = some routes) : LengthsExact msg := by
  unfold decodeRouteMonitoring at h
  obtain ⟨⟨typ, peer, body⟩, hmsg, h⟩ := bind_eq_some_iff.mp h
  dsimp only at h
  split at h
  next htyp =>
    obtain ⟨view, hview, _⟩ := bind_eq_some_iff.mp h
    unfold decodeMessage at hmsg
    split at hmsg
    next version l₁ l₂ l₃ l₄ typ' rest =>
      split at hmsg
      next hfields =>
        obtain ⟨⟨header, update⟩, hsplit, heq⟩ := map_eq_some_iff.mp hmsg
        cases heq
        obtain ⟨hrest, hheader⟩ := splitExact_eq_some hsplit
        refine ⟨[l₁, l₂, l₃, l₄], header, body, ?_, rfl, hheader, hfields.2,
          updateLengthsExact_of_decode hview⟩
        rw [hfields.1, htyp, hrest]
        rfl
      · cases hmsg
    · cases hmsg
  · cases h

/-! ## The attributes of a route -/

/-- The attributes of a route, as far as they are well formed. -/
def routeAttributes (pamap : RotondaPaMap) : List Attribute :=
  scan Attribute.next pamap.pathAttributes.length pamap.pathAttributes

/-- Those that are passed on as they are. -/
def keptAttributes (pamap : RotondaPaMap) : List Attribute :=
  (routeAttributes pamap).filter fun a => !a.carriesRoutes

theorem filterLoop_fst (fuel : Nat) (blob result : Bytes) (nextHop : Option Bytes) :
    (filterLoop fuel blob result nextHop).1 =
      result ++ ((scan Attribute.next fuel blob).filter fun a => !a.carriesRoutes).flatMap
        Attribute.encode := by
  induction fuel generalizing blob result nextHop with
  | zero => simp [filterLoop, scan]
  | succ fuel ih =>
    rw [filterLoop, scan]
    cases Attribute.next blob with
    | none => simp
    | some item =>
      obtain ⟨a, rest⟩ := item
      by_cases h14 : a.typeCode = 14
      · simp [h14, ih, Attribute.carriesRoutes]
      · by_cases h15 : a.typeCode = 15
        · simp [h15, ih, Attribute.carriesRoutes]
        · simp [h14, h15, ih, Attribute.carriesRoutes]

theorem filterRawPathAttributes_fst (pamap : RotondaPaMap) :
    (filterRawPathAttributes pamap).1 = (keptAttributes pamap).flatMap Attribute.encode := by
  rw [filterRawPathAttributes, filterPaFromRaw, if_neg (by simp [RotondaPaMap.raw])]
  exact filterLoop_fst ..

theorem fits_keptAttributes (pamap : RotondaPaMap) : ∀ a ∈ keptAttributes pamap, a.Fits := by
  intro a ha
  exact mem_scan_of (fun _ _ _ h => (Attribute.next_eq_some h).1) _ _ a (mem_of_mem_filter ha)

theorem not_carriesRoutes_kept (ha : a ∈ keptAttributes pamap) : a.carriesRoutes = false := by
  simpa using (mem_filter.mp ha).2

theorem nextHop_filterLoop_length (fuel : Nat) (blob result : Bytes)
    (nextHop : Option Bytes) (h : ∀ nh ∈ nextHop, nh.length < 256) :
    ∀ nh ∈ (filterLoop fuel blob result nextHop).2, nh.length < 256 := by
  induction fuel generalizing blob result nextHop with
  | zero => exact h
  | succ fuel ih =>
    rw [filterLoop]
    cases Attribute.next blob with
    | none => exact h
    | some item =>
      obtain ⟨a, rest⟩ := item
      have hor : ∀ nh ∈ (Attribute.nextHopOf a.value).or nextHop, nh.length < 256 := by
        intro nh hnh
        rcases or_eq_some_iff.mp hnh with hnew | ⟨_, hold⟩
        · unfold Attribute.nextHopOf at hnew
          split at hnew
          next nhLen tail _ =>
            split at hnew <;> cases hnew
            have := nhLen.toNat_lt
            rw [length_take]
            omega
          · cases hnew
        · exact h nh hold
      dsimp only
      split
      · exact ih _ _ _ hor
      · split
        · exact ih _ _ _ h
        · exact ih _ _ _ h

/-- The next hop that goes with the IPv6 prefixes of a route. -/
def nextHopFor (pamap : RotondaPaMap) : Bytes :=
  (filterRawPathAttributes pamap).2.getD (List.replicate 16 0)

theorem length_nextHopFor (pamap : RotondaPaMap) : (nextHopFor pamap).length < 256 := by
  have h : ∀ nh ∈ (filterRawPathAttributes pamap).2, nh.length < 256 := by
    rw [filterRawPathAttributes, filterPaFromRaw, if_neg (by simp [RotondaPaMap.raw])]
    exact nextHop_filterLoop_length _ _ _ _ nofun
  unfold nextHopFor
  cases hnh : (filterRawPathAttributes pamap).2 with
  | none => simp
  | some nh => exact h nh hnh

/-! ## Messages with routes -/

/-- A route as its single-route message announces it. -/
def announcementOf (p : Prefix) (pamap : RotondaPaMap) : Announcement :=
  ⟨p, (filterRawPathAttributes pamap).1, if p.isV4 then none else some (nextHopFor pamap)⟩

theorem decodeUpdate_fields (w pa nlri : Bytes) {total : Nat}
    (htotal : total = 19 + (2 + w.length + 2 + pa.length + nlri.length)) (hfits : total < 65536) :
    decodeUpdate (bgpHeader total bgpMsgUpdate ++ be16 w.length ++ w ++ be16 pa.length ++ pa ++
      nlri) = decodeFields w pa nlri := by
  have hread : ∀ n, n < 65536 → readBe (be16 n) = n := fun n hn => by
    rw [readBe_be16, Nat.mod_eq_of_lt hn]
  have hw := hread w.length (by omega)
  have hpa := hread pa.length (by omega)
  have hlen := hread total hfits
  have hupdate : (bgpHeader total bgpMsgUpdate ++ be16 w.length ++ w ++ be16 pa.length ++ pa ++
      nlri) = bgpMarker ++ (be16 total ++ ([bgpMsgUpdate] ++ (be16 w.length ++ (w ++
      (be16 pa.length ++ (pa ++ nlri)))))) := by
    simp [bgpHeader]
  have hlength : (bgpMarker ++ (be16 total ++ ([bgpMsgUpdate] ++ (be16 w.length ++ (w ++
      (be16 pa.length ++ (pa ++ nlri))))))).length = total := by
    simp [bgpMarker]
    omega
  rw [hupdate, decodeUpdate]
  simp only [splitExact_append (show bgpMarker.length = 16 from rfl),
    splitExact_append (length_be16 _), splitExact_append (show [bgpMsgUpdate].length = 1 from rfl),
    hw, hpa, hlen, splitExact_append (rfl : w.length = w.length),
    splitExact_append (rfl : pa.length = pa.length), hlength, Option.bind_eq_bind, Option.bind_some,
    and_self, if_true]

theorem filter_kept (pamap : RotondaPaMap) :
    (keptAttributes pamap).filter (fun a => !a.carriesRoutes) = keptAttributes pamap := by
  rw [filter_eq_self]
  intro a ha
  simp [not_carriesRoutes_kept ha]

theorem filter_kept_code (pamap : RotondaPaMap) (code : UInt8) (hcode : code = 14 ∨ code = 15) :
    (keptAttributes pamap).filter (fun a => a.typeCode = code) = [] := by
  rw [filter_eq_nil_iff]
  intro a ha hac
  have h := not_carriesRoutes_kept ha
  simp only [Attribute.carriesRoutes, Bool.or_eq_false_iff, decide_eq_false_iff_not] at h
  rcases hcode with rfl | rfl
  · exact h.1 (by simpa using hac)
  · exact h.2 (by simpa using hac)

theorem decodePrefixes_nil (f : Family) : decodePrefixes f [] = some [] := rfl

/-- The MP_REACH attribute of IPv6 prefixes, with any flags of an optional attribute. -/
theorem decodeMpReach_value (hps : ∀ p ∈ ps, p.family = .v6) {nh : Bytes} (hnh : nh.length < 256) :
    decodeMpReach (mpReachValue 2 nh (ps.flatMap encodePrefixNlri)) = some (nh, ps) := by
  have hlen : (UInt8.ofNat nh.length).toNat = nh.length := by
    simp only [UInt8.toNat_ofNat']
    omega
  have hvalue : mpReachValue 2 nh (ps.flatMap encodePrefixNlri) =
      0 :: 2 :: 1 :: UInt8.ofNat nh.length :: (nh ++ 0 :: ps.flatMap encodePrefixNlri) := by
    simp [mpReachValue, be16]
  have hafi : familyOfAfi (readBe [0, 2]) = some .v6 := by decide
  rw [hvalue, decodeMpReach]
  simp only [if_true, hlen, hafi, splitExact_append (rfl : nh.length = nh.length),
    Option.bind_eq_bind, Option.bind_some, List.drop_succ_cons, List.drop_zero,
    decodePrefixes_flatMap hps, Option.pure_def]

variable {pa : Bytes} (hpa : (filterRawPathAttributes pamap).1 = pa)
include hpa

theorem decodeFields_v4 (hps : ∀ p ∈ ps, p.family = .v4) :
    decodeFields [] pa (ps.flatMap encodePrefixNlri) = some ⟨ps.map (⟨·, pa, none⟩), []⟩ := by
  have hattrs := decodeAttributes_flatMap (fits_keptAttributes pamap)
  rw [← hpa, filterRawPathAttributes_fst, decodeFields]
  simp only [decodePrefixes_nil, hattrs, decodePrefixes_flatMap hps, Option.bind_eq_bind,
    Option.bind_some, filter_kept, filter_kept_code pamap 14 (.inl rfl),
    filter_kept_code pamap 15 (.inr rfl), List.mapM_nil, Option.pure_def]
  simp

theorem decodeFields_v6 (hps : ∀ p ∈ ps, p.family = .v6) {flags : UInt8}
    {nh : Bytes} (hnh : nh.length < 256)
    (hfits : (⟨flags, 14, mpReachValue 2 nh (ps.flatMap encodePrefixNlri)⟩ : Attribute).Fits) :
    decodeFields []
        (pa ++ Attribute.encode ⟨flags, 14, mpReachValue 2 nh (ps.flatMap encodePrefixNlri)⟩) [] =
      some ⟨ps.map (⟨·, pa, some nh⟩), []⟩ := by
  have hdecode := decodeMpReach_value hps hnh
  generalize hdef : (⟨flags, 14, mpReachValue 2 nh (ps.flatMap encodePrefixNlri)⟩ : Attribute) =
    reach at hfits ⊢
  have hcode : reach.typeCode = 14 := by rw [← hdef]
  have hreach : decodeMpReach reach.value = some (nh, ps) := by
    rw [← hdef]
    exact hdecode
  have hall : ∀ a ∈ keptAttributes pamap ++ [reach], a.Fits := by
    intro a ha
    rcases mem_append.mp ha with ha | ha
    · exact fits_keptAttributes pamap a ha
    · cases mem_singleton.mp ha
      exact hfits
  have hattrs := decodeAttributes_flatMap hall
  rw [flatMap_append, flatMap_singleton] at hattrs
  have hothers : (keptAttributes pamap ++ [reach]).filter (fun a => !a.carriesRoutes) =
      keptAttributes pamap := by
    rw [filter_append, filter_kept]
    simp [hcode, Attribute.carriesRoutes]
  have h14 : (keptAttributes pamap ++ [reach]).filter (fun a => a.typeCode = 14) = [reach] := by
    rw [filter_append, filter_kept_code pamap 14 (.inl rfl)]
    simp [hcode]
  have h15 : (keptAttributes pamap ++ [reach]).filter (fun a => a.typeCode = 15) = [] := by
    rw [filter_append, filter_kept_code pamap 15 (.inr rfl)]
    simp [hcode]
  rw [← hpa, filterRawPathAttributes_fst, decodeFields]
  simp only [decodePrefixes_nil, hattrs, Option.bind_eq_bind, Option.bind_some, hothers, h14, h15,
    List.mapM_cons, List.mapM_nil, hreach, Option.pure_def]
  simp

omit hpa

variable (now : Clock) (peer : PeerInfo)

theorem decodeRouteMonitoring_peerMessage {body : Bytes} (hbody : body.length < 65536) :
    decodeRouteMonitoring (peerMessage .routeMonitoring now peer body) =
      (decodeUpdate body).map fun routes => (peer.key, routes) := by
  rw [decodeRouteMonitoring, decodeMessage_peerMessage _ _ _ _ (by
    simp only [bmpCommonHeaderLen, bmpPerPeerHeaderLen]
    omega)]
  simp only [Option.bind_eq_bind, Option.bind_some, if_true, Option.pure_def]
  cases decodeUpdate body <;> rfl

/-- A Route Monitoring message whose UPDATE has no withdrawn routes. -/
def announcing (pa nlri : Bytes) : Bytes :=
  peerMessage .routeMonitoring now peer
    (bgpHeader (19 + (2 + 2 + pa.length + nlri.length)) bgpMsgUpdate ++ be16 0 ++
      be16 pa.length ++ pa ++ nlri)

theorem decode_announcing (pa nlri : Bytes)
    (hfits : 19 + (2 + 2 + pa.length + nlri.length) < 65536) :
    decodeRouteMonitoring (announcing now peer pa nlri) =
      (decodeFields [] pa nlri).map fun routes => (peer.key, routes) := by
  have hlen : (bgpHeader (19 + (2 + 2 + pa.length + nlri.length)) bgpMsgUpdate ++ be16 0 ++
      be16 pa.length ++ pa ++ nlri).length = 19 + (2 + 2 + pa.length + nlri.length) := by
    simp [bgpHeader, bgpMarker]
    omega
  have htotal : 19 + (2 + 2 + pa.length + nlri.length) =
      19 + (2 + ([] : Bytes).length + 2 + pa.length + nlri.length) := by simp
  have hupdate := decodeUpdate_fields [] pa nlri htotal hfits
  rw [length_nil, append_nil] at hupdate
  rw [announcing, decodeRouteMonitoring_peerMessage _ _ (by omega), hupdate]

include hpa

/-- The message for IPv4 prefixes that share their attributes. -/
theorem decode_announcing_v4 (hps : ∀ p ∈ ps, p.isV4 = true)
    (hfits : 19 + (2 + 2 + pa.length + (ps.flatMap encodePrefixNlri).length) < 65536) :
    decodeRouteMonitoring (announcing now peer pa (ps.flatMap encodePrefixNlri)) =
      some (peer.key, ⟨ps.map (announcementOf · pamap), []⟩) := by
  have hfamily : ∀ p ∈ ps, p.family = .v4 := by simpa [Prefix.isV4] using hps
  have hroutes : ps.map (announcementOf · pamap) = ps.map (⟨·, pa, none⟩) := by
    refine map_congr_left fun p hp => ?_
    rw [announcementOf, hpa, if_pos (hps p hp)]
  rw [decode_announcing now peer _ _ hfits, decodeFields_v4 hpa hfamily, hroutes, map_some]

/-- The message for IPv6 prefixes that share their attributes, with an MP_REACH attribute whose
flags go with its length. -/
theorem decode_announcing_v6 (hps : ∀ p ∈ ps, ¬ p.isV4 = true) (reach : Attribute)
    (hcode : reach.typeCode = 14)
    (hvalue : reach.value = mpReachValue 2 (nextHopFor pamap) (ps.flatMap encodePrefixNlri))
    (hreach : reach.Fits) (hfits : 19 + (2 + 2 + (pa.length + reach.encode.length)) < 65536) :
    decodeRouteMonitoring (announcing now peer (pa ++ reach.encode) []) =
      some (peer.key, ⟨ps.map (announcementOf · pamap), []⟩) := by
  have hfamily : ∀ p ∈ ps, p.family = .v6 := by
    intro p hp
    cases hf : p.family with
    | v4 => exact absurd (by simp [Prefix.isV4, hf]) (hps p hp)
    | v6 => rfl
  have hroutes : ps.map (announcementOf · pamap) =
      ps.map (⟨·, pa, some (nextHopFor pamap)⟩) := by
    refine map_congr_left fun p hp => ?_
    rw [announcementOf, hpa, if_neg (hps p hp)]
  obtain ⟨flags, typeCode, value⟩ := reach
  dsimp only at hcode hvalue
  subst hcode hvalue
  rw [decode_announcing now peer _ _ (by simpa using hfits),
    decodeFields_v6 hpa hfamily (length_nextHopFor pamap) hreach, ← hroutes, map_some]

omit hpa

theorem length_mpReachValue (afi : Nat) (nh nlri : Bytes) :
    (mpReachValue afi nh nlri).length = 2 + 1 + 1 + nh.length + 1 + nlri.length := by
  simp [mpReachValue]
  omega

variable (typeCode : UInt8)

theorem extended_long (value : Bytes) :
    (⟨0x90, typeCode, value⟩ : Attribute).extended = true :=
  decide_eq_true (show (0x90 : UInt8) &&& 0x10 ≠ 0 by decide)

theorem not_extended_short (value : Bytes) :
    (⟨0x80, typeCode, value⟩ : Attribute).extended = false :=
  decide_eq_false (show ¬ (0x80 : UInt8) &&& 0x10 ≠ 0 by decide)

/-- An optional attribute as it is written, with the flags its length needs. -/
theorem optionalAttribute_eq (hlen : value.length < 65536) :
    ∃ flags, optionalAttribute typeCode value.length value = Attribute.encode ⟨flags, typeCode, value⟩ ∧
      (⟨flags, typeCode, value⟩ : Attribute).Fits := by
  unfold optionalAttribute
  split
  next hlong =>
    have hext := extended_long typeCode value
    refine ⟨0x90, by simp [Attribute.encode, hext], ?_⟩
    rwa [Attribute.Fits, if_pos hext]
  next hshort =>
    have hext := not_extended_short typeCode value
    refine ⟨0x80, by simp [Attribute.encode, hext], ?_⟩
    rw [Attribute.Fits, if_neg (by simp [hext])]
    dsimp only
    omega

theorem nlriEncodedLen_le (p : Prefix) : nlriEncodedLen p ≤ 17 := by
  have hbits : p.len ≤ p.family.bits := p.len_le
  have hmax : p.family.bits ≤ 128 := by cases p.family <;> decide
  unfold nlriEncodedLen
  omega

variable {now peer} in
theorem decode_buildRouteMonitoring
    (h : buildRouteMonitoring now peer p pamap false = some msg) :
    decodeRouteMonitoring msg = some (peer.key, ⟨[announcementOf p pamap], []⟩) := by
  obtain ⟨update, hupdate, rfl⟩ := map_eq_some_iff.mp h
  unfold buildBgpUpdate at hupdate
  simp only [Bool.false_eq_true, if_false] at hupdate
  split at hupdate
  next hv4 =>
    split at hupdate
    · cases hupdate
    next hlen =>
      cases hupdate
      have hdecode := decode_announcing_v4 rfl now peer
        (show ∀ q ∈ [p], q.isV4 = true by simpa using hv4)
        (by simpa using Nat.lt_succ_of_le (Nat.not_lt.mp hlen))
      simpa [announcing] using hdecode
  next hv4 =>
    have hreach : buildMpReachNlri p (filterRawPathAttributes pamap).2 = optionalAttribute 14
        (mpReachValue 2 (nextHopFor pamap) ([p].flatMap encodePrefixNlri)).length
        (mpReachValue 2 (nextHopFor pamap) ([p].flatMap encodePrefixNlri)) := by
      rw [length_mpReachValue]
      simp [buildMpReachNlri, hv4, afiOf, nextHopFor]
    have hvalue : (mpReachValue 2 (nextHopFor pamap) ([p].flatMap encodePrefixNlri)).length <
        65536 := by
      have hnh := length_nextHopFor pamap
      have hnlri := nlriEncodedLen_le p
      rw [length_mpReachValue, flatMap_singleton, length_encodePrefixNlri]
      omega
    obtain ⟨flags, hencode, hfits⟩ := optionalAttribute_eq 14 hvalue
    rw [hreach, hencode] at hupdate
    split at hupdate
    · cases hupdate
    next hlen =>
      cases hupdate
      have hdecode :=
        decode_announcing_v6 rfl now peer (by simpa using hv4) _ rfl rfl hfits (by omega)
      simpa [announcing] using hdecode

include hpa

/-- The message for many prefixes announces each of them with the attributes they share. -/
theorem decode_buildAggregatedRouteMonitoring_v4 (hps : ∀ p ∈ ps, p.isV4 = true)
    (nextHop : Option Bytes)
    (hfits : 19 + (2 + 2 + pa.length + (ps.flatMap encodePrefixNlri).length) < 65536) :
    decodeRouteMonitoring (buildAggregatedRouteMonitoring now peer ps pa nextHop true) =
      some (peer.key, ⟨ps.map (announcementOf · pamap), []⟩) := by
  rw [buildAggregatedRouteMonitoring]
  simp only [if_true]
  exact decode_announcing_v4 hpa now peer hps hfits

theorem decode_buildAggregatedRouteMonitoring_v6 (hps : ∀ p ∈ ps, ¬ p.isV4 = true)
    (hfits : 19 + (2 + 2 + (pa.length + (4 + (2 + 1 + 1 +
      (nextHopFor pamap).length + 1 + (ps.flatMap encodePrefixNlri).length)))) < 65536) :
    decodeRouteMonitoring
        (buildAggregatedRouteMonitoring now peer ps pa (some (nextHopFor pamap)) false) =
      some (peer.key, ⟨ps.map (announcementOf · pamap), []⟩) := by
  have hvlen := length_mpReachValue 2 (nextHopFor pamap) (ps.flatMap encodePrefixNlri)
  generalize hvalue : mpReachValue 2 (nextHopFor pamap) (ps.flatMap encodePrefixNlri) = value
    at hvlen
  have hext := extended_long 14 value
  have hencode : Attribute.encode ⟨0x90, 14, value⟩ =
      [0x90, 14] ++ be16 value.length ++ value := by
    simp [Attribute.encode, hext]
  have hlen : (Attribute.encode ⟨0x90, 14, value⟩).length = 4 + value.length := by
    simp [hencode]
    omega
  have hattr : (⟨0x90, 14, value⟩ : Attribute).Fits := by
    rw [Attribute.Fits, if_pos hext]
    dsimp only
    omega
  have hdecode := decode_announcing_v6 hpa now peer hps ⟨0x90, 14, value⟩ rfl
    hvalue.symm hattr (by omega)
  rw [announcing, length_append, hlen, hencode, hvlen] at hdecode
  rw [buildAggregatedRouteMonitoring]
  simp only [Bool.false_eq_true, if_false, getD_some, hvalue]
  rw [← hdecode]
  simp

omit hpa

/-! ## Messages that withdraw or end -/

theorem decodePrefixes_single (p : Prefix) :
    decodePrefixes p.family (encodePrefixNlri p) = some [p] := by
  have h : decodePrefixes p.family ([p].flatMap encodePrefixNlri) = some [p] :=
    decodePrefixes_flatMap (by simp)
  rwa [flatMap_singleton] at h

theorem decodeMpUnreach_single (p : Prefix) :
    decodeMpUnreach (be16 (afiOf p) ++ [1] ++ encodePrefixNlri p) = some [p] := by
  have hafi : familyOfAfi (readBe (be16 (afiOf p))) = some p.family := by
    cases hf : p.family <;> simp [afiOf, Prefix.isV4, hf] <;> decide
  simp only [be16, cons_append, nil_append] at hafi ⊢
  simp only [decodeMpUnreach, if_true, hafi, Option.bind_some, decodePrefixes_single]

theorem decodeFields_unreach {flags : UInt8} (hfits : (⟨flags, 15, value⟩ : Attribute).Fits)
    (hvalue : decodeMpUnreach value = some ps) :
    decodeFields [] (Attribute.encode ⟨flags, 15, value⟩) [] = some ⟨[], ps⟩ := by
  have hattrs := decodeAttributes_flatMap (forall_mem_singleton.mpr hfits)
  rw [flatMap_singleton] at hattrs
  rw [decodeFields]
  simp [decodePrefixes_nil, hattrs, Attribute.carriesRoutes, hvalue]

theorem decode_buildRouteMonitoring_withdrawal {now : Clock} {peer : PeerInfo}
    (h : buildRouteMonitoring now peer p pamap true = some msg) :
    decodeRouteMonitoring msg = some (peer.key, ⟨[], [p]⟩) := by
  cases h
  have hnlri := nlriEncodedLen_le p
  unfold buildBgpUpdateWithdrawal
  split
  next hv4 =>
    have hfamily : p.family = .v4 := by simpa [Prefix.isV4] using hv4
    have hprefixes := decodePrefixes_single p
    rw [hfamily] at hprefixes
    have htotal : 19 + (2 + (encodePrefixNlri p).length + 2) =
        19 + (2 + (encodePrefixNlri p).length + 2 + ([] : Bytes).length + ([] : Bytes).length) := rfl
    have hupdate := decodeUpdate_fields (encodePrefixNlri p) [] [] htotal
      (by rw [length_encodePrefixNlri]; omega)
    simp only [length_nil, append_nil] at hupdate
    rw [decodeRouteMonitoring_peerMessage _ _ (by
      simp [bgpHeader, bgpMarker, length_encodePrefixNlri]; omega), hupdate, decodeFields]
    simp only [hprefixes, Option.bind_eq_bind, Option.bind_some]
    rfl
  · have hsum : 2 + 1 + (encodePrefixNlri p).length =
        (be16 (afiOf p) ++ [1] ++ encodePrefixNlri p).length := by
      simp only [length_append, length_be16, length_singleton]
    have hlen : (be16 (afiOf p) ++ [1] ++ encodePrefixNlri p).length < 65536 := by
      rw [← hsum, length_encodePrefixNlri]
      omega
    obtain ⟨flags, hencode, hfits⟩ := optionalAttribute_eq 15 hlen
    have hshort : (Attribute.encode ⟨flags, 15, be16 (afiOf p) ++ [1] ++ encodePrefixNlri p⟩).length
        < 65000 := by
      rw [← hencode, optionalAttribute]
      split <;> simp [length_encodePrefixNlri] <;> omega
    have hdecode := decode_announcing now peer
      (Attribute.encode ⟨flags, 15, be16 (afiOf p) ++ [1] ++ encodePrefixNlri p⟩) []
      (by rw [length_nil]; omega)
    rw [decodeFields_unreach hfits (decodeMpUnreach_single p), announcing, length_nil, Nat.add_zero,
      append_nil, map_some] at hdecode
    rw [buildMpUnreachNlri, hsum, hencode]
    exact hdecode

theorem decode_buildEorIpv4 :
    decodeRouteMonitoring (buildEorIpv4 now peer) = some (peer.key, ⟨[], []⟩) := by
  have hdecode := decode_announcing now peer [] [] (by decide)
  simp only [announcing, length_nil, append_nil] at hdecode
  exact hdecode

theorem decode_buildEorMpUnreach :
    decodeRouteMonitoring (buildEorMpUnreach now peer .ipv6Unicast) =
      some (peer.key, ⟨[], []⟩) := by
  have hext := not_extended_short 15 [0, 2, 1]
  have hfits : (⟨0x80, 15, [0, 2, 1]⟩ : Attribute).Fits := by
    rw [Attribute.Fits, if_neg (by simp [hext])]
    decide
  have hencode : Attribute.encode ⟨0x80, 15, [0, 2, 1]⟩ = [0x80, 15, 3, 0, 2, 1] := by
    simp [Attribute.encode, hext]
  have hvalue : decodeMpUnreach [0, 2, 1] = some [] := by decide
  have hfields := decodeFields_unreach hfits hvalue
  rw [hencode] at hfields
  have hdecode := decode_announcing now peer [0x80, 15, 3, 0, 2, 1] [] (by decide)
  rw [hfields, announcing, append_nil] at hdecode
  exact hdecode

/-! ## Type-length-value fields -/

/-- A field with its type and its length in two octets each. -/
def nextTlv (bs : Bytes) : Option ((Nat × Bytes) × Bytes) := do
  let (typ, rest) ← splitExact 2 bs
  let (len, rest) ← splitExact 2 rest
  let (value, rest) ← splitExact (readBe len) rest
  return ((readBe typ, value), rest)

theorem readsTlv {field : Nat × Bytes} (htyp : field.1 < 65536) (h : field.2.length ≤ 65535) :
    Reads nextTlv (fun field => tlv field.1 field.2) field := by
  refine ⟨by simp [tlv, be16], fun rest => ?_⟩
  have hlen : readBe (be16 field.2.length) = field.2.length := by
    rw [readBe_be16]
    omega
  have htype : readBe (be16 field.1) = field.1 := by
    rw [readBe_be16]
    omega
  simp only [tlv, nextTlv, append_assoc, splitExact_append (length_be16 _), hlen, htype,
    splitExact_append (rfl : field.2.length = field.2.length), Option.bind_eq_bind,
    Option.bind_some, Option.pure_def]

end Rotonda.BmpOut
