import Rotonda.BmpOut.Decode

/-!
A made-up Peer Up as a receiver walks it: the common header's length, two OPEN messages with their
own lengths, the optional parameters and capabilities inside them, and the TLVs after them.

The walk is strict.  It accepts a message only if every length field ends where the field around it
ends, so that what it reads is all there is.

* `decodeOpenBody`, `nextOpenView`: an OPEN with its parameters read to their end;
* `decodePeerUp`: the whole message;
* `decodePeerUp_buildPeerUp`: what the walk recovers of a made-up Peer Up.
-/

namespace Rotonda.BmpOut

open Lib Lib.Bytes List Option

/-! ## The walk -/

/-- A field with its type and its length in one octet each. -/
def nextTlv8 : Bytes → Option ((UInt8 × Bytes) × Bytes)
  | typ :: len :: rest => (splitExact len.toNat rest).map fun (value, rest) => ((typ, value), rest)
  | _ => none

structure OpenView where
  version : UInt8
  myAs : Nat
  holdTime : Nat
  bgpId : Bytes
  capabilities : List (UInt8 × Bytes)
  deriving DecidableEq

def OpenView.fourOctetAsns (o : OpenView) : List Nat :=
  (o.capabilities.filter fun c => c.1 = 65).map fun c => readBe c.2

/-- An OPEN after its header; the optional parameters go to its end. -/
def decodeOpenBody (body : Bytes) : Option OpenView := do
  let (version, rest) ← splitExact 1 body
  let (myAs, rest) ← splitExact 2 rest
  let (holdTime, rest) ← splitExact 2 rest
  let (bgpId, rest) ← splitExact 4 rest
  let (optLen, params) ← splitExact 1 rest
  if readBe optLen = params.length then
    let params ← many nextTlv8 params.length params
    let capabilities ← (params.filter fun p => p.1 = 2).mapM fun p => many nextTlv8 p.2.length p.2
    return ⟨version.headD 0, readBe myAs, readBe holdTime, bgpId, capabilities.flatten⟩
  else none

/-- Take an OPEN off the front. -/
def nextOpenView (bs : Bytes) : Option (OpenView × Bytes) := do
  let (marker, rest) ← splitExact 16 bs
  let (len, rest) ← splitExact 2 rest
  let (typ, rest) ← splitExact 1 rest
  let (body, rest) ← splitExact (readBe len - 19) rest
  if marker = bgpMarker ∧ typ = [bgpMsgOpen] then
    let view ← decodeOpenBody body
    return (view, rest)
  else none

structure PeerUpView where
  key : Bytes
  localAddress : Bytes
  localPort : Nat
  remotePort : Nat
  sentOpen : OpenView
  receivedOpen : OpenView
  tlvs : List (Nat × Bytes)
  deriving DecidableEq

def decodePeerUp (msg : Bytes) : Option PeerUpView := do
  let (typ, key, body) ← decodeMessage msg
  if typ = MsgType.peerUp.code then
    let (localAddress, rest) ← splitExact 16 body
    let (localPort, rest) ← splitExact 2 rest
    let (remotePort, rest) ← splitExact 2 rest
    let (sentOpen, rest) ← nextOpenView rest
    let (receivedOpen, rest) ← nextOpenView rest
    let tlvs ← many nextTlv rest.length rest
    return ⟨key, localAddress, readBe localPort, readBe remotePort, sentOpen, receivedOpen, tlvs⟩
  else none

/-! ## OPEN messages -/

def encodeTlv8 (field : UInt8 × Bytes) : Bytes :=
  field.1 :: UInt8.ofNat field.2.length :: field.2

theorem readsTlv8 {field : UInt8 × Bytes} (h : field.2.length < 256) :
    Reads nextTlv8 encodeTlv8 field := by
  refine ⟨by simp [encodeTlv8], fun rest => ?_⟩
  have hlen : (UInt8.ofNat field.2.length).toNat = field.2.length := by
    simp only [UInt8.toNat_ofNat']
    omega
  have hsplit : splitExact field.2.length (field.2 ++ rest) = some (field.2, rest) :=
    splitExact_append rfl
  simp only [encodeTlv8, cons_append, nextTlv8, hlen, hsplit, map_some]

def openCapabilitiesOf (asn : Asn) (gracefulRestart : Bool) : List (UInt8 × Bytes) :=
  [(65, be32 asn.toNat), (1, be16 1 ++ [0, 1]), (1, be16 2 ++ [0, 1])] ++
    if gracefulRestart then
      [(64, be16 0 ++ (gracefulRestartEntry 1 ++ gracefulRestartEntry 2))]
    else []

def openBody (asn : Asn) (gracefulRestart : Bool) : Bytes :=
  (buildBgpOpen asn true gracefulRestart).drop 19

/-- The OPEN that is made up for an AS number. -/
def openViewOf (asn : Asn) (gracefulRestart : Bool) : OpenView :=
  ⟨4, if asn.toNat > 65535 then 23456 else asn.toNat, 90, List.replicate 4 0,
    openCapabilitiesOf asn gracefulRestart⟩

section

variable (asn : Asn) (gracefulRestart : Bool)

theorem many_openCapabilitiesOf :
    many nextTlv8 ((openCapabilitiesOf asn gracefulRestart).flatMap encodeTlv8).length
      ((openCapabilitiesOf asn gracefulRestart).flatMap encodeTlv8) =
        some (openCapabilitiesOf asn gracefulRestart) := by
  have hreads : ∀ c ∈ openCapabilitiesOf asn gracefulRestart, Reads nextTlv8 encodeTlv8 c := by
    intro c hc
    refine readsTlv8 ?_
    cases gracefulRestart <;> simp [openCapabilitiesOf] at hc <;>
      rcases hc with rfl | rfl | rfl | rfl <;> simp [gracefulRestartEntry]
  exact many_flatMap hreads (length_le_flatMap hreads)

theorem length_buildBgpOpen_lt : (buildBgpOpen asn true gracefulRestart).length < 100 := by
  have hlen : (buildBgpOpen asn true gracefulRestart).length = if gracefulRestart then 61 else 49 := by
    cases gracefulRestart <;> rfl
  rw [hlen]
  split <;> decide

theorem length_openParameter_lt :
    (encodeTlv8 (2, (openCapabilitiesOf asn gracefulRestart).flatMap encodeTlv8)).length < 100 := by
  have hlen : (encodeTlv8 (2, (openCapabilitiesOf asn gracefulRestart).flatMap encodeTlv8)).length =
      if gracefulRestart then 32 else 20 := by
    cases gracefulRestart <;> rfl
  rw [hlen]
  split <;> decide

theorem buildBgpOpen_eq :
    buildBgpOpen asn true gracefulRestart =
      bgpMarker ++ (be16 (19 + (openBody asn gracefulRestart).length) ++
        ([bgpMsgOpen] ++ openBody asn gracefulRestart)) := by
  cases gracefulRestart <;> rfl

theorem openBody_eq :
    openBody asn gracefulRestart =
      [4] ++ (be16 (if asn.toNat > 65535 then 23456 else asn.toNat) ++ (be16 90 ++
        (List.replicate 4 0 ++
        ([UInt8.ofNat (encodeTlv8 (2, (openCapabilitiesOf asn gracefulRestart).flatMap
          encodeTlv8)).length] ++
          encodeTlv8 (2, (openCapabilitiesOf asn gracefulRestart).flatMap encodeTlv8))))) := by
  cases gracefulRestart <;> rfl

theorem decodeOpenBody_openBody :
    decodeOpenBody (openBody asn gracefulRestart) = some (openViewOf asn gracefulRestart) := by
  have hlen := length_openParameter_lt asn gracefulRestart
  have hcaps := many_openCapabilitiesOf asn gracefulRestart
  have hasn : readBe (be16 (if asn.toNat > 65535 then 23456 else asn.toNat)) =
      if asn.toNat > 65535 then 23456 else asn.toNat := by
    rw [readBe_be16]
    split <;> omega
  rw [openBody_eq, openViewOf]
  generalize openCapabilitiesOf asn gracefulRestart = fields at hlen hcaps ⊢
  generalize fields.flatMap encodeTlv8 = caps at hlen hcaps ⊢
  have hread : readBe [UInt8.ofNat (encodeTlv8 (2, caps)).length] =
      (encodeTlv8 (2, caps)).length := by
    simp only [readBe, foldl_cons, foldl_nil, UInt8.toNat_ofNat']
    omega
  have hvalue : caps.length < 256 := by
    simp only [encodeTlv8, length_cons] at hlen
    omega
  have hparams : many nextTlv8 (encodeTlv8 (2, caps)).length (encodeTlv8 (2, caps)) =
      some [(2, caps)] := by
    have hparam : Reads nextTlv8 encodeTlv8 (2, caps) := readsTlv8 hvalue
    have hreads : ∀ f ∈ [((2 : UInt8), caps)], Reads nextTlv8 encodeTlv8 f := by
      simpa using hparam
    simpa using many_flatMap hreads (length_le_flatMap hreads)
  generalize encodeTlv8 (2, caps) = params at hread hparams ⊢
  rw [decodeOpenBody]
  simp only [Option.bind_eq_bind, Option.bind_some,
    splitExact_append (show [(4 : UInt8)].length = 1 from rfl), splitExact_append (length_be16 _),
    splitExact_append (List.length_replicate (n := 4) (a := (0 : UInt8))),
    splitExact_append (show [UInt8.ofNat params.length].length = 1 from rfl), hread, if_true,
    hparams]
  simp [hcaps, hasn, readBe_be16]

theorem nextOpenView_buildBgpOpen (rest : Bytes) :
    nextOpenView (buildBgpOpen asn true gracefulRestart ++ rest) =
      some (openViewOf asn gracefulRestart, rest) := by
  have hread : readBe (be16 (19 + (openBody asn gracefulRestart).length)) - 19 =
      (openBody asn gracefulRestart).length := by
    have hopen := length_buildBgpOpen_lt asn gracefulRestart
    rw [readBe_be16, openBody, List.length_drop]
    omega
  have hview := decodeOpenBody_openBody asn gracefulRestart
  rw [buildBgpOpen_eq]
  generalize openBody asn gracefulRestart = body at hread hview ⊢
  simp only [nextOpenView, append_assoc, splitExact_append (show bgpMarker.length = 16 from rfl),
    splitExact_append (length_be16 _), splitExact_append (show [bgpMsgOpen].length = 1 from rfl),
    hread, splitExact_append (rfl : body.length = body.length), Option.bind_eq_bind,
    Option.bind_some, and_self, if_true, hview, Option.pure_def]

/-- The capability for four octets is there once, with the AS number. -/
theorem fourOctetAsns_openViewOf :
    (openViewOf asn gracefulRestart).fourOctetAsns = [asn.toNat] := by
  have hread : readBe (be32 asn.toNat) = asn.toNat := by
    rw [readBe_be32]
    exact Nat.mod_eq_of_lt asn.toNat_lt
  cases gracefulRestart <;> simp [OpenView.fourOctetAsns, openViewOf, openCapabilitiesOf, hread]

end

/-! ## The whole message -/

/-- The TLVs of a Peer Up: a label that fits the length field, or nothing. -/
def adminLabelTlvs (label : Option String) : List (Nat × Bytes) :=
  match label with
  | some label => if (utf8 label).length ≤ 65535 then [(4, utf8 label)] else []
  | none => []

def encodeTlvs (fields : List (Nat × Bytes)) : Bytes :=
  fields.flatMap fun field => tlv field.1 field.2

/-- The label of a Peer Up and the length summed up for it. -/
theorem adminLabel_eq (label : Option String) :
    ((label.map utf8).filter fun label => label.length ≤ 65535).elim [] (tlv 4) =
        encodeTlvs (adminLabelTlvs label) ∧
      (((label.map utf8).filter fun label => label.length ≤ 65535).elim 0 fun label =>
        4 + label.length) = (encodeTlvs (adminLabelTlvs label)).length := by
  cases label with
  | none => exact ⟨rfl, rfl⟩
  | some label =>
    by_cases h : (utf8 label).length ≤ 65535
    · simp [encodeTlvs, adminLabelTlvs, filter_some, h, tlv]
      omega
    · simp [encodeTlvs, adminLabelTlvs, filter_some, h]

theorem adminLabelTlvs_fit {label : Option String} {field : Nat × Bytes}
    (h : field ∈ adminLabelTlvs label) : field.1 = 4 ∧ field.2.length ≤ 65535 := by
  cases label with
  | none => simp [adminLabelTlvs] at h
  | some label =>
    rw [adminLabelTlvs] at h
    split at h
    next hfits =>
      cases mem_singleton.mp h
      exact ⟨rfl, hfits⟩
    · cases h

theorem length_adminLabelTlvs_le (label : Option String) :
    (encodeTlvs (adminLabelTlvs label)).length ≤ 65539 := by
  cases label with
  | none => simp [encodeTlvs, adminLabelTlvs]
  | some label =>
    rw [adminLabelTlvs]
    split
    · simp only [encodeTlvs, flatMap_singleton, tlv, length_append, length_be16]
      omega
    · simp [encodeTlvs]

def peerUpBody (peer : PeerInfo) (gracefulRestart : Bool) : Bytes :=
  List.replicate 16 0 ++ (be16 0 ++ (be16 179 ++ (buildBgpOpen peer.peerAsn true gracefulRestart ++
    (buildBgpOpen peer.peerAsn true gracefulRestart ++
      encodeTlvs (adminLabelTlvs peer.adminLabel)))))

section

variable (now : Clock) (peer : PeerInfo) (gracefulRestart : Bool)

/-- The length summed up for the body is that of its bytes. -/
theorem buildPeerUp_eq :
    buildPeerUp now peer gracefulRestart =
      peerMessage .peerUp now peer (peerUpBody peer gracefulRestart) := by
  obtain ⟨hbytes, hlen⟩ := adminLabel_eq peer.adminLabel
  simp only [buildPeerUp, hbytes, hlen, peerMessage, peerUpBody, append_assoc, length_append,
    List.length_replicate, length_be16]
  congr 1
  omega

theorem length_peerUpBody_lt :
    bmpCommonHeaderLen + bmpPerPeerHeaderLen + (peerUpBody peer gracefulRestart).length <
      4294967296 := by
  have hopen := length_buildBgpOpen_lt peer.peerAsn gracefulRestart
  have hlabel := length_adminLabelTlvs_le peer.adminLabel
  simp only [peerUpBody, length_append, List.length_replicate, length_be16, bmpCommonHeaderLen,
    bmpPerPeerHeaderLen]
  omega

theorem decodePeerUp_eq :
    decodePeerUp (buildPeerUp now peer gracefulRestart) =
      some ⟨peer.key, List.replicate 16 0, 0, 179, openViewOf peer.peerAsn gracefulRestart,
        openViewOf peer.peerAsn gracefulRestart, adminLabelTlvs peer.adminLabel⟩ := by
  have hreads : ∀ field ∈ adminLabelTlvs peer.adminLabel,
      Reads nextTlv (fun field => tlv field.1 field.2) field := by
    intro field hfield
    obtain ⟨htyp, hlen⟩ := adminLabelTlvs_fit hfield
    exact readsTlv (by omega) hlen
  have htlvs : many nextTlv (encodeTlvs (adminLabelTlvs peer.adminLabel)).length
      (encodeTlvs (adminLabelTlvs peer.adminLabel)) = some (adminLabelTlvs peer.adminLabel) :=
    many_flatMap hreads (length_le_flatMap hreads)
  rw [buildPeerUp_eq, decodePeerUp,
    decodeMessage_peerMessage _ _ _ _ (length_peerUpBody_lt peer gracefulRestart), peerUpBody]
  simp only [Option.bind_eq_bind, Option.bind_some, if_true,
    splitExact_append (List.length_replicate (n := 16) (a := (0 : UInt8))),
    splitExact_append (length_be16 _), nextOpenView_buildBgpOpen, htlvs, readBe_be16,
    Option.pure_def]

/-- The walk takes a made-up Peer Up apart to its last byte: the common header's length is the length
of the message, both OPENs have the AS number of the peer as their only capability for four octets,
and a label is there if and only if its length fits. -/
theorem decodePeerUp_buildPeerUp (now : Clock) (peer : PeerInfo) (gracefulRestart : Bool) :
    readBe (((buildPeerUp now peer gracefulRestart).drop 1).take 4) =
        (buildPeerUp now peer gracefulRestart).length ∧
      ∃ view, decodePeerUp (buildPeerUp now peer gracefulRestart) = some view ∧
        view.key = peer.key ∧
        view.sentOpen.fourOctetAsns = [peer.peerAsn.toNat] ∧
        view.receivedOpen.fourOctetAsns = [peer.peerAsn.toNat] ∧
        view.tlvs = adminLabelTlvs peer.adminLabel := by
  refine ⟨?_, _, decodePeerUp_eq now peer gracefulRestart, rfl, fourOctetAsns_openViewOf ..,
    fourOctetAsns_openViewOf .., rfl⟩
  rw [buildPeerUp_eq, length_peerMessage, peerMessage, messageOf, writeCommonHeader, append_assoc,
    append_assoc, cons_append, drop_one, tail_cons, take_left' (length_be32 _), readBe_be32]
  exact Nat.mod_eq_of_lt (length_peerUpBody_lt peer gracefulRestart)

end

end Rotonda.BmpOut
