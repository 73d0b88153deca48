import Rotonda.Node.Exclusive
import Rotonda.BmpOut.Client

/-!
Peers of different upstream routers in the stream to one BMP client.

With the fan-in distinguisher the header of a peer without a distinguisher gets a tag of its
router.  A peer that has one keeps it, and so do the peers of other routers in the same VRF.

* `receiverKey`: the octets by which a receiver tells peers apart;
* `Clash`: two entries that keep the same distinguisher and agree in everything else;
* `receiverKey_ne_iff`: peers of different routers have different keys exactly when they do not
  clash.
-/

namespace Rotonda.Node

open BmpIn BmpOut Lib.Runs List

variable {info : IngressInfo}

/-! ## The key of a header -/

/-- Peer type, flags, distinguisher and address at the front of a per-peer header. -/
def receiverKey (header : Bytes) : Bytes := header.take 26

def peerKey (peer : PeerInfo) : Bytes :=
  [PeerInfo.typeCode peer.peerType, peer.peerFlags] ++
    (peer.peerDistinguisher.val ++ PeerInfo.address16 peer.peerAddress)

theorem receiverKey_header (now : Clock) (peer : PeerInfo) :
    receiverKey (writePerPeerHeader now peer) = peerKey peer := by
  have hlen : (peerKey peer).length = 26 := by
    simp [peerKey, PeerInfo.length_address16, peer.peerDistinguisher.property]
  have happ : writePerPeerHeader now peer = peerKey peer ++
      (Lib.Bytes.be32 peer.peerAsn.toNat ++ peer.peerBgpId.val ++
        Lib.Bytes.be32 now.seconds.toNat ++ Lib.Bytes.be32 now.micros.toNat) := by
    simp [writePerPeerHeader, PeerInfo.key, peerKey]
  rw [receiverKey, happ, ← hlen, take_left]

/-- The fields have fixed widths, so equal keys have equal fields. -/
theorem peerKey_inj {p q : PeerInfo} :
    peerKey p = peerKey q ↔
      PeerInfo.typeCode p.peerType = PeerInfo.typeCode q.peerType ∧ p.peerFlags = q.peerFlags ∧
        p.peerDistinguisher = q.peerDistinguisher ∧
        PeerInfo.address16 p.peerAddress = PeerInfo.address16 q.peerAddress := by
  constructor
  · intro h
    obtain ⟨hhead, htail⟩ := append_inj h rfl
    have hlen : p.peerDistinguisher.val.length = q.peerDistinguisher.val.length :=
      p.peerDistinguisher.property.trans q.peerDistinguisher.property.symm
    obtain ⟨hdist, haddr⟩ := append_inj htail hlen
    simp only [List.cons.injEq, and_true] at hhead
    exact ⟨hhead.1, hhead.2, Subtype.ext hdist, haddr⟩
  · rintro ⟨htype, hflags, hdist, haddr⟩
    rw [peerKey, peerKey, htype, hflags, hdist, haddr]

/-! ## The entries of two routers -/

/-- A connected peer of a BMP router in the register. -/
structure PeerOf (reg : Register) (router : IngressId) (info : IngressInfo) : Prop where
  entry : ∃ id, reg.get id = some info
  viaBmp : info.ingressType = some .bgpViaBmp
  connected : info.state = some .connected
  parent : info.parentIngress = some router

/-- The tags of routers with peers in the register differ, and no distinguisher is one. -/
structure TagsApart (reg : Register) (hash : IngressId → UInt64) : Prop where
  injective : ∀ p q info info', PeerOf reg p info → PeerOf reg q info' →
    PeerInfo.fanInDistinguisherTag hash p = PeerInfo.fanInDistinguisherTag hash q → p = q
  unused : ∀ p q info info' d, PeerOf reg p info → PeerOf reg q info' →
    info'.distinguisher = some d → PeerInfo.fanInDistinguisherTag hash p ≠ d

/-- Both entries have a distinguisher of their own, which is the same, and agree in the other
fields of the key. -/
def Clash (info info' : IngressInfo) : Prop :=
  (PeerInfo.fromIngressInfo info).peerDistinguisher ≠ zeroDistinguisher ∧
    peerKey (PeerInfo.fromIngressInfo info) = peerKey (PeerInfo.fromIngressInfo info')

instance (info info' : IngressInfo) : Decidable (Clash info info') :=
  inferInstanceAs (Decidable (_ ∧ _))

/-- The header that a client is sent for an entry. -/
def headerFor (hash : IngressId → UInt64) (label : Bool) (reg : Register) (now : Clock)
    (info : IngressInfo) : Bytes :=
  writePerPeerHeader now (buildPeerInfoForEmit ⟨label, some hash⟩ reg info)

/-- The distinguisher of an emitted header: that of the entry, or the tag of its router. -/
theorem emitted_eq (hash : IngressId → UInt64) (label : Bool) (reg : Register) {p : IngressId}
    (hp : info.parentIngress = some p) :
    peerKey (buildPeerInfoForEmit ⟨label, some hash⟩ reg info) =
      peerKey ((PeerInfo.fromIngressInfo info).applyFanInDistinguisher
        (PeerInfo.fanInDistinguisherTag hash p)) := by
  simp only [buildPeerInfoForEmit, hp, PeerInfo.applyFanInDistinguisher]
  split <;> rfl

theorem distinguisher_of_ne_zero
    (h : (PeerInfo.fromIngressInfo info).peerDistinguisher ≠ zeroDistinguisher) :
    info.distinguisher = some (PeerInfo.fromIngressInfo info).peerDistinguisher := by
  cases hd : info.distinguisher with
  | none => simp [PeerInfo.fromIngressInfo, hd] at h
  | some d => simp [PeerInfo.fromIngressInfo, hd]

/-- Peers of different upstream routers are told apart exactly when they do not clash. -/
theorem receiverKey_ne_iff {reg : Register} {hash : IngressId → UInt64}
    (htags : TagsApart reg hash) {p q : IngressId} (hpq : p ≠ q) {info info' : IngressInfo}
    (hp : PeerOf reg p info) (hq : PeerOf reg q info') (label : Bool) (now now' : Clock) :
    receiverKey (headerFor hash label reg now info) ≠
        receiverKey (headerFor hash label reg now' info') ↔ ¬ Clash info info' := by
  rw [headerFor, headerFor, receiverKey_header, receiverKey_header, emitted_eq _ _ _ hp.parent,
    emitted_eq _ _ _ hq.parent, not_iff_not]
  unfold PeerInfo.applyFanInDistinguisher Clash
  by_cases hd : (PeerInfo.fromIngressInfo info).peerDistinguisher = zeroDistinguisher
  · -- the first header carries the tag of its router, which is on no other header
    simp only [hd, if_true, not_true_eq_false, false_and, iff_false, ne_eq]
    intro hkey
    obtain ⟨_, _, hdist, _⟩ := peerKey_inj.mp hkey
    split at hdist
    · exact hpq (htags.injective p q info info' hp hq hdist)
    next hd' =>
      exact htags.unused p q info info' _ hp hq (distinguisher_of_ne_zero hd') hdist
  · simp only [hd, if_false, not_false_eq_true, true_and, ne_eq]
    by_cases hd' : (PeerInfo.fromIngressInfo info').peerDistinguisher = zeroDistinguisher
    · simp only [hd', if_true]
      constructor
      · intro hkey
        obtain ⟨_, _, hdist, _⟩ := peerKey_inj.mp hkey
        exact absurd hdist.symm
          (htags.unused q p info' info _ hq hp (distinguisher_of_ne_zero hd))
      · intro hkey
        obtain ⟨_, _, hdist, _⟩ := peerKey_inj.mp hkey
        exact absurd (hdist.trans hd') hd
    · simp only [hd', if_false]

/-! ## Two routers with the same neighbour -/

namespace Neighbour

open Twice (proceeds message config runs)
open BmpIn.Reconnect (addr pph)

variable {sys : System (MapStore RotondaPaMap)}

/-- The neighbour in a VRF that both routers have under the same distinguisher. -/
def vrfPph : PerPeerHeader :=
  { pph with peerType := .rdInstance, distinguisher := ⟨[0, 0, 253, 232, 0, 0, 0, 1], rfl⟩ }

def upOf (pph : PerPeerHeader) : PeerUp := ⟨pph, ⟨true, []⟩, false, [], [], none⟩

def joins (pph : PerPeerHeader) (n : Nat) (name : String) : List Move :=
  .session n (.connect 1 addr) :: proceeds n 3 ++ message n (.initiationMessage [name] [] []) 6 ++
    message n (.peerUpNotification (upOf pph)) 6

def both (pph : PerPeerHeader) : List Move := joins pph 0 "a" ++ joins pph 1 "b"

def peersOf (reg : Register) : List IngressInfo :=
  (List.range reg.serial).filterMap fun id =>
    (reg.get id).filter fun info => info.ingressType = some .bgpViaBmp

theorem mem_peersOf {moves : List Move}
    (hun : System.Unwrapped (unitIds 1) config (.start 1 : System (MapStore RotondaPaMap)) moves)
    (h : runs moves = some sys) {p : IngressId} :
    PeerOf sys.hub.register p info ↔
      info ∈ peersOf sys.hub.register ∧ info.state = some .connected ∧
        info.parentIngress = some p := by
  obtain ⟨own, hkept⟩ := System.kept_of_exec hun h
  constructor
  · rintro ⟨⟨id, hget⟩, htype, hstate, hparent⟩
    have hlt := hkept.sound.numbered id (by rw [hget]; rfl)
    refine ⟨mem_filterMap.mpr ⟨id, mem_range.mpr hlt, ?_⟩, hstate, hparent⟩
    simp [hget, htype]
  · rintro ⟨hmem, hstate, hparent⟩
    obtain ⟨id, _, hid⟩ := mem_filterMap.mp hmem
    obtain ⟨hget, htype⟩ := Option.filter_eq_some_iff.mp hid
    exact ⟨⟨id, hget⟩, of_decide_eq_true htype, hstate, hparent⟩

/-- The two peers are the peers of the register after both routers joined. -/
theorem peerOf_both {pph : PerPeerHeader}
    (hun : System.Unwrapped (unitIds 1) config (.start 1 : System (MapStore RotondaPaMap)) (both pph))
    (h : runs (both pph) = some sys)
    (hpeers : peersOf sys.hub.register = [(upOf pph).query 2, (upOf pph).query 4]) (p : IngressId)
    (info : IngressInfo) :
    PeerOf sys.hub.register p info ↔ (p = 2 ∨ p = 4) ∧ info = (upOf pph).query p := by
  rw [mem_peersOf hun h, hpeers]
  constructor
  · rintro ⟨hmem, _, hparent⟩
    rcases mem_cons.mp hmem with rfl | hmem
    · cases hparent
      exact ⟨.inl rfl, rfl⟩
    · cases mem_singleton.mp hmem
      cases hparent
      exact ⟨.inr rfl, rfl⟩
  · rintro ⟨rfl | rfl, rfl⟩
    · exact ⟨mem_cons_self, rfl, rfl⟩
    · exact ⟨mem_cons_of_mem _ (mem_singleton_self _), rfl, rfl⟩

/-- Whatever the tags are, the headers of the two peers in the VRF have the same key. -/
theorem vrf_peers_collide :
    ∃ sys, runs (both vrfPph) = some sys ∧
      PeerOf sys.hub.register 2 ((upOf vrfPph).query 2) ∧
      PeerOf sys.hub.register 4 ((upOf vrfPph).query 4) ∧
      ∀ hash label now now', receiverKey
          (headerFor hash label sys.hub.register now ((upOf vrfPph).query 2)) =
        receiverKey (headerFor hash label sys.hub.register now' ((upOf vrfPph).query 4)) := by
  have hrun : (runs (both vrfPph)).map (fun sys => peersOf sys.hub.register) =
      some [(upOf vrfPph).query 2, (upOf vrfPph).query 4] := by decide +kernel
  obtain ⟨sys, hsys, hpeers⟩ := Option.map_eq_some_iff.mp hrun
  have hof := peerOf_both (System.unwrapped_of_test (by decide +kernel)) hsys hpeers
  have hp := (hof 2 _).mpr ⟨.inl rfl, rfl⟩
  have hq := (hof 4 _).mpr ⟨.inr rfl, rfl⟩
  refine ⟨sys, hsys, hp, hq, fun hash label now now' => ?_⟩
  rw [headerFor, headerFor, receiverKey_header, receiverKey_header, emitted_eq _ _ _ hp.parent,
    emitted_eq _ _ _ hq.parent]
  rfl

/-- Without a distinguisher of their own the two peers are told apart. -/
theorem global_peers_apart :
    ∃ sys, runs (both pph) = some sys ∧ ∀ now now',
      receiverKey (headerFor UInt64.ofNat false sys.hub.register now ((upOf pph).query 2)) ≠
        receiverKey (headerFor UInt64.ofNat false sys.hub.register now' ((upOf pph).query 4)) := by
  have hrun : (runs (both pph)).map (fun sys => peersOf sys.hub.register) =
      some [(upOf pph).query 2, (upOf pph).query 4] := by decide +kernel
  obtain ⟨sys, hsys, hpeers⟩ := Option.map_eq_some_iff.mp hrun
  have hof := peerOf_both (System.unwrapped_of_test (by decide +kernel)) hsys hpeers
  have htags : TagsApart sys.hub.register UInt64.ofNat := by
    constructor
    · intro p q info info' hp hq htag
      obtain ⟨rfl | rfl, _⟩ := (hof p info).mp hp <;>
        obtain ⟨rfl | rfl, _⟩ := (hof q info').mp hq
      · rfl
      · exact absurd htag (by decide)
      · exact absurd htag (by decide)
      · rfl
    · intro p q info info' d hp hq hd
      obtain ⟨_, rfl⟩ := (hof q info').mp hq
      cases hd
  refine ⟨sys, hsys, fun now now' => ?_⟩
  exact (receiverKey_ne_iff htags (by decide) ((hof 2 _).mpr ⟨.inl rfl, rfl⟩)
    ((hof 4 _).mpr ⟨.inr rfl, rfl⟩) false now now').mpr (by decide)

end Neighbour

end Rotonda.Node
