import Rotonda.BmpOut.Client
import Rotonda.BmpOut.NextHops
import Rotonda.BmpOut.PeerUp

/-!
The AS path of a route before and after it is restreamed.

A blob is stored with the width of its AS numbers and passed on byte for byte.  What a receiver takes
the width to be follows from the Peer Up and the per-peer header, which are made up without it.

* `announcedWidth`: the width that a Peer Up and a Route Monitoring message announce together;
* `parseAsPath_eq_iff`: a path reads the same with both widths exactly when it has no AS numbers;
* `asPath_survives_iff`: so a path survives exactly when it was stored with four octets or has no AS
  numbers.
-/

namespace Rotonda.BmpOut

open Lib Lib.Bytes List Option

/-! ## AS paths -/

structure Segment where
  segmentType : UInt8
  asns : List Nat
  deriving DecidableEq

def asnsOf (width count : Nat) (bs : Bytes) : List Nat :=
  (List.range count).map fun i => readBe ((bs.drop (i * width)).take width)

def nextSegment (width : Nat) : Bytes → Option (Segment × Bytes)
  | segmentType :: count :: rest =>
    (splitExact (count.toNat * width) rest).map fun (asns, rest) =>
      (⟨segmentType, asnsOf width count.toNat asns⟩, rest)
  | _ => none

def parseAsPath (width : Nat) (value : Bytes) : Option (List Segment) :=
  many (nextSegment width) value.length value

/-- The AS path among some attributes, if there is one; it may be malformed. -/
def asPathIn (width : Nat) (as : List Attribute) : Option (Option (List Segment)) :=
  (attributeOf 2 as).map fun a => parseAsPath width a.value

/-- Octets of an AS number, from the parse info that is stored beside a blob. -/
def asnWidth (ppi : UInt8) : Nat := if ppi = 1 then 4 else 2

def storedAsPath (pamap : RotondaPaMap) : Option (Option (List Segment)) :=
  asPathIn (asnWidth pamap.ppi) (routeAttributes pamap)

theorem length_of_nextSegment {width : Nat} {bs : Bytes} {s : Segment} {rest : Bytes}
    (h : nextSegment width bs = some (s, rest)) :
    bs.length = (2 + s.asns.length * width) + rest.length := by
  unfold nextSegment at h
  split at h
  next segmentType count tail =>
    obtain ⟨⟨asns, rest'⟩, hsplit, heq⟩ := map_eq_some_iff.mp h
    cases heq
    obtain ⟨htail, hlen⟩ := splitExact_eq_some hsplit
    simp only [htail, asnsOf, length_cons, length_append, length_map, length_range, hlen]
    omega
  · cases h

/-- A segment without AS numbers has no width. -/
theorem nextSegment_of_nil {width width' : Nat} {bs : Bytes} {s : Segment} {rest : Bytes}
    (h : nextSegment width bs = some (s, rest)) (hs : s.asns = []) :
    nextSegment width' bs = some (s, rest) := by
  unfold nextSegment at h
  split at h
  next segmentType count tail =>
    obtain ⟨⟨asns, rest'⟩, hsplit, heq⟩ := map_eq_some_iff.mp h
    cases heq
    have hcount : count.toNat = 0 := by simpa [asnsOf] using hs
    rw [hcount, Nat.zero_mul] at hsplit
    rw [nextSegment, hcount, Nat.zero_mul, hsplit]
    rfl
  · cases h

/-- The path reads the same whatever the width: it has no AS numbers, or it cannot be read. -/
def Numberless (value : Bytes) : Prop :=
  (parseAsPath 2 value = none ∧ parseAsPath 4 value = none) ∨
    ∃ path, parseAsPath 2 value = some path ∧ ∀ s ∈ path, s.asns = []

theorem sum_lengths_le (path : List Segment) :
    (path.map fun s => 2 + s.asns.length * 2).sum ≤
      (path.map fun s => 2 + s.asns.length * 4).sum := by
  induction path with
  | nil => exact Nat.le_refl _
  | cons s path ih =>
    simp only [map_cons, sum_cons]
    omega

/-- A path that takes as many octets with one width as with the other has no AS numbers. -/
theorem asns_eq_nil_of_sum {path : List Segment}
    (h : (path.map fun s => 2 + s.asns.length * 4).sum =
      (path.map fun s => 2 + s.asns.length * 2).sum) : ∀ s ∈ path, s.asns = [] := by
  induction path with
  | nil => nofun
  | cons s path ih =>
    simp only [map_cons, sum_cons] at h
    have htail := sum_lengths_le path
    intro s' hs'
    rcases mem_cons.mp hs' with rfl | hs'
    · exact length_eq_zero_iff.mp (by omega)
    · exact ih (by omega) s' hs'

theorem parseAsPath_eq_iff (value : Bytes) :
    parseAsPath 4 value = parseAsPath 2 value ↔ Numberless value := by
  constructor
  · intro h
    cases htwo : parseAsPath 2 value with
    | none => exact .inl ⟨htwo, h.trans htwo⟩
    | some path =>
      have hlen₂ := length_of_many (fun _ _ _ h => length_of_nextSegment h) htwo
      have hlen₄ := length_of_many (fun _ _ _ h => length_of_nextSegment h) (h.trans htwo)
      exact .inr ⟨path, htwo, asns_eq_nil_of_sum (hlen₄.symm.trans hlen₂)⟩
  · rintro (⟨htwo, hfour⟩ | ⟨path, htwo, hempty⟩)
    · rw [htwo, hfour]
    · rw [htwo]
      exact many_congr (fun _ _ _ h hs => nextSegment_of_nil h hs) htwo hempty

/-! ## What a receiver takes the width to be -/

/-- Both OPENs of a Peer Up have the capability for AS numbers of four octets. -/
def peerUpFourOctet (msg : Bytes) : Option Bool :=
  (decodePeerUp msg).map fun view =>
    !view.sentOpen.fourOctetAsns.isEmpty && !view.receivedOpen.fourOctetAsns.isEmpty

/-- The flag for AS paths of two octets in the header of a message about a peer. -/
def legacyAsPathFlag (msg : Bytes) : Option Bool := do
  let (_, key, _) ← decodeMessage msg
  let flags ← key[1]?
  return flags &&& 0x20 ≠ 0

/-- Octets of an AS number in a message, from its header and the Peer Up before it. -/
def announcedWidth (peerUp msg : Bytes) : Option Nat := do
  let fourOctet ← peerUpFourOctet peerUp
  let legacy ← legacyAsPathFlag msg
  return if fourOctet && !legacy then 4 else 2

theorem peerUpFourOctet_buildPeerUp (now : Clock) (peer : PeerInfo) (gracefulRestart : Bool) :
    peerUpFourOctet (buildPeerUp now peer gracefulRestart) = some true := by
  rw [peerUpFourOctet, decodePeerUp_eq, map_some, fourOctetAsns_openViewOf]
  rfl

/-- No made-up header has the flag for two octets. -/
theorem legacyAsPathFlag_of_decode {cfg : EmitConfig} {reg : Register} {info : IngressInfo}
    {msg : Bytes} {routes : RoutesView}
    (h : decodeRouteMonitoring msg = some ((buildPeerInfoForEmit cfg reg info).key, routes)) :
    legacyAsPathFlag msg = some false := by
  have hflags : (buildPeerInfoForEmit cfg reg info).peerFlags =
      (PeerInfo.fromIngressInfo info).peerFlags := by
    unfold buildPeerInfoForEmit
    split
    · rw [PeerInfo.applyFanInDistinguisher]
      split <;> rfl
    · rfl
  have hclear : (PeerInfo.fromIngressInfo info).peerFlags &&& 0x20 = 0 := by
    unfold PeerInfo.fromIngressInfo
    dsimp only
    cases info.peerRibType with
    | none => split <;> decide
    | some ribType => cases ribType <;> split <;> decide
  unfold decodeRouteMonitoring at h
  obtain ⟨⟨typ, key, body⟩, hmsg, h⟩ := bind_eq_some_iff.mp h
  dsimp only at h
  split at h
  · obtain ⟨view, _, heq⟩ := bind_eq_some_iff.mp h
    cases heq
    rw [legacyAsPathFlag, hmsg]
    simp [PeerInfo.key, hflags, hclear]
  · cases h

/-! ## Restreaming -/

/-- Stored with AS numbers of four octets, or without AS numbers in its path. -/
def AsPathKept (pamap : RotondaPaMap) : Prop :=
  pamap.ppi = 1 ∨ ∀ a, attributeOf 2 (routeAttributes pamap) = some a → Numberless a.value

def Announcement.asPath (width : Nat) (a : Announcement) : Option (Option (List Segment)) :=
  (decodeAttributes a.attributes).bind (asPathIn width)

theorem asPath_announcementOf (width : Nat) (p : Prefix) (pamap : RotondaPaMap) :
    (announcementOf p pamap).asPath width = asPathIn width (routeAttributes pamap) := by
  rw [Announcement.asPath, announcementOf, filterRawPathAttributes_fst,
    decodeAttributes_flatMap (fits_keptAttributes pamap), Option.bind_some, asPathIn, asPathIn,
    keptAttributes, attributeOf_kept (by decide)]

theorem asPathIn_eq_stored_iff (pamap : RotondaPaMap) :
    asPathIn 4 (routeAttributes pamap) = storedAsPath pamap ↔ AsPathKept pamap := by
  rw [storedAsPath, asnWidth, AsPathKept]
  by_cases hppi : pamap.ppi = 1
  · simp [hppi]
  · simp only [hppi, if_false, false_or]
    unfold asPathIn
    cases attributeOf 2 (routeAttributes pamap) with
    | none => simp
    | some a => simp [parseAsPath_eq_iff]

/-- The path that a receiver reads, with the width that the Peer Up and the header announce, is the
stored one exactly when the blob was stored with four octets or the path has no AS numbers.  Peer Up
and message may be made up from any entries of any registers. -/
theorem asPath_survives_iff (now now' : Clock) (cfg cfg' : EmitConfig) (reg reg' : Register)
    (info info' : IngressInfo) (gracefulRestart : Bool) {route : RotondaRoute} {msg : Bytes}
    (h : buildRouteMonitoringFromRoute now' (buildPeerInfoForEmit cfg' reg' info') route false =
      some msg) :
    ∃ width a,
      announcedWidth (buildPeerUp now (buildPeerInfoForEmit cfg reg info) gracefulRestart) msg =
        some width ∧
      decodeRouteMonitoring msg = some ((buildPeerInfoForEmit cfg' reg' info').key, ⟨[a], []⟩) ∧
      (a.asPath width = storedAsPath route.rotondaPamap ↔ AsPathKept route.rotondaPamap) := by
  have hdecode := decode_buildRouteMonitoring h
  refine ⟨4, _, ?_, hdecode, ?_⟩
  · rw [announcedWidth, peerUpFourOctet_buildPeerUp, legacyAsPathFlag_of_decode hdecode]
    rfl
  · rw [asPath_announcementOf]
    exact asPathIn_eq_stored_iff route.rotondaPamap

/-- The route 10.0.0.0/8 with an AS path and the parse info that it was stored with. -/
def slash8Path (ppi : UInt8) (value : Bytes) : RotondaRoute :=
  .ipv4Unicast (.slash8 10)
    ⟨RovStatus.notChecked.toByte, ppi, Attribute.encode ⟨0x40, 2, value⟩⟩

/-- Headers without labels and tags. -/
def plainEmit : EmitConfig := ⟨false, none⟩

/-- A path of four octets survives. -/
theorem asPath_survives_four_octets :
    ∃ msg width a,
      buildRouteMonitoringFromRoute ⟨0, 0⟩ (buildPeerInfoForEmit plainEmit .new {})
        (slash8Path 1 [2, 1, 0, 0, 253, 232]) false = some msg ∧
      announcedWidth (buildPeerUp ⟨0, 0⟩ (buildPeerInfoForEmit plainEmit .new {}) false) msg =
        some width ∧
      decodeRouteMonitoring msg =
        some ((buildPeerInfoForEmit plainEmit .new {}).key, ⟨[a], []⟩) ∧
      a.asPath width = some (some [⟨2, [65000]⟩]) := by
  obtain ⟨msg, hmsg⟩ : ∃ msg, buildRouteMonitoringFromRoute ⟨0, 0⟩
      (buildPeerInfoForEmit plainEmit .new {}) (slash8Path 1 [2, 1, 0, 0, 253, 232]) false =
        some msg := ⟨_, rfl⟩
  obtain ⟨width, a, hwidth, hdecode, hpath⟩ :=
    asPath_survives_iff ⟨0, 0⟩ ⟨0, 0⟩ plainEmit plainEmit .new .new {} {} false hmsg
  exact ⟨msg, width, a, hmsg, hwidth, hdecode, hpath.mpr (.inl rfl)⟩

/-- A path of two octets with the AS number 65000 is announced as one of four octets, and cannot be
read as such. -/
theorem asPath_lost_two_octets :
    storedAsPath (slash8Path 0 [2, 1, 253, 232]).rotondaPamap = some (some [⟨2, [65000]⟩]) ∧
      ∃ msg a, buildRouteMonitoringFromRoute ⟨0, 0⟩ (buildPeerInfoForEmit plainEmit .new {})
          (slash8Path 0 [2, 1, 253, 232]) false = some msg ∧
        announcedWidth (buildPeerUp ⟨0, 0⟩ (buildPeerInfoForEmit plainEmit .new {}) false) msg =
          some 4 ∧
        decodeRouteMonitoring msg =
          some ((buildPeerInfoForEmit plainEmit .new {}).key, ⟨[a], []⟩) ∧
        a.asPath 4 = some none := by
  obtain ⟨msg, hmsg⟩ : ∃ msg, buildRouteMonitoringFromRoute ⟨0, 0⟩
      (buildPeerInfoForEmit plainEmit .new {}) (slash8Path 0 [2, 1, 253, 232]) false =
        some msg := ⟨_, rfl⟩
  have hdecode := decode_buildRouteMonitoring hmsg
  refine ⟨by decide, msg, _, hmsg, ?_, hdecode, by decide⟩
  rw [announcedWidth, peerUpFourOctet_buildPeerUp, legacyAsPathFlag_of_decode hdecode]
  rfl

end Rotonda.BmpOut
