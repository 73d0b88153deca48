import Rotonda.BmpOut.Decode

/-!
The NLRI of a single-route message, read with the AFI and SAFI that it stands under.

The decoder of the routes accepts unicast only.  The reader here takes any SAFI, as a receiver
does, and finds the same prefixes in every message that decodes.

* `messageNlri_of_decode`: the reader on a message that decodes;
* `messageNlri_built`: a single-route message has one prefix, which stands under unicast;
* `roundTrips_iff`: so the message is about the route exactly when the route is unicast.
-/

namespace Rotonda.BmpOut

open Lib.Bytes List Option

variable {view : RoutesView} {nlri : Bytes} {ps : List Prefix}

/-! ## Reading -/

/-- A prefix and what it stands under in a message. -/
structure WireNlri where
  afi : Nat
  safi : UInt8
  pfx : Prefix
  deriving DecidableEq

structure NlriView where
  announced : List WireNlri
  withdrawn : List WireNlri
  deriving DecidableEq

def nlriOf (afi : Nat) (safi : UInt8) (nlri : Bytes) : Option (List WireNlri) :=
  (familyOfAfi afi).bind fun f => (decodePrefixes f nlri).map (List.map (⟨afi, safi, ·⟩))

def reachNlri (value : Bytes) : Option (List WireNlri) :=
  match value with
  | a₁ :: a₂ :: safi :: nhLen :: rest => (splitExact nhLen.toNat rest).bind fun (_, rest) =>
    nlriOf (readBe [a₁, a₂]) safi (rest.drop 1)
  | _ => none

def unreachNlri (value : Bytes) : Option (List WireNlri) :=
  match value with
  | a₁ :: a₂ :: safi :: rest => nlriOf (readBe [a₁, a₂]) safi rest
  | _ => none

def fieldsNlri (withdrawn pathAttributes nlri : Bytes) : Option NlriView := do
  let withdrawn ← nlriOf 1 1 withdrawn
  let attributes ← decodeAttributes pathAttributes
  let nlri ← nlriOf 1 1 nlri
  let reach ← (attributes.filter fun a => a.typeCode = 14).mapM fun a => reachNlri a.value
  let unreach ← (attributes.filter fun a => a.typeCode = 15).mapM fun a => unreachNlri a.value
  return ⟨nlri ++ reach.flatten, withdrawn ++ unreach.flatten⟩

def updateFields (update : Bytes) : Option (Bytes × Bytes × Bytes) := do
  let (marker, rest) ← splitExact 16 update
  let (len, rest) ← splitExact 2 rest
  let (typ, rest) ← splitExact 1 rest
  let (withdrawnLen, rest) ← splitExact 2 rest
  let (withdrawn, rest) ← splitExact (readBe withdrawnLen) rest
  let (paLen, rest) ← splitExact 2 rest
  let (pathAttributes, nlri) ← splitExact (readBe paLen) rest
  if marker = bgpMarker ∧ readBe len = update.length ∧ typ = [bgpMsgUpdate] then
    return (withdrawn, pathAttributes, nlri)
  else none

def messageNlri (msg : Bytes) : Option NlriView := do
  let (typ, _, body) ← decodeMessage msg
  if typ = MsgType.routeMonitoring.code then
    let (withdrawn, pathAttributes, nlri) ← updateFields body
    fieldsNlri withdrawn pathAttributes nlri
  else none

/-! ## Messages that decode -/

def unicastNlri (p : Prefix) : WireNlri := ⟨afiOf p, 1, p⟩

theorem updateFields_of_decode {update : Bytes} (h : decodeUpdate update = some view) :
    ∃ withdrawn pathAttributes nlri,
      updateFields update = some (withdrawn, pathAttributes, nlri) ∧
      decodeFields withdrawn pathAttributes nlri = some view := by
  unfold decodeUpdate at h
  obtain ⟨⟨marker, rest₁⟩, h₁, h⟩ := bind_eq_some_iff.mp h
  obtain ⟨⟨len, rest₂⟩, h₂, h⟩ := bind_eq_some_iff.mp h
  obtain ⟨⟨typ, rest₃⟩, h₃, h⟩ := bind_eq_some_iff.mp h
  obtain ⟨⟨withdrawnLen, rest₄⟩, h₄, h⟩ := bind_eq_some_iff.mp h
  obtain ⟨⟨withdrawn, rest₅⟩, h₅, h⟩ := bind_eq_some_iff.mp h
  obtain ⟨⟨paLen, rest₆⟩, h₆, h⟩ := bind_eq_some_iff.mp h
  obtain ⟨⟨pathAttributes, nlri⟩, h₇, h⟩ := bind_eq_some_iff.mp h
  dsimp only at h
  refine ⟨withdrawn, pathAttributes, nlri, ?_, ?_⟩
  · unfold updateFields
    simp only [h₁, h₂, h₃, h₄, h₅, h₆, h₇, Option.bind_eq_bind, Option.bind_some]
    split at h
    next hheader => rw [if_pos hheader]; rfl
    · cases h
  · split at h
    · exact h
    · cases h

theorem family_of_decodePrefixes {f : Family}
    (h : decodePrefixes f nlri = some ps) : ∀ p ∈ ps, p.family = f := by
  refine mem_many_of (fun bs p rest hnext => ?_) h
  unfold nextPrefix at hnext
  split at hnext
  · cases hnext
  next len tail =>
    split at hnext
    · obtain ⟨⟨significant, rest'⟩, _, hp⟩ := bind_eq_some_iff.mp hnext
      dsimp only at hp
      split at hp <;> cases hp
      rfl
    · cases hnext

theorem nlriOf_of_decodePrefixes {afi : Nat} {f : Family} (hafi : familyOfAfi afi = some f)
    (h : decodePrefixes f nlri = some ps) : nlriOf afi 1 nlri = some (ps.map unicastNlri) := by
  have hafiOf : ∀ p ∈ ps, afiOf p = afi := by
    intro p hp
    have hfamily := family_of_decodePrefixes h p hp
    rw [afiOf, Prefix.isV4, hfamily]
    unfold familyOfAfi at hafi
    split at hafi <;> cases hafi <;> rfl
  rw [nlriOf, hafi, Option.bind_some, h, map_some]
  congr 1
  refine map_congr_left fun p hp => ?_
  rw [unicastNlri, hafiOf p hp]

theorem reachNlri_of_decode {value nextHop : Bytes} (h : decodeMpReach value = some (nextHop, ps)) :
    reachNlri value = some (ps.map unicastNlri) := by
  unfold decodeMpReach at h
  split at h
  next a₁ a₂ safi nhLen rest =>
    split at h
    next hsafi =>
      obtain ⟨f, hafi, h⟩ := bind_eq_some_iff.mp h
      obtain ⟨⟨nh, tail⟩, hsplit, h⟩ := bind_eq_some_iff.mp h
      obtain ⟨ps', hps, heq⟩ := bind_eq_some_iff.mp h
      cases heq
      rw [reachNlri, hsplit, Option.bind_some, hsafi]
      exact nlriOf_of_decodePrefixes hafi hps
    · cases h
  · cases h

theorem unreachNlri_of_decode {value : Bytes}
    (h : decodeMpUnreach value = some ps) : unreachNlri value = some (ps.map unicastNlri) := by
  unfold decodeMpUnreach at h
  split at h
  next a₁ a₂ safi rest =>
    split at h
    next hsafi =>
      obtain ⟨f, hafi, h⟩ := bind_eq_some_iff.mp h
      rw [unreachNlri, hsafi]
      exact nlriOf_of_decodePrefixes hafi h
    · cases h
  · cases h

theorem mapM_eq_some_map {α β γ : Type} {f : α → Option β} {g : α → Option γ} {k : β → γ}
    (hfg : ∀ a b, f a = some b → g a = some (k b)) {as : List α} {bs : List β}
    (h : as.mapM f = some bs) : as.mapM g = some (bs.map k) := by
  induction as generalizing bs with
  | nil =>
    cases h
    rfl
  | cons a as ih =>
    rw [mapM_cons] at h
    obtain ⟨b, hb, h⟩ := bind_eq_some_iff.mp h
    obtain ⟨tail, htail, heq⟩ := bind_eq_some_iff.mp h
    cases heq
    simp [hfg a b hb, ih htail]

theorem fieldsNlri_of_decode {withdrawn pathAttributes : Bytes}
    (h : decodeFields withdrawn pathAttributes nlri = some view) :
    fieldsNlri withdrawn pathAttributes nlri =
      some ⟨view.announced.map (unicastNlri ·.pfx), view.withdrawn.map unicastNlri⟩ := by
  obtain ⟨ws, hws, h⟩ := bind_eq_some_iff.mp h
  obtain ⟨attributes, hattrs, h⟩ := bind_eq_some_iff.mp h
  obtain ⟨ns, hns, h⟩ := bind_eq_some_iff.mp h
  obtain ⟨reach, hreach, h⟩ := bind_eq_some_iff.mp h
  obtain ⟨unreach, hunreach, heq⟩ := bind_eq_some_iff.mp h
  cases heq
  have hafi : familyOfAfi 1 = some .v4 := rfl
  have hws' := nlriOf_of_decodePrefixes hafi hws
  have hns' := nlriOf_of_decodePrefixes hafi hns
  have hreach' := mapM_eq_some_map (k := fun r => r.2.map unicastNlri)
    (fun a (r : Bytes × List Prefix) (h : decodeMpReach a.value = some r) =>
      reachNlri_of_decode h) hreach
  have hunreach' := mapM_eq_some_map (k := List.map unicastNlri)
    (fun a _ (h : decodeMpUnreach (Attribute.value a) = _) => unreachNlri_of_decode h) hunreach
  simp only [fieldsNlri, hws', hns', hattrs, hreach', hunreach', Option.bind_eq_bind,
    Option.bind_some, Option.pure_def]
  simp [List.flatMap_def, List.map_flatten, Function.comp_def]

/-- The reader finds the prefixes of a message that decodes, all under unicast. -/
theorem messageNlri_of_decode {msg : Bytes} {peer : Bytes}
    (h : decodeRouteMonitoring msg = some (peer, view)) :
    messageNlri msg =
      some ⟨view.announced.map (unicastNlri ·.pfx), view.withdrawn.map unicastNlri⟩ := by
  unfold decodeRouteMonitoring at h
  obtain ⟨⟨typ, peer', body⟩, hmsg, h⟩ := bind_eq_some_iff.mp h
  dsimp only at h
  split at h
  next htyp =>
    obtain ⟨view', hview, heq⟩ := bind_eq_some_iff.mp h
    cases heq
    obtain ⟨withdrawn, pathAttributes, nlri, hfields, hdecode⟩ := updateFields_of_decode hview
    simp only [messageNlri, hmsg, htyp, hfields, Option.bind_eq_bind, Option.bind_some, if_true]
    exact fieldsNlri_of_decode hdecode
  · cases h

/-! ## Single-route messages -/

/-- The route as a message should name it. -/
def routeNlri (route : RotondaRoute) : WireNlri :=
  match route with
  | .ipv4Unicast n _ => ⟨1, 1, n.1⟩
  | .ipv6Unicast n _ => ⟨2, 1, n.1⟩
  | .ipv4Multicast n _ => ⟨1, 2, n.1⟩
  | .ipv6Multicast n _ => ⟨2, 2, n.1⟩

def NlriView.only (isWithdrawal : Bool) (nlri : WireNlri) : NlriView :=
  if isWithdrawal then ⟨[], [nlri]⟩ else ⟨[nlri], []⟩

/-- The message is about the route only, and its length fields are right. -/
def RoundTrips (route : RotondaRoute) (isWithdrawal : Bool) (msg : Bytes) : Prop :=
  messageNlri msg = some (.only isWithdrawal (routeNlri route)) ∧ LengthsExact msg

section Built

variable {now : Clock} {peer : PeerInfo} {route : RotondaRoute} {isWithdrawal : Bool} {msg : Bytes}

/-- What the messages are about, whatever the route is. -/
theorem messageNlri_built (h : buildRouteMonitoringFromRoute now peer route isWithdrawal = some msg)
    : messageNlri msg = some (.only isWithdrawal (unicastNlri route.pfx)) ∧ LengthsExact msg := by
  cases isWithdrawal with
  | true =>
    have hdecode := decode_buildRouteMonitoring_withdrawal h
    exact ⟨messageNlri_of_decode hdecode, lengthsExact_of_decode hdecode⟩
  | false =>
    have hdecode := decode_buildRouteMonitoring h
    exact ⟨messageNlri_of_decode hdecode, lengthsExact_of_decode hdecode⟩

theorem routeNlri_eq_unicastNlri_iff (route : RotondaRoute) :
    unicastNlri route.pfx = routeNlri route ↔ route.multicast = false := by
  cases route with
  | ipv4Unicast n pamap | ipv4Multicast n pamap =>
    have hafi : afiOf n.1 = 1 := by simp [afiOf, Prefix.isV4, n.2]
    simp [unicastNlri, routeNlri, RotondaRoute.pfx, RotondaRoute.multicast, hafi]
  | ipv6Unicast n pamap | ipv6Multicast n pamap =>
    have hafi : afiOf n.1 = 2 := by simp [afiOf, Prefix.isV4, n.2]
    simp [unicastNlri, routeNlri, RotondaRoute.pfx, RotondaRoute.multicast, hafi]

/-- A message is about its route exactly when the route is unicast. -/
theorem roundTrips_iff
    (h : buildRouteMonitoringFromRoute now peer route isWithdrawal = some msg) :
    RoundTrips route isWithdrawal msg ↔ route.multicast = false := by
  obtain ⟨hnlri, hlengths⟩ := messageNlri_built h
  rw [RoundTrips, hnlri, ← routeNlri_eq_unicastNlri_iff, and_iff_left hlengths]
  cases isWithdrawal <;> simp [NlriView.only]

end Built

/-- The peer of the messages below. -/
def examplePeer : PeerInfo := .fromIngressInfo {}

/-- A message is built for the unicast route 10.0.0.0/8, and it is about the route. -/
theorem roundTrips_unicast :
    ∃ msg, buildRouteMonitoringFromRoute ⟨0, 0⟩ examplePeer
        (.ipv4Unicast (.slash8 10) .emptyPathAttributes) false = some msg ∧
      RoundTrips (.ipv4Unicast (.slash8 10) .emptyPathAttributes) false msg :=
  ⟨_, rfl, (roundTrips_iff rfl).mpr rfl⟩

/-- The message for the multicast route 10.0.0.0/8 announces it under unicast. -/
theorem multicast_announced_as_unicast :
    ∃ msg, buildRouteMonitoringFromRoute ⟨0, 0⟩ examplePeer
        (.ipv4Multicast (.slash8 10) .emptyPathAttributes) false = some msg ∧
      messageNlri msg = some ⟨[⟨1, 1, .slash8 10⟩], []⟩ ∧
      routeNlri (.ipv4Multicast (.slash8 10) .emptyPathAttributes) = ⟨1, 2, .slash8 10⟩ := by
  obtain ⟨msg, hmsg⟩ : ∃ msg, buildRouteMonitoringFromRoute ⟨0, 0⟩ examplePeer
      (.ipv4Multicast (.slash8 10) .emptyPathAttributes) false = some msg := ⟨_, rfl⟩
  exact ⟨msg, hmsg, (messageNlri_built hmsg).1, rfl⟩

end Rotonda.BmpOut
