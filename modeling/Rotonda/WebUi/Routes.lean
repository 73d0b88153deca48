import Mathlib.Data.Finset.Basic
import Mathlib.Data.Finset.Dedup
import Rotonda.RibUnit.Jsonl

/-!
Pages of the web interface on the routes of peers.  They ask for the more specifics of the default
routes, so a default route itself is not among what they show.

* `routesDiff_partitions_iff`: when the prefixes of two peers are shown as what both hold Active and
  what one of them holds.
-/

namespace Rotonda.WebUi

open Rib

variable {S : Type} [PrefixStore S RotondaPaMap] [QueryStore S RotondaPaMap]
  [SearchStore S RotondaPaMap] (lib : Library) (rib : Rib S)

def unicast : Family → AfiSafiType
  | .v4 => .ipv4Unicast
  | .v6 => .ipv6Unicast

/-- The record set of a search for the routes of an ingress. -/
def moreSpecifics (f : Family) (id : IngressId) : Except String (List (PrefixRecord RotondaPaMap)) :=
  (rib.searchRoutes lib (unicast f) (.defaultRoute f)
    { includes := [.moreSpecifics], ingressId := some id }).map fun r =>
      r.queryResult.moreSpecifics.getD []

/-- The part `v4` or `v6` of a record set. -/
def partFor (f : Family) (set : List (PrefixRecord RotondaPaMap)) :
    List (PrefixRecord RotondaPaMap) :=
  set.filter (·.pfx.family = f)

/-- What a search for the routes of an ingress finds. -/
def listed (f : Family) (id : IngressId) : List (Prefix × Record RotondaPaMap) :=
  (routes (longerPrefixes rib.unicast f)).filter fun pr => pr.2.multiUniqId == id

section Search

variable {rib} {f : Family} (h : Searchable rib.unicast f) (id : IngressId)
include h

theorem moreSpecifics_spec : ∃ set, moreSpecifics lib rib f id = .ok set ∧
    (∀ pr ∈ set, pr.metaData ≠ []) ∧ (routes set).Perm (listed rib f id) := by
  obtain ⟨res, hres, hans⟩ := h.answers (some id)
  have hstore : rib.storeFor lib (unicast f) = .ok rib.unicast := by cases f <;> rfl
  have happly : applyFilter lib { includes := [.moreSpecifics], ingressId := some id }
      rib.ingressRegister.get none = List.filter fun r => r.multiUniqId == id := by
    funext rs
    simp [applyFilter, retainIf, QueryFilter.onAttributes]
  refine ⟨retainSet (List.filter fun r => r.multiUniqId == id) (res.moreSpecifics.getD []), ?_,
    ?_, ?_⟩
  · have hopts : QueryFilter.options { includes := [.moreSpecifics], ingressId := some id } =
        ⟨.exactMatch, false, false, true, some id⟩ := rfl
    simp only [moreSpecifics, searchRoutes, hstore, hopts, hres, Library.rotoFilter, happly, bind,
      Except.bind, pure, Except.pure, Except.map]
    cases res.moreSpecifics <;> rfl
  · simp [retainSet]
  · rw [routes_retainSet]
    exact filter_perm_of_mui (fun _ hid => hid) hans.longer

theorem mem_listed {p : Prefix} {r : Record RotondaPaMap} : (p, r) ∈ listed rib f id ↔
    p.family = f ∧ 0 < p.len ∧ r ∈ liveRecords rib.unicast p ∧ r.multiUniqId = id := by
  have hfamily := h.family p
  have hkey := h.complete p
  simp only [listed, routes, longerPrefixes]
  grind

theorem mem_partFor {set : List (PrefixRecord RotondaPaMap)} (hne : ∀ pr ∈ set, pr.metaData ≠ [])
    (hset : (routes set).Perm (listed rib f id)) {p : Prefix} :
    (∃ pr ∈ partFor f set, pr.pfx = p) ↔ ∃ r, (p, r) ∈ listed rib f id := by
  have hroutes : ∀ r, (p, r) ∈ listed rib f id ↔ ∃ pr ∈ set, r ∈ pr.metaData ∧ pr.pfx = p := by
    intro r
    rw [← hset.mem_iff]
    simp [routes]
  constructor
  · rintro ⟨pr, hpr, rfl⟩
    have hpr := (List.mem_filter.mp hpr).1
    obtain ⟨r, hr⟩ := List.exists_mem_of_ne_nil _ (hne pr hpr)
    exact ⟨r, (hroutes r).mpr ⟨pr, hpr, hr, rfl⟩⟩
  · rintro ⟨r, hr⟩
    have hf := ((mem_listed h id).mp hr).1
    obtain ⟨pr, hpr, -, rfl⟩ := (hroutes r).mp hr
    exact ⟨pr, by simp [partFor, hpr, hf], rfl⟩

end Search

/-! ## The difference of two peers -/

/-- The prefixes fetched for one peer, as an ordered set. -/
def fetchPrefixes (id : IngressId) : Finset Prefix :=
  let prefixes f := match moreSpecifics lib rib f id with
    | .ok set => ((partFor f set).map (·.pfx)).toFinset
    | .error _ => ∅
  prefixes .v4 ∪ prefixes .v6

structure RoutesDiff where
  peerA : IngressInfo
  peerB : IngressInfo
  bmpA : Option (IngressId × IngressInfo)
  bmpB : Option (IngressId × IngressInfo)
  onlyA : Finset Prefix
  onlyB : Finset Prefix
  both : Finset Prefix

/-- The page, up to its rendering. -/
def routesDiff (store : Option (Rib S)) (register : Register) (a b : IngressId) :
    Except String RoutesDiff := do
  let some rib := store | .error "store not ready"
  let some infoA := register.get a
    | .error "no information for ingress id \x7bingress_a\x7d"
  let some infoB := register.get b
    | .error "no information for ingress id \x7bingress_a\x7d"
  let bmp (info : IngressInfo) := info.parentIngress.bind fun id => (register.get id).map (id, ·)
  let prefixesA := fetchPrefixes lib rib a
  let prefixesB := fetchPrefixes lib rib b
  return {
    peerA := infoA, peerB := infoB, bmpA := bmp infoA, bmpB := bmp infoB
    onlyA := prefixesA \ prefixesB
    onlyB := prefixesB \ prefixesA
    both := prefixesA ∩ prefixesB }

def HoldsActive (id : IngressId) (p : Prefix) : Prop :=
  ∃ r ∈ liveRecords rib.unicast p, r.multiUniqId = id ∧ r.status = .active

/-- Every prefix of one of two peers or of both stands once and where it belongs, and no other. -/
def RoutesDiff.Partitions (d : RoutesDiff) (ofA ofB : Prefix → Prop) : Prop :=
  ∀ p, (p ∈ d.both ↔ ofA p ∧ ofB p) ∧ (p ∈ d.onlyA ↔ ofA p ∧ ¬ ofB p) ∧
    (p ∈ d.onlyB ↔ ofB p ∧ ¬ ofA p)

/-- The peer has no default route, and its other prefixes are Active. -/
def ShownWhole (id : IngressId) : Prop :=
  (∀ f, ¬ HoldsActive rib id (.defaultRoute f)) ∧ ∀ p, 0 < p.len →
    (∃ r ∈ liveRecords rib.unicast p, r.multiUniqId = id) → HoldsActive rib id p

variable {rib} (hsearch : ∀ f, Searchable rib.unicast f)
include hsearch

theorem mem_fetchPrefixes (id : IngressId) (p : Prefix) : p ∈ fetchPrefixes lib rib id ↔
    0 < p.len ∧ ∃ r ∈ liveRecords rib.unicast p, r.multiUniqId = id := by
  obtain ⟨set₄, heq₄, hne₄, hset₄⟩ := moreSpecifics_spec lib (hsearch .v4) id
  obtain ⟨set₆, heq₆, hne₆, hset₆⟩ := moreSpecifics_spec lib (hsearch .v6) id
  simp only [fetchPrefixes, heq₄, heq₆, Finset.mem_union, List.mem_toFinset, List.mem_map,
    mem_partFor (hsearch _) id hne₄ hset₄, mem_partFor (hsearch _) id hne₆ hset₆,
    mem_listed (hsearch _)]
  cases p.family <;> simp

theorem shownWhole_iff (id : IngressId) :
    ShownWhole rib id ↔ ∀ p, p ∈ fetchPrefixes lib rib id ↔ HoldsActive rib id p := by
  simp only [mem_fetchPrefixes lib hsearch]
  constructor
  · rintro ⟨hdefault, hlonger⟩ p
    refine ⟨fun ⟨hlen, hr⟩ => hlonger p hlen hr, fun hactive => ⟨Nat.pos_of_ne_zero fun hlen => ?_, ?_⟩⟩
    · exact hdefault p.family (Prefix.eq_defaultRoute rfl hlen ▸ hactive)
    · exact hactive.imp fun r hr => ⟨hr.1, hr.2.1⟩
  · intro hall
    exact ⟨fun f hactive => absurd ((hall _).mpr hactive).1 (by simp [Prefix.defaultRoute]),
      fun p hlen hr => (hall p).mp ⟨hlen, hr⟩⟩

theorem routesDiff_partitions_iff {register : Register} {a b : IngressId} {d : RoutesDiff}
    (hdiff : routesDiff lib (some rib) register a b = .ok d) :
    d.Partitions (HoldsActive rib a) (HoldsActive rib b) ↔
      ShownWhole rib a ∧ ShownWhole rib b := by
  have hsets : d.onlyA = fetchPrefixes lib rib a \ fetchPrefixes lib rib b ∧
      d.onlyB = fetchPrefixes lib rib b \ fetchPrefixes lib rib a ∧
      d.both = fetchPrefixes lib rib a ∩ fetchPrefixes lib rib b := by
    unfold routesDiff at hdiff
    cases hinfoA : register.get a <;> cases hinfoB : register.get b <;>
      simp_all [pure, Except.pure]
    subst hdiff
    simp
  rw [shownWhole_iff lib hsearch, shownWhole_iff lib hsearch, ← forall_and]
  refine forall_congr' fun p => ?_
  simp only [hsets, Finset.mem_sdiff, Finset.mem_inter]
  grind

omit hsearch

/-- Two peers are known. -/
def twoPeers : Register := (Register.new.insert 1 {}).insert 2 {}

/-- Two routes of ingress 1, of which ingress 2 has one too. -/
def overlapping : Rib (MapStore RotondaPaMap) :=
  ⟨((MapStore.tryDefault.insert (.slash8 10) ⟨1, 0, .active, .emptyPathAttributes⟩).insert
    (.slash8 11) ⟨1, 0, .active, .emptyPathAttributes⟩).insert
    (.slash8 10) ⟨2, 0, .active, .emptyPathAttributes⟩, .tryDefault, .new⟩

theorem shownWhole_overlapping (id : IngressId) : ShownWhole overlapping id := by
  have hlive : ∀ {p r}, r ∈ liveRecords overlapping.unicast p →
      (p = .slash8 10 ∨ p = .slash8 11) ∧ r.status = .active := by
    intro p r hr
    rw [MapStore.liveRecords_eq] at hr
    have hread := MapStore.mem_recordsFor.mp (List.mem_filter.mp hr).1
    simp only [overlapping, MapStore.read, MapStore.insert, MapStore.tryDefault] at hread
    split_ifs at hread <;> simp_all <;> rw [← hread]
  constructor
  · rintro f ⟨r, hr, _⟩
    have hp := (hlive hr).1
    revert hp
    cases f <;> decide
  · rintro p _ ⟨r, hr, hid⟩
    exact ⟨r, hr, hid, (hlive hr).2⟩

/-- One prefix of both peers and one of the first. -/
theorem routesDiff_overlapping :
    ∃ d, routesDiff bareLibrary (some overlapping) twoPeers 1 2 = .ok d ∧
      d.Partitions (HoldsActive overlapping 1) (HoldsActive overlapping 2) ∧
      d.both = {.slash8 10} ∧ d.onlyA = {.slash8 11} ∧ d.onlyB = ∅ :=
  ⟨_, rfl, (routesDiff_partitions_iff bareLibrary (MapStore.searchable _)
    (rfl : routesDiff _ _ twoPeers _ _ = _)).mpr
      ⟨shownWhole_overlapping 1, shownWhole_overlapping 2⟩, by decide, by decide, by decide⟩

/-- The default route of the first peer is in no part. -/
theorem default_not_shown :
    ∃ d, routesDiff bareLibrary (some defaultAndLonger) twoPeers 1 2 = .ok d ∧
      HoldsActive defaultAndLonger 1 (.defaultRoute .v4) ∧ d.onlyA = ∅ ∧ d.onlyB = ∅ ∧
      d.both = {.slash8 10} :=
  ⟨_, rfl, ⟨⟨1, 0, .active, .emptyPathAttributes⟩, by decide, rfl, rfl⟩, by decide, by decide,
    by decide⟩

end Rotonda.WebUi
