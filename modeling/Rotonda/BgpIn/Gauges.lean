import Mathlib.Data.Finset.Card
import Mathlib.Data.Finset.Union
import Rotonda.BgpIn.Tables
import Rotonda.UpdateMessage

/-!
The Adj-RIB-In gauges of a BGP session.

A gauge is not read off a table.  Every UPDATE that the filter accepts adds the number of NLRI it
announces and takes off the number of NLRI it withdraws, per AFI and SAFI.

* `countRoutes`: what an UPDATE does to the gauges;
* `aggregates_run`: the aggregate gauge is the sum over the families in every run;
* `gauges_throughout_iff`: the gauges are the numbers of prefixes after every UPDATE exactly when
  every UPDATE is balanced;
* `Fresh.balanced`: UPDATEs that announce what is new and withdraw what is there are balanced.
-/

namespace Rotonda.BgpIn

open Lib Lib.Runs List Dict

variable {k : AfiSafiKey} {rs : List RotondaRoute}
  {nlri : Except String (List (Except String Nlri))}

def rotondaRouteAfiSafi : RotondaRoute → AfiSafiKey
  | .ipv4Unicast .. => (1, 1)
  | .ipv6Unicast .. => (2, 1)
  | .ipv4Multicast .. => (1, 2)
  | .ipv6Multicast .. => (2, 2)

def afiSafiKeys : List AfiSafiKey := [(1, 1), (2, 1), (1, 2), (2, 2)]

theorem rotondaRouteAfiSafi_mem (rr : RotondaRoute) : rotondaRouteAfiSafi rr ∈ afiSafiKeys := by
  cases rr <;> simp [rotondaRouteAfiSafi, afiSafiKeys]

/-! ## The counters -/

namespace BgpPeerStats

def addAdjRibIn (stats : BgpPeerStats) (afiSafi : AfiSafiKey) (n : Nat) : BgpPeerStats :=
  if n = 0 then stats
  else
    { stats with
      adjRibInRoutes := stats.adjRibInRoutes + n
      adjRibInPerAfiSafi := stats.adjRibInPerAfiSafi.insert afiSafi
        ((stats.adjRibInPerAfiSafi.get afiSafi).getD 0 + n) }

/-- Record `n` withdrawals, down to zero and no further. -/
def subAdjRibIn (stats : BgpPeerStats) (afiSafi : AfiSafiKey) (n : Nat) : BgpPeerStats :=
  if n = 0 then stats
  else
    let cur := (stats.adjRibInPerAfiSafi.get afiSafi).getD 0
    let dec := min cur n
    { stats with
      adjRibInRoutes := stats.adjRibInRoutes - dec
      adjRibInPerAfiSafi := stats.adjRibInPerAfiSafi.insert afiSafi (cur - dec) }

def gauge (stats : BgpPeerStats) (k : AfiSafiKey) : Nat := (stats.adjRibInPerAfiSafi.get k).getD 0

def Aggregates (stats : BgpPeerStats) : Prop :=
  stats.adjRibInRoutes = (afiSafiKeys.map stats.gauge).sum

variable {stats : BgpPeerStats}

theorem gauge_addAdjRibIn (stats : BgpPeerStats) (k : AfiSafiKey) (n : Nat) (k' : AfiSafiKey) :
    (stats.addAdjRibIn k n).gauge k' = stats.gauge k' + if k' = k then n else 0 := by
  unfold addAdjRibIn
  by_cases hn : n = 0
  · simp [hn]
  · rw [if_neg hn]
    by_cases hk : k' = k <;> simp [gauge, get_insert, hk]

theorem gauge_subAdjRibIn (stats : BgpPeerStats) (k : AfiSafiKey) (n : Nat) (k' : AfiSafiKey) :
    (stats.subAdjRibIn k n).gauge k' = stats.gauge k' - if k' = k then n else 0 := by
  unfold subAdjRibIn
  by_cases hn : n = 0
  · simp [hn]
  · rw [if_neg hn]
    by_cases hk : k' = k
    · simp only [gauge, get_insert, hk, if_true, Option.getD_some]
      omega
    · simp [gauge, get_insert, hk]

theorem aggregates_resetAdjRibIn (stats : BgpPeerStats) : stats.resetAdjRibIn.Aggregates := by
  simp [Aggregates, resetAdjRibIn, gauge, afiSafiKeys]

/-- Both counters move by the same amount, as long as the family is one of those that are summed. -/
theorem Aggregates.addAdjRibIn (h : stats.Aggregates) (hk : k ∈ afiSafiKeys)
    (n : Nat) : (stats.addAdjRibIn k n).Aggregates := by
  have hroutes : (stats.addAdjRibIn k n).adjRibInRoutes = stats.adjRibInRoutes + n := by
    unfold BgpPeerStats.addAdjRibIn
    by_cases hn : n = 0 <;> simp [hn]
  unfold Aggregates at h ⊢
  rw [hroutes, h]
  simp only [afiSafiKeys, mem_cons, not_mem_nil, or_false] at hk
  rcases hk with rfl | rfl | rfl | rfl <;>
    simp [afiSafiKeys, gauge_addAdjRibIn] <;> omega

theorem Aggregates.subAdjRibIn (h : stats.Aggregates) (hk : k ∈ afiSafiKeys)
    (n : Nat) : (stats.subAdjRibIn k n).Aggregates := by
  have hroutes : (stats.subAdjRibIn k n).adjRibInRoutes =
      stats.adjRibInRoutes - min (stats.gauge k) n := by
    unfold BgpPeerStats.subAdjRibIn gauge
    by_cases hn : n = 0 <;> simp [hn]
  unfold Aggregates at h ⊢
  rw [hroutes, h]
  simp only [afiSafiKeys, mem_cons, not_mem_nil, or_false] at hk
  rcases hk with rfl | rfl | rfl | rfl <;>
    simp [afiSafiKeys, gauge_subAdjRibIn] <;> omega

end BgpPeerStats

/-! ## One UPDATE -/

/-- The routes per family. -/
def bucket (rs : List RotondaRoute) : Dict AfiSafiKey Nat :=
  rs.foldl (fun m rr => m.insert (rotondaRouteAfiSafi rr)
    ((m.get (rotondaRouteAfiSafi rr)).getD 0 + 1)) Dict.empty

def countOf (k : AfiSafiKey) (rs : List RotondaRoute) : Nat :=
  rs.countP fun rr => rotondaRouteAfiSafi rr = k

theorem bucket_concat (rs : List RotondaRoute) (rr : RotondaRoute) :
    bucket (rs ++ [rr]) = (bucket rs).insert (rotondaRouteAfiSafi rr)
      (((bucket rs).get (rotondaRouteAfiSafi rr)).getD 0 + 1) := by
  simp [bucket]

theorem getD_get_bucket (rs : List RotondaRoute) (k : AfiSafiKey) :
    ((bucket rs).get k).getD 0 = countOf k rs := by
  induction rs using List.reverseRecOn with
  | nil => rfl
  | append_singleton rs rr ih =>
    rw [bucket_concat, get_insert, countOf, countP_append, ← countOf, ← ih]
    by_cases hk : k = rotondaRouteAfiSafi rr
    · simp [hk]
    · simp [hk, Ne.symm hk]

theorem mem_of_get_bucket {n : Nat} (h : (bucket rs).get k = some n) : k ∈ afiSafiKeys := by
  induction rs using List.reverseRecOn generalizing n with
  | nil => cases h
  | append_singleton rs rr ih =>
    rw [bucket_concat, get_insert] at h
    by_cases hk : k = rotondaRouteAfiSafi rr
    · rw [hk]
      exact rotondaRouteAfiSafi_mem rr
    · rw [if_neg hk] at h
      exact ih h

/-- What an iteration over the buckets adds up to under one family. -/
theorem sum_select_bucket {order : List AfiSafiKey} (h : (bucket rs).IterOrder order)
    (k : AfiSafiKey) :
    (((bucket rs).select order fun _ _ => true).map fun e => if k = e.1 then e.2 else 0).sum =
      countOf k rs := by
  rw [sum_select_eq h, getD_get_bucket]

namespace BgpPeerStats

/-- The counting in `process_update`, by the orders in which the two maps are iterated. -/
def countRoutes (stats : BgpPeerStats) (reach unreach : List RotondaRoute)
    (adds subs : List AfiSafiKey) : BgpPeerStats :=
  let stats := ((bucket reach).select adds fun _ _ => true).foldl
    (fun stats e => stats.addAdjRibIn e.1 e.2) stats
  ((bucket unreach).select subs fun _ _ => true).foldl
    (fun stats e => stats.subAdjRibIn e.1 e.2) stats

theorem gauge_foldl_add (stats : BgpPeerStats) (es : List (AfiSafiKey × Nat)) (k : AfiSafiKey) :
    (es.foldl (fun stats e => stats.addAdjRibIn e.1 e.2) stats).gauge k =
      stats.gauge k + (es.map fun e => if k = e.1 then e.2 else 0).sum := by
  induction es generalizing stats with
  | nil => rfl
  | cons e es ih =>
    rw [foldl_cons, ih, gauge_addAdjRibIn, map_cons, sum_cons, Nat.add_assoc]

/-- Subtractions that stop at zero add up like one. -/
theorem gauge_foldl_sub (stats : BgpPeerStats) (es : List (AfiSafiKey × Nat)) (k : AfiSafiKey) :
    (es.foldl (fun stats e => stats.subAdjRibIn e.1 e.2) stats).gauge k =
      stats.gauge k - (es.map fun e => if k = e.1 then e.2 else 0).sum := by
  induction es generalizing stats with
  | nil => rfl
  | cons e es ih =>
    rw [foldl_cons, ih, gauge_subAdjRibIn, map_cons, sum_cons, Nat.sub_sub]

variable {reach unreach : List RotondaRoute} {adds subs : List AfiSafiKey}

theorem gauge_countRoutes (stats : BgpPeerStats) (hadds : (bucket reach).IterOrder adds)
    (hsubs : (bucket unreach).IterOrder subs) (k : AfiSafiKey) :
    (stats.countRoutes reach unreach adds subs).gauge k =
      stats.gauge k + countOf k reach - countOf k unreach := by
  rw [countRoutes, gauge_foldl_sub, gauge_foldl_add, sum_select_bucket hadds,
    sum_select_bucket hsubs]

theorem Aggregates.countRoutes {stats : BgpPeerStats} (h : stats.Aggregates)
    (reach unreach : List RotondaRoute) (adds subs : List AfiSafiKey) :
    (stats.countRoutes reach unreach adds subs).Aggregates := by
  unfold BgpPeerStats.countRoutes
  refine List.foldlRecOn _ _ (List.foldlRecOn _ _ h ?_) ?_
  · intro stats hstats e he
    exact hstats.addAdjRibIn (mem_of_get_bucket (mem_select.mp he).2.1) e.2
  · intro stats hstats e he
    exact hstats.subAdjRibIn (mem_of_get_bucket (mem_select.mp he).2.1) e.2

end BgpPeerStats

/-! ## What the peer has announced -/

/-- A route that a peer announces: its table, its prefix and its path id. -/
abbrev PeerRoute := Bool × Prefix × Option UInt32

def familyKey (multicast : Bool) (p : Prefix) : AfiSafiKey :=
  (match p.family with | .v4 => 1 | .v6 => 2, if multicast then 2 else 1)

theorem rotondaRouteAfiSafi_eq (rr : RotondaRoute) :
    rotondaRouteAfiSafi rr = familyKey rr.multicast rr.pfx := by
  cases rr with
  | ipv4Unicast n _ | ipv6Unicast n _ | ipv4Multicast n _ | ipv6Multicast n _ =>
    simp [rotondaRouteAfiSafi, familyKey, RotondaRoute.pfx, RotondaRoute.multicast, n.2]

def prefixesOf (k : AfiSafiKey) (routes : Finset PeerRoute) : Finset Prefix :=
  (routes.filter fun r => familyKey r.1 r.2.1 = k).image fun r => r.2.1

def plainRoutes : Except String (List (Except String Nlri)) → List PeerRoute
  | .error _ => []
  | .ok ns => (UpdateMessage.targets ns).map fun t => (t.1, t.2, none)

/-- An UPDATE and what the session makes of it. -/
structure Received where
  /-- The verdict of the roto function. -/
  accepted : Bool
  msg : UpdateMessage
  /-- The routes of the NLRI with a path id, which the message holds as unsupported. -/
  pathsReach : List (Bool × Prefix × UInt32)
  pathsUnreach : List (Bool × Prefix × UInt32)

namespace Received

/-- The routes that are counted: those of an accepted UPDATE without an error. -/
def counted (u : Received) : List RotondaRoute × List RotondaRoute :=
  if u.accepted then
    match u.msg.explodeAnnouncements, u.msg.explodeWithdrawals with
    | .ok reach, .ok unreach => (reach, unreach)
    | _, _ => ([], [])
  else ([], [])

def announces (u : Received) : Finset PeerRoute :=
  (plainRoutes u.msg.announcements ++
    u.pathsReach.map fun r => (r.1, r.2.1, some r.2.2)).toFinset

def withdraws (u : Received) : Finset PeerRoute :=
  (plainRoutes u.msg.withdrawals ++
    u.pathsUnreach.map fun r => (r.1, r.2.1, some r.2.2)).toFinset

/-- The announced routes after the UPDATE: of a route on both of its lists the announcement
counts. -/
def after (u : Received) (announced : Finset PeerRoute) : Finset PeerRoute :=
  (announced \ u.withdraws) ∪ u.announces

/-- Announcements counted and prefixes gone balance withdrawals counted and prefixes come, for every
family; or more is withdrawn than there is, and none of the family is left. -/
def Balanced (u : Received) (announced : Finset PeerRoute) : Prop :=
  ∀ k, let before := prefixesOf k announced
    let later := prefixesOf k (u.after announced)
    countOf k u.counted.1 + (before \ later).card =
        countOf k u.counted.2 + (later \ before).card ∨
      before.card + countOf k u.counted.1 < countOf k u.counted.2 ∧ later = ∅

/-- The UPDATE is accepted and without error, announces each of its prefixes once and for the first
time, and withdraws each once and only if it is announced. -/
structure Fresh (u : Received) (announced : Finset PeerRoute) : Prop where
  counted : u.accepted = true ∧ (∃ reach, u.msg.explodeAnnouncements = .ok reach) ∧
    ∃ unreach, u.msg.explodeWithdrawals = .ok unreach
  noPaths : u.pathsReach = [] ∧ u.pathsUnreach = [] ∧ ∀ r ∈ announced, r.2.2 = none
  once : (plainRoutes u.msg.announcements).Nodup ∧ (plainRoutes u.msg.withdrawals).Nodup
  new : ∀ r ∈ plainRoutes u.msg.announcements, r ∉ announced
  known : ∀ r ∈ plainRoutes u.msg.withdrawals, r ∈ announced

end Received

/-! ## Fresh UPDATEs -/

theorem pathId_of_mem_plainRoutes {r : PeerRoute} (h : r ∈ (plainRoutes nlri).toFinset) :
    r.2.2 = none := by
  cases nlri with
  | error _ => cases h
  | ok ns =>
    obtain ⟨t, _, rfl⟩ := mem_map.mp (mem_toFinset.mp h)
    rfl

theorem eq_of_familyKey {r : PeerRoute} (h : r.2.2 = none) (hk : familyKey r.1 r.2.1 = k) :
    r = (k.2 == 2, r.2.1, none) := by
  obtain ⟨_ | _, p, id⟩ := r <;> cases hk <;> cases h <;> rfl

/-- Without path ids a prefix stands for one route of the family. -/
theorem mem_prefixesOf {routes : Finset PeerRoute} (h : ∀ r ∈ routes, r.2.2 = none) {p : Prefix} :
    p ∈ prefixesOf k routes ↔
      (k.2 == 2, p, none) ∈ routes.filter fun r => familyKey r.1 r.2.1 = k := by
  refine Finset.mem_image.trans ⟨?_, fun hr => ⟨_, hr, rfl⟩⟩
  rintro ⟨r, hr, rfl⟩
  obtain ⟨hmem, hk⟩ := Finset.mem_filter.mp hr
  rwa [← eq_of_familyKey (h r hmem) hk]

theorem card_prefixesOf (h : ∃ ns, nlri = .ok ns ∧
      rs.map (fun r => (r.multicast, r.pfx)) = UpdateMessage.targets ns)
    (hnodup : (plainRoutes nlri).Nodup) :
    (prefixesOf k (plainRoutes nlri).toFinset).card = countOf k rs := by
  obtain ⟨ns, rfl, hmap⟩ := h
  have hroutes : plainRoutes (.ok ns) = rs.map fun r => (r.multicast, r.pfx, none) := by
    rw [plainRoutes, ← hmap, map_map]
    rfl
  have hfilter : ((plainRoutes (.ok ns)).toFinset.filter fun r => familyKey r.1 r.2.1 = k) =
      ((plainRoutes (.ok ns)).filter fun r => familyKey r.1 r.2.1 = k).toFinset := by
    ext r
    simp
  rw [prefixesOf, Finset.card_image_of_injOn, hfilter, toFinset_card_of_nodup (hnodup.filter _),
    hroutes, filter_map, length_map, ← countP_eq_length_filter, countOf]
  · congr 1
    funext rr
    simp [rotondaRouteAfiSafi_eq]
  · intro r hr r' hr' heq
    obtain ⟨hr, hk⟩ := Finset.mem_filter.mp hr
    obtain ⟨hr', hk'⟩ := Finset.mem_filter.mp hr'
    rw [eq_of_familyKey (pathId_of_mem_plainRoutes hr) hk,
      eq_of_familyKey (pathId_of_mem_plainRoutes hr') hk', show r.2.1 = r'.2.1 from heq]

/-- UPDATEs that announce what is new and withdraw what is there are balanced. -/
theorem Received.Fresh.balanced {u : Received} {announced : Finset PeerRoute}
    (h : u.Fresh announced) : u.Balanced announced := by
  obtain ⟨haccepted, ⟨reach, hreach⟩, unreach, hunreach⟩ := h.counted
  obtain ⟨hpaths, hpaths', hplain⟩ := h.noPaths
  have hafter : ∀ r, r ∈ u.after announced ↔ r ∈ announced ∧ r ∉ plainRoutes u.msg.withdrawals ∨
      r ∈ plainRoutes u.msg.announcements := by
    simp [Received.after, Received.announces, Received.withdraws, hpaths, hpaths']
  have hplain' : ∀ r ∈ u.after announced, r.2.2 = none := by
    intro r hr
    rcases (hafter r).mp hr with ⟨hr, _⟩ | hr
    · exact hplain r hr
    · exact pathId_of_mem_plainRoutes (mem_toFinset.mpr hr)
  intro k
  -- what goes is what is withdrawn, and what comes is what is announced
  have hflow : prefixesOf k announced \ prefixesOf k (u.after announced) =
        prefixesOf k (plainRoutes u.msg.withdrawals).toFinset ∧
      prefixesOf k (u.after announced) \ prefixesOf k announced =
        prefixesOf k (plainRoutes u.msg.announcements).toFinset := by
    constructor
    all_goals
      ext p
      have hnew := h.new (k.2 == 2, p, none)
      have hknown := h.known (k.2 == 2, p, none)
      simp only [Finset.mem_sdiff, mem_prefixesOf hplain, mem_prefixesOf hplain', hafter,
        mem_prefixesOf fun _ => pathId_of_mem_plainRoutes, Finset.mem_filter, mem_toFinset]
      tauto
  left
  rw [hflow.1, hflow.2, card_prefixesOf (UpdateMessage.explodeAnnouncements_map_target hreach)
    h.once.1, card_prefixesOf (UpdateMessage.explodeWithdrawals_map_target hunreach) h.once.2]
  simp [Received.counted, haccepted, hreach, hunreach, Nat.add_comm]

/-! ## Sequences of UPDATEs -/

/-- A session with the routes that its peer has announced and not withdrawn since. -/
structure Metered where
  announced : Finset PeerRoute
  stats : BgpPeerStats

namespace Metered

/-- An UPDATE, with the orders in which the session iterates over its two maps. -/
structure Event where
  update : Received
  adds : List AfiSafiKey
  subs : List AfiSafiKey
  adds_order : (bucket update.counted.1).IterOrder adds
  subs_order : (bucket update.counted.2).IterOrder subs

def step (m : Metered) (e : Event) : Metered where
  announced := e.update.after m.announced
  stats := m.stats.countRoutes e.update.counted.1 e.update.counted.2 e.adds e.subs

def start (stats : BgpPeerStats) : Metered := ⟨∅, stats.resetAdjRibIn⟩

/-- The gauges count routes. -/
structure Exact (m : Metered) : Prop where
  gauge : ∀ k, m.stats.gauge k = (prefixesOf k m.announced).card
  aggregate : m.stats.Aggregates

theorem exact_start (stats : BgpPeerStats) : (start stats).Exact where
  gauge := fun _ => rfl
  aggregate := stats.aggregates_resetAdjRibIn

/-- The aggregate gauge is the sum over the families after any UPDATEs. -/
theorem aggregates_run (stats : BgpPeerStats) (es : List Event) :
    (run step (start stats) es).stats.Aggregates := by
  induction es using List.reverseRecOn with
  | nil => exact stats.aggregates_resetAdjRibIn
  | append_singleton es e ih =>
    rw [run_snoc]
    exact ih.countRoutes _ _ _ _

theorem gauge_step (m : Metered) (e : Event) (k : AfiSafiKey) :
    (m.step e).stats.gauge k =
      m.stats.gauge k + countOf k e.update.counted.1 - countOf k e.update.counted.2 :=
  m.stats.gauge_countRoutes e.adds_order e.subs_order k

/-- A step from exact gauges ends in exact gauges if and only if its UPDATE is balanced. -/
theorem exact_step_iff {m : Metered} (h : m.Exact) (e : Event) :
    (m.step e).Exact ↔ e.update.Balanced m.announced := by
  have hfamily : ∀ k, (m.step e).stats.gauge k = (prefixesOf k (m.step e).announced).card ↔
      countOf k e.update.counted.1 +
          (prefixesOf k m.announced \ prefixesOf k (m.step e).announced).card =
        countOf k e.update.counted.2 +
          (prefixesOf k (m.step e).announced \ prefixesOf k m.announced).card ∨
      (prefixesOf k m.announced).card + countOf k e.update.counted.1 < countOf k e.update.counted.2 ∧
        prefixesOf k (m.step e).announced = ∅ := by
    intro k
    have hcard := Finset.card_sdiff_add_card (prefixesOf k m.announced)
      (prefixesOf k (m.step e).announced)
    have hcard' := Finset.card_sdiff_add_card (prefixesOf k (m.step e).announced)
      (prefixesOf k m.announced)
    rw [Finset.union_comm] at hcard'
    rw [gauge_step, h.gauge, ← Finset.card_eq_zero]
    omega
  constructor
  · intro hexact k
    exact (hfamily k).mp (hexact.gauge k)
  · intro hbalanced
    exact ⟨fun k => (hfamily k).mpr (hbalanced k), h.aggregate.countRoutes _ _ _ _⟩

/-- After every UPDATE the gauges are the numbers of prefixes that the peer has announced and not
withdrawn exactly when every UPDATE is balanced. -/
theorem gauges_throughout_iff (stats : BgpPeerStats) (es : List Event) :
    (∀ pre, pre <+: es → (run step (start stats) pre).Exact) ↔
      ∀ pre e, pre ++ [e] <+: es →
        e.update.Balanced (run step (start stats) pre).announced := by
  refine throughout_iff step (fun _ m => m.Exact) (fun m e => e.update.Balanced m.announced)
    (start stats) es (exact_start stats) ?_ ?_
  · intro pre e _ hexact hbalanced
    exact (exact_step_iff hexact e).mpr hbalanced
  · intro pre e _ hexact hbalanced
    exact mt (exact_step_iff hexact e).mp hbalanced

def announce10 : Event where
  update := ⟨true, Rib.slash8Update [10] [], [], []⟩
  adds := [(1, 1)]
  subs := []
  adds_order := by
    have hbucket : bucket (⟨true, Rib.slash8Update [10] [], [], []⟩ : Received).counted.1 =
        Dict.empty.insert (1, 1) 1 := rfl
    rw [hbucket]
    exact iterOrder_empty.insert rfl 1
  subs_order := iterOrder_empty

/-- A second announcement of the prefix is counted again. -/
theorem reannounced_counted_twice :
    (run step (start {}) [announce10, announce10]).stats.gauge (1, 1) = 2 ∧
      (prefixesOf (1, 1) (run step (start {}) [announce10, announce10]).announced).card = 1 := by
  decide

end Metered

end Rotonda.BgpIn
