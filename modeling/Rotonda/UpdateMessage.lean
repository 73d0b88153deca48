import Rotonda.RibUnit.History
import Rotonda.BmpIn.Machine
import Rotonda.BgpIn.Processor

/-!
One BGP UPDATE on its way into the RIB, over BGP or inside a Route Monitoring message.

Both paths explode the message into one payload per NLRI, all announcements before all
withdrawals, and the RIB takes the payloads in that order.

* `Yields`: the update that either path makes of the message for an ingress;
* `reportsActive_of_latest`: after a batch of payloads a route is what the last payload for it is;
* `announcements_win_iff`: what a message announces is active after it exactly when the message
  does not withdraw it as well.
-/

namespace Rotonda

open Lib.Runs List Option

variable {t : Bool × Prefix} {msg : UpdateMessage}

/-! ## Exploding a message -/

/-- An NLRI of a message.  Those with a path id or of another family get no route. -/
inductive Nlri where
  | ipv4Unicast (nlri : PrefixOf .v4)
  | ipv6Unicast (nlri : PrefixOf .v6)
  | ipv4Multicast (nlri : PrefixOf .v4)
  | ipv6Multicast (nlri : PrefixOf .v6)
  | unsupported (afiSafi : AfiSafiType) (addpath : Bool)

/-- What the messages are parsed into by the library. -/
structure UpdateMessage where
  pduParseInfo : UInt8
  pathAttributes : Except String Bytes
  announcements : Except String (List (Except String Nlri))
  withdrawals : Except String (List (Except String Nlri))

namespace Nlri

def toRoute (pamap : RotondaPaMap) : Nlri → Option RotondaRoute
  | ipv4Unicast n => some (.ipv4Unicast n pamap)
  | ipv6Unicast n => some (.ipv6Unicast n pamap)
  | ipv4Multicast n => some (.ipv4Multicast n pamap)
  | ipv6Multicast n => some (.ipv6Multicast n pamap)
  | unsupported .. => none

/-- The store and the prefix an NLRI is about. -/
def target : Nlri → Option (Bool × Prefix)
  | ipv4Unicast n => some (false, n.1)
  | ipv6Unicast n => some (false, n.1)
  | ipv4Multicast n => some (true, n.1)
  | ipv6Multicast n => some (true, n.1)
  | unsupported .. => none

theorem target_toRoute (pamap : RotondaPaMap) (n : Nlri) :
    (n.toRoute pamap).map (fun r => (r.multicast, r.pfx)) = n.target := by
  cases n <;> rfl

end Nlri

namespace UpdateMessage

variable {ns : List (Except String Nlri)} {reach unreach : List RotondaRoute}

/-- The loop over NLRI: the first that cannot be parsed ends it. -/
def explodeLoop (pamap : RotondaPaMap) :
    List (Except String Nlri) → List RotondaRoute → Except String (List RotondaRoute)
  | [], res => .ok res
  | .error err :: _, _ => .error err
  | .ok n :: ns, res =>
    match n.toRoute pamap with
    | some r => explodeLoop pamap ns (res ++ [r])
    | none => explodeLoop pamap ns res

def explodeAnnouncements (msg : UpdateMessage) : Except String (List RotondaRoute) := do
  let pas ← msg.pathAttributes
  let ns ← msg.announcements
  explodeLoop ⟨RovStatus.notChecked.toByte, msg.pduParseInfo, pas⟩ ns []

def explodeWithdrawals (msg : UpdateMessage) : Except String (List RotondaRoute) := do
  let ns ← msg.withdrawals
  explodeLoop ⟨RovStatus.notChecked.toByte, msg.pduParseInfo, []⟩ ns []

/-- The NLRI are about the prefix. -/
def Lists (nlri : Except String (List (Except String Nlri))) (t : Bool × Prefix) : Prop :=
  ∃ ns, nlri = .ok ns ∧ ∃ n, .ok n ∈ ns ∧ n.target = some t

def Announces (msg : UpdateMessage) (t : Bool × Prefix) : Prop := Lists msg.announcements t

def Withdraws (msg : UpdateMessage) (t : Bool × Prefix) : Prop := Lists msg.withdrawals t

/-- The stores and prefixes that the NLRI are about, in their order. -/
def targets (ns : List (Except String Nlri)) : List (Bool × Prefix) :=
  ns.filterMap fun n => n.toOption.bind Nlri.target

theorem mem_targets :
    t ∈ targets ns ↔ ∃ n, .ok n ∈ ns ∧ n.target = some t := by
  simp only [targets, mem_filterMap, bind_eq_some_iff]
  constructor
  · rintro ⟨n, hn, n', hn', ht⟩
    cases n with
    | error err => cases hn'
    | ok n =>
      cases hn'
      exact ⟨_, hn, ht⟩
  · rintro ⟨n, hn, ht⟩
    exact ⟨_, hn, n, rfl, ht⟩

theorem explodeLoop_map_target {pamap : RotondaPaMap} {res rs : List RotondaRoute}
    (h : explodeLoop pamap ns res = .ok rs) :
    rs.map (fun r => (r.multicast, r.pfx)) =
      res.map (fun r => (r.multicast, r.pfx)) ++ targets ns := by
  induction ns generalizing res with
  | nil =>
    cases h
    simp [targets]
  | cons n ns ih =>
    cases n with
    | error err => cases h
    | ok n =>
      have htarget := n.target_toRoute pamap
      cases hroute : n.toRoute pamap with
      | none =>
        rw [explodeLoop, hroute] at h
        rw [hroute, map_none] at htarget
        rw [ih h]
        simp [targets, Except.toOption, ← htarget]
      | some r =>
        rw [explodeLoop, hroute] at h
        rw [hroute, map_some] at htarget
        rw [ih h]
        simp [targets, Except.toOption, ← htarget]

theorem explodeAnnouncements_map_target (h : msg.explodeAnnouncements = .ok reach) :
    ∃ ns, msg.announcements = .ok ns ∧
      reach.map (fun r => (r.multicast, r.pfx)) = targets ns := by
  unfold explodeAnnouncements at h
  cases hpas : msg.pathAttributes with
  | error err => rw [hpas] at h; cases h
  | ok pas =>
    rw [hpas] at h
    cases hns : msg.announcements with
    | error err => rw [hns] at h; cases h
    | ok ns =>
      rw [hns] at h
      exact ⟨ns, rfl, explodeLoop_map_target h⟩

theorem explodeWithdrawals_map_target (h : msg.explodeWithdrawals = .ok unreach) :
    ∃ ns, msg.withdrawals = .ok ns ∧
      unreach.map (fun r => (r.multicast, r.pfx)) = targets ns := by
  unfold explodeWithdrawals at h
  cases hns : msg.withdrawals with
  | error err => rw [hns] at h; cases h
  | ok ns =>
    rw [hns] at h
    exact ⟨ns, rfl, explodeLoop_map_target h⟩

theorem lists_iff {nlri : Except String (List (Except String Nlri))} (h : nlri = .ok ns)
    (t : Bool × Prefix) : Lists nlri t ↔ t ∈ targets ns := by
  rw [Lists, h, mem_targets]
  simp

theorem explodeAnnouncements_targets (h : msg.explodeAnnouncements = .ok reach) (t : Bool × Prefix)
    : (∃ r ∈ reach, (r.multicast, r.pfx) = t) ↔ msg.Announces t := by
  obtain ⟨ns, hns, hmap⟩ := explodeAnnouncements_map_target h
  rw [Announces, lists_iff hns, ← hmap, List.mem_map]

theorem explodeWithdrawals_targets (h : msg.explodeWithdrawals = .ok unreach) (t : Bool × Prefix) :
    (∃ r ∈ unreach, (r.multicast, r.pfx) = t) ↔ msg.Withdraws t := by
  obtain ⟨ns, hns, hmap⟩ := explodeWithdrawals_map_target h
  rw [Withdraws, lists_iff hns, ← hmap, List.mem_map]

/-- The update that BGP-in or BMP-in sends for the message and the ingress of its peer. -/
inductive Yields (msg : UpdateMessage) : IngressId → Update → Prop
  | bgp (p : BgpIn.Processor) {u : Update}
      (h : p.processUpdate msg.explodeAnnouncements msg.explodeWithdrawals = .ok u) :
      Yields msg p.sessionIngressId u
  | bmp (s : BmpIn.Session) (pph : BmpIn.PerPeerHeader) (update : BmpIn.BgpUpdate)
      {id : IngressId} {payloads : List Payload} {announced : Nat}
      (hreach : update.explodeAnnouncements = msg.explodeAnnouncements)
      (hunreach : update.explodeWithdrawals = msg.explodeWithdrawals)
      (hid : s.peerStates.getPeerIngressId pph = some id)
      (h : s.extractRouteMonitoringRoutes pph update = .ok (payloads, announced)) :
      Yields msg id (.bulk payloads)

/-- Both paths send the announcements before the withdrawals. -/
theorem Yields.eq_bulk {id : IngressId} {u : Update} (h : Yields msg id u) :
    ∃ reach unreach, msg.explodeAnnouncements = .ok reach ∧ msg.explodeWithdrawals = .ok unreach ∧
      u = .bulk (reach.map (⟨·, id, .active⟩) ++ unreach.map (⟨·, id, .withdrawn⟩)) := by
  cases hreach : msg.explodeAnnouncements with
  | error err =>
    cases h with
    | bgp p h => rw [hreach] at h; cases h
    | bmp s pph update hr hu hid h =>
      rw [BmpIn.Session.extractRouteMonitoringRoutes, hr, hreach] at h
      cases h
  | ok reach =>
    cases hunreach : msg.explodeWithdrawals with
    | error err =>
      cases h with
      | bgp p h => rw [hreach, hunreach] at h; cases h
      | bmp s pph update hr hu hid h =>
        rw [BmpIn.Session.extractRouteMonitoringRoutes, hr, hu, hreach, hunreach] at h
        cases h
    | ok unreach =>
      refine ⟨reach, unreach, rfl, rfl, ?_⟩
      cases h with
      | bgp p h =>
        rw [hreach, hunreach] at h
        cases h
        rfl
      | bmp s pph update hr hu hid h =>
        rw [BmpIn.Session.extractRouteMonitoringRoutes, hr, hu, hreach, hunreach] at h
        simp only [bind, Except.bind, hid] at h
        cases h
        rfl

end UpdateMessage

/-! ## A batch of payloads -/

theorem latest_append (k : RouteKey) (es fs : List RibEvent) :
    latest k (es ++ fs) = (latest k fs).or (latest k es) := by
  induction fs using List.reverseRecOn with
  | nil => simp [latest]
  | append_singleton fs e ih =>
    rw [← List.append_assoc, latest_snoc, latest_snoc, ih, Option.or_assoc]

/-- Routes that all have one status. -/
theorem latest_routes (k : RouteKey) (rs : List RotondaRoute) (id : IngressId) (st : RouteStatus) :
    latest k ((rs.map (⟨·, id, st⟩)).map .payload) =
      if ∃ r ∈ rs, (⟨r.multicast, r.pfx, id⟩ : RouteKey) = k then some (decide (st = .active))
      else none := by
  induction rs using List.reverseRecOn with
  | nil => simp [latest]
  | append_singleton rs r ih =>
    rw [map_append, map_append, latest_append, ih]
    by_cases hr : (⟨r.multicast, r.pfx, id⟩ : RouteKey) = k
    · simp [latest, RibEvent.verdict, Payload.key, hr]
    · simp [latest, RibEvent.verdict, Payload.key, hr]

namespace RibConfig

/-- The roto function lets every payload pass. -/
def Accepting (cfg : RibConfig) : Prop := ∀ p, (cfg.accepted p).isSome

/-- What the roto function may change of a payload leaves its verdict. -/
theorem latest_accepted_of_accepting {cfg : RibConfig} (hcfg : cfg.Accepting) (k : RouteKey)
    (ps : List Payload) :
    latest k ((ps.filterMap cfg.accepted).map .payload) = latest k (ps.map .payload) := by
  induction ps using List.reverseRecOn with
  | nil => rfl
  | append_singleton ps p ih =>
    obtain ⟨q, hq⟩ := isSome_iff_exists.mp (hcfg p)
    obtain ⟨hkey, hstatus⟩ := key_of_accepted hq
    have hone : [p].filterMap cfg.accepted = [q] := by simp [hq]
    rw [filterMap_append, hone, map_append, map_append, map_singleton, map_singleton, latest_snoc,
      latest_snoc, ih, RibEvent.verdict, RibEvent.verdict, hkey, hstatus]

end RibConfig

namespace Rib

variable {S : Type} [PrefixStore S RotondaPaMap] [LawfulPrefixStore S]

/-- After a batch of payloads a route is what the last payload for it is, whatever the RIB was
before. -/
theorem reportsActive_of_latest (retain : Bool) (rib : Rib S) (ps : List Payload) {k : RouteKey}
    {up : Bool} (h : latest k (ps.map .payload) = some up) :
    ¬ (run (step retain) rib (ps.map .payload)).Hidden k ∧
      ((run (step retain) rib (ps.map .payload)).ReportsActive k ↔ up = true) := by
  induction ps using List.reverseRecOn generalizing up with
  | nil => cases h
  | append_singleton ps p ih =>
    rw [map_append, map_singleton, latest_snoc] at h
    rw [map_append, map_singleton, run_snoc, reportsActive_step]
    by_cases hk : p.key = k
    · have hv : (RibEvent.payload p).verdict k = some (decide (p.routeStatus = .active)) := by
        simp [RibEvent.verdict, hk]
      rw [hv, some_or, Option.some.injEq] at h
      rw [hv, ← h, ← hk]
      exact ⟨not_hidden_payload_self _ retain p, Iff.rfl⟩
    · have hv : (RibEvent.payload p).verdict k = none := by simp [RibEvent.verdict, hk]
      rw [hv, none_or] at h
      obtain ⟨hhidden, hreports⟩ := ih h
      rw [hv]
      exact ⟨not_hidden_payload hhidden retain p, by simp [hhidden, hreports]⟩

/-- What an UPDATE has to leave behind: its announcements are active, also those it withdraws as
well, and what it only withdraws is not. -/
def AnnouncementsWin (msg : UpdateMessage) (id : IngressId) (rib : Rib S) : Prop :=
  (∀ t, msg.Announces t → rib.ReportsActive ⟨t.1, t.2, id⟩) ∧
    ∀ t, msg.Withdraws t → ¬ msg.Announces t → ¬ rib.ReportsActive ⟨t.1, t.2, id⟩

omit [PrefixStore S RotondaPaMap] [LawfulPrefixStore S] in
theorem routes_key (rs : List RotondaRoute) (t : Bool × Prefix) (id : IngressId) :
    (∃ r ∈ rs, (⟨r.multicast, r.pfx, id⟩ : RouteKey) = ⟨t.1, t.2, id⟩) ↔
      ∃ r ∈ rs, (r.multicast, r.pfx) = t := by
  simp [Prod.ext_iff]

/-- The last word of the message on a prefix is its withdrawal, if it has one. -/
theorem reportsActive_after {id : IngressId} {u : Update} (hu : msg.Yields id u) {cfg : RibConfig}
    (hcfg : cfg.Accepting) (rib : Rib S) (ht : msg.Announces t ∨ msg.Withdraws t) :
    (rib.processUpdate cfg u).1.ReportsActive ⟨t.1, t.2, id⟩ ↔ ¬ msg.Withdraws t := by
  obtain ⟨reach, unreach, hreach, hunreach, rfl⟩ := hu.eq_bulk
  rw [processUpdate_eq_run]
  simp only [RibConfig.events]
  obtain ⟨up, hlatest, hup⟩ : ∃ up, latest ⟨t.1, t.2, id⟩ (((reach.map (Payload.mk · id .active) ++
      unreach.map (Payload.mk · id .withdrawn)).filterMap cfg.accepted).map .payload) = some up ∧
        (up = true ↔ ¬ msg.Withdraws t) := by
    rw [RibConfig.latest_accepted_of_accepting hcfg, map_append, latest_append,
      latest_routes, latest_routes]
    have hann := (routes_key reach t id).trans (msg.explodeAnnouncements_targets hreach t)
    have hwd := (routes_key unreach t id).trans (msg.explodeWithdrawals_targets hunreach t)
    by_cases hw : msg.Withdraws t
    · exact ⟨false, by rw [if_pos (hwd.mpr hw)]; rfl, by simp [hw]⟩
    · refine ⟨true, ?_, by simp [hw]⟩
      rw [if_neg (mt hwd.mp hw), if_pos (hann.mpr (ht.resolve_right hw))]
      rfl
  rw [(reportsActive_of_latest _ rib _ hlatest).2, hup]

/-- The announcements of an UPDATE win over its withdrawals exactly when there is nothing to win:
no prefix is on both lists. -/
theorem announcements_win_iff {msg : UpdateMessage} {id : IngressId} {u : Update}
    (hu : msg.Yields id u) {cfg : RibConfig} (hcfg : cfg.Accepting) (rib : Rib S) :
    AnnouncementsWin msg id (rib.processUpdate cfg u).1 ↔
      ∀ t, msg.Announces t → ¬ msg.Withdraws t := by
  constructor
  · intro h t ht
    exact (reportsActive_after hu hcfg rib (.inl ht)).mp (h.1 t ht)
  · intro h
    refine ⟨fun t ht => (reportsActive_after hu hcfg rib (.inl ht)).mpr (h t ht), ?_⟩
    intro t hw _ hactive
    exact (reportsActive_after hu hcfg rib (.inr hw)).mp hactive hw

/-! ## A prefix on both lists -/

/-- An UPDATE over IPv4 unicast prefixes of one octet. -/
def slash8Update (announced withdrawn : List UInt8) : UpdateMessage where
  pduParseInfo := 1
  pathAttributes := .ok []
  announcements := .ok (announced.map fun a => .ok (.ipv4Unicast (.slash8 a)))
  withdrawals := .ok (withdrawn.map fun a => .ok (.ipv4Unicast (.slash8 a)))

/-- A session of ingress 1. -/
def oneSession : BgpIn.Processor := ⟨⟨.v4 192 0 2 1, 65000, [], []⟩, 1, some 0, .established⟩

/-- The update that `oneSession` sends for it. -/
def slash8Bulk (announced withdrawn : List UInt8) : Update :=
  .bulk (announced.map (Payload.slash8 · 1 .active) ++
    withdrawn.map (Payload.slash8 · 1 .withdrawn))

/-- 10.0.0.0/8 is announced and withdrawn in one UPDATE, and is not active after it. -/
theorem announced_and_withdrawn_inactive :
    (slash8Update [10] [10]).Yields 1 (slash8Bulk [10] [10]) ∧
      (slash8Update [10] [10]).Announces (false, .slash8 10) ∧
      ¬ ((new .new : Rib (MapStore RotondaPaMap)).processUpdate ⟨false, none⟩
        (slash8Bulk [10] [10])).1.ReportsActive ⟨false, .slash8 10, 1⟩ :=
  ⟨.bgp oneSession rfl, ⟨_, rfl, _, mem_singleton_self _, rfl⟩, by decide⟩

theorem announcements_win_disjoint :
    AnnouncementsWin (slash8Update [10] [11]) 1
      ((new .new : Rib (MapStore RotondaPaMap)).processUpdate ⟨false, none⟩
        (slash8Bulk [10] [11])).1 := by
  refine (announcements_win_iff (.bgp oneSession rfl) (fun p => rfl) _).mpr ?_
  rintro t ⟨_, hns, n, hn, ht⟩ ⟨_, hns', n', hn', ht'⟩
  cases hns
  cases hns'
  cases mem_singleton.mp hn
  cases mem_singleton.mp hn'
  cases ht
  cases ht'

end Rib

end Rotonda
