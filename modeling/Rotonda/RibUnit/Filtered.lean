import Rotonda.RibUnit.History

/-!
The RIB behind a roto function.

The roto function decides on each payload before insertion, announcements and withdrawals alike,
and a rejected payload is dropped.  So the RIB follows the payloads that were accepted:

* `active_iff_lastAccepted_announces`: a route is active exactly when the last payload for it
  that was accepted is an announcement, and the RIB is as if no rejected payload had come;
* `rejectedReplacement_stays_active`: a replacement that is rejected leaves the older version.
-/

namespace Rotonda

open PrefixStore Lib.Runs List

/-- The update carries payloads. -/
def IsRouteUpdate : Update → Prop
  | .single _ | .bulk _ => True
  | _ => False

def RibConfig.lastAccepted (cfg : RibConfig) (k : RouteKey) (ps : List Payload) :
    Option Payload :=
  (ps.filter fun p => decide (p.key = k) && (cfg.accepted p).isSome).getLast?

namespace Rib

variable {S : Type} [PrefixStore S RotondaPaMap]

def handleAll (cfg : RibConfig) (rib : Rib S) (us : List Update) : Rib S :=
  run (fun rib u => (processUpdate cfg rib u).1) rib us

theorem events_route (cfg : RibConfig) {u : Update} (hu : IsRouteUpdate u) :
    cfg.events u = (u.payloads.filterMap cfg.accepted).map .payload := by
  cases u with
  | single p => rfl
  | bulk ps => rfl
  | _ => exact hu.elim

/-- The accepted payloads of all updates reach the RIB one after the other. -/
theorem handleAll_eq_run (cfg : RibConfig) (rib : Rib S) (us : List Update)
    (hus : ∀ u ∈ us, IsRouteUpdate u) :
    rib.handleAll cfg us =
      run (step cfg.retainWithdrawnAttributes) rib
        (((us.flatMap Update.payloads).filterMap cfg.accepted).map .payload) := by
  induction us generalizing rib with
  | nil => rfl
  | cons u us ih =>
    have htail := ih (processUpdate cfg rib u).1 fun v hv => hus v (mem_cons_of_mem _ hv)
    rw [flatMap_cons, filterMap_append, map_append, run_append,
      ← events_route cfg (hus u mem_cons_self), ← processUpdate_eq_run]
    exact htail

def singles (ps : List Payload) : List Update := ps.map .single

/-- The rejected payloads leave no trace. -/
theorem handleAll_eq_singles (cfg : RibConfig) (rib : Rib S) (us : List Update)
    (hus : ∀ u ∈ us, IsRouteUpdate u) :
    rib.handleAll cfg us = rib.handleAll cfg
      (singles ((us.flatMap Update.payloads).filter fun p => (cfg.accepted p).isSome)) := by
  have hpayloads (ps : List Payload) : (singles ps).flatMap Update.payloads = ps := by
    rw [singles, flatMap_map]
    exact flatMap_singleton' ps
  have hsingles {ps : List Payload} : ∀ u ∈ singles ps, IsRouteUpdate u := by
    intro u hu
    obtain ⟨p, _, rfl⟩ := mem_map.mp hu
    trivial
  rw [handleAll_eq_run cfg rib us hus, handleAll_eq_run cfg rib _ hsingles, hpayloads,
    filterMap_filter]
  congr 3
  funext p
  cases cfg.accepted p <;> rfl

variable [LawfulPrefixStore S]

theorem latest_accepted (cfg : RibConfig) (k : RouteKey) (ps : List Payload) :
    latest k ((ps.filterMap cfg.accepted).map .payload) =
      (cfg.lastAccepted k ps).map fun p => decide (p.routeStatus = .active) := by
  induction ps using List.reverseRecOn with
  | nil => rfl
  | append_singleton ps p ih =>
    rw [filterMap_append, map_append]
    cases hacc : cfg.accepted p with
    | none =>
      have hlast : cfg.lastAccepted k (ps ++ [p]) = cfg.lastAccepted k ps := by
        simp [RibConfig.lastAccepted, hacc]
      rw [hlast, ← ih]
      simp [hacc]
    | some q =>
      obtain ⟨hkey, hstatus⟩ := RibConfig.key_of_accepted hacc
      have hone : [p].filterMap cfg.accepted = [q] := by simp [hacc]
      rw [hone, map_singleton, latest_snoc, ih, RibEvent.verdict, hkey, hstatus]
      by_cases hk : p.key = k
      · simp [RibConfig.lastAccepted, hacc, hk]
      · simp [RibConfig.lastAccepted, hacc, hk]

/-- A run of payloads over a RIB that hides nothing of the ingress follows the payloads. -/
theorem reportsActive_run_payloads (retain : Bool) (rib : Rib S) (m : Mui)
    (hfresh : ∀ k : RouteKey, k.mui = m → rib.localRecord k = none) (ps : List Payload)
    {k : RouteKey} (hk : k.mui = m) :
    (run (step retain) rib (ps.map .payload)).ReportsActive k ↔
      latest k (ps.map .payload) = some true := by
  let Inv : List RibEvent → Rib S → Prop := fun pre rib =>
    (∀ k : RouteKey, k.mui = m → ¬ rib.Hidden k) ∧
      (rib.ReportsActive k ↔ latest k pre = some true)
  have hnone : ∀ k : RouteKey, k.mui = m → ¬ rib.LocallyActive k := by
    rintro k hk ⟨r, hr, _⟩
    cases (hfresh k hk).symm.trans hr
  have hinit : Inv [] rib := by
    refine ⟨fun k hk h => hnone k hk h.2, ?_⟩
    simp [reportsActive_iff, hnone k hk, latest]
  have hstep : ∀ pre e, pre ++ [e] <+: ps.map .payload →
      Inv pre (run (step retain) rib pre) →
      Inv (pre ++ [e]) (step retain (run (step retain) rib pre) e) := by
    rintro pre e hpre ⟨hhid, hrep⟩
    obtain ⟨p, _, rfl⟩ : ∃ p ∈ ps, RibEvent.payload p = e := by
      have hmem : e ∈ ps.map RibEvent.payload := hpre.subset (by simp)
      simpa using hmem
    refine ⟨fun k' hk' => not_hidden_payload (hhid k' hk') retain p, ?_⟩
    rw [reportsActive_step, latest_snoc]
    cases hv : (RibEvent.payload p).verdict k with
    | some up => simp
    | none => simpa [hhid k hk] using hrep
  exact (run_invariant (step retain) Inv rib _ hinit hstep _ (prefix_refl _)).2

/-- The RIB behind a roto function: starting without records of the ingress, a route of it is
active exactly when the last payload for it that the roto function accepted is an announcement; and
a rejected payload, of whichever update, is dropped. -/
theorem active_iff_lastAccepted_announces (cfg : RibConfig) (rib : Rib S) (m : Mui)
    (hfresh : ∀ k : RouteKey, k.mui = m → rib.localRecord k = none) (us : List Update)
    (hus : ∀ u ∈ us, IsRouteUpdate u) (k : RouteKey) (hk : k.mui = m) :
    ((rib.handleAll cfg us).ReportsActive k ↔
      ∃ p, cfg.lastAccepted k (us.flatMap Update.payloads) = some p ∧ p.routeStatus = .active) ∧
    rib.handleAll cfg us = rib.handleAll cfg
      (singles ((us.flatMap Update.payloads).filter fun p => (cfg.accepted p).isSome)) := by
  refine ⟨?_, handleAll_eq_singles cfg rib us hus⟩
  rw [handleAll_eq_run cfg rib us hus, reportsActive_run_payloads _ rib m hfresh _ hk,
    latest_accepted]
  cases cfg.lastAccepted k (us.flatMap Update.payloads) <;> simp

/-! ## A rejected replacement -/

/-- A route of the prefix with the given path attributes. -/
def versionOf (attributes : Bytes) (st : RouteStatus) : Payload :=
  ⟨.ipv4Unicast (.slash8 10) ⟨0, 1, attributes⟩, 1, st⟩

def bareOnly : RotoFunction := fun p =>
  if p.rxValue.rotondaPamap.pathAttributes = [] then .accept none else .reject

def rejectedReplacement : List Update :=
  [.single (versionOf [] .active), .single (versionOf [64, 1, 1, 0] .active)]

/-- The last payload for the route is rejected, and its older version stays active. -/
theorem rejectedReplacement_stays_active :
    ((new Register.new : Rib (MapStore RotondaPaMap)).handleAll ⟨true, some bareOnly⟩
        rejectedReplacement).ReportsActive ⟨false, .slash8 10, 1⟩ ∧
      (rejectedReplacement.flatMap Update.payloads).getLast? =
        some (versionOf [64, 1, 1, 0] .active) ∧
      bareOnly (versionOf [64, 1, 1, 0] .active) = .reject := by
  decide

/-- Once the replacement is withdrawn by an update that the roto function accepts, the route is
no longer active. -/
theorem accepted_withdrawal_deactivates :
    ¬ ((new Register.new : Rib (MapStore RotondaPaMap)).handleAll ⟨true, some bareOnly⟩
        (rejectedReplacement ++ [.single (versionOf [] .withdrawn)])).ReportsActive
          ⟨false, .slash8 10, 1⟩ := by
  rw [(active_iff_lastAccepted_announces _ _ 1 (fun k _ => localRecord_new _ k) _ (by
    intro u hu
    simp only [rejectedReplacement, cons_append, nil_append, mem_cons, not_mem_nil, or_false] at hu
    rcases hu with rfl | rfl | rfl <;> trivial) _ rfl).1]
  decide

end Rib

end Rotonda
