import Rotonda.RibUnit.History

/-!
The active routes of the RIB with their path attributes.

* `activeMeta`: the attributes of a record that the RIB reports as active;
* `RibEvent.sets`: what an event makes of them;
* `activeMeta_step`: a step that exposes nothing under a key does to it what its event sets.
-/

namespace Rotonda

open Option

variable {k : RouteKey}

namespace RibEvent

def attributes : RibEvent → Option RotondaPaMap
  | payload p => some p.rxValue.rotondaPamap
  | _ => none

/-- The attributes that an event gives an active record, or their end; `none` if the event says
nothing about the record. -/
def sets (k : RouteKey) (e : RibEvent) : Option (Option RotondaPaMap) :=
  (e.verdict k).map fun up => if up then e.attributes else none

/-- Only payloads announce. -/
theorem payload_of_verdict {e : RibEvent} (h : e.verdict k = some true) :
    ∃ p, e = payload p ∧ p.key = k ∧ p.routeStatus = .active := by
  cases e with
  | payload p =>
    simp only [verdict] at h
    split at h
    next hk => exact ⟨p, rfl, hk, of_decide_eq_true (Option.some.inj h)⟩
    · cases h
  | ingressReappeared id => cases h
  | _ =>
    simp only [verdict] at h
    split at h <;> cases h

end RibEvent

namespace Rib

variable {S : Type} [PrefixStore S RotondaPaMap]
variable {rib : Rib S}

def activeMeta (rib : Rib S) (k : RouteKey) : Option RotondaPaMap :=
  (rib.report k).bind fun r => if r.status = .active then some r.metaData else none

theorem activeMeta_eq_some_iff {m : RotondaPaMap} :
    rib.activeMeta k = some m ↔
      rib.ReportsActive k ∧ ∃ r, rib.localRecord k = some r ∧ r.metaData = m := by
  rw [activeMeta, bind_eq_some_iff]
  constructor
  · rintro ⟨r, hr, hm⟩
    split at hm
    next hactive =>
      cases hm
      exact ⟨⟨r, hr, hactive⟩, r, ((report_active_iff hactive).mp hr).2, rfl⟩
    · cases hm
  · rintro ⟨⟨r, hr, hactive⟩, r', hr', rfl⟩
    cases ((report_active_iff hactive).mp hr).2.symm.trans hr'
    exact ⟨r, hr, if_pos hactive⟩

theorem activeMeta_eq_none_iff :
    rib.activeMeta k = none ↔ ¬ rib.ReportsActive k := by
  constructor
  · rintro h ⟨r, hr, hactive⟩
    rw [activeMeta, hr, bind_some, if_pos hactive] at h
    cases h
  · intro h
    refine eq_none_iff_forall_ne_some.mpr fun m hm => h ?_
    exact (activeMeta_eq_some_iff.mp hm).1

/-- The step exposes this record. -/
def ExposesAt (k : RouteKey) (rib : Rib S) (e : RibEvent) : Prop :=
  rib.Clears k.mui e ∧ e.verdict k = none ∧ rib.Hidden k

variable [LawfulPrefixStore S]

/-- A step does to the active records what its event sets, unless it exposes one. -/
theorem activeMeta_step {retain : Bool} {e : RibEvent} (h : ¬ ExposesAt k rib e) :
    (rib.step retain e).activeMeta k = (e.sets k).getD (rib.activeMeta k) := by
  have hstep := reportsActive_step retain rib e k
  rw [RibEvent.sets]
  cases hv : e.verdict k with
  | none =>
    have hactive : (rib.step retain e).ReportsActive k ↔ rib.ReportsActive k := by
      simp only [hv] at hstep
      rw [hstep, or_iff_right]
      exact fun ⟨hclears, hhidden⟩ => h ⟨hclears, hv, hhidden⟩
    rw [map_none, getD_none]
    refine Option.ext fun m => ?_
    rw [activeMeta_eq_some_iff, activeMeta_eq_some_iff, hactive, localRecord_step_of_verdict hv]
  | some up =>
    simp only [hv] at hstep
    rw [map_some, getD_some]
    cases up with
    | false =>
      rw [if_neg Bool.false_ne_true, activeMeta_eq_none_iff, hstep]
      exact Bool.false_ne_true
    | true =>
      obtain ⟨p, rfl, rfl, hactive⟩ := RibEvent.payload_of_verdict hv
      have hne : p.routeStatus ≠ .withdrawn := by rw [hactive]; exact nofun
      exact activeMeta_eq_some_iff.mpr
        ⟨hstep.mpr rfl, _, localRecord_payload_self retain rib hne, rfl⟩

end Rib

end Rotonda
