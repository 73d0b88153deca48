import Rotonda.Lib.Runs
import Rotonda.RibUnit.Unit
import Mathlib.Data.List.TakeWhile

/-!
Histories of the RIB: what the RIB reports after a run against what the events of the run said.

* `RibEvent.verdict`: the verdict of one event on one record; `latest`: that of the last event;
* `processUpdate_eq_run`: the RIB unit handles an update as the run of its events;
* `Exposes`: a step that clears the flags of an ingress while they still hide another record
  that was stored as active;
* `reports_latest_throughout_iff`: the reports follow the history in every state of a run exactly
  when no step of the run exposes a record;
* `reports_latest_of_not_retained`: without retained attributes they always do.
-/

namespace Rotonda

open PrefixStore Lib.Runs List

/-- What happens to the RIB one at a time: payloads, session updates, and the removals of the
garbage collection. -/
inductive RibEvent where
  | payload (p : Payload)
  | withdraw (ingressId : IngressId) (afisafi : Option AfiSafiType)
  | withdrawBulk (entries : List (IngressId × Option IngressInfo))
  | ingressReappeared (ingressId : IngressId)
  | removeMuis (ids : List IngressId)

namespace RibEvent

/-- The verdict of an event on a record: announced, withdrawn, or nothing. -/
def verdict (k : RouteKey) : RibEvent → Option Bool
  | payload p => if p.key = k then some (decide (p.routeStatus = .active)) else none
  | withdraw id scope =>
    if k.mui = id ∧ scopeCovers scope k.multicast k.pfx.family then some false else none
  | withdrawBulk entries => if k.mui ∈ entries.map Prod.fst then some false else none
  | ingressReappeared _ => none
  | removeMuis ids => if k.mui ∈ ids then some false else none

end RibEvent

/-- The events of an update: the payloads that the roto function accepts, one by one, or the
session event it is. -/
def RibConfig.events (cfg : RibConfig) : Update → List RibEvent
  | .single p => ([p].filterMap cfg.accepted).map .payload
  | .bulk ps => (ps.filterMap cfg.accepted).map .payload
  | .withdraw id scope => [.withdraw id scope]
  | .withdrawBulk entries => [.withdrawBulk entries]
  | .ingressReappeared id => [.ingressReappeared id]
  | _ => []

/-- The verdict of the last event that concerns the record. -/
def latest (k : RouteKey) (es : List RibEvent) : Option Bool :=
  es.foldl (fun acc e => (e.verdict k).or acc) none

theorem latest_snoc (k : RouteKey) (es : List RibEvent) (e : RibEvent) :
    latest k (es ++ [e]) = (e.verdict k).or (latest k es) := by
  simp [latest]

namespace Rib

variable {S : Type} [PrefixStore S RotondaPaMap]
variable {rib : Rib S} {k : RouteKey} {p : Payload} {retain : Bool} {e : RibEvent}
  {es : List RibEvent}

/-- The RIB unit without a roto function handles one event. -/
def step (retain : Bool) (rib : Rib S) : RibEvent → Rib S
  | .payload p => (processUpdate ⟨retain, none⟩ rib (.single p)).1
  | .withdraw id scope => (processUpdate ⟨retain, none⟩ rib (.withdraw id scope)).1
  | .withdrawBulk entries => (processUpdate ⟨retain, none⟩ rib (.withdrawBulk entries)).1
  | .ingressReappeared id => (processUpdate ⟨retain, none⟩ rib (.ingressReappeared id)).1
  | .removeMuis ids => rib.removeForIngresses ids

theorem step_payload (retain : Bool) (rib : Rib S) (p : Payload) :
    rib.step retain (.payload p) =
      (rib.insertPrefix p.rxValue.pfx p.rxValue.multicast p.rxValue p.routeStatus 0 p.ingressId
        retain).1 := by
  rw [← insert_eq]
  exact filterPayload_rib ⟨retain, none⟩ rib [p]

/-- An update is the run of its events. -/
theorem processUpdate_eq_run (cfg : RibConfig) (rib : Rib S) (u : Update) :
    (processUpdate cfg rib u).1 =
      run (step cfg.retainWithdrawnAttributes) rib (cfg.events u) := by
  have hpayloads : ∀ ps : List Payload, (filterPayload cfg rib ps).1 =
      run (step cfg.retainWithdrawnAttributes) rib
        ((ps.filterMap cfg.accepted).map .payload) := by
    intro ps
    rw [filterPayload_rib, run, foldl_map]
    rfl
  cases u with
  | single p => exact hpayloads [p]
  | bulk ps => exact hpayloads ps
  | _ => rfl

/-- The step clears the withdrawn flags of the ingress. -/
def Clears (rib : Rib S) (m : Mui) : RibEvent → Prop
  | .payload p =>
    p.ingressId = m ∧ rib.needsReactivation p.rxValue.multicast p.routeStatus m = true
  | .ingressReappeared id => id = m
  | _ => False

/-- A flag hides a record that was stored as active. -/
def Hidden (rib : Rib S) (k : RouteKey) : Prop := rib.masked k = true ∧ rib.LocallyActive k

/-- The step clears the flag over a record that was stored as active and that the event itself
says nothing about. -/
def Exposes (rib : Rib S) (e : RibEvent) : Prop :=
  ∃ k : RouteKey, rib.Clears k.mui e ∧ e.verdict k = none ∧ rib.Hidden k

theorem reportsActive_of_eq {rib' : Rib S} (hrec : rib'.localRecord k = rib.localRecord k)
    (hmask : rib'.masked k = rib.masked k) : rib'.ReportsActive k ↔ rib.ReportsActive k := by
  rw [reportsActive_iff, reportsActive_iff, LocallyActive, LocallyActive, hrec, hmask]

theorem not_reportsActive_of_masked (h : rib.masked k = true) : ¬ rib.ReportsActive k := by
  simp [reportsActive_iff, h]

theorem not_hidden_of_eq {rib' : Rib S} (h : ¬ rib.Hidden k)
    (hrec : rib'.localRecord k = rib.localRecord k)
    (hmask : rib'.masked k = true → rib.masked k = true) : ¬ rib'.Hidden k := by
  rintro ⟨hm, hlocal⟩
  rw [LocallyActive, hrec] at hlocal
  exact h ⟨hmask hm, hlocal⟩

variable [LawfulPrefixStore S]

/-! ## One step -/

section

variable (retain : Bool) (rib : Rib S)

theorem masked_payload (p : Payload) (k : RouteKey) :
    (rib.step retain (.payload p)).masked k =
      (!(rib.needsReactivation p.rxValue.multicast p.routeStatus p.ingressId &&
        decide (k.mui = p.ingressId)) && rib.masked k) := by
  rw [step_payload]
  exact flag_insertPrefix ..

theorem localRecord_payload_self
    (h : p.routeStatus ≠ .withdrawn) : (rib.step retain (.payload p)).localRecord p.key =
      some ⟨p.ingressId, 0, p.routeStatus, p.rxValue.rotondaPamap⟩ := by
  rw [step_payload]
  exact localRecord_insertPrefix_self rib _ _ _ _ _ _ h

theorem locallyActive_payload_self (p : Payload) :
    (rib.step retain (.payload p)).LocallyActive p.key ↔ p.routeStatus = .active := by
  rw [LocallyActive]
  by_cases hwd : p.routeStatus = .withdrawn
  · obtain ⟨g, hg, hrec⟩ := localRecord_insertPrefix_withdrawn rib p.rxValue.pfx
      p.rxValue.multicast p.rxValue 0 p.ingressId retain
    rw [step_payload, hwd]
    refine ⟨?_, fun h => by cases h⟩
    rintro ⟨r, hr, hactive⟩
    obtain ⟨r', _, rfl⟩ := Option.map_eq_some_iff.mp (hrec.symm.trans hr)
    exact ((hg r').1.symm.trans hactive)
  · have hrec := localRecord_payload_self retain rib hwd
    constructor
    · rintro ⟨r, hr, hactive⟩
      cases hrec.symm.trans hr
      exact hactive
    · intro hactive
      exact ⟨_, hrec, hactive⟩

theorem reportsActive_payload_self (p : Payload) :
    (rib.step retain (.payload p)).ReportsActive p.key ↔ p.routeStatus = .active := by
  rw [reportsActive_iff, locallyActive_payload_self]
  refine ⟨fun h => h.2, fun hactive => ⟨?_, hactive⟩⟩
  -- an active announcement under a flag of its own family is preceded by a reactivation
  rw [masked_payload, needsReactivation_eq, hactive]
  have hmask : rib.masked p.key =
      rib.flag p.rxValue.multicast p.rxValue.pfx.family p.ingressId := rfl
  rw [hmask]
  cases p.rxValue.pfx.family <;>
    cases rib.flag p.rxValue.multicast .v4 p.ingressId <;>
    cases rib.flag p.rxValue.multicast .v6 p.ingressId <;> simp [Payload.key]

theorem localRecord_payload_ne
    (hk : p.key ≠ k) : (rib.step retain (.payload p)).localRecord k = rib.localRecord k := by
  rw [step_payload]
  exact localRecord_insertPrefix_ne rib _ _ _ _ _ _ _ (Ne.symm hk)

end

theorem localRecord_withdraw_of_not_covered {ids : List (IngressId × Option AfiSafiType)}
    (h : withdraws ids k.multicast k.pfx.family k.mui = false) :
    (rib.withdrawForIngresses ids retain).1.localRecord k = rib.localRecord k := by
  simp [localRecord_withdrawForIngresses, h]

variable (id : IngressId)

/-- Entries with an unsupported family cover nothing, and one entry is the whole batch here. -/
theorem withdraws_handled_singleton (scope : Option AfiSafiType) (mc : Bool) (f : Family) (m : Mui)
    : withdraws (handled [(id, scope)]) mc f m = withdraws [(id, scope)] mc f m := by
  match scope with
  | none | some .ipv4Unicast | some .ipv6Unicast | some .ipv4Multicast | some .ipv6Multicast =>
    rfl
  | some (.other ..) => simp [handled, withdraws, scopeCovers, AfiSafiType.covers,
      AfiSafiType.supported]

variable (entries : List (IngressId × Option IngressInfo))

theorem handled_toMark :
    handled (toMark entries) = toMark entries := by
  rw [handled, takeWhile_eq_self_iff]
  intro e he
  obtain ⟨e', _, rfl⟩ := mem_map.mp he
  rfl

section

variable (retain : Bool) (rib : Rib S)

theorem reportsActive_withdraw (scope : Option AfiSafiType) (k : RouteKey) :
    (rib.step retain (.withdraw id scope)).ReportsActive k ↔
      ¬ (k.mui = id ∧ scopeCovers scope k.multicast k.pfx.family = true) ∧
        rib.ReportsActive k := by
  have hwd : withdraws [(id, scope)] k.multicast k.pfx.family k.mui = true ↔
      k.mui = id ∧ scopeCovers scope k.multicast k.pfx.family = true := by
    simp [withdraws, eq_comm (a := id)]
  have hmask : (rib.step retain (.withdraw id scope)).masked k =
      (withdraws [(id, scope)] k.multicast k.pfx.family k.mui || rib.masked k) := by
    rw [← withdraws_handled_singleton]
    exact flag_withdrawForIngresses ..
  by_cases hcov : k.mui = id ∧ scopeCovers scope k.multicast k.pfx.family = true
  · rw [hwd.mpr hcov, Bool.true_or] at hmask
    simp [not_reportsActive_of_masked hmask, hcov]
  · have hfalse := Bool.eq_false_iff.mpr (mt hwd.mp hcov)
    rw [hfalse, Bool.false_or] at hmask
    have hrec : (rib.step retain (.withdraw id scope)).localRecord k = rib.localRecord k :=
      localRecord_withdraw_of_not_covered hfalse
    rw [reportsActive_of_eq hrec hmask, iff_and_self]
    exact fun _ => hcov

theorem reportsActive_withdrawBulk (k : RouteKey) :
    (rib.step retain (.withdrawBulk entries)).ReportsActive k ↔
      k.mui ∉ entries.map Prod.fst ∧ rib.ReportsActive k := by
  let marked := (rib.withdrawForIngresses (toMark entries) retain).1
  have hstep : rib.step retain (.withdrawBulk entries) =
      marked.removeForIngresses (toRemove entries) := rfl
  have hrec := localRecord_removeForIngresses marked (toRemove entries) k
  have hmem : k.mui ∈ entries.map Prod.fst ↔
      (k.mui, none) ∈ toMark entries ∨ k.mui ∈ toRemove entries := by
    simp only [toMark, toRemove, mem_map, mem_filter, Prod.exists]
    constructor
    · rintro ⟨i, info, he, rfl⟩
      cases info with
      | none => exact .inl ⟨_, none, ⟨he, rfl⟩, rfl⟩
      | some info => exact .inr ⟨_, some info, ⟨he, rfl⟩, rfl⟩
    · rintro (⟨i, info, ⟨he, _⟩, h⟩ | ⟨i, info, ⟨he, _⟩, h⟩)
      · exact ⟨i, info, he, congrArg Prod.fst h⟩
      · exact ⟨i, info, he, h⟩
  rw [hstep, hmem]
  by_cases hrem : k.mui ∈ toRemove entries
  · rw [if_pos hrem] at hrec
    have hnot : ¬ (marked.removeForIngresses (toRemove entries)).ReportsActive k := by
      rw [reportsActive_iff, LocallyActive, hrec]
      simp
    simp [hnot, hrem]
  · rw [if_neg hrem] at hrec
    have hmask : (marked.removeForIngresses (toRemove entries)).masked k =
        (withdraws (toMark entries) k.multicast k.pfx.family k.mui || rib.masked k) := by
      refine (flag_removeForIngresses marked _ _ _ hrem).trans ?_
      rw [← handled_toMark]
      exact flag_withdrawForIngresses ..
    by_cases hmark : (k.mui, none) ∈ toMark entries
    · rw [(withdraws_iff ..).mpr (.inl hmark), Bool.true_or] at hmask
      simp [not_reportsActive_of_masked hmask, hmark]
    · have hfalse : withdraws (toMark entries) k.multicast k.pfx.family k.mui = false := by
        rw [← Bool.not_eq_true, withdraws_iff]
        rintro (h | h)
        · exact hmark h
        · simp [toMark] at h
      rw [hfalse, Bool.false_or] at hmask
      have hrec' := hrec.trans (localRecord_withdraw_of_not_covered hfalse)
      rw [reportsActive_of_eq hrec' hmask]
      simp [hmark, hrem]

theorem reportsActive_removeMuis (ids : List IngressId) (k : RouteKey) :
    (rib.step retain (.removeMuis ids)).ReportsActive k ↔
      k.mui ∉ ids ∧ rib.ReportsActive k := by
  have hrec := localRecord_removeForIngresses rib ids k
  by_cases hmem : k.mui ∈ ids
  · rw [if_pos hmem] at hrec
    have hnot : ¬ (rib.step retain (.removeMuis ids)).ReportsActive k := by
      rw [reportsActive_iff, LocallyActive, step, hrec]
      simp
    simp [hnot, hmem]
  · rw [if_neg hmem] at hrec
    have hmask : (rib.removeForIngresses ids).masked k = rib.masked k :=
      flag_removeForIngresses rib ids _ _ hmem
    rw [step, reportsActive_of_eq hrec hmask, iff_and_self]
    exact fun _ => hmem

theorem reportsActive_ingressReappeared (k : RouteKey) :
    (rib.step retain (.ingressReappeared id)).ReportsActive k ↔
      (k.mui = id ∧ rib.Hidden k) ∨ rib.ReportsActive k := by
  have hmask : (rib.step retain (.ingressReappeared id)).masked k =
      (!decide (k.mui = id) && rib.masked k) := flag_markIngressActive ..
  have hlocal : (rib.step retain (.ingressReappeared id)).LocallyActive k ↔
      rib.LocallyActive k := by
    have hrec : (rib.step retain (.ingressReappeared id)).localRecord k = rib.localRecord k :=
      localRecord_markIngressActive ..
    rw [LocallyActive, LocallyActive, hrec]
  rw [reportsActive_iff, reportsActive_iff, hmask, hlocal, Hidden]
  by_cases hid : k.mui = id <;> cases rib.masked k <;> simp [hid]

theorem reportsActive_payload_ne (hk : p.key ≠ k) :
    (rib.step retain (.payload p)).ReportsActive k ↔
      (rib.Clears k.mui (.payload p) ∧ rib.Hidden k) ∨ rib.ReportsActive k := by
  have hlocal : (rib.step retain (.payload p)).LocallyActive k ↔ rib.LocallyActive k := by
    rw [LocallyActive, LocallyActive, localRecord_payload_ne retain rib hk]
  rw [reportsActive_iff, reportsActive_iff, masked_payload, hlocal, Clears, Hidden]
  by_cases hid : p.ingressId = k.mui
  · rw [hid]
    cases rib.needsReactivation p.rxValue.multicast p.routeStatus k.mui <;>
      cases rib.masked k <;> simp
  · cases rib.masked k <;> simp [hid, Ne.symm hid]

/-- What a step does to a report: a record the event is about follows it; any other one is
exposed if the step clears the flag over its active record, and is left alone otherwise. -/
theorem reportsActive_step (e : RibEvent) (k : RouteKey) :
    (rib.step retain e).ReportsActive k ↔
      match e.verdict k with
      | some up => up = true
      | none => (rib.Clears k.mui e ∧ rib.Hidden k) ∨ rib.ReportsActive k := by
  cases e with
  | payload p =>
    by_cases hk : p.key = k
    · subst hk
      simp [RibEvent.verdict, reportsActive_payload_self]
    · simp [RibEvent.verdict, hk, reportsActive_payload_ne retain rib hk]
  | withdraw id scope =>
    rw [reportsActive_withdraw]
    by_cases hcov : k.mui = id ∧ scopeCovers scope k.multicast k.pfx.family = true
    · simp [RibEvent.verdict, hcov]
    · simp only [RibEvent.verdict, Clears, if_neg hcov, false_and, false_or]
      exact and_iff_right hcov
  | withdrawBulk entries =>
    rw [reportsActive_withdrawBulk]
    by_cases hmem : k.mui ∈ entries.map Prod.fst
    · simp only [RibEvent.verdict, if_pos hmem]
      simp [hmem]
    · simp only [RibEvent.verdict, Clears, if_neg hmem, false_and, false_or]
      exact and_iff_right hmem
  | ingressReappeared id =>
    rw [reportsActive_ingressReappeared]
    simp only [RibEvent.verdict, Clears, eq_comm (a := id)]
  | removeMuis ids =>
    rw [reportsActive_removeMuis]
    by_cases hmem : k.mui ∈ ids
    · simp [RibEvent.verdict, hmem]
    · simp [RibEvent.verdict, Clears, hmem]

end

/-- An event writes no record that it says nothing about. -/
theorem localRecord_step_of_verdict
    (h : e.verdict k = none) : (rib.step retain e).localRecord k = rib.localRecord k := by
  cases e with
  | payload p =>
    have hk : p.key ≠ k := fun hk => by simp [RibEvent.verdict, hk] at h
    exact localRecord_payload_ne retain rib hk
  | withdraw id scope =>
    have hcov : ¬ (k.mui = id ∧ scopeCovers scope k.multicast k.pfx.family = true) :=
      fun hcov => by simp [RibEvent.verdict, hcov] at h
    refine localRecord_withdraw_of_not_covered (Bool.eq_false_iff.mpr fun hwd => hcov ?_)
    simpa [withdraws, eq_comm (a := id)] using hwd
  | withdrawBulk entries =>
    have hmem : k.mui ∉ entries.map Prod.fst := fun hmem => by simp [RibEvent.verdict, hmem] at h
    have hrem : k.mui ∉ toRemove entries := by
      rintro hrem
      obtain ⟨e, he, heq⟩ := mem_map.mp hrem
      exact hmem (mem_map.mpr ⟨e, (mem_filter.mp he).1, heq⟩)
    refine (localRecord_removeForIngresses _ _ k).trans ?_
    rw [if_neg hrem]
    refine localRecord_withdraw_of_not_covered (Bool.eq_false_iff.mpr fun hwd => hmem ?_)
    rcases (withdraws_iff ..).mp hwd with hmark | hmark <;>
      obtain ⟨e, he, heq⟩ := mem_map.mp hmark
    · exact mem_map.mpr ⟨e, (mem_filter.mp he).1, congrArg Prod.fst heq⟩
    · cases congrArg Prod.snd heq
  | ingressReappeared id => exact localRecord_markIngressActive ..
  | removeMuis ids =>
    have hmem : k.mui ∉ ids := fun hmem => by simp [RibEvent.verdict, hmem] at h
    exact (localRecord_removeForIngresses rib ids k).trans (if_neg hmem)

/-! ## Whole runs -/

/-- The RIB reports a record as active exactly when the history says so. -/
def ReportsLatest (es : List RibEvent) (rib : Rib S) : Prop :=
  ∀ k, rib.ReportsActive k ↔ latest k es = some true

variable (reg : Register)

theorem reportsLatest_new : ReportsLatest [] (new reg : Rib S) := by
  intro k
  simp [reportsActive_iff, LocallyActive, latest]

theorem reportsLatest_step (hrib : ReportsLatest es rib) (hexp : ¬ rib.Exposes e) :
    ReportsLatest (es ++ [e]) (rib.step retain e) := by
  intro k
  rw [reportsActive_step, latest_snoc]
  cases hv : e.verdict k with
  | some up => simp
  | none =>
    have hnot : ¬ (rib.Clears k.mui e ∧ rib.Hidden k) :=
      fun ⟨hclears, hhidden⟩ => hexp ⟨k, hclears, hv, hhidden⟩
    simpa [hnot] using hrib k

theorem not_reportsLatest_step (hrib : ReportsLatest es rib) (hexp : rib.Exposes e) :
    ¬ ReportsLatest (es ++ [e]) (rib.step retain e) := by
  obtain ⟨k, hclears, hv, hhidden⟩ := hexp
  intro hstep
  have hafter : (rib.step retain e).ReportsActive k := by
    rw [reportsActive_step, hv]
    exact .inl ⟨hclears, hhidden⟩
  have hlatest := (hstep k).mp hafter
  rw [latest_snoc, hv, Option.none_or] at hlatest
  exact not_reportsActive_of_masked hhidden.1 ((hrib k).mpr hlatest)

/-- The reports follow the history in every state of a run exactly when no step of the run clears
a withdrawn flag over a record that was stored as active. -/
theorem reports_latest_throughout_iff (reg : Register) (retain : Bool) (es : List RibEvent) :
    (∀ pre, pre <+: es → ReportsLatest pre (run (step retain) (new reg : Rib S) pre)) ↔
      ∀ pre e, pre ++ [e] <+: es → ¬ (run (step retain) (new reg : Rib S) pre).Exposes e :=
  throughout_iff (step retain) ReportsLatest (fun rib e => ¬ rib.Exposes e) (new reg) es
    (reportsLatest_new reg)
    (fun _ _ _ hrib hexp => reportsLatest_step hrib hexp)
    (fun _ _ _ hrib hexp => not_reportsLatest_step hrib (not_not.mp hexp))

/-! ## Without retained attributes -/

theorem not_hidden_new (k : RouteKey) : ¬ (new reg : Rib S).Hidden k := by
  simp [Hidden, masked]

theorem not_hidden_withdrawForIngresses (h : ¬ rib.Hidden k)
    (ids : List (IngressId × Option AfiSafiType))
    (hids : ∀ mc f m, withdraws (handled ids) mc f m = withdraws ids mc f m) :
    ¬ (rib.withdrawForIngresses ids false).1.Hidden k := by
  have hrec := localRecord_withdrawForIngresses rib ids false k
  by_cases hwd : withdraws ids k.multicast k.pfx.family k.mui = true
  · -- what is in the scope of the withdrawal was compacted
    rintro ⟨_, r, hr, hactive⟩
    cases hold : rib.localRecord k with
    | none => simp [hrec, hold] at hr
    | some old =>
      simp only [hrec, hwd, hold, Bool.not_false, Bool.true_and, Option.isSome_some, if_true,
        Option.some.injEq] at hr
      subst hr
      cases hactive
  · have hfalse := Bool.eq_false_iff.mpr hwd
    refine not_hidden_of_eq h (localRecord_withdraw_of_not_covered hfalse) fun hm => ?_
    have hflag := flag_withdrawForIngresses rib ids false k.multicast k.pfx.family k.mui
    rw [hids, hfalse, Bool.false_or] at hflag
    exact hflag.symm.trans hm

theorem not_hidden_removeForIngresses (h : ¬ rib.Hidden k)
    (ids : List IngressId) : ¬ (rib.removeForIngresses ids).Hidden k := by
  have hrec := localRecord_removeForIngresses rib ids k
  by_cases hmem : k.mui ∈ ids
  · rw [if_pos hmem] at hrec
    rintro ⟨_, r, hr, _⟩
    cases hrec.symm.trans hr
  · rw [if_neg hmem] at hrec
    refine not_hidden_of_eq h hrec fun hm => ?_
    exact (flag_removeForIngresses rib ids _ _ hmem).symm.trans hm

/-- The record a payload is about is not hidden after it, whatever was before. -/
theorem not_hidden_payload_self (rib : Rib S) (retain : Bool) (p : Payload) :
    ¬ (rib.step retain (.payload p)).Hidden p.key := by
  rintro ⟨hmask, hlocal⟩
  have hactive := (locallyActive_payload_self retain rib p).mp hlocal
  exact not_reportsActive_of_masked hmask ((reportsActive_payload_self retain rib p).mpr hactive)

/-- A payload hides nothing that was not hidden, whatever the setting. -/
theorem not_hidden_payload (h : ¬ rib.Hidden k) (retain : Bool)
    (p : Payload) : ¬ (rib.step retain (.payload p)).Hidden k := by
  by_cases hk : p.key = k
  · subst hk
    exact not_hidden_payload_self rib retain p
  · refine not_hidden_of_eq h (localRecord_payload_ne retain rib hk) fun hm => ?_
    rw [masked_payload, Bool.and_eq_true] at hm
    exact hm.2

/-- When withdrawn attributes are not retained, no event hides a record that was stored as
active. -/
theorem not_hidden_step (h : ¬ rib.Hidden k) (e : RibEvent) : ¬ (rib.step false e).Hidden k := by
  cases e with
  | payload p => exact not_hidden_payload h false p
  | withdraw id scope =>
    exact not_hidden_withdrawForIngresses h _ fun mc f m =>
      withdraws_handled_singleton id scope mc f m
  | withdrawBulk entries =>
    refine not_hidden_removeForIngresses (not_hidden_withdrawForIngresses h _ ?_) _
    intro mc f m
    rw [handled_toMark]
  | ingressReappeared id =>
    refine not_hidden_of_eq h (localRecord_markIngressActive rib id k) fun hm => ?_
    have hflag : (rib.step false (.ingressReappeared id)).masked k =
        (!decide (k.mui = id) && rib.masked k) := flag_markIngressActive ..
    rw [hflag, Bool.and_eq_true] at hm
    exact hm.2
  | removeMuis ids => exact not_hidden_removeForIngresses h ids

theorem not_exposes_run (es : List RibEvent) (e : RibEvent) :
    ¬ (run (step false) (new reg : Rib S) es).Exposes e := by
  rintro ⟨k, _, _, hhidden⟩
  exact run_invariant (step false) (fun _ rib => ¬ rib.Hidden k) (new reg) es
    (not_hidden_new reg k) (fun _ e _ h => not_hidden_step h e) es (prefix_refl es) hhidden

/-- When withdrawn attributes are not retained, the reports always follow the history. -/
theorem reports_latest_of_not_retained (es : List RibEvent) :
    ReportsLatest es (run (step false) (new reg : Rib S) es) :=
  run_invariant (step false) ReportsLatest (new reg) es (reportsLatest_new reg)
    (fun pre e _ h => reportsLatest_step h (not_exposes_run reg pre e)) es (prefix_refl es)

/-! ## A session that restarts -/

/-- An announcement, the end of its session and the first announcement of the next session. -/
def sessionRestart : List RibEvent :=
  [.payload (.slash8 10 1 .active), .withdraw 1 none, .payload (.slash8 20 1 .active)]

/-- With retained attributes the first announcement of the next session brings back the route of
the session that ended. -/
theorem sessionRestart_not_reportsLatest :
    ¬ ReportsLatest sessionRestart
      (run (step true) (new Register.new : Rib (MapStore RotondaPaMap)) sessionRestart) := by
  intro h
  have hk := (h ⟨false, .slash8 10, 1⟩).mp (by decide)
  revert hk
  decide

/-- Without retained attributes no step of the same run exposes a record. -/
theorem sessionRestart_reportsLatest_compacted :
    (run (step false) (new Register.new : Rib (MapStore RotondaPaMap)) sessionRestart).ReportsActive
      ⟨false, .slash8 20, 1⟩ ∧
    ∀ pre, pre <+: sessionRestart → ReportsLatest pre
      (run (step false) (new Register.new : Rib (MapStore RotondaPaMap)) pre) := by
  refine ⟨by decide, ?_⟩
  exact (reports_latest_throughout_iff Register.new false sessionRestart).mpr fun pre e _ =>
    not_exposes_run Register.new pre e

/-- The route of the session that ended is not reported again. -/
theorem sessionRestart_not_retained :
    ReportsLatest sessionRestart
      (run (step false) (new Register.new : Rib (MapStore RotondaPaMap)) sessionRestart) :=
  reports_latest_of_not_retained Register.new sessionRestart

end Rib

end Rotonda
