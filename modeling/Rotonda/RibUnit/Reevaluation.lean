import Rotonda.RibUnit.History
import Rotonda.RibUnit.Rov

/-!
Route origin re-evaluation.  A Full update of the RTR cache starts a walk over the unicast store,
an element of a Delta update a query for the routes its prefix covers; both write every record
they read back with a new RPKI byte, and neither keeps the route updates out meanwhile.

* `Rib.SameRoutes`: two RIBs with the same records up to the RPKI byte, and the same flags;
* `Rib.SameRoutes.reinsert_iff`: a re-insert does so exactly when it writes the route that is there;
* `routes_unchanged_iff`: the routes are those of the route events alone at every point of a
  schedule exactly when every re-insert of it is timely.
-/

namespace Rotonda

open PrefixStore LawfulPrefixStore QueryStore Lib Lib.Runs Option

/-! ## One record -/

/-- The origin of a path: its last hop, if that is a single AS number.  A library parses the path
attributes, from the parse info and the blob. -/
abbrev HopOrigin := UInt8 → Bytes → Option Asn

def RotondaPaMap.origin (hop : HopOrigin) (pa : RotondaPaMap) : Option Asn :=
  hop pa.ppi pa.pathAttributes

@[simp] theorem RotondaPaMap.origin_setRpkiInfo (hop : HopOrigin) (pa : RotondaPaMap)
    (rov : RovStatus) : (pa.setRpkiInfo rov).origin hop = pa.origin hop := rfl

/-- Status and path attributes: what route events say of a record. -/
def Record.route (r : Record RotondaPaMap) : RouteStatus × UInt8 × Bytes :=
  (r.status, r.metaData.ppi, r.metaData.pathAttributes)

/-- The record that is written back; none for a path without an origin. -/
def RtrCache.reevaluate {V : Type} [PrefixStore V MaxLenList] [QueryStore V MaxLenList]
    (hop : HopOrigin) (vrps : V) (pfx : Prefix) (r : Record RotondaPaMap) :
    Option (Record RotondaPaMap) :=
  match r.metaData.origin hop with
  | none => none
  | some origin =>
    (RtrCache.checkRov vrps pfx origin).map fun rov =>
      ⟨r.multiUniqId, r.ltime, r.status, r.metaData.setRpkiInfo rov⟩

theorem RtrCache.multiUniqId_reevaluate {V : Type} [PrefixStore V MaxLenList]
    [QueryStore V MaxLenList] {hop : HopOrigin} {vrps : V} {pfx : Prefix}
    {r r' : Record RotondaPaMap} (h : reevaluate hop vrps pfx r = some r') :
    r'.multiUniqId = r.multiUniqId := by
  unfold reevaluate at h
  split at h
  · cases h
  · obtain ⟨rov, _, rfl⟩ := map_eq_some_iff.mp h
    rfl

/-- What a re-evaluation of a Delta element asks for: the exact match and its more specifics, no
withdrawn records. -/
def QueryOptions.reevaluation : QueryOptions := ⟨.exactMatch, false, false, true, none⟩

namespace QueryResult

variable {M : Type}

def isEmpty (res : QueryResult M) : Bool :=
  res.records.isEmpty && res.lessSpecifics.isNone && res.moreSpecifics.isNone

/-- The records of an answer in the order in which they are handled. -/
def entries (pfx : Prefix) (res : QueryResult M) : List (Prefix × Record M) :=
  res.records.map (pfx, ·) ++
    (res.moreSpecifics.getD []).flatMap fun pr => pr.metaData.map (pr.pfx, ·)

end QueryResult

namespace Rib

variable {S : Type} [PrefixStore S RotondaPaMap]

/-- Re-evaluation writes to the unicast store, wherever the record was read. -/
def reinsert (rib : Rib S) (pfx : Prefix) (r : Record RotondaPaMap) : Rib S :=
  rib.setStore false (PrefixStore.insert rib.unicast pfx r).1

/-- Same records up to the RPKI byte and the logical time, same withdrawn flags. -/
structure SameRoutes (rib rib' : Rib S) : Prop where
  route : ∀ k, (rib.localRecord k).map Record.route = (rib'.localRecord k).map Record.route
  flag : ∀ mc f m, rib.flag mc f m = rib'.flag mc f m

/-! ## Route events -/

namespace SameRoutes

theorem refl (rib : Rib S) : SameRoutes rib rib := ⟨fun _ => rfl, fun _ _ _ => rfl⟩

variable {rib rib' : Rib S}

theorem isSome (h : SameRoutes rib rib') (k : RouteKey) :
    (rib.localRecord k).isSome = (rib'.localRecord k).isSome := by
  simpa using congrArg Option.isSome (h.route k)

/-- Reads agree too: they show the local status under the flag. -/
theorem report (h : SameRoutes rib rib') (k : RouteKey) :
    (rib.report k).map Record.route = (rib'.report k).map Record.route := by
  have hroute := h.route k
  have hflag : rib.masked k = rib'.masked k := h.flag ..
  rw [report_eq, report_eq, hflag]
  cases rib'.masked k with
  | false => simpa using hroute
  | true =>
    cases hr : rib.localRecord k <;> cases hr' : rib'.localRecord k <;>
      simp_all [Record.route]

/-- What the withdrawal of a route leaves of it. -/
private def withdrawnRoute (retain : Bool) (route : RouteStatus × UInt8 × Bytes) :
    RouteStatus × UInt8 × Bytes :=
  if retain then (.withdrawn, route.2)
  else (.withdrawn, RotondaPaMap.emptyPathAttributes.ppi,
    RotondaPaMap.emptyPathAttributes.pathAttributes)

variable [LawfulPrefixStore S]

theorem insertPrefix (h : SameRoutes rib rib') (p : Prefix) (mc : Bool) (val : RotondaRoute)
    (st : RouteStatus) (lt : Nat) (m : Mui) (retain : Bool) :
    SameRoutes (rib.insertPrefix p mc val st lt m retain).1
      (rib'.insertPrefix p mc val st lt m retain).1 := by
  have hreact : rib.needsReactivation mc st m = rib'.needsReactivation mc st m := by
    rw [needsReactivation_eq, needsReactivation_eq, h.flag, h.flag]
  refine ⟨fun k => ?_, fun mc' f n => ?_⟩
  · by_cases hk : k = ⟨mc, p, m⟩
    · subst hk
      by_cases hst : st = .withdrawn
      · subst hst
        obtain ⟨g, hg, hrec⟩ := localRecord_insertPrefix_withdrawn rib p mc val lt m retain
        obtain ⟨g', hg', hrec'⟩ := localRecord_insertPrefix_withdrawn rib' p mc val lt m retain
        -- the withdrawn route is one function of the route, whatever the store does to the time
        have hroute : ∀ g : Record RotondaPaMap → Record RotondaPaMap, (∀ r, (g r).status =
            .withdrawn ∧ (g r).metaData = if retain then r.metaData else .emptyPathAttributes) →
            Record.route ∘ g = withdrawnRoute retain ∘ Record.route := by
          intro g hg
          funext r
          cases retain <;> simp [Record.route, withdrawnRoute, hg]
        rw [hrec, hrec', map_map, map_map, hroute g hg, hroute g' hg',
          ← map_map, ← map_map, h.route]
      · rw [localRecord_insertPrefix_self _ _ _ _ _ _ _ hst,
          localRecord_insertPrefix_self _ _ _ _ _ _ _ hst]
    · rw [localRecord_insertPrefix_ne _ _ _ _ _ _ _ _ hk,
        localRecord_insertPrefix_ne _ _ _ _ _ _ _ _ hk]
      exact h.route k
  · rw [flag_insertPrefix, flag_insertPrefix, hreact, h.flag]

theorem withdrawForIngresses (h : SameRoutes rib rib')
    (ids : List (IngressId × Option AfiSafiType)) (retain : Bool) :
    SameRoutes (rib.withdrawForIngresses ids retain).1
      (rib'.withdrawForIngresses ids retain).1 := by
  refine ⟨fun k => ?_, fun mc f m => ?_⟩
  · rw [localRecord_withdrawForIngresses, localRecord_withdrawForIngresses, h.isSome]
    split
    · rfl
    · exact h.route k
  · rw [flag_withdrawForIngresses, flag_withdrawForIngresses, h.flag]

theorem markIngressActive (h : SameRoutes rib rib') (m : Mui) :
    SameRoutes (rib.markIngressActive m) (rib'.markIngressActive m) := by
  refine ⟨fun k => ?_, fun mc f n => ?_⟩
  · rw [localRecord_markIngressActive, localRecord_markIngressActive]
    exact h.route k
  · rw [flag_markIngressActive, flag_markIngressActive, h.flag]

variable [UniformRemoval S]

theorem removeForIngresses (h : SameRoutes rib rib') (ids : List IngressId) :
    SameRoutes (rib.removeForIngresses ids) (rib'.removeForIngresses ids) := by
  induction ids generalizing rib rib' with
  | nil => exact h
  | cons id ids ih =>
    refine ih ⟨fun k => ?_, fun mc f n => ?_⟩
    · have hremoved : ∀ rib : Rib S, Rib.localRecord ({ rib with
          unicast := removeMui rib.unicast id
          multicast := removeMui rib.multicast id }) k =
          if k.mui = id then none else rib.localRecord k := by
        intro rib
        obtain ⟨mc, p, m⟩ := k
        cases mc <;> exact localRecord_removeMui ..
      rw [hremoved, hremoved]
      split
      · rfl
      · exact h.route k
    · have hflags := fun f => h.flag mc f n
      by_cases hn : n = id
      · subst hn
        cases mc <;> exact UniformRemoval.flag_removeMui_congr hflags f
      · cases mc <;> exact (flag_removeMui f hn).trans ((hflags f).trans (flag_removeMui f hn).symm)

/-- Route events lead from RIBs with the same routes to RIBs with the same routes. -/
theorem step (h : SameRoutes rib rib') (retain : Bool) (e : RibEvent) :
    SameRoutes (rib.step retain e) (rib'.step retain e) := by
  cases e with
  | payload p =>
    rw [step_payload, step_payload]
    exact h.insertPrefix ..
  | withdraw id scope => exact h.withdrawForIngresses _ retain
  | withdrawBulk entries => exact (h.withdrawForIngresses _ retain).removeForIngresses _
  | ingressReappeared id =>
    have hactive := h.markIngressActive id
    exact ⟨hactive.route, hactive.flag⟩
  | removeMuis ids => exact h.removeForIngresses ids

end SameRoutes

/-! ## Re-inserts -/

variable [LawfulPrefixStore S]

theorem localRecord_reinsert (rib : Rib S) (p : Prefix) (r : Record RotondaPaMap) (k : RouteKey) :
    (rib.reinsert p r).localRecord k =
      if k = ⟨false, p, r.multiUniqId⟩ then some r else rib.localRecord k := by
  obtain ⟨mc, q, m⟩ := k
  cases mc with
  | true => rfl
  | false =>
    refine (localRecord_insert ..).trans ?_
    simp only [RouteKey.mk.injEq, true_and]
    rfl

theorem flag_reinsert (rib : Rib S) (p : Prefix) (r : Record RotondaPaMap) (mc : Bool)
    (f : Family) (m : Mui) : (rib.reinsert p r).flag mc f m = rib.flag mc f m := by
  cases mc with
  | true => rfl
  | false => exact flag_insert ..

/-- The unicast store has the route of the record under its prefix and mui. -/
def Has (rib : Rib S) (p : Prefix) (r : Record RotondaPaMap) : Prop :=
  (rib.localRecord ⟨false, p, r.multiUniqId⟩).map Record.route = some r.route

instance (rib : Rib S) (p : Prefix) (r : Record RotondaPaMap) : Decidable (rib.Has p r) :=
  inferInstanceAs (Decidable (_ = _))

theorem SameRoutes.reinsert_iff {rib alone : Rib S} (h : SameRoutes rib alone) (p : Prefix)
    (r : Record RotondaPaMap) : SameRoutes (rib.reinsert p r) alone ↔ rib.Has p r := by
  constructor
  · intro hafter
    have hroute := hafter.route ⟨false, p, r.multiUniqId⟩
    rw [localRecord_reinsert, if_pos rfl] at hroute
    rw [Has, h.route, ← hroute]
    rfl
  · intro hhas
    refine ⟨fun k => ?_, fun mc f m => (flag_reinsert ..).trans (h.flag mc f m)⟩
    rw [localRecord_reinsert]
    split
    next hk =>
      rw [hk, ← h.route, hhas]
      rfl
    · exact h.route k

end Rib

/-! ## The interleaving -/

/-- Where a re-evaluation goes on once it has written what it read. -/
inductive Rest (O : Type) where
  /-- At the iterator over the unicast store. -/
  | walk
  | verbs (verbs : List (RtrAction × RtrPayload O))
  /-- Before the query of a Delta element, or before its second one, to the multicast store. -/
  | query (pfx : Prefix) (multicast : Bool) (verbs : List (RtrAction × RtrPayload O))

/-- A re-evaluation under way: the records it read and has not written back. -/
structure Reevaluating (O : Type) where
  todo : List (Prefix × Record RotondaPaMap)
  rest : Rest O

structure Reevaluation (S V O : Type) where
  rib : Rib S
  cache : RtrCache V O
  tasks : Dict Nat (Reevaluating O)

namespace Reevaluation

inductive Move (O : Type) where
  | event (e : RibEvent)
  | full (n : Nat) (verbs : List (RtrAction × RtrPayload O))
  | delta (n : Nat) (verbs : List (RtrAction × RtrPayload O))
  /-- The iterator of a walk gives the records of one prefix. -/
  | iterate (n : Nat) (i : Nat)
  /-- The next element of a Delta changes the VRPs; `accept` is what the filter says of it. -/
  | verb (n : Nat) (accept : Bool)
  | query (n : Nat)
  | reinsert (n : Nat)
  | finish (n : Nat)

/-- The route events of a schedule. -/
def events {O : Type} (ms : List (Move O)) : List RibEvent :=
  ms.filterMap fun
    | .event e => some e
    | _ => none

theorem events_snoc {O : Type} (ms : List (Move O)) (m : Move O) :
    events (ms ++ [m]) = events ms ++ events [m] := by
  rw [events, events, events, List.filterMap_append]

variable {S V O : Type} [PrefixStore S RotondaPaMap] [QueryStore S RotondaPaMap]
  [PrefixStore V MaxLenList] [QueryStore V MaxLenList] [RtrOrigin O] [DecidableEq O]

def setTask (s : Reevaluation S V O) (n : Nat) (task : Reevaluating O) : Reevaluation S V O :=
  { s with tasks := s.tasks.insert n task }

/-- After an element for an origin that the filter accepts, the routes are queried. -/
def afterVerb (accept : Bool) (verb : RtrAction × RtrPayload O)
    (verbs : List (RtrAction × RtrPayload O)) : Rest O :=
  match verb.2 with
  | .origin o => if accept then .query (RtrOrigin.pfx o) false verbs else .verbs verbs
  | _ => .verbs verbs

/-- What the next re-insert of a task writes. -/
def nextWrite (hop : HopOrigin) (s : Reevaluation S V O) (n : Nat) :
    Option (Prefix × Record RotondaPaMap) :=
  match s.tasks.get n with
  | some ⟨(pfx, r) :: _, _⟩ => (RtrCache.reevaluate hop s.cache.vrps pfx r).map (pfx, ·)
  | _ => none

def step (hop : HopOrigin) (retain : Bool) (s : Reevaluation S V O) :
    Move O → Option (Reevaluation S V O)
  | .event e => some { s with rib := s.rib.step retain e }
  | .full n verbs =>
    if (s.tasks.get n).isSome then none
    else some ({ s with cache := s.cache.processRtr (.full verbs) }.setTask n ⟨[], .walk⟩)
  | .delta n verbs =>
    if (s.tasks.get n).isSome then none else some (s.setTask n ⟨[], .verbs verbs⟩)
  | .iterate n i =>
    match s.tasks.get n with
    | some ⟨[], .walk⟩ => (prefixesIter s.rib.unicast)[i]?.map fun pr =>
        s.setTask n ⟨pr.metaData.map (pr.pfx, ·), .walk⟩
    | _ => none
  | .verb n accept =>
    match s.tasks.get n with
    | some ⟨[], .verbs (verb :: verbs)⟩ =>
      match s.cache.deltaVerb verb with
      | none => some { s with tasks := s.tasks.erase n }
      | some cache => some ({ s with cache }.setTask n ⟨[], afterVerb accept verb verbs⟩)
    | _ => none
  | .query n =>
    match s.tasks.get n with
    | some ⟨[], .query pfx multicast verbs⟩ =>
      match QueryStore.query (s.rib.store multicast) pfx .reevaluation with
      | .error _ => some (s.setTask n ⟨[], .verbs verbs⟩)
      | .ok res =>
        -- an empty answer of the unicast store is followed by a look into the multicast store
        if res.isEmpty && !multicast then some (s.setTask n ⟨[], .query pfx true verbs⟩)
        else some (s.setTask n ⟨res.entries pfx, .verbs verbs⟩)
    | _ => none
  | .reinsert n =>
    match s.tasks.get n with
    | some ⟨_ :: todo, rest⟩ =>
      let rib := (s.nextWrite hop n).elim s.rib fun w => s.rib.reinsert w.1 w.2
      some ({ s with rib }.setTask n ⟨todo, rest⟩)
    | _ => none
  | .finish n =>
    match s.tasks.get n with
    | some ⟨[], .walk⟩ | some ⟨[], .verbs []⟩ => some { s with tasks := s.tasks.erase n }
    | _ => none

/-- A re-insert is timely when the unicast store still has the route that was read. -/
def Timely (hop : HopOrigin) (s : Reevaluation S V O) : Move O → Prop
  | .reinsert n => ∀ w ∈ s.nextWrite hop n, s.rib.Has w.1 w.2
  | _ => True

instance (hop : HopOrigin) (s : Reevaluation S V O) : DecidablePred (s.Timely hop)
  | .reinsert n => inferInstanceAs (Decidable (∀ w ∈ s.nextWrite hop n, s.rib.Has w.1 w.2))
  | .event _ | .full .. | .delta .. | .iterate .. | .verb .. | .query _ | .finish _ =>
    inferInstanceAs (Decidable True)

/-- What a step does to the RIB: an event is handled, a re-insert writes, all else leaves it. -/
theorem rib_step {hop : HopOrigin} {retain : Bool} {s t : Reevaluation S V O} {m : Move O}
    (h : step hop retain s m = some t) :
    (∃ e, m = .event e ∧ t.rib = s.rib.step retain e) ∨
      (∃ n, m = .reinsert n ∧
        t.rib = (s.nextWrite hop n).elim s.rib fun w => s.rib.reinsert w.1 w.2) ∨
      (events [m] = [] ∧ (∀ n, m ≠ .reinsert n) ∧ t.rib = s.rib) := by
  cases m with
  | event e =>
    cases h
    exact .inl ⟨e, rfl, rfl⟩
  | full n verbs | delta n verbs =>
    simp only [step] at h
    split at h <;> cases h
    exact .inr (.inr ⟨rfl, (by simp), rfl⟩)
  | iterate n i =>
    simp only [step] at h
    split at h
    · obtain ⟨pr, _, rfl⟩ := map_eq_some_iff.mp h
      exact .inr (.inr ⟨rfl, (by simp), rfl⟩)
    · cases h
  | verb n accept =>
    simp only [step] at h
    split at h
    · split at h <;> cases h <;> exact .inr (.inr ⟨rfl, (by simp), rfl⟩)
    · cases h
  | query n =>
    simp only [step] at h
    split at h
    · split at h
      · cases h
        exact .inr (.inr ⟨rfl, (by simp), rfl⟩)
      · split at h <;> cases h <;> exact .inr (.inr ⟨rfl, (by simp), rfl⟩)
    · cases h
  | reinsert n =>
    simp only [step] at h
    split at h <;> cases h
    exact .inr (.inl ⟨n, rfl, rfl⟩)
  | finish n =>
    simp only [step] at h
    split at h <;> cases h <;> exact .inr (.inr ⟨rfl, (by simp), rfl⟩)

/-! ## Whole schedules -/

variable [LawfulPrefixStore S] [UniformRemoval S]

/-- The RIB has the routes that the events of the schedule alone lead to. -/
def RoutesOf (retain : Bool) (start : Rib S) (ms : List (Move O)) (s : Reevaluation S V O) : Prop :=
  s.rib.SameRoutes (run (Rib.step retain) start (events ms))

/-- One step: the routes stay those of the events unless it is a re-insert that is not timely. -/
theorem routesOf_step_iff {hop : HopOrigin} {retain : Bool} {start : Rib S} {ms : List (Move O)}
    {s t : Reevaluation S V O} {m : Move O} (hs : RoutesOf retain start ms s)
    (h : step hop retain s m = some t) : RoutesOf retain start (ms ++ [m]) t ↔ s.Timely hop m := by
  rw [RoutesOf, events_snoc, run_append]
  obtain ⟨e, rfl, hrib⟩ | ⟨n, rfl, hrib⟩ | ⟨hevents, hne, hrib⟩ := rib_step h
  · rw [hrib]
    exact ⟨fun _ => trivial, fun _ => hs.step retain e⟩
  · rw [hrib]
    change ((s.nextWrite hop n).elim s.rib fun w => s.rib.reinsert w.1 w.2).SameRoutes
      (run (Rib.step retain) start (events ms)) ↔ ∀ w ∈ s.nextWrite hop n, s.rib.Has w.1 w.2
    cases s.nextWrite hop n with
    | none => exact ⟨fun _ => nofun, fun _ => hs⟩
    | some w =>
      refine (Rib.SameRoutes.reinsert_iff hs w.1 w.2).trans ⟨fun hw w' hw' => ?_, fun hw => ?_⟩
      · cases hw'
        exact hw
      · exact hw w rfl
  · rw [hrib, hevents, run_nil]
    refine ⟨fun _ => ?_, fun _ => hs⟩
    cases m with
    | reinsert n => exact absurd rfl (hne n)
    | _ => trivial

/-- At every point of a schedule the RIB has the routes of the route events alone, up to RPKI
bytes, exactly when every re-insert of the schedule finds the route it read still in the unicast
store. -/
theorem routes_unchanged_iff (hop : HopOrigin) (retain : Bool) (s : Reevaluation S V O)
    (ms : List (Move O)) :
    (∀ pre t, pre <+: ms → exec (step hop retain) s pre = some t →
        t.rib.SameRoutes (run (Rib.step retain) s.rib (events pre))) ↔
      Along (step hop retain) (Timely hop) s ms := by
  have hstart : RoutesOf retain s.rib [] s := Rib.SameRoutes.refl s.rib
  exact exec_history_iff (step hop retain) (RoutesOf retain s.rib) (Timely hop)
    (fun _ _ _ _ hs hG h => (routesOf_step_iff hs h).mpr hG)
    (fun _ _ _ _ hs hG h => mt (routesOf_step_iff hs h).mp hG) ms hstart

/-! ## Concrete schedules -/

namespace Race

/-- A path is the list of its hops here. -/
def hop : HopOrigin := fun _ path => path.getLast?.map UInt8.toUInt32

def pamap : RotondaPaMap := ⟨RovStatus.notChecked.toByte, 1, [3, 5]⟩

def unicast : RibEvent := .payload ⟨.ipv4Unicast (.slash8 10) pamap, 1, .active⟩

def withdrawn : RibEvent := .payload ⟨.ipv4Unicast (.slash8 10) pamap, 1, .withdrawn⟩

def start : Reevaluation (MapStore RotondaPaMap) (MapStore MaxLenList) RouteOrigin :=
  ⟨.new ⟨1, Dict.empty⟩, .default, Dict.empty⟩

/-- A walk reads the route, then all routes of the ingress are removed, then the walk writes. -/
def removal : List (Move RouteOrigin) :=
  [.event unicast, .full 0 [], .iterate 0 0, .event (.removeMuis [1]), .reinsert 0, .finish 0]

def withdrawal : List (Move RouteOrigin) :=
  [.event unicast, .full 0 [], .iterate 0 0, .event withdrawn, .reinsert 0, .finish 0]

/-- The same with a walk that is not disturbed. -/
def undisturbed : List (Move RouteOrigin) :=
  [.event unicast, .full 0 [], .iterate 0 0, .reinsert 0, .finish 0, .event withdrawn]

def key : RouteKey := ⟨false, .slash8 10, 1⟩

/-- After a schedule with its one re-evaluation done: the route as the RIB reports it, and as it is
after the route events alone. -/
def outcome (ms : List (Move RouteOrigin)) :
    Option (Bool × Option RouteStatus × Option RouteStatus) :=
  (exec (step hop true) start ms).map fun t =>
    ((t.tasks.get 0).isNone, (t.rib.report key).map Record.status,
      ((run (Rib.step true) start.rib (events ms)).report key).map Record.status)

/-- A removed route is active again, and so is a withdrawn one. -/
theorem reevaluation_changes_routes :
    outcome removal = some (true, some .active, none) ∧
      outcome withdrawal = some (true, some .active, some .withdrawn) := by
  constructor <;> decide +kernel

end Race

/-- The routes stay those of the events when the withdrawal comes after the walk has written. -/
theorem routes_unchanged_undisturbed :
    ∃ t, exec (step Race.hop true) Race.start Race.undisturbed = some t ∧
      t.rib.SameRoutes (run (Rib.step true) Race.start.rib (events Race.undisturbed)) := by
  have hend : (exec (step Race.hop true) Race.start Race.undisturbed).isSome = true := by
    decide +kernel
  obtain ⟨t, ht⟩ := isSome_iff_exists.mp hend
  have htimely : Along (step Race.hop true) (Timely Race.hop) Race.start Race.undisturbed :=
    along_of_test _ (g := fun s m => decide (s.Timely Race.hop m))
      (fun _ _ => of_decide_eq_true) (by decide +kernel)
  exact ⟨t, ht, (routes_unchanged_iff Race.hop true Race.start Race.undisturbed).mpr htimely
    Race.undisturbed t (List.prefix_refl _) ht⟩

end Reevaluation

end Rotonda
