import Rotonda.RibUnit.Reevaluation

/-!
How long the validation state of a stored route stays the one of the current VRPs, when updates
are handled one after the other.

A Delta element re-evaluates the routes that its prefix covers, but only those a read shows: the
routes of an ingress whose session ended keep their old state behind the withdrawn flag.

* `checkRov_congr`: a verdict depends on the VRPs for covering prefixes alone;
* `Validation.ExposesStale`: a step that clears the flag over an active route with an old state;
* `fresh_throughout_iff`: after a full walk, the routes reported as active have the state of the
  current VRPs at every point of a run exactly when no step of the run exposes a stale one.
-/

namespace Rotonda

open PrefixStore LawfulPrefixStore QueryStore Lib Lib.Runs List

variable {p : Prefix} {r : Record RotondaPaMap}

/-! ## Verdicts -/

namespace RtrCache

variable {V : Type} [PrefixStore V MaxLenList]

private theorem StateOf.unique {covered matched : Prop} {rov rov' : RovStatus}
    (h : StateOf covered matched rov) (h' : StateOf covered matched rov') : rov = rov' := by
  obtain ⟨hv, hi, hn⟩ := h
  obtain ⟨hv', hi', hn'⟩ := h'
  by_cases hc : covered
  · by_cases hm : matched
    · rw [hv.mpr hm, hv'.mpr hm]
    · rw [hi.mpr ⟨hc, hm⟩, hi'.mpr ⟨hc, hm⟩]
  · rw [hn.mpr hc, hn'.mpr hc]

variable [QueryStore V MaxLenList] [LawfulQueryStore V]

theorem checkRov_congr {vrps vrps' : V}
    (h : ∀ q, q.Covers p → ∀ r, Shows vrps q r ↔ Shows vrps' q r) (origin : Asn) :
    checkRov vrps p origin = checkRov vrps' p origin := by
  have hstored : ∀ q asn n, q.Covers p → (Stored vrps q asn n ↔ Stored vrps' q asn n) := by
    intro q asn n hq
    exact exists_congr fun r => and_congr_left' (h q hq r)
  have hcovered : Covered vrps p ↔ Covered vrps' p :=
    exists_congr fun q => exists_congr fun asn => exists_congr fun n =>
      and_congr_left fun hq => hstored q asn n hq
  have hauth : Authorised vrps p origin ↔ Authorised vrps' p origin :=
    exists_congr fun q => exists_congr fun n =>
      and_congr_left fun hq => hstored q _ n hq.1
  obtain ⟨rov, hrov, hstate⟩ := checkRov_state vrps p origin
  obtain ⟨rov', hrov', hstate'⟩ := checkRov_state vrps' p origin
  rw [← propext hcovered, ← propext hauth] at hstate'
  rw [hrov, hrov', hstate.unique hstate']

/-- Writing the list of a prefix leaves the verdicts on routes that the prefix does not cover. -/
theorem checkRov_insertList [LawfulPrefixStore V] {vrps : V} {q : Prefix} (h : ¬ q.Covers p)
    (asn : Asn) (list : MaxLenList) (origin : Asn) :
    checkRov (insertList vrps q asn list) p origin = checkRov vrps p origin := by
  refine checkRov_congr (fun q' hq' r => ?_) origin
  have hne : q' ≠ q := by
    rintro rfl
    exact h hq'
  have hreport : report (insertList vrps q asn list) q' r.multiUniqId =
      report vrps q' r.multiUniqId := by
    simp only [report, insertList, localRecord_insert, flag_insert, hne, false_and, if_false]
  rw [Shows, Shows, hreport]

/-- The record has the state that the VRPs give its prefix and origin, unless it was never
checked.  A path without an origin has no such state. -/
def Fresh (hop : HopOrigin) (vrps : V) (p : Prefix) (r : Record RotondaPaMap) : Prop :=
  ∀ origin, r.metaData.origin hop = some origin →
    r.metaData.rpki = RovStatus.notChecked.toByte ∨
      ∃ rov, checkRov vrps p origin = some rov ∧ r.metaData.rpki = rov.toByte

omit [LawfulQueryStore V] in
theorem fresh_of_reevaluate {hop : HopOrigin} {vrps : V} {r' : Record RotondaPaMap}
    (h : reevaluate hop vrps p r = some r') : Fresh hop vrps p r' := by
  intro origin horigin
  unfold reevaluate at h
  split at h
  · cases h
  next o ho =>
    obtain ⟨rov, hrov, rfl⟩ := Option.map_eq_some_iff.mp h
    cases ho.symm.trans horigin
    exact .inr ⟨rov, hrov, rfl⟩

/-- Only a record without an origin is not written back. -/
theorem origin_of_reevaluate {hop : HopOrigin} {vrps : V}
    (h : reevaluate hop vrps p r = none) : r.metaData.origin hop = none := by
  unfold reevaluate at h
  split at h
  next ho => exact ho
  next o ho =>
    obtain ⟨rov, hrov, _⟩ := checkRov_state vrps p o
    rw [hrov] at h
    cases h

end RtrCache

/-! ## Re-evaluation in one go -/

namespace Rib

variable {S V : Type} [PrefixStore S RotondaPaMap] [PrefixStore V MaxLenList] [QueryStore V MaxLenList]

/-- Write records back one after the other. -/
def rewriteAll (hop : HopOrigin) (vrps : V) (entries : List (Prefix × Record RotondaPaMap))
    (rib : Rib S) : Rib S :=
  entries.foldl (fun rib e =>
    (RtrCache.reevaluate hop vrps e.1 e.2).elim rib (rib.reinsert e.1)) rib

/-- The walk over the unicast store after a Full update. -/
def walk (hop : HopOrigin) (vrps : V) (rib : Rib S) : Rib S :=
  rib.rewriteAll hop vrps
    ((prefixesIter rib.unicast).flatMap fun pr => pr.metaData.map (pr.pfx, ·))

def matchPrefix [QueryStore S RotondaPaMap] (rib : Rib S) (pfx : Prefix) (opts : QueryOptions) :
    Except PrefixStoreError (QueryResult RotondaPaMap) :=
  match query rib.unicast pfx opts with
  | .error e => .error e
  | .ok unicastRes =>
    if unicastRes.isEmpty then
      match query rib.multicast pfx opts with
      | .error e => .error e
      | .ok multicastRes => if !multicastRes.isEmpty then .ok multicastRes else .ok unicastRes
    else .ok unicastRes

/-- What a Delta element does to the routes. -/
def rewriteFor [QueryStore S RotondaPaMap] {O : Type} [RtrOrigin O] (hop : HopOrigin) (vrps : V)
    (payload : RtrPayload O) (rib : Rib S) : Rib S :=
  match payload with
  | .origin o =>
    match rib.matchPrefix (RtrOrigin.pfx o) .reevaluation with
    | .error _ => rib
    | .ok res => rib.rewriteAll hop vrps (res.entries (RtrOrigin.pfx o))
  | _ => rib

variable [LawfulPrefixStore S]

section

variable (hop : HopOrigin) (vrps : V) (entries : List (Prefix × Record RotondaPaMap)) (rib : Rib S)
include hop

theorem flag_rewriteAll (mc : Bool) (f : Family)
    (m : Mui) : (rib.rewriteAll hop vrps entries).flag mc f m = rib.flag mc f m := by
  induction entries generalizing rib with
  | nil => rfl
  | cons e entries ih =>
    refine (ih _).trans ?_
    dsimp only
    cases RtrCache.reevaluate hop vrps e.1 e.2 with
    | none => rfl
    | some r => exact flag_reinsert ..

/-- A record is left alone, and then no entry for it was written back, or it is what was written
back for some entry. -/
theorem localRecord_rewriteAll (k : RouteKey) :
    ((rib.rewriteAll hop vrps entries).localRecord k = rib.localRecord k ∧
        ∀ e ∈ entries, k = ⟨false, e.1, e.2.multiUniqId⟩ →
          RtrCache.reevaluate hop vrps e.1 e.2 = none) ∨
      ∃ e ∈ entries, ∃ r, RtrCache.reevaluate hop vrps e.1 e.2 = some r ∧ k.pfx = e.1 ∧
        (rib.rewriteAll hop vrps entries).localRecord k = some r := by
  induction entries generalizing rib with
  | nil => exact .inl ⟨rfl, nofun⟩
  | cons e entries ih =>
    rcases ih ((RtrCache.reevaluate hop vrps e.1 e.2).elim rib (rib.reinsert e.1)) with
      ⟨hrec, hnone⟩ | ⟨e', he', r, hr, hk, hrec⟩
    · cases hr : RtrCache.reevaluate hop vrps e.1 e.2 with
      | none =>
        rw [hr] at hrec
        refine .inl ⟨?_, fun e' he' hk => ?_⟩
        · rw [rewriteAll, foldl_cons, hr]
          exact hrec
        · rcases mem_cons.mp he' with rfl | he'
          · exact hr
          · exact hnone e' he' hk
      | some r =>
        -- written here and not again later: the record is this one, or not concerned
        rw [hr] at hrec
        have hafter : (rib.rewriteAll hop vrps (e :: entries)).localRecord k =
            (rib.reinsert e.1 r).localRecord k := by
          rw [rewriteAll, foldl_cons, hr]
          exact hrec
        have hmui : r.multiUniqId = e.2.multiUniqId := RtrCache.multiUniqId_reevaluate hr
        rw [localRecord_reinsert, hmui] at hafter
        by_cases hk : k = ⟨false, e.1, e.2.multiUniqId⟩
        · rw [if_pos hk] at hafter
          exact .inr ⟨e, mem_cons_self, r, hr, congrArg RouteKey.pfx hk, hafter⟩
        · rw [if_neg hk] at hafter
          refine .inl ⟨hafter, fun e' he' hk' => ?_⟩
          rcases mem_cons.mp he' with rfl | he'
          · exact absurd hk' hk
          · exact hnone e' he' hk'
    · refine .inr ⟨e', mem_cons_of_mem _ he', r, hr, hk, ?_⟩
      rw [rewriteAll, foldl_cons]
      exact hrec

end

section Query

variable [QueryStore S RotondaPaMap] {O : Type} [RtrOrigin O]

theorem flag_rewriteFor (hop : HopOrigin) (vrps : V) (payload : RtrPayload O) (rib : Rib S)
    (mc : Bool) (f : Family) (m : Mui) :
    (rib.rewriteFor hop vrps payload).flag mc f m = rib.flag mc f m := by
  unfold rewriteFor
  split
  · split
    · rfl
    · exact flag_rewriteAll ..
  · rfl

variable [LawfulQueryStore S]

omit [LawfulPrefixStore S] in
/-- A record that a read of the unicast store shows, under a prefix that the queried one covers, is
among the entries of the query. -/
theorem mem_entries {rib : Rib S} {q : Prefix} (hq : q.Covers p) (hshows : Shows rib.unicast p r) :
    ∃ res, rib.matchPrefix q .reevaluation = .ok res ∧ (p, r) ∈ res.entries q := by
  obtain ⟨res, hres, hexact, hmore⟩ := LawfulQueryStore.exact rib.unicast q
  have hmem : (p, r) ∈ res.entries q := by
    rw [QueryResult.entries, mem_append]
    by_cases hpq : p = q
    · subst hpq
      exact .inl (mem_map.mpr ⟨r, (hexact r).mpr hshows, rfl⟩)
    · obtain ⟨pr, hpr, rfl, hr⟩ := (hmore p r).mpr ⟨⟨hq, hpq⟩, hshows⟩
      exact .inr (mem_flatMap.mpr ⟨pr, hpr, mem_map.mpr ⟨r, hr, rfl⟩⟩)
  refine ⟨res, ?_, hmem⟩
  -- the answer is not empty, so the multicast store is not asked
  have hne : res.isEmpty = false := by
    by_contra hempty
    rw [Bool.not_eq_false, QueryResult.isEmpty, Bool.and_eq_true, Bool.and_eq_true,
      List.isEmpty_iff, Option.isNone_iff_eq_none, Option.isNone_iff_eq_none] at hempty
    simp [QueryResult.entries, hempty.1.1, hempty.2] at hmem
  rw [matchPrefix, QueryOptions.reevaluation, hres]
  simp [hne]

/-- After an element for an origin, an active unicast record is fresh, or it is as before and the
prefix of the element does not cover it. -/
theorem fresh_rewriteFor [LawfulQueryStore V] {hop : HopOrigin} {vrps : V} {o : O} {rib : Rib S}
    {m : Mui} (hreport : (rib.rewriteFor hop vrps (.origin o)).report ⟨false, p, m⟩ = some r)
    (hactive : r.status = .active) :
    RtrCache.Fresh hop vrps p r ∨
      ¬ (RtrOrigin.pfx o).Covers p ∧ rib.report ⟨false, p, m⟩ = some r := by
  obtain ⟨hunmasked, hlocal⟩ := (report_active_iff hactive).mp hreport
  have hmask : rib.masked ⟨false, p, m⟩ = false :=
    (flag_rewriteFor hop vrps (.origin o) rib _ _ _).symm.trans hunmasked
  -- a record that is left alone although the prefix covers it has no origin
  have hleft : rib.localRecord ⟨false, p, m⟩ = some r →
      (∀ res, rib.matchPrefix (RtrOrigin.pfx o) .reevaluation = .ok res →
        (p, r) ∈ res.entries (RtrOrigin.pfx o) → r.metaData.origin hop = none) →
      RtrCache.Fresh hop vrps p r ∨
        ¬ (RtrOrigin.pfx o).Covers p ∧ rib.report ⟨false, p, m⟩ = some r := by
    intro hbefore hnone
    have hshown := (report_active_iff hactive).mpr ⟨hmask, hbefore⟩
    by_cases hcov : (RtrOrigin.pfx o).Covers p
    · have hmui : r.multiUniqId = m := multiUniqId_eq hbefore
      have hshows : Shows rib.unicast p r := by
        refine ⟨?_, by rw [hactive]; nofun⟩
        rw [hmui]
        exact hshown
      obtain ⟨res, hres, hmem⟩ := mem_entries hcov hshows
      left
      intro origin horigin
      rw [hnone res hres hmem] at horigin
      cases horigin
    · exact .inr ⟨hcov, hshown⟩
  rw [rewriteFor] at hlocal
  split at hlocal
  next e he =>
    refine hleft hlocal fun res hres _ => ?_
    cases he.symm.trans hres
  next res hres =>
    rcases localRecord_rewriteAll hop vrps (res.entries (RtrOrigin.pfx o)) rib ⟨false, p, m⟩ with
      ⟨hsame, hnone⟩ | ⟨e, _, r', hr', rfl, hrec⟩
    · rw [hsame] at hlocal
      have hmui : r.multiUniqId = m := multiUniqId_eq hlocal
      refine hleft hlocal fun res' hres' hmem => ?_
      cases hres.symm.trans hres'
      exact RtrCache.origin_of_reevaluate (hnone _ hmem (by rw [hmui]))
    · cases hrec.symm.trans hlocal
      exact .inl (RtrCache.fresh_of_reevaluate hr')

end Query

end Rib

/-! ## Runs -/

/-- What the roto method `check_rov` sets on a route; it leaves a multicast route alone. -/
def RotondaRoute.checkRov {V : Type} [PrefixStore V MaxLenList] [QueryStore V MaxLenList]
    (hop : HopOrigin) (vrps : V) (rr : RotondaRoute) : Option RovStatus :=
  if rr.multicast then none
  else match rr.rotondaPamap.origin hop with
    | none => some .notChecked
    | some origin => some ((RtrCache.checkRov vrps rr.pfx origin).getD .notChecked)

/-- The route data of the RIB unit and the VRPs it validates against. -/
structure Validation (S V O : Type) where
  rib : Rib S
  cache : RtrCache V O

namespace Validation

inductive Event (O : Type) where
  | route (e : RibEvent)
  /-- One element of a Delta update. -/
  | verb (verb : RtrAction × RtrPayload O)

variable {S V O : Type} [PrefixStore S RotondaPaMap] [QueryStore S RotondaPaMap]
  [PrefixStore V MaxLenList] [QueryStore V MaxLenList] [RtrOrigin O] [DecidableEq O]

/-- A filter that accepts every route, after the method has set its state. -/
def filter (hop : HopOrigin) (vrps : V) : RotoFunction :=
  fun p => .accept (p.rxValue.checkRov hop vrps)

def step (hop : HopOrigin) (retain : Bool) (s : Validation S V O) : Event O → Validation S V O
  | .route (.payload p) =>
    { s with rib := (s.rib.processUpdate ⟨retain, some (filter hop s.cache.vrps)⟩ (.single p)).1 }
  | .route e => { s with rib := s.rib.step retain e }
  | .verb verb =>
    match s.cache.deltaVerb verb with
    | none => s
    | some cache => ⟨s.rib.rewriteFor hop cache.vrps verb.2, cache⟩

/-- Every unicast record that the RIB reports as active is fresh. -/
def Fresh (hop : HopOrigin) (s : Validation S V O) : Prop :=
  ∀ p m r, s.rib.report ⟨false, p, m⟩ = some r → r.status = .active →
    RtrCache.Fresh hop s.cache.vrps p r

/-- The step clears a withdrawn flag over a unicast record that was stored as active, that the
event says nothing about, and whose state is not that of the VRPs. -/
def ExposesStale (hop : HopOrigin) (s : Validation S V O) : Event O → Prop
  | .route e => ∃ p m r, s.rib.Clears m e ∧ e.verdict ⟨false, p, m⟩ = none ∧
      s.rib.masked ⟨false, p, m⟩ = true ∧ s.rib.localRecord ⟨false, p, m⟩ = some r ∧
      r.status = .active ∧ ¬ RtrCache.Fresh hop s.cache.vrps p r
  | .verb _ => False

/-- The payload as the filter leaves it. -/
def checkedPayload (hop : HopOrigin) (vrps : V) (p : Payload) : Payload :=
  match p.rxValue.checkRov hop vrps with
  | none => p
  | some rov => { p with rxValue := p.rxValue.setRpkiInfo rov }

def checked (hop : HopOrigin) (vrps : V) : RibEvent → RibEvent
  | .payload p => .payload (checkedPayload hop vrps p)
  | e => e

theorem step_route (hop : HopOrigin) (retain : Bool) (s : Validation S V O) (e : RibEvent) :
    step hop retain s (.route e) =
      { s with rib := s.rib.step retain (checked hop s.cache.vrps e) } := by
  cases e with
  | payload p =>
    have haccepted : RibConfig.accepted ⟨retain, some (filter hop s.cache.vrps)⟩ p =
        some (checkedPayload hop s.cache.vrps p) := by
      simp only [RibConfig.accepted, filter, checkedPayload]
      cases p.rxValue.checkRov hop s.cache.vrps <;> rfl
    have hrib := Rib.filterPayload_rib ⟨retain, some (filter hop s.cache.vrps)⟩ s.rib [p]
    simp only [filterMap_cons, haccepted, filterMap_nil, foldl_cons, foldl_nil] at hrib
    have hstep : (s.rib.processUpdate ⟨retain, some (filter hop s.cache.vrps)⟩ (.single p)).1 =
        s.rib.step retain (checked hop s.cache.vrps (.payload p)) := by
      refine hrib.trans ?_
      rw [checked, Rib.step_payload, ← Rib.insert_eq]
      rfl
    rw [step, hstep]
  | _ => rfl

section Checked

omit [QueryStore S RotondaPaMap] [RtrOrigin O] [DecidableEq O]

section

variable (hop : HopOrigin) (vrps : V)
include hop

theorem checkedPayload_eq (p : Payload) :
    (checkedPayload hop vrps p).key = p.key ∧
      (checkedPayload hop vrps p).routeStatus = p.routeStatus ∧
      (checkedPayload hop vrps p).rxValue.multicast = p.rxValue.multicast ∧
      (checkedPayload hop vrps p).ingressId = p.ingressId := by
  unfold checkedPayload
  split <;> simp [Payload.key]

theorem verdict_checked (e : RibEvent) (k : RouteKey) :
    (checked hop vrps e).verdict k = e.verdict k := by
  cases e with
  | payload p =>
    obtain ⟨hkey, hstatus, _⟩ := checkedPayload_eq hop vrps p
    simp only [checked, RibEvent.verdict, hkey, hstatus]
  | _ => rfl

theorem clears_checked (rib : Rib S) (m : Mui)
    (e : RibEvent) : rib.Clears m (checked hop vrps e) ↔ rib.Clears m e := by
  cases e with
  | payload p =>
    obtain ⟨_, hstatus, hmc, hid⟩ := checkedPayload_eq hop vrps p
    simp only [checked, Rib.Clears, hstatus, hmc, hid]
  | _ => rfl

/-- The method leaves a unicast route fresh. -/
theorem fresh_checkedPayload [LawfulQueryStore V] {p : Payload} (hmc : p.rxValue.multicast = false)
    (r : Record RotondaPaMap) (hr : r.metaData = (checkedPayload hop vrps p).rxValue.rotondaPamap) :
    RtrCache.Fresh hop vrps p.rxValue.pfx r := by
  intro origin horigin
  obtain ⟨rov, hrov, _⟩ := RtrCache.checkRov_state vrps p.rxValue.pfx origin
  have hpamap : ∀ (rr : RotondaRoute) (rov : RovStatus),
      (rr.setRpkiInfo rov).rotondaPamap = rr.rotondaPamap.setRpkiInfo rov := by
    rintro (_ | _ | _ | _) rov <;> rfl
  -- the method keeps the path, so it sees the origin that the stored record has
  have hpath : p.rxValue.rotondaPamap.origin hop = some origin := by
    rw [hr, checkedPayload] at horigin
    split at horigin
    · exact horigin
    · rwa [hpamap, RotondaPaMap.origin_setRpkiInfo] at horigin
  have hset : p.rxValue.checkRov hop vrps = some rov := by
    simp [RotondaRoute.checkRov, hmc, hpath, hrov]
  refine .inr ⟨rov, hrov, ?_⟩
  rw [hr, checkedPayload, hset]
  simp only [hpamap]
  rfl

end

end Checked

/-! ## One step -/

section Step

variable [LawfulPrefixStore S] [LawfulPrefixStore V] [LawfulQueryStore S] [LawfulQueryStore V]
  {hop : HopOrigin} {retain : Bool} {s : Validation S V O}
variable {e : RibEvent}

omit [PrefixStore V MaxLenList] [QueryStore V MaxLenList] [RtrOrigin O] [DecidableEq O] in
theorem verdict_true {k : RouteKey} (h : e.verdict k = some true) :
    ∃ p, e = .payload p ∧ p.key = k ∧ p.routeStatus = .active := by
  cases e with
  | payload p =>
    simp only [RibEvent.verdict] at h
    split at h
    next hk => exact ⟨p, rfl, hk, by simpa using h⟩
    · cases h
  | _ => simp [RibEvent.verdict] at h

omit [LawfulPrefixStore V] [LawfulQueryStore S] [LawfulQueryStore V] in
/-- A step that clears the flag over a stale record reports it. -/
theorem not_fresh_route (h : s.ExposesStale hop (.route e)) :
    ¬ Fresh hop (step hop retain s (.route e)) := by
  obtain ⟨p, m, r, hclears, hverdict, hmasked, hrec, hactive, hstale⟩ := h
  have hverdict' := (verdict_checked hop s.cache.vrps e _).trans hverdict
  have hreports : (s.rib.step retain (checked hop s.cache.vrps e)).ReportsActive
      ⟨false, p, m⟩ := by
    rw [Rib.reportsActive_step, hverdict']
    exact .inl ⟨(clears_checked ..).mpr hclears, hmasked, r, hrec, hactive⟩
  have hlocal : (s.rib.step retain (checked hop s.cache.vrps e)).localRecord ⟨false, p, m⟩ =
      some r := (Rib.localRecord_step_of_verdict hverdict').trans hrec
  have hunmasked := ((Rib.reportsActive_iff ..).mp hreports).1
  rw [step_route]
  intro hfresh
  exact hstale (hfresh p m r ((Rib.report_active_iff hactive).mpr ⟨hunmasked, hlocal⟩) hactive)

omit [LawfulPrefixStore V] [LawfulQueryStore S] in
/-- Any other step of the routes reports what was reported before, or what the filter checked. -/
theorem fresh_route (hs : Fresh hop s)
    (h : ¬ s.ExposesStale hop (.route e)) : Fresh hop (step hop retain s (.route e)) := by
  rw [step_route]
  intro p m r hreport hactive
  have hreports : (s.rib.step retain (checked hop s.cache.vrps e)).ReportsActive
      ⟨false, p, m⟩ := ⟨r, hreport, hactive⟩
  have hlocal := ((Rib.report_active_iff hactive).mp hreport).2
  rw [Rib.reportsActive_step, verdict_checked] at hreports
  cases hverdict : e.verdict ⟨false, p, m⟩ with
  | some up =>
    rw [hverdict] at hreports
    subst hreports
    obtain ⟨pl, rfl, hkey, hup⟩ := verdict_true hverdict
    obtain ⟨hk, hst, _⟩ := checkedPayload_eq hop s.cache.vrps pl
    have hne : (checkedPayload hop s.cache.vrps pl).routeStatus ≠ .withdrawn := by
      rw [hst, hup]
      nofun
    have hself := Rib.localRecord_payload_self retain s.rib hne
    rw [hk, hkey] at hself
    cases hself.symm.trans hlocal
    have hmc : pl.rxValue.multicast = false := congrArg RouteKey.multicast hkey
    have hpfx : pl.rxValue.pfx = p := congrArg RouteKey.pfx hkey
    rw [← hpfx]
    exact fresh_checkedPayload hop s.cache.vrps hmc _ rfl
  | none =>
    rw [hverdict] at hreports
    rw [Rib.localRecord_step_of_verdict ((verdict_checked ..).trans hverdict)] at hlocal
    rcases hreports with ⟨hclears, hmasked, _⟩ | hbefore
    · by_contra hstale
      exact h ⟨p, m, r, (clears_checked ..).mp hclears, hverdict, hmasked, hlocal, hactive,
        hstale⟩
    · have hunmasked := ((Rib.reportsActive_iff ..).mp hbefore).1
      exact hs p m r ((Rib.report_active_iff hactive).mpr ⟨hunmasked, hlocal⟩) hactive

omit [QueryStore V MaxLenList] [LawfulPrefixStore V] [LawfulQueryStore V] in
/-- The VRPs after an element: one list is written for an origin, nothing otherwise. -/
theorem vrps_deltaVerb {cache cache' : RtrCache V O} {verb : RtrAction × RtrPayload O}
    (h : cache.deltaVerb verb = some cache') :
    match verb.2 with
    | .origin o => ∃ list, cache'.vrps =
        RtrCache.insertList cache.vrps (RtrOrigin.pfx o) (RtrOrigin.asn o) list
    | _ => cache'.vrps = cache.vrps := by
  obtain ⟨action, payload⟩ := verb
  cases payload with
  | origin o =>
    simp only [RtrCache.deltaVerb] at h
    split at h <;> cases h
    exact ⟨_, rfl⟩
  | routerKey _ | aspa _ => cases action <;> cases h <;> rfl

theorem fresh_verb (hs : Fresh hop s) (verb : RtrAction × RtrPayload O) :
    Fresh hop (step hop retain s (.verb verb)) := by
  simp only [step]
  split
  · exact hs
  next cache hcache =>
    intro p m r hreport hactive
    have hvrps := vrps_deltaVerb hcache
    obtain ⟨action, payload⟩ := verb
    cases payload with
    | origin o =>
      obtain ⟨list, hlist⟩ := hvrps
      rcases Rib.fresh_rewriteFor hreport hactive with hfresh | ⟨hcov, hbefore⟩
      · exact hfresh
      · intro origin horigin
        rw [hlist, RtrCache.checkRov_insertList hcov]
        exact hs p m r hbefore hactive origin horigin
    | routerKey | aspa =>
      rw [hvrps]
      exact hs p m r hreport hactive

end Step

omit [QueryStore S RotondaPaMap] [RtrOrigin O] [DecidableEq O] in
/-- A full walk leaves every record with an origin fresh, also behind a flag. -/
theorem fresh_walk [LawfulPrefixStore S] [LawfulWalk S] [LawfulQueryStore V] (hop : HopOrigin)
    (rib : Rib S) (cache : RtrCache V O) : Fresh hop ⟨rib.walk hop cache.vrps, cache⟩ := by
  intro p m r hreport hactive
  have hlocal := ((Rib.report_active_iff hactive).mp hreport).2
  rcases Rib.localRecord_rewriteAll hop cache.vrps
    ((prefixesIter rib.unicast).flatMap fun pr => pr.metaData.map (pr.pfx, ·)) rib ⟨false, p, m⟩ with
    ⟨hsame, hnone⟩ | ⟨e, _, r', hr', rfl, hrec⟩
  · rw [Rib.walk, hsame] at hlocal
    have hsome : (PrefixStore.localRecord rib.unicast p m).isSome := by
      change (rib.localRecord ⟨false, p, m⟩).isSome = true
      rw [hlocal]
      rfl
    obtain ⟨pr, hpr, rfl, r', hr', rfl⟩ := (mem_prefixesIter rib.unicast p m).mpr hsome
    obtain ⟨r'', hr'', hmeta⟩ := LawfulWalk.metaData_prefixesIter hpr hr'
    cases hlocal.symm.trans hr''
    have horigin := RtrCache.origin_of_reevaluate (hnone (pr.pfx, r')
      (mem_flatMap.mpr ⟨pr, hpr, mem_map.mpr ⟨r', hr', rfl⟩⟩) rfl)
    intro origin ho
    rw [hmeta, horigin] at ho
    cases ho
  · cases hrec.symm.trans hlocal
    exact RtrCache.fresh_of_reevaluate hr'

/-- After a full walk, every unicast record reported as active has the state of the current VRPs at
every point of a run exactly when no step clears a withdrawn flag over an active record with
another state. -/
theorem fresh_throughout_iff [LawfulPrefixStore S] [LawfulWalk S] [LawfulQueryStore S]
    [LawfulPrefixStore V] [LawfulQueryStore V] (hop : HopOrigin) (retain : Bool) (rib : Rib S)
    (cache : RtrCache V O) (es : List (Event O)) :
    (∀ pre, pre <+: es →
        Fresh hop (run (step hop retain) ⟨rib.walk hop cache.vrps, cache⟩ pre)) ↔
      ∀ pre e, pre ++ [e] <+: es →
        ¬ (run (step hop retain) ⟨rib.walk hop cache.vrps, cache⟩ pre).ExposesStale hop e := by
  refine throughout_iff (step hop retain) (fun _ => Fresh hop)
    (fun s e => ¬ s.ExposesStale hop e) _ es (fresh_walk hop rib cache) ?_ ?_
  · intro pre e _ hs hexp
    cases e with
    | route e => exact fresh_route hs hexp
    | verb verb => exact fresh_verb hs verb
  · intro pre e _ hs hexp
    cases e with
    | route e => exact not_fresh_route (not_not.mp hexp)
    | verb verb => exact absurd id hexp

/-! ## A session that comes back -/

namespace Flap

open Reevaluation.Race (hop unicast)

def start : Validation (MapStore RotondaPaMap) (MapStore MaxLenList) RouteOrigin :=
  ⟨(Rib.new ⟨1, Dict.empty⟩).walk hop (tryDefault : MapStore MaxLenList), .default⟩

/-- 10.0.0.0/8 with origin AS 5 is announced and its session ends; a VRP for AS 7 comes in; the
session comes back. -/
def events : List (Event RouteOrigin) :=
  [.route unicast, .route (.withdraw 1 none),
    .verb (.announce, .origin (.slash8 10 7)), .route (.ingressReappeared 1)]

/-- The same VRP while the session is up. -/
def steady : List (Event RouteOrigin) :=
  [.route unicast, .verb (.announce, .origin (.slash8 10 7))]

def reported (s : Validation (MapStore RotondaPaMap) (MapStore MaxLenList) RouteOrigin) :
    Option (RouteStatus × UInt8 × Option Asn) :=
  (s.rib.report ⟨false, .slash8 10, 1⟩).map fun r =>
    (r.status, r.metaData.rpki, r.metaData.origin hop)

/-- The route is active again as not found, while the VRPs make it invalid. -/
theorem reappeared_stale :
    reported (run (step hop true) start events) =
        some (.active, RovStatus.notFound.toByte, some 5) ∧
      RtrCache.checkRov (run (step hop true) start events).cache.vrps (.slash8 10) 5 =
        some .invalid ∧
      ¬ Fresh hop (run (step hop true) start events) := by
  have hreported : reported (run (step hop true) start events) =
      some (.active, RovStatus.notFound.toByte, some 5) := by decide +kernel
  have hrov : RtrCache.checkRov (run (step hop true) start events).cache.vrps (.slash8 10) 5 =
      some .invalid := by decide +kernel
  refine ⟨hreported, hrov, fun hfresh => ?_⟩
  obtain ⟨r, hr, hlook⟩ := Option.map_eq_some_iff.mp hreported
  obtain ⟨hstatus, hrest⟩ := Prod.mk.inj hlook
  obtain ⟨hrpki, horigin⟩ := Prod.mk.inj hrest
  rcases hfresh _ _ r hr hstatus 5 horigin with hnot | ⟨rov, hrov', hrpki'⟩
  · rw [hrpki] at hnot
    cases hnot
  · cases hrov.symm.trans hrov'
    rw [hrpki] at hrpki'
    cases hrpki'

end Flap

open Reevaluation.Race (hop) in
/-- With the session up, the element re-evaluates the route. -/
theorem fresh_session_up : Fresh hop (run (step hop true) Flap.start Flap.steady) := by
  refine (fresh_throughout_iff hop true (Rib.new ⟨1, Dict.empty⟩) .default Flap.steady).mpr ?_
    Flap.steady (prefix_refl _)
  let G := fun (s : Validation (MapStore RotondaPaMap) (MapStore MaxLenList) RouteOrigin) e =>
    ¬ s.ExposesStale hop e
  have hroute : G Flap.start (.route Reevaluation.Race.unicast) := by
    rintro ⟨p, m, r, ⟨_, hreact⟩, _⟩
    have hup : Flap.start.rib.needsReactivation false .active m = false := rfl
    cases hup.symm.trans hreact
  exact (steps_cons (P := G) _).mpr ⟨hroute, (steps_cons (P := G) _).mpr ⟨id, steps_nil _ _⟩⟩

end Validation

end Rotonda
