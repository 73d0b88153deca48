import Rotonda.Lib.Runs
import Rotonda.Payload
import Mathlib.Data.Finset.Basic

/-!
The RPKI data of the RIB unit: the set of route origins and, beside it, the store of validated
route payloads (VRPs) that origin validation reads, as RTR updates change them.

Both hold the same data, and a Full and a Delta update maintain them with separate code.

* `Coupled`: every list has exactly the resolved max-lengths of the origins, each once;
* `Synchronous`: what an update must look like, seen from the state before it, to keep that;
* `coupled_throughout_iff`: the two representations agree after every update of a run exactly
  when every update of the run is synchronous.
-/

namespace Rotonda

open PrefixStore LawfulPrefixStore RtrOrigin Lib.Runs List

abbrev MaxLenList := List Nat

structure RtrCache (V O : Type) where
  routeOrigins : Finset O
  routerKeys : Finset RouterKey
  aspas : Finset Aspa
  vrps : V

/-- The validated payload an origin stands for. -/
def vrp {O : Type} [RtrOrigin O] (o : O) : Prefix × Asn × Nat :=
  (pfx o, asn o, resolvedMaxLen o)

namespace RtrCache

variable {V O : Type} [PrefixStore V MaxLenList] [RtrOrigin O] [DecidableEq O]

def default : RtrCache V O := ⟨∅, ∅, ∅, tryDefault⟩

/-- The exact match of both update paths. -/
def lookup (vrps : V) (pfx : Prefix) (asn : Asn) :
    Except PrefixStoreError (List (Record MaxLenList)) :=
  matchPrefix vrps pfx ⟨false, some asn.toNat⟩

/-- The list under a prefix and AS number; empty when there is no record. -/
def maxLenList (vrps : V) (pfx : Prefix) (asn : Asn) : MaxLenList :=
  match lookup vrps pfx asn with
  | .ok (r :: _) => r.metaData
  | _ => []

def insertList (vrps : V) (pfx : Prefix) (asn : Asn) (list : MaxLenList) : V :=
  (PrefixStore.insert vrps pfx ⟨asn.toNat, 0, .active, list⟩).1

/-- One element of a Full update: the origin goes into the new set, its max-length is pushed to
the list found in the store. -/
def fullVerb (cache : RtrCache V O) (verb : RtrAction × RtrPayload O) : RtrCache V O :=
  match verb with
  | (.withdraw, _) => cache
  | (.announce, .origin o) =>
    { cache with
      routeOrigins := insert o cache.routeOrigins
      vrps := insertList cache.vrps (pfx o) (asn o)
        (maxLenList cache.vrps (pfx o) (asn o) ++ [resolvedMaxLen o]) }
  | (.announce, .routerKey key) => { cache with routerKeys := insert key cache.routerKeys }
  | (.announce, .aspa aspa) => { cache with aspas := insert aspa cache.aspas }

/-- The list after one element of a Delta update. -/
def deltaList (action : RtrAction) (maxlen : Nat) (list : MaxLenList) : MaxLenList :=
  match action with
  | .announce => if maxlen ∈ list then list else list ++ [maxlen]
  | .withdraw => list.erase maxlen

/-- One element of a Delta update; `none` when the store cannot be read. -/
def deltaVerb (cache : RtrCache V O) (verb : RtrAction × RtrPayload O) : Option (RtrCache V O) :=
  match verb with
  | (action, .origin o) =>
    match lookup cache.vrps (pfx o) (asn o) with
    | .error _ => none
    | .ok records =>
      let list := (records.head?.map Record.metaData).getD []
      some { cache with
        routeOrigins := match action with
          | .announce => insert o cache.routeOrigins
          | .withdraw => cache.routeOrigins.erase o
        vrps := insertList cache.vrps (pfx o) (asn o) (deltaList action (resolvedMaxLen o) list) }
  | (.announce, .routerKey key) => some { cache with routerKeys := insert key cache.routerKeys }
  | (.withdraw, .routerKey key) => some { cache with routerKeys := cache.routerKeys.erase key }
  | (.announce, .aspa aspa) => some { cache with aspas := insert aspa cache.aspas }
  | (.withdraw, .aspa aspa) => some { cache with aspas := cache.aspas.erase aspa }

def deltaLoop : RtrCache V O → List (RtrAction × RtrPayload O) → RtrCache V O
  | cache, [] => cache
  | cache, verb :: verbs =>
    match deltaVerb cache verb with
    | none => cache
    | some cache => deltaLoop cache verbs

/-- An RTR update.  A Full update collects new sets and puts them in place of the old ones at the
end; the store of VRPs is written as it goes. -/
def processRtr (cache : RtrCache V O) : RtrUpdate O → RtrCache V O
  | .full verbs => verbs.foldl fullVerb ⟨∅, ∅, ∅, cache.vrps⟩
  | .delta verbs => deltaLoop cache verbs

/-! ## The coupling -/

/-- Every list has exactly the resolved max-lengths of the origins for its prefix and AS number,
each once. -/
def Coupled (cache : RtrCache V O) : Prop :=
  ∀ pfx asn, (maxLenList cache.vrps pfx asn).Nodup ∧
    ∀ n, n ∈ maxLenList cache.vrps pfx asn ↔
      ∃ o ∈ cache.routeOrigins, vrp o = (pfx, asn, n)

/-- The origins a Full update announces. -/
def announced (verbs : List (RtrAction × RtrPayload O)) : List O :=
  verbs.filterMap fun
    | (.announce, .origin o) => some o
    | _ => none

/-- The action of the last element about an origin that `sel` selects. -/
def lastAction (sel : O → Bool) : List (RtrAction × RtrPayload O) → Option RtrAction
  | [] => none
  | (action, .origin o) :: verbs =>
    (lastAction sel verbs).or (if sel o then some action else none)
  | _ :: verbs => lastAction sel verbs

/-- What holds after an action, or still holds without one. -/
def follows (action : Option RtrAction) (before : Prop) : Prop :=
  match action with
  | some .announce => True
  | some .withdraw => False
  | none => before

/-- The origin is announced in the end: by its last element, or because it was there before. -/
def PresentAfter (cache : RtrCache V O) (verbs : List (RtrAction × RtrPayload O))
    (o : O) : Prop :=
  follows (lastAction (fun o' => decide (o' = o)) verbs) (o ∈ cache.routeOrigins)

/-- A Full update meets an empty cache and names no VRP twice; a Delta update whose last word on
a VRP is a withdrawal leaves no other origin for that VRP. -/
def Synchronous (cache : RtrCache V O) : RtrUpdate O → Prop
  | .full verbs => cache.routeOrigins = ∅ ∧ ((announced verbs).map vrp).Nodup
  | .delta verbs => ∀ o : O,
      lastAction (fun o' => decide (vrp o' = vrp o)) verbs = some .withdraw →
        ¬ cache.PresentAfter verbs o

theorem follows_or (a b : Option RtrAction) (P : Prop) :
    follows (a.or b) P ↔ follows a (follows b P) := by
  rcases a with _ | _ | _ <;> rfl

/-! ## The store of VRPs -/

/-- No list is withdrawn, so every lookup finds what was stored last. -/
def AllActive (vrps : V) : Prop :=
  (∀ f m, muiIsWithdrawnFor f vrps m = false) ∧
    ∀ p m r, localRecord vrps p m = some r → r.status = .active

section Store

variable {vrps : V} [LawfulPrefixStore V]

theorem allActive_tryDefault : AllActive (tryDefault : V) := by
  refine ⟨fun f m => flag_tryDefault f m, fun p m r h => ?_⟩
  rw [localRecord_tryDefault] at h
  cases h

section

variable (h : AllActive vrps) (p : Prefix) (a : Asn)
include h

theorem allActive_insertList (l : MaxLenList) : AllActive (insertList vrps p a l) := by
  refine ⟨fun f m => (flag_insert ..).trans (h.1 f m), fun q m r hr => ?_⟩
  rw [insertList, localRecord_insert] at hr
  split at hr
  · cases hr
    rfl
  · exact h.2 q m r hr

theorem lookup_eq :
    lookup vrps p a = .ok (localRecord vrps p a.toNat).toList := by
  rw [lookup, matchPrefix_eq, report]
  cases hr : localRecord vrps p a.toNat with
  | none => rfl
  | some r => simp [h.1, h.2 p _ r hr]

theorem maxLenList_eq :
    maxLenList vrps p a = ((localRecord vrps p a.toNat).map Record.metaData).getD [] := by
  rw [maxLenList, lookup_eq h]
  cases localRecord vrps p a.toNat <;> rfl

theorem maxLenList_insertList (l : MaxLenList) (q : Prefix) (b : Asn) :
    maxLenList (insertList vrps p a l) q b =
      if q = p ∧ b = a then l else maxLenList vrps q b := by
  have hasn : b.toNat = a.toNat ↔ b = a := UInt32.toNat_inj
  rw [maxLenList_eq (allActive_insertList h p a l), maxLenList_eq h, insertList, localRecord_insert]
  simp only [hasn]
  split <;> rfl

end

theorem maxLenList_tryDefault (p : Prefix) (a : Asn) : maxLenList (tryDefault : V) p a = [] := by
  rw [maxLenList_eq allActive_tryDefault, localRecord_tryDefault]
  rfl

end Store

/-! ## Full updates -/

/-- The max-lengths that a Full update pushes for a prefix and AS number. -/
def pushed (os : List O) (p : Prefix) (a : Asn) : MaxLenList :=
  (os.filter fun o => decide (pfx o = p ∧ asn o = a)).map resolvedMaxLen

variable {cache : RtrCache V O} {n : Nat}

section Full

variable [LawfulPrefixStore V]

/-- A Full update appends to every list what it announces for it. -/
theorem foldl_fullVerb (cache : RtrCache V O) (h : AllActive cache.vrps)
    (verbs : List (RtrAction × RtrPayload O)) :
    AllActive (verbs.foldl fullVerb cache).vrps ∧
      (∀ o, o ∈ (verbs.foldl fullVerb cache).routeOrigins ↔
        o ∈ cache.routeOrigins ∨ o ∈ announced verbs) ∧
      ∀ p a, maxLenList (verbs.foldl fullVerb cache).vrps p a =
        maxLenList cache.vrps p a ++ pushed (announced verbs) p a := by
  induction verbs generalizing cache with
  | nil => simp [announced, pushed, h]
  | cons verb verbs ih =>
    match verb with
    | (.withdraw, payload) =>
      exact ih cache h
    | (.announce, .routerKey key) =>
      exact ih { cache with routerKeys := insert key cache.routerKeys } h
    | (.announce, .aspa aspa) =>
      exact ih { cache with aspas := insert aspa cache.aspas } h
    | (.announce, .origin o) =>
      have hann : announced ((.announce, .origin o) :: verbs) = o :: announced verbs := rfl
      obtain ⟨hactive, horigins, hlists⟩ := ih (fullVerb cache (.announce, .origin o))
        (allActive_insertList h _ _ _)
      refine ⟨hactive, fun o' => ?_, fun p a => ?_⟩
      · rw [foldl_cons, horigins o', hann]
        simp only [fullVerb, Finset.mem_insert, mem_cons]
        rw [or_assoc, or_left_comm]
      · rw [foldl_cons, hlists p a, hann]
        simp only [fullVerb, maxLenList_insertList h, pushed, filter_cons]
        by_cases hpa : p = pfx o ∧ a = asn o
        · obtain ⟨rfl, rfl⟩ := hpa
          simp
        · have hpa' : ¬ (pfx o = p ∧ asn o = a) := fun ⟨hp, ha⟩ => hpa ⟨hp.symm, ha.symm⟩
          simp [hpa, hpa']

omit [DecidableEq O] in
theorem mem_pushed {os : List O} {p : Prefix} {a : Asn} :
    n ∈ pushed os p a ↔ ∃ o ∈ os, vrp o = (p, a, n) := by
  simp only [pushed, mem_map, mem_filter, decide_eq_true_eq, vrp, Prod.mk.injEq]
  constructor
  · rintro ⟨o, ⟨ho, hp, ha⟩, hn⟩
    exact ⟨o, ho, hp, ha, hn⟩
  · rintro ⟨o, ho, hp, ha, hn⟩
    exact ⟨o, ⟨ho, hp, ha⟩, hn⟩

omit [DecidableEq O] in
/-- No VRP is named twice exactly when no list gets a max-length twice. -/
theorem nodup_vrps_iff (os : List O) : (os.map vrp).Nodup ↔ ∀ p a, (pushed os p a).Nodup := by
  induction os with
  | nil => simp [pushed]
  | cons o os ih =>
    have hhead : vrp o ∉ os.map vrp ↔
        resolvedMaxLen o ∉ pushed os (pfx o) (asn o) := by
      rw [mem_pushed, mem_map]
      rfl
    have hcons : ∀ p a, pushed (o :: os) p a =
        if pfx o = p ∧ asn o = a then resolvedMaxLen o :: pushed os p a else pushed os p a := by
      intro p a
      by_cases h : pfx o = p ∧ asn o = a <;> simp [pushed, h]
    rw [map_cons, nodup_cons, ih, hhead]
    constructor
    · rintro ⟨hnot, hall⟩ p a
      rw [hcons]
      split
      next h =>
        obtain ⟨rfl, rfl⟩ := h
        exact nodup_cons.mpr ⟨hnot, hall _ _⟩
      · exact hall p a
    · intro hall
      have hself := hall (pfx o) (asn o)
      rw [hcons, if_pos ⟨rfl, rfl⟩, nodup_cons] at hself
      refine ⟨hself.1, fun p a => ?_⟩
      have hpa := hall p a
      rw [hcons] at hpa
      split at hpa
      · exact (nodup_cons.mp hpa).2
      · exact hpa

theorem coupled_full_iff (hactive : AllActive cache.vrps)
    (hc : cache.Coupled) (verbs : List (RtrAction × RtrPayload O)) :
    (cache.processRtr (.full verbs)).Coupled ↔ cache.Synchronous (.full verbs) := by
  obtain ⟨_, horigins, hlists⟩ := foldl_fullVerb ⟨∅, ∅, ∅, cache.vrps⟩ hactive verbs
  have hnew : (cache.processRtr (.full verbs)).Coupled ↔
      ∀ p a, (maxLenList cache.vrps p a ++ pushed (announced verbs) p a).Nodup ∧
        ∀ n, n ∈ maxLenList cache.vrps p a ++ pushed (announced verbs) p a ↔
          n ∈ pushed (announced verbs) p a := by
    simp only [Coupled, processRtr, hlists, horigins, mem_pushed, Finset.notMem_empty, false_or]
  rw [hnew, Synchronous, nodup_vrps_iff]
  constructor
  · intro h
    refine ⟨Finset.eq_empty_of_forall_notMem fun o ho => ?_, fun p a =>
      (nodup_append.mp (h p a).1).2.1⟩
    -- a max-length from before would have to be announced again, and then stands twice
    obtain ⟨hnodup, hmem⟩ := h (pfx o) (asn o)
    have hold := ((hc (pfx o) (asn o)).2 (resolvedMaxLen o)).mpr ⟨o, ho, rfl⟩
    have hagain := (hmem _).mp (mem_append_left _ hold)
    exact (nodup_append.mp hnodup).2.2 _ hold _ hagain rfl
  · rintro ⟨hempty, hnodup⟩ p a
    have hnil : maxLenList cache.vrps p a = [] := by
      rw [eq_nil_iff_forall_not_mem]
      intro n hn
      obtain ⟨o, ho, _⟩ := ((hc p a).2 n).mp hn
      rw [hempty] at ho
      exact absurd ho (Finset.notMem_empty o)
    rw [hnil, nil_append]
    exact ⟨hnodup p a, fun n => Iff.rfl⟩

end Full

/-! ## Delta updates -/

section Delta

variable [LawfulPrefixStore V]

/-- The cache after one origin of a Delta update. -/
private def deltaOrigin (cache : RtrCache V O) (action : RtrAction) (o : O) : RtrCache V O :=
  { cache with
    routeOrigins := match action with
      | .announce => insert o cache.routeOrigins
      | .withdraw => cache.routeOrigins.erase o
    vrps := insertList cache.vrps (pfx o) (asn o)
      (deltaList action (resolvedMaxLen o) (maxLenList cache.vrps (pfx o) (asn o))) }

theorem deltaVerb_origin (h : AllActive cache.vrps) (action : RtrAction) (o : O) :
    deltaVerb cache (action, .origin o) = some (deltaOrigin cache action o) := by
  simp only [deltaVerb, deltaOrigin, maxLenList, lookup_eq h]
  cases localRecord cache.vrps (pfx o) (asn o).toNat <;> rfl

omit [LawfulPrefixStore V] in
theorem mem_deltaOrigin (cache : RtrCache V O) (action : RtrAction) (o o' : O) :
    o' ∈ (deltaOrigin cache action o).routeOrigins ↔
      follows (if o = o' then some action else none) (o' ∈ cache.routeOrigins) := by
  cases action <;> by_cases ho : o = o'
  · simp [deltaOrigin, ho, follows]
  · simp [deltaOrigin, ho, Ne.symm ho, follows]
  · simp [deltaOrigin, ho, follows]
  · simp [deltaOrigin, ho, Ne.symm ho, follows]

variable {action : RtrAction}

theorem deltaList_nodup {l : MaxLenList} (h : l.Nodup) : (deltaList action n l).Nodup := by
  cases action with
  | announce =>
    simp only [deltaList]
    split
    · exact h
    next hn => exact List.Nodup.append h (nodup_singleton n) (by simpa using hn)
  | withdraw => exact h.erase n

theorem mem_deltaList {l : MaxLenList} (h : l.Nodup) (m : Nat) : m ∈ deltaList action n l ↔
      follows (if n = m then some action else none) (m ∈ l) := by
  cases action with
  | announce =>
    simp only [deltaList]
    by_cases hnm : n = m
    · subst hnm
      by_cases hn : n ∈ l <;> simp [hn, follows]
    · by_cases hn : n ∈ l <;> simp [hn, hnm, follows, Ne.symm hnm]
  | withdraw =>
    by_cases hnm : n = m
    · subst hnm
      simp [deltaList, follows, h.not_mem_erase]
    · simp [deltaList, follows, hnm, mem_erase_of_ne (Ne.symm hnm)]

/-- After a Delta update every list and the set of origins show the last action on each. -/
theorem deltaLoop_spec (cache : RtrCache V O) (h : AllActive cache.vrps)
    (hnodup : ∀ p a, (maxLenList cache.vrps p a).Nodup) (verbs : List (RtrAction × RtrPayload O)) :
    AllActive (deltaLoop cache verbs).vrps ∧
      (∀ p a, (maxLenList (deltaLoop cache verbs).vrps p a).Nodup) ∧
      (∀ o, o ∈ (deltaLoop cache verbs).routeOrigins ↔ cache.PresentAfter verbs o) ∧
      ∀ p a n, n ∈ maxLenList (deltaLoop cache verbs).vrps p a ↔
        follows (lastAction (fun o' => decide (vrp o' = (p, a, n))) verbs)
          (n ∈ maxLenList cache.vrps p a) := by
  induction verbs generalizing cache with
  | nil => exact ⟨h, hnodup, fun o => Iff.rfl, fun p a n => Iff.rfl⟩
  | cons verb verbs ih =>
    match verb with
    | (.announce, .routerKey key) =>
      exact ih { cache with routerKeys := insert key cache.routerKeys } h hnodup
    | (.withdraw, .routerKey key) =>
      exact ih { cache with routerKeys := cache.routerKeys.erase key } h hnodup
    | (.announce, .aspa aspa) =>
      exact ih { cache with aspas := insert aspa cache.aspas } h hnodup
    | (.withdraw, .aspa aspa) =>
      exact ih { cache with aspas := cache.aspas.erase aspa } h hnodup
    | (action, .origin o) =>
      rw [deltaLoop, deltaVerb_origin h]
      have hlist : ∀ p a, maxLenList (deltaOrigin cache action o).vrps p a =
          if p = pfx o ∧ a = asn o then
            deltaList action (resolvedMaxLen o) (maxLenList cache.vrps (pfx o) (asn o))
          else maxLenList cache.vrps p a := fun p a => maxLenList_insertList h _ _ _ p a
      have hnodup' : ∀ p a, (maxLenList (deltaOrigin cache action o).vrps p a).Nodup := by
        intro p a
        rw [hlist]
        split
        · exact deltaList_nodup (hnodup _ _)
        · exact hnodup p a
      obtain ⟨hactive, hnd, horigins, hlists⟩ :=
        ih (deltaOrigin cache action o) (allActive_insertList h _ _ _) hnodup'
      refine ⟨hactive, hnd, fun o' => ?_, fun p a n => ?_⟩
      · rw [horigins, PresentAfter, PresentAfter, lastAction, follows_or, mem_deltaOrigin]
        simp only [decide_eq_true_eq]
      · rw [hlists, lastAction, follows_or, hlist]
        simp only [decide_eq_true_eq, vrp, Prod.mk.injEq]
        by_cases hpa : p = pfx o ∧ a = asn o
        · obtain ⟨rfl, rfl⟩ := hpa
          simp [mem_deltaList (hnodup _ _)]
        · have hpa' : ¬ (pfx o = p ∧ asn o = a ∧ resolvedMaxLen o = n) :=
            fun ⟨hp, ha, _⟩ => hpa ⟨hp.symm, ha.symm⟩
          rw [if_neg hpa, if_neg hpa']
          rfl

variable {verbs : List (RtrAction × RtrPayload O)}

omit [RtrOrigin O] [DecidableEq O] in
theorem lastAction_eq_none_of_imp {sel sel' : O → Bool} (h : lastAction sel verbs = none)
    (himp : ∀ o, sel' o = true → sel o = true) : lastAction sel' verbs = none := by
  induction verbs with
  | nil => rfl
  | cons verb verbs ih =>
    match verb with
    | (_, .routerKey _) | (_, .aspa _) => exact ih h
    | (action, .origin o) =>
      rw [lastAction, Option.or_eq_none_iff] at h ⊢
      refine ⟨ih h.1, ?_⟩
      have hsel : ¬ sel o = true := fun hs => by simp [hs] at h
      rw [if_neg (mt (himp o) hsel)]

omit [RtrOrigin O] in
/-- A VRP whose last element announces it has an origin whose last element announces it. -/
theorem exists_of_lastAction_announce {sel : O → Bool} (h : lastAction sel verbs = some .announce) :
    ∃ o, sel o = true ∧ lastAction (fun o' => decide (o' = o)) verbs = some .announce := by
  induction verbs with
  | nil => cases h
  | cons verb verbs ih =>
    match verb with
    | (_, .routerKey _) | (_, .aspa _) => exact ih h
    | (action, .origin o) =>
      rw [lastAction, Option.or_eq_some_iff] at h
      rcases h with h | ⟨hnone, h⟩
      · obtain ⟨o', hsel, ho'⟩ := ih h
        exact ⟨o', hsel, by rw [lastAction, ho', Option.some_or]⟩
      · split at h
        next hsel =>
          cases h
          refine ⟨o, hsel, ?_⟩
          have hlast : lastAction (fun o' => decide (o' = o)) verbs = none :=
            lastAction_eq_none_of_imp hnone fun o' ho' => by
              rw [of_decide_eq_true ho']
              exact hsel
          rw [lastAction, hlast]
          simp
        · cases h

theorem coupled_delta_iff (hactive : AllActive cache.vrps)
    (hc : cache.Coupled) (verbs : List (RtrAction × RtrPayload O)) :
    (cache.processRtr (.delta verbs)).Coupled ↔ cache.Synchronous (.delta verbs) := by
  obtain ⟨_, hnodup, horigins, hlists⟩ :=
    deltaLoop_spec cache hactive (fun p a => (hc p a).1) verbs
  constructor
  · intro h o hlast hpresent
    have hmem := ((h (pfx o) (asn o)).2 (resolvedMaxLen o)).mpr
      ⟨o, (horigins o).mpr hpresent, rfl⟩
    have hfollows := (hlists (pfx o) (asn o) (resolvedMaxLen o)).mp hmem
    have hlast' : lastAction (fun o' => decide (vrp o' = (pfx o, asn o, resolvedMaxLen o)))
        verbs = some .withdraw := hlast
    rw [hlast'] at hfollows
    exact hfollows
  · intro hsync p a
    refine ⟨hnodup p a, fun n => ?_⟩
    refine (hlists p a n).trans ?_
    simp only [processRtr, horigins]
    cases hlast : lastAction (fun o' => decide (vrp o' = (p, a, n))) verbs with
    | none =>
      -- nothing about this VRP: its origins are those from before
      refine ((hc p a).2 n).trans ⟨?_, ?_⟩
      · rintro ⟨o, ho, hv⟩
        refine ⟨o, ?_, hv⟩
        rw [PresentAfter, lastAction_eq_none_of_imp hlast (fun o' ho' => by
          rw [of_decide_eq_true ho', hv]; simp)]
        exact ho
      · rintro ⟨o, ho, hv⟩
        rw [PresentAfter, lastAction_eq_none_of_imp hlast (fun o' ho' => by
          rw [of_decide_eq_true ho', hv]; simp)] at ho
        exact ⟨o, ho, hv⟩
    | some action =>
      cases action with
      | announce =>
        obtain ⟨o, hsel, ho⟩ := exists_of_lastAction_announce hlast
        refine iff_of_true trivial ⟨o, ?_, of_decide_eq_true hsel⟩
        rw [PresentAfter, ho]
        trivial
      | withdraw =>
        refine iff_of_false id ?_
        rintro ⟨o, ho, hv⟩
        exact hsync o (by rw [hv]; exact hlast) ho

end Delta

/-! ## Runs of updates -/

section Runs

variable [LawfulPrefixStore V]

omit [DecidableEq O] in
theorem coupled_default : (default : RtrCache V O).Coupled := by
  intro p a
  have hnil : maxLenList (default : RtrCache V O).vrps p a = [] := maxLenList_tryDefault p a
  rw [hnil]
  simp [default]

theorem allActive_coupled_step (hactive : AllActive cache.vrps)
    (hc : cache.Coupled) (u : RtrUpdate O) : AllActive (cache.processRtr u).vrps := by
  cases u with
  | full verbs => exact (foldl_fullVerb ⟨∅, ∅, ∅, cache.vrps⟩ hactive verbs).1
  | delta verbs => exact (deltaLoop_spec cache hactive (fun p a => (hc p a).1) verbs).1

theorem coupled_step_iff (hactive : AllActive cache.vrps) (hc : cache.Coupled) (u : RtrUpdate O) :
    (cache.processRtr u).Coupled ↔ cache.Synchronous u := by
  cases u with
  | full verbs => exact coupled_full_iff hactive hc verbs
  | delta verbs => exact coupled_delta_iff hactive hc verbs

/-- The stored lists and the set of origins agree after every update of a run exactly when every
update of the run is synchronous. -/
theorem coupled_throughout_iff (us : List (RtrUpdate O)) :
    (∀ pre, pre <+: us → (run processRtr (default : RtrCache V O) pre).Coupled) ↔
      ∀ pre u, pre ++ [u] <+: us → (run processRtr (default : RtrCache V O) pre).Synchronous u := by
  let P : List (RtrUpdate O) → RtrCache V O → Prop := fun _ cache =>
    AllActive cache.vrps ∧ cache.Coupled
  have hiff := throughout_iff processRtr P Synchronous default us
    ⟨allActive_tryDefault, coupled_default⟩
    (fun _ u _ ⟨hactive, hc⟩ hsync =>
      ⟨allActive_coupled_step hactive hc u, (coupled_step_iff hactive hc u).mpr hsync⟩)
    (fun _ u _ ⟨hactive, hc⟩ hsync h => hsync ((coupled_step_iff hactive hc u).mp h.2))
  rw [← hiff]
  constructor
  · intro h
    refine run_invariant processRtr P default us ⟨allActive_tryDefault, coupled_default⟩ ?_
    rintro pre u hpre ⟨hactive, hc⟩
    refine ⟨allActive_coupled_step hactive hc u, ?_⟩
    have hu := h (pre ++ [u]) hpre
    rwa [run_snoc] at hu
  · intro h pre hpre
    exact (h pre hpre).2

end Runs

/-! ## A cache that is sent twice -/

/-- An origin for a prefix of length eight and AS number 64500. -/
def origin8 : RouteOrigin := ⟨.slash8 10, 24, 64500, by decide⟩

/-- The second Full update, as after a reconnect, leaves the max-length twice. -/
theorem full_twice_not_coupled :
    ¬ (run processRtr (default : RtrCache (MapStore MaxLenList) RouteOrigin)
      [.full [(.announce, .origin origin8)], .full [(.announce, .origin origin8)]]).Coupled := by
  intro h
  have hnodup := (h (.slash8 10) 64500).1
  revert hnodup
  decide

/-- One Full update and the withdrawal of its origin keep the two together. -/
theorem full_then_withdraw_coupled :
    origin8 ∈ (run processRtr (default : RtrCache (MapStore MaxLenList) RouteOrigin)
      [.full [(.announce, .origin origin8)]]).routeOrigins ∧
    ∀ pre, pre <+: [.full [(.announce, .origin origin8)], .delta [(.withdraw, .origin origin8)]] →
      (run processRtr (default : RtrCache (MapStore MaxLenList) RouteOrigin) pre).Coupled := by
  refine ⟨by decide, (coupled_throughout_iff _).mpr ?_⟩
  intro pre u h
  rcases pre with _ | ⟨v, _ | ⟨w, pre⟩⟩
  · obtain ⟨rfl, _⟩ := cons_prefix_cons.mp h
    exact ⟨rfl, by decide⟩
  · obtain ⟨rfl, htail⟩ := cons_prefix_cons.mp h
    obtain ⟨hu, _⟩ := cons_prefix_cons.mp htail
    subst hu
    intro o _ hpresent
    by_cases ho : origin8 = o
    · simp [PresentAfter, lastAction, ho, follows] at hpresent
    · rw [PresentAfter] at hpresent
      simp only [lastAction, Option.none_or, ho, decide_false, Bool.false_eq_true, if_false,
        follows] at hpresent
      have hmem : o ∈ insert origin8 (∅ : Finset RouteOrigin) := hpresent
      exact ho (Finset.mem_singleton.mp hmem).symm
  · have hlen := h.length_le
    simp at hlen

end RtrCache

end Rotonda
