import Rotonda.Net
import Mathlib.Data.List.Dedup

/-!
The prefix store under the RIB and under the VRP cache.

The store is a library, so it is an interface here: `PrefixStore` lists the operations the RIB
unit calls, `LawfulPrefixStore` what it relies on.  A store keeps one record per prefix and
multi-unique id (mui) with a *local* status, and per family a set of muis whose records all read
as withdrawn.

* `report`: what a read shows of a record, the flag of the mui overriding the local status;
* `MapStore`: a store over a finite map that satisfies every law.
-/

namespace Rotonda

open List

abbrev Mui := Nat

inductive RouteStatus where
  | active
  | inActive
  | withdrawn
  deriving DecidableEq, Repr

structure Record (M : Type) where
  multiUniqId : Mui
  ltime : Nat
  status : RouteStatus
  metaData : M
  deriving DecidableEq, Repr

structure PrefixRecord (M : Type) where
  pfx : Prefix
  metaData : List (Record M)
  deriving DecidableEq, Repr

structure UpsertReport where
  casCount : Nat
  prefixNew : Bool
  muiNew : Bool
  muiCount : Nat
  deriving DecidableEq, Repr

inductive PrefixStoreError where
  | storeNotReadyError
  | other (msg : String)
  deriving DecidableEq, Repr

/-- Options of `matchPrefix` that the RIB unit varies; it always asks for an exact match without
less specifics, more specifics or history. -/
structure MatchOptions where
  includeWithdrawn : Bool
  mui : Option Mui
  deriving DecidableEq, Repr

/-- The operations of the store.  `localRecord` is the record as it was last stored, whatever
the flags say; no modelled function reads it. -/
class PrefixStore (S : Type) (M : outParam Type) where
  tryDefault : S
  insert : S → Prefix → Record M → S × Except PrefixStoreError UpsertReport
  contains : S → Prefix → Option Mui → Bool
  markMuiAsWithdrawnForPrefix : S → Prefix → Mui → Nat → S × Except PrefixStoreError Unit
  markMuiAsWithdrawn : S → Mui → S
  markMuiAsWithdrawnFor : Family → S → Mui → S
  markMuiAsActiveFor : Family → S → Mui → S
  muiIsWithdrawnFor : Family → S → Mui → Bool
  removeMui : S → Mui → S
  prefixesIter : S → List (PrefixRecord M)
  prefixesIterFor : Family → S → List (PrefixRecord M)
  prefixesKeysIter : S → List Prefix
  getRecordsForPrefix : S → Prefix → Option Mui → Bool →
    Except PrefixStoreError (Option (List (Record M)))
  matchPrefix : S → Prefix → MatchOptions → Except PrefixStoreError (List (Record M))
  localRecord : S → Prefix → Mui → Option (Record M)

namespace PrefixStore

variable {S M : Type} [PrefixStore S M]

def markMuiAsWithdrawnV4 (s : S) (mui : Mui) : S := markMuiAsWithdrawnFor .v4 s mui
def markMuiAsWithdrawnV6 (s : S) (mui : Mui) : S := markMuiAsWithdrawnFor .v6 s mui
def markMuiAsActiveV4 (s : S) (mui : Mui) : S := markMuiAsActiveFor .v4 s mui
def markMuiAsActiveV6 (s : S) (mui : Mui) : S := markMuiAsActiveFor .v6 s mui
def muiIsWithdrawnV4 (s : S) (mui : Mui) : Bool := muiIsWithdrawnFor .v4 s mui
def muiIsWithdrawnV6 (s : S) (mui : Mui) : Bool := muiIsWithdrawnFor .v6 s mui
def prefixesIterV4 (s : S) : List (PrefixRecord M) := prefixesIterFor .v4 s
def prefixesIterV6 (s : S) : List (PrefixRecord M) := prefixesIterFor .v6 s

/-- What a read that includes withdrawn records shows for a prefix and mui. -/
def report (s : S) (p : Prefix) (mui : Mui) : Option (Record M) :=
  (localRecord s p mui).map fun r =>
    if muiIsWithdrawnFor p.family s mui then { r with status := .withdrawn } else r

end PrefixStore

open PrefixStore in
/-- What the RIB unit relies on.  After `removeMui` the flags of the removed mui are left open,
and so is the logical time that marking one prefix leaves. -/
class LawfulPrefixStore (S : Type) {M : outParam Type} [PrefixStore S M] : Prop where
  localRecord_tryDefault (p : Prefix) (m : Mui) : localRecord (tryDefault : S) p m = none
  flag_tryDefault (f : Family) (m : Mui) : muiIsWithdrawnFor f (tryDefault : S) m = false
  multiUniqId_eq {s : S} {p : Prefix} {m : Mui} {r : Record M}
    (h : localRecord s p m = some r) : r.multiUniqId = m
  localRecord_insert (s : S) (p q : Prefix) (r : Record M) (m : Mui) :
    localRecord (insert s p r).1 q m =
      if q = p ∧ m = r.multiUniqId then some r else localRecord s q m
  flag_insert (s : S) (p : Prefix) (r : Record M) (f : Family) (m : Mui) :
    muiIsWithdrawnFor f (insert s p r).1 m = muiIsWithdrawnFor f s m
  contains_eq (s : S) (p : Prefix) (m : Mui) :
    contains s p (some m) = (localRecord s p m).isSome
  localRecord_markForPrefix (s : S) (p : Prefix) (m : Mui) (t : Nat) :
    ∃ t', ∀ q n, localRecord (markMuiAsWithdrawnForPrefix s p m t).1 q n =
      if q = p ∧ n = m then
        (localRecord s p m).map fun r => { r with ltime := t', status := .withdrawn }
      else localRecord s q n
  flag_markForPrefix (s : S) (p : Prefix) (m : Mui) (t : Nat) (f : Family) (n : Mui) :
    muiIsWithdrawnFor f (markMuiAsWithdrawnForPrefix s p m t).1 n = muiIsWithdrawnFor f s n
  localRecord_markWithdrawn (s : S) (m : Mui) (q : Prefix) (n : Mui) :
    localRecord (markMuiAsWithdrawn s m) q n = localRecord s q n
  flag_markWithdrawn (s : S) (m : Mui) (f : Family) (n : Mui) :
    muiIsWithdrawnFor f (markMuiAsWithdrawn s m) n =
      (decide (n = m) || muiIsWithdrawnFor f s n)
  localRecord_markWithdrawnFor (f : Family) (s : S) (m : Mui) (q : Prefix) (n : Mui) :
    localRecord (markMuiAsWithdrawnFor f s m) q n = localRecord s q n
  flag_markWithdrawnFor (f : Family) (s : S) (m : Mui) (g : Family) (n : Mui) :
    muiIsWithdrawnFor g (markMuiAsWithdrawnFor f s m) n =
      (decide (g = f ∧ n = m) || muiIsWithdrawnFor g s n)
  localRecord_markActiveFor (f : Family) (s : S) (m : Mui) (q : Prefix) (n : Mui) :
    localRecord (markMuiAsActiveFor f s m) q n = localRecord s q n
  flag_markActiveFor (f : Family) (s : S) (m : Mui) (g : Family) (n : Mui) :
    muiIsWithdrawnFor g (markMuiAsActiveFor f s m) n =
      (!decide (g = f ∧ n = m) && muiIsWithdrawnFor g s n)
  localRecord_removeMui (s : S) (m : Mui) (q : Prefix) (n : Mui) :
    localRecord (removeMui s m) q n = if n = m then none else localRecord s q n
  flag_removeMui {s : S} {m n : Mui} (f : Family) (h : n ≠ m) :
    muiIsWithdrawnFor f (removeMui s m) n = muiIsWithdrawnFor f s n
  mem_prefixesIter (s : S) (p : Prefix) (m : Mui) :
    (∃ pr ∈ prefixesIter s, pr.pfx = p ∧ ∃ r ∈ pr.metaData, r.multiUniqId = m) ↔
      (localRecord s p m).isSome
  mem_prefixesIterFor (f : Family) (s : S) (p : Prefix) (m : Mui) :
    (∃ pr ∈ prefixesIterFor f s, pr.pfx = p ∧ ∃ r ∈ pr.metaData, r.multiUniqId = m) ↔
      p.family = f ∧ (localRecord s p m).isSome
  mem_prefixesKeysIter {s : S} {p : Prefix} {m : Mui} (h : (localRecord s p m).isSome) :
    p ∈ prefixesKeysIter s
  nodup_prefixesKeysIter (s : S) : (prefixesKeysIter s).Nodup
  getRecordsForPrefix_eq (s : S) (p : Prefix) :
    ∃ rs, (getRecordsForPrefix s p none true = .ok (some rs) ∨
        (getRecordsForPrefix s p none true = .ok none ∧ rs = [])) ∧
      (rs.map Record.multiUniqId).Nodup ∧ ∀ r, r ∈ rs ↔ report s p r.multiUniqId = some r
  matchPrefix_eq (s : S) (p : Prefix) (m : Mui) :
    matchPrefix s p ⟨false, some m⟩ =
      .ok ((report s p m).filter (fun r => decide (r.status ≠ .withdrawn))).toList

open PrefixStore in
/-- What removal leaves in the flags of the removed mui depends on these flags alone. -/
class UniformRemoval (S : Type) {M : outParam Type} [PrefixStore S M] : Prop where
  flag_removeMui_congr {s s' : S} {m : Mui}
    (h : ∀ f, muiIsWithdrawnFor f s m = muiIsWithdrawnFor f s' m) (f : Family) :
    muiIsWithdrawnFor f (removeMui s m) m = muiIsWithdrawnFor f (removeMui s' m) m

open PrefixStore in
/-- A walk over the store shows each record with the attributes it was stored with; whether it
also shows what the flags make of the status is left open. -/
class LawfulWalk (S : Type) {M : outParam Type} [PrefixStore S M] : Prop where
  metaData_prefixesIter {s : S} {pr : PrefixRecord M} {r : Record M} (hpr : pr ∈ prefixesIter s)
    (hr : r ∈ pr.metaData) : ∃ r', localRecord s pr.pfx r.multiUniqId = some r' ∧
      r'.metaData = r.metaData

/-! ## A store over a finite map -/

/-- Records by prefix and mui with finite support, and the muis flagged as withdrawn. -/
structure MapStore (M : Type) where
  keys : List (Prefix × Mui)
  get : Prefix → Mui → Option (Record M)
  mem_keys : ∀ p m, (get p m).isSome → (p, m) ∈ keys
  keyed : ∀ p m r, get p m = some r → r.multiUniqId = m
  withdrawnMuis : Family → Mui → Bool

namespace MapStore

variable {M : Type}
variable {s : MapStore M} {p : Prefix} {m : Mui}

def tryDefault : MapStore M where
  keys := []
  get := fun _ _ => none
  mem_keys := by simp
  keyed := by simp
  withdrawnMuis := fun _ _ => false

def insert (s : MapStore M) (p : Prefix) (r : Record M) : MapStore M where
  keys := (p, r.multiUniqId) :: s.keys
  get := fun q m => if q = p ∧ m = r.multiUniqId then some r else s.get q m
  mem_keys := by
    intro q m h
    split at h
    next hk => simp [hk.1, hk.2]
    · exact mem_cons_of_mem _ (s.mem_keys q m h)
  keyed := by
    intro q m r' h
    split at h
    next hk => cases h; exact hk.2.symm
    · exact s.keyed q m r' h
  withdrawnMuis := s.withdrawnMuis

def markMuiAsWithdrawnForPrefix (s : MapStore M) (p : Prefix) (m : Mui) (t : Nat) : MapStore M :=
  match s.get p m with
  | none => s
  | some r => s.insert p { r with ltime := t, status := .withdrawn }

def setFlag (s : MapStore M) (withdrawn : Bool) (sel : Family → Mui → Bool) : MapStore M :=
  { s with withdrawnMuis := fun f m => if sel f m then withdrawn else s.withdrawnMuis f m }

def removeMui (s : MapStore M) (m : Mui) : MapStore M where
  keys := s.keys
  get := fun q n => if n = m then none else s.get q n
  mem_keys := by
    intro q n h
    split at h
    · cases h
    · exact s.mem_keys q n h
  keyed := by
    intro q n r h
    split at h
    · cases h
    · exact s.keyed q n r h
  withdrawnMuis := fun f n => if n = m then false else s.withdrawnMuis f n

def read (s : MapStore M) (p : Prefix) (m : Mui) : Option (Record M) :=
  (s.get p m).map fun r =>
    if s.withdrawnMuis p.family m then { r with status := .withdrawn } else r

def prefixes (s : MapStore M) : List Prefix := (s.keys.map Prod.fst).dedup

def muis (s : MapStore M) : List Mui := (s.keys.map Prod.snd).dedup

def recordsFor (s : MapStore M) (p : Prefix) : List (Record M) := s.muis.filterMap (s.read p)

def prefixRecords (s : MapStore M) (ps : List Prefix) : List (PrefixRecord M) :=
  ps.map fun p => ⟨p, s.recordsFor p⟩

instance : PrefixStore (MapStore M) M where
  tryDefault := tryDefault
  insert := fun s p r =>
    (s.insert p r, .ok ⟨1, decide (p ∉ s.prefixes), (s.get p r.multiUniqId).isNone, 1⟩)
  contains := fun s p m =>
    match m with
    | none => decide (p ∈ s.prefixes)
    | some m => (s.get p m).isSome
  markMuiAsWithdrawnForPrefix := fun s p m t => (s.markMuiAsWithdrawnForPrefix p m t, .ok ())
  markMuiAsWithdrawn := fun s m => s.setFlag true fun _ n => decide (n = m)
  markMuiAsWithdrawnFor := fun f s m => s.setFlag true fun g n => decide (g = f ∧ n = m)
  markMuiAsActiveFor := fun f s m => s.setFlag false fun g n => decide (g = f ∧ n = m)
  muiIsWithdrawnFor := fun f s m => s.withdrawnMuis f m
  removeMui := removeMui
  prefixesIter := fun s => s.prefixRecords s.prefixes
  prefixesIterFor := fun f s => s.prefixRecords (s.prefixes.filter fun p => p.family = f)
  prefixesKeysIter := prefixes
  getRecordsForPrefix := fun s p m withdrawn =>
    .ok (some ((s.recordsFor p).filter fun r =>
      (m.isNone || m == some r.multiUniqId) && (withdrawn || decide (r.status ≠ .withdrawn))))
  matchPrefix := fun s p opts =>
    .ok ((opts.mui.elim s.muis fun m => [m]).filterMap fun m =>
      (s.read p m).filter fun r => opts.includeWithdrawn || decide (r.status ≠ .withdrawn))
  localRecord := get

theorem report_eq_read (s : MapStore M) (p : Prefix) (m : Mui) :
    PrefixStore.report s p m = s.read p m := rfl

theorem read_multiUniqId {r : Record M} (h : s.read p m = some r) : r.multiUniqId = m := by
  obtain ⟨r', hr', rfl⟩ := Option.map_eq_some_iff.mp h
  have := s.keyed p m r' hr'
  split <;> exact this

theorem read_isSome (s : MapStore M) (p : Prefix) (m : Mui) :
    (s.read p m).isSome = (s.get p m).isSome := by
  simp [read]

theorem mem_muis (h : (s.get p m).isSome) : m ∈ s.muis :=
  mem_dedup.mpr (mem_map.mpr ⟨(p, m), s.mem_keys p m h, rfl⟩)

theorem mem_prefixes (h : (s.get p m).isSome) : p ∈ s.prefixes :=
  mem_dedup.mpr (mem_map.mpr ⟨(p, m), s.mem_keys p m h, rfl⟩)

theorem mem_recordsFor {r : Record M} : r ∈ s.recordsFor p ↔ s.read p r.multiUniqId = some r := by
  constructor
  · intro h
    obtain ⟨m, _, hm⟩ := mem_filterMap.mp h
    rwa [read_multiUniqId hm]
  · intro h
    have hsome : (s.get p r.multiUniqId).isSome := by rw [← read_isSome, h]; rfl
    exact mem_filterMap.mpr ⟨_, mem_muis hsome, h⟩

theorem mem_prefixRecords {ps : List Prefix} :
    (∃ pr ∈ s.prefixRecords ps, pr.pfx = p ∧ ∃ r ∈ pr.metaData, r.multiUniqId = m) ↔
      p ∈ ps ∧ (s.get p m).isSome := by
  constructor
  · rintro ⟨pr, hpr, rfl, r, hr, rfl⟩
    obtain ⟨p, hp, rfl⟩ := mem_map.mp hpr
    have hread := mem_recordsFor.mp hr
    exact ⟨hp, by rw [← read_isSome, hread]; rfl⟩
  · rintro ⟨hp, hsome⟩
    obtain ⟨r, hr⟩ := Option.isSome_iff_exists.mp ((read_isSome s p m).trans hsome)
    have hm := read_multiUniqId hr
    exact ⟨⟨p, s.recordsFor p⟩, mem_map.mpr ⟨p, hp, rfl⟩, rfl, r,
      mem_recordsFor.mpr (hm ▸ hr), hm⟩

theorem nodup_recordsFor (s : MapStore M) (p : Prefix) :
    ((s.recordsFor p).map Record.multiUniqId).Nodup := by
  rw [recordsFor, map_filterMap]
  refine List.Nodup.filterMap ?_ (nodup_dedup _)
  intro m m' k hk hk'
  obtain ⟨r, hr, rfl⟩ := Option.map_eq_some_iff.mp hk
  obtain ⟨r', hr', hk'⟩ := Option.map_eq_some_iff.mp hk'
  rw [← read_multiUniqId hr, ← hk', read_multiUniqId hr']

theorem get_markForPrefix (s : MapStore M) (p : Prefix) (m : Mui) (t : Nat) (q : Prefix)
    (n : Mui) : (s.markMuiAsWithdrawnForPrefix p m t).get q n =
      if q = p ∧ n = m then
        (s.get p m).map fun r => { r with ltime := t, status := .withdrawn }
      else s.get q n := by
  unfold markMuiAsWithdrawnForPrefix
  cases h : s.get p m with
  | none =>
    by_cases hk : q = p ∧ n = m
    · simp [hk.1, hk.2, h]
    · simp [hk]
  | some r => simp [insert, s.keyed p m r h]

theorem flag_markForPrefix (s : MapStore M) (p : Prefix) (m : Mui) (t : Nat) :
    (s.markMuiAsWithdrawnForPrefix p m t).withdrawnMuis = s.withdrawnMuis := by
  unfold markMuiAsWithdrawnForPrefix
  split <;> rfl

instance : LawfulPrefixStore (MapStore M) where
  localRecord_tryDefault := fun _ _ => rfl
  flag_tryDefault := fun _ _ => rfl
  multiUniqId_eq := fun {s p m r} h => s.keyed p m r h
  localRecord_insert := fun _ _ _ _ _ => rfl
  flag_insert := fun _ _ _ _ _ => rfl
  contains_eq := fun _ _ _ => rfl
  localRecord_markForPrefix := fun s p m t => ⟨t, fun q n => get_markForPrefix s p m t q n⟩
  flag_markForPrefix := fun s p m t f n => congrFun (congrFun (flag_markForPrefix s p m t) f) n
  localRecord_markWithdrawn := fun _ _ _ _ => rfl
  flag_markWithdrawn := fun s m f n => by
    change (if decide (n = m) = true then true else s.withdrawnMuis f n) = _
    cases decide (n = m) <;> rfl
  localRecord_markWithdrawnFor := fun _ _ _ _ _ => rfl
  flag_markWithdrawnFor := fun f s m g n => by
    change (if decide (g = f ∧ n = m) = true then true else s.withdrawnMuis g n) = _
    cases decide (g = f ∧ n = m) <;> rfl
  localRecord_markActiveFor := fun _ _ _ _ _ => rfl
  flag_markActiveFor := fun f s m g n => by
    change (if decide (g = f ∧ n = m) = true then false else s.withdrawnMuis g n) = _
    cases decide (g = f ∧ n = m) <;> rfl
  localRecord_removeMui := fun _ _ _ _ => rfl
  flag_removeMui := fun {s m n} f h => by
    simp [PrefixStore.muiIsWithdrawnFor, PrefixStore.removeMui, removeMui, h]
  mem_prefixesIter := fun s p m => by
    refine mem_prefixRecords.trans ⟨fun h => h.2, fun h => ⟨mem_prefixes h, h⟩⟩
  mem_prefixesIterFor := fun f s p m => by
    refine mem_prefixRecords.trans ?_
    simp only [mem_filter, decide_eq_true_eq]
    exact ⟨fun h => ⟨h.1.2, h.2⟩, fun h => ⟨⟨mem_prefixes h.2, h.1⟩, h.2⟩⟩
  mem_prefixesKeysIter := fun h => mem_prefixes h
  nodup_prefixesKeysIter := fun _ => nodup_dedup _
  getRecordsForPrefix_eq := fun s p => by
    refine ⟨s.recordsFor p, .inl ?_, nodup_recordsFor s p, fun r => mem_recordsFor⟩
    simp [PrefixStore.getRecordsForPrefix]
  matchPrefix_eq := fun s p m => by
    simp only [PrefixStore.matchPrefix, report_eq_read, Option.elim, filterMap_cons,
      filterMap_nil, Bool.false_or]
    cases (s.read p m).filter fun r => decide (r.status ≠ .withdrawn) <;> rfl

instance : UniformRemoval (MapStore M) where
  flag_removeMui_congr := fun {s s' m} _ f => by
    simp [PrefixStore.muiIsWithdrawnFor, PrefixStore.removeMui, removeMui]

instance : LawfulWalk (MapStore M) where
  metaData_prefixesIter := fun {s pr r} hpr hr => by
    obtain ⟨p, _, rfl⟩ := mem_map.mp hpr
    obtain ⟨r', hr', hread⟩ := Option.map_eq_some_iff.mp (mem_recordsFor.mp hr)
    refine ⟨r', hr', ?_⟩
    rw [← hread]
    split <;> rfl

end MapStore

end Rotonda
