import Rotonda.Store
import Mathlib.Data.List.MinMax

/-!
Queries of the prefix store that look past one prefix: the longest match with its less specifics,
which origin validation asks of the VRPs, and the exact match with its more specifics, which a
re-evaluation asks of the routes.

* `Prefix.Covers`: every address of one prefix is one of another;
* `QueryStore`, `LawfulQueryStore`: the query and what it finds, as the set of its records; which
  of several lists a record stands in, and whether an empty list is given as none, is left open;
* the store over a finite map answers these queries too.
-/

namespace Rotonda

namespace Prefix

def octetBits (b : UInt8) : List Bool := (List.range 8).map fun i => b.toNat.testBit (7 - i)

def bits (p : Prefix) : List Bool := (p.addr.octets.flatMap octetBits).take p.len

def Covers (q p : Prefix) : Prop := q.family = p.family ∧ q.bits <+: p.bits

instance (q p : Prefix) : Decidable (q.Covers p) := inferInstanceAs (Decidable (_ ∧ _))

end Prefix

inductive MatchType where
  | exactMatch
  | longestMatch
  deriving DecidableEq, Repr

structure QueryOptions where
  matchType : MatchType
  includeWithdrawn : Bool
  includeLessSpecifics : Bool
  includeMoreSpecifics : Bool
  mui : Option Mui
  deriving DecidableEq, Repr

structure QueryResult (M : Type) where
  records : List (Record M)
  lessSpecifics : Option (List (PrefixRecord M))
  moreSpecifics : Option (List (PrefixRecord M))

class QueryStore (S : Type) (M : outParam Type) [PrefixStore S M] where
  query : S → Prefix → QueryOptions → Except PrefixStoreError (QueryResult M)

def Shows {S M : Type} [PrefixStore S M] (s : S) (p : Prefix) (r : Record M) : Prop :=
  PrefixStore.report s p r.multiUniqId = some r ∧ r.status ≠ .withdrawn

open QueryStore in
class LawfulQueryStore (S : Type) {M : outParam Type} [PrefixStore S M] [QueryStore S M] :
    Prop where
  longest (s : S) (p : Prefix) :
    ∃ res, query s p ⟨.longestMatch, false, true, false, none⟩ = .ok res ∧
      ∀ r, (r ∈ res.records ∨ ∃ pr ∈ res.lessSpecifics.getD [], r ∈ pr.metaData) ↔
        ∃ q, q.Covers p ∧ Shows s q r
  exact (s : S) (p : Prefix) :
    ∃ res, query s p ⟨.exactMatch, false, false, true, none⟩ = .ok res ∧
      (∀ r, r ∈ res.records ↔ Shows s p r) ∧
      ∀ q r, (∃ pr ∈ res.moreSpecifics.getD [], pr.pfx = q ∧ r ∈ pr.metaData) ↔
        (p.Covers q ∧ q ≠ p) ∧ Shows s q r

/-! ## The store over a finite map -/

namespace MapStore

variable {M : Type}
variable {s : MapStore M} {opts : QueryOptions} {p : Prefix} {r : Record M} {sel : Prefix → Bool}

def shown (s : MapStore M) (opts : QueryOptions) (p : Prefix) : List (Record M) :=
  (s.recordsFor p).filter fun r =>
    (opts.mui.isNone || opts.mui == some r.multiUniqId) &&
      (opts.includeWithdrawn || decide (r.status ≠ .withdrawn))

def shownPrefixes (s : MapStore M) (opts : QueryOptions) (sel : Prefix → Bool) : List Prefix :=
  (s.prefixes.filter sel).filter fun q => !(s.shown opts q).isEmpty

def answered (s : MapStore M) (p : Prefix) (opts : QueryOptions) : Option Prefix :=
  match opts.matchType with
  | .exactMatch => some p
  | .longestMatch => (s.shownPrefixes opts fun q => q.Covers p).argmax Prefix.len

def others (s : MapStore M) (opts : QueryOptions) (hit : Option Prefix) (sel : Prefix → Bool) :
    List (PrefixRecord M) :=
  ((s.shownPrefixes opts sel).filter fun q => decide (some q ≠ hit)).map
    fun q => ⟨q, s.shown opts q⟩

/-- A list that is asked for is given, also an empty one. -/
def asked {α : Type} (wanted : Bool) (l : List α) : Option (List α) :=
  if wanted then some l else none

instance : QueryStore (MapStore M) M where
  query := fun s p opts =>
    .ok {
      records := (s.answered p opts).elim [] (s.shown opts)
      lessSpecifics := asked opts.includeLessSpecifics
        (s.others opts (s.answered p opts) fun q => q.Covers p)
      moreSpecifics := asked opts.includeMoreSpecifics
        (s.others opts (s.answered p opts) fun q => p.Covers q) }

theorem asked_getD {α : Type} (l : List α) : (asked true l).getD [] = l := rfl

theorem mem_shown (hmui : opts.mui = none) (hopt : opts.includeWithdrawn = false) :
    r ∈ s.shown opts p ↔ Shows s p r := by
  simp [shown, hmui, hopt, Shows, mem_recordsFor, report_eq_read]

theorem mem_shownPrefixes (hr : r ∈ s.shown opts p) :
    p ∈ s.shownPrefixes opts sel ↔ sel p = true := by
  have hread := mem_recordsFor.mp (List.mem_filter.mp hr).1
  have hp : p ∈ s.prefixes := by
    refine mem_prefixes (m := r.multiUniqId) ?_
    rw [← read_isSome, hread]
    rfl
  have hne : (s.shown opts p).isEmpty = false := by
    cases h : s.shown opts p with
    | nil => rw [h] at hr; cases hr
    | cons => rfl
  simp [shownPrefixes, hp, hne]

theorem mem_others {hit : Option Prefix} {q : Prefix} :
    (∃ pr ∈ s.others opts hit sel, pr.pfx = q ∧ r ∈ pr.metaData) ↔
      (sel q = true ∧ some q ≠ hit) ∧ r ∈ s.shown opts q := by
  constructor
  · rintro ⟨pr, hpr, rfl, hr⟩
    obtain ⟨q, hq, rfl⟩ := List.mem_map.mp hpr
    obtain ⟨hq, hne⟩ := List.mem_filter.mp hq
    exact ⟨⟨(mem_shownPrefixes hr).mp hq, of_decide_eq_true hne⟩, hr⟩
  · rintro ⟨⟨hsel, hne⟩, hr⟩
    refine ⟨⟨q, s.shown opts q⟩, List.mem_map.mpr ⟨q, ?_, rfl⟩, rfl, hr⟩
    exact List.mem_filter.mpr ⟨(mem_shownPrefixes hr).mpr hsel, decide_eq_true hne⟩

/-- The answered prefix of a longest match is one that covers. -/
theorem covers_of_answered {q : Prefix} (hopt : opts.matchType = .longestMatch)
    (hq : s.answered p opts = some q) (hr : r ∈ s.shown opts q) : q.Covers p := by
  simp only [answered, hopt] at hq
  simpa using (mem_shownPrefixes hr).mp (List.argmax_mem hq)

instance : LawfulQueryStore (MapStore M) where
  longest := fun s p => by
    refine ⟨_, rfl, fun r => ?_⟩
    simp only [asked_getD]
    constructor
    · rintro (hr | ⟨pr, hpr, hr⟩)
      · cases hhit : s.answered p ⟨.longestMatch, false, true, false, none⟩ with
        | none => rw [hhit] at hr; cases hr
        | some q =>
          rw [hhit] at hr
          exact ⟨q, covers_of_answered rfl hhit hr, (mem_shown rfl rfl).mp hr⟩
      · obtain ⟨⟨hq, _⟩, hr⟩ := mem_others.mp ⟨pr, hpr, rfl, hr⟩
        exact ⟨pr.pfx, of_decide_eq_true hq, (mem_shown rfl rfl).mp hr⟩
    · rintro ⟨q, hq, hr⟩
      -- a covering prefix is the answered one or stands among the less specifics
      by_cases hhit : some q = s.answered p ⟨.longestMatch, false, true, false, none⟩
      · exact .inl (by rw [← hhit]; exact (mem_shown rfl rfl).mpr hr)
      · have hr : r ∈ s.shown ⟨.longestMatch, false, true, false, none⟩ q :=
          (mem_shown rfl rfl).mpr hr
        have hq : decide (q.Covers p) = true := decide_eq_true hq
        have hless : ∃ pr ∈ s.others _ _ fun q => decide (q.Covers p), pr.pfx = q ∧ r ∈ pr.metaData :=
          mem_others.mpr ⟨⟨hq, hhit⟩, hr⟩
        obtain ⟨pr, hpr, _, hr⟩ := hless
        exact .inr ⟨pr, hpr, hr⟩
  exact := fun s p => by
    refine ⟨_, rfl, fun r => mem_shown rfl rfl, fun q r => ?_⟩
    rw [asked_getD, mem_others, mem_shown rfl rfl]
    simp [answered]

end MapStore

end Rotonda
