import Rotonda.Query
import Rotonda.RibUnit.Rtr

/-!
Route origin validation against the store of VRPs.

The store never drops a prefix: a withdrawn VRP leaves an empty list of max-lengths behind, so a
record alone does not mean that a prefix is covered.

* `checkRov`: the two early-exit loops of the source over the longest match and its less specifics;
* `Stored`, `Covered`, `Matched`, `StateOf`: the notions of RFC 6811 over the VRPs in the store;
* `checkRov_state`: what the loops compute; they do not ask that the origin is not zero;
* `checkRov_matches_iff`: the result is that of RFC 6811 unless the origin is AS 0 and a VRP for
  AS 0 covers the route.
-/

namespace Rotonda

open PrefixStore QueryStore

namespace RtrCache

/-! ## The loops -/

/-- Whether the loop over one record's max-lengths ends in a match. -/
def maxLenLoop (len : Nat) (mui : Mui) (origin : Asn) : MaxLenList → Bool
  | [] => false
  | maxlen :: list =>
    if len ≤ maxlen then
      if mui = origin.toNat then true else maxLenLoop len mui origin list
    else maxLenLoop len mui origin list

/-- The loop over records: `covered` and `valid` when it is left. -/
def recordLoop (len : Nat) (origin : Asn) : List (Record MaxLenList) → Bool → Bool × Bool
  | [], covered => (covered, false)
  | r :: rs, covered =>
    let covered := covered || !r.metaData.isEmpty
    if maxLenLoop len r.multiUniqId origin r.metaData then (covered, true)
    else recordLoop len origin rs covered

/-- The loop over the less specifics; a match leaves both loops. -/
def lessSpecificsLoop (len : Nat) (origin : Asn) :
    List (PrefixRecord MaxLenList) → Bool → Bool × Bool
  | [], covered => (covered, false)
  | pr :: prs, covered =>
    match recordLoop len origin pr.metaData covered with
    | (covered, true) => (covered, true)
    | (covered, false) => lessSpecificsLoop len origin prs covered

/-- What the two flags stand for; `none` for the combination the source holds unreachable. -/
def rovStatus : Bool × Bool → Option RovStatus
  | (true, true) => some .valid
  | (true, false) => some .invalid
  | (false, true) => none
  | (false, false) => some .notFound

def checkRov {V : Type} [PrefixStore V MaxLenList] [QueryStore V MaxLenList] (vrps : V)
    (pfx : Prefix) (origin : Asn) : Option RovStatus :=
  match query vrps pfx ⟨.longestMatch, false, true, false, none⟩ with
  | .error _ => some .notChecked
  | .ok res =>
    let (covered, valid) := recordLoop pfx.len origin res.records false
    if valid then rovStatus (covered, valid)
    else match res.lessSpecifics with
      | none => rovStatus (covered, valid)
      | some lessSpecifics => rovStatus (lessSpecificsLoop pfx.len origin lessSpecifics covered)

/-! ## RFC 6811 -/

section Rfc6811

variable {V : Type} [PrefixStore V MaxLenList]

/-- A VRP in the store; the AS number is the mui of its record. -/
def Stored (vrps : V) (q : Prefix) (asn : Mui) (maxlen : Nat) : Prop :=
  ∃ r, Shows vrps q r ∧ r.multiUniqId = asn ∧ maxlen ∈ r.metaData

def Covered (vrps : V) (p : Prefix) : Prop :=
  ∃ q asn maxlen, Stored vrps q asn maxlen ∧ q.Covers p

/-- Some VRP names the origin and admits the length of the route. -/
def Authorised (vrps : V) (p : Prefix) (origin : Asn) : Prop :=
  ∃ q maxlen, Stored vrps q origin.toNat maxlen ∧ q.Covers p ∧ p.len ≤ maxlen

/-- As `Authorised`, but no VRP for AS 0 matches a route. -/
def Matched (vrps : V) (p : Prefix) (origin : Asn) : Prop :=
  Authorised vrps p origin ∧ origin ≠ 0

/-- The validation state that follows from which VRPs cover and which match. -/
def StateOf (covered matched : Prop) (rov : RovStatus) : Prop :=
  (rov = .valid ↔ matched) ∧ (rov = .invalid ↔ covered ∧ ¬ matched) ∧ (rov = .notFound ↔ ¬ covered)

end Rfc6811

/-! ## What the loops compute -/

theorem maxLenLoop_iff (len : Nat) (mui : Mui) (origin : Asn) (list : MaxLenList) :
    maxLenLoop len mui origin list = true ↔ mui = origin.toNat ∧ ∃ n ∈ list, len ≤ n := by
  induction list with
  | nil => simp [maxLenLoop]
  | cons maxlen list ih =>
    by_cases hlen : len ≤ maxlen
    · by_cases hmui : mui = origin.toNat
      · simp [maxLenLoop, hlen, hmui]
      · simp [maxLenLoop, hlen, hmui, ih]
    · simp [maxLenLoop, hlen, ih]

/-- The loop goes on behind a list only without a match. -/
theorem recordLoop_append (len : Nat) (origin : Asn) (rs rs' : List (Record MaxLenList))
    (covered : Bool) :
    recordLoop len origin (rs ++ rs') covered =
      match recordLoop len origin rs covered with
      | (covered, true) => (covered, true)
      | (covered, false) => recordLoop len origin rs' covered := by
  induction rs generalizing covered with
  | nil => rfl
  | cons r rs ih =>
    simp only [List.cons_append, recordLoop]
    split
    · rfl
    · exact ih _

theorem lessSpecificsLoop_eq (len : Nat) (origin : Asn) (prs : List (PrefixRecord MaxLenList))
    (covered : Bool) :
    lessSpecificsLoop len origin prs covered =
      recordLoop len origin (prs.flatMap PrefixRecord.metaData) covered := by
  induction prs generalizing covered with
  | nil => rfl
  | cons pr prs ih =>
    rw [List.flatMap_cons, recordLoop_append, lessSpecificsLoop]
    split
    · rfl
    · exact ih _

/-- The flags after the loop: `valid` for a record with a fitting max-length under the origin,
`covered` for one with any max-length. -/
theorem recordLoop_spec (len : Nat) (origin : Asn) (rs : List (Record MaxLenList))
    (covered : Bool) :
    ((recordLoop len origin rs covered).2 = true ↔
        ∃ r ∈ rs, maxLenLoop len r.multiUniqId origin r.metaData = true) ∧
      ((recordLoop len origin rs covered).2 = true → (recordLoop len origin rs covered).1 = true) ∧
      ((recordLoop len origin rs covered).2 = false →
        ((recordLoop len origin rs covered).1 = true ↔
          covered = true ∨ ∃ r ∈ rs, r.metaData ≠ [])) := by
  induction rs generalizing covered with
  | nil => simp [recordLoop]
  | cons r rs ih =>
    by_cases hr : maxLenLoop len r.multiUniqId origin r.metaData = true
    · -- the loop stops here: a list with a match is not empty
      have hne : r.metaData ≠ [] := by
        obtain ⟨_, n, hn, _⟩ := (maxLenLoop_iff ..).mp hr
        exact List.ne_nil_of_mem hn
      simp [recordLoop, hr, hne]
    · obtain ⟨hvalid, himp, hcovered⟩ := ih (covered || !r.metaData.isEmpty)
      simp only [recordLoop, hr]
      refine ⟨by simp [hvalid, hr], himp, fun h => ?_⟩
      rw [if_neg (by simp), hcovered h]
      simp [or_assoc]

section Records

variable {V : Type} [PrefixStore V MaxLenList] {vrps : V} {p : Prefix}
variable {rs : List (Record MaxLenList)}

theorem authorised_iff {origin : Asn} (hmem : ∀ r, r ∈ rs ↔ ∃ q, q.Covers p ∧ Shows vrps q r) :
    (∃ r ∈ rs, maxLenLoop p.len r.multiUniqId origin r.metaData = true) ↔
      Authorised vrps p origin := by
  simp only [maxLenLoop_iff, hmem]
  constructor
  · rintro ⟨r, ⟨q, hq, hr⟩, hmui, n, hn, hlen⟩
    exact ⟨q, n, ⟨r, hr, hmui, hn⟩, hq, hlen⟩
  · rintro ⟨q, n, ⟨r, hr, hmui, hn⟩, hq, hlen⟩
    exact ⟨r, ⟨q, hq, hr⟩, hmui, n, hn, hlen⟩

theorem covered_iff (hmem : ∀ r, r ∈ rs ↔ ∃ q, q.Covers p ∧ Shows vrps q r) :
    (∃ r ∈ rs, r.metaData ≠ []) ↔ Covered vrps p := by
  simp only [hmem]
  constructor
  · rintro ⟨r, ⟨q, hq, hr⟩, hne⟩
    obtain ⟨n, hn⟩ := List.exists_mem_of_ne_nil _ hne
    exact ⟨q, r.multiUniqId, n, ⟨r, hr, rfl, hn⟩, hq⟩
  · rintro ⟨q, _, n, ⟨r, hr, _, hn⟩, hq⟩
    exact ⟨r, ⟨q, hq, hr⟩, List.ne_nil_of_mem hn⟩

theorem Authorised.covered {origin : Asn} (h : Authorised vrps p origin) : Covered vrps p := by
  obtain ⟨q, n, hstored, hq, _⟩ := h
  exact ⟨q, _, n, hstored, hq⟩

end Records

section Lawful

variable {V : Type} [PrefixStore V MaxLenList] [QueryStore V MaxLenList] [LawfulQueryStore V]

/-- The two loops are one loop over the records of all covering prefixes. -/
theorem checkRov_eq (vrps : V) (p : Prefix) (origin : Asn) :
    ∃ rs, checkRov vrps p origin = rovStatus (recordLoop p.len origin rs false) ∧
      ∀ r, r ∈ rs ↔ ∃ q, q.Covers p ∧ Shows vrps q r := by
  obtain ⟨res, hres, hmem⟩ := LawfulQueryStore.longest vrps p
  refine ⟨res.records ++ (res.lessSpecifics.getD []).flatMap PrefixRecord.metaData, ?_, fun r => ?_⟩
  · simp only [checkRov, hres, recordLoop_append]
    rcases recordLoop p.len origin res.records false with ⟨covered, _ | _⟩
    · cases hless : res.lessSpecifics with
      | none => simp [recordLoop]
      | some prs => simp [lessSpecificsLoop_eq]
    · rfl
  · rw [List.mem_append, List.mem_flatMap, hmem]

/-- The code computes the validation state with `Authorised` for a match. -/
theorem checkRov_state (vrps : V) (p : Prefix) (origin : Asn) :
    ∃ rov, checkRov vrps p origin = some rov ∧
      StateOf (Covered vrps p) (Authorised vrps p origin) rov := by
  obtain ⟨rs, heq, hmem⟩ := checkRov_eq vrps p origin
  obtain ⟨hvalid, himp, hcovered⟩ := recordLoop_spec p.len origin rs false
  rw [authorised_iff hmem] at hvalid
  rw [covered_iff hmem] at hcovered
  rw [heq]
  cases hv : (recordLoop p.len origin rs false).2 with
  | true =>
    have hauth := hvalid.mp hv
    refine ⟨.valid, ?_, ?_⟩
    · rw [← Prod.mk.eta (p := recordLoop p.len origin rs false), hv, himp hv]
      rfl
    · simp [StateOf, hauth, hauth.covered]
  | false =>
    have hauth : ¬ Authorised vrps p origin := fun h => by simp [hvalid.mpr h] at hv
    have hcov := hcovered hv
    cases hc : (recordLoop p.len origin rs false).1 with
    | true =>
      have hcov : Covered vrps p := by simpa [hc] using hcov
      refine ⟨.invalid, ?_, by simp [StateOf, hauth, hcov]⟩
      rw [← Prod.mk.eta (p := recordLoop p.len origin rs false), hv, hc]
      rfl
    | false =>
      have hcov : ¬ Covered vrps p := by simpa [hc] using hcov
      refine ⟨.notFound, ?_, by simp [StateOf, hauth, hcov]⟩
      rw [← Prod.mk.eta (p := recordLoop p.len origin rs false), hv, hc]
      rfl

/-- No run takes the branch held unreachable, and the result is the validation state of RFC 6811
unless a VRP for AS 0 authorises a route with origin AS 0. -/
theorem checkRov_matches_iff (vrps : V) (p : Prefix) (origin : Asn) :
    checkRov vrps p origin ≠ none ∧
      ((∃ rov, checkRov vrps p origin = some rov ∧
          StateOf (Covered vrps p) (Matched vrps p origin) rov) ↔
        ¬ (origin = 0 ∧ Authorised vrps p 0)) := by
  obtain ⟨rov, hrov, hstate⟩ := checkRov_state vrps p origin
  rw [hrov]
  refine ⟨by simp, ⟨?_, fun h => ⟨rov, rfl, ?_⟩⟩⟩
  · rintro ⟨rov', hrov', hvalid, _, _⟩ ⟨rfl, hauth⟩
    cases hrov'
    exact (hvalid.mp (hstate.1.mpr hauth)).2 rfl
  · have hmatched : Matched vrps p origin ↔ Authorised vrps p origin := by
      refine ⟨And.left, fun hauth => ⟨hauth, ?_⟩⟩
      rintro rfl
      exact h ⟨rfl, hauth⟩
    rwa [hmatched]

end Lawful

/-! ## A VRP for AS 0 -/

/-- A store with one VRP for 10.0.0.0/8 up to length 8. -/
def oneVrp (asn : Asn) : MapStore MaxLenList := insertList tryDefault (.slash8 10) asn [8]

/-- The authorisation that no AS may originate a prefix makes a route with origin AS 0 valid. -/
theorem checkRov_as0_valid :
    checkRov (oneVrp 0) (.slash8 10) 0 = some .valid ∧ ¬ Matched (oneVrp 0) (.slash8 10) 0 :=
  ⟨by decide +kernel, fun h => h.2 rfl⟩

theorem checkRov_matches_65000 :
    ∃ rov, checkRov (oneVrp 65000) (.slash8 10) 65000 = some rov ∧
      StateOf (Covered (oneVrp 65000) (.slash8 10)) (Matched (oneVrp 65000) (.slash8 10) 65000) rov :=
  (checkRov_matches_iff (oneVrp 65000) (.slash8 10) 65000).2.mpr fun h => absurd h.1 (by decide)

end RtrCache

end Rotonda
