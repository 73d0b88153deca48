import Rotonda.Lib.Runs
import Rotonda.RibUnit.Rib

/-!
Two walks over the unicast store: one collects what the store's iterator yields, the other takes the
keys first and then, chunk by chunk, the records of each key, and passes them to a callback.

The callback is a closure with a state of its own.  The calls it gets are kept as a history.

* `WalksAgree`: keys, records and iterator of the store agree;
* `Heeds`: which calls a callback gets that may stop the walk;
* `streamPrefixRecords_eq`: the walk by chunks is one over all keys;
* `streamPrefixRecords_heeds`: it passes on what the iterator yields, until the callback stops it.
-/

namespace Rotonda

open PrefixStore Lib.Runs List

/-- Number of keys whose records are fetched into one batch. -/
def dumpKeyChunk : Nat := 512

def retainLive {M : Type} (records : List (Record M)) : List (Record M) :=
  records.filter fun r => decide (r.status ≠ .withdrawn)

def livePrefix {M : Type} (p : Prefix) (records : List (Record M)) : Option (PrefixRecord M) :=
  let live := retainLive records
  if live.isEmpty then none else some ⟨p, live⟩

/-- Why a walk ends early. -/
inductive Stop where
  | refused
  | deadline

/-- A walk so far: the state of the closure, the number of calls, and the calls. -/
structure Walked (σ : Type) where
  callback : σ
  count : Nat
  calls : List (PrefixRecord RotondaPaMap)

namespace Rib

variable {S : Type} [PrefixStore S RotondaPaMap]

def iterAllPrefixRecords (rib : Rib S) : List (PrefixRecord RotondaPaMap) :=
  (prefixesIter rib.unicast).filterMap fun pr => livePrefix pr.pfx pr.metaData

/-- The records of a key; a key that cannot be read is skipped. -/
def fetchLive (s : S) (p : Prefix) : Option (PrefixRecord RotondaPaMap) :=
  match getRecordsForPrefix s p none true with
  | .ok (some records) => livePrefix p records
  | .ok none | .error _ => none

variable {σ : Type} (f : σ → PrefixRecord RotondaPaMap → σ × Bool)

def emit (w : Walked σ) (pr : PrefixRecord RotondaPaMap) : Walked σ × Option Stop :=
  let (callback, goOn) := f w.callback pr
  (⟨callback, w.count + 1, w.calls ++ [pr]⟩, if goOn then none else some .refused)

/-- One chunk of keys; the flag says whether the deadline is over after it. -/
def streamChunk (s : S) (w : Walked σ) (chunk : List Prefix × Bool) : Walked σ × Option Stop :=
  match runUntil (emit f) w (chunk.1.filterMap (fetchLive s)) with
  | (w, some stop) => (w, some stop)
  | (w, none) => (w, if chunk.2 then some .deadline else none)

/-- `expired n` says whether the deadline is over after chunk `n`. -/
def streamPrefixRecords (rib : Rib S) (expired : Nat → Bool) (callback : σ) : Walked σ :=
  let keys := prefixesKeysIter rib.unicast
  let chunks := (keys.toChunks dumpKeyChunk).zipIdx.map fun (chunk, n) => (chunk, expired n)
  (runUntil (streamChunk f rib.unicast) ⟨callback, 0, []⟩ chunks).1

/-! ## Calls -/

/-- What the callback answers if it gets these calls one after the other. -/
def answers : σ → List (PrefixRecord RotondaPaMap) → List Bool
  | _, [] => []
  | callback, pr :: prs => (f callback pr).2 :: answers (f callback pr).1 prs

/-- The calls are the first of the given ones, up to the first that is refused. -/
structure Heeds (callback : σ) (full calls : List (PrefixRecord RotondaPaMap)) : Prop where
  initial : calls <+: full
  accepted : ∀ answer ∈ (answers f callback calls).dropLast, answer = true
  complete : false ∉ answers f callback calls → calls = full

/-- A loop of calls: they are as they should be, and they are counted. -/
theorem runUntil_emit (w : Walked σ) (prs : List (PrefixRecord RotondaPaMap)) :
    ∃ calls, (runUntil (emit f) w prs).1.calls = w.calls ++ calls ∧
      (runUntil (emit f) w prs).1.count = w.count + calls.length ∧
      Heeds f w.callback prs calls := by
  induction prs generalizing w with
  | nil => exact ⟨[], by simp [runUntil], rfl, ⟨prefix_rfl, by simp [answers], fun _ => rfl⟩⟩
  | cons pr prs ih =>
    cases hanswer : (f w.callback pr).2 with
    | false =>
      have hemit : emit f w pr =
          (⟨(f w.callback pr).1, w.count + 1, w.calls ++ [pr]⟩, some .refused) := by
        simp [emit, hanswer]
      rw [runUntil_cons_some hemit]
      refine ⟨[pr], rfl, rfl, ⟨?_, ?_, ?_⟩⟩
      · exact cons_prefix_cons.mpr ⟨rfl, nil_prefix⟩
      · simp [answers]
      · simp [answers, hanswer]
    | true =>
      have hemit : emit f w pr =
          (⟨(f w.callback pr).1, w.count + 1, w.calls ++ [pr]⟩, none) := by
        simp [emit, hanswer]
      rw [runUntil_cons_none hemit]
      obtain ⟨calls, hcalls, hcount, hheeds⟩ := ih ⟨(f w.callback pr).1, w.count + 1, w.calls ++ [pr]⟩
      refine ⟨pr :: calls, ?_, ?_, ⟨?_, ?_, ?_⟩⟩
      · rw [hcalls, append_assoc]
        rfl
      · rw [hcount, length_cons, Nat.add_assoc, Nat.add_comm 1]
      · exact cons_prefix_cons.mpr ⟨rfl, hheeds.initial⟩
      · intro answer hmem
        rw [answers, hanswer] at hmem
        cases hrest : answers f (f w.callback pr).1 calls with
        | nil => simp [hrest] at hmem
        | cons a as =>
          rw [hrest, dropLast_cons_cons, mem_cons, ← hrest] at hmem
          rcases hmem with rfl | hmem
          · rfl
          · exact hheeds.accepted answer hmem
      · intro hnone
        rw [answers, mem_cons, not_or] at hnone
        rw [hheeds.complete hnone.2]

/-! ## Chunks -/

/-- While the deadline is not over, the walk by chunks is one over all keys. -/
theorem streamPrefixRecords_eq (rib : Rib S) (callback : σ) :
    rib.streamPrefixRecords f (fun _ => false) callback =
      (runUntil (emit f) ⟨callback, 0, []⟩
        ((prefixesKeysIter rib.unicast).filterMap (fetchLive rib.unicast))).1 := by
  have hchunk : ∀ (w : Walked σ) (chunk : List Prefix),
      streamChunk f rib.unicast w (chunk, false) =
        runUntil (emit f) w (chunk.filterMap (fetchLive rib.unicast)) := by
    intro w chunk
    rw [streamChunk]
    split
    next w' stop heq => rw [heq]
    next w' heq => rw [heq]; rfl
  rw [streamPrefixRecords, map_zipIdx_fst (·, false), runUntil_map]
  simp only [hchunk]
  rw [← runUntil_map, runUntil_flatten, ← filterMap_flatten, flatten_toChunks]

/-! ## The iterator -/

/-- The key iterator yields the prefixes of the record iterator, each once, and a read of a prefix
returns the records that the iterator has for it. -/
structure WalksAgree (s : S) : Prop where
  keys : (prefixesKeysIter s).Perm ((prefixesIter s).map PrefixRecord.pfx)
  nodup : (prefixesKeysIter s).Nodup
  records : ∀ pr ∈ prefixesIter s, getRecordsForPrefix s pr.pfx none true = .ok (some pr.metaData)

theorem pfx_of_fetchLive {s : S} {p : Prefix} {pr : PrefixRecord RotondaPaMap}
    (h : fetchLive s p = some pr) : pr.pfx = p := by
  unfold fetchLive at h
  split at h
  next records _ =>
    simp only [livePrefix] at h
    split at h <;> cases h
    rfl
  · cases h
  · cases h

theorem filterMap_fetchLive_perm {rib : Rib S} (h : WalksAgree rib.unicast) :
    ((prefixesKeysIter rib.unicast).filterMap (fetchLive rib.unicast)).Perm
      rib.iterAllPrefixRecords := by
  have hfetch : ∀ pr ∈ prefixesIter rib.unicast,
      fetchLive rib.unicast pr.pfx = livePrefix pr.pfx pr.metaData := by
    intro pr hpr
    rw [fetchLive, h.records pr hpr]
  have hperm := h.keys.filterMap (fetchLive rib.unicast)
  rw [filterMap_map] at hperm
  rwa [iterAllPrefixRecords, ← filterMap_congr hfetch]

theorem nodup_filterMap_fetchLive {s : S} (h : (prefixesKeysIter s).Nodup) :
    (((prefixesKeysIter s).filterMap (fetchLive s)).map PrefixRecord.pfx).Nodup := by
  rw [map_filterMap]
  refine h.filterMap fun p q r hp hq => ?_
  obtain ⟨pr, hpr, rfl⟩ := Option.map_eq_some_iff.mp hp
  obtain ⟨pr', hpr', heq⟩ := Option.map_eq_some_iff.mp hq
  rw [← pfx_of_fetchLive hpr, ← heq, pfx_of_fetchLive hpr']

/-- A callback that takes everything. -/
def acceptAll (_ : Unit) (_ : PrefixRecord RotondaPaMap) : Unit × Bool := ((), true)

theorem not_false_mem_answers_acceptAll (calls : List (PrefixRecord RotondaPaMap)) :
    false ∉ answers acceptAll () calls := by
  induction calls with
  | nil => simp [answers]
  | cons pr calls ih => simpa [answers, acceptAll] using ih

/-- The calls of the walk with a callback that takes everything are the records of the iterator,
each prefix once; any other callback gets the first of them, up to the first it refuses; and the
calls are counted. -/
theorem streamPrefixRecords_heeds (rib : Rib S) (h : WalksAgree rib.unicast) (callback : σ) :
    let full := (rib.streamPrefixRecords acceptAll (fun _ => false) ()).calls
    let walked := rib.streamPrefixRecords f (fun _ => false) callback
    full.Perm rib.iterAllPrefixRecords ∧ (full.map PrefixRecord.pfx).Nodup ∧
      Heeds f callback full walked.calls ∧ walked.count = walked.calls.length := by
  intro full walked
  have hfull : full = (prefixesKeysIter rib.unicast).filterMap (fetchLive rib.unicast) := by
    obtain ⟨calls, hcalls, _, hheeds⟩ := runUntil_emit acceptAll ⟨(), 0, []⟩
      ((prefixesKeysIter rib.unicast).filterMap (fetchLive rib.unicast))
    rw [← streamPrefixRecords_eq] at hcalls
    exact hcalls.trans (hheeds.complete (not_false_mem_answers_acceptAll calls))
  obtain ⟨calls, hcalls, hcount, hheeds⟩ := runUntil_emit f ⟨callback, 0, []⟩
    ((prefixesKeysIter rib.unicast).filterMap (fetchLive rib.unicast))
  rw [← streamPrefixRecords_eq, nil_append] at hcalls
  rw [← streamPrefixRecords_eq, Nat.zero_add] at hcount
  rw [← hfull, ← hcalls] at hheeds
  refine ⟨?_, ?_, hheeds, by rw [hcount, hcalls]⟩
  · rw [hfull]
    exact filterMap_fetchLive_perm h
  · rw [hfull]
    exact nodup_filterMap_fetchLive h.nodup

/-! ### A store over a finite map -/

theorem walksAgree_mapStore (s : MapStore RotondaPaMap) : WalksAgree s where
  keys := by
    have hpfx : (prefixesIter s).map PrefixRecord.pfx = prefixesKeysIter s := by
      simp only [prefixesIter, prefixesKeysIter, MapStore.prefixRecords, map_map]
      exact map_id _
    rw [hpfx]
  nodup := nodup_dedup _
  records pr hpr := by
    obtain ⟨p, _, rfl⟩ := mem_map.mp hpr
    simp [getRecordsForPrefix]

/-- Two routes of ingress 1. -/
def twoRoutes : Rib (MapStore RotondaPaMap) :=
  ⟨(MapStore.tryDefault.insert (.slash8 10) ⟨1, 0, .active, .emptyPathAttributes⟩).insert
    (.slash8 11) ⟨1, 0, .active, .emptyPathAttributes⟩, .tryDefault, .new⟩

/-- A callback that refuses its first call gets one of the two. -/
theorem streamPrefixRecords_refused :
    let refuse : Unit → PrefixRecord RotondaPaMap → Unit × Bool := fun _ _ => ((), false)
    let full := (twoRoutes.streamPrefixRecords acceptAll (fun _ => false) ()).calls
    let walked := twoRoutes.streamPrefixRecords refuse (fun _ => false) ()
    full.Perm twoRoutes.iterAllPrefixRecords ∧ Heeds refuse () full walked.calls ∧
      walked.count = walked.calls.length ∧ full.length = 2 ∧ walked.count = 1 := by
  intro refuse full walked
  obtain ⟨hperm, _, hheeds, hcount⟩ :=
    streamPrefixRecords_heeds refuse twoRoutes (walksAgree_mapStore _) ()
  exact ⟨hperm, hheeds, hcount, rfl, rfl⟩

end Rib

end Rotonda
