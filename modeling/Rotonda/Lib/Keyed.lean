import Mathlib.Data.List.Nodup

/-!
Loops over the entries of a map, in any order, where the step for an entry reads and writes only
what belongs to its key.

* `find`: the value under a key in a list of entries with distinct keys;
* `loop`: a step that may fail, for one entry after the other;
* `Acts`, `Local`: the step for a key, seen through a view of the state at that key, is an action on
  the view, and every other key keeps its view;
* `loop_eq_none_iff`, `loop_spec`: such a loop fails exactly when the action of some entry fails on
  the view before the loop, and otherwise it has acted once on every key of the list.
-/

namespace Lib.Keyed

open List

variable {K A : Type}

/-! ## Entries -/

variable {es : List (K × A)} {k : K}

section Entries

variable [DecidableEq K]

def find (es : List (K × A)) (k : K) : Option A :=
  (es.find? fun e => decide (e.1 = k)).map Prod.snd

theorem find_eq_some_iff (h : (es.map Prod.fst).Nodup) {a : A} :
    find es k = some a ↔ (k, a) ∈ es := by
  induction es with
  | nil => simp [find]
  | cons e es ih =>
    obtain ⟨hnot, hnodup⟩ := nodup_cons.mp h
    by_cases hk : e.1 = k
    · subst hk
      have hno : (e.1, a) ∉ es := fun hmem => hnot (mem_map.mpr ⟨_, hmem, rfl⟩)
      simp only [find, List.find?_cons, decide_true, Option.map_some, Option.some.injEq,
        mem_cons, hno, or_false]
      exact ⟨fun h => by rw [← h], fun h => by rw [← h]⟩
    · have hne : (k, a) ≠ e := fun heq => hk (by rw [← heq])
      have hfind : find (e :: es) k = find es k := by simp [find, hk]
      rw [hfind, ih hnodup, mem_cons, or_iff_right hne]

theorem find_eq_none_iff :
    find es k = none ↔ k ∉ es.map Prod.fst := by
  rw [find, Option.map_eq_none_iff, List.find?_eq_none]
  constructor
  · intro h hk
    obtain ⟨e, he, rfl⟩ := mem_map.mp hk
    exact h e he (decide_eq_true rfl)
  · intro h e he heq
    exact h (mem_map.mpr ⟨e, he, of_decide_eq_true heq⟩)

theorem find_isSome_iff :
    (find es k).isSome ↔ k ∈ es.map Prod.fst := by
  rw [← not_iff_not, ← find_eq_none_iff, Option.not_isSome_iff_eq_none]

end Entries

/-! ## Loops -/

variable {σ Φ : Type}

def loop (step : σ → K → A → Option σ) : σ → List (K × A) → Option σ
  | s, [] => some s
  | s, (k, a) :: es => (step s k a).bind fun t => loop step t es

/-- A step at a key ended as an action on the view at that key did, and left the other views. -/
inductive Acts (view : σ → K → Φ) (s : σ) (k : K) : Option σ → Option Φ → Prop where
  | fails : Acts view s k none none
  | done {t : σ} {v : Φ} (hview : view t k = v) (hother : ∀ k', k' ≠ k → view t k' = view s k') :
    Acts view s k (some t) (some v)

def Local (step : σ → K → A → Option σ) (view : σ → K → Φ) (act : A → Φ → Option Φ) : Prop :=
  ∀ s k a, Acts view s k (step s k a) (act a (view s k))

variable {step : σ → K → A → Option σ} {view : σ → K → Φ} {act : A → Φ → Option Φ} {s : σ}

theorem Acts.some_left {t : σ} {r : Option Φ} (h : Acts view s k (some t) r) :
    r = some (view t k) ∧ ∀ k', k' ≠ k → view t k' = view s k' := by
  cases h with
  | done hview hother => exact ⟨by rw [hview], hother⟩

/-- A step may be taken from a state that differs at its key only. -/
theorem Acts.of_other {s' : σ} {r : Option σ} {v : Option Φ} (h : Acts view s' k r v)
    (hs : ∀ k', k' ≠ k → view s' k' = view s k') : Acts view s k r v := by
  cases h with
  | fails => exact .fails
  | done hview hother => exact .done hview fun k' hk' => (hother k' hk').trans (hs k' hk')

/-- The views after a loop that did not fail. -/
theorem loop_spec (h : Local step view act) {t : σ}
    (hnodup : (es.map Prod.fst).Nodup) (ht : loop step s es = some t) :
    (∀ e ∈ es, act e.2 (view s e.1) = some (view t e.1)) ∧
      ∀ k, k ∉ es.map Prod.fst → view t k = view s k := by
  induction es generalizing s with
  | nil =>
    cases ht
    exact ⟨nofun, fun _ _ => rfl⟩
  | cons e es ih =>
    obtain ⟨k, a⟩ := e
    obtain ⟨hnot, hnodup⟩ := nodup_cons.mp hnodup
    obtain ⟨s', hs', ht⟩ := Option.bind_eq_some_iff.mp ht
    have hacts := h s k a
    rw [hs'] at hacts
    obtain ⟨hact, hother⟩ := hacts.some_left
    obtain ⟨hin, hout⟩ := ih hnodup ht
    constructor
    · intro e he
      rcases mem_cons.mp he with rfl | he
      · rw [hact, hout k hnot]
      · have hne : e.1 ≠ k := fun heq => hnot (heq ▸ mem_map.mpr ⟨e, he, rfl⟩)
        rw [← hother e.1 hne]
        exact hin e he
    · intro k' hk'
      rw [map_cons, mem_cons, not_or] at hk'
      rw [hout k' hk'.2, hother k' hk'.1]

/-- Whether a loop fails shows in the views before it. -/
theorem loop_eq_none_iff (h : Local step view act) (hnodup : (es.map Prod.fst).Nodup) :
    loop step s es = none ↔ ∃ e ∈ es, act e.2 (view s e.1) = none := by
  induction es generalizing s with
  | nil => simp [loop]
  | cons e es ih =>
    obtain ⟨k, a⟩ := e
    obtain ⟨hnot, hnodup⟩ := nodup_cons.mp hnodup
    have hacts := h s k a
    cases hs' : step s k a with
    | none =>
      rw [hs'] at hacts
      have hact : act a (view s k) = none := by
        cases hr : act a (view s k) with
        | none => rfl
        | some v =>
          rw [hr] at hacts
          cases hacts
      refine ⟨fun _ => ⟨_, mem_cons_self, hact⟩, fun _ => ?_⟩
      rw [loop, hs']
      rfl
    | some t =>
      rw [hs'] at hacts
      obtain ⟨hact, hother⟩ := hacts.some_left
      have hrest : ∀ e ∈ es, view t e.1 = view s e.1 := by
        intro e he
        exact hother e.1 fun heq => hnot (heq ▸ mem_map.mpr ⟨e, he, rfl⟩)
      rw [loop, hs', Option.bind_some, ih hnodup]
      constructor
      · rintro ⟨e, he, hnone⟩
        exact ⟨e, mem_cons_of_mem _ he, hrest e he ▸ hnone⟩
      · rintro ⟨e, he, hnone⟩
        rcases mem_cons.mp he with rfl | he
        · cases hact.symm.trans hnone
        · exact ⟨e, he, (hrest e he).symm ▸ hnone⟩

section Find

variable [DecidableEq K]

/-- What the loop does at a key. -/
def actAt (act : A → Φ → Option Φ) (es : List (K × A)) (k : K) (v : Φ) : Option Φ :=
  (find es k).elim (some v) fun a => act a v

theorem actAt_of_loop (h : Local step view act) {t : σ} (hnodup : (es.map Prod.fst).Nodup)
    (ht : loop step s es = some t) (k : K) : actAt act es k (view s k) = some (view t k) := by
  obtain ⟨hin, hout⟩ := loop_spec h hnodup ht
  rw [actAt]
  cases hk : find es k with
  | none => exact congrArg some (hout k (find_eq_none_iff.mp hk)).symm
  | some a => exact hin (k, a) ((find_eq_some_iff hnodup).mp hk)

theorem loop_fails_iff (h : Local step view act) (hnodup : (es.map Prod.fst).Nodup) :
    loop step s es = none ↔ ∃ k, actAt act es k (view s k) = none := by
  rw [loop_eq_none_iff h hnodup]
  constructor
  · rintro ⟨e, he, hnone⟩
    refine ⟨e.1, ?_⟩
    rw [actAt, (find_eq_some_iff hnodup).mpr he]
    exact hnone
  · rintro ⟨k, hk⟩
    rw [actAt] at hk
    cases ha : find es k with
    | none =>
      rw [ha] at hk
      cases hk
    | some a =>
      rw [ha] at hk
      exact ⟨(k, a), (find_eq_some_iff hnodup).mp ha, hk⟩

end Find

end Lib.Keyed
