import Mathlib.Algebra.Ring.Nat
import Mathlib.Data.List.Nodup
import Mathlib.Data.List.Perm.Basic

/-!
Hash maps as their observable content: a partial function, and, where a program iterates over a
map, the order of that iteration as an argument.  The standard library leaves the order open and
may change it between any two iterations, so a result that holds for every `IterOrder` holds for
the program.

* `get_insert`, `get_erase`, `get_map`, `of_get_insert`, `of_get_erase`: reading after writing;
* `find_eq_some`, `find_eq_none`: the first entry that a test accepts;
* `mem_select`: all entries that a test accepts; `sum_select_eq`: a sum over them;
* `flat_perm`, `flat_erase`, `flat_insert`: what the entries of a map hold, in any order.
-/

namespace Lib

open List Option

def Dict (K V : Type) := K → Option V

namespace Dict

variable {K V : Type}
variable {p : K → V → Bool}

def empty : Dict K V := fun _ => none

def get (m : Dict K V) (k : K) : Option V := m k

@[simp] theorem get_empty (k : K) : (empty : Dict K V).get k = none := rfl

variable {m : Dict K V} {k : K} {v : V}

section Update

variable [DecidableEq K]

def insert (m : Dict K V) (k : K) (v : V) : Dict K V :=
  fun k' => if k' = k then some v else m.get k'

def erase (m : Dict K V) (k : K) : Dict K V := fun k' => if k' = k then none else m.get k'

theorem get_insert (m : Dict K V) (k : K) (v : V) (k' : K) :
    (m.insert k v).get k' = if k' = k then some v else m.get k' := rfl

theorem get_erase (m : Dict K V) (k k' : K) :
    (m.erase k).get k' = if k' = k then none else m.get k' := rfl

@[simp] theorem get_insert_self (m : Dict K V) (k : K) (v : V) : (m.insert k v).get k = some v := by
  simp [get_insert]

theorem get_insert_of_ne {k' : K} (v : V) (h : k' ≠ k) : (m.insert k v).get k' = m.get k' := by
  rw [get_insert, if_neg h]

theorem get_erase_of_ne {k' : K} (h : k' ≠ k) : (m.erase k).get k' = m.get k' := by
  rw [get_erase, if_neg h]

theorem of_get_insert {k' : K} {v' : V} (h : (m.insert k v).get k' = some v') :
    k' = k ∧ v' = v ∨ k' ≠ k ∧ m.get k' = some v' := by
  rw [get_insert] at h
  split at h
  next heq => exact .inl ⟨heq, (Option.some.inj h).symm⟩
  next hne => exact .inr ⟨hne, h⟩

theorem of_get_erase {k' : K} {v' : V} (h : (m.erase k).get k' = some v') :
    k' ≠ k ∧ m.get k' = some v' := by
  rw [get_erase] at h
  split at h
  · cases h
  next hne => exact ⟨hne, h⟩

theorem insert_insert (m : Dict K V) (k : K) (v v' : V) :
    (m.insert k v).insert k v' = m.insert k v' := by
  funext k'
  change ((m.insert k v).insert k v').get k' = (m.insert k v').get k'
  simp only [get_insert]
  split <;> rfl

theorem insert_of_get (h : m.get k = some v) : m.insert k v = m := by
  funext k'
  change (m.insert k v).get k' = m.get k'
  rw [get_insert]
  split
  next heq => rw [heq, h]
  · rfl

theorem get_foldl_erase (es : List (K × V)) (m : Dict K V) (k : K) :
    (es.foldl (fun m e => m.erase e.1) m).get k =
      if k ∈ es.map Prod.fst then none else m.get k := by
  induction es generalizing m with
  | nil => simp
  | cons e es ih =>
    rw [foldl_cons, ih, get_erase, map_cons]
    by_cases hk : k = e.1
    · rw [if_pos hk, if_pos (mem_cons.mpr (.inl hk)), ite_self]
    · rw [if_neg hk]
      exact if_congr (by rw [mem_cons, or_iff_right hk]) rfl rfl

end Update

/-! ## Values -/

/-- Apply a function to every value. -/
def map {W : Type} (m : Dict K V) (f : V → W) : Dict K W := fun k => (m.get k).map f

section Values

variable {W : Type}

@[simp] theorem get_map (m : Dict K V) (f : V → W) (k : K) :
    (m.map f).get k = (m.get k).map f := rfl

@[simp] theorem map_empty (f : V → W) : (empty : Dict K V).map f = empty := rfl

theorem map_insert [DecidableEq K] (m : Dict K V) (f : V → W) (k : K) (v : V) :
    (m.insert k v).map f = (m.map f).insert k (f v) := by
  funext k'
  change ((m.insert k v).get k').map f = ((m.map f).insert k (f v)).get k'
  rw [get_insert, get_insert, get_map]
  split <;> rfl

end Values

/-! ## Iteration -/

def IterOrder (m : Dict K V) (order : List K) : Prop :=
  order.Nodup ∧ ∀ k, k ∈ order ↔ (m.get k).isSome

/-- The order runs through all entries, each once; keys without an entry do no harm. -/
def Covers (m : Dict K V) (order : List K) : Prop :=
  order.Nodup ∧ ∀ k, (m.get k).isSome → k ∈ order

variable {order : List K}

theorem IterOrder.covers (h : m.IterOrder order) : m.Covers order :=
  ⟨h.1, fun k hk => (h.2 k).mpr hk⟩

/-- The entry under a key, if the test accepts it. -/
def entry (m : Dict K V) (p : K → V → Bool) (k : K) : Option (K × V) :=
  (m.get k).bind fun v => if p k v then some (k, v) else none

/-- The first entry, in iteration order, that the test accepts. -/
def find (m : Dict K V) (order : List K) (p : K → V → Bool) : Option (K × V) :=
  order.findSome? (m.entry p)

/-- The entries, in iteration order, that the test accepts. -/
def select (m : Dict K V) (order : List K) (p : K → V → Bool) : List (K × V) :=
  order.filterMap (m.entry p)

theorem entry_eq_some {e : K × V} :
    m.entry p k = some e ↔ e.1 = k ∧ m.get k = some e.2 ∧ p k e.2 = true := by
  rw [entry, bind_eq_some_iff]
  constructor
  · rintro ⟨v, hv, h⟩
    split at h
    next hp => cases h; exact ⟨rfl, hv, hp⟩
    · cases h
  · rintro ⟨rfl, hv, hp⟩
    exact ⟨e.2, hv, by rw [if_pos hp]⟩

theorem find_eq_some
    (h : m.find order p = some (k, v)) : k ∈ order ∧ m.get k = some v ∧ p k v = true := by
  obtain ⟨k', hk', h⟩ := exists_of_findSome?_eq_some h
  obtain ⟨rfl, hv, hp⟩ := entry_eq_some.mp h
  exact ⟨hk', hv, hp⟩

theorem find_eq_none (horder : m.IterOrder order) :
    m.find order p = none ↔ ∀ k v, m.get k = some v → p k v = false := by
  rw [find, List.findSome?_eq_none_iff]
  constructor
  · intro h k v hv
    have hk := h k ((horder.2 k).mpr (by rw [hv]; rfl))
    by_contra hp
    simp [entry, hv, hp] at hk
  · intro h k _
    rw [entry]
    cases hv : m.get k with
    | none => rfl
    | some v => simp [h k v hv]

theorem mem_select :
    (k, v) ∈ m.select order p ↔ k ∈ order ∧ m.get k = some v ∧ p k v = true := by
  rw [select, mem_filterMap]
  constructor
  · rintro ⟨k', hk', h⟩
    obtain ⟨rfl, hv, hp⟩ := entry_eq_some.mp h
    exact ⟨hk', hv, hp⟩
  · rintro ⟨hk, hv, hp⟩
    exact ⟨k, hk, entry_eq_some.mpr ⟨rfl, hv, hp⟩⟩

theorem mem_select_of_covers (horder : m.Covers order) :
    (k, v) ∈ m.select order p ↔ m.get k = some v ∧ p k v = true := by
  rw [mem_select, and_iff_right_iff_imp]
  rintro ⟨hv, _⟩
  exact horder.2 k (by rw [hv]; rfl)

theorem nodup_select (h : order.Nodup) (p : K → V → Bool) :
    ((m.select order p).map Prod.fst).Nodup := by
  rw [select, map_filterMap]
  refine List.Nodup.filterMap (fun k k' key hk hk' => ?_) h
  obtain ⟨e, he, rfl⟩ := map_eq_some_iff.mp hk
  obtain ⟨e', he', heq⟩ := map_eq_some_iff.mp hk'
  rw [← (entry_eq_some.mp he).1, ← (entry_eq_some.mp he').1, heq]

theorem select_map {W : Type} (m : Dict K V) (f : V → W) (order : List K) :
    ((m.map f).select order fun _ _ => true) =
      (m.select order fun _ _ => true).map fun e => (e.1, f e.2) := by
  rw [select, select, map_filterMap]
  congr 1
  funext k
  cases hk : m.get k <;> simp [entry, hk]

/-- The order of iteration does not matter for what is selected. -/
theorem select_perm {order' : List K} (h : m.Covers order)
    (h' : m.Covers order') (p : K → V → Bool) : (m.select order p).Perm (m.select order' p) := by
  refine (perm_ext_iff_of_nodup (nodup_select h.1 p).of_map (nodup_select h'.1 p).of_map).mpr ?_
  rintro ⟨k, v⟩
  rw [mem_select_of_covers h, mem_select_of_covers h']

/-- An iteration that adds up the numbers under one key. -/
theorem sum_select_eq [DecidableEq K] {m : Dict K Nat} (h : m.IterOrder order)
    (k : K) : ((m.select order fun _ _ => true).map fun e => if k = e.1 then e.2 else 0).sum =
      (m.get k).getD 0 := by
  have hgen : ∀ order : List K, order.Nodup →
      ((m.select order fun _ _ => true).map fun e => if k = e.1 then e.2 else 0).sum =
        if k ∈ order then (m.get k).getD 0 else 0 := by
    intro order hnodup
    induction order with
    | nil => rfl
    | cons k' order ih =>
      obtain ⟨hnot, hnodup⟩ := nodup_cons.mp hnodup
      have hrest := ih hnodup
      by_cases hk : k = k'
      · subst hk
        rw [if_neg hnot] at hrest
        cases hget : m.get k <;> simp_all [select, entry]
      · cases hget : m.get k' <;> simp_all [select, entry]
  rw [hgen order h.1]
  by_cases hk : k ∈ order
  · rw [if_pos hk]
  · rw [if_neg hk]
    cases hget : m.get k with
    | none => rfl
    | some n => exact absurd ((h.2 k).mpr (by rw [hget]; rfl)) hk

/-! ## Contents -/

/-- What the entries hold, in iteration order. -/
def flat {α : Type} (m : Dict K V) (f : K → V → List α) (order : List K) : List α :=
  order.flatMap fun k => (m.get k).elim [] (f k)

section Contents

variable {α : Type} {m : Dict K V} {f : K → V → List α} {order order' : List K} {k : K} {v : V}

theorem iterOrder_empty : (empty : Dict K V).IterOrder [] := by
  simp [IterOrder]

theorem IterOrder.perm (h : m.IterOrder order) (h' : m.IterOrder order') : order.Perm order' :=
  (perm_ext_iff_of_nodup h.1 h'.1).mpr fun k => (h.2 k).trans (h'.2 k).symm

theorem flat_perm (h : m.IterOrder order) (h' : m.IterOrder order') :
    (m.flat f order).Perm (m.flat f order') :=
  (h.perm h').flatMap_right _

theorem flat_congr_elim {m' : Dict K V}
    (h : ∀ k ∈ order, (m.get k).elim [] (f k) = (m'.get k).elim [] (f k)) :
    m.flat f order = m'.flat f order := by
  unfold flat
  rw [flatMap_def, flatMap_def]
  congr 1
  exact map_congr_left fun k hk => h k hk

theorem flat_congr_right {g : K → V → List α} (h : ∀ k v, m.get k = some v → f k v = g k v) :
    m.flat f order = m.flat g order := by
  unfold flat
  congr 1
  funext k
  cases hk : m.get k with
  | none => rfl
  | some v => exact h k v hk

theorem flat_congr {m' : Dict K V} (h : ∀ k ∈ order, m.get k = m'.get k) :
    m.flat f order = m'.flat f order :=
  flat_congr_elim fun k hk => by rw [h k hk]

theorem flat_eq_select (m : Dict K V) (f : K → V → List α) (order : List K) :
    m.flat f order = (m.select order fun _ _ => true).flatMap fun e => f e.1 e.2 := by
  induction order with
  | nil => rfl
  | cons k order ih =>
    rw [flat, flatMap_cons, ← flat, ih]
    cases hk : m.get k <;> simp [entry, hk, select]

/-- All entries, by any order that covers them. -/
theorem flat_perm_select (h : m.IterOrder order) (h' : m.Covers order') :
    (m.flat f order).Perm ((m.select order' fun _ _ => true).flatMap fun e => f e.1 e.2) := by
  rw [flat_eq_select]
  exact (select_perm h.covers h' _).flatMap_right _

variable [DecidableEq K]

section

variable (h : m.IterOrder order)
include h

theorem IterOrder.erase (k : K) : (m.erase k).IterOrder (order.erase k) := by
  refine ⟨h.1.erase k, fun k' => ?_⟩
  rw [h.1.mem_erase_iff, h.2 k', get_erase]
  by_cases hk : k' = k <;> simp [hk]

theorem IterOrder.insert (hk : m.get k = none) (v : V) : (m.insert k v).IterOrder (k :: order) := by
  refine ⟨nodup_cons.mpr ⟨?_, h.1⟩, fun k' => ?_⟩
  · rw [h.2 k, hk]
    simp
  · rw [mem_cons, h.2 k', get_insert]
    by_cases hk' : k' = k <;> simp [hk']

theorem flat_erase (hk : m.get k = some v) :
    (m.flat f order).Perm (f k v ++ (m.erase k).flat f (order.erase k)) := by
  have hmem : k ∈ order := (h.2 k).mpr (by simp [hk])
  have hcongr : m.flat f (order.erase k) = (m.erase k).flat f (order.erase k) := by
    refine flat_congr fun k' hk' => ?_
    rw [get_erase, if_neg ((h.1.mem_erase_iff).mp hk').1]
  have hperm : (m.flat f order).Perm (m.flat f (k :: order.erase k)) :=
    (perm_cons_erase hmem).flatMap_right _
  rw [← hcongr]
  simpa [flat, hk] using hperm

/-- Entries that are taken out one after the other. -/
theorem flat_foldl_erase {es : List (K × V)} (hes : ∀ e ∈ es, m.get e.1 = some e.2)
    (hnodup : (es.map Prod.fst).Nodup) :
    ∃ order', (es.foldl (fun m e => m.erase e.1) m).IterOrder order' ∧
      (m.flat f order).Perm ((es.flatMap fun e => f e.1 e.2) ++
        (es.foldl (fun m e => m.erase e.1) m).flat f order') := by
  induction es generalizing m order with
  | nil => exact ⟨order, h, .refl _⟩
  | cons e es ih =>
    obtain ⟨hnot, hnodup⟩ := nodup_cons.mp hnodup
    have hrest : ∀ e' ∈ es, (m.erase e.1).get e'.1 = some e'.2 := by
      intro e' he'
      rw [get_erase, if_neg]
      · exact hes e' (mem_cons_of_mem _ he')
      · intro heq
        exact hnot (heq ▸ mem_map_of_mem he')
    obtain ⟨order', horder', hperm⟩ := ih (h.erase e.1) hrest hnodup
    refine ⟨order', horder', (flat_erase h (hes e mem_cons_self)).trans ?_⟩
    rw [flatMap_cons, append_assoc]
    exact hperm.append_left _

theorem flat_insert (hk : m.get k = none) :
    (m.insert k v).flat f (k :: order) = f k v ++ m.flat f order := by
  have hcongr : (m.insert k v).flat f order = m.flat f order := by
    refine flat_congr fun k' hk' => get_insert_of_ne v ?_
    rintro rfl
    rw [h.2 k', hk] at hk'
    cases hk'
  rw [← hcongr]
  simp [flat]

end

end Contents

end Dict

end Lib
