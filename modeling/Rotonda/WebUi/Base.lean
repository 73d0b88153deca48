import Mathlib.Data.List.Basic
import Rotonda.Net

/-!
Pages of the web interface.

The entries of the extended next hop capability that one side or both sides have are found with one
iterator over the other side, which is not rewound: what one entry has skipped is gone for the next.

* `filterMut`: `filter` with a closure that moves an iterator;
* `ExtendedNextHops.difference_iff`: the three parts are the differences and the intersection exactly
  when the common entries come first and in the same order on both sides.
-/

namespace Rotonda.WebUi

/-- An entry: AFI, SAFI and AFI of the next hop, two octets each. -/
abbrev ExtendedNextHop := Bytes

/-- Both sides' capability values; the callers pass whole entries only. -/
structure ExtendedNextHops where
  localCap : Option Bytes
  remoteCap : Option Bytes
  whole : ∀ raw, localCap = some raw ∨ remoteCap = some raw → raw.length % 6 = 0

section Iterators

variable {α : Type} [DecidableEq α] {x : α} {xs ys rest : List α}

/-- `Iterator::all(|y| x != y)`: the answer and what is left of the iterator. -/
def allNe (x : α) : List α → Bool × List α
  | [] => (true, [])
  | y :: ys => if x = y then (false, ys) else allNe x ys

/-- `Iterator::any(|y| x == y)`. -/
def anyEq (x : α) : List α → Bool × List α
  | [] => (false, [])
  | y :: ys => if x = y then (true, ys) else anyEq x ys

/-- `filter` with a test that moves an iterator. -/
def filterMut (test : α → List α → Bool × List α) : List α → List α → List α
  | _, [] => []
  | ys, x :: xs =>
    let (keep, ys) := test x ys
    if keep then x :: filterMut test ys xs else filterMut test ys xs

/-- The common entries come first and in the order of the other side. -/
def InStep (xs ys : List α) : Prop :=
  (xs.takeWhile (· ∈ ys)).Sublist ys ∧ ∀ x ∈ xs.dropWhile (· ∈ ys), x ∉ ys

theorem anyEq_eq (x : α) (ys : List α) : anyEq x ys = (!(allNe x ys).1, (allNe x ys).2) := by
  induction ys with
  | nil => rfl
  | cons y ys ih => by_cases h : x = y <;> simp [anyEq, allNe, h, ih]

theorem allNe_cases (x : α) (ys : List α) : x ∉ ys ∧ allNe x ys = (true, []) ∨
    ∃ pre rest, x ∉ pre ∧ ys = pre ++ x :: rest ∧ allNe x ys = (false, rest) := by
  induction ys with
  | nil => simp [allNe]
  | cons y ys ih =>
    by_cases h : x = y
    · exact .inr ⟨[], ys, by simp, by simp [h], by simp [allNe, h]⟩
    · rcases ih with ⟨hx, heq⟩ | ⟨pre, rest, hpre, rfl, heq⟩
      · exact .inl (by simp [allNe, h, hx, heq])
      · exact .inr ⟨y :: pre, rest, by simp [h, hpre], rfl, by simp [allNe, h, heq]⟩

/-- Every entry is kept by one of the tests, by `anyEq` only if the other side has it and by `allNe`
in any case if it has not. -/
theorem mem_filterMut (x : α) (xs ys : List α) :
    (x ∈ filterMut allNe ys xs → x ∈ xs) ∧ (x ∈ filterMut anyEq ys xs → x ∈ xs ∧ x ∈ ys) ∧
      (x ∈ xs → x ∈ filterMut allNe ys xs ∨ x ∈ filterMut anyEq ys xs) := by
  induction xs generalizing ys with
  | nil => simp [filterMut]
  | cons y xs ih =>
    rcases allNe_cases y ys with ⟨hy, heq⟩ | ⟨pre, rest, hpre, rfl, heq⟩
    · have hnil := ih []
      simp only [filterMut, anyEq_eq, heq]
      grind
    · have hrest := ih rest
      simp only [filterMut, anyEq_eq, heq]
      grind

theorem filterMut_nil (xs : List α) : filterMut allNe [] xs = xs := by
  induction xs with
  | nil => rfl
  | cons x xs ih => simp [filterMut, allNe, ih]

omit [DecidableEq α] in
theorem cons_sublist_append_cons {zs : List α} (h : x ∉ ys) :
    (x :: zs).Sublist (ys ++ x :: rest) ↔ zs.Sublist rest := by
  induction ys with
  | nil => simp
  | cons y ys ih => simp_all [List.cons_sublist_cons']

/-- With what is left of the other side, no entry of it is kept exactly when its entries come first
and in its order. -/
theorem filterMut_allNe_iff (hrest : rest ⊆ ys) :
    (∀ x ∈ filterMut allNe rest xs, x ∉ ys) ↔
      (xs.takeWhile (· ∈ ys)).Sublist rest ∧ ∀ x ∈ xs.dropWhile (· ∈ ys), x ∉ ys := by
  induction xs generalizing rest with
  | nil => simp [filterMut]
  | cons x xs ih =>
    rcases allNe_cases x rest with ⟨hx, heq⟩ | ⟨pre, rest, hpre, rfl, heq⟩
    · by_cases hy : x ∈ ys
      · simp [filterMut, heq, hy]
        exact fun h => absurd (h.subset (by simp)) hx
      · simp [filterMut, heq, filterMut_nil, hy]
    · have hy : x ∈ ys := hrest (by simp)
      have hrest' : rest ⊆ ys := fun y hy => hrest (by simp [hy])
      simp [filterMut, heq, hy, cons_sublist_append_cons hpre, ih hrest']

end Iterators

namespace ExtendedNextHops

def iterFor : Bytes → List ExtendedNextHop
  | a :: b :: c :: d :: e :: f :: rest => [a, b, c, d, e, f] :: iterFor rest
  | _ => []

variable (enhs : ExtendedNextHops)

def localEntries : List ExtendedNextHop := enhs.localCap.elim [] iterFor
def remoteEntries : List ExtendedNextHop := enhs.remoteCap.elim [] iterFor
def onlyLocal : List ExtendedNextHop := filterMut allNe enhs.remoteEntries enhs.localEntries
def onlyRemote : List ExtendedNextHop := filterMut allNe enhs.localEntries enhs.remoteEntries
def both : List ExtendedNextHop := filterMut anyEq enhs.remoteEntries enhs.localEntries

theorem difference_iff :
    (∀ enh, (enh ∈ enhs.onlyLocal ↔ enh ∈ enhs.localEntries ∧ enh ∉ enhs.remoteEntries) ∧
      (enh ∈ enhs.onlyRemote ↔ enh ∈ enhs.remoteEntries ∧ enh ∉ enhs.localEntries) ∧
      (enh ∈ enhs.both ↔ enh ∈ enhs.localEntries ∧ enh ∈ enhs.remoteEntries)) ↔
      InStep enhs.localEntries enhs.remoteEntries ∧
        InStep enhs.remoteEntries enhs.localEntries := by
  rw [InStep, InStep, ← filterMut_allNe_iff (List.Subset.refl _),
    ← filterMut_allNe_iff (List.Subset.refl _), onlyLocal, onlyRemote, both]
  constructor
  · exact fun h => ⟨fun x hx => ((h x).1.mp hx).2, fun x hx => ((h x).2.1.mp hx).2⟩
  · rintro ⟨hlocal, hremote⟩ x
    have hx := mem_filterMut x enhs.localEntries enhs.remoteEntries
    have hy := mem_filterMut x enhs.remoteEntries enhs.localEntries
    grind

/-- The same two entries in another order. -/
def swapped : ExtendedNextHops where
  localCap := some [0, 1, 0, 1, 0, 2, 0, 1, 0, 2, 0, 2]
  remoteCap := some [0, 1, 0, 2, 0, 2, 0, 1, 0, 1, 0, 2]
  whole := by rintro raw (⟨⟨⟩⟩ | ⟨⟨⟩⟩) <;> rfl

theorem swapped_not_common :
    swapped.onlyLocal = [[0, 1, 0, 2, 0, 2]] ∧ [0, 1, 0, 2, 0, 2] ∈ swapped.remoteEntries ∧
      swapped.both = [[0, 1, 0, 1, 0, 2]] := by
  decide

end ExtendedNextHops

end Rotonda.WebUi
