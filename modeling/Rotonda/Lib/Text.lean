import Mathlib.Data.List.Basic

/-!
Texts as lists of characters, and their lines.

* `lines_unlines`: lines without a line break, each ended by one, are read back;
* `exists_split`: in a sorted list, what is in one piece;
* `Block`: a line, what follows it, and nothing of the kind elsewhere; `Block.mem_of_between`,
  `Block.head_or_mem` say what stands between and before the lines of a block.
-/

namespace Lib

open List

abbrev Text := List Char

namespace Text

/-! ## Lines -/

/-- The lines of a text; the last one may lack its line break. -/
def lines : Text → List Text
  | [] => []
  | c :: cs =>
    if c = '\n' then [] :: lines cs
    else match lines cs with
      | [] => [[c]]
      | l :: ls => (c :: l) :: ls

/-- Every line ended by a line break. -/
def unlines (ls : List Text) : Text := ls.flatMap (· ++ ['\n'])

theorem lines_append {l : Text} (h : '\n' ∉ l) (rest : Text) :
    lines (l ++ '\n' :: rest) = l :: lines rest := by
  induction l with
  | nil => simp [lines]
  | cons c cs ih =>
    have hc : c ≠ '\n' := by
      rintro rfl
      exact h mem_cons_self
    have hcs := ih fun hmem => h (mem_cons_of_mem c hmem)
    simp [lines, hc, hcs]

theorem lines_unlines {ls : List Text} (h : ∀ l ∈ ls, '\n' ∉ l) : lines (unlines ls) = ls := by
  induction ls with
  | nil => rfl
  | cons l ls ih =>
    have hrest := ih fun l' hl' => h l' (mem_cons_of_mem l hl')
    simp only [unlines, flatMap_cons, append_assoc, singleton_append] at hrest ⊢
    rw [lines_append (h l mem_cons_self), hrest]

theorem not_mem_of_mem_lines {t l : Text} (h : l ∈ lines t) : '\n' ∉ l := by
  induction t generalizing l with
  | nil => cases h
  | cons c cs ih =>
    rw [lines] at h
    by_cases hc : c = '\n'
    · rw [if_pos hc] at h
      rcases mem_cons.mp h with rfl | h
      · simp
      · exact ih h
    · rw [if_neg hc] at h
      cases hcs : lines cs with
      | nil =>
        rw [hcs] at h
        simp at h
        simp [h, Ne.symm hc]
      | cons l' ls =>
        rw [hcs] at h ih
        rcases mem_cons.mp h with rfl | h
        · simp [Ne.symm hc, ih mem_cons_self]
        · exact ih (mem_cons_of_mem _ h)

/-! ## Splitting at the last separator -/

/-- What stands after the last separator is determined by the text. -/
theorem append_cons_inj {α : Type} {a : α} {xs xs' ys ys' : List α} (hys : a ∉ ys) (hys' : a ∉ ys')
    (h : xs ++ a :: ys = xs' ++ a :: ys') : xs = xs' ∧ ys = ys' := by
  rcases append_eq_append_iff.mp h with ⟨zs, rfl, hzs⟩ | ⟨zs, rfl, hzs⟩
  · cases zs with
    | nil => simpa using hzs
    | cons z zs =>
      rw [cons_append, List.cons.injEq] at hzs
      exact absurd (by simp [hzs.2]) hys
  · cases zs with
    | nil => simpa using hzs.symm
    | cons z zs =>
      rw [cons_append, List.cons.injEq] at hzs
      exact absurd (by simp [hzs.2]) hys'

/-! ## Blocks -/

/-- In a sorted list, what is between any two that satisfy `P` satisfying it too, those that satisfy
it are in one piece. -/
theorem exists_split {α : Type} {r : α → α → Prop} {P : α → Prop} {xs : List α}
    (hsorted : xs.Pairwise r)
    (hbetween : ∀ x ∈ xs, ∀ y ∈ xs, ∀ z ∈ xs, r x y → r y z → P x → P z → P y) :
    ∃ pre mid post, xs = pre ++ (mid ++ post) ∧ (∀ x ∈ pre, ¬ P x) ∧ (∀ x ∈ mid, P x) ∧
      ∀ x ∈ post, ¬ P x := by
  induction xs with
  | nil => exact ⟨[], [], [], by simp⟩
  | cons x xs ih =>
    obtain ⟨hx, hsorted⟩ := pairwise_cons.mp hsorted
    obtain ⟨pre, mid, post, rfl, hpre, hmid, hpost⟩ := ih hsorted fun a ha b hb c hc =>
      hbetween a (mem_cons_of_mem _ ha) b (mem_cons_of_mem _ hb) c
        (mem_cons_of_mem _ hc)
    by_cases hPx : P x
    · cases mid with
      | nil =>
        refine ⟨[], [x], pre ++ post, by simp, by simp, by simpa using hPx, fun y hy => ?_⟩
        exact (mem_append.mp hy).elim (hpre y) (hpost y)
      | cons z mid =>
        cases pre with
        | nil =>
          refine ⟨[], x :: z :: mid, post, by simp, by simp, fun y hy => ?_, hpost⟩
          exact (mem_cons.mp hy).elim (fun h => h ▸ hPx) (hmid y)
        | cons y pre =>
          have hyz : r y z := (pairwise_cons.mp hsorted).1 z (by simp)
          have hPy := hbetween x (by simp) y (by simp) z (by simp) (hx y (by simp)) hyz hPx
            (hmid z (by simp))
          exact absurd hPy (hpre y (by simp))
    · refine ⟨x :: pre, mid, post, rfl, fun y hy => ?_, hmid, hpost⟩
      exact (mem_cons.mp hy).elim (fun h => h ▸ hPx) (hpre y)

/-- A line with what follows it, and nothing of the kind `S` outside of what follows it. -/
structure Block {α : Type} (S : α → Prop) (xs : List α) (header : α) (body : List α) : Prop where
  split : ∃ pre post, xs = pre ++ header :: (body ++ post) ∧ (∀ x ∈ pre, ¬ S x) ∧ ∀ x ∈ post, ¬ S x
  header : ¬ S header

namespace Block

variable {α : Type} {S : α → Prop} {xs us vs body : List α} {header x y z : α}

/-- After the header, up to a line of the kind, there are only lines of the block. -/
theorem mem_of_append_eq {post : List α} (hpost : ∀ x ∈ post, ¬ S x) (hz : z ∈ vs)
    (hSz : S z) (h : us ++ x :: vs = body ++ post) : x ∈ body := by
  rcases append_eq_append_iff.mp h with ⟨ws, rfl, hws⟩ | ⟨ws, _, hws⟩
  · cases ws with
    | nil =>
      rw [nil_append] at hws
      exact absurd hSz (hpost z (hws ▸ mem_cons_of_mem x hz))
    | cons w ws =>
      rw [cons_append, List.cons.injEq] at hws
      rw [hws.1]
      simp
  · exact absurd hSz (hpost z (by simp [hws, hz]))

theorem mem_of_between (h : Block S xs header body) (hxs : xs = us ++ x :: vs) (hy : y ∈ us)
    (hSy : S y) (hz : z ∈ vs) (hSz : S z) : x ∈ body := by
  obtain ⟨pre, post, hsplit, hpre, hpost⟩ := h.split
  rw [hxs] at hsplit
  rcases append_eq_append_iff.mp hsplit with ⟨ws, rfl, _⟩ | ⟨ws, rfl, hws⟩
  · exact absurd hSy (hpre y (mem_append_left ws hy))
  · cases ws with
    | nil =>
      rw [append_nil] at hy
      exact absurd hSy (hpre y hy)
    | cons w ws =>
      rw [cons_append, List.cons.injEq] at hws
      exact mem_of_append_eq hpost hz hSz hws.2.symm

theorem head_or_mem (h : Block S xs header body) (hxs : xs = us ++ x :: z :: vs) (hSz : S z) :
    x = header ∨ x ∈ body := by
  obtain ⟨pre, post, hsplit, hpre, hpost⟩ := h.split
  rw [hxs] at hsplit
  rcases append_eq_append_iff.mp hsplit with ⟨ws, rfl, hws⟩ | ⟨ws, rfl, hws⟩
  · -- the line is before the header or is the header
    rcases ws with _ | ⟨w, _ | ⟨w', ws⟩⟩
    · exact .inl (List.cons.inj hws).1
    · simp only [cons_append, nil_append, List.cons.injEq] at hws
      exact absurd (hws.2.1 ▸ hSz) h.header
    · simp only [cons_append, List.cons.injEq] at hws
      exact absurd hSz (hpre z (by simp [hws.2.1]))
  · cases ws with
    | nil => exact .inl (List.cons.inj hws).1.symm
    | cons w ws =>
      rw [cons_append, List.cons.injEq] at hws
      exact .inr (mem_of_append_eq hpost mem_cons_self hSz hws.2.symm)

end Block

end Text

end Lib
