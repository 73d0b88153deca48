import Mathlib.Data.List.Count

/-!
Cells that counted references share, with weak references to them.

A reference is a place in a list, empty once it is dropped.  Addresses are not used again, since
weak references to a cell may outlive it.

* `read_append`, `read_release`, `read_makeMut`: the operations act on what is read
  through the references as if nothing were shared;
* `Extends`: they write no cell that has weak references and revive none that is dead.
-/

namespace Lib

open List

structure Heap (V : Type) where
  cells : List V
  weaks : Nat → Nat
  refs : List (Option Nat)

namespace Heap

variable {V : Type} {m m' : Heap V} {a r r' : Nat} {v : V}

/-- The address behind a reference. -/
def addr (m : Heap V) (r : Nat) : Option Nat := m.refs[r]?.join

def read (m : Heap V) (r : Nat) : Option V := (m.addr r).bind fun a => m.cells[a]?

def strong (m : Heap V) (a : Nat) : Nat := m.refs.count (some a)

def alloc (m : Heap V) (v : V) : Heap V :=
  { m with cells := m.cells ++ [v], refs := m.refs ++ [some m.cells.length] }

/-- One more reference to a cell. -/
def share (m : Heap V) (a : Nat) : Heap V := { m with refs := m.refs ++ [some a] }

def release (m : Heap V) (r : Nat) : Heap V := { m with refs := m.refs.set r none }

/-- What a weak reference gives. -/
def upgrade (m : Heap V) (a : Nat) : Option V := if 0 < m.strong a then m.cells[a]? else none

def downgrade (m : Heap V) (a : Nat) : Heap V :=
  { m with weaks := fun b => if b = a then m.weaks b + 1 else m.weaks b }

def dropWeak (m : Heap V) (a : Nat) : Heap V :=
  { m with weaks := fun b => if b = a then m.weaks b - 1 else m.weaks b }

/-- Write through a reference: in place if it is the only one, and into a new cell otherwise.  If
only weak references remain, they are left behind with the old cell. -/
def makeMut (m : Heap V) (r : Nat) (f : V → V) : Heap V :=
  match m.addr r, m.read r with
  | some a, some v =>
    if m.strong a = 1 ∧ m.weaks a = 0 then { m with cells := m.cells.set a (f v) }
    else { m with cells := m.cells ++ [f v], refs := m.refs.set r (some m.cells.length) }
  | _, _ => m

/-- Some reference is to the cell. -/
def Live (m : Heap V) (a : Nat) : Prop := some a ∈ m.refs

def Valid (m : Heap V) : Prop := ∀ a, m.Live a → a < m.cells.length

theorem strong_pos : 0 < m.strong a ↔ m.Live a := count_pos_iff

theorem live_of_addr (h : m.addr r = some a) : m.Live a :=
  mem_of_getElem? (Option.join_eq_some_iff.mp h)

theorem addr_eq_none (hm : m.Valid) (h : m.read r = none) : m.addr r = none := by
  cases haddr : m.addr r with
  | none => rfl
  | some a =>
    rw [read, haddr, Option.bind_some, List.getElem?_eq_none_iff] at h
    exact absurd (hm a (live_of_addr haddr)) (Nat.not_lt.mpr h)

theorem addr_lt (h : m.addr r = some a) : r < m.refs.length :=
  (List.getElem?_eq_some_iff.mp (Option.join_eq_some_iff.mp h)).1

theorem upgrade_eq_some : m.upgrade a = some v ↔ m.Live a ∧ m.cells[a]? = some v := by
  rw [upgrade, ← strong_pos]
  split <;> simp [*]

theorem not_live_of_upgrade (hm : m.Valid) (h : m.upgrade a = none) : ¬m.Live a := by
  intro hlive
  rw [upgrade, if_pos (strong_pos.mpr hlive), List.getElem?_eq_none_iff] at h
  exact Nat.not_lt.mpr h (hm a hlive)

/-- A reference reads the same as long as it is to the same cell and the cell is the same. -/
theorem read_congr (hm : m.Valid) (haddr : m'.addr r = m.addr r)
    (hcells : ∀ a < m.cells.length, m.addr r = some a → m'.cells[a]? = m.cells[a]?) :
    m'.read r = m.read r := by
  rw [read, haddr, read]
  cases hr : m.addr r with
  | none => rfl
  | some a => exact hcells a (hm a (live_of_addr hr)) hr

/-! ## Operations -/

theorem join_append_singleton {α : Type} (xs : List (Option α)) (x : α) (r : Nat) :
    (xs ++ [some x])[r]?.join = if r = xs.length then some x else xs[r]?.join := by
  rw [List.getElem?_append, List.getElem?_singleton]
  by_cases hr : r < xs.length
  · rw [if_pos hr, if_neg (Nat.ne_of_lt hr)]
  · by_cases heq : r = xs.length
    · simp [heq]
    · have hne : r - xs.length ≠ 0 := by omega
      simp [hr, heq, hne]

theorem join_set_none {α : Type} (xs : List (Option α)) (r r' : Nat) :
    (xs.set r none)[r']?.join = if r' = r then none else xs[r']?.join := by
  rw [List.getElem?_set]
  by_cases hr : r = r'
  · rw [if_pos hr, if_pos hr.symm]
    split <;> rfl
  · rw [if_neg hr, if_neg (Ne.symm hr)]

theorem addr_append (hrefs : m'.refs = m.refs ++ [some a]) (r : Nat) :
    m'.addr r = if r = m.refs.length then some a else m.addr r := by
  rw [addr, hrefs, join_append_singleton, addr]

theorem read_append (hm : m.Valid) (hrefs : m'.refs = m.refs ++ [some a])
    (hcells : ∀ b < m.cells.length, m'.cells[b]? = m.cells[b]?) (r : Nat) :
    m'.read r = if r = m.refs.length then m'.cells[a]? else m.read r := by
  have haddr := addr_append hrefs r
  by_cases hr : r = m.refs.length
  · rw [if_pos hr] at haddr ⊢
    rw [read, haddr, Option.bind_some]
  · rw [if_neg hr] at haddr ⊢
    exact read_congr hm haddr fun b hb _ => hcells b hb

theorem addr_release (m : Heap V) (r r' : Nat) :
    (m.release r).addr r' = if r' = r then none else m.addr r' := join_set_none m.refs r r'

theorem read_release (m : Heap V) (r r' : Nat) :
    (m.release r).read r' = if r' = r then none else m.read r' := by
  rw [read, addr_release]
  split <;> rfl

/-- What a write does: nothing, if there is nothing to write to. -/
theorem makeMut_cases (hm : m.Valid) (r : Nat) (f : V → V) :
    m.addr r = none ∧ m.makeMut r f = m ∨ ∃ a v, m.addr r = some a ∧ m.cells[a]? = some v ∧
      (m.strong a = 1 ∧ m.weaks a = 0 ∧
          m.makeMut r f = { m with cells := m.cells.set a (f v) } ∨
        m.makeMut r f =
          { m with cells := m.cells ++ [f v], refs := m.refs.set r (some m.cells.length) }) := by
  cases haddr : m.addr r with
  | none => exact .inl ⟨rfl, by simp [makeMut, haddr]⟩
  | some a =>
    have hcell : m.cells[a]? = some _ := List.getElem?_eq_getElem (hm a (live_of_addr haddr))
    refine .inr ⟨a, _, rfl, hcell, ?_⟩
    by_cases honly : m.strong a = 1 ∧ m.weaks a = 0
    · exact .inl ⟨honly.1, honly.2, by simp [makeMut, read, haddr, hcell, honly]⟩
    · exact .inr (by simp [makeMut, read, haddr, hcell, honly])

theorem addr_makeMut (hm : m.Valid) (hne : r' ≠ r) (f : V → V) :
    (m.makeMut r f).addr r' = m.addr r' := by
  rcases makeMut_cases hm r f with ⟨_, heq⟩ | ⟨a, v, _, _, ⟨_, _, heq⟩ | heq⟩ <;> rw [heq]
  · rfl
  · rw [addr, List.getElem?_set_ne (Ne.symm hne), addr]

theorem length_makeMut (hm : m.Valid) (r : Nat) (f : V → V) :
    (m.makeMut r f).refs.length = m.refs.length := by
  rcases makeMut_cases hm r f with ⟨_, heq⟩ | ⟨a, v, _, _, ⟨_, _, heq⟩ | heq⟩ <;> simp [heq]

/-- The only reference to a cell is at one place. -/
theorem eq_of_strong (h : m.strong a = 1) (hr : m.addr r = some a)
    (hr' : m.addr r' = some a) : r' = r := by
  by_contra hne
  obtain ⟨hlt, hget⟩ := List.getElem?_eq_some_iff.mp (Option.join_eq_some_iff.mp hr)
  have hcount : (m.refs.set r none).count (some a) = 0 := by
    rw [strong] at h
    simp [count_set hlt, hget, h]
  have haddr : (m.release r).addr r' = some a := by rw [addr_release, if_neg hne, hr']
  exact count_eq_zero.mp hcount (live_of_addr haddr)

theorem read_makeMut (hm : m.Valid) (r : Nat) (f : V → V) (r' : Nat) :
    (m.makeMut r f).read r' = if r' = r then (m.read r).map f else m.read r' := by
  by_cases hr : r' = r
  · subst hr
    rw [if_pos rfl]
    rcases makeMut_cases hm r' f with ⟨hnone, heq⟩ | ⟨a, v, haddr, hcell, ⟨_, _, heq⟩ | heq⟩ <;>
      rw [heq]
    · rw [read, hnone]
      rfl
    · obtain ⟨hlt, hget⟩ := List.getElem?_eq_some_iff.mp hcell
      rw [read, read, haddr]
      simp [addr, Option.join_eq_some_iff.mp haddr, hlt, hget]
    · have hlt := addr_lt haddr
      rw [read, read, haddr]
      simp [addr, hlt, hcell]
  · rw [if_neg hr]
    refine read_congr hm (addr_makeMut hm hr f) fun b hb haddr' => ?_
    rcases makeMut_cases hm r f with ⟨_, heq⟩ | ⟨a, v, haddr, hcell, ⟨honly, _, heq⟩ | heq⟩ <;>
      rw [heq]
    · have hne : a ≠ b := by
        rintro rfl
        exact hr (eq_of_strong honly haddr haddr')
      exact List.getElem?_set_ne hne
    · exact List.getElem?_append_left hb

/-! ## Weak references -/

/-- No cell with weak references is written, and no dead one is revived. -/
structure Extends (m m' : Heap V) : Prop where
  weaks : m'.weaks = m.weaks
  grows : m.cells.length ≤ m'.cells.length
  live {a : Nat} (h : m'.Live a) : m.Live a ∨ m.cells.length ≤ a ∧ a < m'.cells.length
  same {a : Nat} (ha : a < m.cells.length) (hw : 0 < m.weaks a) : m'.cells[a]? = m.cells[a]?

theorem Extends.valid (h : Extends m m') (hm : m.Valid) : m'.Valid := fun a ha =>
  (h.live ha).elim (fun ha => Nat.lt_of_lt_of_le (hm a ha) h.grows) fun hnew => hnew.2

theorem extends_alloc (m : Heap V) (v : V) : Extends m (m.alloc v) := by
  refine ⟨rfl, by simp [alloc], fun {a} ha => ?_, fun ha _ => List.getElem?_append_left ha⟩
  rcases mem_append.mp ha with hmem | hmem
  · exact .inl hmem
  · cases mem_singleton.mp hmem
    simp [alloc]

theorem extends_share (h : m.Live a) : Extends m (m.share a) := by
  refine ⟨rfl, Nat.le_refl _, fun {b} hb => .inl ?_, fun _ _ => rfl⟩
  rcases mem_append.mp hb with hmem | hmem
  · exact hmem
  · cases mem_singleton.mp hmem
    exact h

theorem extends_release (m : Heap V) (r : Nat) : Extends m (m.release r) :=
  ⟨rfl, Nat.le_refl _, fun ha => .inl ((mem_or_eq_of_mem_set ha).resolve_right (by simp)),
    fun _ _ => rfl⟩

theorem extends_makeMut (hm : m.Valid) (r : Nat) (f : V → V) : Extends m (m.makeMut r f) := by
  rcases makeMut_cases hm r f with ⟨_, heq⟩ | ⟨a, v, _, _, ⟨_, hweak, heq⟩ | heq⟩ <;> rw [heq]
  · exact ⟨rfl, Nat.le_refl _, .inl, fun _ _ => rfl⟩
  · refine ⟨rfl, by simp, .inl, fun {b} _ hw => List.getElem?_set_ne ?_⟩
    rintro rfl
    exact absurd hweak (Nat.ne_of_gt hw)
  · refine ⟨rfl, by simp, fun {b} hb => ?_, fun ha _ => List.getElem?_append_left ha⟩
    rcases mem_or_eq_of_mem_set hb with hmem | heq
    · exact .inl hmem
    · cases heq
      exact .inr ⟨Nat.le_refl _, by simp⟩

end Heap

end Lib
