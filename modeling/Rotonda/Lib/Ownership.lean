import Rotonda.Lib.Dict
import Mathlib.Logic.Function.Basic

/-!
Tasks on a shared state, and who of them owns what of it.

A task is a program of calls on the shared state (`Prog`), and other tasks may act between any two
of its calls.  An owner has claims on ids; a claim of a kind says something of the shared state
that no other owner may change.

* `Apart.step`: owners stay apart if the one that acts leaves the claims of the others alone;
* `Protocol.wp`: a program keeps to its claims at every call, whatever the others do in between;
* `Protocol.wp_bind`: the rule for composing programs;
* `Protocol.wp_next`: what one step of such a program does.
-/

namespace Lib.Ownership

open Function

/-! ## Owners -/

section Apart

variable {ι Id κ σ : Type} {Ok : κ → σ → Id → Prop} {own : ι → Dict Id κ} {ω ω' : Dict Id κ}
  {s s' : σ}

def Holds (Ok : κ → σ → Id → Prop) (ω : Dict Id κ) (s : σ) : Prop :=
  ∀ id k, ω.get id = some k → Ok k s id

/-- All claims hold, and no id has two owners. -/
structure Apart (Ok : κ → σ → Id → Prop) (own : ι → Dict Id κ) (s : σ) : Prop where
  holds (i : ι) : Holds Ok (own i) s
  disjoint {i j : ι} {id : Id} {k k' : κ} (hi : (own i).get id = some k)
    (hj : (own j).get id = some k') : i = j

/-- An owner that goes from the claims `ω` to `ω'` leaves everything alone that others may own. -/
def Spares (Ok : κ → σ → Id → Prop) (ω ω' : Dict Id κ) (s s' : σ) : Prop :=
  ∀ id, ω.get id = none → ∀ k, Ok k s id → Ok k s' id ∧ ω'.get id = none

theorem Apart.step [DecidableEq ι] (h : Apart Ok own s) (i : ι) (hholds : Holds Ok ω' s')
    (hothers : ∀ j, j ≠ i → ∀ id k, (own j).get id = some k → Ok k s' id ∧ ω'.get id = none) :
    Apart Ok (Function.update own i ω') s' where
  holds := by
    intro j
    by_cases hj : j = i
    · rw [hj, update_self]
      exact hholds
    · rw [update_of_ne hj]
      exact fun id k hk => (hothers j hj id k hk).1
  disjoint := by
    intro j j' id k k' hk hk'
    by_cases hj : j = i <;> by_cases hj' : j' = i
    · rw [hj, hj']
    · rw [hj, update_self] at hk
      rw [update_of_ne hj'] at hk'
      cases hk.symm.trans (hothers j' hj' id k' hk').2
    · rw [update_of_ne hj] at hk
      rw [hj', update_self] at hk'
      cases hk'.symm.trans (hothers j hj id k hk).2
    · rw [update_of_ne hj] at hk
      rw [update_of_ne hj'] at hk'
      exact h.disjoint hk hk'

/-- What another owner has is not mine. -/
theorem Apart.get_eq_none (h : Apart Ok own s) {i j : ι} (hij : j ≠ i) {id : Id} {k : κ}
    (hk : (own j).get id = some k) : (own i).get id = none := by
  cases hi : (own i).get id with
  | none => rfl
  | some k' => exact absurd (h.disjoint hk hi) hij

theorem Apart.step_of_spares [DecidableEq ι] (h : Apart Ok own s) (i : ι) (hholds : Holds Ok ω' s')
    (hspares : Spares Ok (own i) ω' s s') : Apart Ok (Function.update own i ω') s' :=
  h.step i hholds fun j hj id k hk =>
    hspares id (h.get_eq_none hj hk) k (h.holds j id k hk)

theorem Spares.refl (Ok : κ → σ → Id → Prop) (ω : Dict Id κ) (s : σ) : Spares Ok ω ω s s :=
  fun _ hid _ hk => ⟨hk, hid⟩

end Apart

/-! ## Programs -/

/-- A program of calls on a shared state.  In between it makes a new state of its own visible to
the others (`commit`). -/
inductive Prog (Op : Type) (Resp : Op → Type) (L α : Type) where
  | ret (a : α)
  | call (op : Op) (k : Resp op → Prog Op Resp L α)
  | commit (l : L) (p : Prog Op Resp L α)

namespace Prog

variable {Op : Type} {Resp : Op → Type} {L σ α β : Type}

def bind : Prog Op Resp L α → (α → Prog Op Resp L β) → Prog Op Resp L β
  | ret a, f => f a
  | call op k, f => call op fun r => (k r).bind f
  | commit l p, f => commit l (p.bind f)

instance : Monad (Prog Op Resp L) where
  pure := ret
  bind := bind

def perform (op : Op) : Prog Op Resp L (Resp op) := call op ret

def publish (l : L) : Prog Op Resp L Unit := commit l (ret ())

/-- The program for each element, in order. -/
def each (f : β → Prog Op Resp L Unit) : List β → Prog Op Resp L Unit
  | [] => ret ()
  | b :: bs => (f b).bind fun _ => each f bs

variable (handle : σ → (op : Op) → Resp op × σ)

/-- One step: a call, or a new visible state. -/
def next : Prog Op Resp L α → L → σ → Option (Prog Op Resp L α × L × σ)
  | ret _, _, _ => none
  | call op k, l, s => some (k (handle s op).1, l, (handle s op).2)
  | commit l p, _, s => some (p, l, s)

/-- Whatever its calls answer, every state that the program makes visible satisfies `I`, and its
result `Q`. -/
def Shows (I : L → Prop) (Q : α → Prop) : Prog Op Resp L α → Prop
  | ret a => Q a
  | call _ k => ∀ r, Shows I Q (k r)
  | commit l p => I l ∧ Shows I Q p

variable {I : L → Prop} {p : Prog Op Resp L α}

theorem Shows.bind {Q : α → Prop} {R : β → Prop} {f : α → Prog Op Resp L β} (h : p.Shows I Q)
    (hf : ∀ a, Q a → (f a).Shows I R) : (p.bind f).Shows I R := by
  induction p with
  | ret a => exact hf a h
  | call op k ih => exact fun r => ih r (h r)
  | commit l p ih => exact ⟨h.1, ih h.2⟩

theorem Shows.mono {Q R : α → Prop} (h : p.Shows I Q) (hQ : ∀ a, Q a → R a) : p.Shows I R := by
  induction p with
  | ret a => exact hQ a h
  | call op k ih => exact fun r => ih r (h r)
  | commit l p ih => exact ⟨h.1, ih h.2⟩

theorem shows_each {f : β → Prog Op Resp L Unit} (h : ∀ b, (f b).Shows I fun _ => True)
    (bs : List β) : (each f bs).Shows I fun _ => True := by
  induction bs with
  | nil => trivial
  | cons b bs ih => exact (h b).bind fun _ _ => ih

end Prog

/-! ## Programs that keep to their claims -/

/-- What the tasks agree on: how calls act, what a claim says, in which states calls are made, what
holds of the shared state at all times, what a call may do to it, how claims may change at a call,
and what the visible state of a task claims. -/
structure Protocol (Op : Type) (Resp : Op → Type) (L σ Id κ : Type) where
  handle : σ → (op : Op) → Resp op × σ
  Ok : κ → σ → Id → Prop
  Within : σ → Prop
  Inv : σ → Prop
  Guar : σ → σ → Prop
  Claims : σ → Dict Id κ → Dict Id κ → Prop
  Visible : L → Dict Id κ → Prop

namespace Protocol

variable {Op : Type} {Resp : Op → Type} {L σ Id κ α β : Type} (P : Protocol Op Resp L σ Id κ)

/-- From the visible state `l` and the claims `ω` the program keeps to its claims in all its calls,
and ends in `Q`. -/
def wp : Prog Op Resp L α → L → Dict Id κ → (α → L → Dict Id κ → Prop) → Prop
  | .ret a, l, ω, Q => Q a l ω
  | .call op k, l, ω, Q => ∀ s, P.Within s → P.Inv s → Holds P.Ok ω s →
    P.Inv (P.handle s op).2 ∧ P.Guar s (P.handle s op).2 ∧
      ∃ ω', Holds P.Ok ω' (P.handle s op).2 ∧ Spares P.Ok ω ω' s (P.handle s op).2 ∧
        P.Claims s ω ω' ∧ P.Visible l ω' ∧ wp (k (P.handle s op).1) l ω' Q
  | .commit l p, _, ω, Q => P.Visible l ω ∧ wp p l ω Q

variable {P} {p : Prog Op Resp L α} {l : L} {ω : Dict Id κ} {Q : α → L → Dict Id κ → Prop}

variable {R : β → L → Dict Id κ → Prop}

theorem wp_bind' {f : α → Prog Op Resp L β}
    (h : P.wp p l ω fun a l ω => P.wp (f a) l ω R) : P.wp (p.bind f) l ω R := by
  induction p generalizing l ω with
  | ret a => exact h
  | call op k ih =>
    intro s hs hinv hholds
    obtain ⟨hinv', hguar, ω', hholds', hspares, hclaims, hvis, hk⟩ := h s hs hinv hholds
    exact ⟨hinv', hguar, ω', hholds', hspares, hclaims, hvis, ih _ hk⟩
  | commit l' p ih => exact ⟨h.1, ih h.2⟩

theorem wp_bind {f : α → Prog Op Resp L β}
    (h : P.wp p l ω fun a l ω => P.wp (f a) l ω R) : P.wp (p >>= f) l ω R :=
  wp_bind' h

/-- The rule for one call. -/
theorem wp_perform {op : Op} {R : Resp op → L → Dict Id κ → Prop}
    (h : ∀ s, P.Within s → P.Inv s → Holds P.Ok ω s →
      P.Inv (P.handle s op).2 ∧ P.Guar s (P.handle s op).2 ∧ ∃ ω',
        Holds P.Ok ω' (P.handle s op).2 ∧ Spares P.Ok ω ω' s (P.handle s op).2 ∧
        P.Claims s ω ω' ∧ P.Visible l ω' ∧ R (P.handle s op).1 l ω') :
    P.wp (.perform op) l ω R := h

/-- One step of a program that keeps to its claims. -/
theorem wp_next (h : P.wp p l ω Q) {s s' : σ} {p' : Prog Op Resp L α} {l' : L}
    (hnext : p.next P.handle l s = some (p', l', s')) (hs : P.Within s) (hinv : P.Inv s)
    (hholds : Holds P.Ok ω s) (hrefl : P.Guar s s) (hsame : P.Claims s ω ω) :
    P.Inv s' ∧ P.Guar s s' ∧ ∃ ω', Holds P.Ok ω' s' ∧ Spares P.Ok ω ω' s s' ∧
      P.Claims s ω ω' ∧ P.Visible l' ω' ∧ P.wp p' l' ω' Q := by
  cases p with
  | ret a => cases hnext
  | call op k =>
    cases hnext
    exact h s hs hinv hholds
  | commit l₁ p =>
    cases hnext
    exact ⟨hinv, hrefl, ω, hholds, Spares.refl P.Ok ω s, hsame, h⟩

end Protocol

end Lib.Ownership
