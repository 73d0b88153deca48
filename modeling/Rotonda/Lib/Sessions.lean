import Mathlib.Data.List.Induction

/-!
Streams that open, use and close sessions.

A stream is disciplined if every session is opened before it is used or closed, and is not opened
again before it is closed.

* `isOpen`: whether a session is open at the end of a stream;
* `disciplined_snoc`, `Disciplined.append_uses`: how a stream may grow.
-/

namespace Lib.Sessions

inductive Event (K : Type) where
  | opens (k : K)
  | uses (k : K)
  | closes (k : K)
  deriving DecidableEq

variable {K : Type} [DecidableEq K]

def after (k : K) (isOpen : Bool) : Event K → Bool
  | .opens k' => k = k' || isOpen
  | .uses _ => isOpen
  | .closes k' => k ≠ k' && isOpen

/-- Whether a session is open at the end of a stream. -/
def isOpen (es : List (Event K)) (k : K) : Bool := es.foldl (after k) false

/-- The event may come after the stream. -/
def Admissible (es : List (Event K)) : Event K → Prop
  | .opens k => isOpen es k = false
  | .uses k => isOpen es k = true
  | .closes k => isOpen es k = true

def Disciplined (es : List (Event K)) : Prop :=
  ∀ before e rest, es = before ++ e :: rest → Admissible before e

variable {es new : List (Event K)} {e : Event K} {k k' : K}

@[simp] theorem isOpen_nil (k : K) : isOpen [] k = false := rfl

theorem isOpen_snoc (es : List (Event K)) (e : Event K) (k : K) :
    isOpen (es ++ [e]) k = after k (isOpen es k) e := by
  simp [isOpen]

theorem disciplined_nil : Disciplined ([] : List (Event K)) := by
  intro before e rest h
  simp at h

theorem disciplined_snoc : Disciplined (es ++ [e]) ↔ Disciplined es ∧ Admissible es e := by
  constructor
  · intro h
    refine ⟨fun before e' rest heq => ?_, h es e [] rfl⟩
    exact h before e' (rest ++ [e]) (by simp [heq])
  · rintro ⟨hes, he⟩ before e' rest heq
    rcases List.eq_nil_or_concat rest with rfl | ⟨rest, e'', rfl⟩
    · obtain ⟨rfl, hlast⟩ := List.append_inj' heq rfl
      cases hlast
      exact he
    · rw [List.concat_eq_append, ← List.cons_append, ← List.append_assoc] at heq
      exact hes before e' rest (List.append_inj' heq rfl).1

/-- Uses of open sessions may follow, and change nothing. -/
theorem Disciplined.append_uses (h : Disciplined es)
    (hnew : ∀ e ∈ new, ∃ k, e = .uses k ∧ isOpen es k = true) :
    Disciplined (es ++ new) ∧ ∀ k, isOpen (es ++ new) k = isOpen es k := by
  induction new using List.reverseRecOn with
  | nil => simpa using h
  | append_singleton new e ih =>
    obtain ⟨hdisc, hsame⟩ := ih fun e he => hnew e (List.mem_append_left _ he)
    obtain ⟨k, rfl, hk⟩ := hnew e (by simp)
    rw [← List.append_assoc]
    refine ⟨disciplined_snoc.mpr ⟨hdisc, (hsame k).trans hk⟩, fun k' => ?_⟩
    rw [isOpen_snoc]
    exact hsame k'

end Lib.Sessions
