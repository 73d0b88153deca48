import Mathlib.Data.List.Basic

/-!
Input that arrives in chunks of bytes, with errors in between.

A read takes what it asks for from as many chunks as that needs.  The first error ends it, and the
bytes that it had taken by then are gone.

* `readExact`: a read of a given number of bytes;
* `ErrorsAt`: a property of the bytes before each error;
* `readExact_of_clear`: a read with no error among its bytes takes the next bytes, however they were
  cut into chunks.
-/

namespace Lib.Chunks

open List

inductive Event (ε : Type) where
  | data (bs : List UInt8)
  | error (e : ε)

section

variable {ε : Type}
variable {s : List (Event ε)} {P : List UInt8 → Prop} {bs : List UInt8} {n : Nat}

/-- All bytes of the input, in their order. -/
def bytes : List (Event ε) → List UInt8
  | [] => []
  | .data bs :: s => bs ++ bytes s
  | .error _ :: s => bytes s

def errors : List (Event ε) → List ε
  | [] => []
  | .data _ :: s => errors s
  | .error e :: s => e :: errors s

theorem errors_append (s t : List (Event ε)) : errors (s ++ t) = errors s ++ errors t := by
  induction s with
  | nil => rfl
  | cons ev s ih =>
    cases ev with
    | data bs => exact ih
    | error e => exact congrArg (e :: ·) ih

/-- No chunk is empty: an empty one is how the end of the input shows. -/
def Proper (s : List (Event ε)) : Prop := .data [] ∉ s

/-- Every error comes after bytes with the property. -/
def ErrorsAt (P : List UInt8 → Prop) (s : List (Event ε)) : Prop :=
  ∀ pre e post, s = pre ++ .error e :: post → P (bytes pre)

/-- Fill a buffer of the given size. -/
def readExact (eof : ε) :
    Nat → List (Event ε) → Except (ε × List (Event ε)) (List UInt8 × List (Event ε))
  | 0, s => .ok ([], s)
  | _ + 1, [] => .error (eof, [])
  | _ + 1, .error e :: s => .error (e, s)
  | n + 1, .data bs :: s =>
    if bs = [] then .error (eof, s)
    else if n + 1 < bs.length then .ok (bs.take (n + 1), .data (bs.drop (n + 1)) :: s)
    else match readExact eof (n + 1 - bs.length) s with
      | .ok (more, s) => .ok (bs ++ more, s)
      | .error failure => .error failure

theorem Proper.tail {ev : Event ε} (h : Proper (ev :: s)) : Proper s :=
  fun hmem => h (mem_cons_of_mem _ hmem)

theorem ErrorsAt.data
    (h : ErrorsAt P (.data bs :: s)) : ErrorsAt (fun more => P (bs ++ more)) s := by
  intro pre e post hs
  have hpos := h (.data bs :: pre) e post (by rw [hs]; rfl)
  exact hpos

theorem ErrorsAt.error {e : ε} (h : ErrorsAt P (.error e :: s)) : P [] ∧ ErrorsAt P s := by
  refine ⟨h [] e s rfl, fun pre e' post hs => ?_⟩
  have hpos := h (.error e :: pre) e' post (by rw [hs]; rfl)
  exact hpos

theorem errorsAt_nil (P : List UInt8 → Prop) : ErrorsAt P ([] : List (Event ε)) :=
  fun pre e post hs => by cases pre <;> cases hs

theorem errorsAt_error {e : ε} (hP : P []) (h : ErrorsAt P s) : ErrorsAt P (.error e :: s) := by
  intro pre e' post hs
  cases pre with
  | nil => exact hP
  | cons ev pre =>
    cases hs
    exact h pre e' post rfl

theorem ErrorsAt.imp {Q : List UInt8 → Prop} (h : ErrorsAt P s)
    (hPQ : ∀ before, P before → Q before) : ErrorsAt Q s :=
  fun pre e post hs => hPQ _ (h pre e post hs)

theorem errors_eq_nil (h : ErrorsAt (fun _ => False) s) : errors s = [] := by
  induction s with
  | nil => rfl
  | cons ev s ih =>
    cases ev with
    | data bs => exact ih h.data
    | error e => exact h.error.1.elim

theorem errorsAt_data
    (h : ErrorsAt (fun more => P (bs ++ more)) s) : ErrorsAt P (.data bs :: s) := by
  intro pre e post hs
  cases pre with
  | nil => cases hs
  | cons ev pre =>
    cases hs
    exact h pre e post rfl

/-- What a read leaves of the input when there was no error among the bytes it took. -/
structure Took (n : Nat) (s rest : List (Event ε)) : Prop where
  bytes : bytes rest = (bytes s).drop n
  errors : errors rest = errors s
  proper : Proper rest
  errorsAt : ∀ P, ErrorsAt P s → ErrorsAt (fun more => P ((Chunks.bytes s).take n ++ more)) rest

theorem took_zero (h : Proper s) : Took 0 s s :=
  ⟨by simp, rfl, h, fun P hP => by simpa using hP⟩

theorem Took.trans {m : Nat} {s₁ s₂ s₃ : List (Event ε)} (h₁ : Took n s₁ s₂)
    (h₂ : Took m s₂ s₃) : Took (n + m) s₁ s₃ := by
  refine ⟨?_, h₂.errors.trans h₁.errors, h₂.proper, fun P hP => ?_⟩
  · rw [h₂.bytes, h₁.bytes, drop_drop]
  · have h := h₂.errorsAt _ (h₁.errorsAt P hP)
    simpa only [h₁.bytes, take_add, append_assoc] using h

/-- The read ends inside a chunk. -/
theorem took_split (hlong : n < bs.length)
    (hproper : Proper (.data bs :: s)) : Took n (.data bs :: s) (.data (bs.drop n) :: s) := by
  have htake : (bytes (.data bs :: s)).take n = bs.take n :=
    take_append_of_le_length (Nat.le_of_lt hlong)
  refine ⟨(drop_append_of_le_length (Nat.le_of_lt hlong)).symm, rfl, ?_, fun P hP => ?_⟩
  · intro hmem
    rcases mem_cons.mp hmem with heq | hin
    · have hdrop : bs.drop n = [] := (Event.data.inj heq).symm
      rw [drop_eq_nil_iff] at hdrop
      omega
    · exact hproper.tail hin
  · apply errorsAt_data
    intro pre e post hs
    have hpos := hP.data pre e post hs
    rwa [htake, ← append_assoc, take_append_drop]

/-- The read takes the whole chunk and goes on. -/
theorem Took.cons {rest : List (Event ε)} (hle : bs.length ≤ n)
    (h : Took (n - bs.length) s rest) : Took n (.data bs :: s) rest := by
  have htake : (Chunks.bytes (.data bs :: s)).take n =
      bs ++ (Chunks.bytes s).take (n - bs.length) := by
    rw [Chunks.bytes, take_append, take_of_length_le hle]
  refine ⟨?_, h.errors, h.proper, fun P hP => ?_⟩
  · rw [h.bytes, Chunks.bytes, drop_append, drop_eq_nil_of_le hle, nil_append]
  · intro pre e post hs
    have hpos := h.errorsAt _ hP.data pre e post hs
    rwa [htake, append_assoc]

theorem readExact_of_clear (eof : ε) (hproper : Proper s) (hlen : n ≤ (bytes s).length)
    (hclear : ErrorsAt (fun before => n ≤ before.length) s) :
    ∃ rest, readExact eof n s = .ok ((bytes s).take n, rest) ∧ Took n s rest := by
  induction s generalizing n with
  | nil =>
    obtain rfl : n = 0 := by simpa [bytes] using hlen
    exact ⟨[], rfl, took_zero hproper⟩
  | cons ev s ih =>
    cases n with
    | zero => exact ⟨ev :: s, by simp [readExact], took_zero hproper⟩
    | succ n =>
      cases ev with
      | error e =>
        have hpos := hclear.error.1
        simp at hpos
      | data bs =>
        have hne : bs ≠ [] := fun h => hproper (by rw [h]; exact mem_cons_self)
        by_cases hlong : n + 1 < bs.length
        · refine ⟨_, ?_, took_split hlong hproper⟩
          rw [readExact, if_neg hne, if_pos hlong, bytes, take_append_of_le_length (by omega)]
        · have hrest : n + 1 - bs.length ≤ (bytes s).length := by
            simp only [bytes, length_append] at hlen
            omega
          have hclear' : ErrorsAt (fun before => n + 1 - bs.length ≤ before.length) s := by
            intro pre e post hs
            have hpos := hclear.data pre e post hs
            simp only [length_append] at hpos
            omega
          obtain ⟨rest, hread, htook⟩ := ih hproper.tail hrest hclear'
          refine ⟨rest, ?_, htook.cons (by omega)⟩
          have hwhole : bs.take (n + 1) = bs := take_of_length_le (by omega)
          simp only [readExact, if_neg hne, if_neg hlong, hread, bytes, take_append, hwhole]

end

end Lib.Chunks
