import Mathlib.Algebra.Ring.Nat
import Mathlib.Data.List.Basic
import Mathlib.Data.List.Induction

/-!
Byte codecs: big-endian fields, fields of a given length, and sequences of items.

An encoder is a function to lists of bytes, and a reader takes an item off the front of a list.
Encoders truncate as the machine does, so a field reads back if its value fits.

* `readBe_be16`, `readBe_be32`, `readBe_be64`: a field reads back modulo its width;
* `splitExact_append`: a field of known length comes off the front;
* `many_flatMap`: a sequence of encoded items reads back;
* `flatMap_of_many`: what reads as a sequence of items is their encoding;
* `scan_of_many`: a lenient reader takes what a strict one takes;
* `flatMap_scan_append_unread`, `next_unread`: what a lenient reader takes and what it leaves over;
* `scan_flatMap_append`: a lenient reader takes encoded items and stops at what is not an item.
-/

namespace Lib.Bytes

open List Option

variable {bs : List UInt8}

def be16 (n : Nat) : List UInt8 := [UInt8.ofNat (n / 256), UInt8.ofNat n]

def be32 (n : Nat) : List UInt8 :=
  [UInt8.ofNat (n / 256 / 256 / 256), UInt8.ofNat (n / 256 / 256), UInt8.ofNat (n / 256),
    UInt8.ofNat n]

def be64 (n : Nat) : List UInt8 := be32 (n / 4294967296) ++ be32 n

def readBe (bs : List UInt8) : Nat := bs.foldl (fun acc b => acc * 256 + b.toNat) 0

variable (n : Nat)

@[simp] theorem length_be16 : (be16 n).length = 2 := rfl

@[simp] theorem length_be32 : (be32 n).length = 4 := rfl

@[simp] theorem length_be64 : (be64 n).length = 8 := rfl

theorem readBe_be16 : readBe (be16 n) = n % 65536 := by
  simp [readBe, be16]
  omega

theorem readBe_be32 : readBe (be32 n) = n % 4294967296 := by
  simp [readBe, be32]
  omega

theorem readBe_append (as bs : List UInt8) :
    readBe (as ++ bs) = readBe as * 256 ^ bs.length + readBe bs := by
  induction bs using List.reverseRecOn with
  | nil => simp [readBe]
  | append_singleton bs b ih =>
    have hsnoc (cs : List UInt8) : readBe (cs ++ [b]) = readBe cs * 256 + b.toNat := by
      simp [readBe]
    rw [← append_assoc, hsnoc, ih, hsnoc, length_append, length_singleton,
      Nat.pow_succ, Nat.add_mul, Nat.mul_assoc, Nat.add_assoc]

theorem readBe_be64 : readBe (be64 n) = n % 18446744073709551616 := by
  rw [be64, readBe_append, readBe_be32, readBe_be32, length_be32]
  omega

theorem be16_toNat (hi lo : UInt8) : be16 (hi.toNat * 256 + lo.toNat) = [hi, lo] := by
  have hlo := lo.toNat_lt
  have hhi := hi.toNat_lt
  have hdiv : (hi.toNat * 256 + lo.toNat) / 256 = hi.toNat := by omega
  have hmod : UInt8.ofNat (hi.toNat * 256 + lo.toNat) = lo := by
    apply UInt8.toNat_inj.mp
    rw [UInt8.toNat_ofNat']
    omega
  rw [be16, hdiv, hmod, UInt8.ofNat_toNat]

/-- The first `n` bytes and the rest. -/
def splitExact (n : Nat) (bs : List UInt8) : Option (List UInt8 × List UInt8) :=
  if n ≤ bs.length then some (bs.take n, bs.drop n) else none

theorem splitExact_append {n : Nat} {rest : List UInt8} (h : bs.length = n) :
    splitExact n (bs ++ rest) = some (bs, rest) := by
  subst h
  simp [splitExact]

theorem splitExact_eq_some {n : Nat} {a b : List UInt8} (h : splitExact n bs = some (a, b)) :
    bs = a ++ b ∧ a.length = n := by
  unfold splitExact at h
  split at h
  next hn =>
    cases h
    exact ⟨(take_append_drop n bs).symm, by rw [length_take]; omega⟩
  · cases h

/-! ## Sequences of items -/

section Many

variable {α : Type} (next : List UInt8 → Option (α × List UInt8))
variable {as : List α} {fuel : Nat} {P : α → Prop}

/-- Read items to the end; the fuel is a bound on their number. -/
def many : Nat → List UInt8 → Option (List α)
  | _, [] => some []
  | 0, _ :: _ => none
  | fuel + 1, b :: bs => (next (b :: bs)).bind fun (a, rest) => (many fuel rest).map (a :: ·)

/-- Read as many items as there are; what is left over is ignored. -/
def scan : Nat → List UInt8 → List α
  | 0, _ => []
  | fuel + 1, bs => match next bs with
    | none => []
    | some (a, rest) => a :: scan fuel rest

/-- What `scan` leaves over. -/
def unread : Nat → List UInt8 → List UInt8
  | 0, bs => bs
  | fuel + 1, bs => match next bs with
    | none => bs
    | some (_, rest) => unread fuel rest

/-- The reader undoes the encoder on the items, and items are not empty. -/
structure Reads (enc : α → List UInt8) (a : α) : Prop where
  nonempty : enc a ≠ []
  reads : ∀ rest, next (enc a ++ rest) = some (a, rest)

variable {next} {enc : α → List UInt8}

/-- Induction on what has been read. -/
@[elab_as_elim] theorem many_induction {motive : Nat → List UInt8 → List α → Prop}
    (nil : ∀ fuel, motive fuel [] [])
    (cons : ∀ fuel b bs a rest as, next (b :: bs) = some (a, rest) → motive fuel rest as →
      motive (fuel + 1) (b :: bs) (a :: as))
    (h : many next fuel bs = some as) : motive fuel bs as := by
  induction fuel generalizing bs as with
  | zero =>
    cases bs with
    | nil => cases h; exact nil 0
    | cons => cases h
  | succ fuel ih =>
    cases bs with
    | nil => cases h; exact nil _
    | cons b bs =>
      obtain ⟨⟨a, rest⟩, hread, h⟩ := bind_eq_some_iff.mp h
      obtain ⟨tail, htail, rfl⟩ := map_eq_some_iff.mp h
      exact cons fuel b bs a rest tail hread (ih htail)

theorem many_flatMap (h : ∀ a ∈ as, Reads next enc a)
    (hfuel : as.length ≤ fuel) : many next fuel (as.flatMap enc) = some as := by
  induction as generalizing fuel with
  | nil => cases fuel <;> rfl
  | cons a as ih =>
    have ha := h a mem_cons_self
    obtain ⟨fuel, rfl⟩ : ∃ n, fuel = n + 1 := ⟨fuel - 1, by simp at hfuel; omega⟩
    obtain ⟨b, bs, hb⟩ := exists_cons_of_ne_nil ha.nonempty
    have hread := ha.reads (as.flatMap enc)
    rw [hb, cons_append] at hread
    rw [flatMap_cons, hb, cons_append, many, hread]
    have htail : many next fuel (as.flatMap enc) = some as :=
      ih (fun a' ha' => h a' (mem_cons_of_mem _ ha')) (by simpa using hfuel)
    simp [htail]

theorem flatMap_of_many (hnext : ∀ bs a rest, next bs = some (a, rest) → bs = enc a ++ rest)
    (h : many next fuel bs = some as) : bs = as.flatMap enc := by
  refine many_induction (fun _ => rfl) (fun _ b bs a rest as hread ih => ?_) h
  rw [hnext _ _ _ hread, ih, flatMap_cons]

theorem length_le_flatMap (h : ∀ a ∈ as, Reads next enc a) :
    as.length ≤ (as.flatMap enc).length := by
  induction as with
  | nil => simp
  | cons a as ih =>
    have ha := (h a mem_cons_self).nonempty
    have hpos : 0 < (enc a).length := length_pos_iff.mpr ha
    have htail := ih fun a' ha' => h a' (mem_cons_of_mem _ ha')
    rw [length_cons, flatMap_cons, length_append]
    omega

theorem mem_many_of (hnext : ∀ bs a rest, next bs = some (a, rest) → P a)
    (h : many next fuel bs = some as) : ∀ a ∈ as, P a := by
  refine many_induction (by simp) (fun _ b bs a rest as hread ih a' ha' => ?_) h
  rcases mem_cons.mp ha' with rfl | ha'
  · exact hnext _ _ _ hread
  · exact ih a' ha'

theorem mem_scan_of (hnext : ∀ bs a rest, next bs = some (a, rest) → P a) (fuel : Nat)
    (bs : List UInt8) : ∀ a ∈ scan next fuel bs, P a := by
  induction fuel generalizing bs with
  | zero => simp [scan]
  | succ fuel ih =>
    intro a ha
    rw [scan] at ha
    split at ha
    · cases ha
    next a' rest hread =>
      rcases mem_cons.mp ha with rfl | ha
      · exact hnext bs _ rest hread
      · exact ih rest a ha

/-- A lenient reader takes what a strict one takes. -/
theorem scan_of_many (hnil : next [] = none)
    (h : many next fuel bs = some as) : scan next fuel bs = as := by
  refine many_induction (fun fuel => ?_) (fun _ b bs a rest as hread ih => ?_) h
  · cases fuel <;> simp [scan, hnil]
  · simp only [scan, hread, ih]

/-- Two readers that agree on the items that were read. -/
theorem many_congr {next' : List UInt8 → Option (α × List UInt8)}
    (hnext : ∀ bs a rest, next bs = some (a, rest) → P a → next' bs = some (a, rest))
    (h : many next fuel bs = some as) (hP : ∀ a ∈ as, P a) : many next' fuel bs = some as := by
  revert hP
  refine many_induction (fun fuel _ => ?_) (fun _ b bs a rest as hread ih hP => ?_) h
  · cases fuel <;> rfl
  · have hread' := hnext _ _ _ hread (hP a mem_cons_self)
    have htail' := ih fun a' ha' => hP a' (mem_cons_of_mem _ ha')
    simp only [many, hread', bind_some, htail', map_some]

/-- The items that were read take up all bytes. -/
theorem length_of_many {size : α → Nat}
    (hnext : ∀ bs a rest, next bs = some (a, rest) → bs.length = size a + rest.length)
    (h : many next fuel bs = some as) : bs.length = (as.map size).sum := by
  refine many_induction (fun _ => rfl) (fun _ b bs a rest as hread ih => ?_) h
  rw [hnext _ _ _ hread, ih, map_cons, sum_cons]

/-! ### What is left over -/

theorem flatMap_scan_append_unread
    (hnext : ∀ bs a rest, next bs = some (a, rest) → bs = enc a ++ rest) (fuel : Nat)
    (bs : List UInt8) : (scan next fuel bs).flatMap enc ++ unread next fuel bs = bs := by
  induction fuel generalizing bs with
  | zero => rfl
  | succ fuel ih =>
    rw [scan, unread]
    cases hread : next bs with
    | none => rfl
    | some item =>
      obtain ⟨a, rest⟩ := item
      simp only
      rw [flatMap_cons, append_assoc, ih rest, hnext _ _ _ hread]

/-- With fuel for every byte, no item starts what is left over. -/
theorem next_unread (hnil : next [] = none)
    (hnext : ∀ bs a rest, next bs = some (a, rest) → rest.length < bs.length)
    (hfuel : bs.length ≤ fuel) : next (unread next fuel bs) = none := by
  induction fuel generalizing bs with
  | zero =>
    obtain rfl : bs = [] := length_eq_zero_iff.mp (by omega)
    exact hnil
  | succ fuel ih =>
    rw [unread]
    cases hread : next bs with
    | none => exact hread
    | some item =>
      obtain ⟨a, rest⟩ := item
      have hshort := hnext _ _ _ hread
      exact ih (by omega)

theorem scan_flatMap_append (h : ∀ a ∈ as, Reads next enc a) {tail : List UInt8}
    (htail : next tail = none) (hfuel : as.length ≤ fuel) :
    scan next fuel (as.flatMap enc ++ tail) = as := by
  induction as generalizing fuel with
  | nil =>
    cases fuel with
    | zero => rfl
    | succ fuel => simp only [flatMap_nil, nil_append, scan, htail]
  | cons a as ih =>
    obtain ⟨fuel, rfl⟩ : ∃ n, fuel = n + 1 := ⟨fuel - 1, by simp at hfuel; omega⟩
    have hread := (h a mem_cons_self).reads (as.flatMap enc ++ tail)
    have htake : scan next fuel (as.flatMap enc ++ tail) = as :=
      ih (fun a' ha' => h a' (mem_cons_of_mem _ ha')) (by simpa using hfuel)
    rw [flatMap_cons, append_assoc]
    simp only [scan, hread, htake]

end Many

end Lib.Bytes
