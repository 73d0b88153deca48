import Mathlib.Algebra.Ring.Nat
import Mathlib.Data.List.Basic

/-!
Addresses, prefixes and address families, as the RIB, the ingress register and the BMP builder
share them.

* an `IpAddr` carries the proof that it has the four or sixteen octets of its family;
* a `Prefix` carries the proof that its length fits the address and that its host bits are zero;
* `AfiSafiType` keeps the four families the RIB stores apart from all others.
-/

namespace Rotonda

abbrev Bytes := List UInt8

inductive Family where
  | v4
  | v6
  deriving DecidableEq, Repr

namespace Family

def octets : Family → Nat
  | v4 => 4
  | v6 => 16

def bits (f : Family) : Nat := 8 * f.octets

end Family

structure IpAddr where
  family : Family
  octets : Bytes
  length_eq : octets.length = family.octets
  deriving DecidableEq, Repr

/-- An address from its four octets, for concrete runs. -/
def IpAddr.v4 (a b c d : UInt8) : IpAddr := ⟨.v4, [a, b, c, d], rfl⟩

/-- No bit after the first `len` is set. -/
def hostBitsZero (octets : Bytes) (len : Nat) : Bool :=
  (octets.drop ((len + 7) / 8)).all (· == 0) &&
    (len % 8 == 0 || (octets.getD (len / 8) 0).toNat % 2 ^ (8 - len % 8) == 0)

structure Prefix where
  addr : IpAddr
  len : Nat
  len_le : len ≤ addr.family.bits
  host_zero : hostBitsZero addr.octets len = true
  deriving DecidableEq, Repr

namespace Prefix

def family (p : Prefix) : Family := p.addr.family

def isV4 (p : Prefix) : Bool := p.family = .v4

def significant (p : Prefix) : Bytes := p.addr.octets.take ((p.len + 7) / 8)

theorem significant_length (p : Prefix) : p.significant.length = (p.len + 7) / 8 := by
  have hlen := p.len_le
  have hoct := p.addr.length_eq
  have hbits : p.addr.family.bits = 8 * p.addr.octets.length := by rw [hoct]; rfl
  rw [significant, List.length_take]
  omega

theorem eq_replicate_of_all_zero {bs : Bytes} (h : bs.all (· == 0) = true) :
    bs = List.replicate bs.length 0 := by
  rw [List.eq_replicate_iff]
  refine ⟨rfl, fun b hb => ?_⟩
  simpa using List.all_eq_true.mp h b hb

theorem drop_eq_zeros (p : Prefix) :
    p.addr.octets.drop ((p.len + 7) / 8) =
      List.replicate (p.addr.family.octets - (p.len + 7) / 8) 0 := by
  have hzero := p.host_zero
  simp only [hostBitsZero, Bool.and_eq_true] at hzero
  have h := eq_replicate_of_all_zero hzero.1
  rwa [List.length_drop, p.addr.length_eq] at h

/-- The octets of the address, from those that hold the prefix's bits. -/
theorem octets_eq_significant (p : Prefix) :
    p.addr.octets =
      p.significant ++ List.replicate (p.addr.family.octets - (p.len + 7) / 8) 0 := by
  rw [← drop_eq_zeros, significant, List.take_append_drop]

/-- Family, length and significant octets determine a prefix. -/
theorem eq_of_significant {p q : Prefix} (hf : p.family = q.family) (hl : p.len = q.len)
    (hs : p.significant = q.significant) : p = q := by
  have hoct : p.addr.octets = q.addr.octets := by
    rw [octets_eq_significant p, octets_eq_significant q, hs, hl,
      show p.addr.family = q.addr.family from hf]
  cases p with
  | mk a len _ _ =>
  cases a with
  | mk fam oct _ =>
  cases q with
  | mk a' len' _ _ =>
  cases a' with
  | mk fam' oct' _ =>
  simp only [family] at hf
  simp only at hl hoct
  subst hf hl hoct
  rfl

/-- The IPv4 prefix with one significant octet, for concrete runs. -/
def slash8 (a : UInt8) : Prefix :=
  ⟨⟨.v4, [a, 0, 0, 0], rfl⟩, 8, (by decide : 8 ≤ Family.v4.bits), rfl⟩

end Prefix

inductive AfiSafiType where
  | ipv4Unicast
  | ipv6Unicast
  | ipv4Multicast
  | ipv6Multicast
  | other (afi : UInt16) (safi : UInt8)
  deriving DecidableEq, Repr

abbrev Asn := UInt32

end Rotonda
