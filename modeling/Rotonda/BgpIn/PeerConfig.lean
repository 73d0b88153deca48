import Rotonda.Query

/-!
The configured peers of a BGP unit: entries for exact addresses and for prefixes, in the order of
their keys.

A connection gets the first entry that contains its address.  Exact addresses come before prefixes,
and the order on prefixes, which is the library's, puts a covered prefix before a covering one.

* `PeerConfigs`: the entries, sorted by their keys;
* `covers_or_covers`: the prefixes that contain an address cover one another;
* `PeerConfigs.get_mostSpecific`: the first entry that contains an address is the most specific one.
-/

namespace Rotonda

open List

def IpAddr.bits (a : IpAddr) : List Bool := a.octets.flatMap Prefix.octetBits

def Prefix.contains (p : Prefix) (a : IpAddr) : Bool :=
  decide (p.family = a.family ∧ p.bits <+: a.bits)

/-- The order of addresses: IPv4 before IPv6, then by octets. -/
def IpAddr.lt (a b : IpAddr) : Bool :=
  match a.family, b.family with
  | .v4, .v6 => true
  | .v6, .v4 => false
  | _, _ => decide (a.octets < b.octets)

namespace BgpIn

variable {p q : Prefix} {a : IpAddr}

/-! ## Keys -/

inductive PrefixOrExact where
  | exact (a : IpAddr)
  | pfx (p : Prefix)
  deriving DecidableEq

def PrefixOrExact.contains : PrefixOrExact → IpAddr → Bool
  | exact a, addr => decide (a = addr)
  | pfx p, addr => p.contains addr

/-- The order that the library defines on prefixes. -/
structure PrefixOrder where
  lt : Prefix → Prefix → Bool
  irrefl : ∀ p, lt p p = false
  trans : ∀ p q r, lt p q = true → lt q r = true → lt p r = true

def PrefixOrder.CoveredFirst (ord : PrefixOrder) : Prop :=
  ∀ p q, q.Covers p → q.len < p.len → ord.lt p q = true

/-- The derived order of the keys. -/
def PrefixOrExact.lt (ord : PrefixOrder) : PrefixOrExact → PrefixOrExact → Bool
  | exact a, exact b => a.lt b
  | exact _, pfx _ => true
  | pfx _, exact _ => false
  | pfx p, pfx q => ord.lt p q

/-! ## Entries -/

inductive OneOrManyAsns where
  /-- Any AS number if the list is empty. -/
  | many (asns : List Asn)
  | one (asn : Asn)
  deriving DecidableEq

def OneOrManyAsns.contains : OneOrManyAsns → Asn → Bool
  | one asn, other => asn == other
  | many asns, other => asns.contains other

structure PeerConfig where
  name : String
  remoteAsn : OneOrManyAsns
  holdTime : Option UInt16
  md5Key : Option String := none
  protocols : List AfiSafiType := []
  addpath : List AfiSafiType := []

namespace PeerConfig

def acceptRemoteAsn (cfg : PeerConfig) (remote : Asn) : Bool :=
  match cfg.remoteAsn with
  | .many [] => true
  | asns => asns.contains remote

def usedMd5Key (cfg : PeerConfig) : Option String := cfg.md5Key.filter fun key => !key.isEmpty

/-- `PartialEq` for entries. -/
def eq (cfg other : PeerConfig) : Bool :=
  cfg.remoteAsn == other.remoteAsn && cfg.holdTime == other.holdTime && cfg.md5Key == other.md5Key

end PeerConfig

structure PeerConfigs (ord : PrefixOrder) where
  entries : List (PrefixOrExact × PeerConfig)
  sorted : entries.Pairwise fun e e' => e.1.lt ord e'.1 = true

namespace PeerConfigs

variable {ord : PrefixOrder}

def get (cfgs : PeerConfigs ord) (key : IpAddr) : Option (PrefixOrExact × PeerConfig) :=
  cfgs.entries.find? fun e => e.1.contains key

def getExact (cfgs : PeerConfigs ord) (key : PrefixOrExact) : Option PeerConfig :=
  (cfgs.entries.find? fun e => e.1 = key).map Prod.snd

end PeerConfigs

/-! ## The prefixes that contain an address -/

theorem contains_iff :
    p.contains a = true ↔ p.family = a.family ∧ p.bits <+: a.bits := by
  rw [Prefix.contains, decide_eq_true_eq]

theorem covers_or_covers (hp : p.contains a = true)
    (hq : q.contains a = true) : p.Covers q ∨ q.Covers p := by
  obtain ⟨hpf, hpb⟩ := contains_iff.mp hp
  obtain ⟨hqf, hqb⟩ := contains_iff.mp hq
  rcases prefix_or_prefix_of_prefix hpb hqb with h | h
  · exact .inl ⟨hpf.trans hqf.symm, h⟩
  · exact .inr ⟨hqf.trans hpf.symm, h⟩

theorem length_octetBits (b : UInt8) : (Prefix.octetBits b).length = 8 := by
  simp [Prefix.octetBits]

theorem length_bits (p : Prefix) : p.bits.length = p.len := by
  have hoctets : (p.addr.octets.flatMap Prefix.octetBits).length = 8 * p.addr.octets.length := by
    generalize p.addr.octets = octets
    induction octets with
    | nil => rfl
    | cons b octets ih =>
      rw [flatMap_cons, length_append, ih, length_octetBits, length_cons]
      omega
  have hle := p.len_le
  rw [Prefix.bits, length_take, hoctets, p.addr.length_eq]
  exact Nat.min_eq_left hle

theorem len_le_of_covers (h : q.Covers p) : q.len ≤ p.len := by
  rw [← length_bits q, ← length_bits p]
  exact h.2.length_le

namespace PrefixOrder

variable {ord : PrefixOrder}

theorem asymm (h : ord.lt p q = true) : ord.lt q p = false := by
  cases hqp : ord.lt q p with
  | false => rfl
  | true =>
    have hloop := ord.trans p q p h hqp
    rw [ord.irrefl] at hloop
    cases hloop

/-- Of two prefixes that contain an address, the earlier one is the longer one. -/
theorem CoveredFirst.len_le (hord : ord.CoveredFirst) (hp : p.contains a = true)
    (hq : q.contains a = true) (h : ord.lt p q = true) : q.len ≤ p.len := by
  rcases covers_or_covers hp hq with hcov | hcov
  · by_contra hlen
    have hback := hord q p hcov (by omega)
    rw [asymm h] at hback
    cases hback
  · exact len_le_of_covers hcov

end PrefixOrder

/-! ## Lookup -/

namespace PeerConfigs

variable {ord : PrefixOrder} {cfgs : PeerConfigs ord}
variable {key : PrefixOrExact} {cfg : PeerConfig} {addr : IpAddr}

theorem isSome_get (addr : IpAddr) :
    (cfgs.get addr).isSome ↔ ∃ e ∈ cfgs.entries, e.1.contains addr = true := by
  rw [get, List.find?_isSome]

theorem lt_irrefl (key : PrefixOrExact) : key.lt ord key = false := by
  cases key with
  | exact a =>
    rw [PrefixOrExact.lt, IpAddr.lt]
    cases a.family <;> simp
  | pfx p => exact ord.irrefl p

theorem getExact_of_mem (h : (key, cfg) ∈ cfgs.entries) : cfgs.getExact key = some cfg := by
  obtain ⟨before, after, hsplit⟩ := append_of_mem h
  have hsorted := cfgs.sorted
  rw [hsplit, pairwise_append] at hsorted
  have hbefore : ∀ e ∈ before, ¬ (decide (e.1 = key) = true) := by
    intro e he heq
    have hlt := hsorted.2.2 e he (key, cfg) mem_cons_self
    rw [of_decide_eq_true heq, lt_irrefl] at hlt
    cases hlt
  rw [getExact, hsplit, List.find?_append, List.find?_eq_none.mpr hbefore]
  simp

section

variable (h : cfgs.get addr = some (key, cfg))
include h

theorem getExact_of_get : cfgs.getExact key = some cfg :=
  getExact_of_mem (mem_of_find?_eq_some h)

/-- The entry that is found, and the entries before and after it. -/
theorem get_eq_some :
    key.contains addr = true ∧ ∃ before after, cfgs.entries = before ++ (key, cfg) :: after ∧
      (∀ e ∈ before, e.1.contains addr = false) ∧ ∀ e ∈ after, key.lt ord e.1 = true := by
  obtain ⟨hhit, before, after, hsplit, hbefore⟩ := List.find?_eq_some_iff_append.mp h
  refine ⟨hhit, before, after, hsplit, fun e he => by simpa using hbefore e he, fun e he => ?_⟩
  have hsorted := cfgs.sorted
  rw [hsplit, pairwise_append, pairwise_cons] at hsorted
  exact hsorted.2.1.1 e he

/-- No entry that contains the address comes before the one that is found. -/
theorem lt_of_get {e : PrefixOrExact × PeerConfig} (he : e ∈ cfgs.entries)
    (hcontains : e.1.contains addr = true) : e = (key, cfg) ∨ key.lt ord e.1 = true := by
  obtain ⟨_, before, after, hsplit, hbefore, hafter⟩ := get_eq_some h
  rw [hsplit] at he
  rcases mem_append.mp he with he | he
  · rw [hbefore e he] at hcontains
    cases hcontains
  · rcases mem_cons.mp he with rfl | he
    · exact .inl rfl
    · exact .inr (hafter e he)

end

/-- An entry is found if and only if one contains the address.  It is the one for the exact address
if there is one, and else the one for the longest prefix that contains the address. -/
theorem get_mostSpecific (hord : ord.CoveredFirst) (cfgs : PeerConfigs ord) (addr : IpAddr) :
    ((cfgs.get addr).isSome ↔ ∃ e ∈ cfgs.entries, e.1.contains addr = true) ∧
      ∀ key cfg, cfgs.get addr = some (key, cfg) → (key, cfg) ∈ cfgs.entries ∧
        ((∃ c, (.exact addr, c) ∈ cfgs.entries) → key = .exact addr) ∧
        ((∀ c, (.exact addr, c) ∉ cfgs.entries) → ∃ p, key = .pfx p ∧ p.contains addr = true ∧
          ∀ q c, (.pfx q, c) ∈ cfgs.entries → q.contains addr = true → q.len ≤ p.len) := by
  refine ⟨isSome_get addr, fun key cfg h => ?_⟩
  have hmem : (key, cfg) ∈ cfgs.entries := mem_of_find?_eq_some h
  have hhit : key.contains addr = true := (get_eq_some h).1
  refine ⟨hmem, ?_, fun hnone => ?_⟩
  · rintro ⟨c, hc⟩
    rcases lt_of_get h hc (decide_eq_true rfl) with heq | hlt
    · exact (congrArg Prod.fst heq).symm
    · -- only an exact address comes before one, and it has to be the same
      cases key with
      | exact a => rw [of_decide_eq_true hhit]
      | pfx p => cases hlt
  · cases key with
    | exact a =>
      rw [of_decide_eq_true hhit] at hmem
      exact absurd hmem (hnone cfg)
    | pfx p =>
      refine ⟨p, rfl, hhit, fun q c hq hcontains => ?_⟩
      rcases lt_of_get h hq hcontains with heq | hlt
      · cases heq
        exact Nat.le_refl _
      · exact hord.len_le hhit hcontains hlt

end PeerConfigs

/-! ## An order on prefixes -/

/-- Bit strings in the order of their bits, a longer one before its own beginnings. -/
def bitsLt : List Bool → List Bool → Bool
  | [], _ => false
  | _ :: _, [] => true
  | a :: as, b :: bs => if a = b then bitsLt as bs else !a

theorem bitsLt_irrefl (as : List Bool) : bitsLt as as = false := by
  induction as with
  | nil => rfl
  | cons a as ih => simpa [bitsLt] using ih

theorem bitsLt_trans {as bs cs : List Bool} (h : bitsLt as bs = true) (h' : bitsLt bs cs = true) :
    bitsLt as cs = true := by
  induction as generalizing bs cs with
  | nil => cases h
  | cons a as ih =>
    cases bs with
    | nil => cases h'
    | cons b bs =>
      cases cs with
      | nil => rfl
      | cons c cs =>
        have htail : bitsLt as bs = true → bitsLt bs cs = true → bitsLt as cs = true := ih
        revert h h'
        cases a <;> cases b <;> cases c <;> simp [bitsLt] <;> exact htail

theorem bitsLt_of_prefix {as bs : List Bool} (h : bs <+: as) (hlen : bs.length < as.length) :
    bitsLt as bs = true := by
  induction bs generalizing as with
  | nil =>
    cases as with
    | nil => cases hlen
    | cons => rfl
  | cons b bs ih =>
    cases as with
    | nil => cases hlen
    | cons a as =>
      obtain ⟨rfl, htail⟩ := cons_prefix_cons.mp h
      simpa [bitsLt] using ih htail (by simpa using hlen)

/-- IPv4 before IPv6, then by the bits, more specific prefixes first. -/
def bitOrder : PrefixOrder where
  lt := fun p q => match p.family, q.family with
    | .v4, .v6 => true
    | .v6, .v4 => false
    | _, _ => bitsLt p.bits q.bits
  irrefl := fun p => by cases p.family <;> simp [bitsLt_irrefl]
  trans := fun p q r => by
    cases p.family <;> cases q.family <;> cases r.family <;> simp <;> exact bitsLt_trans

theorem bitOrder_coveredFirst : bitOrder.CoveredFirst := by
  intro p q hcov hlen
  have hbits : bitsLt p.bits q.bits = true :=
    bitsLt_of_prefix hcov.2 (by rw [length_bits, length_bits]; exact hlen)
  have hfam := hcov.1
  cases hp : p.family <;> rw [hp] at hfam <;> simp [bitOrder, hp, hfam, hbits]

def slash16 : Prefix := ⟨.v4 10 1 0 0, 16, (by decide : 16 ≤ Family.v4.bits), rfl⟩

/-- An entry that any AS number may use. -/
def anyPeer (name : String) : PeerConfig := { name, remoteAsn := .many [], holdTime := none }

/-- An address, a prefix around it and a prefix around that. -/
def nestedPeers : PeerConfigs bitOrder where
  entries := [(.exact (.v4 10 1 0 1), anyPeer "exact"), (.pfx slash16, anyPeer "inner"),
    (.pfx (.slash8 10), anyPeer "outer")]
  sorted := by decide

theorem get_nestedPeers :
    nestedPeers.get (.v4 10 1 0 2) = some (.pfx slash16, anyPeer "inner") ∧
      (∀ q c, (.pfx q, c) ∈ nestedPeers.entries → q.contains (.v4 10 1 0 2) = true → q.len ≤ 16) ∧
      ∃ cfg, nestedPeers.get (.v4 10 1 0 1) = some (.exact (.v4 10 1 0 1), cfg) := by
  have hinner : nestedPeers.get (.v4 10 1 0 2) = some (.pfx slash16, anyPeer "inner") := rfl
  have hother : IpAddr.v4 10 1 0 2 ≠ IpAddr.v4 10 1 0 1 := by decide
  have hnone (c : PeerConfig) : (.exact (.v4 10 1 0 2), c) ∉ nestedPeers.entries := by
    simp [nestedPeers, hother]
  obtain ⟨_, hfound⟩ :=
    PeerConfigs.get_mostSpecific bitOrder_coveredFirst nestedPeers (.v4 10 1 0 2)
  obtain ⟨_, _, hlongest⟩ := hfound _ _ hinner
  obtain ⟨p, hp, _, hlen⟩ := hlongest hnone
  cases hp
  exact ⟨hinner, hlen, _, rfl⟩

end BgpIn

end Rotonda
