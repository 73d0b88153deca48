import Rotonda.BmpOut.Decode
import Rotonda.BgpIn.Tables

/-!
The body of a Statistics Report: the counters and gauges of a peer as TLVs after their number.

The number is counted in 32 bits beside the bytes that are appended, and is written over its
placeholder at the end.

* `decodeStatsBody`: a strict walk over the body by its length fields;
* `buildStatsBody_eq`: the body is the number of TLVs, modulo its width, and the TLVs;
* `decodeStatsBody_buildStatsBody`: the walk recovers every counter and gauge, and meets as many TLVs
  as announced exactly when their number fits 32 bits;
* `count_of_snapshot`: the number fits for every snapshot that is taken of a peer's counters.
-/

namespace Rotonda.BgpIn

open Lib Lib.Bytes Rotonda.BmpOut List Option

variable {snap : BgpPeerStatsSnapshot} {order : List AfiSafiKey}

/-! ## Snapshots -/

structure BgpPeerStatsSnapshot where
  prefixesRejected : UInt64 := 0
  dupPrefixAdvertisements : UInt64 := 0
  dupWithdraws : UInt64 := 0
  invalidClusterListLoops : UInt64 := 0
  invalidAsPathLoops : UInt64 := 0
  invalidOriginatorId : UInt64 := 0
  invalidAsConfedLoops : UInt64 := 0
  adjRibInRoutes : UInt64 := 0
  locRibRoutes : UInt64 := 0
  adjRibInPerAfiSafi : List (AfiSafiKey × UInt64) := []
  locRibPerAfiSafi : List (AfiSafiKey × UInt64) := []
  updatesTreatAsWithdraw : UInt64 := 0
  prefixesTreatAsWithdraw : UInt64 := 0
  dupUpdates : UInt64 := 0

inductive StatType where
  | prefixesRejected
  | dupPrefixAdv
  | dupWithdraws
  | invalidClusterListLoops
  | invalidAsPathLoops
  | invalidOriginatorId
  | invalidAsConfedLoops
  | adjRibIn
  | locRib
  | adjRibInPerAfiSafi
  | locRibPerAfiSafi
  | updatesTreatAsWithdraw
  | prefixesTreatAsWithdraw
  | dupUpdates
  deriving DecidableEq

namespace StatType

def code : StatType → Nat
  | prefixesRejected => 0
  | dupPrefixAdv => 1
  | dupWithdraws => 2
  | invalidClusterListLoops => 3
  | invalidAsPathLoops => 4
  | invalidOriginatorId => 5
  | invalidAsConfedLoops => 6
  | adjRibIn => 7
  | locRib => 8
  | adjRibInPerAfiSafi => 9
  | locRibPerAfiSafi => 10
  | updatesTreatAsWithdraw => 11
  | prefixesTreatAsWithdraw => 12
  | dupUpdates => 13

def all : List StatType :=
  [prefixesRejected, dupPrefixAdv, dupWithdraws, invalidClusterListLoops, invalidAsPathLoops,
    invalidOriginatorId, invalidAsConfedLoops, adjRibIn, locRib, adjRibInPerAfiSafi,
    locRibPerAfiSafi, updatesTreatAsWithdraw, prefixesTreatAsWithdraw, dupUpdates]

def ofCode (code : Nat) : Option StatType := all.find? fun t => t.code = code

theorem ofCode_code (t : StatType) : ofCode t.code = some t := by
  cases t <;> rfl

theorem code_lt (t : StatType) : t.code < 65536 := by
  cases t <;> decide

end StatType

/-! ## The builder -/

/-- A counter in 32 bits, at most their maximum. -/
def saturate (value : UInt64) : UInt32 :=
  if value.toNat < 4294967296 then UInt32.ofNat value.toNat else 4294967295

def putCounterTlv (buf : Bytes) (statType : StatType) (value : UInt64) : Bytes :=
  buf ++ be16 statType.code ++ be16 4 ++ be32 (saturate value).toNat

def putGaugeTlv (buf : Bytes) (statType : StatType) (value : UInt64) : Bytes :=
  buf ++ be16 statType.code ++ be16 8 ++ be64 value.toNat

def putPerAfiSafiTlv (buf : Bytes) (statType : StatType) (afi : UInt16) (safi : UInt8)
    (value : UInt64) : Bytes :=
  buf ++ be16 statType.code ++ be16 11 ++ be16 afi.toNat ++ [safi] ++ be64 value.toNat

/-- The loop over the families: the buffer and the number of TLVs so far. -/
def putFamilies (statType : StatType) (families : List (AfiSafiKey × UInt64))
    (state : Bytes × UInt32) : Bytes × UInt32 :=
  families.foldl (fun (buf, count) ((afi, safi), v) =>
    (putPerAfiSafiTlv buf statType afi safi v, count + 1)) state

def buildStatsBody (snap : BgpPeerStatsSnapshot) : Bytes :=
  let buf := be32 0
  let buf := putCounterTlv buf .prefixesRejected snap.prefixesRejected
  let buf := putCounterTlv buf .dupPrefixAdv snap.dupPrefixAdvertisements
  let buf := putCounterTlv buf .dupWithdraws snap.dupWithdraws
  let buf := putCounterTlv buf .invalidClusterListLoops snap.invalidClusterListLoops
  let buf := putCounterTlv buf .invalidAsPathLoops snap.invalidAsPathLoops
  let buf := putCounterTlv buf .invalidOriginatorId snap.invalidOriginatorId
  let buf := putCounterTlv buf .invalidAsConfedLoops snap.invalidAsConfedLoops
  let buf := putGaugeTlv buf .adjRibIn snap.adjRibInRoutes
  let buf := putGaugeTlv buf .locRib snap.locRibRoutes
  let count : UInt32 := 9
  let (buf, count) := putFamilies .adjRibInPerAfiSafi snap.adjRibInPerAfiSafi (buf, count)
  let (buf, count) := putFamilies .locRibPerAfiSafi snap.locRibPerAfiSafi (buf, count)
  let buf := putCounterTlv buf .updatesTreatAsWithdraw snap.updatesTreatAsWithdraw
  let buf := putCounterTlv buf .prefixesTreatAsWithdraw snap.prefixesTreatAsWithdraw
  let buf := putCounterTlv buf .dupUpdates snap.dupUpdates
  let count := count + 3
  be32 count.toNat ++ buf.drop 4

/-! ## The walk -/

inductive StatData where
  | counter (v : UInt32)
  | gauge (v : UInt64)
  | perAfiSafi (afi : UInt16) (safi : UInt8) (v : UInt64)
  deriving DecidableEq

structure Stat where
  statType : StatType
  data : StatData
  deriving DecidableEq

/-- The data of a TLV, by its type; the length has to be the one of the type. -/
def readStatData (statType : StatType) (value : Bytes) : Option StatData :=
  match statType with
  | .adjRibIn | .locRib =>
    if value.length = 8 then some (.gauge (UInt64.ofNat (readBe value))) else none
  | .adjRibInPerAfiSafi | .locRibPerAfiSafi => do
    let (afi, rest) ← splitExact 2 value
    let (safi, rest) ← splitExact 1 rest
    if rest.length = 8 then
      return .perAfiSafi (UInt16.ofNat (readBe afi)) (UInt8.ofNat (readBe safi))
        (UInt64.ofNat (readBe rest))
    else none
  | _ => if value.length = 4 then some (.counter (UInt32.ofNat (readBe value))) else none

def nextStat (bs : Bytes) : Option (Stat × Bytes) := do
  let ((code, value), rest) ← nextTlv bs
  let statType ← StatType.ofCode code
  let data ← readStatData statType value
  return (⟨statType, data⟩, rest)

/-- The announced number of TLVs and the TLVs, to the last byte. -/
def decodeStatsBody (body : Bytes) : Option (Nat × List Stat) := do
  let (count, rest) ← splitExact 4 body
  let stats ← many nextStat rest.length rest
  return (readBe count, stats)

/-! ## What the body holds -/

/-- The counters and gauges of a snapshot, in the order of the body. -/
def BgpPeerStatsSnapshot.stats (snap : BgpPeerStatsSnapshot) : List Stat :=
  [⟨.prefixesRejected, .counter (saturate snap.prefixesRejected)⟩,
    ⟨.dupPrefixAdv, .counter (saturate snap.dupPrefixAdvertisements)⟩,
    ⟨.dupWithdraws, .counter (saturate snap.dupWithdraws)⟩,
    ⟨.invalidClusterListLoops, .counter (saturate snap.invalidClusterListLoops)⟩,
    ⟨.invalidAsPathLoops, .counter (saturate snap.invalidAsPathLoops)⟩,
    ⟨.invalidOriginatorId, .counter (saturate snap.invalidOriginatorId)⟩,
    ⟨.invalidAsConfedLoops, .counter (saturate snap.invalidAsConfedLoops)⟩,
    ⟨.adjRibIn, .gauge snap.adjRibInRoutes⟩,
    ⟨.locRib, .gauge snap.locRibRoutes⟩] ++
  snap.adjRibInPerAfiSafi.map (fun e => ⟨.adjRibInPerAfiSafi, .perAfiSafi e.1.1 e.1.2 e.2⟩) ++
  snap.locRibPerAfiSafi.map (fun e => ⟨.locRibPerAfiSafi, .perAfiSafi e.1.1 e.1.2 e.2⟩) ++
  [⟨.updatesTreatAsWithdraw, .counter (saturate snap.updatesTreatAsWithdraw)⟩,
    ⟨.prefixesTreatAsWithdraw, .counter (saturate snap.prefixesTreatAsWithdraw)⟩,
    ⟨.dupUpdates, .counter (saturate snap.dupUpdates)⟩]

/-- The number of per-family gauges of both kinds. -/
def BgpPeerStatsSnapshot.families (snap : BgpPeerStatsSnapshot) : Nat :=
  snap.adjRibInPerAfiSafi.length + snap.locRibPerAfiSafi.length

theorem length_stats (snap : BgpPeerStatsSnapshot) : snap.stats.length = snap.families + 12 := by
  simp only [BgpPeerStatsSnapshot.stats, BgpPeerStatsSnapshot.families, length_append,
    length_map, length_cons, length_nil]
  omega

def StatData.encode : StatData → Bytes
  | counter v => be32 v.toNat
  | gauge v => be64 v.toNat
  | perAfiSafi afi safi v => be16 afi.toNat ++ ([safi] ++ be64 v.toNat)

def Stat.encode (s : Stat) : Bytes := tlv s.statType.code s.data.encode

def Stat.Typed (s : Stat) : Prop := readStatData s.statType s.data.encode = some s.data

theorem putFamilies_eq (statType : StatType) (families : List (AfiSafiKey × UInt64)) (buf : Bytes)
    (count : UInt32) :
    putFamilies statType families (buf, count) =
      (buf ++ (families.map fun e =>
        (⟨statType, .perAfiSafi e.1.1 e.1.2 e.2⟩ : Stat)).flatMap Stat.encode,
        count + UInt32.ofNat families.length) := by
  induction families generalizing buf count with
  | nil => simp [putFamilies]
  | cons e families ih =>
    rw [putFamilies, foldl_cons, ← putFamilies, ih]
    have hcount : count + 1 + UInt32.ofNat families.length =
        count + UInt32.ofNat (families.length + 1) := by
      rw [UInt32.ofNat_add, UInt32.add_assoc, UInt32.add_comm 1]
      rfl
    simp [hcount, putPerAfiSafiTlv, Stat.encode, StatData.encode, tlv]

/-- The body is the number of TLVs, modulo its width, and the TLVs. -/
theorem buildStatsBody_eq (snap : BgpPeerStatsSnapshot) :
    buildStatsBody snap = be32 (snap.stats.length % 4294967296) ++
      snap.stats.flatMap Stat.encode := by
  have hcount : (9 + UInt32.ofNat snap.adjRibInPerAfiSafi.length +
      UInt32.ofNat snap.locRibPerAfiSafi.length + 3).toNat = snap.stats.length % 4294967296 := by
    rw [length_stats, BgpPeerStatsSnapshot.families]
    simp only [UInt32.toNat_add, UInt32.toNat_ofNat', UInt32.reduceToNat]
    omega
  have hplaceholder (rest : Bytes) : (be32 0 ++ rest).drop 4 = rest :=
    drop_left' (length_be32 0)
  simp only [buildStatsBody, putFamilies_eq, hcount]
  simp only [putCounterTlv, putGaugeTlv, append_assoc, hplaceholder,
    BgpPeerStatsSnapshot.stats, flatMap_append, flatMap_cons, flatMap_nil,
    Stat.encode, StatData.encode, tlv, length_be32, length_be64, append_nil]

/-! ## The walk over a built body -/

theorem readsStat {s : Stat} (h : s.Typed) : Reads nextStat Stat.encode s := by
  have hlen : s.data.encode.length ≤ 65535 := by
    cases s.data <;> simp [StatData.encode]
  have htlv : Reads nextTlv (fun field => tlv field.1 field.2) (s.statType.code, s.data.encode) :=
    readsTlv s.statType.code_lt hlen
  refine ⟨htlv.nonempty, fun rest => ?_⟩
  have hread : nextTlv (s.encode ++ rest) = some ((s.statType.code, s.data.encode), rest) :=
    htlv.reads rest
  simp only [nextStat, hread, Option.bind_eq_bind, Option.bind_some, StatType.ofCode_code]
  rw [h]
  rfl

theorem ofNat_readBe_be32 (v : UInt32) : (UInt32.ofNat (readBe (be32 v.toNat))) = v := by
  rw [readBe_be32, Nat.mod_eq_of_lt v.toNat_lt, UInt32.ofNat_toNat]

theorem ofNat_readBe_be64 (v : UInt64) : (UInt64.ofNat (readBe (be64 v.toNat))) = v := by
  rw [readBe_be64, Nat.mod_eq_of_lt v.toNat_lt, UInt64.ofNat_toNat]

theorem readStatData_perAfiSafi (afi : UInt16) (safi : UInt8) (v : UInt64) :
    readStatData .adjRibInPerAfiSafi (StatData.perAfiSafi afi safi v).encode =
      some (.perAfiSafi afi safi v) := by
  have hafi : UInt16.ofNat (readBe (be16 afi.toNat)) = afi := by
    rw [readBe_be16, Nat.mod_eq_of_lt afi.toNat_lt, UInt16.ofNat_toNat]
  have hsafi : UInt8.ofNat (readBe [safi]) = safi := by
    simp [readBe]
  simp only [readStatData, StatData.encode, splitExact_append (length_be16 _), Option.bind_eq_bind,
    Option.bind_some, splitExact_append (show [safi].length = 1 from rfl), length_be64, if_true,
    hafi, hsafi, ofNat_readBe_be64, Option.pure_def]

theorem typed_of_mem_stats {s : Stat} (h : s ∈ snap.stats) : s.Typed := by
  simp only [BgpPeerStatsSnapshot.stats, List.mem_append, List.mem_cons, List.mem_map,
    not_mem_nil, or_false] at h
  rcases h with ((h | ⟨e, _, rfl⟩) | ⟨e, _, rfl⟩) | h
  · rcases h with rfl | rfl | rfl | rfl | rfl | rfl | rfl | rfl | rfl <;>
      simp [Stat.Typed, readStatData, StatData.encode, ofNat_readBe_be32, ofNat_readBe_be64]
  · exact readStatData_perAfiSafi e.1.1 e.1.2 e.2
  · exact readStatData_perAfiSafi e.1.1 e.1.2 e.2
  · rcases h with rfl | rfl | rfl <;>
      simp [Stat.Typed, readStatData, StatData.encode, ofNat_readBe_be32]

theorem decodeStatsBody_eq (snap : BgpPeerStatsSnapshot) :
    decodeStatsBody (buildStatsBody snap) =
      some (snap.stats.length % 4294967296, snap.stats) := by
  have hreads : ∀ s ∈ snap.stats, Reads nextStat Stat.encode s :=
    fun s hs => readsStat (typed_of_mem_stats hs)
  have hmany := many_flatMap hreads (length_le_flatMap hreads)
  rw [buildStatsBody_eq, decodeStatsBody]
  generalize snap.stats.flatMap Stat.encode = body at hmany ⊢
  simp only [splitExact_append (length_be32 _), Option.bind_eq_bind, Option.bind_some, hmany,
    readBe_be32, Nat.mod_mod, Option.pure_def]

/-- There are no more families than AFIs and SAFIs. -/
theorem length_le_of_nodup {families : List (AfiSafiKey × UInt64)}
    (h : (families.map Prod.fst).Nodup) : families.length ≤ 16777216 := by
  have hcode : ((families.map Prod.fst).map fun k => k.1.toNat * 256 + k.2.toNat).Nodup := by
    refine h.map fun k k' heq => ?_
    have hlt := k.2.toNat_lt
    have hlt' := k'.2.toNat_lt
    exact Prod.ext (UInt16.toNat_inj.mp (by omega)) (UInt8.toNat_inj.mp (by omega))
  have hsub : (families.map Prod.fst).map (fun k => k.1.toNat * 256 + k.2.toNat) ⊆
      List.range 16777216 := by
    intro n hn
    obtain ⟨k, _, rfl⟩ := List.mem_map.mp hn
    have hlt := k.1.toNat_lt
    have hlt' := k.2.toNat_lt
    rw [mem_range]
    omega
  simpa using (subperm_of_subset hcode hsub).length_le

/-- No family is listed twice in one of the lists. -/
structure BgpPeerStatsSnapshot.Distinct (snap : BgpPeerStatsSnapshot) : Prop where
  adjRibIn : (snap.adjRibInPerAfiSafi.map Prod.fst).Nodup
  locRib : (snap.locRibPerAfiSafi.map Prod.fst).Nodup

theorem BgpPeerStatsSnapshot.Distinct.decode (h : snap.Distinct) :
    decodeStatsBody (buildStatsBody snap) = some (snap.stats.length, snap.stats) := by
  have hadj := length_le_of_nodup h.adjRibIn
  have hloc := length_le_of_nodup h.locRib
  rw [decodeStatsBody_eq, Nat.mod_eq_of_lt]
  rw [length_stats, BgpPeerStatsSnapshot.families]
  omega

/-- The walk takes the body apart to its last byte and recovers every counter, saturated at 32 bits,
every gauge and every per-family gauge with its AFI and SAFI.  The number announced is the number of
TLVs in 32 bits: it is the number of TLVs if and only if that fits, as it does when no family is
listed twice. -/
theorem decodeStatsBody_buildStatsBody (snap : BgpPeerStatsSnapshot) :
    decodeStatsBody (buildStatsBody snap) = some (snap.stats.length % 4294967296, snap.stats) ∧
      (snap.stats.length % 4294967296 = snap.stats.length ↔ snap.families + 12 < 4294967296) ∧
      (snap.Distinct →
        decodeStatsBody (buildStatsBody snap) = some (snap.stats.length, snap.stats)) := by
  refine ⟨decodeStatsBody_eq snap, ?_, fun h => h.decode⟩
  rw [length_stats]
  omega

/-- A snapshot with a gauge for IPv4 unicast, listed `n` times. -/
def repeatedFamily (n : Nat) : BgpPeerStatsSnapshot where
  adjRibInPerAfiSafi := List.replicate n ((1, 1), 0)

theorem length_repeatedFamily (n : Nat) : (repeatedFamily n).stats.length = n + 12 := by
  rw [length_stats, BgpPeerStatsSnapshot.families, repeatedFamily, length_replicate,
    length_nil, Nat.add_zero]

theorem decodeStatsBody_repeatedFamily (n : Nat) :
    decodeStatsBody (buildStatsBody (repeatedFamily n)) =
      some ((n + 12) % 4294967296, (repeatedFamily n).stats) := by
  rw [decodeStatsBody_eq, length_repeatedFamily]

/-- With so many gauges that all TLVs together are 2^32, the body announces none. -/
theorem decodeStatsBody_wraps :
    (repeatedFamily 4294967284).stats.length = 4294967296 ∧
      decodeStatsBody (buildStatsBody (repeatedFamily 4294967284)) =
        some (0, (repeatedFamily 4294967284).stats) := by
  have hlen := length_repeatedFamily 4294967284
  have hdecode := decodeStatsBody_repeatedFamily 4294967284
  simp only [Nat.reduceAdd, Nat.reduceMod] at hlen hdecode
  exact ⟨hlen, hdecode⟩

/-! ## Snapshots of maps -/

/-- The gauges of a map, in the order in which it is iterated. -/
def familiesOf (gauges : Dict AfiSafiKey UInt64) (order : List AfiSafiKey) :
    List (AfiSafiKey × UInt64) :=
  gauges.select order fun _ _ => true

/-- A snapshot takes its gauges from maps, so their number always fits. -/
theorem count_of_snapshot {adj loc : Dict AfiSafiKey UInt64} {order' : List AfiSafiKey}
    (horder : order.Nodup) (horder' : order'.Nodup)
    (hadj : snap.adjRibInPerAfiSafi = familiesOf adj order)
    (hloc : snap.locRibPerAfiSafi = familiesOf loc order') :
    decodeStatsBody (buildStatsBody snap) = some (snap.stats.length, snap.stats) := by
  refine BgpPeerStatsSnapshot.Distinct.decode ⟨?_, ?_⟩
  · rw [hadj]
    exact Dict.nodup_select horder _
  · rw [hloc]
    exact Dict.nodup_select horder' _

def adjGauges : Dict AfiSafiKey UInt64 := (Dict.empty.insert (1, 1) 5).insert (2, 1) 7

def locGauges : Dict AfiSafiKey UInt64 := Dict.empty.insert (1, 1) 3

def twoFamilies : BgpPeerStatsSnapshot where
  prefixesRejected := 4294967296
  adjRibInRoutes := 12
  locRibRoutes := 3
  adjRibInPerAfiSafi := familiesOf adjGauges [(2, 1), (1, 1)]
  locRibPerAfiSafi := familiesOf locGauges [(1, 1)]

theorem count_of_twoFamilies :
    twoFamilies.stats.length = 15 ∧
      twoFamilies.stats[0]? = some ⟨.prefixesRejected, .counter 4294967295⟩ ∧
      twoFamilies.stats[9]? = some ⟨.adjRibInPerAfiSafi, .perAfiSafi 2 1 7⟩ ∧
      decodeStatsBody (buildStatsBody twoFamilies) =
        some (twoFamilies.stats.length, twoFamilies.stats) :=
  ⟨rfl, rfl, rfl, @count_of_snapshot twoFamilies [(2, 1), (1, 1)] adjGauges locGauges [(1, 1)]
    (by decide) (by decide) rfl rfl⟩

end Rotonda.BgpIn
