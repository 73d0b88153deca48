import Rotonda.BmpOut.NextHops

/-!
The MP_REACH attribute of a route from an MRT dump, brought into the form it has on the wire.

A dump has only the next hop and its length in the attribute.  The rewriting walks a blob by
position; a read past its end is a panic, `none` here, and so is a walk that does not end.

* `turn_append`: one turn of the loop on a blob whose first part is done;
* `normalizeLoop_append`: the walk takes the attributes one after the other, to the end;
* `normalizeMrtMpReach_normalizes`: what comes out of any blob.
-/

namespace Rotonda.MrtIn

open Lib.Bytes BmpOut List Option

variable {a : Attribute} {nh : Bytes}

/-- A slice of a vector; `none` if it is out of bounds. -/
def slice (bs : Bytes) (start stop : Nat) : Option Bytes :=
  if start ≤ stop ∧ stop ≤ bs.length then some ((bs.drop start).take (stop - start)) else none

/-- How a turn of the loop ends: it breaks or goes on at a position, with the output so far. -/
inductive Turn where
  | stop (out : Bytes)
  | next (pos : Nat) (out : Bytes)

/-- The rest of the blob is copied as it is. -/
def copyRest (raw : Bytes) (pos : Nat) (out : Bytes) : Option Turn := do
  let rest ← slice raw pos raw.length
  return .stop (out ++ rest)

/-- Lengths of value and header, from the flags; `some none` if the blob ends in the header. -/
def readLengths (raw : Bytes) (pos : Nat) (flags : UInt8) : Option (Option (Nat × Nat)) :=
  if flags &&& 0x10 ≠ 0 then
    if pos + 4 > raw.length then return none
    else do
      let hi ← raw[pos + 2]?
      let lo ← raw[pos + 3]?
      return some ((hi.toNat <<< 8) ||| lo.toNat, 4)
  else
    if pos + 3 > raw.length then return none
    else do
      let len ← raw[pos + 2]?
      return some (len.toNat, 3)

section Rewriting

variable (afi : UInt16) (safi : UInt8) (nlri : Bytes)

/-- The attribute in wire form: the shortest length field that does, then AFI, SAFI, next hop, a
reserved byte and the NLRI. -/
def wireMpReach (flags nhLen : UInt8) (nh : Bytes) : Bytes :=
  let newValueLen := 2 + 1 + 1 + nh.length + 1 + nlri.length
  let useExtended := newValueLen > 255
  let newFlags := if useExtended then flags ||| 0x10 else flags &&& ~~~0x10
  [newFlags, 14] ++ (if useExtended then be16 newValueLen else [UInt8.ofNat newValueLen]) ++
    be16 afi.toNat ++ [safi] ++ [nhLen] ++ nh ++ [0] ++ nlri

/-- The rewritten attribute; `some none` if the value does not hold its next hop. -/
def rewriteMpReach (flags : UInt8) (mrtValue : Bytes) : Option (Option Bytes) :=
  if mrtValue.isEmpty then return none
  else do
    let nhLen ← mrtValue[0]?
    if mrtValue.length ≥ 1 + nhLen.toNat then
      let nh ← slice mrtValue 1 (1 + nhLen.toNat)
      return some (wireMpReach afi safi nlri flags nhLen nh)
    else return none

/-- What an MP_REACH attribute of the blob is replaced by, if it is replaced. -/
def rewrittenAt (raw : Bytes) (pos : Nat) (flags typeCode : UInt8) (headerLen total : Nat) :
    Option (Option Bytes) :=
  if typeCode = 14 then do
    let mrtValue ← slice raw (pos + headerLen) (pos + total)
    rewriteMpReach afi safi nlri flags mrtValue
  else return none

def turn (raw : Bytes) (pos : Nat) (out : Bytes) : Option Turn :=
  if pos + 2 > raw.length then copyRest raw pos out
  else do
    let flags ← raw[pos]?
    let typeCode ← raw[pos + 1]?
    match ← readLengths raw pos flags with
    | none => copyRest raw pos out
    | some (attrLen, headerLen) =>
      let total := headerLen + attrLen
      if pos + total > raw.length then copyRest raw pos out
      else
        match ← rewrittenAt afi safi nlri raw pos flags typeCode headerLen total with
        | some bytes => return .next (pos + total) (out ++ bytes)
        | none =>
          let bytes ← slice raw pos (pos + total)
          return .next (pos + total) (out ++ bytes)

def normalizeLoop (raw : Bytes) : Nat → Nat → Bytes → Option Bytes
  | 0, _, _ => none
  | fuel + 1, pos, out =>
    if pos < raw.length then do
      match ← turn afi safi nlri raw pos out with
      | .stop out => return out
      | .next pos out => normalizeLoop raw fuel pos out
    else return out

end Rewriting

def normalizeMrtMpReach (raw : Bytes) (afi : UInt16) (safi : UInt8) (p : Prefix) :
    Option Bytes := do
  let octets ← slice p.addr.octets 0 ((p.len + 7) / 8)
  normalizeLoop afi safi (UInt8.ofNat p.len :: octets) raw (raw.length + 1) 0 []

/-! ## Reading by position -/

section Position

variable {done rest : Bytes}

@[simp] theorem getElem?_after (k : Nat) : (done ++ rest)[done.length + k]? = rest[k]? := by
  rw [List.getElem?_append_right (by omega)]
  congr 1
  omega

@[simp] theorem getElem?_here : (done ++ rest)[done.length]? = rest[0]? := by
  rw [List.getElem?_append_right (Nat.le_refl _), Nat.sub_self]

theorem slice_after {i j : Nat} (hij : i ≤ j) (hj : j ≤ rest.length) :
    slice (done ++ rest) (done.length + i) (done.length + j) =
      some ((rest.drop i).take (j - i)) := by
  have hlen : done.length + j - (done.length + i) = j - i := by omega
  rw [slice, if_pos (by rw [length_append]; omega), hlen, drop_append,
    drop_eq_nil_of_le (by omega)]
  simp

theorem copyRest_after (out : Bytes) :
    copyRest (done ++ rest) done.length out = some (.stop (out ++ rest)) := by
  have h : slice (done ++ rest) (done.length + 0) (done.length + rest.length) =
      some ((rest.drop 0).take (rest.length - 0)) :=
    slice_after (Nat.zero_le _) (Nat.le_refl _)
  simp only [Nat.add_zero, drop_zero, Nat.sub_zero, take_length] at h
  simp [copyRest, h]

theorem shiftLeft_or_eq (hi lo : UInt8) :
    (hi.toNat <<< 8) ||| lo.toNat = hi.toNat * 256 + lo.toNat := by
  have h := Nat.shiftLeft_add_eq_or_of_lt lo.toNat_lt hi.toNat
  rw [← h, Nat.shiftLeft_eq]

def header (a : Attribute) : Bytes :=
  [a.flags, a.typeCode] ++
    if a.extended then be16 a.value.length else [UInt8.ofNat a.value.length]

theorem encode_eq_header (a : Attribute) : a.encode = header a ++ a.value := rfl

theorem length_header (a : Attribute) : (header a).length = if a.extended then 4 else 3 := by
  unfold header
  split <;> rfl

/-- The lengths of an attribute that is there. -/
theorem readLengths_encode (ha : a.Fits) (tail : Bytes) :
    readLengths (done ++ (a.encode ++ tail)) done.length a.flags =
      some (some (a.value.length, (header a).length)) := by
  rw [length_header]
  unfold Attribute.Fits at ha
  by_cases hext : a.extended = true
  · have hflag : a.flags &&& 0x10 ≠ 0 := by simpa [Attribute.extended] using hext
    have hlen : a.value.length / 256 % 256 * 256 + a.value.length % 256 = a.value.length := by
      rw [if_pos hext] at ha
      omega
    have hroom : ¬ done.length + 4 > (done ++ (a.encode ++ tail)).length := by
      simp [Attribute.encode, hext]
    rw [readLengths, if_pos hflag, if_neg hroom, getElem?_after, getElem?_after, if_pos hext]
    simp [Attribute.encode, hext, be16, shiftLeft_or_eq, hlen]
  · have hflag : ¬ a.flags &&& 0x10 ≠ 0 := by simpa [Attribute.extended] using hext
    have hlen : a.value.length % 256 = a.value.length := by
      rw [if_neg hext] at ha
      omega
    have hroom : ¬ done.length + 3 > (done ++ (a.encode ++ tail)).length := by
      simp [Attribute.encode, hext]
    rw [readLengths, if_neg hflag, if_neg hroom, getElem?_after, if_neg hext]
    simp [Attribute.encode, hext, hlen]

/-- Where no attribute starts, the header or the value runs past the end. -/
theorem readLengths_incomplete {flags typeCode : UInt8} {tail : Bytes}
    (h : Attribute.next (flags :: typeCode :: tail) = none) :
    readLengths (done ++ flags :: typeCode :: tail) done.length flags = some none ∨
      ∃ attrLen headerLen,
        readLengths (done ++ flags :: typeCode :: tail) done.length flags =
          some (some (attrLen, headerLen)) ∧
        headerLen + attrLen > (flags :: typeCode :: tail).length := by
  unfold Attribute.next at h
  by_cases hflag : flags &&& 0x10 ≠ 0
  · rw [readLengths, if_pos hflag]
    simp only [if_pos hflag] at h
    rcases tail with _ | ⟨hi, _ | ⟨lo, tail⟩⟩
    · simp
    · simp
    · right
      simp only [splitExact, map_eq_none_iff, ite_eq_right_iff, reduceCtorEq,
        imp_false, Nat.not_le] at h
      refine ⟨hi.toNat * 256 + lo.toNat, 4, ?_, ?_⟩
      · rw [if_neg (by simp), getElem?_after, getElem?_after]
        simp [shiftLeft_or_eq]
      · simp
        omega
  · rw [readLengths, if_neg hflag]
    simp only [if_neg hflag] at h
    cases tail with
    | nil => simp
    | cons len tail =>
      right
      simp only [splitExact, map_eq_none_iff, ite_eq_right_iff, reduceCtorEq,
        imp_false, Nat.not_le] at h
      refine ⟨len.toNat, 3, ?_, ?_⟩
      · rw [if_neg (by simp), getElem?_after]
        simp
      · simp
        omega

end Position

/-! ## Attributes -/

section Attributes

variable (afi : UInt16) (safi : UInt8) (nlri : Bytes)

def wireReach (flags : UInt8) (nh : Bytes) : Attribute :=
  let value := be16 afi.toNat ++ [safi, UInt8.ofNat nh.length] ++ nh ++ [0] ++ nlri
  ⟨if value.length > 255 then flags ||| 0x10 else flags &&& ~~~0x10, 14, value⟩

def normalized (a : Attribute) : Attribute :=
  match a.value with
  | [] => a
  | nhLen :: rest =>
    if a.typeCode = 14 ∧ nhLen.toNat ≤ rest.length then
      wireReach afi safi nlri a.flags (rest.take nhLen.toNat)
    else a

section

variable (flags : UInt8)

theorem length_wireReach (nh : Bytes) :
    (wireReach afi safi nlri flags nh).value.length = 2 + 1 + 1 + nh.length + 1 + nlri.length := by
  simp [wireReach]
  omega

theorem set_extended : (flags ||| 0x10) &&& 0x10 ≠ 0 := by
  intro h
  have hbit := congrArg (fun f => f.toBitVec.getLsbD 4) h
  simp at hbit

theorem clear_extended : (flags &&& ~~~0x10) &&& 0x10 = 0 := by
  rw [UInt8.and_assoc]
  simp

/-- The flags say how the length is written. -/
theorem extended_wireReach (nh : Bytes) :
    (wireReach afi safi nlri flags nh).extended =
      decide (2 + 1 + 1 + nh.length + 1 + nlri.length > 255) := by
  have hflags : (wireReach afi safi nlri flags nh).flags =
      if (wireReach afi safi nlri flags nh).value.length > 255 then flags ||| 0x10
      else flags &&& ~~~0x10 := rfl
  rw [Attribute.extended, hflags, length_wireReach]
  by_cases h : 2 + 1 + 1 + nh.length + 1 + nlri.length > 255
  · rw [if_pos h, decide_eq_true h, decide_eq_true (set_extended flags)]
  · rw [if_neg h, decide_eq_false h, decide_eq_false (not_not.mpr (clear_extended flags))]

theorem fits_wireReach (hlen : 2 + 1 + 1 + nh.length + 1 + nlri.length < 65536) :
    (wireReach afi safi nlri flags nh).Fits := by
  rw [Attribute.Fits, extended_wireReach, length_wireReach]
  by_cases h : 2 + 1 + 1 + nh.length + 1 + nlri.length > 255
  · simpa [h] using hlen
  · simp only [h, decide_false, Bool.false_eq_true, if_false]
    omega

theorem wireMpReach_eq_encode (nh : Bytes) :
    wireMpReach afi safi nlri flags (UInt8.ofNat nh.length) nh =
      (wireReach afi safi nlri flags nh).encode := by
  have hvalue : (wireReach afi safi nlri flags nh).value =
      be16 afi.toNat ++ [safi, UInt8.ofNat nh.length] ++ nh ++ [0] ++ nlri := rfl
  have hlen := length_wireReach afi safi nlri flags nh
  rw [hvalue] at hlen
  rw [Attribute.encode, extended_wireReach, wireMpReach]
  simp only [wireReach, hlen, decide_eq_true_eq]
  simp only [append_assoc, cons_append, nil_append]

theorem rewriteMpReach_cons (nhLen : UInt8) (rest : Bytes) :
    rewriteMpReach afi safi nlri flags (nhLen :: rest) =
      some (if nhLen.toNat ≤ rest.length then
        some (wireReach afi safi nlri flags (rest.take nhLen.toNat)).encode else none) := by
  have hunfold : rewriteMpReach afi safi nlri flags (nhLen :: rest) =
      if (nhLen :: rest).length ≥ 1 + nhLen.toNat then
        (slice (nhLen :: rest) 1 (1 + nhLen.toNat)).bind fun nh =>
          some (some (wireMpReach afi safi nlri flags nhLen nh))
      else some none := rfl
  rw [hunfold, length_cons]
  by_cases h : nhLen.toNat ≤ rest.length
  · have hslice : slice (nhLen :: rest) 1 (1 + nhLen.toNat) = some (rest.take nhLen.toNat) := by
      rw [slice, if_pos (by rw [length_cons]; omega)]
      simp
    have hnh : UInt8.ofNat (rest.take nhLen.toNat).length = nhLen := by
      rw [length_take, Nat.min_eq_left h, UInt8.ofNat_toNat]
    have hwire := wireMpReach_eq_encode afi safi nlri flags (rest.take nhLen.toNat)
    rw [hnh] at hwire
    rw [if_pos (by omega), hslice, bind_some, hwire, if_pos h]
  · rw [if_neg (by omega), if_neg h]

end

/-- The attribute that the turn at its position writes. -/
theorem rewrittenAt_encode (done tail : Bytes) (a : Attribute) :
    ∃ bytes, rewrittenAt afi safi nlri (done ++ (a.encode ++ tail)) done.length a.flags a.typeCode
        (header a).length ((header a).length + a.value.length) = some bytes ∧
      bytes.getD a.encode = (normalized afi safi nlri a).encode := by
  by_cases h14 : a.typeCode = 14
  · have hslice : slice (done ++ (a.encode ++ tail)) (done.length + (header a).length)
        (done.length + ((header a).length + a.value.length)) = some a.value := by
      rw [slice_after (by omega) (by simp [encode_eq_header]), encode_eq_header]
      simp
    rw [rewrittenAt, if_pos h14, hslice]
    cases hvalue : a.value with
    | nil => exact ⟨none, rfl, by simp [normalized, hvalue]⟩
    | cons nhLen rest =>
      refine ⟨_, rewriteMpReach_cons afi safi nlri a.flags nhLen rest, ?_⟩
      by_cases hroom : nhLen.toNat ≤ rest.length <;> simp [normalized, hvalue, h14, hroom]
  · refine ⟨none, by rw [rewrittenAt, if_neg h14]; rfl, ?_⟩
    unfold normalized
    split <;> simp [h14]

/-- A turn where an attribute starts. -/
theorem turn_encode (done tail out : Bytes) (ha : a.Fits) :
    turn afi safi nlri (done ++ (a.encode ++ tail)) done.length out =
      some (.next (done ++ a.encode).length (out ++ (normalized afi safi nlri a).encode)) := by
  have hlen : a.encode.length = (header a).length + a.value.length := by
    rw [encode_eq_header, length_append]
  have hhead : 3 ≤ (header a).length := by
    rw [length_header]
    split <;> omega
  have hflags : (done ++ (a.encode ++ tail))[done.length]? = some a.flags := by
    rw [getElem?_here]
    rfl
  have hcode : (done ++ (a.encode ++ tail))[done.length + 1]? = some a.typeCode := by
    rw [getElem?_after]
    rfl
  have hcopy : slice (done ++ (a.encode ++ tail)) (done.length + 0) (done.length + a.encode.length) =
      some a.encode := by
    rw [slice_after (Nat.zero_le _) (by simp)]
    simp
  have hlong : (done ++ (a.encode ++ tail)).length =
      done.length + ((header a).length + a.value.length) + tail.length := by
    simp only [length_append, hlen]
    omega
  obtain ⟨bytes, hbytes, hgetD⟩ := rewrittenAt_encode afi safi nlri done tail a
  rw [turn, if_neg (by omega), hflags, hcode]
  simp only [bind_eq_bind, bind_some, readLengths_encode ha tail, hbytes]
  rw [if_neg (by omega), ← hgetD, length_append, hlen]
  cases bytes with
  | some bytes => rfl
  | none =>
    rw [← hlen]
    simp only [Nat.add_zero] at hcopy
    simp only [hcopy]
    rfl

/-- A turn where no attribute starts. -/
theorem turn_incomplete (done out : Bytes) {rest : Bytes} (h : Attribute.next rest = none) :
    turn afi safi nlri (done ++ rest) done.length out = some (.stop (out ++ rest)) := by
  match rest, h with
  | [], _ | [_], _ => rw [turn, if_pos (by simp), copyRest_after]
  | flags :: typeCode :: tail, h =>
    have hcode : (done ++ flags :: typeCode :: tail)[done.length + 1]? = some typeCode := by
      rw [getElem?_after]
      rfl
    rw [turn, if_neg (by simp), getElem?_here, hcode]
    have hlengths := @readLengths_incomplete done flags typeCode tail h
    rcases hlengths with hnone | ⟨attrLen, headerLen, hsome, hlong⟩
    · simp [hnone, copyRest_after]
    · have hpast : done.length + (headerLen + attrLen) >
          (done ++ flags :: typeCode :: tail).length := by
        rw [length_append]
        omega
      simp only [List.getElem?_cons_zero, bind_eq_bind, bind_some, hsome,
        if_pos hpast, copyRest_after]

/-- The loop from a position on: it takes what attributes there are and copies the rest. -/
theorem normalizeLoop_append (done out : Bytes) {rest : Bytes} {fuel : Nat}
    (hfuel : rest.length < fuel) :
    normalizeLoop afi safi nlri (done ++ rest) fuel done.length out =
      some (out ++ ((scan Attribute.next fuel rest).flatMap
        (fun a => (normalized afi safi nlri a).encode) ++ unread Attribute.next fuel rest)) := by
  induction fuel generalizing done out rest with
  | zero => omega
  | succ fuel ih =>
    cases hread : Attribute.next rest with
    | none =>
      by_cases hend : done.length < (done ++ rest).length
      · rw [normalizeLoop, if_pos hend, turn_incomplete afi safi nlri done out hread]
        simp [scan, unread, hread]
      · have hnil : rest = [] := by
          rw [length_append] at hend
          exact length_eq_zero_iff.mp (by omega)
        subst hnil
        rw [normalizeLoop, if_neg hend]
        simp [scan, unread, hread]
    | some item =>
      obtain ⟨a, tail⟩ := item
      obtain ⟨hfits, rfl⟩ := Attribute.next_eq_some hread
      have hpos : 0 < a.encode.length := by simp [Attribute.encode]
      rw [length_append] at hfuel
      have htail : tail.length < fuel := by omega
      have hstep := ih (done ++ a.encode) (out ++ (normalized afi safi nlri a).encode) htail
      rw [append_assoc] at hstep
      rw [normalizeLoop, if_pos (by simp only [length_append]; omega),
        turn_encode afi safi nlri done tail out hfits]
      simp only [bind_eq_bind, bind_some, hstep, scan, unread, hread, flatMap_cons, append_assoc]

end Attributes

/-! ## Blobs -/

/-- The form in a dump: the length of the next hop and the next hop, nothing else. -/
def Abbreviated (a : Attribute) (nh : Bytes) : Prop :=
  a.typeCode = 14 ∧ ∃ n : UInt8, a.value = n :: nh ∧ nh.length = n.toNat

/-- An MP_REACH attribute on the wire for one prefix. -/
structure WireForm (afi : UInt16) (safi : UInt8) (p : Prefix) (nh : Bytes) (a : Attribute) :
    Prop where
  typeCode : a.typeCode = 14
  fits : a.Fits
  value : ∃ n nlri, a.value = be16 afi.toNat ++ [safi, n] ++ nh ++ [0] ++ nlri ∧
    n.toNat = nh.length ∧ decodePrefixes p.family nlri = some [p]
  nextHop : ∀ rpki ppi, (filterPaFromRaw (rpki :: ppi :: a.encode)).2 = some nh

/-- What the rewriting makes of an attribute. -/
structure Normalizes (afi : UInt16) (safi : UInt8) (p : Prefix) (a b : Attribute) : Prop where
  other : a.typeCode ≠ 14 → b = a
  reach : ∀ nh, Abbreviated a nh → WireForm afi safi p nh b

section Blobs

variable (afi : UInt16) (safi : UInt8) (p : Prefix)

theorem normalized_of_ne (h : a.typeCode ≠ 14) (nlri : Bytes) : normalized afi safi nlri a = a := by
  unfold normalized
  split <;> simp [h]

theorem normalized_of_abbreviated (h : Abbreviated a nh)
    (nlri : Bytes) : normalized afi safi nlri a = wireReach afi safi nlri a.flags nh := by
  obtain ⟨hcode, n, hvalue, hlen⟩ := h
  simp [normalized, hvalue, hcode, ← hlen]

theorem length_of_abbreviated (h : Abbreviated a nh) : nh.length < 256 := by
  obtain ⟨_, n, _, hlen⟩ := h
  rw [hlen]
  exact n.toNat_lt

/-- The next hop that the builders find in the attribute. -/
theorem nextHopOf_wireReach (nlri : Bytes) (flags : UInt8) (h : nh.length < 256) :
    Attribute.nextHopOf (wireReach afi safi nlri flags nh).value = some nh := by
  have hlen : (UInt8.ofNat nh.length).toNat = nh.length := by
    rw [UInt8.toNat_ofNat']
    omega
  simp [wireReach, be16, Attribute.nextHopOf, hlen]

theorem nlriEncodedLen_le : nlriEncodedLen p ≤ 17 := by
  have hlen := p.len_le
  have hbits : p.addr.family.bits ≤ 128 := by cases p.addr.family <;> decide
  unfold nlriEncodedLen
  omega

theorem fits_normalized (ha : a.Fits) : (normalized afi safi (encodePrefixNlri p) a).Fits := by
  unfold normalized
  split
  · exact ha
  next nhLen rest _ =>
    split
    next hroom =>
      have hnlri := nlriEncodedLen_le p
      have hn := nhLen.toNat_lt
      apply fits_wireReach
      rw [length_encodePrefixNlri, length_take]
      omega
    · exact ha

/-- The last next hop of what came out, if the last MP_REACH was in the form of a dump. -/
theorem lastNextHop_normalized (before : List Attribute) {after : List Attribute}
    (ha : Abbreviated a nh) (hafter : ∀ b ∈ after, b.typeCode ≠ 14) (nlri : Bytes) :
    lastNextHop none ((before ++ a :: after).map (normalized afi safi nlri)) = some nh := by
  have hrest : ∀ b ∈ after.map (normalized afi safi nlri), b.typeCode ≠ 14 := by
    intro b hb
    obtain ⟨c, hc, rfl⟩ := mem_map.mp hb
    rw [normalized_of_ne afi safi (hafter c hc)]
    exact hafter c hc
  rw [map_append, map_cons, lastNextHop_append, normalized_of_abbreviated afi safi ha,
    lastNextHop_cons_reach rfl (nextHopOf_wireReach afi safi nlri a.flags (length_of_abbreviated ha)),
    lastNextHop_of_ne hrest]

theorem wireForm_wireReach (flags : UInt8) (h : nh.length < 256) :
    WireForm afi safi p nh (wireReach afi safi (encodePrefixNlri p) flags nh) := by
  have hnlri := nlriEncodedLen_le p
  have hfits : (wireReach afi safi (encodePrefixNlri p) flags nh).Fits := by
    apply fits_wireReach
    rw [length_encodePrefixNlri]
    omega
  have hprefix : decodePrefixes p.family (encodePrefixNlri p) = some [p] := by
    have h : decodePrefixes p.family ([p].flatMap encodePrefixNlri) = some [p] :=
      decodePrefixes_flatMap (by simp)
    rwa [flatMap_singleton] at h
  refine ⟨rfl, hfits, ⟨UInt8.ofNat nh.length, encodePrefixNlri p, rfl, ?_, hprefix⟩, ?_⟩
  · rw [UInt8.toNat_ofNat']
    omega
  · intro rpki ppi
    have hread : (filterPaFromRaw (rpki :: ppi :: (List.flatMap Attribute.encode
        [wireReach afi safi (encodePrefixNlri p) flags nh] ++ []))).2 = _ :=
      congrArg Prod.snd (filterPaFromRaw_flatMap rpki ppi (by simpa using hfits) rfl)
    rw [flatMap_singleton, append_nil] at hread
    rw [hread, lastNextHop_cons_reach rfl (nextHopOf_wireReach afi safi _ flags h)]
    rfl

theorem normalizes_normalized (a : Attribute) :
    Normalizes afi safi p a (normalized afi safi (encodePrefixNlri p) a) where
  other h := normalized_of_ne afi safi h _
  reach nh h := by
    rw [normalized_of_abbreviated afi safi h]
    exact wireForm_wireReach afi safi p a.flags (length_of_abbreviated h)

/-- What comes out of a blob: its attributes one by one, those other than MP_REACH as they are and
those in the form of a dump in wire form, and the tail after the last complete attribute. -/
theorem normalizeMrtMpReach_normalizes (raw : Bytes) :
    ∃ (attributes rewritten : List Attribute) (tail : Bytes),
      raw = attributes.flatMap Attribute.encode ++ tail ∧ (∀ a ∈ attributes, a.Fits) ∧
      Attribute.next tail = none ∧
      normalizeMrtMpReach raw afi safi p = some (rewritten.flatMap Attribute.encode ++ tail) ∧
      List.Forall₂ (Normalizes afi safi p) attributes rewritten ∧
      ∀ rpki ppi before a after nh, attributes = before ++ a :: after → Abbreviated a nh →
        (∀ b ∈ after, b.typeCode ≠ 14) →
        (filterPaFromRaw (rpki :: ppi :: (rewritten.flatMap Attribute.encode ++ tail))).2 =
          some nh := by
  let attributes := scan Attribute.next (raw.length + 1) raw
  let tail := unread Attribute.next (raw.length + 1) raw
  have hsplit : attributes.flatMap Attribute.encode ++ tail = raw :=
    flatMap_scan_append_unread (fun _ _ _ h => (Attribute.next_eq_some h).2) _ _
  have hfits : ∀ a ∈ attributes, a.Fits :=
    mem_scan_of (fun _ _ _ h => (Attribute.next_eq_some h).1) _ _
  have htail : Attribute.next tail = none := by
    refine next_unread rfl (fun bs a rest h => ?_) (by omega)
    rw [(Attribute.next_eq_some h).2]
    simp [Attribute.encode]
    omega
  have hout : normalizeMrtMpReach raw afi safi p =
      some ((attributes.map (normalized afi safi (encodePrefixNlri p))).flatMap Attribute.encode ++
        tail) := by
    have hslice : slice p.addr.octets 0 ((p.len + 7) / 8) = some p.significant := by
      have hlen := p.significant_length
      rw [Prefix.significant, length_take] at hlen
      rw [slice, if_pos (by omega)]
      rfl
    have hloop := normalizeLoop_append afi safi (encodePrefixNlri p) [] [] (Nat.lt_succ_self raw.length)
    rw [normalizeMrtMpReach, hslice, flatMap_map]
    exact hloop
  have hrewritten : ∀ b ∈ attributes.map (normalized afi safi (encodePrefixNlri p)), b.Fits := by
    intro b hb
    obtain ⟨a, ha, rfl⟩ := mem_map.mp hb
    exact fits_normalized afi safi p (hfits a ha)
  refine ⟨attributes, _, tail, hsplit.symm, hfits, htail, hout, ?_, ?_⟩
  · rw [forall₂_map_right_iff]
    exact forall₂_same.mpr fun a _ => normalizes_normalized afi safi p a
  · intro rpki ppi before a after nh heq ha hafter
    rw [filterPaFromRaw_flatMap rpki ppi hrewritten htail, heq]
    exact lastNextHop_normalized afi safi before ha hafter _

end Blobs

end Rotonda.MrtIn
