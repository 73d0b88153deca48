import Mathlib.Data.List.Induction
import Rotonda.Lib.Heap
import Rotonda.Payload

/-!
The interner of path attributes, over a heap of shared blobs.

The interner keeps weak references only, by the hash of the bytes, and prunes the dead ones when it
comes across them.  A map whose RPKI state is set is copied if its blob is shared or interned.

* `Copies.step`: what the operations mean if every map has its own bytes;
* `interning_transparent`: maps read back as if they had, whatever the hash function, and live
  results of `intern` on equal bytes share a blob.
-/

namespace Rotonda

open Lib List Heap

structure PathAttributeInterner where
  heap : Heap RotondaPaMap
  /-- Addresses by shard and hash. -/
  shards : Dict (Nat × UInt64) (List Nat)

/-- The operations on maps, which are named by their number. -/
inductive PaMapOp where
  | new (pa : RotondaPaMap)
  | clone (r : Nat)
  | dedupWith (r : Nat)
  | drop (r : Nat)
  | setRpkiInfo (r : Nat) (rov : RovStatus)

namespace PathAttributeInterner

def numShards : Nat := 64

def default : PathAttributeInterner := ⟨⟨[], fun _ => 0, []⟩, Dict.empty⟩

variable (hash : Bytes → UInt64)

/-- The shard and the key of a blob. -/
def slot (pa : RotondaPaMap) : Nat × UInt64 := ((hash pa.raw).toNat % numShards, hash pa.raw)

def entries (st : PathAttributeInterner) (key : Nat × UInt64) : List Nat :=
  (st.shards.get key).getD []

/-- What `swap_remove` leaves of a vector whose first entry it removes. -/
def swapRemove : List Nat → List Nat
  | [] => []
  | a :: as => (a :: as).getLast (cons_ne_nil a as) :: (a :: as).dropLast

theorem swapRemove_perm (as : List Nat) : (swapRemove as).Perm as := by
  cases as with
  | nil => exact .refl _
  | cons a as =>
    refine (perm_append_singleton _ _).symm.trans (.of_eq ?_)
    exact dropLast_append_getLast _

/-- The loop over the entries: those before its index, and those from it on. -/
def scan (pa : RotondaPaMap) (heap : Heap RotondaPaMap) (before : List Nat) :
    List Nat → Option Nat × List Nat × Heap RotondaPaMap
  | [] => (none, before, heap)
  | a :: rest => match heap.upgrade a with
    | some existing =>
      if existing.raw = pa.raw then (some a, before ++ a :: rest, heap)
      else scan pa heap (before ++ [a]) rest
    | none => scan pa (heap.dropWeak a) before (swapRemove rest)
termination_by rest => rest.length
decreasing_by all_goals simp [(swapRemove_perm rest).length_eq]

def intern (st : PathAttributeInterner) (pa : RotondaPaMap) : PathAttributeInterner :=
  let key := slot hash pa
  match scan pa st.heap [] (st.entries key) with
  | (some a, as, heap) => ⟨heap.share a, st.shards.insert key as⟩
  | (none, as, heap) =>
    ⟨(heap.alloc pa).downgrade heap.cells.length, st.shards.insert key (as ++ [heap.cells.length])⟩

def step (st : PathAttributeInterner) : PaMapOp → PathAttributeInterner
  | .new pa => { st with heap := st.heap.alloc pa }
  | .clone r => (st.heap.addr r).elim st fun a => { st with heap := st.heap.share a }
  | .dedupWith r => (st.heap.read r).elim st (st.intern hash)
  | .drop r => { st with heap := st.heap.release r }
  | .setRpkiInfo r rov => { st with heap := st.heap.makeMut r (·.setRpkiInfo rov) }

def run (ops : List PaMapOp) : PathAttributeInterner := ops.foldl (step hash) default

end PathAttributeInterner

/-- The maps as values of their own, each with whether it is what `intern` gave. -/
abbrev Copies := List (Option (RotondaPaMap × Bool))

namespace Copies

def step (cs : Copies) : PaMapOp → Copies
  | .new pa => cs ++ [some (pa, false)]
  | .clone r => cs[r]?.join.elim cs fun c => cs ++ [some c]
  | .dedupWith r => cs[r]?.join.elim cs fun c => cs ++ [some (c.1, true)]
  | .drop r => cs.set r none
  | .setRpkiInfo r rov => cs.modify r (Option.map fun c => (c.1.setRpkiInfo rov, false))

def run (ops : List PaMapOp) : Copies := ops.foldl step []

end Copies

namespace PathAttributeInterner

variable {hash : Bytes → UInt64} {pa v v' : RotondaPaMap} {heap heap' : Heap RotondaPaMap}
  {st : PathAttributeInterner} {cs cs' : Copies} {as : List Nat} {key : Nat × UInt64} {r r' : Nat}

/-! ## The loop -/

theorem eq_of_raw (h : v.raw = v'.raw) : v = v' := by
  cases v
  cases v'
  cases h
  rfl

/-- What the loop over the entries `as` does to them and to the heap, and what it gives. -/
structure Scanned (pa : RotondaPaMap) (heap : Heap RotondaPaMap) (as : List Nat)
    (out : Option Nat × List Nat × Heap RotondaPaMap) : Prop where
  cells : out.2.2.cells = heap.cells
  refs : out.2.2.refs = heap.refs
  weaks {a : Nat} (h : heap.Live a) : out.2.2.weaks a = heap.weaks a
  subset : out.2.1 ⊆ as
  keeps {a : Nat} (h : a ∈ as) (hlive : heap.Live a) : a ∈ out.2.1
  found {a : Nat} (h : out.1 = some a) : a ∈ out.2.1 ∧ heap.Live a ∧ heap.cells[a]? = some pa
  missed (h : out.1 = none) : ∀ a ∈ out.2.1, heap.cells[a]? ≠ some pa

theorem scanned_scan (pa : RotondaPaMap) (heap : Heap RotondaPaMap) (before rest : List Nat)
    (hm : heap.Valid) (hbefore : ∀ a ∈ before, heap.cells[a]? ≠ some pa) :
    Scanned pa heap (before ++ rest) (scan pa heap before rest) := by
  fun_induction scan pa heap before rest with
  | case1 heap before =>
    exact ⟨rfl, rfl, fun _ => rfl, by simp, fun ha _ => by simpa using ha, by simp, fun _ => hbefore⟩
  | case2 heap before a rest existing hup heq =>
    obtain ⟨hlive, hcell⟩ := upgrade_eq_some.mp hup
    refine ⟨rfl, rfl, fun _ => rfl, fun _ ha => ha, fun ha _ => ha, fun h => ?_, by simp⟩
    cases h
    exact ⟨by simp, hlive, hcell.trans (congrArg some (eq_of_raw heq))⟩
  | case3 heap before a rest existing hup hne ih =>
    obtain ⟨hlive, hcell⟩ := upgrade_eq_some.mp hup
    rw [← singleton_append, ← append_assoc]
    refine ih hm fun b hb => ?_
    rcases mem_append.mp hb with hb | hb
    · exact hbefore b hb
    · rw [mem_singleton.mp hb, hcell]
      rintro ⟨⟩
      exact hne rfl
  | case4 heap before a rest hup ih =>
    have hdead := not_live_of_upgrade hm hup
    obtain ⟨hcells, hrefs, hweaks, hsubset, hkeeps, hfound, hmissed⟩ := ih hm hbefore
    have hrest {b : Nat} : b ∈ swapRemove rest ↔ b ∈ rest := (swapRemove_perm rest).mem_iff
    have hne {b : Nat} (hb : heap.Live b) : b ≠ a := by
      rintro rfl
      exact hdead hb
    refine ⟨hcells, hrefs, fun hb => (hweaks hb).trans (if_neg (hne hb)), fun b hb => ?_,
      fun {b} hb hlive => hkeeps ?_ hlive, hfound, hmissed⟩
    · have hmem := hsubset hb
      rw [mem_append, hrest] at hmem
      simp only [mem_append, mem_cons]
      tauto
    · rw [mem_append, mem_cons, or_iff_right (hne hlive)] at hb
      rwa [mem_append, hrest]

/-! ## The table -/

/-- The table lists every live blob at most once under a key, and has weak references to it. -/
structure Filed (st : PathAttributeInterner) : Prop where
  below {key : Nat × UInt64} {a : Nat} (h : a ∈ st.entries key) : a < st.heap.cells.length
  held {key : Nat × UInt64} {a : Nat} (h : a ∈ st.entries key) (hlive : st.heap.Live a) :
    0 < st.heap.weaks a
  distinct {key : Nat × UInt64} {a b : Nat} (ha : a ∈ st.entries key) (hb : b ∈ st.entries key)
    (hlive : st.heap.Live a) (hlive' : st.heap.Live b) (h : st.heap.cells[a]? = st.heap.cells[b]?) :
    a = b

/-- The maps read as the copies, and unmodified results of `intern` are in the table. -/
structure Agrees (hash : Bytes → UInt64) (st : PathAttributeInterner) (cs : Copies) : Prop where
  valid : st.heap.Valid
  size : st.heap.refs.length = cs.length
  reads (r : Nat) : st.heap.read r = cs[r]?.join.map Prod.fst
  filed : st.Filed
  interned {r : Nat} {v : RotondaPaMap} (h : cs[r]?.join = some (v, true)) :
    ∃ a, st.heap.addr r = some a ∧ a ∈ st.entries (slot hash v)

theorem Filed.of_extends (h : st.Filed) (hext : st.heap.Extends heap') :
    Filed { st with heap := heap' } := by
  have hold {key a} (ha : a ∈ st.entries key) (hlive : heap'.Live a) : st.heap.Live a :=
    (hext.live hlive).resolve_right fun hnew => Nat.not_lt.mpr hnew.1 (h.below ha)
  have hsame {key a} (ha : a ∈ st.entries key) (hlive : heap'.Live a) :
      heap'.cells[a]? = st.heap.cells[a]? :=
    hext.same (h.below ha) (h.held ha (hold ha hlive))
  refine ⟨fun ha => Nat.lt_of_lt_of_le (h.below ha) hext.grows, fun ha hlive => ?_,
    fun ha hb hlive hlive' heq => ?_⟩
  · exact (congrFun hext.weaks _).symm ▸ h.held ha (hold ha hlive)
  · refine h.distinct ha hb (hold ha hlive) (hold hb hlive') ?_
    rw [← hsame ha hlive, ← hsame hb hlive']
    exact heq

theorem Agrees.of_extends (h : st.Agrees hash cs) (hext : st.heap.Extends heap')
    (hsize : heap'.refs.length = cs'.length)
    (hreads : ∀ r, heap'.read r = cs'[r]?.join.map Prod.fst)
    (hinterned : ∀ r v, cs'[r]?.join = some (v, true) →
      ∃ a, heap'.addr r = some a ∧ a ∈ st.entries (slot hash v)) :
    Agrees hash { st with heap := heap' } cs' :=
  ⟨hext.valid h.valid, hsize, hreads, h.filed.of_extends hext, hinterned _ _⟩

/-- One more map, which is in the table if it is marked. -/
theorem Agrees.append (h : st.Agrees hash cs) {a : Nat} {c : RotondaPaMap × Bool}
    (hext : st.heap.Extends heap') (hrefs : heap'.refs = st.heap.refs ++ [some a])
    (hcells : ∀ b < st.heap.cells.length, heap'.cells[b]? = st.heap.cells[b]?)
    (hcell : heap'.cells[a]? = some c.1) (hmarked : c.2 = true → a ∈ st.entries (slot hash c.1)) :
    Agrees hash { st with heap := heap' } (cs ++ [some c]) := by
  refine h.of_extends hext (by simp [hrefs, h.size]) (fun r => ?_) fun r v hv => ?_
  · rw [read_append h.valid hrefs hcells, join_append_singleton, h.size, hcell, h.reads]
    split <;> rfl
  · rw [join_append_singleton] at hv
    rw [addr_append hrefs, h.size]
    by_cases hr : r = cs.length
    · rw [if_pos hr] at hv ⊢
      cases hv
      exact ⟨a, rfl, hmarked rfl⟩
    · rw [if_neg hr] at hv ⊢
      exact h.interned hv

/-! ## Interning -/

theorem entries_insert (heap : Heap RotondaPaMap) (shards : Dict (Nat × UInt64) (List Nat))
    (key : Nat × UInt64) (as : List Nat) (k : Nat × UInt64) :
    entries ⟨heap, shards.insert key as⟩ k = if k = key then as else entries ⟨heap, shards⟩ k := by
  rw [entries, Dict.get_insert]
  split <;> rfl

/-- The loop drops dead entries only. -/
theorem Agrees.scanned (h : st.Agrees hash cs) {found : Option Nat}
    (hscan : Scanned pa st.heap (st.entries key) (found, as, heap')) :
    Agrees hash ⟨heap', st.shards.insert key as⟩ cs := by
  obtain ⟨cells, weaks, refs⟩ := heap'
  obtain ⟨hcells, hrefs, hweaks, hsubset, hkeeps, -, -⟩ := hscan
  obtain rfl : cells = st.heap.cells := hcells
  obtain rfl : refs = st.heap.refs := hrefs
  have hmem {k a} (ha : a ∈ entries ⟨⟨st.heap.cells, weaks, st.heap.refs⟩, st.shards.insert key as⟩ k) :
      a ∈ st.entries k := by
    rw [entries_insert] at ha
    split at ha
    next hk => exact hk ▸ hsubset ha
    · exact ha
  refine ⟨h.valid, h.size, h.reads, ⟨fun ha => h.filed.below (hmem ha), fun ha hlive => ?_,
    fun ha hb => h.filed.distinct (hmem ha) (hmem hb)⟩, fun hv => ?_⟩
  · exact (hweaks hlive).symm ▸ h.filed.held (hmem ha) hlive
  · obtain ⟨a, haddr, ha⟩ := h.interned hv
    refine ⟨a, haddr, ?_⟩
    rw [entries_insert]
    split
    next hk => exact hkeeps (hk ▸ ha) (live_of_addr haddr)
    · exact ha

/-- A new blob joins the table if no entry of its key has its bytes. -/
theorem Agrees.filedNew (h : st.Agrees hash cs)
    (hother : ∀ a ∈ st.entries (slot hash v), st.heap.cells[a]? ≠ some v) :
    Agrees hash ⟨(st.heap.alloc v).downgrade st.heap.cells.length,
      st.shards.insert (slot hash v) (st.entries (slot hash v) ++ [st.heap.cells.length])⟩
      (cs ++ [some (v, true)]) := by
  have hext := extends_alloc st.heap v
  have hnew : Agrees hash { st with heap := st.heap.alloc v } (cs ++ [some (v, false)]) :=
    h.append hext rfl (fun b hb => List.getElem?_append_left hb) (by simp [Heap.alloc]) (by simp)
  have hmem {heap' k a} (ha : a ∈ entries ⟨heap', st.shards.insert (slot hash v)
      (st.entries (slot hash v) ++ [st.heap.cells.length])⟩ k) :
      a ∈ st.entries k ∨ a = st.heap.cells.length ∧ k = slot hash v := by
    rw [entries_insert] at ha
    split at ha
    next hk => simpa [hk] using ha
    · exact .inl ha
  have hlast : (st.heap.alloc v).cells[st.heap.cells.length]? = some v := by simp [Heap.alloc]
  have hne {a} (ha : a ∈ st.entries (slot hash v)) : (st.heap.alloc v).cells[a]? ≠ some v := by
    rw [Heap.alloc, List.getElem?_append_left (h.filed.below ha)]
    exact hother a ha
  refine ⟨hnew.valid, ?_, fun r => ?_, ⟨fun ha => ?_, fun ha hlive => ?_,
    fun ha hb hlive hlive' heq => ?_⟩, fun {r w} hv => ?_⟩
  · exact hnew.size.trans (by simp)
  · refine (hnew.reads r).trans ?_
    rw [join_append_singleton, join_append_singleton]
    split <;> rfl
  · rcases hmem ha with ha | ⟨rfl, _⟩
    · exact hnew.filed.below ha
    · simp [Heap.alloc, Heap.downgrade]
  · simp only [Heap.downgrade]
    split
    · exact Nat.succ_pos _
    next hold => exact hnew.filed.held ((hmem ha).resolve_right fun hlast => hold hlast.1) hlive
  · rcases hmem ha with ha | ⟨rfl, hk⟩ <;> rcases hmem hb with hb | ⟨rfl, hk'⟩
    · exact hnew.filed.distinct ha hb hlive hlive' heq
    · exact absurd (heq.trans hlast) (hne (hk' ▸ ha))
    · exact absurd (heq.symm.trans hlast) (hne (hk ▸ hb))
    · rfl
  · rw [join_append_singleton] at hv
    rw [entries_insert]
    by_cases hr : r = cs.length
    · rw [if_pos hr] at hv
      cases hv
      refine ⟨st.heap.cells.length, (addr_append rfl r).trans (if_pos (hr.trans h.size.symm)), ?_⟩
      simp
    · rw [if_neg hr] at hv
      have hold : (cs ++ [some (v, false)])[r]?.join = some (w, true) := by
        rw [join_append_singleton, if_neg hr, hv]
      obtain ⟨a, haddr, ha⟩ := hnew.interned hold
      refine ⟨a, haddr, ?_⟩
      split
      next hk => exact mem_append_left _ (hk ▸ ha)
      · exact ha

theorem Agrees.intern (h : st.Agrees hash cs) (v : RotondaPaMap) :
    (st.intern hash v).Agrees hash (cs ++ [some (v, true)]) := by
  have hscan := scanned_scan v st.heap [] (st.entries (slot hash v)) h.valid (by simp)
  unfold PathAttributeInterner.intern
  dsimp only
  rw [nil_append] at hscan
  generalize scan v st.heap [] (st.entries (slot hash v)) = out at hscan ⊢
  obtain ⟨found, as, heap'⟩ := out
  have hpruned := h.scanned hscan
  have hentries := (entries_insert heap' st.shards (slot hash v) as (slot hash v)).trans (if_pos rfl)
  cases found with
  | some a =>
    obtain ⟨hmem, hlive, hcell⟩ := hscan.found rfl
    refine hpruned.append (extends_share ?_) rfl (fun _ _ => rfl) ?_ fun _ => ?_
    · rw [Heap.Live, hscan.refs]
      exact hlive
    · exact hscan.cells ▸ hcell
    · rw [hentries]
      exact hmem
  | none =>
    have hnew := hpruned.filedNew (v := v) ?_
    · rwa [hentries, Dict.insert_insert] at hnew
    · intro a ha
      rw [hentries] at ha
      exact hscan.cells ▸ hscan.missed rfl a ha

/-! ## Runs -/

theorem join_modify (cs : Copies) (r : Nat) (f : RotondaPaMap × Bool → RotondaPaMap × Bool)
    (r' : Nat) : (cs.modify r (Option.map f))[r']?.join =
      if r' = r then cs[r']?.join.map f else cs[r']?.join := by
  rw [List.getElem?_modify]
  by_cases hr : r = r'
  · rw [if_pos hr.symm]
    rcases cs[r']? with _ | _ | c <;> simp [hr]
  · rw [if_neg (Ne.symm hr)]
    cases cs[r']? <;> simp [hr]

theorem Agrees.step (h : st.Agrees hash cs) (op : PaMapOp) :
    (st.step hash op).Agrees hash (Copies.step cs op) := by
  cases op with
  | new pa =>
    exact h.append (extends_alloc st.heap pa) rfl (fun b hb => List.getElem?_append_left hb)
      (by simp [Heap.alloc]) (by simp)
  | clone r =>
    have hread := h.reads r
    rw [PathAttributeInterner.step, Copies.step]
    cases hc : cs[r]?.join with
    | none =>
      rw [hc] at hread
      rw [addr_eq_none h.valid hread]
      exact h
    | some c =>
      rw [hc] at hread
      obtain ⟨a, haddr, hcell⟩ := Option.bind_eq_some_iff.mp hread
      rw [haddr]
      refine h.append (extends_share (live_of_addr haddr)) rfl (fun _ _ => rfl) hcell ?_
      intro hmarked
      obtain ⟨v, b⟩ := c
      cases hmarked
      obtain ⟨a', haddr', ha⟩ := h.interned hc
      cases haddr.symm.trans haddr'
      exact ha
  | dedupWith r =>
    rw [PathAttributeInterner.step, Copies.step, h.reads]
    cases cs[r]?.join with
    | none => exact h
    | some c => exact h.intern c.1
  | drop r =>
    refine h.of_extends (extends_release st.heap r) (by simp [Heap.release, Copies.step, h.size])
      (fun r' => ?_) fun r' v hv => ?_
    · rw [read_release, h.reads, Copies.step, join_set_none]
      split <;> rfl
    · rw [Copies.step, join_set_none] at hv
      rw [addr_release]
      split at hv
      · cases hv
      next hr =>
        rw [if_neg hr]
        exact h.interned hv
  | setRpkiInfo r rov =>
    refine h.of_extends (extends_makeMut h.valid r _)
      (by rw [length_makeMut h.valid, h.size, Copies.step, length_modify])
      (fun r' => ?_) fun r' v hv => ?_
    · rw [read_makeMut h.valid, h.reads, h.reads, Copies.step, join_modify]
      split
      next hr => rw [hr, Option.map_map, Option.map_map]; rfl
      · rfl
    · rw [Copies.step, join_modify] at hv
      split at hv
      · obtain ⟨c, _, hc⟩ := Option.map_eq_some_iff.mp hv
        cases hc
      next hr =>
        rw [addr_makeMut h.valid hr]
        exact h.interned hv

theorem agrees_run (hash : Bytes → UInt64) (ops : List PaMapOp) :
    (run hash ops).Agrees hash (Copies.run ops) := by
  induction ops using List.reverseRecOn with
  | nil =>
    have hnone {key a} (ha : a ∈ default.entries key) : False := by simp [entries, default] at ha
    refine ⟨fun a ha => ?_, rfl, fun _ => rfl, ⟨fun ha => (hnone ha).elim,
      fun ha => (hnone ha).elim, fun ha => (hnone ha).elim⟩, fun hv => ?_⟩
    · cases ha
    · cases hv
  | append_singleton ops op ih =>
    rw [run, Copies.run, foldl_concat, foldl_concat]
    exact ih.step op

/-- After any operations the maps read as if each had its own bytes, a change of the RPKI state
leaves what all other maps read, and unmodified results of `intern` on equal bytes share a blob. -/
theorem interning_transparent (hash : Bytes → UInt64) (ops : List PaMapOp) :
    (∀ r, ((run hash ops).heap.read r).map RotondaPaMap.raw =
      (Copies.run ops)[r]?.join.map fun c => c.1.raw) ∧
    (∀ r rov r', r' ≠ r →
      ((run hash ops).step hash (.setRpkiInfo r rov)).heap.read r' = (run hash ops).heap.read r') ∧
    ∀ r r' v v', (Copies.run ops)[r]?.join = some (v, true) →
      (Copies.run ops)[r']?.join = some (v', true) → v.raw = v'.raw →
        ∃ a, (run hash ops).heap.addr r = some a ∧ (run hash ops).heap.addr r' = some a := by
  have h := agrees_run hash ops
  refine ⟨fun r => ?_, fun r rov r' hne => ?_, fun r r' v v' hv hv' hraw => ?_⟩
  · rw [h.reads, Option.map_map]
    rfl
  · exact (read_makeMut h.valid r _ r').trans (if_neg hne)
  · obtain rfl := eq_of_raw hraw
    obtain ⟨a, haddr, ha⟩ := h.interned hv
    obtain ⟨b, haddr', hb⟩ := h.interned hv'
    have hcell := h.reads r
    have hcell' := h.reads r'
    rw [Heap.read, haddr, hv] at hcell
    rw [Heap.read, haddr', hv'] at hcell'
    obtain rfl : a = b := h.filed.distinct ha hb (live_of_addr haddr)
      (live_of_addr haddr') (hcell.trans hcell'.symm)
    exact ⟨a, haddr, haddr'⟩

end PathAttributeInterner

end Rotonda
