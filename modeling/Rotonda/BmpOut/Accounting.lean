import Rotonda.BmpOut.Handoff
import Mathlib.Data.List.Perm.Basic
import Mathlib.Algebra.BigOperators.Group.List.Basic

/-!
The accounting of the dump buffers: one counter of bytes per client and three for the process,
each an atomic of its own.

An operation that holds the lock of its client's buffer is one step.  A process-wide counter that
is decremented below zero wraps, so an underflow would show in the counters.

* `Exact`: every counter is the sum it stands for, and no client exceeds its limits;
* `exact_throughout`: it holds in every state that the clients reach, no decrement underflows, and
  a refused update changes nothing.
-/

namespace Rotonda.BmpOut.Accounting

open Lib.Runs List Option

/-! ## One client -/

/-- What the types of the source occupy. -/
structure Sizes where
  update : Nat
  payload : Nat
  withdrawEntry : Nat
  outputStreamMessage : Nat

/-- An update in a buffer.  What an output stream carries is not modelled, but the number of its
messages counts. -/
structure Queued where
  update : Update
  outputMessages : Nat

def Queued.shallowBytes (sz : Sizes) (q : Queued) : Nat :=
  match q.update with
  | .single _ => sz.update
  | .bulk payloads => sz.update + payloads.length * sz.payload
  | .withdraw .. => sz.update
  | .withdrawBulk items => sz.update + items.length * sz.withdrawEntry
  | .ingressReappeared _ => sz.update
  | .upstreamStatusChange _ => sz.update
  | .outputStream => sz.update + q.outputMessages * sz.outputStreamMessage
  | .rtr _ => sz.update
  | .peerStats .. => sz.update

structure ClientState where
  phase : ClientPhase
  dumpBuffer : List Queued
  maxBufferEntries : Nat
  maxBufferBytes : Nat
  bufferedBytes : Nat

/-- The process-wide counters. -/
structure MemStats where
  bufferedBytes : Nat
  bufferedEntries : Nat
  clients : Nat

/-- A decrement of an atomic of 64 bits. -/
def fetchSub (counter n : Nat) : Nat :=
  if n ≤ counter then counter - n else counter + 2 ^ 64 - n

inductive BufferUpdateResult where
  | buffered
  | notDumping
  | overflow
  deriving DecidableEq

namespace ClientState

def new (maxBufferEntries maxBufferBytes : Nat) (stats : MemStats) : ClientState × MemStats :=
  (⟨.dumping, [], maxBufferEntries, maxBufferBytes, 0⟩,
    { stats with clients := stats.clients + 1 })

def bufferUpdateIfDumping (sz : Sizes) (c : ClientState) (stats : MemStats) (q : Queued) :
    BufferUpdateResult × ClientState × MemStats :=
  if c.phase ≠ .dumping then (.notDumping, c, stats)
  else if c.maxBufferEntries ≤ c.dumpBuffer.length then (.overflow, c, stats)
  else if c.maxBufferBytes < c.bufferedBytes + q.shallowBytes sz then (.overflow, c, stats)
  else (.buffered,
    { c with
      dumpBuffer := c.dumpBuffer ++ [q]
      bufferedBytes := c.bufferedBytes + q.shallowBytes sz },
    { stats with
      bufferedBytes := stats.bufferedBytes + q.shallowBytes sz
      bufferedEntries := stats.bufferedEntries + 1 })

theorem eq_of_overflow {sz : Sizes} {c : ClientState} {stats : MemStats} {q : Queued}
    (h : (c.bufferUpdateIfDumping sz stats q).1 = .overflow) :
    (c.bufferUpdateIfDumping sz stats q).2.1 = c ∧
      (c.bufferUpdateIfDumping sz stats q).2.2 = stats := by
  unfold bufferUpdateIfDumping at h ⊢
  split at h
  · cases h
  split at h
  next hphase hfull => simp [hphase, hfull]
  split at h
  next hphase hfull hbytes => simp [hphase, hfull, hbytes]
  · cases h

def release (c : ClientState) (stats : MemStats) : MemStats :=
  { stats with
    bufferedBytes := fetchSub stats.bufferedBytes c.bufferedBytes
    bufferedEntries := fetchSub stats.bufferedEntries c.dumpBuffer.length }

def takeBufferedUpdates (c : ClientState) (stats : MemStats) :
    List Queued × ClientState × MemStats :=
  (c.dumpBuffer, { c with dumpBuffer := [], bufferedBytes := 0 }, c.release stats)

def discardDumpBuffer (c : ClientState) (stats : MemStats) : ClientState × MemStats :=
  ({ c with dumpBuffer := [], bufferedBytes := 0 }, c.release stats)

def drop (c : ClientState) (stats : MemStats) : MemStats :=
  let stats := if c.bufferedBytes ≠ 0 then
      { stats with bufferedBytes := fetchSub stats.bufferedBytes c.bufferedBytes } else stats
  let stats := if c.dumpBuffer.length ≠ 0 then
      { stats with bufferedEntries := fetchSub stats.bufferedEntries c.dumpBuffer.length } else stats
  { stats with clients := fetchSub stats.clients 1 }

/-- A decrement by nothing changes nothing, so the tests before it make no difference. -/
theorem drop_eq (c : ClientState) (stats : MemStats) :
    c.drop stats = { c.release stats with clients := fetchSub stats.clients 1 } := by
  have hzero (n : Nat) : fetchSub n 0 = n := by simp [fetchSub]
  by_cases hb : c.bufferedBytes = 0
  · by_cases hl : c.dumpBuffer.length = 0
    · simp [drop, release, hb, hl, hzero]
    · simp [drop, release, hb, hl, hzero]
  · by_cases hl : c.dumpBuffer.length = 0
    · simp [drop, release, hb, hl, hzero]
    · simp [drop, release, hb, hl]

end ClientState

/-! ## Any number of clients -/

structure Clients where
  clients : List ClientState
  stats : MemStats

inductive Move where
  | connect (maxBufferEntries maxBufferBytes : Nat)
  | buffer (i : Nat) (q : Queued)
  | take (i : Nat)
  | discard (i : Nat)
  | goLive (i : Nat)
  | drop (i : Nat)

namespace Clients

def init : Clients := ⟨[], 0, 0, 0⟩

/-- One operation and, for `buffer`, its answer. -/
def step (sz : Sizes) (s : Clients) : Move → Option (Clients × Option BufferUpdateResult)
  | .connect entries bytes =>
    let (c, stats) := ClientState.new entries bytes s.stats
    some (⟨s.clients ++ [c], stats⟩, none)
  | .buffer i q => s.clients[i]?.map fun c =>
    let (res, c', stats) := c.bufferUpdateIfDumping sz s.stats q
    (⟨s.clients.set i c', stats⟩, some res)
  | .take i => s.clients[i]?.map fun c =>
    let (_, c', stats) := c.takeBufferedUpdates s.stats
    (⟨s.clients.set i c', stats⟩, none)
  | .discard i => s.clients[i]?.map fun c =>
    let (c', stats) := c.discardDumpBuffer s.stats
    (⟨s.clients.set i c', stats⟩, none)
  | .goLive i => s.clients[i]?.map fun c =>
    (⟨s.clients.set i { c with phase := .live }, s.stats⟩, none)
  | .drop i => s.clients[i]?.map fun c => (⟨s.clients.eraseIdx i, c.drop s.stats⟩, none)

/-- The state after an operation. -/
def next (sz : Sizes) (s : Clients) (m : Move) : Option Clients := (s.step sz m).map Prod.fst

end Clients

/-! ## The invariant -/

structure ClientState.Exact (sz : Sizes) (c : ClientState) : Prop where
  bytes : c.bufferedBytes = (c.dumpBuffer.map (Queued.shallowBytes sz)).sum
  bytes_le : c.bufferedBytes ≤ c.maxBufferBytes
  entries_le : c.dumpBuffer.length ≤ c.maxBufferEntries

def total (f : ClientState → Nat) (cs : List ClientState) : Nat := (cs.map f).sum

namespace Clients

structure Exact (sz : Sizes) (s : Clients) : Prop where
  each : ∀ c ∈ s.clients, c.Exact sz
  bytes : s.stats.bufferedBytes = total ClientState.bufferedBytes s.clients
  entries : s.stats.bufferedEntries = total (fun c => c.dumpBuffer.length) s.clients
  count : s.stats.clients = s.clients.length

/-- The counters hold at least what the client at `i` releases. -/
def Holds (s : Clients) (i : Nat) : Prop :=
  ∀ c ∈ s.clients[i]?, c.bufferedBytes ≤ s.stats.bufferedBytes ∧
    c.dumpBuffer.length ≤ s.stats.bufferedEntries ∧ 1 ≤ s.stats.clients

/-- No decrement of the operation goes below zero. -/
def NoUnderflow (s : Clients) : Move → Prop
  | .take i | .discard i | .drop i => s.Holds i
  | .connect .. | .buffer .. | .goLive _ => True

end Clients

/-! ## Sums over the clients -/

section Total

variable {cs : List ClientState} {i : Nat} {c : ClientState}

theorem perm_of_getElem? (h : cs[i]? = some c) : (c :: cs.eraseIdx i).Perm cs := by
  obtain ⟨hi, rfl⟩ := List.getElem?_eq_some_iff.mp h
  exact getElem_cons_eraseIdx_perm hi

section

variable (f : ClientState → Nat) (h : cs[i]? = some c)
include h

theorem total_eraseIdx :
    f c + total f (cs.eraseIdx i) = total f cs := by
  have hperm := ((perm_of_getElem? h).map f).sum_eq
  rwa [map_cons, sum_cons] at hperm

theorem total_set (c' : ClientState) : total f (cs.set i c') + f c = total f cs + f c' := by
  obtain ⟨hi, _⟩ := List.getElem?_eq_some_iff.mp h
  have hset := ((set_perm_cons_eraseIdx hi c').map f).sum_eq
  rw [map_cons, sum_cons] at hset
  have herase := total_eraseIdx f h
  simp only [total] at *
  omega

theorem le_total : f c ≤ total f cs := by
  have := total_eraseIdx f h
  omega

end

end Total

theorem fetchSub_of_le {counter n : Nat} (h : n ≤ counter) : fetchSub counter n = counter - n :=
  if_pos h

/-! ## Every step -/

namespace Clients

variable {sz : Sizes} {s : Clients} {i : Nat} {c c' : ClientState} {stats : MemStats}

theorem exact_init (sz : Sizes) : Exact sz init :=
  ⟨by simp [init], rfl, rfl, rfl⟩

section

variable (h : s.Exact sz)
include h

theorem Exact.holds (i : Nat) : s.Holds i := by
  intro c hc
  have hbytes := le_total ClientState.bufferedBytes hc
  have hentries := le_total (fun c => c.dumpBuffer.length) hc
  obtain ⟨hi, _⟩ := List.getElem?_eq_some_iff.mp hc
  refine ⟨by rw [h.bytes]; exact hbytes, by rw [h.entries]; exact hentries, ?_⟩
  rw [h.count]
  omega

/-- A client changes, and the counters of the process change with it. -/
theorem Exact.set (hc : s.clients[i]? = some c) (hc' : c'.Exact sz)
    (hbytes : stats.bufferedBytes + c.bufferedBytes = s.stats.bufferedBytes + c'.bufferedBytes)
    (hentries : stats.bufferedEntries + c.dumpBuffer.length =
      s.stats.bufferedEntries + c'.dumpBuffer.length)
    (hcount : stats.clients = s.stats.clients) : Exact sz ⟨s.clients.set i c', stats⟩ := by
  have hb := total_set ClientState.bufferedBytes hc c'
  have he := total_set (fun c => c.dumpBuffer.length) hc c'
  have hbytes' := h.bytes
  have hentries' := h.entries
  refine ⟨fun d hd => ?_, ?_, ?_, ?_⟩
  · rcases mem_or_eq_of_mem_set hd with hd | rfl
    · exact h.each d hd
    · exact hc'
  · change stats.bufferedBytes = total ClientState.bufferedBytes (s.clients.set i c')
    omega
  · change stats.bufferedEntries = total (fun c => c.dumpBuffer.length) (s.clients.set i c')
    omega
  · simp [hcount, h.count]

/-- What releasing a client takes off the counters. -/
theorem Exact.release (hc : s.clients[i]? = some c) :
    (c.release s.stats).bufferedBytes + c.bufferedBytes = s.stats.bufferedBytes ∧
      (c.release s.stats).bufferedEntries + c.dumpBuffer.length = s.stats.bufferedEntries := by
  obtain ⟨hbytes, hentries, _⟩ := h.holds i c hc
  simp only [ClientState.release, fetchSub_of_le hbytes, fetchSub_of_le hentries]
  omega

/-- A client whose buffer is emptied. -/
theorem Exact.emptied (hc : s.clients[i]? = some c) :
    Exact sz ⟨s.clients.set i { c with dumpBuffer := [], bufferedBytes := 0 },
      c.release s.stats⟩ := by
  obtain ⟨hbytes, hentries⟩ := h.release hc
  refine h.set hc ⟨rfl, Nat.zero_le _, Nat.zero_le _⟩ ?_ ?_ rfl
  · simpa using hbytes
  · simpa using hentries

theorem Exact.connect (entries bytes : Nat) :
    Exact sz ⟨s.clients ++ [(ClientState.new entries bytes s.stats).1],
      (ClientState.new entries bytes s.stats).2⟩ := by
  refine ⟨fun c hc => ?_, ?_, ?_, ?_⟩
  · rcases mem_append.mp hc with hc | hc
    · exact h.each c hc
    · cases mem_singleton.mp hc
      exact ⟨rfl, Nat.zero_le _, Nat.zero_le _⟩
  · simp [ClientState.new, total, h.bytes]
  · simp [ClientState.new, total, h.entries]
  · simp [ClientState.new, h.count]

theorem Exact.buffer (hc : s.clients[i]? = some c) (q : Queued) :
    Exact sz ⟨s.clients.set i (c.bufferUpdateIfDumping sz s.stats q).2.1,
      (c.bufferUpdateIfDumping sz s.stats q).2.2⟩ := by
  have hsame := h.set hc (h.each c (List.mem_of_getElem? hc)) rfl rfl rfl
  obtain ⟨hbytes, _, _⟩ := h.each c (List.mem_of_getElem? hc)
  unfold ClientState.bufferUpdateIfDumping
  split
  · exact hsame
  split
  · exact hsame
  split
  · exact hsame
  next hentries hfits =>
    refine h.set hc ⟨?_, ?_, ?_⟩ ?_ ?_ rfl
    · simp [hbytes]
    · simpa using hfits
    · simp only [length_append, length_singleton]
      omega
    · simp only
      omega
    · simp only [length_append, length_singleton]
      omega

theorem Exact.drop (hc : s.clients[i]? = some c) :
    Exact sz ⟨s.clients.eraseIdx i, c.drop s.stats⟩ := by
  obtain ⟨hbytes, hentries⟩ := h.release hc
  obtain ⟨_, _, hone⟩ := h.holds i c hc
  have hb := total_eraseIdx ClientState.bufferedBytes hc
  have he := total_eraseIdx (fun c => c.dumpBuffer.length) hc
  have hbytes' := h.bytes
  have hentries' := h.entries
  have hcount := h.count
  obtain ⟨hi, _⟩ := List.getElem?_eq_some_iff.mp hc
  rw [ClientState.drop_eq]
  refine ⟨fun d hd => h.each d (mem_of_mem_eraseIdx hd), ?_, ?_, ?_⟩
  · change (c.release s.stats).bufferedBytes =
      total ClientState.bufferedBytes (s.clients.eraseIdx i)
    omega
  · change (c.release s.stats).bufferedEntries =
      total (fun c => c.dumpBuffer.length) (s.clients.eraseIdx i)
    omega
  · change fetchSub s.stats.clients 1 = (s.clients.eraseIdx i).length
    rw [fetchSub_of_le hone, length_eraseIdx_of_lt hi, hcount]

theorem Exact.next {s' : Clients} {m : Move} (hs : s.next sz m = some s') : s'.Exact sz := by
  obtain ⟨r, hr, rfl⟩ := Option.map_eq_some_iff.mp hs
  cases m with
  | connect entries bytes =>
    cases hr
    exact h.connect entries bytes
  | buffer i q =>
    obtain ⟨c, hc, rfl⟩ := Option.map_eq_some_iff.mp hr
    exact h.buffer hc q
  | take i | discard i =>
    obtain ⟨c, hc, rfl⟩ := Option.map_eq_some_iff.mp hr
    exact h.emptied hc
  | goLive i =>
    obtain ⟨c, hc, rfl⟩ := Option.map_eq_some_iff.mp hr
    obtain ⟨hb, hle, hentries⟩ := h.each c (List.mem_of_getElem? hc)
    exact h.set hc ⟨hb, hle, hentries⟩ rfl rfl rfl
  | drop i =>
    obtain ⟨c, hc, rfl⟩ := Option.map_eq_some_iff.mp hr
    exact h.drop hc

end

/-- An update that is answered with an overflow is left out, and nothing else happens. -/
theorem eq_of_overflow {s' : Clients} {m : Move} (hs : s.step sz m = some (s', some .overflow)) :
    s' = s := by
  cases m with
  | buffer i q =>
    obtain ⟨c, hc, heq⟩ := Option.map_eq_some_iff.mp hs
    obtain ⟨hi, rfl⟩ := List.getElem?_eq_some_iff.mp hc
    have hanswer : some (s.clients[i].bufferUpdateIfDumping sz s.stats q).1 = some .overflow :=
      congrArg Prod.snd heq
    obtain ⟨hc', hstats⟩ := ClientState.eq_of_overflow (Option.some.inj hanswer)
    calc s' = ⟨s.clients.set i (s.clients[i].bufferUpdateIfDumping sz s.stats q).2.1,
          (s.clients[i].bufferUpdateIfDumping sz s.stats q).2.2⟩ := (congrArg Prod.fst heq).symm
      _ = s := by rw [hc', hstats, set_getElem_self]
  | connect entries bytes => cases hs
  | take i | discard i | goLive i | drop i =>
    obtain ⟨c, hc, heq⟩ := Option.map_eq_some_iff.mp hs
    cases heq

/-- In every state that any interleaving reaches all counters are exact and within the limits; an
operation from there underflows no counter, and one that is answered with an overflow changes
nothing. -/
theorem exact_throughout (sz : Sizes) {ms : List Move} {s : Clients}
    (hrun : exec (next sz) init ms = some s) :
    s.Exact sz ∧ ∀ m s' answer, s.step sz m = some (s', answer) →
      s.NoUnderflow m ∧ (answer = some .overflow → s' = s) := by
  have hexact : s.Exact sz :=
    exec_invariant (next sz) (Exact sz) (fun _ _ => True) (fun _ _ _ h _ hs => h.next hs)
      (exact_init sz) (along_of_forall _ _ fun _ _ _ => trivial) hrun
  refine ⟨hexact, fun m s' answer hs => ⟨?_, ?_⟩⟩
  · cases m with
    | take i | discard i | drop i => exact hexact.holds i
    | connect | buffer | goLive => trivial
  · rintro rfl
    exact eq_of_overflow hs

/-- Two clients, of which the first has room for one entry only. -/
def twoClients : List Move :=
  [.connect 1 100, .connect 2 100, .buffer 0 ⟨.outputStream, 1⟩, .buffer 1 ⟨.outputStream, 1⟩,
    .buffer 0 ⟨.outputStream, 1⟩, .take 0, .drop 1]

theorem exact_twoClients :
    ∃ s, exec (next ⟨8, 4, 4, 4⟩) init twoClients = some s ∧ s.Exact ⟨8, 4, 4, 4⟩ := by
  obtain ⟨s, hs⟩ : ∃ s, exec (next ⟨8, 4, 4, 4⟩) init twoClients = some s := ⟨_, rfl⟩
  exact ⟨s, hs, (exact_throughout _ hs).1⟩

end Clients

end Rotonda.BmpOut.Accounting
