import Rotonda.Lib.Runs
import Rotonda.Payload

/-!
The handoff from the initial dump of a client to live forwarding, for every interleaving of the
calls of `direct_update` with the client's dump task.

A step is the acquisition of a lock with what is done before the next one, or the sending of one
update.  The phase lock is a read-write lock: a call holds it for reading from the check of the
phase to the push into the dump buffer; the dump task holds it for writing while it takes the
buffer and, if there is no RIB, while it replays.

* `Handoff.Inv`: what is logged, taken, buffered and in flight for a source, in this order, is what
  the source gave;
* `Handoff.can_settle`: the parties cannot get stuck;
* `Handoff.handoff_lossless`: nothing is lost, duplicated or reordered, and the phase becomes live
  on an empty buffer only.
-/

namespace Rotonda.BmpOut

open Lib.Runs List

inductive ClientPhase where
  | dumping
  | live
  deriving DecidableEq

/-- Where a call of `direct_update` of a source is, as far as the client is concerned. -/
inductive CallState where
  | idle
  /-- The call is made; it is due if the client was in the map by then. -/
  | called (update : Update) (due : Bool)
  /-- The client is in the snapshot of the map. -/
  | seen (update : Update)
  /-- The call holds the phase lock and is to push into the dump buffer. -/
  | pushing (update : Update)
  /-- The client is live. -/
  | sending (update : Update)

/-- Where the dump task is.  The batch it replays is part of its state. -/
inductive DumpState (Src : Type) where
  | resolving
  | walking
  | draining (rib : Bool)
  | locked (rib : Bool)
  | taken (rib : Bool) (batch : List (Src × Update))
  | replaying (rib : Bool) (batch : List (Src × Update))
  | ended

def DumpState.holdsWrite {Src : Type} : DumpState Src → Bool
  | locked _ | taken _ _ | replaying false _ => true
  | _ => false

def DumpState.batch {Src : Type} : DumpState Src → List (Src × Update)
  | taken _ batch | replaying _ batch => batch
  | _ => []

/-- Has the task taken the buffer and kept the phase lock since? -/
def DumpState.keepsEmpty {Src : Type} : DumpState Src → Bool
  | taken _ _ | replaying false _ => true
  | _ => false

def CallState.inFlight : CallState → List Update
  | idle | called _ false => []
  | called u true | seen u | pushing u | sending u => [u]

/-- The update of a call that was made before the client was in the map and has not taken its
snapshot of the map. -/
def CallState.waiting : CallState → Option Update
  | called u false => some u
  | _ => none

structure BufferLimits where
  maxEntries : Nat
  maxBytes : Nat
  shallowBytes : Update → Nat

/-- A client and the parties that deal with it.  `log` is what was replayed or sent live; `given`
is what was given to `direct_update` for the client, from its insertion into the map on. -/
structure Handoff (Src : Type) where
  inserted : Bool
  phase : ClientPhase
  readers : List Src
  calls : Src → CallState
  dump : DumpState Src
  buffer : List (Src × Update)
  bufferedBytes : Nat
  flagged : Bool
  channelOpen : Bool
  log : List (Src × Update)
  given : List (Src × Update)

inductive Move (Src : Type) where
  | insert
  | call (s : Src) (update : Update)
  | snapshot (s : Src)
  | lockRead (s : Src)
  | push (s : Src)
  | send (s : Src) (full : Bool)
  | resolve (rib : Bool)
  | finishWalk
  | failWalk
  | lockWrite
  | take
  | inspect
  | replay
  | close

namespace Handoff

variable {Src : Type} [DecidableEq Src]
variable {log : List (Src × Update)}

def init : Handoff Src :=
  ⟨false, .dumping, [], fun _ => .idle, .resolving, [], 0, false, true, [], []⟩

def setCall (h : Handoff Src) (s : Src) (c : CallState) : Handoff Src :=
  { h with calls := fun s' => if s' = s then c else h.calls s' }

def pushStep (limits : BufferLimits) (h : Handoff Src) (s : Src) (u : Update) : Handoff Src :=
  let h' := { h.setCall s .idle with readers := h.readers.erase s }
  if limits.maxEntries ≤ h.buffer.length ∨
      limits.maxBytes < h.bufferedBytes + limits.shallowBytes u then { h' with flagged := true }
  else { h' with
    buffer := h.buffer ++ [(s, u)]
    bufferedBytes := h.bufferedBytes + limits.shallowBytes u }

/-- A live send does not wait: a full queue flags the client. -/
def sendStep (h : Handoff Src) (s : Src) (u : Update) (full : Bool) : Handoff Src :=
  let h' := h.setCall s .idle
  if !h.channelOpen then h'
  else if full then { h' with flagged := true }
  else { h' with log := h.log ++ [(s, u)] }

/-- A replay waits for the queue and fails only if the channel is closed. -/
def replayStep (h : Handoff Src) (rib : Bool) : List (Src × Update) → Handoff Src
  | x :: batch =>
    if h.channelOpen then { h with dump := .replaying rib batch, log := h.log ++ [x] }
    else if rib then { h with dump := .ended, flagged := true }
    else { h with dump := .ended, phase := .live }
  | [] => if rib then { h with dump := .draining true } else { h with dump := .ended, phase := .live }

variable (limits : BufferLimits)

theorem pushStep_frame (h : Handoff Src) (s : Src) (u : Update) :
    (h.pushStep limits s u).calls = (h.setCall s .idle).calls ∧
      (h.pushStep limits s u).given = h.given ∧ (h.pushStep limits s u).inserted = h.inserted ∧
      (h.pushStep limits s u).channelOpen = h.channelOpen ∧
      (h.pushStep limits s u).dump = h.dump := by
  unfold pushStep
  dsimp only
  split <;> exact ⟨rfl, rfl, rfl, rfl, rfl⟩

theorem sendStep_frame (h : Handoff Src) (s : Src) (u : Update) (full : Bool) :
    (h.sendStep s u full).calls = (h.setCall s .idle).calls ∧
      (h.sendStep s u full).given = h.given ∧ (h.sendStep s u full).inserted = h.inserted := by
  unfold sendStep
  dsimp only
  split
  · exact ⟨rfl, rfl, rfl⟩
  · split <;> exact ⟨rfl, rfl, rfl⟩

omit [DecidableEq Src] in
theorem replayStep_frame (h : Handoff Src) (rib : Bool) (batch : List (Src × Update)) :
    (h.replayStep rib batch).calls = h.calls ∧ (h.replayStep rib batch).given = h.given ∧
      (h.replayStep rib batch).inserted = h.inserted := by
  unfold replayStep
  split
  · split
    · exact ⟨rfl, rfl, rfl⟩
    · split <;> exact ⟨rfl, rfl, rfl⟩
  · split <;> exact ⟨rfl, rfl, rfl⟩

def step (limits : BufferLimits) (h : Handoff Src) : Move Src → Option (Handoff Src)
  | .insert => if h.inserted then none else some { h with inserted := true }
  | .call s u => match h.calls s with
    | .idle => some { h.setCall s (.called u h.inserted) with
        given := if h.inserted then h.given ++ [(s, u)] else h.given }
    | _ => none
  | .snapshot s => match h.calls s with
    | .called u due =>
      if h.inserted then some { h.setCall s (.seen u) with
        given := if due then h.given else h.given ++ [(s, u)] }
      else some (h.setCall s .idle)
    | _ => none
  | .lockRead s => match h.calls s with
    | .seen u =>
      if h.flagged then some (h.setCall s .idle)
      else if h.dump.holdsWrite then none
      else if h.phase = .live then some (h.setCall s (.sending u))
      else some { h.setCall s (.pushing u) with readers := s :: h.readers }
    | _ => none
  | .push s => match h.calls s with
    | .pushing u => some (h.pushStep limits s u)
    | _ => none
  | .send s full => match h.calls s with
    | .sending u => some (h.sendStep s u full)
    | _ => none
  | .resolve rib => match h.dump with
    | .resolving =>
      if h.inserted then some { h with dump := if rib then .walking else .draining false } else none
    | _ => none
  | .finishWalk => match h.dump with
    | .walking => some { h with dump := .draining true }
    | _ => none
  | .failWalk => match h.dump with
    | .walking => some { h with dump := .ended, flagged := true }
    | _ => none
  | .lockWrite => match h.dump with
    | .draining rib => if h.readers = [] then some { h with dump := .locked rib } else none
    | _ => none
  | .take => match h.dump with
    | .locked rib => some { h with dump := .taken rib h.buffer, buffer := [], bufferedBytes := 0 }
    | _ => none
  | .inspect => match h.dump with
    | .taken true [] => some { h with dump := .ended, phase := .live }
    | .taken rib batch => some { h with dump := .replaying rib batch }
    | _ => none
  | .replay => match h.dump with
    | .replaying rib batch => some (h.replayStep rib batch)
    | _ => none
  | .close => some { h with channelOpen := false }

/-! ## The invariant -/

/-- What a list holds of one source, in order. -/
def of (s : Src) (xs : List (Src × Update)) : List Update :=
  (xs.filter fun x => x.1 = s).map Prod.snd

@[simp] theorem of_nil (s : Src) : of s [] = [] := rfl

@[simp] theorem of_append (s : Src) (xs ys : List (Src × Update)) :
    of s (xs ++ ys) = of s xs ++ of s ys := by
  simp [of]

@[simp] theorem of_cons_self (s : Src) (u : Update) (xs : List (Src × Update)) :
    of s ((s, u) :: xs) = u :: of s xs := by
  simp [of]

theorem of_cons_ne {s s' : Src} (h : s' ≠ s) (u : Update) (xs : List (Src × Update)) :
    of s' ((s, u) :: xs) = of s' xs := by
  simp [of, h.symm]

theorem of_cons (s : Src) (x : Src × Update) (xs : List (Src × Update)) :
    of s (x :: xs) = of s [x] ++ of s xs :=
  of_append s [x] xs

structure Inv (h : Handoff Src) : Prop where
  reading : ∀ s, s ∈ h.readers ↔ ∃ u, h.calls s = .pushing u
  nodup : h.readers.Nodup
  exclusive : h.dump.holdsWrite = true → h.readers = []
  emptied : h.dump.keepsEmpty = true → h.buffer = []
  live : h.phase = .live → h.dump = .ended ∧ h.buffer = [] ∧ h.readers = []
  ended : h.dump = .ended → h.flagged = false → h.phase = .live
  sending : ∀ s u, h.calls s = .sending u → h.phase = .live
  due : ∀ s u, h.calls s = .called u true → h.inserted = true
  balance : h.flagged = false → h.channelOpen = true → ∀ s,
    of s h.log ++ (of s h.dump.batch ++ (of s h.buffer ++ (h.calls s).inFlight)) = of s h.given

theorem inv_init : Inv (init : Handoff Src) where
  reading := by simp [init]
  nodup := nodup_nil
  exclusive := fun _ => rfl
  emptied := fun _ => rfl
  live := nofun
  ended := nofun
  sending := nofun
  due := nofun
  balance := fun _ _ _ => rfl

/-! ## Steps of the calls -/

section Calls

variable {h : Handoff Src} {s : Src} {u : Update}

variable (c : CallState)

@[simp] theorem setCall_log : (h.setCall s c).log = h.log := rfl

@[simp] theorem setCall_given : (h.setCall s c).given = h.given := rfl

@[simp] theorem setCall_flagged : (h.setCall s c).flagged = h.flagged := rfl

theorem calls_setCall {c c' : CallState} {s' : Src} (hc : (h.setCall s c).calls s' = c') :
    c = c' ∨ h.calls s' = c' := by
  by_cases hs : s' = s
  · exact .inl (by simpa [setCall, hs] using hc)
  · exact .inr (by simpa [setCall, hs] using hc)

/-- What a call may be in without the phase lock. -/
def Admits (h : Handoff Src) : CallState → Prop
  | .pushing _ => False
  | .sending _ => h.phase = .live
  | .called _ due => due = true → h.inserted = true
  | .idle | .seen _ => True

/-- A call moves on without the phase lock. -/
theorem Inv.setCall (hinv : h.Inv) (c : CallState) (hold : ∀ u, h.calls s ≠ .pushing u)
    (hc : h.Admits c) {given : List (Src × Update)} {flagged : Bool}
    (hflag : flagged = false → h.flagged = false)
    (hother : ∀ s', s' ≠ s → of s' log = of s' h.log ∧ of s' given = of s' h.given)
    (hself : flagged = false → h.channelOpen = true →
      of s log ++ (of s h.dump.batch ++ (of s h.buffer ++ c.inFlight)) = of s given) :
    Inv { h.setCall s c with log := log, given := given, flagged := flagged } where
  reading := by
    intro s'
    by_cases hs : s' = s
    · subst hs
      have hleft : s' ∉ h.readers := by
        rw [hinv.reading s']
        rintro ⟨u, hu⟩
        exact hold u hu
      have hright : ∀ u, c ≠ .pushing u := by
        rintro u rfl
        exact hc
      simp [Handoff.setCall, hleft, hright]
    · simpa only [Handoff.setCall, if_neg hs] using hinv.reading s'
  nodup := hinv.nodup
  exclusive := hinv.exclusive
  emptied := hinv.emptied
  live := hinv.live
  ended := fun hd hf => hinv.ended hd (hflag hf)
  sending := by
    intro s' u hs'
    rcases calls_setCall hs' with rfl | hs'
    · exact hc
    · exact hinv.sending s' u hs'
  due := by
    intro s' u hs'
    rcases calls_setCall hs' with rfl | hs'
    · exact hc rfl
    · exact hinv.due s' u hs'
  balance := by
    intro hf hopen s'
    by_cases hs : s' = s
    · subst hs
      simpa [Handoff.setCall] using hself hf hopen
    · have hb := hinv.balance (hflag hf) hopen s'
      obtain ⟨hlog, hgiven⟩ := hother s' hs
      simpa only [Handoff.setCall, if_neg hs, hlog, hgiven] using hb

theorem inv_call (hinv : h.Inv) (u : Update) (hs : h.calls s = .idle) :
    Inv { h.setCall s (.called u h.inserted) with
      given := if h.inserted then h.given ++ [(s, u)] else h.given } := by
  refine hinv.setCall (.called u h.inserted) (by simp [hs]) id id (fun s' hne => ?_)
    fun hf ho => ?_
  · cases h.inserted <;> simp [of_cons_ne hne]
  · have hb := hinv.balance hf ho s
    rw [hs] at hb
    cases h.inserted <;> simp [CallState.inFlight, ← hb]

theorem inv_snapshot (hinv : h.Inv) {due : Bool} (hs : h.calls s = .called u due) :
    Inv (if h.inserted then { h.setCall s (.seen u) with
        given := if due then h.given else h.given ++ [(s, u)] }
      else h.setCall s .idle) := by
  have hb := fun hf ho => hinv.balance hf ho s
  rw [hs] at hb
  cases hins : h.inserted with
  | true =>
    refine hinv.setCall (.seen u) (by simp [hs]) trivial id (fun s' hne => ?_) fun hf ho => ?_
    · cases due <;> simp [of_cons_ne hne]
    · cases due <;> simp [CallState.inFlight, ← hb hf ho]
  | false =>
    -- The client is not in the map, so the call is not due.
    have hnot : due = false := by
      cases due with
      | false => rfl
      | true => simpa [hins] using hinv.due s u hs
    subst hnot
    exact hinv.setCall .idle (by simp [hs]) trivial id (fun _ _ => ⟨rfl, rfl⟩) hb

theorem inv_lockRead_pushing (hinv : h.Inv) (hs : h.calls s = .seen u)
    (hwrite : ¬ h.dump.holdsWrite = true) (hphase : ¬ h.phase = .live) :
    Inv { h.setCall s (.pushing u) with readers := s :: h.readers } where
  reading := by
    intro s'
    by_cases hs' : s' = s
    · simp [Handoff.setCall, hs']
    · simpa [Handoff.setCall, hs'] using hinv.reading s'
  nodup := by
    refine nodup_cons.mpr ⟨?_, hinv.nodup⟩
    rw [hinv.reading s]
    simp [hs]
  exclusive := fun hw => absurd hw hwrite
  emptied := hinv.emptied
  live := fun hl => absurd hl hphase
  ended := hinv.ended
  sending := by
    intro s' u' hs'
    rcases calls_setCall hs' with hc | hs'
    · cases hc
    · exact hinv.sending s' u' hs'
  due := by
    intro s' u' hs'
    rcases calls_setCall hs' with hc | hs'
    · cases hc
    · exact hinv.due s' u' hs'
  balance := by
    intro hf ho s'
    have hb := hinv.balance hf ho s'
    by_cases heq : s' = s
    · subst heq
      rw [hs] at hb
      simpa [Handoff.setCall, CallState.inFlight] using hb
    · simpa [Handoff.setCall, heq] using hb

theorem inv_pushStep (hinv : h.Inv) (hs : h.calls s = .pushing u) :
    Inv (h.pushStep limits s u) := by
  have hmem : s ∈ h.readers := (hinv.reading s).mpr ⟨u, hs⟩
  have hwrite : ¬ h.dump.holdsWrite = true := by
    intro hw
    rw [hinv.exclusive hw] at hmem
    cases hmem
  have hphase : ¬ h.phase = .live := by
    intro hl
    rw [(hinv.live hl).2.2] at hmem
    cases hmem
  have hkeeps : ¬ h.dump.keepsEmpty = true := by
    intro hk
    apply hwrite
    cases hd : h.dump with
    | taken => rfl
    | replaying rib batch => cases rib <;> simp_all [DumpState.keepsEmpty, DumpState.holdsWrite]
    | _ => simp [hd, DumpState.keepsEmpty] at hk
  -- The two outcomes differ in the flag and in where the update is.
  have hgoal : ∀ (flagged : Bool) (buffer : List (Src × Update)) (bytes : Nat),
      (flagged = false → h.flagged = false ∧ buffer = h.buffer ++ [(s, u)]) →
      Inv { h.setCall s .idle with
        readers := h.readers.erase s, buffer := buffer, bufferedBytes := bytes
        flagged := flagged } := by
    intro flagged buffer bytes hout
    refine ⟨fun s' => ?_, hinv.nodup.erase s, fun hw => absurd hw hwrite,
      fun hk => absurd hk hkeeps, fun hl => absurd hl hphase,
      fun hd hf => hinv.ended hd (hout hf).1, fun s' u' hs' => ?_, fun s' u' hs' => ?_,
      fun hf ho s' => ?_⟩
    · rw [hinv.nodup.mem_erase_iff]
      by_cases heq : s' = s
      · simp [Handoff.setCall, heq]
      · simpa [Handoff.setCall, heq] using hinv.reading s'
    · rcases calls_setCall hs' with hc | hs'
      · cases hc
      · exact hinv.sending s' u' hs'
    · rcases calls_setCall hs' with hc | hs'
      · cases hc
      · exact hinv.due s' u' hs'
    · obtain ⟨hunflagged, rfl⟩ := hout hf
      have hb := hinv.balance hunflagged ho s'
      by_cases heq : s' = s
      · subst heq
        rw [hs] at hb
        simpa [Handoff.setCall, CallState.inFlight] using hb
      · simpa [Handoff.setCall, heq, of_cons_ne heq] using hb
  unfold pushStep
  dsimp only
  split
  · exact hgoal true h.buffer h.bufferedBytes nofun
  · exact hgoal h.flagged _ _ fun hf => ⟨hf, rfl⟩

theorem inv_sendStep (hinv : h.Inv) (hs : h.calls s = .sending u) (full : Bool) :
    Inv (h.sendStep s u full) := by
  obtain ⟨hended, hbuffer, _⟩ := hinv.live (hinv.sending s u hs)
  have hb := fun hf ho => hinv.balance hf ho s
  simp only [hs, hended, hbuffer, DumpState.batch, of_nil, nil_append, CallState.inFlight] at hb
  have hold : ∀ u, h.calls s ≠ .pushing u := by simp [hs]
  unfold sendStep
  dsimp only
  split
  next hclosed =>
    refine hinv.setCall .idle hold trivial id (fun _ _ => ⟨rfl, rfl⟩) fun _ ho => ?_
    simp [ho] at hclosed
  · split
    · exact hinv.setCall .idle hold trivial nofun (fun _ _ => ⟨rfl, rfl⟩) nofun
    · refine hinv.setCall .idle hold trivial id (fun s' hne => ?_) fun hf ho => ?_
      · simp [of_cons_ne hne]
      · simp [hended, hbuffer, DumpState.batch, CallState.inFlight, ← hb hf ho]

end Calls

/-! ## Steps of the dump task -/

section Dump

variable {h : Handoff Src} {rib : Bool} {batch : List (Src × Update)}

/-- The dump task moves on; no call is touched. -/
theorem Inv.setDump (hinv : h.Inv) (hrunning : h.dump ≠ .ended) (d : DumpState Src)
    {buffer : List (Src × Update)} {bytes : Nat} {flagged : Bool} {phase : ClientPhase}
    (hexclusive : d.holdsWrite = true → h.readers = []) (hempty : d.keepsEmpty = true → buffer = [])
    (hlive : phase = .live → d = .ended ∧ buffer = [] ∧ h.readers = [])
    (hended : d = .ended → flagged = false → phase = .live)
    (hflag : flagged = false → h.flagged = false)
    (hbalance : flagged = false → h.channelOpen = true → ∀ s,
      of s log ++ (of s d.batch ++ of s buffer) =
        of s h.log ++ (of s h.dump.batch ++ of s h.buffer)) :
    Inv { h with
      dump := d, buffer := buffer, bufferedBytes := bytes, log := log, flagged := flagged
      phase := phase } where
  reading := hinv.reading
  nodup := hinv.nodup
  exclusive := hexclusive
  emptied := hempty
  live := hlive
  ended := hended
  sending := fun s u hs => absurd (hinv.live (hinv.sending s u hs)).1 hrunning
  due := hinv.due
  balance := by
    intro hf ho s
    have hb := hinv.balance (hflag hf) ho s
    have hnew := hbalance hf ho s
    simp only [← append_assoc] at hb hnew ⊢
    rw [hnew, hb]

theorem phase_of_running (hinv : h.Inv) (hrunning : h.dump ≠ .ended) : h.phase ≠ .live :=
  fun hl => hrunning (hinv.live hl).1

/-- The dump task moves on without an end, a replay or a failure. -/
theorem Inv.keepDumping (hinv : h.Inv) (d : DumpState Src) (hrunning : h.dump ≠ .ended)
    (hd : d ≠ .ended) {buffer : List (Src × Update)} {bytes : Nat}
    (hexclusive : d.holdsWrite = true → h.readers = []) (hempty : d.keepsEmpty = true → buffer = [])
    (hsame : d.batch ++ buffer = h.dump.batch ++ h.buffer) :
    Inv { h with dump := d, buffer := buffer, bufferedBytes := bytes } := by
  refine hinv.setDump hrunning d hexclusive hempty
    (fun hl => absurd hl (phase_of_running hinv hrunning)) (fun hend => absurd hend hd) id
    fun _ _ s => ?_
  rw [← of_append, hsame, of_append]

theorem inv_inspect (hinv : h.Inv) (hd : h.dump = .taken rib batch) :
    (rib = true → batch = [] → Inv { h with dump := .ended, phase := .live }) ∧
      Inv { h with dump := .replaying rib batch } := by
  have hrunning : h.dump ≠ .ended := by simp [hd]
  have hreaders : h.readers = [] := hinv.exclusive (by rw [hd]; rfl)
  have hbuffer : h.buffer = [] := hinv.emptied (by rw [hd]; rfl)
  constructor
  · rintro _ rfl
    refine hinv.setDump hrunning .ended nofun nofun (fun _ => ⟨rfl, hbuffer, hreaders⟩)
      (fun _ _ => rfl) id fun _ _ s => ?_
    simp [hd, DumpState.batch]
  · exact hinv.keepDumping (.replaying rib batch) hrunning nofun (fun _ => hreaders) (fun _ => hbuffer)
      (by rw [hd]; rfl)

theorem inv_replayStep (hinv : h.Inv) (hd : h.dump = .replaying rib batch) :
    Inv (h.replayStep rib batch) := by
  have hrunning : h.dump ≠ .ended := by simp [hd]
  have hphase := phase_of_running hinv hrunning
  -- Without a RIB the phase lock is held throughout.
  have hlocked : rib = false → h.buffer = [] ∧ h.readers = [] := by
    rintro rfl
    exact ⟨hinv.emptied (by rw [hd]; rfl), hinv.exclusive (by rw [hd]; rfl)⟩
  cases batch with
  | nil =>
    cases rib with
    | true => exact hinv.keepDumping (.draining true) hrunning nofun nofun nofun (by rw [hd]; rfl)
    | false =>
      obtain ⟨hbuffer, hreaders⟩ := hlocked rfl
      refine hinv.setDump hrunning .ended nofun nofun (fun _ => ⟨rfl, hbuffer, hreaders⟩)
        (fun _ _ => rfl) id fun _ _ s => ?_
      simp [hd, DumpState.batch]
  | cons x batch =>
    unfold replayStep
    dsimp only
    split
    · refine hinv.setDump hrunning (.replaying rib batch) ?_ ?_ (fun hl => absurd hl hphase) nofun id
        fun _ _ s => ?_
      · cases rib with
        | true => nofun
        | false => exact fun _ => (hlocked rfl).2
      · cases rib with
        | true => nofun
        | false => exact fun _ => (hlocked rfl).1
      · simp [hd, DumpState.batch, of_cons s x batch]
    next hclosed =>
      split
      · exact hinv.setDump hrunning .ended nofun nofun (fun hl => absurd hl hphase) nofun nofun nofun
      next hrib =>
        obtain ⟨hbuffer, hreaders⟩ := hlocked (by simpa using hrib)
        exact hinv.setDump hrunning .ended nofun nofun (fun _ => ⟨rfl, hbuffer, hreaders⟩)
          (fun _ _ => rfl) id fun _ ho => absurd ho hclosed

end Dump

/-- Every step keeps the invariant. -/
theorem inv_step {h h' : Handoff Src} {m : Move Src} (hinv : h.Inv)
    (hstep : h.step limits m = some h') : h'.Inv := by
  cases m with
  | insert =>
    simp only [step] at hstep
    split at hstep <;> cases hstep
    exact { hinv with due := fun _ _ _ => rfl }
  | call s u =>
    simp only [step] at hstep
    split at hstep
    next hs => cases hstep; exact inv_call hinv u hs
    · cases hstep
  | snapshot s =>
    simp only [step] at hstep
    split at hstep
    next u due hs =>
      have hnext := inv_snapshot hinv hs
      split at hstep <;> (cases hstep; simpa [*] using hnext)
    · cases hstep
  | lockRead s =>
    simp only [step] at hstep
    split at hstep
    next u hs =>
      split at hstep
      next hflagged =>
        cases hstep
        refine hinv.setCall .idle (by simp [hs]) trivial id (fun _ _ => ⟨rfl, rfl⟩) fun hf => ?_
        simp [hflagged] at hf
      · split at hstep
        · cases hstep
        next hwrite =>
          split at hstep
          next hlive =>
            cases hstep
            refine hinv.setCall (.sending u) (by simp [hs]) hlive id (fun _ _ => ⟨rfl, rfl⟩)
              fun hf ho => ?_
            have hb := hinv.balance hf ho s
            rw [hs] at hb
            exact hb
          next hlive => cases hstep; exact inv_lockRead_pushing hinv hs hwrite hlive
    · cases hstep
  | push s =>
    simp only [step] at hstep
    split at hstep
    next u hs => cases hstep; exact inv_pushStep limits hinv hs
    · cases hstep
  | send s full =>
    simp only [step] at hstep
    split at hstep
    next u hs => cases hstep; exact inv_sendStep hinv hs full
    · cases hstep
  | resolve rib =>
    simp only [step] at hstep
    split at hstep
    next hd =>
      split at hstep <;> cases hstep
      cases rib with
      | false =>
        exact hinv.keepDumping (.draining false) (by simp [hd]) nofun nofun nofun (by rw [hd]; rfl)
      | true => exact hinv.keepDumping .walking (by simp [hd]) nofun nofun nofun (by rw [hd]; rfl)
    · cases hstep
  | finishWalk =>
    simp only [step] at hstep
    split at hstep
    next hd =>
      cases hstep
      exact hinv.keepDumping (.draining true) (by simp [hd]) nofun nofun nofun (by rw [hd]; rfl)
    · cases hstep
  | failWalk =>
    simp only [step] at hstep
    split at hstep
    next hd =>
      cases hstep
      have hrunning : h.dump ≠ .ended := by simp [hd]
      exact hinv.setDump hrunning .ended nofun nofun
        (fun hl => absurd hl (phase_of_running hinv hrunning)) nofun nofun nofun
    · cases hstep
  | lockWrite =>
    simp only [step] at hstep
    split at hstep
    next rib hd =>
      split at hstep
      next hreaders =>
        cases hstep
        exact hinv.keepDumping (.locked rib) (by simp [hd]) nofun (fun _ => hreaders) nofun
          (by rw [hd]; rfl)
      · cases hstep
    · cases hstep
  | take =>
    simp only [step] at hstep
    split at hstep
    next rib hd =>
      cases hstep
      have hreaders : h.readers = [] := hinv.exclusive (by rw [hd]; rfl)
      exact hinv.keepDumping (.taken rib h.buffer) (by simp [hd]) nofun (fun _ => hreaders)
        (fun _ => rfl) (by simp [hd, DumpState.batch])
    · cases hstep
  | inspect =>
    simp only [step] at hstep
    split at hstep
    next hd => cases hstep; exact (inv_inspect hinv hd).1 rfl rfl
    next rib batch _ hd => cases hstep; exact (inv_inspect hinv hd).2
    · cases hstep
  | replay =>
    simp only [step] at hstep
    split at hstep
    next rib batch hd => cases hstep; exact inv_replayStep hinv hd
    · cases hstep
  | close =>
    cases hstep
    exact { hinv with balance := nofun }

/-! ## Progress -/

/-- Steps that the parties take by themselves: no new call, no failure of the channel or of the
walk, no full queue. -/
def own : Move Src → Bool
  | .insert | .call .. | .failWalk | .close => false
  | .send _ full => !full
  | _ => true

/-- The parties can get from one state to another by themselves. -/
def Drives (limits : BufferLimits) (h t : Handoff Src) : Prop :=
  ∃ ms : List (Move Src), (∀ m ∈ ms, own m = true) ∧ exec (step limits) h ms = some t

/-- Nothing is on its way to the client, which is live. -/
structure Settled (h : Handoff Src) : Prop where
  live : h.phase = .live
  ended : h.dump = .ended
  idle : ∀ s, h.calls s = .idle
  buffer : h.buffer = []

structure Ready (h : Handoff Src) : Prop where
  inv : h.Inv
  inserted : h.inserted = true
  channelOpen : h.channelOpen = true
  unflagged : h.flagged = false

section Progress

variable {limits : BufferLimits} {h h' t : Handoff Src}

theorem Drives.refl (h : Handoff Src) : Drives limits h h := ⟨[], nofun, rfl⟩

theorem Drives.step {m : Move Src} (hm : own m = true) (hstep : h.step limits m = some h')
    (hrest : Drives limits h' t) : Drives limits h t := by
  obtain ⟨ms, hown, hexec⟩ := hrest
  refine ⟨m :: ms, ?_, (exec_cons_eq_some _).mpr ⟨h', hstep, hexec⟩⟩
  intro m' hm'
  rcases mem_cons.mp hm' with rfl | hm'
  · exact hm
  · exact hown m' hm'

theorem Drives.trans {u : Handoff Src} (hfirst : Drives limits h t) (hrest : Drives limits t u) :
    Drives limits h u := by
  obtain ⟨ms, hown, hexec⟩ := hfirst
  obtain ⟨ns, hown', hexec'⟩ := hrest
  refine ⟨ms ++ ns, ?_, by rw [exec_append, hexec]; exact hexec'⟩
  intro m hm
  exact (mem_append.mp hm).elim (hown m) (hown' m)

section

variable {m : Move Src} {s : Src} {u : Update} (hready : h.Ready)
include hready

/-- A step of the parties that neither closes the channel nor flags the client. -/
theorem Ready.step (hstep : h.step limits m = some h')
    (hsame : (h'.inserted, h'.channelOpen, h'.flagged) = (h.inserted, h.channelOpen, h.flagged)) :
    h'.Ready := by
  simp only [Prod.mk.injEq] at hsame
  exact ⟨inv_step limits hready.inv hstep, hsame.1.trans hready.inserted,
    hsame.2.1.trans hready.channelOpen, hsame.2.2.trans hready.unflagged⟩

variable (limits) {rib : Bool}

/-- The batch is replayed: with a RIB the task goes on draining, without it ends. -/
theorem drives_replaying (batch : List (Src × Update))
    (hd : h.dump = .replaying rib batch) :
    ∃ t, Drives limits h t ∧ t.Ready ∧ t.calls = h.calls ∧ t.buffer = h.buffer ∧
      t.dump = if rib then .draining true else .ended := by
  induction batch generalizing h with
  | nil =>
    have hstep : h.step limits .replay = some (h.replayStep rib []) := by simp [Handoff.step, hd]
    refine ⟨h.replayStep rib [], .step rfl hstep (.refl _), hready.step hstep ?_, ?_⟩ <;>
      cases rib <;> simp [replayStep]
  | cons x batch ih =>
    have hstep : h.step limits .replay = some { h with
        dump := .replaying rib batch, log := h.log ++ [x] } := by
      simp [Handoff.step, hd, replayStep, hready.channelOpen]
    obtain ⟨t, hdrives, hready', hcalls, hbuffer, hdump⟩ := ih (hready.step hstep rfl) rfl
    exact ⟨t, .step rfl hstep hdrives, hready', hcalls, hbuffer, hdump⟩

/-- The task takes the buffer: it ends, or goes on draining with the buffer empty. -/
theorem drives_taken {batch : List (Src × Update)} (hd : h.dump = .taken rib batch) :
    ∃ t, Drives limits h t ∧ t.Ready ∧ t.calls = h.calls ∧ t.buffer = [] ∧
      (t.dump = .ended ∨ t.dump = .draining true ∧ batch ≠ []) := by
  have hbuffer : h.buffer = [] := hready.inv.emptied (by rw [hd]; rfl)
  by_cases hlast : rib = true ∧ batch = []
  · obtain ⟨rfl, rfl⟩ := hlast
    have hstep : h.step limits .inspect = some { h with dump := .ended, phase := .live } := by
      simp [Handoff.step, hd]
    exact ⟨_, .step rfl hstep (.refl _), hready.step hstep rfl, rfl, hbuffer, .inl rfl⟩
  · have hstep : h.step limits .inspect = some { h with dump := .replaying rib batch } := by
      cases rib with
      | false => simp [Handoff.step, hd]
      | true =>
        cases batch with
        | nil => simp at hlast
        | cons => simp [Handoff.step, hd]
    obtain ⟨t, hdrives, hready', hcalls, hbuf, hdump⟩ :=
      drives_replaying limits (hready.step hstep rfl) batch rfl
    refine ⟨t, .step rfl hstep hdrives, hready', hcalls, hbuf.trans hbuffer, ?_⟩
    cases rib with
    | false => exact .inl hdump
    | true => exact .inr ⟨hdump, by simpa using hlast⟩

theorem drives_locked (hd : h.dump = .locked rib) :
    ∃ t, Drives limits h t ∧ t.Ready ∧ t.calls = h.calls ∧ t.buffer = [] ∧
      (t.dump = .ended ∨ t.dump = .draining true ∧ h.buffer ≠ []) := by
  have hstep : h.step limits .take = some { h with
      dump := .taken rib h.buffer, buffer := [], bufferedBytes := 0 } := by
    simp [Handoff.step, hd]
  obtain ⟨t, hdrives, hrest⟩ := drives_taken limits (hready.step hstep rfl) rfl
  exact ⟨t, .step rfl hstep hdrives, hrest⟩

/-- The task lets go of the phase lock. -/
theorem drives_unlocked :
    ∃ t, Drives limits h t ∧ t.Ready ∧ t.calls = h.calls ∧ t.dump.holdsWrite = false := by
  cases hd : h.dump with
  | resolving | walking | draining | ended =>
    exact ⟨h, .refl h, hready, rfl, by rw [hd]; rfl⟩
  | locked rib =>
    obtain ⟨t, hdrives, hready', hcalls, _, hdump⟩ := drives_locked limits hready hd
    refine ⟨t, hdrives, hready', hcalls, ?_⟩
    rcases hdump with hdump | ⟨hdump, _⟩ <;> rw [hdump] <;> rfl
  | taken rib batch =>
    obtain ⟨t, hdrives, hready', hcalls, _, hdump⟩ := drives_taken limits hready hd
    refine ⟨t, hdrives, hready', hcalls, ?_⟩
    rcases hdump with hdump | ⟨hdump, _⟩ <;> rw [hdump] <;> rfl
  | replaying rib batch =>
    obtain ⟨t, hdrives, hready', hcalls, _, hdump⟩ := drives_replaying limits hready batch hd
    refine ⟨t, hdrives, hready', hcalls, ?_⟩
    rw [hdump]
    cases rib <;> rfl

/-- The call of the source can end, with nothing else changed; it may flag the client. -/
def EndsCall (h : Handoff Src) (s : Src) : Prop :=
  ∃ t, Drives limits h t ∧ (t.flagged = true ∨
    t.Ready ∧ t.dump = h.dump ∧ t.calls s = .idle ∧ ∀ s', s' ≠ s → t.calls s' = h.calls s')

variable {limits}

private theorem Ready.endsCall_last (hm : own m = true) (hstep : h.step limits m = some t)
    (hidle : t.calls = (h.setCall s .idle).calls)
    (hsame : t.inserted = h.inserted ∧ t.channelOpen = h.channelOpen ∧ t.dump = h.dump) :
    EndsCall limits h s := by
  refine ⟨t, .step hm hstep (.refl t), ?_⟩
  cases hflag : t.flagged with
  | true => exact .inl rfl
  | false =>
    refine .inr ⟨⟨inv_step limits hready.inv hstep, hsame.1.trans hready.inserted,
      hsame.2.1.trans hready.channelOpen, hflag⟩, hsame.2.2, ?_, fun s' hne => ?_⟩
    · simp [hidle, setCall]
    · simp [hidle, setCall, hne]

private theorem Ready.endsCall {c : CallState} (hstep : h.step limits m = some h')
    (hm : own m = true) (hcalls : h'.calls = (h.setCall s c).calls) (hdump : h'.dump = h.dump)
    (hsame : (h'.inserted, h'.channelOpen, h'.flagged) = (h.inserted, h.channelOpen, h.flagged))
    (hend : h'.Ready → h'.calls s = c → EndsCall limits h' s) : EndsCall limits h s := by
  obtain ⟨t, hdrives, hend⟩ := hend (hready.step hstep hsame) (by simp [hcalls, setCall])
  refine ⟨t, .step hm hstep hdrives, hend.imp_right ?_⟩
  rintro ⟨hready', hd, hidle, hrest⟩
  refine ⟨hready', hd.trans hdump, hidle, fun s' hne => ?_⟩
  rw [hrest s' hne, hcalls]
  simp [setCall, hne]

theorem endsCall_pushing (hs : h.calls s = .pushing u) : EndsCall limits h s := by
  have hstep : h.step limits (.push s) = some (h.pushStep limits s u) := by
    simp [Handoff.step, hs]
  obtain ⟨hcalls, _, hsame⟩ := h.pushStep_frame limits s u
  exact hready.endsCall_last rfl hstep hcalls hsame

theorem endsCall_sending (hs : h.calls s = .sending u) : EndsCall limits h s := by
  have hstep : h.step limits (.send s false) = some { h.setCall s .idle with
      log := h.log ++ [(s, u)] } := by
    simp [Handoff.step, hs, sendStep, hready.channelOpen]
  exact hready.endsCall_last rfl hstep rfl ⟨rfl, rfl, rfl⟩

theorem endsCall_seen (hwrite : h.dump.holdsWrite = false) (hs : h.calls s = .seen u) :
    EndsCall limits h s := by
  by_cases hlive : h.phase = .live
  · have hstep : h.step limits (.lockRead s) = some (h.setCall s (.sending u)) := by
      simp [Handoff.step, hs, hready.unflagged, hwrite, hlive]
    exact hready.endsCall hstep rfl rfl rfl rfl endsCall_sending
  · have hstep : h.step limits (.lockRead s) = some { h.setCall s (.pushing u) with
        readers := s :: h.readers } := by
      simp [Handoff.step, hs, hready.unflagged, hwrite, hlive]
    exact hready.endsCall hstep rfl rfl rfl rfl endsCall_pushing

/-- A call can end while the dump task does not hold the phase lock. -/
theorem endsCall (s : Src) (hwrite : h.dump.holdsWrite = false) : EndsCall limits h s := by
  cases hs : h.calls s with
  | idle => exact ⟨h, .refl h, .inr ⟨hready, rfl, hs, fun _ _ => rfl⟩⟩
  | called u due =>
    have hstep : h.step limits (.snapshot s) = some { h.setCall s (.seen u) with
        given := if due then h.given else h.given ++ [(s, u)] } := by
      simp [Handoff.step, hs, hready.inserted]
    exact hready.endsCall hstep rfl rfl rfl rfl fun hready' => endsCall_seen hready' hwrite
  | seen u => exact endsCall_seen hready hwrite hs
  | pushing u => exact endsCall_pushing hready hs
  | sending u => exact endsCall_sending hready hs

variable (limits)

/-- All calls of the sources end. -/
theorem drives_calls (sources : List Src) (hwrite : h.dump.holdsWrite = false)
    (hothers : ∀ s, s ∉ sources → h.calls s = .idle) :
    ∃ t, Drives limits h t ∧ (t.flagged = true ∨ t.Ready ∧ ∀ s, t.calls s = .idle) := by
  induction sources generalizing h with
  | nil => exact ⟨h, .refl h, .inr ⟨hready, fun s => hothers s (by simp)⟩⟩
  | cons s sources ih =>
    have hcall : EndsCall limits h s := endsCall hready s hwrite
    obtain ⟨t, hdrives, hflag | ⟨hready', hdump, hidle, hrest⟩⟩ := hcall
    · exact ⟨t, hdrives, .inl hflag⟩
    · have hothers' : ∀ s', s' ∉ sources → t.calls s' = .idle := by
        intro s' hs'
        by_cases hne : s' = s
        · rw [hne, hidle]
        · rw [hrest s' hne]
          exact hothers s' (not_mem_cons_of_ne_of_not_mem hne hs')
      obtain ⟨t', hdrives', hend⟩ := ih hready' (by rw [hdump]; exact hwrite) hothers'
      exact ⟨t', hdrives.trans hdrives', hend⟩

variable (hidle : ∀ s, h.calls s = .idle)
include hidle

private theorem Ready.settled (hd : h.dump = .ended) : h.Settled :=
  have hlive := hready.inv.ended hd hready.unflagged
  ⟨hlive, hd, hidle, (hready.inv.live hlive).2.1⟩

theorem drives_round (hd : h.dump = .draining rib) :
    ∃ t, Drives limits h t ∧ t.Ready ∧ (∀ s, t.calls s = .idle) ∧ t.buffer = [] ∧
      (t.dump = .ended ∨ t.dump = .draining true ∧ h.buffer ≠ []) := by
  have hreaders : h.readers = [] := by
    rw [eq_nil_iff_forall_not_mem]
    intro s hs
    obtain ⟨u, hu⟩ := (hready.inv.reading s).mp hs
    simp [hidle s] at hu
  have hstep : h.step limits .lockWrite = some { h with dump := .locked rib } := by
    simp [Handoff.step, hd, hreaders]
  obtain ⟨t, hdrives, hready', hcalls, hrest⟩ := drives_locked limits (hready.step hstep rfl) rfl
  exact ⟨t, .step rfl hstep hdrives, hready', fun s => by rw [hcalls]; exact hidle s, hrest⟩

theorem drives_draining (hd : h.dump = .draining rib) : ∃ t, Drives limits h t ∧ t.Settled := by
  obtain ⟨t, hdrives, hready', hidle', hbuffer, hdump⟩ := drives_round limits hready hidle hd
  rcases hdump with hdump | ⟨hdump, _⟩
  · exact ⟨t, hdrives, hready'.settled hidle' hdump⟩
  · -- The second round finds the buffer empty.
    obtain ⟨t', hdrives', hready'', hidle'', _, hdump'⟩ := drives_round limits hready' hidle' hdump
    rcases hdump' with hdump' | ⟨_, hnonempty⟩
    · exact ⟨t', hdrives.trans hdrives', hready''.settled hidle'' hdump'⟩
    · exact absurd hbuffer hnonempty

/-- With no call in progress and the phase lock free the dump task comes to its end. -/
theorem drives_settled :
    ∃ t, Drives limits h t ∧ t.Settled := by
  obtain ⟨h₁, hdrives, hready₁, hcalls, hwrite⟩ := drives_unlocked limits hready
  have hidle₁ : ∀ s, h₁.calls s = .idle := fun s => by rw [hcalls]; exact hidle s
  suffices hend : ∃ t, Drives limits h₁ t ∧ t.Settled by
    obtain ⟨t, hdrives', hsettled⟩ := hend
    exact ⟨t, hdrives.trans hdrives', hsettled⟩
  cases hd : h₁.dump with
  | resolving =>
    have hstep : h₁.step limits (.resolve false) = some { h₁ with dump := .draining false } := by
      simp [Handoff.step, hd, hready₁.inserted]
    obtain ⟨t, hdrives', hsettled⟩ := drives_draining limits (hready₁.step hstep rfl) hidle₁ rfl
    exact ⟨t, .step rfl hstep hdrives', hsettled⟩
  | walking =>
    have hstep : h₁.step limits .finishWalk = some { h₁ with dump := .draining true } := by
      simp [Handoff.step, hd]
    obtain ⟨t, hdrives', hsettled⟩ := drives_draining limits (hready₁.step hstep rfl) hidle₁ rfl
    exact ⟨t, .step rfl hstep hdrives', hsettled⟩
  | draining rib => exact drives_draining limits hready₁ hidle₁ hd
  | locked _ | taken _ _ => simp [hd, DumpState.holdsWrite] at hwrite
  | replaying rib batch =>
    obtain ⟨t, hdrives', hready', hcalls', _, hdump⟩ := drives_replaying limits hready₁ batch hd
    have hidle' : ∀ s, t.calls s = .idle := fun s => by rw [hcalls']; exact hidle₁ s
    cases rib with
    | false => exact ⟨t, hdrives', hready'.settled hidle' hdump⟩
    | true =>
      obtain ⟨t', hdrives'', hsettled⟩ := drives_draining limits hready' hidle' hdump
      exact ⟨t', hdrives'.trans hdrives'', hsettled⟩
  | ended => exact ⟨h₁, .refl h₁, hready₁.settled hidle₁ hd⟩

end

end Progress

/-! ## Every schedule -/

section Schedules

variable {limits : BufferLimits} {h h' t : Handoff Src} {m : Move Src}
variable {ms : List (Move Src)}

def source : Move Src → Option Src
  | .call s _ | .snapshot s | .lockRead s | .push s | .send s _ => some s
  | _ => none

/-- Moves other than an insertion, a call and its snapshot. -/
def quiet : Move Src → Bool
  | .insert | .call .. | .snapshot _ => false
  | _ => true

theorem setCall_calls_cases (s : Src) (c : CallState) (hold : (h.calls s).waiting = none)
    (hc : c.waiting = none) (s' : Src) : (h.setCall s c).calls s' = h.calls s' ∨
      some s = some s' ∧ (h.calls s').waiting = none ∧
        ((h.setCall s c).calls s').waiting = none := by
  by_cases hs : s' = s
  · subst hs
    exact .inr ⟨rfl, hold, by simpa [setCall] using hc⟩
  · exact .inl (by simp [setCall, hs])

/-- A quiet move leaves what was given alone and starts no call. -/
theorem step_quiet (hm : quiet m = true) (hstep : h.step limits m = some h') :
    h'.given = h.given ∧ h'.inserted = h.inserted ∧
      ∀ s, h'.calls s = h.calls s ∨
        source m = some s ∧ (h.calls s).waiting = none ∧ (h'.calls s).waiting = none := by
  cases m with
  | insert | call | snapshot => cases hm
  | lockRead s =>
    simp only [step] at hstep
    split at hstep
    next u hs =>
      split at hstep
      · cases hstep; exact ⟨rfl, rfl, setCall_calls_cases s .idle (by rw [hs]; rfl) rfl⟩
      · split at hstep
        · cases hstep
        · split at hstep
          · cases hstep; exact ⟨rfl, rfl, setCall_calls_cases s (.sending u) (by rw [hs]; rfl) rfl⟩
          · cases hstep; exact ⟨rfl, rfl, setCall_calls_cases s (.pushing u) (by rw [hs]; rfl) rfl⟩
    · cases hstep
  | push s =>
    simp only [step] at hstep
    split at hstep
    next u hs =>
      cases hstep
      obtain ⟨hcalls, hgiven, hins, _⟩ := h.pushStep_frame limits s u
      rw [hcalls]
      exact ⟨hgiven, hins, setCall_calls_cases s .idle (by rw [hs]; rfl) rfl⟩
    · cases hstep
  | send s full =>
    simp only [step] at hstep
    split at hstep
    next u hs =>
      cases hstep
      obtain ⟨hcalls, hgiven, hins⟩ := h.sendStep_frame s u full
      rw [hcalls]
      exact ⟨hgiven, hins, setCall_calls_cases s .idle (by rw [hs]; rfl) rfl⟩
    · cases hstep
  | replay =>
    simp only [step] at hstep
    split at hstep
    next rib batch hd =>
      cases hstep
      obtain ⟨hcalls, hgiven, hins⟩ := h.replayStep_frame rib batch
      exact ⟨hgiven, hins, fun s => .inl (by rw [hcalls])⟩
    · cases hstep
  | resolve | lockWrite =>
    simp only [step] at hstep
    split at hstep
    · split at hstep <;> cases hstep
      exact ⟨rfl, rfl, fun _ => .inl rfl⟩
    · cases hstep
  | finishWalk | failWalk | take | inspect =>
    simp only [step] at hstep
    split at hstep <;> cases hstep <;> exact ⟨rfl, rfl, fun _ => .inl rfl⟩
  | close => cases hstep; exact ⟨rfl, rfl, fun _ => .inl rfl⟩

theorem calls_of_source_ne (hstep : h.step limits m = some h') {s : Src}
    (hs : source m ≠ some s) : h'.calls s = h.calls s := by
  cases hm : quiet m with
  | true =>
    rcases (step_quiet hm hstep).2.2 s with hsame | ⟨hsource, _⟩
    · exact hsame
    · exact absurd hsource hs
  | false =>
    cases m with
    | insert =>
      simp only [step] at hstep
      split at hstep <;> cases hstep
      rfl
    | call s' u =>
      have hne : s ≠ s' := fun h => hs (by rw [h]; rfl)
      simp only [step] at hstep
      split at hstep <;> cases hstep
      simp [setCall, hne]
    | snapshot s' =>
      have hne : s ≠ s' := fun h => hs (by rw [h]; rfl)
      simp only [step] at hstep
      split at hstep
      · split at hstep <;> cases hstep <;> simp [setCall, hne]
      · cases hstep
    | _ => cases hm

/-- Sources that do not occur in a schedule stay idle. -/
theorem calls_of_exec (hexec : exec (step limits) h ms = some t) {s : Src}
    (hs : s ∉ ms.filterMap source) : t.calls s = h.calls s := by
  induction ms generalizing h with
  | nil => cases hexec; rfl
  | cons m ms ih =>
    obtain ⟨h', hstep, hrest⟩ := (exec_cons_eq_some _).mp hexec
    have hm : source m ≠ some s := fun hm => hs (by simp [hm])
    have hms : s ∉ ms.filterMap source := fun hms => hs (by
      rw [filterMap_cons]
      split <;> simp [hms])
    exact (ih hrest hms).trans (calls_of_source_ne hstep hm)

theorem inv_exec (hinv : h.Inv) (hexec : exec (step limits) h ms = some t) : t.Inv :=
  exec_invariant (step limits) Inv (fun _ _ => True) (fun _ _ _ hi _ hs => inv_step limits hi hs) hinv
    (along_of_forall _ h fun _ _ _ => trivial) hexec

/-- From every state of a schedule the parties can, by themselves, bring everything to the client
or flag it. -/
theorem can_settle (hexec : exec (step limits) init ms = some h) (hins : h.inserted = true)
    (hopen : h.channelOpen = true) (hflag : h.flagged = false) :
    ∃ t, Drives limits h t ∧ (t.flagged = true ∨ t.Settled) := by
  obtain ⟨h₁, hdrives, hready, hcalls, hwrite⟩ :=
    drives_unlocked limits ⟨inv_exec inv_init hexec, hins, hopen, hflag⟩
  have hothers : ∀ s, s ∉ ms.filterMap source → h₁.calls s = .idle := by
    intro s hs
    rw [hcalls, calls_of_exec hexec hs]
    rfl
  obtain ⟨h₂, hdrives₂, hflag₂ | ⟨hready₂, hidle⟩⟩ := drives_calls limits hready _ hwrite hothers
  · exact ⟨h₂, hdrives.trans hdrives₂, .inl hflag₂⟩
  · obtain ⟨t, hdrives₃, hsettled⟩ := drives_settled limits hready₂ hidle
    exact ⟨t, hdrives.trans (hdrives₂.trans hdrives₃), .inr hsettled⟩

/-- What is given to `direct_update` once the client is in the map. -/
def callsAfter : Bool → List (Move Src) → List (Src × Update)
  | _, [] => []
  | _, .insert :: ms => callsAfter true ms
  | true, .call s u :: ms => (s, u) :: callsAfter true ms
  | inserted, _ :: ms => callsAfter inserted ms

omit [DecidableEq Src] in
theorem callsAfter_quiet (hm : quiet m = true) (inserted : Bool) (ms : List (Move Src)) :
    callsAfter inserted (m :: ms) = callsAfter inserted ms := by
  cases m <;> cases inserted <;> first | rfl | cases hm

/-- The update of the call of a source that is under way when the client comes into the map, if the
call takes its snapshot after that. -/
def underWay (s : Src) : Bool → Option Update → List (Move Src) → List Update
  | _, _, [] => []
  | _, waiting, .insert :: ms => underWay s true waiting ms
  | false, waiting, .call s' u :: ms => underWay s false (if s' = s then some u else waiting) ms
  | inserted, waiting, .snapshot s' :: ms =>
    if s' = s then if inserted then waiting.toList else underWay s false none ms
    else underWay s inserted waiting ms
  | inserted, waiting, _ :: ms => underWay s inserted waiting ms

theorem underWay_none (s : Src) (ms : List (Move Src)) : underWay s true none ms = [] := by
  induction ms with
  | nil => rfl
  | cons m ms ih => cases m <;> simp [underWay, ih]

theorem underWay_quiet (hm : quiet m = true) (s : Src) (inserted : Bool) (waiting : Option Update)
    (ms : List (Move Src)) :
    underWay s inserted waiting (m :: ms) = underWay s inserted waiting ms := by
  cases m <;> cases inserted <;> first | rfl | cases hm

/-- What is given for a client is what is given once it is in the map, after the update of a call
that was under way then, if any. -/
theorem given_of_exec (hexec : exec (step limits) h ms = some t) (s : Src) :
    of s t.given = of s h.given ++ underWay s h.inserted (h.calls s).waiting ms ++
      of s (callsAfter h.inserted ms) := by
  induction ms generalizing h with
  | nil => cases hexec; simp [callsAfter, underWay]
  | cons m ms ih =>
    obtain ⟨h', hstep, hrest⟩ := (exec_cons_eq_some _).mp hexec
    have hgiven := ih hrest
    cases hm : quiet m with
    | true =>
      obtain ⟨hsame, hins, hcalls⟩ := step_quiet hm hstep
      have hwaiting : (h'.calls s).waiting = (h.calls s).waiting := by
        rcases hcalls s with hcalls | ⟨_, hold, hnew⟩
        · rw [hcalls]
        · rw [hold, hnew]
      rw [callsAfter_quiet hm, underWay_quiet hm, hgiven, hsame, hins, hwaiting]
    | false =>
      cases m with
      | insert =>
        simp only [step] at hstep
        split at hstep <;> cases hstep
        exact hgiven
      | call s' u =>
        simp only [step] at hstep
        split at hstep <;> cases hstep
        next hidle =>
          cases hins : h.inserted with
          | false =>
            simp only [hins, setCall, Bool.false_eq_true, if_false] at hgiven
            by_cases hs : s = s'
            · subst hs
              simp [hgiven, underWay, callsAfter, CallState.waiting]
            · simp [hgiven, hs, Ne.symm hs, underWay, callsAfter]
          | true =>
            simp only [hins, setCall, if_true] at hgiven
            by_cases hs : s = s'
            · -- The call is due, and nothing is under way before it.
              subst hs
              simp [hgiven, hidle, underWay, callsAfter, CallState.waiting, underWay_none]
            · simp [hgiven, hs, underWay, callsAfter, of_cons_ne hs]
      | snapshot s' =>
        have hafter : callsAfter h.inserted (.snapshot s' :: ms) = callsAfter h.inserted ms := by
          cases h.inserted <;> rfl
        rw [hafter]
        simp only [step] at hstep
        split at hstep
        next u due hcall =>
          split at hstep <;> cases hstep
          next hins =>
            simp only [setCall, hins] at hgiven
            by_cases hs : s = s'
            · subst hs
              cases due <;> simp [hgiven, hins, hcall, underWay, CallState.waiting, underWay_none]
            · cases due <;> simp [hgiven, hins, hs, Ne.symm hs, underWay, of_cons_ne hs]
          next hins =>
            simp only [setCall, hins] at hgiven
            by_cases hs : s = s'
            · subst hs
              simp [hgiven, hins, underWay, CallState.waiting]
            · simp [hgiven, hins, hs, Ne.symm hs, underWay]
        · cases hstep
      | _ => cases hm

/-- The handoff loses and reorders nothing.  In every state of every schedule in which the channel
is open and the client not flagged, what was replayed or sent live for a source is a first part
of what the source gave: of the call under way when the client came into the map, if there was one,
and of the calls after that.  It is all of it once everything is delivered, which the parties can
always bring about unless they flag the client.  The phase is live on an empty buffer only. -/
theorem handoff_lossless (limits : BufferLimits) (ms : List (Move Src)) {h : Handoff Src}
    (hexec : exec (step limits) init ms = some h) (hopen : h.channelOpen = true)
    (hflag : h.flagged = false) :
    (∀ s, of s h.log <+: underWay s false none ms ++ of s (callsAfter false ms) ∧
      (h.Settled → of s h.log = underWay s false none ms ++ of s (callsAfter false ms))) ∧
    (h.inserted = true → ∃ t, Drives limits h t ∧ (t.flagged = true ∨ t.Settled)) ∧
    (h.phase = .live → h.buffer = []) := by
  have hinv : h.Inv := inv_exec inv_init hexec
  refine ⟨fun s => ?_, fun hins => can_settle hexec hins hopen hflag, fun hl => (hinv.live hl).2.1⟩
  have hbalance := hinv.balance hflag hopen s
  have hgiven : of s h.given = [] ++ underWay s false none ms ++ of s (callsAfter false ms) :=
    given_of_exec hexec s
  rw [hgiven, nil_append] at hbalance
  refine ⟨⟨_, hbalance⟩, fun hsettled => ?_⟩
  rw [hsettled.ended, hsettled.buffer, hsettled.idle s] at hbalance
  simpa [DumpState.batch, CallState.inFlight] using hbalance

end Schedules

/-- Two sources, one of them under way when the client is inserted: a batch, a second one that
arrives during the replay, and a live update. -/
def twoSources : List (Move Bool) :=
  let u := fun n => Update.ingressReappeared n
  [.call true (u 0), .insert, .snapshot true, .resolve true, .call false (u 1), .snapshot false,
    .lockRead false, .lockRead true, .push true, .push false, .finishWalk, .lockWrite, .take,
    .inspect, .call false (u 2), .snapshot false, .lockRead false, .replay, .push false, .replay,
    .replay, .lockWrite, .take, .inspect, .call true (u 3), .snapshot true, .replay, .replay,
    .lockWrite, .take, .inspect, .lockRead true, .send true false]

theorem handoff_lossless_twoSources :
    ∃ h, exec (step ⟨10, 1000, fun _ => 1⟩) init twoSources = some h ∧ h.phase = .live ∧
      h.log.length = 4 ∧ underWay true false none twoSources = [.ingressReappeared 0] ∧
      ∀ s, of s h.log <+: underWay s false none twoSources ++ of s (callsAfter false twoSources) := by
  have hrun : (exec (step ⟨10, 1000, fun _ => 1⟩) init twoSources).map
      (fun h => (h.channelOpen, h.flagged, h.phase, h.log.length)) =
        some (true, false, .live, 4) := by
    decide +kernel
  obtain ⟨h, hexec, hfacts⟩ := Option.map_eq_some_iff.mp hrun
  simp only [Prod.mk.injEq] at hfacts
  obtain ⟨hopen, hflag, hlive, hlog⟩ := hfacts
  refine ⟨h, hexec, hlive, hlog, rfl, fun s => ?_⟩
  exact ((handoff_lossless ⟨10, 1000, fun _ => 1⟩ twoSources hexec hopen hflag).1 s).1

end Handoff

end Rotonda.BmpOut
