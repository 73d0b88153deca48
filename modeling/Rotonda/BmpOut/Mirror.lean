import Rotonda.BmpOut.DumpView
import Rotonda.BmpOut.LiveView
import Rotonda.RibUnit.ActiveRoutes
import Rotonda.RibUnit.Streaming

/-!
A BMP client as a mirror of the RIB, for one peer.

The RIB handles updates and forwards them.  Before a client is inserted they pass it by; from then on
they wait until the dump of the client is over, and are sent one after the other.  The dump takes the
keys of the unicast store and then, at any later moments, the records of each key.

* `Restreams`: what is forwarded of an update does to the peer's routes what it does in the RIB;
* `Mirror.Inv`: what the dump read, or the receiver holds, becomes what is in the RIB once the
  updates that wait are applied to it;
* `Mirror.receiver_holds_active`: when nothing waits, the receiver holds the active unicast
  routes of the peer.
-/

namespace Rotonda.BmpOut

open Lib Lib.Bytes Lib.Runs Lib.Replay PrefixStore List Option

variable {u : Update}

section Forwarding

variable {S : Type} [PrefixStore S RotondaPaMap]

/-- What the receiver should hold of a unicast route of the peer. -/
def value (rib : Rib S) (id : IngressId) (p : Prefix) : Option Announcement :=
  (rib.activeMeta ⟨false, p, id⟩).map (announcementOf p)

/-- What is forwarded of the update says what the update does to the unicast routes of the peer: no
step exposes one of them, payloads of the peer are unicast announcements and withdrawals, and a
withdrawal of the peer is one of all its routes. -/
structure Restreams (cfg : RibConfig) (id : IngressId) (rib : Rib S) (u : Update) : Prop where
  unexposed : ∀ p pre e, pre ++ [e] <+: cfg.events u → ¬ Rib.ExposesAt ⟨false, p, id⟩
    (run (Rib.step cfg.retainWithdrawnAttributes) rib pre) e
  plain : ∀ q ∈ u.payloads.filterMap cfg.accepted, q.ingressId = id →
    q.rxValue.multicast = false ∧ q.routeStatus ≠ .inActive
  whole : ∀ scope, u = .withdraw id scope → ∀ p, value rib id p ≠ none →
    scopeCovers scope false p.family = true

variable [LawfulPrefixStore S] {cfg : RibConfig} {id : IngressId} {rib : Rib S} {p : Prefix}

theorem value_step {retain : Bool} {e : RibEvent} (h : ¬ Rib.ExposesAt ⟨false, p, id⟩ rib e) :
    value (rib.step retain e) id p =
      ((e.sets ⟨false, p, id⟩).map (Option.map (announcementOf p))).getD (value rib id p) := by
  rw [value, Rib.activeMeta_step h]
  cases e.sets ⟨false, p, id⟩ <;> rfl

/-- A payload sets in the RIB what it sets at the receiver. -/
theorem sets_payload {q : Payload}
    (hplain : q.ingressId = id → q.rxValue.multicast = false ∧ q.routeStatus ≠ .inActive) :
    ((RibEvent.payload q).sets ⟨false, p, id⟩).map (Option.map (announcementOf p)) =
      (Request.payload q).sets id p := by
  have hkey : q.key = ⟨false, p, id⟩ ↔ q.ingressId = id ∧ q.rxValue.pfx = p := by
    rw [Payload.key, RouteKey.mk.injEq]
    constructor
    · rintro ⟨_, hp, hid⟩
      exact ⟨hid, hp⟩
    · rintro ⟨hid, hp⟩
      exact ⟨(hplain hid).1, hp, hid⟩
  rw [RibEvent.sets, RibEvent.verdict, Request.sets]
  by_cases habout : q.ingressId = id ∧ q.rxValue.pfx = p
  · rw [if_pos (hkey.mpr habout), if_pos habout]
    cases hstatus : q.routeStatus with
    | active => simp [RibEvent.attributes]
    | inActive => exact absurd hstatus (hplain habout.1).2
    | withdrawn => simp
  · rw [if_neg fun hk => habout (hkey.mp hk), if_neg habout]
    rfl

theorem value_payloads {retain : Bool} {qs : List Payload}
    (hplain : ∀ q ∈ qs, q.ingressId = id → q.rxValue.multicast = false ∧ q.routeStatus ≠ .inActive)
    (hunexposed : ∀ pre e, pre ++ [e] <+: qs.map RibEvent.payload →
      ¬ Rib.ExposesAt ⟨false, p, id⟩ (run (Rib.step retain) rib pre) e) :
    value (run (Rib.step retain) rib (qs.map .payload)) id p =
      replay (Request.sets id) p (value rib id p) (qs.map .payload) := by
  induction qs generalizing rib with
  | nil => rfl
  | cons q qs ih =>
    obtain ⟨hhead, htail⟩ := (@steps_cons _ _ (Rib.step retain)
      (fun rib e => ¬ Rib.ExposesAt ⟨false, p, id⟩ rib e) rib _ _).mp hunexposed
    have hq := hplain q mem_cons_self
    rw [map_cons, map_cons, run_cons, replay_cons,
      ih (fun q' hq' => hplain q' (mem_cons_of_mem _ hq')) htail, value_step hhead, sets_payload hq]
    rfl

/-- The end of the session of every peer of a list. -/
theorem replay_peerDowns (entries : List (IngressId × Option IngressInfo)) (v : Option Announcement) :
    replay (Request.sets id) p v (entries.map fun e => .peerDown e.1 e.2) =
      if id ∈ entries.map Prod.fst then none else v := by
  induction entries generalizing v with
  | nil => rfl
  | cons e entries ih =>
    rw [map_cons, replay_cons, ih, Lib.Replay.apply, Request.sets]
    by_cases hid : e.1 = id
    · simp [hid]
    · have hmem : id ∈ (e :: entries).map Prod.fst ↔ id ∈ entries.map Prod.fst := by
        simp [Ne.symm hid]
      simp only [hid, hmem, if_false, getD_none]

omit [LawfulPrefixStore S] in
/-- The requests of what is forwarded of a batch. -/
theorem requests_filterPayload (cfg : RibConfig) (rib : Rib S) (ps : List Payload) :
    (rib.filterPayload cfg ps).2.flatMap requests = (ps.filterMap cfg.accepted).map .payload := by
  have hrequests : ∀ u ∈ (rib.filterPayload cfg ps).2, requests u = u.payloads.map .payload := by
    intro u hu
    rcases Rib.filterPayload_kinds hu with rfl | ⟨q, rfl⟩ | ⟨qs, rfl⟩ <;> rfl
  rw [← Rib.filterPayload_forwarded cfg rib ps, map_flatMap]
  exact flatMap_congr hrequests

/-- What an update does to the routes of the peer, told by what is forwarded of it. -/
theorem value_processUpdate (h : Restreams cfg id rib u) (p : Prefix) :
    value (rib.processUpdate cfg u).1 id p =
      replay (Request.sets id) p (value rib id p) ((rib.processUpdate cfg u).2.flatMap requests) := by
  have hunexposed := h.unexposed p
  have hplain := h.plain
  -- an update that is one event of the RIB
  have hevent {e : RibEvent} (hevents : cfg.events u = [e]) :
      value (rib.processUpdate cfg u).1 id p =
        ((e.sets ⟨false, p, id⟩).map (Option.map (announcementOf p))).getD (value rib id p) := by
    rw [hevents] at hunexposed
    rw [Rib.processUpdate_eq_run, hevents, run_cons, run_nil]
    exact value_step (hunexposed [] e prefix_rfl)
  cases u with
  | single q =>
    rw [Rib.processUpdate_eq_run]
    exact (value_payloads hplain hunexposed).trans
      (congrArg _ (requests_filterPayload cfg rib [q]).symm)
  | bulk qs =>
    rw [Rib.processUpdate_eq_run]
    exact (value_payloads hplain hunexposed).trans
      (congrArg _ (requests_filterPayload cfg rib qs).symm)
  | withdraw id' scope =>
    rw [hevent rfl, RibEvent.sets, RibEvent.verdict]
    change _ = ((Request.peerDown id' none).sets id p).getD (value rib id p)
    rw [Request.sets]
    by_cases hid : id' = id
    · subst hid
      rw [if_pos rfl]
      split
      · rfl
      next hcovers =>
        -- what the withdrawal leaves out is not there
        by_contra hactive
        exact hcovers ⟨rfl, h.whole scope rfl p hactive⟩
    · rw [if_neg fun hmui => hid hmui.1.symm, if_neg hid]
      rfl
  | withdrawBulk entries =>
    rw [hevent rfl]
    change _ = replay (Request.sets id) p (value rib id p) (requests (.withdrawBulk entries) ++ [])
    rw [append_nil, requests, replay_peerDowns, RibEvent.sets, RibEvent.verdict]
    split <;> rfl
  | ingressReappeared id' =>
    rw [hevent rfl]
    rfl
  | upstreamStatusChange _ => rfl
  | outputStream => rfl
  | rtr _ => rfl
  | peerStats _ _ => rfl

end Forwarding

/-! ## The machine -/

/-- Where the client is: not there, inserted, dumping with the keys to come and what was read, or
serving after its dump. -/
inductive Phase where
  | absent
  | inserted
  | walking (todo : List Prefix) (calls : List AddCall)
  | serving (c : Client)
  | failed

/-- The RIB, the updates that it forwarded and that the client did not get yet, and the client. -/
structure Mirror (S : Type) where
  rib : Rib S
  queue : List Update
  phase : Phase

namespace Mirror

variable {r : Record RotondaPaMap} {calls : List AddCall} {queue : List Update}

inductive Move where
  | handle (u : Update)
  | miss
  | insert
  | enumerate
  | fetch (orders : Mui → List AggKey)
  | finish (args : DumpArgs) (w : World)
  | deliver (worlds : Nat → World)

variable {S : Type} [PrefixStore S RotondaPaMap]

def fetched (s : S) (p : Prefix) (orders : Mui → List AggKey) : List AddCall :=
  match Rib.fetchLive s p with
  | some pr => pr.metaData.map fun r =>
    ⟨r.multiUniqId, pr.pfx, r.metaData, orders r.multiUniqId⟩
  | none => []

def step (cfg : RibConfig) (m : Mirror S) : Move → Option (Mirror S)
  | .handle u =>
    let (rib, forwarded) := m.rib.processUpdate cfg u
    some { m with rib := rib, queue := m.queue ++ forwarded }
  | .miss => match m.phase, m.queue with
    | .absent, _ :: queue => some { m with queue := queue }
    | _, _ => none
  | .insert => match m.phase with
    | .absent => some { m with phase := .inserted }
    | _ => none
  | .enumerate => match m.phase with
    | .inserted => some { m with phase := .walking (prefixesKeysIter m.rib.unicast) [] }
    | _ => none
  | .fetch orders => match m.phase with
    | .walking (p :: todo) calls =>
      some { m with phase := .walking todo (calls ++ fetched m.rib.unicast p orders) }
    | _ => none
  | .finish args w => match m.phase with
    | .walking [] calls => match Client.new.performInitialDump args w calls with
      | (c, true) => some { m with phase := .serving c }
      | (_, false) => some { m with phase := .failed }
    | _ => none
  | .deliver worlds => match m.phase, m.queue with
    | .serving c, u :: queue =>
      some { m with queue := queue, phase := .serving (c.sendUpdate worlds u) }
    | _, _ => none

/-- The move keeps the receiver's routes of the peer true to the RIB. -/
def Faithful (cfg : RibConfig) (id : IngressId) (h : Bytes) (m : Mirror S) : Move → Prop
  | .handle u => Restreams cfg id m.rib u
  | .fetch _ => ∀ p todo calls, m.phase = .walking (p :: todo) calls →
      ∀ r, m.rib.report ⟨false, p, id⟩ = some r → r.status ≠ .inActive
  | .finish args w => Names id h w ∧
      ∀ calls, m.phase = .walking [] calls → Completes id args w calls
  | .deliver worlds => ∀ u queue, m.queue = u :: queue → Tuned id h worlds u
  | .miss | .insert | .enumerate => True

/-! ## The invariant -/

def pending (m : Mirror S) : List Request := m.queue.flatMap requests

/-- What waits makes this value of a route the one of the RIB. -/
def Leads (id : IngressId) (m : Mirror S) (p : Prefix) (v : Option Announcement) : Prop :=
  Behind (Request.sets id) m.pending p v (value m.rib id p)

/-- What is known of the routes of the peer outside the RIB. -/
def PhaseInv (id : IngressId) (h : Bytes) (m : Mirror S) : Phase → Prop
  | .absent | .inserted | .failed => True
  | .walking todo calls => todo.Nodup ∧ (∀ call ∈ calls, call.pfx ∉ todo) ∧
      ∀ p, p ∉ todo → ∃ v, ReadAs id calls p v ∧ m.Leads id p v
  | .serving c => c.Serves id h ∧ ∀ p, m.Leads id p (viewOf c.sent h p)

structure Inv (id : IngressId) (h : Bytes) (m : Mirror S) : Prop where
  current : ∀ p, m.Leads id p (value m.rib id p)
  phase : PhaseInv id h m m.phase

variable {cfg : RibConfig} {id : IngressId} {h : Bytes} {m m' : Mirror S} {p : Prefix}

theorem PhaseInv.mono (hleads : ∀ p v, m.Leads id p v → m'.Leads id p v) {ph : Phase}
    (hph : PhaseInv id h m ph) : PhaseInv id h m' ph := by
  cases ph with
  | walking todo calls =>
    obtain ⟨hnodup, hcalls, hread⟩ := hph
    refine ⟨hnodup, hcalls, fun p hp => ?_⟩
    obtain ⟨v, hv, hlead⟩ := hread p hp
    exact ⟨v, hv, hleads p v hlead⟩
  | serving c => exact ⟨hph.1, fun p => hleads p _ (hph.2 p)⟩
  | absent => trivial
  | inserted => trivial
  | failed => trivial

/-- The calls for a prefix are about that prefix. -/
theorem pfx_of_mem_fetched {s : S} {orders : Mui → List AggKey} {call : AddCall}
    (hcall : call ∈ fetched s p orders) : call.pfx = p := by
  unfold fetched at hcall
  split at hcall
  next pr hpr =>
    obtain ⟨r, _, rfl⟩ := mem_map.mp hcall
    exact Rib.pfx_of_fetchLive hpr
  · cases hcall

variable {rib : Rib S}

theorem value_eq_some_iff {a : Announcement} : value rib id p = some a ↔
    ∃ r, rib.report ⟨false, p, id⟩ = some r ∧ r.status = .active ∧
      announcementOf p r.metaData = a := by
  rw [value, map_eq_some_iff]
  constructor
  · rintro ⟨meta', hmeta, rfl⟩
    obtain ⟨r, hr, hif⟩ := bind_eq_some_iff.mp hmeta
    split at hif
    next hactive =>
      cases hif
      exact ⟨r, hr, hactive, rfl⟩
    · cases hif
  · rintro ⟨r, hr, hactive, rfl⟩
    refine ⟨r.metaData, ?_, rfl⟩
    rw [Rib.activeMeta, hr, bind_some, if_pos hactive]

/-- The first update of the queue is gone. -/
theorem Inv.current_tail (hm : m.Inv id h) (hqueue : m.queue = u :: queue) {ph : Phase} (p : Prefix)
    : Leads id (⟨m.rib, queue, ph⟩ : Mirror S) p (value m.rib id p) := by
  have hlead := hm.current p
  rw [Leads, pending, hqueue, flatMap_cons] at hlead
  exact hlead.forget

theorem Inv.finish (hm : m.Inv id h) {args : DumpArgs} {w : World}
    (hphase : m.phase = .walking [] calls) (hw : Names id h w) (hargs : Completes id args w calls) :
    ∃ c, Client.new.performInitialDump args w calls = (c, true) ∧
      Inv id h { m with phase := .serving c } := by
  obtain ⟨hcurrent, hph⟩ := hm
  rw [hphase] at hph
  obtain ⟨_, _, hread⟩ := hph
  have hreads : ∀ p, ∃ v, ReadAs id calls p v :=
    fun p => (hread p not_mem_nil).imp fun _ hv => hv.1
  obtain ⟨c, hdump, hserves, hview⟩ := viewOf_performInitialDump hw hargs hreads
  refine ⟨c, hdump, hcurrent, hserves, fun p => ?_⟩
  obtain ⟨v, hv, hlead⟩ := hread p not_mem_nil
  rw [(hview p).unique hv]
  exact hlead

theorem Inv.deliver (hm : m.Inv id h) {c : Client} (hphase : m.phase = .serving c)
    (hqueue : m.queue = u :: queue) {worlds : Nat → World} (hu : Tuned id h worlds u) :
    Inv id h { m with queue := queue, phase := .serving (c.sendUpdate worlds u) } := by
  have hph := hm.phase
  rw [hphase] at hph
  obtain ⟨hserves, hleads⟩ := hph
  obtain ⟨hserves', hview⟩ := hserves.sendUpdate hu
  refine ⟨hm.current_tail hqueue, hserves', fun p => ?_⟩
  have hlead := hleads p
  rw [Leads, pending, hqueue, flatMap_cons] at hlead
  rw [hview p]
  exact hlead.split

variable [LawfulPrefixStore S]

/-- The calls for a prefix are its records that are not withdrawn. -/
theorem fetched_eq (s : S) (p : Prefix) (orders : Mui → List AggKey) :
    ∃ rs, (fetched s p orders = (retainLive rs).map fun r =>
        ⟨r.multiUniqId, p, r.metaData, orders r.multiUniqId⟩) ∧
      ∀ r, r ∈ rs ↔ PrefixStore.report s p r.multiUniqId = some r := by
  obtain ⟨rs, hget, _, hrs⟩ := LawfulPrefixStore.getRecordsForPrefix_eq s p
  refine ⟨rs, ?_, hrs⟩
  rcases hget with hget | ⟨hget, rfl⟩
  · rw [fetched, Rib.fetchLive, hget]
    simp only [livePrefix]
    cases hlive : retainLive rs with
    | nil => rfl
    | cons r live => rfl
  · rw [fetched, Rib.fetchLive, hget]
    rfl

theorem multiUniqId_of_report {s : S}
    (hr : PrefixStore.report s p id = some r) : r.multiUniqId = id := by
  obtain ⟨r', hlocal, rfl⟩ := map_eq_some_iff.mp hr
  have hid := LawfulPrefixStore.multiUniqId_eq hlocal
  split <;> exact hid

/-- What the walk reads of a route is what the RIB has, if it has no inactive one. -/
theorem readAs_fetched (orders : Mui → List AggKey)
    (hactive : ∀ r, rib.report ⟨false, p, id⟩ = some r → r.status ≠ .inActive) :
    ReadAs id (fetched rib.unicast p orders) p (value rib id p) := by
  intro a
  obtain ⟨rs, hfetched, hrs⟩ := fetched_eq rib.unicast p orders
  rw [value_eq_some_iff, hfetched]
  constructor
  · rintro ⟨r, hr, hstatus, rfl⟩
    have hid := multiUniqId_of_report hr
    have hmem : r ∈ rs := (hrs r).mpr (by rw [hid]; exact hr)
    have hlive : r ∈ retainLive rs := mem_filter.mpr ⟨hmem, by simp [hstatus]⟩
    exact ⟨_, mem_map.mpr ⟨r, hlive, rfl⟩, hid, rfl, rfl⟩
  · rintro ⟨call, hcall, hid, _, rfl⟩
    obtain ⟨r, hr, rfl⟩ := mem_map.mp hcall
    obtain ⟨hmem, hlive⟩ := mem_filter.mp hr
    have hreport := (hrs r).mp hmem
    replace hid : r.multiUniqId = id := hid
    rw [hid] at hreport
    refine ⟨r, hreport, ?_, rfl⟩
    cases hstatus : r.status with
    | active => rfl
    | inActive => exact absurd hstatus (hactive r hreport)
    | withdrawn => simp [hstatus] at hlive

theorem value_of_not_mem_keys (hp : p ∉ prefixesKeysIter rib.unicast) : value rib id p = none := by
  have hlocal : PrefixStore.localRecord rib.unicast p id = none :=
    not_isSome_iff_eq_none.mp fun hsome =>
      hp (LawfulPrefixStore.mem_prefixesKeysIter hsome)
  refine eq_none_iff_forall_ne_some.mpr fun a ha => ?_
  obtain ⟨r, hr, _⟩ := value_eq_some_iff.mp ha
  obtain ⟨r', hlocal', _⟩ := map_eq_some_iff.mp hr
  cases hlocal.symm.trans hlocal'

/-! ## Steps -/

theorem Inv.handle (hm : m.Inv id h) (hu : Restreams cfg id m.rib u) :
    Inv id h { m with
      rib := (m.rib.processUpdate cfg u).1, queue := m.queue ++ (m.rib.processUpdate cfg u).2 } := by
  have hpending : pending { m with
      rib := (m.rib.processUpdate cfg u).1, queue := m.queue ++ (m.rib.processUpdate cfg u).2 } =
      m.pending ++ (m.rib.processUpdate cfg u).2.flatMap requests := flatMap_append
  constructor
  · intro p
    rw [Leads, hpending, value_processUpdate hu]
    exact (hm.current p).advance _
  · refine hm.phase.mono fun p v hv => ?_
    rw [Leads, hpending, value_processUpdate hu]
    exact hv.append _

theorem Inv.enumerate (hm : m.Inv id h) :
    Inv id h { m with phase := .walking (prefixesKeysIter m.rib.unicast) [] } := by
  refine ⟨hm.current, LawfulPrefixStore.nodup_prefixesKeysIter _, nofun, fun p hp => ?_⟩
  have hlead := hm.current p
  rw [value_of_not_mem_keys hp] at hlead
  exact ⟨none, fun a => ⟨nofun, nofun⟩, hlead⟩

theorem Inv.fetch (hm : m.Inv id h) {todo : List Prefix}
    (hphase : m.phase = .walking (p :: todo) calls) (orders : Mui → List AggKey)
    (hactive : ∀ r, m.rib.report ⟨false, p, id⟩ = some r → r.status ≠ .inActive) :
    Inv id h { m with
      phase := .walking todo (calls ++ fetched m.rib.unicast p orders) } := by
  obtain ⟨hcurrent, hph⟩ := hm
  rw [hphase] at hph
  obtain ⟨hnodup, hcalls, hread⟩ := hph
  obtain ⟨hp, hnodup⟩ := nodup_cons.mp hnodup
  refine ⟨hcurrent, hnodup, ?_, fun q hq => ?_⟩
  · intro call hcall
    rcases mem_append.mp hcall with hcall | hcall
    · exact fun hmem => hcalls call hcall (mem_cons_of_mem _ hmem)
    · rw [pfx_of_mem_fetched hcall]
      exact hp
  · by_cases hqp : q = p
    · subst hqp
      refine ⟨_, fun a => ?_, hcurrent q⟩
      rw [readAs_fetched orders hactive a]
      constructor
      · rintro ⟨call, hcall, habout⟩
        exact ⟨call, mem_append_right _ hcall, habout⟩
      · rintro ⟨call, hcall, hid, hpfx, ha⟩
        rcases mem_append.mp hcall with hcall | hcall
        · exact absurd mem_cons_self (hpfx ▸ hcalls call hcall)
        · exact ⟨call, hcall, hid, hpfx, ha⟩
    · obtain ⟨v, hv, hlead⟩ := hread q fun hmem => (mem_cons.mp hmem).elim hqp hq
      refine ⟨v, fun a => (hv a).trans ?_, hlead⟩
      constructor
      · rintro ⟨call, hcall, habout⟩
        exact ⟨call, mem_append_left _ hcall, habout⟩
      · rintro ⟨call, hcall, hid, hpfx, ha⟩
        rcases mem_append.mp hcall with hcall | hcall
        · exact ⟨call, hcall, hid, hpfx, ha⟩
        · exact absurd (hpfx.symm.trans (pfx_of_mem_fetched hcall)) hqp

theorem Inv.step (hm : m.Inv id h) {move : Move} (hfaithful : m.Faithful cfg id h move)
    (hstep : m.step cfg move = some m') : m'.Inv id h := by
  cases move with
  | handle u =>
    cases hstep
    exact hm.handle hfaithful
  | miss =>
    simp only [Mirror.step] at hstep
    split at hstep
    next hphase hqueue =>
      cases hstep
      exact ⟨hm.current_tail hqueue, by rw [hphase]; trivial⟩
    · cases hstep
  | insert =>
    simp only [Mirror.step] at hstep
    split at hstep <;> cases hstep
    exact ⟨hm.current, trivial⟩
  | enumerate =>
    simp only [Mirror.step] at hstep
    split at hstep <;> cases hstep
    exact hm.enumerate
  | fetch orders =>
    simp only [Mirror.step] at hstep
    split at hstep
    next p todo calls hphase =>
      cases hstep
      exact hm.fetch hphase orders (hfaithful p todo calls hphase)
    · cases hstep
  | finish args w =>
    simp only [Mirror.step] at hstep
    split at hstep
    next calls hphase =>
      obtain ⟨c, hdump, hinv⟩ := hm.finish hphase hfaithful.1 (hfaithful.2 calls hphase)
      rw [hdump] at hstep
      cases hstep
      exact hinv
    · cases hstep
  | deliver worlds =>
    simp only [Mirror.step] at hstep
    split at hstep
    next c u queue hphase hqueue =>
      cases hstep
      exact hm.deliver hphase hqueue (hfaithful u queue hqueue)
    · cases hstep

/-! ## The view of the receiver -/

/-- Nothing is known of a client at the start, and nothing waits. -/
def start (rib : Rib S) : Mirror S := ⟨rib, [], .absent⟩

omit [LawfulPrefixStore S] in
theorem inv_start (id : IngressId) (h : Bytes) (rib : Rib S) : (start rib).Inv id h :=
  ⟨fun p => behind_nil p _, trivial⟩

/-- In every run of faithful moves, from any RIB: once the dump is over and everything is delivered,
the receiver holds of the peer exactly its active unicast routes. -/
theorem receiver_holds_active (cfg : RibConfig) (id : IngressId) (h : Bytes) (rib : Rib S)
    (moves : List Move) (hfaithful : Along (step cfg) (Faithful cfg id h) (start rib) moves) {m : Mirror S}
    (hrun : exec (step cfg) (start rib) moves = some m) {c : Client}
    (hserving : m.phase = .serving c) (hdelivered : m.queue = []) (p : Prefix) :
    viewOf c.sent h p = value m.rib id p := by
  have hm : m.Inv id h := exec_invariant (step cfg) (Inv id h) (Faithful cfg id h)
    (fun _ _ _ hinv hguard hstep => hinv.step hguard hstep) (inv_start id h rib) hfaithful hrun
  have hph := hm.phase
  rw [hserving] at hph
  have hlead := hph.2 p
  rw [Leads, pending, hdelivered] at hlead
  exact hlead

/-! ## A peer with one route -/

def oneRoute : Rib (MapStore RotondaPaMap) :=
  ⟨MapStore.tryDefault.insert (.slash8 10) ⟨1, 0, .active, .emptyPathAttributes⟩, .tryDefault,
    onePeer⟩

def dumpArgs : DumpArgs := ⟨fun _ => [1], fun _ => 0, fun _ => true, [⟨1, true, 0⟩], "", ""⟩

def dumpOneRoute : List Move :=
  [.insert, .enumerate, .fetch fun _ => [], .finish dumpArgs (worldOf onePeer)]

def forwardOne (u : Update) : List Move := [.handle u, .deliver fun _ => worldOf onePeer]

/-- With retained attributes, a session that ends and reappears has its routes back in the RIB, but
not at the receiver. -/
theorem reappeared_not_restreamed :
    ∃ m c, exec (step ⟨true, none⟩) (start oneRoute)
        (dumpOneRoute ++ forwardOne (.withdraw 1 none) ++ forwardOne (.ingressReappeared 1)) =
          some m ∧
      m.phase = .serving c ∧ m.queue = [] ∧ (value m.rib 1 (.slash8 10)).isSome ∧
      viewOf c.sent (headerKey ⟨false, none⟩ peerEntry) (.slash8 10) = none := by
  refine ⟨_, _, rfl, rfl, rfl, ?_, ?_⟩
  · decide +kernel
  · decide +kernel

theorem get_onePeer {id : IngressId} {info : IngressInfo} (hget : onePeer.get id = some info) :
    id = 1 ∧ info = peerEntry := by
  rcases Dict.of_get_insert hget with h | ⟨_, hget⟩
  · exact h
  · cases hget

theorem names_onePeer : Names 1 (headerKey ⟨false, none⟩ peerEntry) (worldOf onePeer) where
  registered _ := ⟨peerEntry, rfl, rfl⟩
  header hget := by
    obtain ⟨rfl, rfl⟩ := get_onePeer hget
    exact ⟨fun _ => rfl, fun _ => rfl⟩

theorem restreams_announcement : Restreams ⟨true, none⟩ 1 oneRoute
    (.single (.slash8 20 1 .active)) where
  unexposed p pre e hpre hexposes := by
    rcases snoc_prefix_cons.mp hpre with ⟨rfl, rfl⟩ | ⟨rest, rfl, hrest⟩
    · cases hexposes.2.2.1
    · simp at hrest
  plain q hq _ := by
    cases mem_singleton.mp hq
    exact ⟨rfl, nofun⟩
  whole scope hu := by cases hu

theorem active_oneRoute {p : Prefix}
    (hr : oneRoute.report ⟨false, p, 1⟩ = some r) : r.status = .active := by
  obtain ⟨r', hlocal, rfl⟩ := map_eq_some_iff.mp hr
  have hinsert : (if p = .slash8 10 ∧ 1 = 1 then
      some (⟨1, 0, .active, .emptyPathAttributes⟩ : Record RotondaPaMap) else none) = some r' :=
    hlocal
  split at hinsert <;> cases hinsert
  rfl

theorem completes_oneRoute : Completes 1 dumpArgs (worldOf onePeer)
    [⟨1, .slash8 10, .emptyPathAttributes, []⟩] where
  accepts := rfl
  flushes st hst := by
    obtain ⟨g, hgroups⟩ : ∃ g, st.agg.groups = Dict.empty.insert ⟨1, true, 0⟩ g := by
      cases hst
      exact ⟨_, rfl⟩
    refine ⟨nodup_singleton _, fun k => ?_⟩
    rw [hgroups, Dict.get_insert]
    change k ∈ [_] ↔ _
    rw [mem_singleton]
    split
    next hk => exact ⟨fun _ => rfl, fun _ => hk⟩
    next hk => exact ⟨fun heq => absurd heq hk, nofun⟩
  fits hcall _ := by
    cases mem_singleton.mp hcall
    rfl

theorem tuned_outputStream (id : IngressId) (h : Bytes) (worlds : Nat → World) :
    Tuned id h worlds .outputStream := by
  intro e he
  cases he

theorem tuned_announcement : Tuned 1 (headerKey ⟨false, none⟩ peerEntry) (fun _ => worldOf onePeer)
    (.single (.slash8 20 1 .active)) := by
  intro e he
  cases mem_singleton.mp he
  exact ⟨⟨fun _ => rfl, fun _ => rfl⟩, fun _ => rfl⟩

def announceAfterDump : List Move :=
  dumpOneRoute ++ forwardOne (.single (.slash8 20 1 .active)) ++
    [.deliver fun _ => worldOf onePeer]

theorem along_announceAfterDump : Along (step ⟨true, none⟩)
    (Faithful ⟨true, none⟩ 1 (headerKey ⟨false, none⟩ peerEntry)) (start oneRoute)
    announceAfterDump := by
  refine along_cons (step _) rfl trivial ?_
  refine along_cons (step _) rfl trivial ?_
  refine along_cons (step _) rfl (fun p _ _ _ r hr => ?_) ?_
  · rw [active_oneRoute hr]
    exact nofun
  refine along_cons (step _) rfl ⟨names_onePeer, fun calls hphase => ?_⟩ ?_
  · have hcalls : calls = [⟨1, .slash8 10, .emptyPathAttributes, []⟩] :=
      (Phase.walking.inj hphase).2.symm
    rw [hcalls]
    exact completes_oneRoute
  refine along_cons (step _) rfl restreams_announcement ?_
  refine along_cons (step _) rfl (fun u queue hqueue => ?_) ?_
  · have hfirst : [Update.outputStream, .single (.slash8 20 1 .active)] = u :: queue := hqueue
    cases hfirst
    exact tuned_outputStream 1 _ _
  refine along_cons (step _) rfl (fun u queue hqueue => ?_) trivial
  · have hsecond : [Update.single (.slash8 20 1 .active)] = u :: queue := hqueue
    cases hsecond
    exact tuned_announcement

theorem receiver_holds_active_oneRoute :
    ∃ m c, exec (step ⟨true, none⟩) (start oneRoute) announceAfterDump = some m ∧
      m.phase = .serving c ∧ m.queue = [] ∧
      (viewOf c.sent (headerKey ⟨false, none⟩ peerEntry) (.slash8 20)).isSome ∧
      ∀ p, viewOf c.sent (headerKey ⟨false, none⟩ peerEntry) p = value m.rib 1 p := by
  obtain ⟨m, c, hrun, hserving, hqueue, hview⟩ : ∃ m c,
      exec (step ⟨true, none⟩) (start oneRoute) announceAfterDump = some m ∧
        m.phase = .serving c ∧ m.queue = [] ∧
        (viewOf c.sent (headerKey ⟨false, none⟩ peerEntry) (.slash8 20)).isSome :=
    ⟨_, _, rfl, rfl, rfl, by decide +kernel⟩
  exact ⟨m, c, hrun, hserving, hqueue, hview, receiver_holds_active ⟨true, none⟩ 1 _ oneRoute
    announceAfterDump along_announceAfterDump hrun hserving hqueue⟩

end Mirror

end Rotonda.BmpOut
