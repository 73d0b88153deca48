import Rotonda.BmpOut.Admission
import Rotonda.Node.Collection

/-!
A BMP client behind a node with BMP sessions.

The RIB unit forwards updates, the BMP unit keeps them for its client while the client is dumped,
and sends them from then on.  Its handlers read the register at any time, while the sessions and
the collector go on: each read sees one of the registers that there were.

* `Relay.Inv`: no id is ever entered under two types, and what is forwarded is about peers, but for
  routers that reappear;
* `Relay.only_peers_iff`: the client is told about peers only, unless it is sent the reappearance
  of a router.
-/

namespace Rotonda.Node

open Lib Lib.Bytes Lib.Ownership Lib.Runs BmpIn List Option Function
open BmpOut (Clock EmitConfig World Client Start DumpArgs AddCall Admits Endorses Recognizes
  Request requests requestsIn isPeerType headerKey)

variable {info : IngressInfo} {units : List IngressId}

/-- A tenure that fits an id with an entry of a BMP task does not fit one without an entry. -/
theorem Tenure.not_fits_none {t : Tenure}
    (h : t.Fits units (some info)) (hinfo : Monitored info) : ¬ t.Fits units none := by
  intro hnone
  cases t with
  | vacant => cases h
  | bgp =>
    obtain ⟨_, htype⟩ := h info rfl
    rcases hinfo with hinfo | hinfo <;> rw [hinfo] at htype <;> simp at htype
  | _ =>
    obtain ⟨_, heq, _⟩ := hnone
    cases heq

theorem Tenure.Fits.isBare {t : Tenure} (h : t.Fits units none) : t.isBare = true := by
  cases t with
  | vacant => rfl
  | bgp => rfl
  | _ =>
    obtain ⟨_, heq, _⟩ := h
    cases heq

/-! ## The BMP unit and its client -/

/-- Where the client is, with the updates that are kept for it or that it is still to be sent. -/
inductive Viewer where
  | absent
  | dumping (buffer : List Update)
  | serving (client : Client) (queue : List Update)
  /-- The client went away while it was dumped. -/
  | gone (client : Client)

namespace Viewer

def client : Viewer → Option Client
  | serving c _ | gone c => some c
  | _ => none

def pending : Viewer → List Update
  | dumping us | serving _ us => us
  | _ => []

def push (v : Viewer) (u : Update) : Viewer :=
  match v with
  | dumping us => dumping (us ++ [u])
  | serving c us => serving c (us ++ [u])
  | v => v

@[simp] theorem client_push (v : Viewer) (u : Update) : (v.push u).client = v.client := by
  cases v <;> rfl

theorem mem_pending_push {v : Viewer} {u u' : Update} (h : u' ∈ (v.push u).pending) :
    u' ∈ v.pending ∨ u' = u := by
  cases v with
  | dumping _ | serving _ _ => simpa [push, pending] using h
  | absent | gone _ => cases h

end Viewer

/-- What a handler finds: for each of its reads the register it sees, by its place in the history,
and the clock of each message. -/
structure Reads where
  times : Nat → Nat
  clock : Nat → Clock

structure Relay (S : Type) where
  sys : System S
  /-- All registers there were, with the current one. -/
  history : List Register
  /-- How many of the forwarded updates the BMP unit has got. -/
  taken : Nat
  viewer : Viewer

inductive Relay.Move where
  | session (n : Nat) (m : SessionMove)
  | sweep (order : List IngressId)
  /-- The client is there. -/
  | connect
  /-- The dump of the client, over the routes that the walk reads if there is a RIB. -/
  | dump (reads : Reads) (args : DumpArgs) (calls : Option (List AddCall))
  /-- The BMP unit gets the next update. -/
  | take
  /-- The client is sent the next update. -/
  | send (reads : Nat → Reads)

namespace Relay

variable {S : Type} [PrefixStore S RotondaPaMap]

def seen (r : Relay S) (t : Nat) : Register := r.history.getD t r.sys.hub.register

def world (emit : EmitConfig) (r : Relay S) (reads : Reads) : World :=
  ⟨emit, fun n => r.seen (reads.times n), reads.clock⟩

def startOf (emit : EmitConfig) (r : Relay S) (reads : Reads) (args : DumpArgs) :
    Option (List AddCall) → Start
  | some calls => .dump (r.world emit reads) args calls
  | none => .noRib (r.world emit reads) args.sysName args.sysDescr

def start (k : Nat) : Relay S := ⟨.start k, [(System.start k : System S).hub.register], 0, .absent⟩

def node (units : List IngressId) (cfg : RibConfig) (r : Relay S) (m : Node.Move) :
    Option (Relay S) :=
  (r.sys.step units cfg m).map fun sys =>
    { r with sys := sys, history := r.history ++ [sys.hub.register] }

def step (units : List IngressId) (cfg : RibConfig) (emit : EmitConfig) (r : Relay S) :
    Move → Option (Relay S)
  | .session n m => r.node units cfg (.session n m)
  | .sweep order => r.node units cfg (.sweep order)
  | .connect => match r.viewer with
    | .absent => some { r with viewer := .dumping [] }
    | _ => none
  | .dump reads args calls => match r.viewer with
    | .dumping buffer =>
      let (c, alive) := (r.startOf emit reads args calls).client
      some { r with viewer := if alive then .serving c buffer else .gone c }
    | _ => none
  | .take => r.sys.hub.gate[r.taken]?.map fun u =>
    { r with taken := r.taken + 1, viewer := r.viewer.push u }
  | .send reads => match r.viewer with
    | .serving c (u :: queue) => some { r with
        viewer := .serving (c.sendUpdate (fun i => r.world emit (reads i)) u) queue }
    | _ => none

/-! ## What is asked of the client -/

/-- The id was entered, and whenever it was, it stood for a peer. -/
structure PeerIn (history : List Register) (id : IngressId) : Prop where
  entered : ∃ reg ∈ history, (reg.get id).isSome
  peer {reg : Register} (h : reg ∈ history) {info : IngressInfo} (hget : reg.get id = some info) :
    isPeerType info.ingressType = true

/-- The header is the one of an entry that stood for a peer. -/
def HeaderIn (emit : EmitConfig) (history : List Register) (k : Bytes) : Prop :=
  ∃ reg ∈ history, ∃ id info, reg.get id = some info ∧ isPeerType info.ingressType = true ∧
    k = headerKey emit info

/-- The client knows peers only, and was sent Peer Ups for peers only. -/
def OnlyPeers (emit : EmitConfig) (r : Relay S) : Prop :=
  ∀ c ∈ r.viewer.client, Admits (PeerIn r.history) (HeaderIn emit r.history) c

/-- The client is sent the reappearance of an ingress that its handler finds to be no peer. -/
def announcesRouter (r : Relay S) : Move → Bool
  | .send reads => match r.viewer with
    | .serving _ (.ingressReappeared id :: _) =>
      ((r.seen ((reads 0).times 0)).get id).any fun info => !isPeerType info.ingressType
    | _ => false
  | _ => false

/-! ## Types of entries -/

variable {units : List IngressId} {cfg : RibConfig} {emit : EmitConfig}
  {own own' : Owner → Dict IngressId Tenure} {r r' : Relay S}

/-- The entry of the id is gone, and no session can bring it back. -/
structure Gone (units : List IngressId) (own : Owner → Dict IngressId Tenure) (hub : Hub S)
    (id : IngressId) : Prop where
  vacant : Ok units .vacant hub id
  free (n : Nat) : (own (.session n)).get id = none

/-- What holds in every schedule. -/
structure Inv (units : List IngressId) (cfg : RibConfig) (own : Owner → Dict IngressId Tenure)
    (r : Relay S) : Prop where
  kept : Kept units cfg own r.sys
  noBgp (id : IngressId) : (own .bgp).get id = none
  current : r.sys.hub.register ∈ r.history
  types {reg reg' : Register} (h : reg ∈ r.history) (h' : reg' ∈ r.history) {id : IngressId}
    {info info' : IngressInfo} (hget : reg.get id = some info) (hget' : reg'.get id = some info') :
    info.ingressType = info'.ingressType
  lasting {reg : Register} (h : reg ∈ r.history) {id : IngressId} (hid : (reg.get id).isSome) :
    (r.sys.hub.register.get id).isSome ∨ Gone units own r.sys.hub id
  forwarded {u : Update} (h : u ∈ r.sys.hub.gate) {id : IngressId} (hid : id ∈ introduces u) :
    ∃ reg ∈ r.history, ∃ info, reg.get id = some info ∧
      (info.ingressType = some .bgpViaBmp ∨ u = .ingressReappeared id)
  pending {u : Update} (h : u ∈ r.viewer.pending) : u ∈ r.sys.hub.gate

theorem inv_start (k : Nat) : Inv (unitIds k) cfg (fun _ => .empty) (start k : Relay S) where
  kept := System.kept_start k
  noBgp := fun _ => rfl
  current := mem_singleton_self _
  types := by
    intro reg reg' h _ id info _ hget
    rw [mem_singleton.mp h] at hget
    cases hget
  lasting := by
    intro reg h id hid
    rw [mem_singleton.mp h] at hid
    exact .inl hid
  forwarded := fun h => by cases h
  pending := fun h => by cases h

variable {m : Move}

section

variable (h : Inv units cfg own r)
include h

theorem Inv.monitored {id : IngressId}
    (hget : r.sys.hub.register.get id = some info) : Monitored info := by
  refine (h.kept.kinds id info hget).resolve_right fun hbgp => ?_
  rw [h.noBgp] at hbgp
  cases hbgp

theorem seen_mem (t : Nat) : r.seen t ∈ r.history := by
  unfold seen
  rw [getD_eq_getElem?_getD]
  cases ht : r.history[t]? with
  | none => exact h.current
  | some reg => exact mem_of_getElem? ht

/-- A move of the node keeps the types if it keeps the types of entries, gives up what it erases
and leaves alone what is gone. -/
theorem Inv.grow {sys : System S} (hkept : Kept units cfg own' sys) (hbgp : own' .bgp = own .bgp)
    (htypes : ∀ id old info, r.sys.hub.register.get id = some old →
      sys.hub.register.get id = some info → info.ingressType = old.ingressType)
    (hlast : ∀ id, (r.sys.hub.register.get id).isSome →
      (sys.hub.register.get id).isSome ∨ Gone units own' sys.hub id)
    (hgone : ∀ id, Gone units own r.sys.hub id → Gone units own' sys.hub id)
    (hgate : ∃ new, sys.hub.gate = r.sys.hub.gate ++ new ∧ ∀ u ∈ new, ∀ id ∈ introduces u,
      ∃ info, sys.hub.register.get id = some info ∧
        (info.ingressType = some .bgpViaBmp ∨ u = .ingressReappeared id)) :
    Inv units cfg own' { r with sys := sys, history := r.history ++ [sys.hub.register] } := by
  obtain ⟨new, hgate, hnew⟩ := hgate
  -- the new register agrees with all there were
  have hagree {reg : Register} (hreg : reg ∈ r.history) {id : IngressId} {info info' : IngressInfo}
      (hget : reg.get id = some info) (hget' : sys.hub.register.get id = some info') :
      info.ingressType = info'.ingressType := by
    have hsome : (reg.get id).isSome := by rw [hget]; rfl
    rcases h.lasting hreg hsome with hsome | hg
    · obtain ⟨cur, hcur⟩ := isSome_iff_exists.mp hsome
      exact (h.types hreg h.current hget hcur).trans (htypes id cur info' hcur hget').symm
    · cases hget'.symm.trans (hgone id hg).vacant.2.2
  have hmem : sys.hub.register ∈ r.history ++ [sys.hub.register] :=
    mem_append_right _ (mem_singleton_self _)
  refine ⟨hkept, fun id => by rw [hbgp]; exact h.noBgp id, hmem, ?_, ?_, ?_, ?_⟩
  · intro reg reg' hreg hreg' id info info' hget hget'
    rcases mem_append.mp hreg with hreg | hreg <;>
      rcases mem_append.mp hreg' with hreg' | hreg'
    · exact h.types hreg hreg' hget hget'
    · rw [mem_singleton.mp hreg'] at hget'
      exact hagree hreg hget hget'
    · rw [mem_singleton.mp hreg] at hget
      exact (hagree hreg' hget' hget).symm
    · rw [mem_singleton.mp hreg] at hget
      rw [mem_singleton.mp hreg'] at hget'
      cases hget.symm.trans hget'
      rfl
  · intro reg hreg id hid
    rcases mem_append.mp hreg with hreg | hreg
    · rcases h.lasting hreg hid with hsome | hg
      · exact hlast id hsome
      · exact .inr (hgone id hg)
    · rw [mem_singleton.mp hreg] at hid
      exact .inl hid
  · intro u hu id hid
    dsimp only at hu
    rw [hgate] at hu
    rcases mem_append.mp hu with hu | hu
    · obtain ⟨reg, hreg, hinfo⟩ := h.forwarded hu hid
      exact ⟨reg, mem_append_left _ hreg, hinfo⟩
    · exact ⟨_, hmem, hnew u hu id hid⟩
  · intro u hu
    dsimp only
    rw [hgate]
    exact mem_append_left _ (h.pending hu)

/-- An entry lasts, or its id is nobody's after the move: a claim that an id without an entry fits is
an old one, which the entry did not fit, or one of a new id. -/
theorem Inv.last {sys : System S} (hkept : Kept units cfg own' sys)
    (hserial : r.sys.hub.register.serial ≤ sys.hub.register.serial)
    (hclaims : ∀ n id t, (own' (.session n)).get id = some t → t.isBare = true →
      (own (.session n)).get id = some t ∨ r.sys.hub.register.serial ≤ id) (id : IngressId)
    (hid : (r.sys.hub.register.get id).isSome) :
    (sys.hub.register.get id).isSome ∨ Gone units own' sys.hub id := by
  obtain ⟨info, hget⟩ := isSome_iff_exists.mp hid
  have hlt := h.kept.sound.numbered id hid
  cases hnew : sys.hub.register.get id with
  | some info' => exact .inl rfl
  | none =>
    refine .inr ⟨⟨fun hunit => ?_, Nat.lt_of_lt_of_le hlt hserial, hnew⟩, fun n => ?_⟩
    · cases hget.symm.trans (h.kept.sound.unit hunit).2
    · cases hown : (own' (.session n)).get id with
      | none => rfl
      | some t =>
        have hfits : t.Fits units none := hnew ▸ (hkept.apart.holds _ id t hown).2.2
        rcases hclaims n id t hown hfits.isBare with hold | hle
        · have hfits' : t.Fits units (some info) := hget ▸ (h.kept.apart.holds _ id t hold).2.2
          exact absurd hfits (Tenure.not_fits_none hfits' (h.monitored hget))
        · exact absurd hlt (Nat.not_lt.mpr hle)

theorem inv_session [LawfulPrefixStore S] (hun : r.sys.hub.register.Unwrapped) {n : Nat}
    {m : SessionMove} (hstep : r.node units cfg (.session n m) = some r') :
    ∃ own', Inv units cfg own' r' := by
  obtain ⟨sys, hsys, rfl⟩ := map_eq_some_iff.mp hstep
  obtain ⟨⟨t, hub⟩, ht, rfl⟩ := map_eq_some_iff.mp hsys
  obtain ⟨hhub, _, ω', hspares, hclaims, hkept⟩ := System.kept_session hun h.kept ht
  refine ⟨_, h.grow hkept (update_of_ne (by exact nofun) ..) ?_ ?_ ?_ hhub.gate⟩
  · intro id old info hold hget
    refine hhub.types hold hget ?_
    rcases h.monitored hold with htype | htype <;> rw [htype] <;> rfl
  · refine h.last hkept hhub.serial fun n' id t hid hbare => ?_
    by_cases hn : n' = n
    · subst hn
      rw [update_self] at hid
      exact (hclaims id t hid hbare).imp_right And.right
    · rw [update_of_ne fun heq => hn (Owner.session.inj heq)] at hid
      exact .inl hid
  · intro id hgone
    obtain ⟨hvacant, hnone⟩ := hspares id (hgone.free n) _ hgone.vacant
    refine ⟨hvacant, fun n' => ?_⟩
    by_cases hn : n' = n
    · subst hn
      rw [update_self]
      exact hnone
    · rw [update_of_ne fun heq => hn (Owner.session.inj heq)]
      exact hgone.free n'

theorem inv_sweep {order : List IngressId}
    (hstep : r.node units cfg (.sweep order) = some r') : ∃ own', Inv units cfg own' r' := by
  obtain ⟨sys, hsys, rfl⟩ := map_eq_some_iff.mp hstep
  simp only [System.step] at hsys
  split at hsys <;> cases hsys
  rcases hgc : Gc.step order (r.sys.gc, r.sys.hub.rib) with ⟨gc, rib⟩
  obtain ⟨ω', hkept⟩ := System.kept_sweep h.kept hgc
  have hserial : rib.ingressRegister.serial = r.sys.hub.register.serial := Gc.serial_step hgc
  have hsession (n : Nat) :
      Function.update own .gc ω' (.session n) = own (.session n) :=
    update_of_ne (by simp) ..
  refine ⟨_, h.grow hkept (update_of_ne (by simp) ..) ?_ ?_ ?_
    ⟨[], (append_nil _).symm, (by simp)⟩⟩
  · intro id old info hold hget
    cases hold.symm.trans (Gc.get_of_step hgc hget)
    rfl
  · refine h.last hkept hserial.ge fun n id t hid _ => .inl ?_
    rwa [hsession] at hid
  · intro id hgone
    refine ⟨⟨hgone.vacant.1, hserial ▸ hgone.vacant.2.1, ?_⟩, fun n => ?_⟩
    · refine eq_none_iff_forall_ne_some.mpr fun info hget => ?_
      cases (Gc.get_of_step hgc hget).symm.trans hgone.vacant.2.2
    · rw [hsession]
      exact hgone.free n

theorem inv_step [LawfulPrefixStore S] (hun : r.sys.hub.register.Unwrapped)
    (hstep : r.step units cfg emit m = some r') : ∃ own', Inv units cfg own' r' := by
  -- the moves of the BMP unit leave the node alone
  have hview {v : Viewer} {taken : Nat} (hv : ∀ u ∈ v.pending, u ∈ r.sys.hub.gate) :
      Inv units cfg own { r with taken := taken, viewer := v } :=
    ⟨h.kept, h.noBgp, h.current, h.types, h.lasting, h.forwarded, fun hu => hv _ hu⟩
  cases m with
  | session n m => exact inv_session h hun hstep
  | sweep order => exact inv_sweep h hstep
  | connect =>
    simp only [step] at hstep
    split at hstep <;> cases hstep
    exact ⟨own, hview nofun⟩
  | dump reads args calls =>
    simp only [step] at hstep
    split at hstep <;> cases hstep
    next buffer hv =>
      refine ⟨own, hview fun u hu => h.pending ?_⟩
      rw [hv]
      split at hu
      · exact hu
      · cases hu
  | take =>
    obtain ⟨u, hu, rfl⟩ := map_eq_some_iff.mp hstep
    refine ⟨own, hview fun u' hu' => ?_⟩
    rcases Viewer.mem_pending_push hu' with hu' | rfl
    · exact h.pending hu'
    · exact mem_of_getElem? hu
  | send reads =>
    simp only [step] at hstep
    split at hstep <;> cases hstep
    next c u queue hv =>
      refine ⟨own, hview fun u' hu' => h.pending ?_⟩
      rw [hv]
      exact mem_cons_of_mem u hu'

/-! ## What the client is told -/

theorem Inv.peerIn {reg : Register} (hreg : reg ∈ r.history) {id : IngressId}
    (hget : reg.get id = some info)
    (htype : isPeerType info.ingressType = true) : PeerIn r.history id :=
  ⟨⟨reg, hreg, by rw [hget]; rfl⟩, fun hreg' _ hget' => by
    rw [← h.types hreg hreg' hget hget']
    exact htype⟩

theorem Inv.endorses (reads : Reads) :
    Endorses (PeerIn r.history) (HeaderIn emit r.history) (r.world emit reads) :=
  fun n id info hget hid => ⟨_, seen_mem h (reads.times n), id, info, hget,
    hid.peer (seen_mem h _) hget, rfl⟩

theorem Inv.recognizes (reads : Reads) : Recognizes (PeerIn r.history) (r.world emit reads) :=
  fun n _ _ hget htype => h.peerIn (seen_mem h (reads.times n)) hget htype

end

/-- A register more changes nothing about peers. -/
theorem OnlyPeers.grow (honly : r.OnlyPeers emit) (h' : Inv units cfg own' r')
    (hhist : ∀ reg ∈ r.history, reg ∈ r'.history) (hclient : r'.viewer.client = r.viewer.client) :
    r'.OnlyPeers emit := by
  intro c hc
  rw [hclient] at hc
  refine (honly c hc).mono (fun id hid => ?_) fun k ⟨reg, hreg, hk⟩ => ⟨reg, hhist reg hreg, hk⟩
  obtain ⟨reg, hreg, hsome⟩ := hid.entered
  obtain ⟨info, hget⟩ := isSome_iff_exists.mp hsome
  exact h'.peerIn (hhist reg hreg) hget (hid.peer hreg hget)

/-- What a request brings is among what its update introduces. -/
theorem admissible_of_introduces {ok : IngressId → Prop} {u : Update}
    (hu : ∀ id ∈ introduces u, ok id) {q : Request} (hq : q ∈ requests u) (w : World) :
    q.Admissible ok w := by
  cases u with
  | single _ | peerStats _ _ =>
    rw [mem_singleton.mp hq]
    exact hu _ (mem_singleton_self _)
  | bulk ps =>
    obtain ⟨p, hp, rfl⟩ := mem_map.mp hq
    exact hu _ (mem_map_of_mem hp)
  | withdraw id scope =>
    rw [mem_singleton.mp hq]
    trivial
  | withdrawBulk entries =>
    obtain ⟨e, _, rfl⟩ := mem_map.mp hq
    trivial
  | ingressReappeared id =>
    rw [mem_singleton.mp hq]
    exact fun _ => hu _ (mem_singleton_self _)
  | _ => cases hq

theorem Inv.admissible (h : Inv units cfg own r) {c : Client} {u : Update} {queue : List Update}
    (hv : r.viewer = .serving c (u :: queue)) {reads : Nat → Reads}
    (hguard : r.announcesRouter (.send reads) = false) :
    ∀ e ∈ requestsIn (fun i => r.world emit (reads i)) u, e.2.Admissible (PeerIn r.history) e.1 := by
  by_cases hu : ∃ id, u = .ingressReappeared id
  · obtain ⟨id, rfl⟩ := hu
    intro e he
    rw [show requestsIn _ (.ingressReappeared id) = [(r.world emit (reads 0), .reappeared id)]
      from rfl, mem_singleton] at he
    subst he
    intro hsome
    obtain ⟨info, hget⟩ := isSome_iff_exists.mp hsome
    refine h.peerIn (seen_mem h _) hget ?_
    change (r.seen ((reads 0).times 0)).get id = some info at hget
    simpa [announcesRouter, hv, hget] using hguard
  · have hgate : u ∈ r.sys.hub.gate := h.pending (by rw [hv]; exact mem_cons_self)
    have hpeers : ∀ id ∈ introduces u, PeerIn r.history id := by
      intro id hid
      obtain ⟨reg, hreg, info, hget, htype⟩ := h.forwarded hgate hid
      refine h.peerIn hreg hget ?_
      rw [htype.resolve_right fun heq => hu ⟨id, heq⟩]
      rfl
    intro e he
    obtain ⟨⟨q, i⟩, hq, rfl⟩ := mem_map.mp he
    exact admissible_of_introduces hpeers (fst_mem_of_mem_zipIdx hq) _

theorem onlyPeers_step (h : Inv units cfg own r) (honly : r.OnlyPeers emit)
    (hguard : r.announcesRouter m = false) (hstep : r.step units cfg emit m = some r')
    (h' : Inv units cfg own' r') : r'.OnlyPeers emit := by
  have hnode {m : Node.Move} (hstep : r.node units cfg m = some r') : r'.OnlyPeers emit := by
    obtain ⟨sys, _, rfl⟩ := map_eq_some_iff.mp hstep
    exact honly.grow h' (fun _ => mem_append_left _) rfl
  cases m with
  | session _ _ | sweep _ => exact hnode hstep
  | connect =>
    simp only [step] at hstep
    split at hstep <;> cases hstep
    exact nofun
  | dump reads args calls =>
    simp only [step] at hstep
    split at hstep <;> cases hstep
    have hstart : Admits (PeerIn r.history) (HeaderIn emit r.history)
        (r.startOf emit reads args calls).client.1 := by
      refine Start.admits ?_ ?_ <;> cases calls
      · exact h.endorses reads
      · exact h.endorses reads
      · exact h.recognizes reads
      · exact h.recognizes reads
    intro c hc
    dsimp only at hc
    split at hc <;> cases hc <;> exact hstart
  | take =>
    obtain ⟨u, _, rfl⟩ := map_eq_some_iff.mp hstep
    exact honly.grow h' (fun _ hreg => hreg) (r.viewer.client_push u)
  | send reads =>
    simp only [step] at hstep
    split at hstep <;> cases hstep
    next c u queue hv =>
      intro c' hc'
      cases hc'
      have hc : Admits (PeerIn r.history) (HeaderIn emit r.history) c := honly c (by rw [hv]; rfl)
      exact Client.admits_sendUpdate hc (fun i => h.endorses (reads i)) (h.admissible hv hguard)

/-- A router whose reappearance is sent becomes known. -/
theorem not_onlyPeers_step (h : Inv units cfg own r) (hguard : r.announcesRouter m ≠ false)
    (hstep : r.step units cfg emit m = some r') : ¬ r'.OnlyPeers emit := by
  cases m with
  | send reads =>
    simp only [step] at hstep
    split at hstep <;> cases hstep
    next c u queue hv =>
      simp only [announcesRouter, hv, Bool.not_eq_false] at hguard
      split at hguard
      next _ _ id _ heq =>
        cases heq
        rw [Option.any_eq_true] at hguard
        obtain ⟨info, hget, htype⟩ := hguard
        have hnot : ¬ PeerIn r.history id := fun hid => by
          rw [hid.peer (seen_mem h _) hget] at htype
          cases htype
        intro honly'
        have hknows' : (c.sendUpdate (fun i => r.world emit (reads i))
            (.ingressReappeared id)).knows id = true := Client.knows_sendPeerReappeared hget
        exact hnot ((honly' _ rfl).known hknows')
      · cases hguard
  | _ => cases hguard rfl

/-- Throughout a schedule in which the counter of the register does not wrap, the client is told about
peers only, exactly if it is never sent the reappearance of a router. -/
theorem only_peers_iff [LawfulPrefixStore S] (cfg : RibConfig) (emit : EmitConfig) (k : Nat)
    (moves : List Move)
    (hun : Along (step (unitIds k) cfg emit) (fun r _ => r.sys.hub.register.Unwrapped)
      (start k : Relay S) moves) :
    (∀ pre r, pre <+: moves → exec (step (unitIds k) cfg emit) (start k : Relay S) pre = some r →
        r.OnlyPeers emit) ↔
      Along (step (unitIds k) cfg emit) (fun r m => r.announcesRouter m = false)
        (start k : Relay S) moves := by
  have hinv {pre : List Move} (hpre : pre <+: moves) {r : Relay S}
      (h : exec (step (unitIds k) cfg emit) (start k) pre = some r) :
      ∃ own, Inv (unitIds k) cfg own r :=
    exec_invariant _ (fun r => ∃ own, Inv (unitIds k) cfg own r) _
      (fun _ _ _ ⟨_, h⟩ hun hstep => inv_step h hun hstep) ⟨_, inv_start k⟩
      (along_of_isPrefix _ hpre hun) h
  have hiff := @exec_within_iff _ _ (step (unitIds k) cfg emit)
    (fun _ (r : Relay S) => (∃ own, Inv (unitIds k) cfg own r) ∧ r.OnlyPeers emit) _
    (fun r m => r.announcesRouter m = false)
    (fun _ r m r' ⟨⟨own, h⟩, honly⟩ hun hguard hstep => by
      obtain ⟨own', h'⟩ := inv_step h hun hstep
      exact ⟨⟨own', h'⟩, onlyPeers_step h honly hguard hstep h'⟩)
    (fun _ r m r' ⟨⟨own, h⟩, _⟩ _ hguard hstep hboth => not_onlyPeers_step h hguard hstep hboth.2)
    [] _ moves ⟨⟨_, inv_start k⟩, nofun⟩ hun
  rw [← hiff]
  constructor
  · intro honly pre r hpre h
    exact ⟨hinv hpre h, honly pre r hpre h⟩
  · intro hboth pre r hpre h
    exact (hboth pre r hpre h).2

end Relay

/-! ## A router that comes back -/

namespace Comeback

open BmpIn.Reconnect (announcement)
open Twice (connects message config)
open Flap (loses returns)

def emit : EmitConfig := ⟨false, none⟩

/-- All reads see the current register. -/
def now : Reads := ⟨fun _ => 1000, fun _ => ⟨0, 0⟩⟩

def sessions (moves : List Move) : List Relay.Move := moves.filterMap fun
  | .session n m => some (.session n m)
  | _ => none

/-- The next updates are sent as they come in. -/
def sends (n : Nat) : List Relay.Move := (List.replicate n [.take, .send fun _ => now]).flatten

/-- A client of a node without a RIB. -/
def joins : List Relay.Move :=
  [.connect, .dump now ⟨fun _ => [], fun _ => 0, fun _ => true, [], "", ""⟩ none]

def runs (moves : List Relay.Move) : Option (Relay (MapStore RotondaPaMap)) :=
  exec (Relay.step (unitIds 1) config emit) (.start 1) moves

/-- The router goes and takes the id it had. -/
def comeback : List Relay.Move :=
  joins ++ sessions (connects 0 ++ loses 0 2 ++ returns 1) ++ sends 6

/-- The router stays, and its peer announces a route. -/
def stays : List Relay.Move :=
  joins ++ sessions (connects 0 ++ message 0 announcement 4) ++ sends 5

def look (id : IngressId) (r : Relay (MapStore RotondaPaMap)) :
    Option (Bool × List IngressId) × Option (Option IngressType) :=
  (r.viewer.client.map fun c => (c.knows id, c.peerUps),
    (r.sys.hub.register.get id).map (·.ingressType))

/-- The router is announced as if it were a peer. -/
theorem router_announced : ∃ r, runs comeback = some r ∧
    (∃ c ∈ r.viewer.client, c.knows 2 = true ∧ c.peerUps = [2]) ∧
    (r.sys.hub.register.get 2).map (·.ingressType) = some (some .bmp) ∧ ¬ r.OnlyPeers emit := by
  have hlook : (runs comeback).map (fun r => (look 2 r,
      r.history.any fun reg => (reg.get 2).any fun info => !isPeerType info.ingressType)) =
      some ((some (true, [2]), some (some .bmp)), true) := by decide +kernel
  obtain ⟨r, hr, hlook⟩ := map_eq_some_iff.mp hlook
  obtain ⟨hlook, hany⟩ := Prod.mk.inj hlook
  obtain ⟨hclient, htype⟩ := Prod.mk.inj hlook
  obtain ⟨c, hc, hids⟩ := map_eq_some_iff.mp hclient
  obtain ⟨hknows, hups⟩ := Prod.mk.inj hids
  refine ⟨r, hr, ⟨c, hc, hknows, hups⟩, htype, fun honly => ?_⟩
  obtain ⟨reg, hreg, hreg'⟩ := List.any_eq_true.mp hany
  obtain ⟨info, hget, hinfo⟩ := (Option.any_eq_true _ _).mp hreg'
  rw [((honly c hc).known hknows).peer hreg hget] at hinfo
  cases hinfo

/-- The peer is announced, and nothing else is. -/
theorem stays_only_peers :
    (runs stays).map (look 3) = some (some (true, [3]), some (some .bgpViaBmp)) ∧
      ∀ pre r, pre <+: stays → runs pre = some r → r.OnlyPeers emit := by
  refine ⟨by decide +kernel, (Relay.only_peers_iff config emit 1 stays ?_).mpr ?_⟩
  · exact along_of_test _ (g := fun r _ => r.sys.hub.register.Unwrapped)
      (fun _ _ => of_decide_eq_true) (by decide +kernel)
  · exact along_of_test _ (g := fun r m => !r.announcesRouter m) (fun _ _ h => by simpa using h)
      (by decide +kernel)

end Comeback

end Rotonda.Node
