import Rotonda.BmpIn.Steps

/-!
How a connection comes by its ingress id, as the other tasks see it.

A message leaves the ids of the connection alone, but for the Initiation, after which the state
machine may run under the id of a known router; the task then goes on to free its provisional id.

* `Tidy`: what a program may do with the ids of a connection;
* `tidy_handleMsg`: the program of a message is tidy, whatever its calls answer.
-/

namespace Rotonda.BmpIn

open Lib Lib.Ownership

variable {c : Connection}

/-- The ids of a connection: the one its state machine runs under, the one it is filed under, and
whether that is settled. -/
structure Ids where
  machine : IngressId
  ingress : IngressId
  resolved : Bool

def Connection.ids (c : Connection) : Ids := ⟨c.stateMachine.ingressId, c.ingressId, c.rebindResolved⟩

/-- The state machine has come to run under another id. -/
def Rekeys (i : Ids) (c : Connection) : Prop :=
  i.machine = i.ingress ∧ i.resolved = false ∧ c.ingressId = i.ingress ∧
    c.rebindResolved = false ∧ c.stateMachine.ingressId ≠ i.machine

/-- The next call frees the id. -/
def Steps.removes {α : Type} (id : IngressId) : Steps α → Prop
  | .call (.remove id') _ => id' = id
  | _ => False

theorem Steps.removes_iff {α : Type} {id : IngressId} {p : Steps α} :
    removes id p ↔ ∃ k, p = .call (.remove id) k := by
  constructor
  · intro h
    cases p with
    | call op k =>
      cases op with
      | remove id' =>
        cases h
        exact ⟨k, rfl⟩
      | _ => cases h
    | _ => cases h
  · rintro ⟨k, rfl⟩
    rfl

/-- From a connection with these ids, the program shows no others but for an Initiation, after
which it frees the provisional id first, and it ends with the connection filed where the state
machine runs. -/
def Tidy (i : Ids) : Steps (Option Connection) → Prop
  | .ret c => ∀ c' ∈ c, c'.stateMachine.ingressId = i.machine ∧ c'.ingressId = i.machine
  | .call _ k => ∀ r, Tidy i (k r)
  | .commit l p => ∃ c, l = some c ∧ (c.ids = i ∧ Tidy i p ∨
      Rekeys i c ∧ Steps.removes c.ingressId p ∧ Tidy c.ids p)

def ShowsIds (i : Ids) (l : Option Connection) : Prop := ∃ c, l = some c ∧ c.ids = i

theorem Tidy.bind {α : Type} {i : Ids} {Q : α → Prop} {p : Steps α}
    {f : α → Steps (Option Connection)} (h : p.Shows (ShowsIds i) Q)
    (hf : ∀ a, Q a → Tidy i (f a)) : Tidy i (p.bind f) := by
  induction p with
  | ret a => exact hf a h
  | call op k ih => exact fun r => ih r (h r)
  | commit l p ih =>
    obtain ⟨⟨c, hl, hc⟩, hp⟩ := h
    exact ⟨c, hl, .inl ⟨hc, ih hp⟩⟩

namespace Steps

variable {i : Ids}
variable {s : Session} {view : BmpState → Connection}

theorem shows_updateInfo (id : IngressId) (info : IngressInfo) :
    (updateInfo id info).Shows (ShowsIds i) fun _ => True := fun _ => trivial

theorem shows_updateData (u : Update) : (updateData u).Shows (ShowsIds i) fun _ => True :=
  fun _ => trivial

theorem shows_claimOrRegister (order : List IngressId) (query : IngressInfo) :
    (claimOrRegister order query).Shows (ShowsIds i) fun _ => True := by
  refine Prog.Shows.bind (Q := fun _ => True) (fun _ => trivial) fun found _ => ?_
  cases found with
  | some e => trivial
  | none => exact Prog.Shows.bind (Q := fun _ => True) (fun _ => trivial) fun _ _ => trivial

theorem shows_disconnectAll (ids : List IngressId) :
    (disconnectAll ids).Shows (ShowsIds i) fun _ => True :=
  Prog.shows_each (fun id => shows_updateInfo id _) ids

theorem shows_peerUp (s : Session) (orders : IterOrders) (msg : PeerUp) :
    (peerUp s orders msg).Shows (ShowsIds i) fun res => res.2.ingressId = s.ingressId := by
  unfold peerUp
  split
  · rfl
  · refine Prog.Shows.bind (shows_claimOrRegister _ _) fun res _ => ?_
    exact Prog.Shows.bind (shows_updateInfo _ _) fun _ _ => rfl

theorem shows_peerDown {view : Session → Connection}
    (hview : ∀ s', s'.ingressId = s.ingressId → (view s').ids = i) (orders : IterOrders)
    (pph : PerPeerHeader) :
    (peerDown view s orders pph).Shows (ShowsIds i) fun res => res.2.ingressId = s.ingressId := by
  unfold peerDown
  split
  · rfl
  · refine Prog.Shows.bind (Q := fun _ => True) ⟨⟨_, rfl, hview _ rfl⟩, trivial⟩ fun _ _ => ?_
    exact Prog.Shows.bind (shows_disconnectAll _) fun _ _ => rfl

theorem shows_synthesize (s : Session) (orders : IterOrders) (pph : PerPeerHeader)
    (source : PeerState) : (synthesize s orders pph source).Shows (ShowsIds i)
      fun found => ∀ s', found = .ready s' → s'.ingressId = s.ingressId := by
  refine Prog.Shows.bind (Q := fun _ => True) (fun _ => trivial) fun info _ => ?_
  cases info with
  | none => exact nofun
  | some info =>
    refine Prog.Shows.bind (shows_claimOrRegister _ _) fun res _ => ?_
    refine Prog.Shows.bind (shows_updateInfo _ _) fun _ _ => ?_
    rintro s' ⟨⟩
    rfl

theorem shows_ensurePeer (s : Session) (orders : IterOrders) (pph : PerPeerHeader) :
    (ensurePeer s orders pph).Shows (ShowsIds i)
      fun found => ∀ s', found = .ready s' → s'.ingressId = s.ingressId := by
  unfold ensurePeer
  split
  · rintro s' ⟨⟩
    rfl
  · split
    · exact shows_synthesize s orders pph _
    · exact nofun

/-- A session stays with its id. -/
def KeepsId (id : IngressId) (res : Option (Option Update × BmpState)) : Prop :=
  ∀ u st, res = some (u, st) → st.ingressId = id

theorem shows_routeMonitoring (dumping : Bool) (s : Session) (orders : IterOrders)
    (pph : PerPeerHeader) (bgpUpdate : SessionConfig → Except String BgpUpdate) :
    (routeMonitoring dumping s orders pph bgpUpdate).Shows (ShowsIds i) (KeepsId s.ingressId) := by
  refine Prog.Shows.bind (shows_ensurePeer s orders pph) fun found hfound => ?_
  cases found with
  | panicked => exact nofun
  | missing =>
    rintro u st ⟨⟩
    cases dumping <;> rfl
  | ready s' =>
    rintro u st ⟨⟩
    have hid := s'.ingressId_processMsg dumping .new orders (.routeMonitoring pph bgpUpdate)
    exact hid.trans (hfound s' rfl)

theorem shows_terminate (hview : ∀ st, st.ingressId = s.ingressId → (view st).ids = i)
    (orders : IterOrders) :
    (terminate view s orders).Shows (ShowsIds i) fun res => res.2.ingressId = s.ingressId := by
  refine Prog.Shows.bind (Q := fun _ => True) ⟨⟨_, rfl, hview _ rfl⟩, trivial⟩ fun _ _ => ?_
  exact Prog.Shows.bind (shows_disconnectAll _) fun _ _ => rfl

theorem shows_sessionMsg (dumping : Bool)
    (hview : ∀ st, st.ingressId = s.ingressId → (view st).ids = i) (orders : IterOrders)
    (msg : BmpMsg) :
    (sessionMsg dumping view s orders msg).Shows (ShowsIds i) (KeepsId s.ingressId) := by
  have hwrap : ∀ s' : Session, (if dumping then BmpState.dumping s' else .updating s').ingressId =
      s'.ingressId := fun s' => by cases dumping <;> rfl
  cases msg with
  | initiationMessage | statisticsReport | routeMirroring =>
    rintro u st ⟨⟩
    exact hwrap _
  | peerUpNotification msg =>
    refine Prog.Shows.bind (shows_peerUp s orders msg) fun res hres => ?_
    rintro u st ⟨⟩
    exact (hwrap _).trans hres
  | peerDownNotification pph =>
    refine Prog.Shows.bind (shows_peerDown (fun s' hs' => hview _ ((hwrap s').trans hs')) orders pph)
      fun res hres => ?_
    rintro u st ⟨⟩
    exact (hwrap _).trans hres
  | routeMonitoring pph bgpUpdate => exact shows_routeMonitoring dumping s orders pph bgpUpdate
  | terminationMessage =>
    refine Prog.Shows.bind (shows_terminate hview orders) fun res hres => ?_
    rintro u st ⟨⟩
    exact hres

theorem shows_initiatingMsg (id : IngressId) (orders : IterOrders) (msg : BmpMsg) :
    (initiatingMsg id orders msg).Shows (ShowsIds i) fun _ => True := by
  cases msg with
  | initiationMessage names descs extra =>
    refine Prog.Shows.bind (Q := fun _ => True) (fun _ => trivial) fun known _ => ?_
    refine Prog.Shows.bind (Q := fun _ => True) (fun _ => trivial) fun found _ => ?_
    exact Prog.Shows.bind (shows_updateInfo _ _) fun _ _ => trivial
  | _ => trivial

/-- Only the Initiation changes the id of the state machine, and it has nothing to report. -/
theorem shows_processMsg (c : Connection) (orders : IterOrders) (msg : BmpMsg) :
    (processMsg c orders msg).Shows (ShowsIds c.ids) fun res => ∀ u st, res = some (u, st) →
      st.ingressId = c.stateMachine.ingressId ∨ u = none ∧ c.stateMachine.isInitiating = true := by
  have hsession : ∀ (dumping : Bool) (s : Session), s.ingressId = c.stateMachine.ingressId →
      (sessionMsg dumping (fun st => { c with stateMachine := st }) s orders msg).Shows
        (ShowsIds c.ids) fun res => ∀ u st, res = some (u, st) →
          st.ingressId = c.stateMachine.ingressId ∨
            u = none ∧ c.stateMachine.isInitiating = true := by
    intro dumping s hs
    refine Prog.Shows.mono (shows_sessionMsg dumping (fun st hst => ?_) orders msg)
      fun res hres u st hst => .inl ((hres u st hst).trans hs)
    rw [Connection.ids, hst, hs]
    rfl
  unfold processMsg
  cases hst : c.stateMachine with
  | initiating id =>
    refine Prog.Shows.bind (shows_initiatingMsg id orders msg) fun st' _ => ?_
    rintro u st ⟨⟩
    exact .inr ⟨rfl, rfl⟩
  | dumping s =>
    rw [hst] at hsession
    exact hsession true s rfl
  | updating s =>
    rw [hst] at hsession
    exact hsession false s rfl
  | terminated id =>
    rintro u st ⟨⟩
    exact .inl rfl

/-- A connection that is filed where its state machine runs stays there. -/
theorem tidy_resolveRebind (h : c.stateMachine.ingressId = c.ingressId) :
    Tidy c.ids (resolveRebind c >>= fun c => return some c) := by
  unfold resolveRebind
  split
  · rintro c' ⟨⟩
    exact ⟨rfl, h.symm⟩
  · rw [if_neg (not_not.mpr h)]
    rintro c' ⟨⟩
    exact ⟨rfl, h.symm⟩

/-- A connection whose state machine runs elsewhere frees its id and moves there. -/
theorem tidy_rebind (hresolved : c.rebindResolved = false)
    (hne : c.stateMachine.ingressId ≠ c.ingressId) :
    removes c.ingressId (resolveRebind c >>= fun c => return some c) ∧
      Tidy c.ids (resolveRebind c >>= fun c => return some c) := by
  unfold resolveRebind
  rw [if_neg (by rw [hresolved]; nofun), if_pos hne]
  refine ⟨rfl, fun _ _ => ?_⟩
  rintro c' ⟨⟩
  exact ⟨rfl, rfl⟩

end Steps

theorem tidy_handleMsg (ignorePostPolicyRoutes accepted : Bool) (hal : c.Aligned)
    (orders : IterOrders) (msg : BmpMsg) :
    Tidy c.ids (Steps.handleMsg ignorePostPolicyRoutes accepted c orders msg) := by
  obtain ⟨hid, hresolved⟩ := hal
  unfold Steps.handleMsg
  split
  · exact Steps.tidy_resolveRebind hid
  · refine Tidy.bind (Steps.shows_updateData _) fun _ _ => ?_
    split
    · exact Steps.tidy_resolveRebind hid
    · refine Tidy.bind (Steps.shows_processMsg c orders msg) fun res hres => ?_
      match res, hres with
      | none, _ => exact nofun
      | some (u, st), hres =>
        by_cases hsame : st.ingressId = c.stateMachine.ingressId
        · have hids : Connection.ids { c with stateMachine := st } = c.ids := by
            rw [Connection.ids, hsame]
            rfl
          refine ⟨_, rfl, .inl ⟨hids, ?_⟩⟩
          change Tidy c.ids (Prog.bind (Prog.each Steps.updateData u.toList) _)
          refine Tidy.bind (Prog.shows_each (fun u => Steps.shows_updateData u) _) fun _ _ => ?_
          rw [← hids]
          exact Steps.tidy_resolveRebind (hsame.trans hid)
        · obtain ⟨rfl, hin⟩ := (hres u st rfl).resolve_left hsame
          have hnot : c.rebindResolved = false := by
            rw [hresolved, hin]
            rfl
          obtain ⟨hremoves, htidy⟩ := Steps.tidy_rebind (c := { c with stateMachine := st }) hnot
            fun heq => hsame (heq.trans hid.symm)
          exact ⟨_, rfl, .inr ⟨⟨hid, hnot, rfl, hnot, hsame⟩, hremoves, htidy⟩⟩

end Rotonda.BmpIn
