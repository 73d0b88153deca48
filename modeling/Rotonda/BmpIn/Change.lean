import Rotonda.BmpIn.Connection
import Rotonda.BmpIn.Effect

/-!
What a message does to the ingress ids that a BMP connection holds in its peer states, and to the
register.

* `Change`: nothing, one id is put, or some are taken out and marked as disconnected;
* `BmpState.change_processMsg`, `Connection.handleMsg_session`: messages after the Initiation;
* `Connection.handleMsg_initiating`: messages up to the Initiation, which settles the id of the
  connection;
* `Session.missing_of_panicked`: the only way to panic.
-/

namespace Rotonda.BmpIn

open Lib List Dict Register PeerStates

variable {pph : PerPeerHeader} {st : BmpState} {id : IngressId}

def withdrawnBy : Update → List IngressId
  | .withdraw id _ => [id]
  | .withdrawBulk entries => entries.map Prod.fst
  | _ => []

abbrev Holdings := Dict PerPeerHeader IngressId

def PeerStates.ids (peers : PeerStates) : Holdings := peers.map PeerState.ingressId

/-! ## One message -/

/-- What a message can do: nothing, put one id under a header that had none, or take some out,
which marks them as disconnected.  The last two arguments are the ids that are put and those that
are taken out. -/
inductive Change (held : Holdings) (reg : Register) :
    Holdings → Register → List IngressId → List IngressId → Prop
  | quiet : Change held reg held reg [] []
  | puts {k : PerPeerHeader} {id : IngressId} {order : List IngressId} {query : IngressInfo}
      {existing : Option IngressId} {reg' : Register} (hnew : held.get k = none)
      (hclaim : claimOrRegister reg order query = (id, existing, reg'))
      (hquery : query.state = some .connected) :
      Change held reg (held.insert k id) (reg'.updateInfo id query) [id] []
  | takes (es : List (PerPeerHeader × IngressId)) (hnodup : (es.map Prod.fst).Nodup)
      (hes : ∀ e ∈ es, held.get e.1 = some e.2) :
      Change held reg (es.foldl (fun held e => held.erase e.1) held)
        (reg.disconnectAll (es.map Prod.snd)) [] (es.map Prod.snd)

/-- The header of the peer that a message may add. -/
def BmpMsg.subject : BmpMsg → Option PerPeerHeader
  | .peerUpNotification msg => some msg.pph
  | .routeMonitoring pph _ => some pph
  | _ => none

/-- The id that a message has put under its header. -/
def putBy (msg : BmpMsg) (before after : Holdings) : List IngressId :=
  match msg.subject with
  | some pph => if (before.get pph).isNone then (after.get pph).toList else []
  | none => []

theorem putBy_same (msg : BmpMsg) (held : Holdings) : putBy msg held held = [] := by
  unfold putBy
  split
  next pph _ => cases held.get pph <;> rfl
  · rfl

variable {msg : BmpMsg}

theorem putBy_insert (hmsg : msg.subject = some pph) {held : Holdings} (hnew : held.get pph = none)
    (id : IngressId) : putBy msg held (held.insert pph id) = [id] := by
  simp [putBy, hmsg, hnew]

theorem PeerStates.EditedAt.ids_eq {peers peers' : PeerStates} (h : EditedAt pph peers peers')
    (hpph : (peers.get pph).isSome) : peers'.ids = peers.ids := by
  funext k
  change (peers'.get k).map PeerState.ingressId = (peers.get k).map PeerState.ingressId
  by_cases hk : k = pph
  · subst hk
    obtain ⟨st, hst⟩ := Option.isSome_iff_exists.mp hpph
    obtain ⟨config, pending, hget⟩ := h.2 st hst
    rw [hget, hst]
    rfl
  · rw [h.1 k hk]

variable (peers : PeerStates)

theorem PeerStates.ids_insert (pph : PerPeerHeader) (st : PeerState) :
    PeerStates.ids (peers.insert pph st) = peers.ids.insert pph st.ingressId :=
  map_insert ..

namespace Session

variable {s : Session} {reg : Register} {orders : IterOrders}
variable {res : MessageType}

def withdrawals : MessageType → List IngressId
  | .routingUpdate update => withdrawnBy update
  | _ => []

/-- The change that the answer of a message and the state after it amount to. -/
def Changes (s : Session) (reg : Register) (msg : BmpMsg)
    (res : MessageType × BmpState × Register) : Prop :=
  Change s.peerStates.ids reg res.2.1.peerStates.ids res.2.2
    (putBy msg s.peerStates.ids res.2.1.peerStates.ids) (withdrawals res.1)

variable (dumping : Bool)

theorem peerStates_of_wrap {dumping : Bool} {s : Session}
    (h : st = wrap dumping s ∨ st = .updating s) :
    st.peerStates = s.peerStates := by
  rcases h with rfl | rfl
  · exact peerStates_wrap dumping s
  · rfl

theorem changes_same (hst : st.peerStates.ids = s.peerStates.ids) (hres : withdrawals res = []) :
    s.Changes reg msg (res, st, reg) := by
  unfold Changes
  rw [hst, hres, putBy_same]
  exact .quiet

theorem changes_puts (hmsg : msg.subject = some pph) (hnew : s.peerStates.get pph = none)
    {order : List IngressId} {query : IngressInfo} {existing : Option IngressId} {reg' : Register}
    (hclaim : claimOrRegister reg order query = (id, existing, reg'))
    (hquery : query.state = some .connected)
    (hst : st.peerStates.ids = s.peerStates.ids.insert pph id) (hres : withdrawals res = []) :
    s.Changes reg msg (res, st, reg'.updateInfo id query) := by
  have hnone : s.peerStates.ids.get pph = none := by
    rw [PeerStates.ids, get_map, hnew]
    rfl
  unfold Changes
  rw [hst, hres, putBy_insert hmsg hnone]
  exact .puts hnone hclaim hquery

theorem changes_peerUp (s : Session) (reg : Register) (orders : IterOrders) (m : PeerUp)
    (hst : st.peerStates = (s.peerUp reg orders m).2.1.peerStates) :
    s.Changes reg (.peerUpNotification m)
      ((s.peerUp reg orders m).1, st, (s.peerUp reg orders m).2.2) := by
  unfold peerUp at hst ⊢
  rcases s.peerStates.addPeerConfig_cases reg orders.register s.ingressId m with
    ⟨_, heq⟩ | ⟨hnew, id, existing, reg', hclaim, heq⟩
  · rw [heq] at hst ⊢
    exact changes_same (by rw [hst]) rfl
  · rw [heq] at hst ⊢
    cases existing with
    | none | some =>
      apply changes_puts rfl hnew hclaim rfl
      · rw [hst, ids_insert]
      · rfl

/-! ### Teardown of peers -/

def idEntries (es : List (PerPeerHeader × PeerState)) : List (PerPeerHeader × IngressId) :=
  es.map fun e => (e.1, e.2.ingressId)

section

variable (es : List (PerPeerHeader × PeerState))

@[simp] theorem fst_idEntries :
    (idEntries es).map Prod.fst = es.map Prod.fst := by
  simp [idEntries]

@[simp] theorem snd_idEntries :
    (idEntries es).map Prod.snd = es.map fun e => e.2.ingressId := by
  simp [idEntries]

theorem ids_foldl_erase :
    PeerStates.ids (es.foldl (fun peers e => peers.erase e.1) peers) =
      (idEntries es).foldl (fun held e => held.erase e.1) peers.ids := by
  funext k
  change (Dict.get _ k).map PeerState.ingressId = Dict.get _ k
  rw [get_foldl_erase, get_foldl_erase]
  rw [fst_idEntries]
  split <;> rfl

end

/-- Taking out the entries of a selection, with their marks. -/
theorem change_select {order : List PerPeerHeader}
    (horder : order.Nodup) (reg : Register) (p : PerPeerHeader → PeerState → Bool) :
    let es := peers.select order p
    Change peers.ids reg (PeerStates.ids (es.foldl (fun peers e => peers.erase e.1) peers))
      (reg.disconnectAll (es.map fun e => e.2.ingressId)) [] (es.map fun e => e.2.ingressId) := by
  intro es
  rw [ids_foldl_erase, ← snd_idEntries]
  apply Change.takes
  · rw [fst_idEntries]
    exact nodup_select horder p
  · intro e he
    obtain ⟨⟨k, st⟩, hmem, rfl⟩ := mem_map.mp he
    rw [PeerStates.ids, get_map, (mem_select.mp hmem).2.1]
    rfl

/-- The update that a Peer Down sends for the removed peers. -/
def withdrawalOf (removed : List PeerState) : Update :=
  match removed with
  | [peer] =>
    if peer.synthesized then Update.withdrawBulk [(peer.ingressId, none)]
    else Update.withdraw peer.ingressId none
  | removed => Update.withdrawBulk (removed.map fun peer => (peer.ingressId, none))

/-- However many peers are removed, the update names all of them. -/
theorem withdrawnBy_withdrawalOf (removed : List PeerState) :
    withdrawnBy (withdrawalOf removed) = removed.map PeerState.ingressId := by
  unfold withdrawalOf
  split
  next peer => split <;> rfl
  · simp [withdrawnBy, Function.comp_def]

section

variable (s : Session) (reg : Register) (orders : IterOrders)
  (horder : s.peerStates.Covers orders.peers)
include horder

theorem changes_peerDown (pph : PerPeerHeader)
    (hst : st.peerStates = (s.peerDown reg orders pph).2.1.peerStates) :
    s.Changes reg (.peerDownNotification pph)
      ((s.peerDown reg orders pph).1, st, (s.peerDown reg orders pph).2.2) := by
  have hchange := change_select s.peerStates horder.1 reg fun k _ => k.sameIdentity pph
  dsimp only at hchange
  unfold peerDown PeerStates.removePeerIdentitySiblings at hst ⊢
  generalize s.peerStates.select orders.peers (fun k _ => k.sameIdentity pph) = es at *
  cases es with
  | nil => exact changes_same (by rw [hst]; rfl) rfl
  | cons e es =>
    have hmarks : reg.disconnectAll ((e :: es).map fun e => e.2.ingressId) =
        ((e :: es).map Prod.snd).foldl (fun reg peer =>
          reg.updateInfo peer.ingressId (.withState .disconnected)) reg := by
      rw [Register.disconnectAll, foldl_map, foldl_map]
    have hids : (e :: es).map (fun e => e.2.ingressId) =
        ((e :: es).map Prod.snd).map PeerState.ingressId := by
      rw [map_map]
      rfl
    rw [hmarks, hids, ← withdrawnBy_withdrawalOf] at hchange
    unfold Changes
    rw [hst]
    exact hchange

/-- A Peer Down for a known peer removes all peers of its identity, withdraws and marks them. -/
theorem peerDown_known {k : PerPeerHeader} (hk : k.sameIdentity pph = true)
    (hknown : (s.peerStates.get k).isSome) :
    ∃ update peers, s.peerDown reg orders pph = (.routingUpdate update,
        { s with peerStates := peers }, reg.disconnectAll (withdrawnBy update)) ∧
      (∀ k, peers.get k = if k.sameIdentity pph then none else s.peerStates.get k) ∧
      ∀ id, id ∈ withdrawnBy update ↔ ∃ k st, k.sameIdentity pph = true ∧
        s.peerStates.get k = some st ∧ st.ingressId = id := by
  have hget (k : PerPeerHeader) :
      (s.peerStates.removePeerIdentitySiblings orders.peers pph).2.get k =
        if k.sameIdentity pph then none else s.peerStates.get k :=
    get_removePeerIdentitySiblings horder k
  have hmem (st : PeerState) : st ∈ (s.peerStates.removePeerIdentitySiblings orders.peers pph).1 ↔
      ∃ k, k.sameIdentity pph = true ∧ s.peerStates.get k = some st :=
    mem_removePeerIdentitySiblings horder
  unfold peerDown
  generalize s.peerStates.removePeerIdentitySiblings orders.peers pph = r at hget hmem
  obtain ⟨removed, peers⟩ := r
  cases removed with
  | nil =>
    obtain ⟨st, hst⟩ := Option.isSome_iff_exists.mp hknown
    exact absurd ((hmem st).mpr ⟨k, hk, hst⟩) not_mem_nil
  | cons peer removed =>
    refine ⟨withdrawalOf (peer :: removed), peers, ?_, hget, fun id => ?_⟩
    · rw [withdrawnBy_withdrawalOf, Register.disconnectAll, foldl_map]
      rfl
    · rw [withdrawnBy_withdrawalOf, mem_map]
      constructor
      · rintro ⟨st, hst, rfl⟩
        obtain ⟨k, hk, hget⟩ := (hmem st).mp hst
        exact ⟨k, st, hk, hget, rfl⟩
      · rintro ⟨k, st, hk, hget, rfl⟩
        exact ⟨st, (hmem st).mpr ⟨k, hk, hget⟩, rfl⟩

theorem changes_terminate :
    s.Changes reg .terminationMessage (s.terminate reg orders) := by
  have hchange := change_select s.peerStates horder.1 reg fun _ _ => true
  dsimp only at hchange
  have hempty : (s.peerStates.select orders.peers fun _ _ => true).foldl
      (fun peers e => peers.erase e.1) s.peerStates = .empty := by
    funext k
    change Dict.get _ k = none
    rw [get_foldl_erase]
    split
    · rfl
    next hk =>
      cases hget : s.peerStates.get k with
      | none => rfl
      | some st =>
        have hmem := (mem_select_of_covers (p := fun _ _ => true) horder).mpr ⟨hget, rfl⟩
        exact absurd (mem_map_of_mem hmem) hk
  rw [hempty] at hchange
  unfold terminate PeerStates.disconnectIntoRegister Changes
  generalize s.peerStates.select orders.peers (fun _ _ => true) = es at hchange
  cases es with
  | nil => exact hchange
  | cons e es =>
    have hids : (e :: es).map (fun e => e.2.ingressId) = withdrawnBy (.withdrawBulk
        (((e :: es).map fun e => e.2.ingressId).map fun id => (id, none))) := by
      simp [withdrawnBy, Function.comp_def]
    nth_rewrite 2 [hids] at hchange
    exact hchange

end

/-! ### Route Monitoring -/

theorem withdrawals_of_keeps (h : Keeps res) : withdrawals res = [] := by
  cases res with
  | routingUpdate update => cases update <;> first | rfl | exact h.elim
  | _ => rfl

theorem changes_routeMonitoring (s : Session) (reg : Register) (orders : IterOrders)
    (pph : PerPeerHeader) (bgpUpdate : SessionConfig → Except String BgpUpdate) :
    s.Changes reg (.routeMonitoring pph bgpUpdate)
      (s.routeMonitoring dumping reg orders pph bgpUpdate) := by
  obtain ⟨hreg, hcases⟩ := s.routeMonitoring_cases dumping reg orders pph bgpUpdate
  have hens := s.ensurePeer_cases reg orders pph
  generalize hr : s.routeMonitoring dumping reg orders pph bgpUpdate = r at hreg hcases ⊢
  generalize s.ensurePeer reg orders pph = e at hreg hcases hens
  obtain ⟨res, st, reg'⟩ := r
  cases hens with
  | known hknown =>
    obtain ⟨hsome, hkeeps, s₂, _, hedit, hst⟩ := hcases
    cases hreg
    refine changes_same ?_ (withdrawals_of_keeps hkeeps)
    rw [peerStates_of_wrap hst, hedit.ids_eq hsome]
  | synthesized hnew hsrc hsource hinfo hclaim =>
    obtain ⟨hsome, hkeeps, s₂, _, hedit, hst⟩ := hcases
    cases hreg
    have hids : s₂.peerStates.ids = s.peerStates.ids.insert pph _ :=
      (hedit.ids_eq hsome).trans (ids_insert ..)
    apply changes_puts rfl hnew hclaim rfl ?_ (withdrawals_of_keeps hkeeps)
    rw [peerStates_of_wrap hst, hids]
  | panicked | unknown =>
    obtain ⟨rfl, hst⟩ := hcases
    cases hreg
    exact changes_same (by rw [peerStates_of_wrap (.inl hst)]) rfl

theorem changes_processMsg (s : Session) (reg : Register) (orders : IterOrders)
    (horder : s.peerStates.Covers orders.peers) (msg : BmpMsg) :
    s.Changes reg msg (s.processMsg dumping reg orders msg) := by
  unfold processMsg
  cases msg with
  | initiationMessage | routeMirroring =>
    exact changes_same (congrArg PeerStates.ids (peerStates_wrap ..)) rfl
  | peerUpNotification m => exact s.changes_peerUp reg orders m (peerStates_wrap ..)
  | peerDownNotification pph =>
    exact s.changes_peerDown reg orders horder pph (peerStates_wrap ..)
  | routeMonitoring pph bgpUpdate => exact s.changes_routeMonitoring dumping reg orders pph bgpUpdate
  | terminationMessage => exact s.changes_terminate reg orders horder
  | statisticsReport pph raw =>
    refine changes_same (congrArg PeerStates.ids (peerStates_wrap ..)) ?_
    unfold statisticsReport
    split
    · rfl
    · split <;> rfl

/-- The task panics only when a peer that it holds is not in the register. -/
theorem missing_of_panicked {dumping : Bool}
    (h : (s.processMsg dumping reg orders msg).1 = .panicked) :
    ∃ k id, s.peerStates.ids.get k = some id ∧ reg.get id = none := by
  unfold processMsg at h
  cases msg with
  | peerUpNotification m =>
    dsimp only at h
    unfold peerUp at h
    split at h <;> cases h
  | peerDownNotification pph =>
    dsimp only at h
    unfold peerDown at h
    split at h <;> cases h
  | routeMonitoring pph bgpUpdate =>
    obtain ⟨_, hcases⟩ := s.routeMonitoring_cases dumping reg orders pph bgpUpdate
    dsimp only at h
    rw [h] at hcases
    have hens := s.ensurePeer_cases reg orders pph
    generalize s.ensurePeer reg orders pph = e at hcases hens
    cases hens with
    | known => exact hcases.2.1.elim
    | synthesized => exact hcases.2.1.elim
    | @panicked src source hnew hsource hinfo =>
      refine ⟨src, source.ingressId, ?_, hinfo⟩
      rw [PeerStates.ids, get_map, hsource]
      rfl
    | unknown => cases hcases.1
  | terminationMessage =>
    dsimp only at h
    unfold terminate at h
    dsimp only at h
    split at h <;> cases h
  | statisticsReport pph raw =>
    dsimp only at h
    unfold statisticsReport at h
    split at h
    · cases h
    · split at h <;> cases h
  | _ => cases h

theorem ingressId_processMsg (s : Session) (reg : Register) (orders : IterOrders)
    (msg : BmpMsg) : (s.processMsg dumping reg orders msg).2.1.ingressId = s.ingressId := by
  have hwrap (s : Session) : (wrap dumping s).ingressId = s.ingressId := by
    cases dumping <;> rfl
  unfold processMsg
  cases msg with
  | peerUpNotification m =>
    apply (hwrap _).trans
    unfold peerUp
    split <;> rfl
  | peerDownNotification pph =>
    apply (hwrap _).trans
    unfold peerDown
    split <;> rfl
  | routeMonitoring pph bgpUpdate =>
    obtain ⟨_, hcases⟩ := s.routeMonitoring_cases dumping reg orders pph bgpUpdate
    have hens := s.ensurePeer_cases reg orders pph
    generalize s.ensurePeer reg orders pph = e at hcases hens
    cases hens with
    | known | synthesized =>
      obtain ⟨_, _, s₂, hid, _, hst | hst⟩ := hcases
      · dsimp only
        rw [hst, hwrap]
        exact hid
      · dsimp only
        rw [hst]
        exact hid
    | panicked | unknown =>
      dsimp only
      rw [hcases.2, hwrap]
  | terminationMessage =>
    simp only [terminate]
    split <;> rfl
  | _ => exact hwrap _

end Session

variable {orders : IterOrders}

theorem BmpState.change_processMsg (hin : st.isInitiating = false) (reg : Register)
    (horder : st.peerStates.Covers orders.peers) (msg : BmpMsg) :
    let r := st.processMsg reg orders msg
    Change st.peerStates.ids reg r.2.1.peerStates.ids r.2.2
      (putBy msg st.peerStates.ids r.2.1.peerStates.ids) (Session.withdrawals r.1) ∧
    r.2.1.ingressId = st.ingressId ∧ r.2.1.isInitiating = false := by
  have hreported (res : MessageType) :
      Session.withdrawals res.reported = Session.withdrawals res := by
    cases res <;> rfl
  have hsession (dumping : Bool) (s : Session) (hs : s.peerStates.Covers orders.peers) :
      let r := s.processMsg dumping reg orders msg
      Change s.peerStates.ids reg r.2.1.peerStates.ids r.2.2
        (putBy msg s.peerStates.ids r.2.1.peerStates.ids) (Session.withdrawals r.1.reported) ∧
      r.2.1.ingressId = s.ingressId ∧ r.2.1.isInitiating = false := by
    refine ⟨?_, s.ingressId_processMsg dumping reg orders msg,
      s.isInitiating_processMsg dumping reg orders msg⟩
    rw [hreported]
    exact s.changes_processMsg dumping reg orders hs msg
  cases st with
  | initiating id => cases hin
  | dumping s => exact hsession true s horder
  | updating s => exact hsession false s horder
  | terminated id =>
    have hquiet : Change (terminated id).peerStates.ids reg (terminated id).peerStates.ids reg
        (putBy msg (terminated id).peerStates.ids (terminated id).peerStates.ids) [] := by
      rw [putBy_same]
      exact .quiet
    exact ⟨hquiet, rfl, rfl⟩

/-! ## One message of a connection -/

namespace Connection

variable {c c' : Connection} {reg reg' : Register} {orders : IterOrders} {msg : BmpMsg}
  {ignorePostPolicyRoutes accepted : Bool} {sent : List Update}

def held (c : Connection) : Holdings := c.stateMachine.peerStates.ids

/-- The state machine runs under the id of the connection, which is final after the
Initiation. -/
def Aligned (c : Connection) : Prop :=
  c.stateMachine.ingressId = c.ingressId ∧ c.rebindResolved = !c.stateMachine.isInitiating

theorem resolveRebind_of_resolved (h : c.rebindResolved = true) :
    c.resolveRebind reg = (c, reg, []) := by
  rw [resolveRebind, if_pos h]

theorem resolveRebind_of_eq (reg : Register) (h : c.rebindResolved = false)
    (hid : c.stateMachine.ingressId = c.ingressId) :
    c.resolveRebind reg =
      ({ c with rebindResolved := !c.stateMachine.isInitiating }, reg, []) := by
  simp [resolveRebind, h, hid]

theorem resolveRebind_of_ne (reg : Register) (h : c.rebindResolved = false)
    (hid : c.stateMachine.ingressId ≠ c.ingressId) :
    c.resolveRebind reg =
      ({ c with ingressId := c.stateMachine.ingressId, rebindResolved := true },
        reg.remove c.ingressId, [.ingressReappeared c.stateMachine.ingressId]) := by
  simp [resolveRebind, h, hid]

/-- The message is dropped before it reaches the state machine, or the state machine answers. -/
theorem handleMsg_cases
    (h : c.handleMsg ignorePostPolicyRoutes accepted reg orders msg = some (c', reg', sent)) :
    (∃ sent₁ sent₂, sent₁.flatMap withdrawnBy = [] ∧
      c.resolveRebind reg = (c', reg', sent₂) ∧ sent = sent₁ ++ sent₂) ∨
    ∃ sent₁ reg₁ sent₂, (c.stateMachine.processMsg reg orders msg).1 ≠ .panicked ∧
      sent₁.flatMap withdrawnBy =
        Session.withdrawals (c.stateMachine.processMsg reg orders msg).1 ∧
      (c.stateMachine.processMsg reg orders msg).2.2 = reg₁ ∧
      resolveRebind { c with stateMachine := (c.stateMachine.processMsg reg orders msg).2.1 } reg₁ =
        (c', reg', sent₂) ∧ sent = sent₁ ++ sent₂ := by
  unfold handleMsg at h
  obtain ⟨⟨c₁, reg₁, sent₁⟩, hprocess, hrebind⟩ := Option.map_eq_some_iff.mp h
  obtain ⟨⟨c₂, reg₂, sent₂⟩, hr⟩ : ∃ r, c₁.resolveRebind reg₁ = r := ⟨_, rfl⟩
  dsimp only at hrebind
  rw [hr] at hrebind
  cases hrebind
  unfold processMsg at hprocess
  split at hprocess
  · cases hprocess
    exact .inl ⟨[], sent₂, rfl, hr, rfl⟩
  · split at hprocess
    · cases hprocess
      exact .inl ⟨[.outputStream], sent₂, rfl, hr, rfl⟩
    · refine .inr ⟨sent₁, reg₁, sent₂, ?_⟩
      generalize c.stateMachine.processMsg reg orders msg = r at hprocess
      obtain ⟨res, st, reg'⟩ := r
      cases res with
      | panicked => cases hprocess
      | routingUpdate update =>
        cases hprocess
        exact ⟨by simp, by simp [withdrawnBy, Session.withdrawals], rfl, hr, rfl⟩
      | invalidMessage _ _ | other | stateTransition =>
        cases hprocess
        exact ⟨by simp, rfl, rfl, hr, rfl⟩

theorem handleMsg_session (hal : c.Aligned) (hin : c.stateMachine.isInitiating = false)
    (horder : c.stateMachine.peerStates.Covers orders.peers)
    (h : c.handleMsg ignorePostPolicyRoutes accepted reg orders msg = some (c', reg', sent)) :
    Change c.held reg c'.held reg' (putBy msg c.held c'.held) (sent.flatMap withdrawnBy) ∧
      c'.ingressId = c.ingressId ∧ c'.Aligned ∧ c'.stateMachine.isInitiating = false := by
  have hresolved : c.rebindResolved = true := by rw [hal.2, hin]; rfl
  rcases handleMsg_cases h with
    ⟨sent₁, sent₂, hsent, hr, rfl⟩ | ⟨sent₁, reg₁, sent₂, _, hsent, hreg, hr, rfl⟩
  · rw [resolveRebind_of_resolved hresolved] at hr
    cases hr
    refine ⟨?_, rfl, hal, hin⟩
    rw [append_nil, hsent, putBy_same]
    exact .quiet
  · rw [resolveRebind_of_resolved (by exact hresolved)] at hr
    cases hr
    obtain ⟨hchange, hid, hinit⟩ := BmpState.change_processMsg hin reg horder msg
    refine ⟨?_, rfl, ⟨hid.trans hal.1, ?_⟩, hinit⟩
    · rw [append_nil, hsent, ← hreg]
      exact hchange
    · rw [hresolved, hinit]
      rfl

/-- What the Initiation does to the register: the id that the connection settles on is
connected, and no other is marked as disconnected. -/
structure Settles (reg reg' : Register) (id : IngressId) : Prop where
  connected : reg'.stateOf id = some .connected
  marks_nothing : ∀ id', reg'.stateOf id' = some .disconnected →
    reg.stateOf id' = some .disconnected
  serial_eq : reg'.serial = reg.serial
  below : id < reg.serial
  numbered : reg'.Numbered

theorem settles_initiation (hreg : reg.Numbered) (hid : id < reg.serial) {identity : IngressInfo}
    (hst : identity.state = some .connected) : Settles reg (reg.updateInfo id identity) id where
  connected := by rw [stateOf_updateInfo, if_pos rfl, hst]; rfl
  marks_nothing := by
    intro id' h
    rw [stateOf_updateInfo, hst] at h
    split at h
    · cases h
    · exact h
  serial_eq := rfl
  below := hid
  numbered := hreg.updateInfo hid _

theorem Settles.after_claim {info : IngressInfo} (hid : (reg.get id).isSome)
    (hst : info.state = some .connected) (hreg : reg.Numbered)
    (h : Settles (reg.insert id info) reg' id) : Settles reg reg' id where
  connected := h.connected
  marks_nothing := by
    intro id' hmark
    have hbefore := h.marks_nothing id' hmark
    rw [stateOf_insert, hst] at hbefore
    split at hbefore
    · cases hbefore
    · exact hbefore
  serial_eq := h.serial_eq
  below := hreg id hid
  numbered := h.numbered

theorem Settles.remove {old : IngressId} (hne : id ≠ old) (h : Settles reg reg' id) :
    Settles reg (reg'.remove old) id where
  connected := by rw [stateOf_remove, if_neg hne, h.connected]
  marks_nothing := by
    intro id' hmark
    rw [stateOf_remove] at hmark
    split at hmark
    · cases hmark
    · exact h.marks_nothing id' hmark
  serial_eq := h.serial_eq
  below := h.below
  numbered := h.numbered.remove old

/-- A message before the Initiation is refused; the Initiation settles the id. -/
theorem initiatingProcessMsg_cases (id : IngressId) (reg : Register) (orders : IterOrders)
    (msg : BmpMsg) (hreg : reg.Numbered) (hid : id < reg.serial) :
    (∃ err, initiatingProcessMsg id reg orders msg =
      (.invalidMessage err none, .initiating id, reg)) ∨
    ∃ s reg', initiatingProcessMsg id reg orders msg = (.stateTransition, .dumping s, reg') ∧
      s.peerStates = .empty ∧ msg.subject = none ∧ Settles reg reg' s.ingressId := by
  unfold initiatingProcessMsg
  cases msg with
  | initiationMessage names descs extra =>
    refine .inr ⟨_, _, rfl, rfl, rfl, ?_⟩
    dsimp only
    generalize hidentity : ({ (reg.get id).getD {} with
      state := some .connected
      name := some (names.head?.getD "no-sysname")
      desc := some (descs.head?.getD "no-sysdesc") } : IngressInfo) = identity
    have hst : identity.state = some .connected := by rw [← hidentity]
    split
    next existing info reg₁ hclaim =>
      obtain ⟨old, hget, _, rfl, rfl⟩ := findAndClaim_eq_some hclaim
      have hsome : (reg.get existing).isSome := by rw [hget]; rfl
      have hinsert : (reg.insert existing { old with state := some .connected }).Numbered :=
        hreg.insert (hreg existing hsome) _
      split
      next hne =>
        exact (settles_initiation hinsert (hreg existing hsome) hst).after_claim hsome rfl hreg
      next heq =>
        rw [not_not] at heq
        subst heq
        exact (settles_initiation hinsert hid hst).after_claim hsome rfl hreg
    next reg₁ hclaim =>
      obtain ⟨rfl, _⟩ := findAndClaim_eq_none hclaim
      exact settles_initiation hreg hid hst
  | _ => exact .inl ⟨_, rfl⟩

theorem handleMsg_initiating (hal : c.Aligned) (hin : c.stateMachine.isInitiating = true)
    (hreg : reg.Numbered) (hid : c.ingressId < reg.serial)
    (h : c.handleMsg ignorePostPolicyRoutes accepted reg orders msg = some (c', reg', sent)) :
    sent.flatMap withdrawnBy = [] ∧ c'.held = .empty ∧ c'.Aligned ∧
      ((c' = c ∧ reg' = reg) ∨
        (c'.stateMachine.isInitiating = false ∧ Settles reg reg' c'.ingressId)) := by
  obtain ⟨st, ingressId, resolved⟩ := c
  cases st with
  | dumping s | updating s | terminated id => cases hin
  | initiating id =>
    obtain ⟨hal, hresolved⟩ := hal
    change id = ingressId at hal
    change resolved = false at hresolved
    subst hal hresolved
    have hstay (reg : Register) : resolveRebind ⟨.initiating id, id, false⟩ reg =
        (⟨.initiating id, id, false⟩, reg, []) :=
      resolveRebind_of_eq reg rfl rfl
    rcases handleMsg_cases h with
      ⟨sent₁, sent₂, hsent, hr, rfl⟩ | ⟨sent₁, reg₁, sent₂, _, hsent, rfl, hr, rfl⟩
    · cases (hstay reg).symm.trans hr
      rw [append_nil]
      exact ⟨hsent, rfl, ⟨rfl, rfl⟩, .inl ⟨rfl, rfl⟩⟩
    · unfold BmpState.processMsg at hsent hr
      rcases initiatingProcessMsg_cases id reg orders msg hreg hid with
        ⟨err, heq⟩ | ⟨s, reg₁, heq, hempty, _, hsettles⟩
      · simp only [heq] at hsent hr
        cases (hstay reg).symm.trans hr
        rw [append_nil]
        exact ⟨hsent, rfl, ⟨rfl, rfl⟩, .inl ⟨rfl, rfl⟩⟩
      · simp only [heq] at hsent hr
        have hheld : s.peerStates.ids = .empty := by rw [hempty]; rfl
        by_cases hsame : s.ingressId = id
        · have hsettled := resolveRebind_of_eq (c := ⟨.dumping s, id, false⟩) reg₁ rfl hsame
          cases hsettled.symm.trans hr
          rw [append_nil]
          exact ⟨hsent, hheld, ⟨hsame, rfl⟩, .inr ⟨rfl, hsame ▸ hsettles⟩⟩
        · have hadopted := resolveRebind_of_ne (c := ⟨.dumping s, id, false⟩) reg₁ rfl hsame
          cases hadopted.symm.trans hr
          refine ⟨?_, hheld, ⟨rfl, rfl⟩, .inr ⟨rfl, hsettles.remove hsame⟩⟩
          rw [flatMap_append, hsent]
          rfl

/-- The answer to a message that is not dropped, once the id is final. -/
theorem handleMsg_routingUpdate (ignorePostPolicyRoutes : Bool)
    (hresolved : c.rebindResolved = true) (hmsg : isPostPolicyRoutes msg = false) {update : Update}
    (h : c.stateMachine.processMsg reg orders msg = (.routingUpdate update, st, reg')) :
    c.handleMsg ignorePostPolicyRoutes true reg orders msg =
      some ({ c with stateMachine := st }, reg', [.outputStream, update]) := by
  have hsettled : resolveRebind { c with stateMachine := st } reg' =
      ({ c with stateMachine := st }, reg', []) := resolveRebind_of_resolved hresolved
  simp [handleMsg, processMsg, hmsg, h, hsettled]

theorem stateMachine_resolveRebind (c : Connection) (reg : Register) :
    (c.resolveRebind reg).1.stateMachine = c.stateMachine := by
  unfold resolveRebind
  split
  · rfl
  · split <;> rfl

/-- A message that is not dropped moves the state machine. -/
theorem stateMachine_handleMsg (hmsg : isPostPolicyRoutes msg = false)
    (h : c.handleMsg ignorePostPolicyRoutes true reg orders msg = some (c', reg', sent)) :
    c'.stateMachine = (c.stateMachine.processMsg reg orders msg).2.1 := by
  obtain ⟨⟨c₁, reg₁, sent₁⟩, hprocess, hrebind⟩ := Option.map_eq_some_iff.mp h
  have hc : c' = (c₁.resolveRebind reg₁).1 := (congrArg Prod.fst hrebind).symm
  rw [hc, stateMachine_resolveRebind]
  simp only [processMsg, hmsg, Bool.and_false, Bool.false_eq_true, if_false, Bool.not_true]
    at hprocess
  split at hprocess
  · cases hprocess
  next heq => cases hprocess; rw [heq]
  next heq => cases hprocess; rw [heq]

/-- The task panics only when the state machine does. -/
theorem handleMsg_eq_none (h : c.handleMsg ignorePostPolicyRoutes accepted reg orders msg = none) :
    (c.stateMachine.processMsg reg orders msg).1 = .panicked := by
  rw [handleMsg, Option.map_eq_none_iff, processMsg] at h
  split at h
  · cases h
  · split at h
    · cases h
    · split at h
      next heq => rw [heq]
      · cases h
      · cases h

end Connection

theorem BmpState.missing_of_panicked {reg : Register}
    (h : (st.processMsg reg orders msg).1 = .panicked) :
    ∃ k id, st.peerStates.ids.get k = some id ∧ reg.get id = none := by
  have hreported {res : MessageType} (h : res.reported = .panicked) : res = .panicked := by
    cases res <;> first | rfl | cases h
  cases st with
  | initiating id =>
    have hinit : (initiatingProcessMsg id reg orders msg).1 = .panicked := hreported h
    unfold initiatingProcessMsg at hinit
    split at hinit <;> cases hinit
  | dumping s | updating s => exact Session.missing_of_panicked (hreported h)
  | terminated id => cases h

end Rotonda.BmpIn
