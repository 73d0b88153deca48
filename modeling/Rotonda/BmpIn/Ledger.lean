import Rotonda.BmpIn.Change
import Mathlib.Data.List.Dedup

/-!
The accounts of one BMP connection: which ingress ids it puts in its peer states, withdraws and
marks as disconnected, from the accept to the end of its teardown.

Other tasks use the register between any two steps of the connection.  Of them it is only assumed
that they leave the entries alone which the connection owns.

* `Ledger.Sound`: what was put is what was withdrawn and what is still held, each time once, and
  the same for the marks;
* `Ledger.teardown_exact`: every teardown is complete and exact.
-/

namespace Rotonda.BmpIn

open Lib Lib.Runs List Option Nat Register

/-- The step marks the id: it is disconnected after it and was not before. -/
def flips (reg reg' : Register) (id : IngressId) : Bool :=
  reg.stateOf id != some .disconnected && reg'.stateOf id == some .disconnected

inductive Task where
  | serving (c : Connection)
  | closing (t : Teardown)

structure Ledger where
  task : Task
  register : Register
  /-- The ids that were put in a peer state, once for each time. -/
  put : List IngressId
  withdrawn : List IngressId
  /-- The ids that the connection has marked, once for each time. -/
  marked : List IngressId

inductive LedgerMove where
  | receive (ignorePostPolicyRoutes accepted : Bool) (orders : IterOrders) (msg : BmpMsg)
  | lose
  | teardown (order : List PerPeerHeader)
  | others (reg : Register)

namespace Ledger

def start (reg : Register) (unitIngressId : IngressId) (addr : IpAddr) : Ledger :=
  let (c, reg) := Connection.accept reg unitIngressId addr
  ⟨.serving c, reg, [], [], []⟩

/-- Enter a step of the connection. -/
def record (l : Ledger) (task : Task) (reg : Register) (put withdrawn : List IngressId) : Ledger where
  task := task
  register := reg
  put := l.put ++ put
  withdrawn := l.withdrawn ++ withdrawn
  marked := l.marked ++ (l.put ++ put).dedup.filter (flips l.register reg)

def step (l : Ledger) : LedgerMove → Option Ledger
  | .receive ignorePostPolicyRoutes accepted orders msg =>
    match l.task with
    | .serving c =>
      (c.handleMsg ignorePostPolicyRoutes accepted l.register orders msg).map
        fun (c', reg, sent) =>
          l.record (.serving c') reg (putBy msg c.held c'.held) (sent.flatMap withdrawnBy)
    | .closing _ => none
  | .lose =>
    match l.task with
    | .serving c => some { l with task := .closing (.lost c) }
    | .closing _ => none
  | .teardown order =>
    match l.task with
    | .serving _ => none
    | .closing t =>
      (t.step order l.register).map fun (t, reg, sent) =>
        l.record (.closing t) reg [] (sent.flatMap withdrawnBy)
  | .others reg => some { l with register := reg }

end Ledger

/-! ## What a connection owns -/

namespace Task

/-- The entries that other tasks leave alone: that of the connection and those of its peers that
are not marked yet. -/
def Owns : Task → IngressId → Prop
  | serving c, id => id = c.ingressId ∨ ∃ k, c.held.get k = some id
  | closing (.lost c), id => ∃ k, c.held.get k = some id
  | closing (.marking _ todo _), id => id ∈ todo
  | closing (.withdrawn _), _ | closing .ended, _ => False

def Ordered : Task → LedgerMove → Prop
  | serving c, .receive _ _ orders _ => c.stateMachine.peerStates.Covers orders.peers
  | closing (.lost c), .teardown order => c.stateMachine.peerStates.Covers order
  | _, _ => True

def Unmarked : Task → List IngressId → Prop
  | serving c, ids | closing (.lost c), ids =>
    ∃ order, c.held.IterOrder order ∧ ids = c.held.flat (fun _ id => [id]) order
  | closing (.marking _ todo _), ids => ids = todo
  | closing (.withdrawn _), ids | closing .ended, ids => ids = []

def Owed : Task → List IngressId → Prop
  | closing (.marking _ todo marked), ids => ids = marked ++ todo
  | t, ids => t.Unmarked ids

/-- Nothing is held any more: the session was terminated or its teardown is over. -/
def ended : Task → Bool
  | serving ⟨.terminated _, _, _⟩ | closing .ended => true
  | _ => false

end Task

/-- The other tasks respect what the connection owns, and the counter of the register has not
wrapped when the connection may take an id. -/
def Ledger.Fair (l : Ledger) (mv : LedgerMove) : Prop :=
  l.task.Ordered mv ∧ match mv with
  | .receive .. => l.register.Unwrapped
  | .others reg => reg.Numbered ∧ l.register.serial ≤ reg.serial ∧ ∀ id, l.task.Owns id →
      l.register.stateOf id = some .connected → reg.stateOf id = some .connected
  | _ => True

/-! ## The invariant -/

namespace Ledger

variable {reg reg' : Register} {id : IngressId} {put ids withdrawn marked : List IngressId}
  {l l' : Ledger} {c c' : Connection} {orders : IterOrders} {order : List PerPeerHeader}

def ConnectionSound (l : Ledger) : Prop :=
  match l.task with
  | .serving c => c.Aligned ∧ c.ingressId < l.register.serial ∧ c.ingressId ∉ l.put ∧
      if c.stateMachine.isInitiating then l.put = []
      else l.register.stateOf c.ingressId = some .connected
  | .closing (.lost c) => c.ingressId < l.register.serial ∧ c.ingressId ∉ l.put
  | .closing _ => True

structure Sound (l : Ledger) : Prop where
  numbered : l.register.Numbered
  marks : ∃ ids, l.task.Unmarked ids ∧ ids.Nodup ∧
    (∀ id ∈ ids, l.register.stateOf id = some .connected) ∧ l.put.Perm (l.marked ++ ids)
  withdrawals : ∃ ids, l.task.Owed ids ∧ l.put.Perm (l.withdrawn ++ ids)
  connection : l.ConnectionSound

/-! ### Marks -/

theorem flips_of_stateOf_eq (h : reg'.stateOf id = reg.stateOf id) : flips reg reg' id = false := by
  rw [flips, h, bne, Bool.not_and_self]

theorem flips_of_connected (h : reg'.stateOf id = some .connected) : flips reg reg' id = false := by
  simp [flips, h]

theorem flips_of_marked (h : reg.stateOf id = some .connected)
    (h' : reg'.stateOf id = some .disconnected) : flips reg reg' id = true := by
  simp [flips, h, h']

/-- The marks of a step, counted among the ids that were put. -/
theorem filter_flips_perm (hnodup : ids.Nodup) (hsub : ∀ id ∈ ids, id ∈ put)
    (hflips : ∀ id ∈ put, flips reg reg' id = true ↔ id ∈ ids) :
    (put.dedup.filter (flips reg reg')).Perm ids := by
  refine (perm_ext_iff_of_nodup ((nodup_dedup put).filter _) hnodup).mpr fun id => ?_
  rw [mem_filter, mem_dedup]
  constructor
  · rintro ⟨hput, hflip⟩
    exact (hflips id hput).mp hflip
  · intro hid
    exact ⟨hsub id hid, (hflips id (hsub id hid)).mpr hid⟩

theorem filter_flips_perm_nil (h : ∀ id ∈ put, flips reg reg' id = false) :
    (put.dedup.filter (flips reg reg')).Perm [] := by
  refine .of_eq (filter_eq_nil_iff.mpr fun id hid => ?_)
  rw [h id (mem_dedup.mp hid)]
  exact Bool.false_ne_true

/-! ### Messages -/

/-- An id that was not connected is taken, and nothing else changes. -/
structure Claims (reg reg' : Register) (id : IngressId) : Prop where
  free : reg.stateOf id ≠ some .connected
  connected : reg'.stateOf id = some .connected
  others : ∀ id', id' ≠ id → reg'.stateOf id' = reg.stateOf id'
  serial_le : reg.serial ≤ reg'.serial
  numbered : reg'.Numbered

theorem claims_of_claimOrRegister (hreg : reg.Numbered) (hun : reg.Unwrapped)
    {order : List IngressId}
    {query : IngressInfo} {existing : Option IngressId}
    (hclaim : claimOrRegister reg order query = (id, existing, reg'))
    (hquery : query.state = some .connected) : Claims reg (reg'.updateInfo id query) id := by
  have hconnected : (reg'.updateInfo id query).stateOf id = some .connected := by
    rw [stateOf_updateInfo, if_pos rfl, hquery]
    rfl
  have hothers (id' : IngressId) (hid' : id' ≠ id) :
      (reg'.updateInfo id query).stateOf id' = reg'.stateOf id' := by
    rw [stateOf_updateInfo, if_neg hid']
  rcases claimOrRegister_cases hclaim with ⟨old, hget, hmatch, _, rfl⟩ | ⟨rfl, _, rfl⟩
  · have hsome : (reg.get id).isSome := by rw [hget]; rfl
    refine ⟨?_, hconnected, fun id' hid' => ?_, le_refl _, ?_⟩
    · rw [Register.matchesPeer, Bool.and_eq_true, bne_iff_ne] at hmatch
      rw [Register.stateOf, hget]
      exact hmatch.1
    · rw [hothers id' hid', stateOf_insert, if_neg hid']
    · exact (hreg.insert (hreg id hsome) _).updateInfo (hreg id hsome) _
  · refine ⟨fun h => ?_, hconnected, fun id' hid' => hothers id' hid', le_succ _, ?_⟩
    · have hsome := isSome_of_stateOf h
      rw [hreg.get_register_fst hun] at hsome
      cases hsome
    · exact hreg.register.updateInfo (register_lt _) _

/-- A step of the connection keeps the accounts if the ids that it marks are those that it no
longer holds unmarked, and the ids that it withdraws those that it no longer owes. -/
theorem sound_record {task : Task} {all owed : List IngressId} (marks : List IngressId)
    (hput : l.put ++ put = all) (hnum : reg.Numbered) (hids : task.Unmarked ids) (hnodup : ids.Nodup)
    (hconn : ∀ id ∈ ids, reg.stateOf id = some .connected)
    (hflips : (all.dedup.filter (flips l.register reg)).Perm marks)
    (hmarks : all.Perm (l.marked ++ (marks ++ ids))) (howed : task.Owed owed)
    (hwithdrawn : all.Perm (l.withdrawn ++ (withdrawn ++ owed)))
    (hc : (l.record task reg put withdrawn).ConnectionSound) :
    (l.record task reg put withdrawn).Sound := by
  subst hput
  refine ⟨hnum, ⟨ids, hids, hnodup, hconn, hmarks.trans ?_⟩, ⟨owed, howed, hwithdrawn.trans ?_⟩, hc⟩
  · rw [← append_assoc]
    exact ((hflips.symm).append_left l.marked).append_right ids
  · rw [← append_assoc]
    exact .refl _

theorem sound_change (h : l.Sound) (hun : l.register.Unwrapped) (htask : l.task = .serving c)
    (hin : c.stateMachine.isInitiating = false)
    (hchange : Change c.held l.register c'.held reg put withdrawn)
    (hid : c'.ingressId = c.ingressId) (hal : c'.Aligned)
    (hin' : c'.stateMachine.isInitiating = false) :
    (l.record (.serving c') reg put withdrawn).Sound := by
  obtain ⟨hnum, ⟨ids, hids, hnodup, hconn, hmarks⟩, ⟨owed, howed, hwithdrawn⟩, hc⟩ := h
  rw [htask] at hids howed
  rw [ConnectionSound, htask] at hc
  obtain ⟨order, horder, rfl⟩ := hids
  obtain ⟨order', horder', rfl⟩ := howed
  obtain ⟨_, hbelow, hnot, hc⟩ := hc
  rw [hin, if_neg Bool.false_ne_true] at hc
  -- what the connection part asks of the new ledger
  have hconnection (hserial : l.register.serial ≤ reg.serial) (hput : c.ingressId ∉ put)
      (hstate : reg.stateOf c.ingressId = some .connected) :
      (l.record (.serving c') reg put withdrawn).ConnectionSound := by
    refine ⟨hal, ?_, ?_, ?_⟩
    · rw [hid]
      exact lt_of_lt_of_le hbelow hserial
    · rw [hid]
      exact fun hmem => (mem_append.mp hmem).elim hnot hput
    · rw [hin', hid, if_neg Bool.false_ne_true]
      exact hstate
  generalize hheld : c'.held = held at hchange
  cases hchange with
  | quiet =>
    exact sound_record [] (append_nil _) hnum ⟨order, hheld ▸ horder, rfl⟩ (hheld ▸ hnodup)
      (hheld ▸ hconn) (filter_flips_perm_nil fun _ _ => flips_of_stateOf_eq rfl) (hheld ▸ hmarks)
      ⟨order', hheld ▸ horder', rfl⟩ (hheld ▸ hwithdrawn) (hconnection (le_refl _) (by simp) hc)
  | @puts k id _ query _ reg' hnew hclaim hquery =>
    have hclaims := claims_of_claimOrRegister hnum hun hclaim hquery
    have hneq {id' : IngressId} (h : l.register.stateOf id' = some .connected) : id' ≠ id := by
      rintro rfl
      exact hclaims.free h
    have hflat {order : List PerPeerHeader} (horder : c.held.IterOrder order) :
        c'.held.flat (fun _ id => [id]) (k :: order) =
          id :: c.held.flat (fun _ id => [id]) order := by
      rw [hheld, Dict.flat_insert horder hnew]
      rfl
    refine sound_record [] rfl hclaims.numbered
      ⟨k :: order, hheld ▸ horder.insert hnew id, rfl⟩ ?_ ?_ ?_ ?_
      ⟨k :: order', hheld ▸ horder'.insert hnew id, rfl⟩ ?_
      (hconnection hclaims.serial_le ?_ ?_)
    · rw [hflat horder, nodup_cons]
      exact ⟨fun hmem => hclaims.free (hconn id hmem), hnodup⟩
    · rw [hflat horder]
      intro id' hid'
      rcases mem_cons.mp hid' with rfl | hid'
      · exact hclaims.connected
      · rw [hclaims.others id' (hneq (hconn id' hid'))]
        exact hconn id' hid'
    · refine filter_flips_perm_nil fun id' _ => ?_
      by_cases heq : id' = id
      · exact flips_of_connected (heq ▸ hclaims.connected)
      · exact flips_of_stateOf_eq (hclaims.others id' heq)
    · rw [hflat horder, nil_append]
      exact (perm_append_singleton id l.put).trans
        ((hmarks.cons id).trans perm_middle.symm)
    · rw [hflat horder', nil_append]
      exact (perm_append_singleton id l.put).trans
        ((hwithdrawn.cons id).trans perm_middle.symm)
    · rw [mem_singleton]
      exact hneq hc
    · rw [hclaims.others _ (hneq hc)]
      exact hc
  | takes es hkeys hes =>
    have hflat {order : List PerPeerHeader} (horder : c.held.IterOrder order) :
        ∃ order', c'.held.IterOrder order' ∧ (c.held.flat (fun _ id => [id]) order).Perm
          (es.map Prod.snd ++ c'.held.flat (fun _ id => [id]) order') := by
      rw [hheld, List.map_eq_flatMap]
      exact Dict.flat_foldl_erase horder hes hkeys
    obtain ⟨rest, hrest, hperm⟩ := hflat horder
    obtain ⟨rest', hrest', hperm'⟩ := hflat horder'
    have hsplit := nodup_append.mp (hperm.nodup_iff.mp hnodup)
    have htaken (id : IngressId) (hid : id ∈ es.map Prod.snd) :
        l.register.stateOf id = some .connected ∧ id ∈ l.put := by
      have hmem := hperm.mem_iff.mpr (mem_append_left _ hid)
      exact ⟨hconn id hmem, hmarks.mem_iff.mpr (mem_append_right _ hmem)⟩
    have hkept (id : IngressId) (hid : id ∉ es.map Prod.snd) :
        (l.register.disconnectAll (es.map Prod.snd)).stateOf id = l.register.stateOf id := by
      rw [stateOf_disconnectAll, if_neg hid]
    have hserial : (l.register.disconnectAll (es.map Prod.snd)).serial = l.register.serial :=
      serial_disconnectAll ..
    refine sound_record (es.map Prod.snd) (append_nil _) (hnum.disconnectAll ?_) ⟨rest, hrest, rfl⟩
      hsplit.2.1 ?_ (filter_flips_perm hsplit.1 (fun id hid => (htaken id hid).2) fun id _ => ?_)
      (hmarks.trans (hperm.append_left _)) ⟨rest', hrest', rfl⟩
      (hwithdrawn.trans (hperm'.append_left _)) (hconnection (le_of_eq hserial.symm) (by simp) ?_)
    · intro id hid
      exact hnum id (isSome_of_stateOf (htaken id hid).1)
    · intro id hid
      rw [hkept id fun htaken => hsplit.2.2 id htaken id hid rfl]
      exact hconn id (hperm.mem_iff.mpr (mem_append_right _ hid))
    · constructor
      · intro hflip
        by_contra hnot
        rw [flips_of_stateOf_eq (hkept id hnot)] at hflip
        cases hflip
      · intro hid
        refine flips_of_marked (htaken id hid).1 ?_
        rw [stateOf_disconnectAll, if_pos hid]
    · rw [hkept _ fun hmem => hnot (htaken _ hmem).2]
      exact hc

theorem sound_initiating (h : l.Sound) (htask : l.task = .serving c)
    (hin : c.stateMachine.isInitiating = true) (hheld : c'.held = .empty) (hal : c'.Aligned)
    (hcases : (c' = c ∧ reg = l.register) ∨
      (c'.stateMachine.isInitiating = false ∧ Connection.Settles l.register reg c'.ingressId)) :
    (l.record (.serving c') reg [] []).Sound := by
  have hc := h.connection
  rw [ConnectionSound, htask] at hc
  obtain ⟨_, hbelow, _, hc⟩ := hc
  rw [hin, if_pos rfl] at hc
  have hput : l.put ++ [] = [] := by rw [hc, append_nil]
  -- nothing was put, so nothing was marked or withdrawn
  have hnone : [].Perm (l.marked ++ []) ∧ [].Perm (l.withdrawn ++ []) := by
    obtain ⟨ids, _, _, _, hmarks⟩ := h.marks
    obtain ⟨owed, _, hwithdrawn⟩ := h.withdrawals
    rw [hc] at hmarks hwithdrawn
    rw [(append_eq_nil_iff.mp hmarks.nil_eq.symm).1,
      (append_eq_nil_iff.mp hwithdrawn.nil_eq.symm).1]
    exact ⟨.nil, .nil⟩
  have hunmarked : (Task.serving c').Unmarked [] :=
    ⟨[], hheld ▸ Dict.iterOrder_empty, rfl⟩
  rcases hcases with ⟨rfl, rfl⟩ | ⟨hin', hsettles⟩
  · refine sound_record [] hput h.numbered hunmarked nodup_nil (by simp) .nil hnone.1 hunmarked
      hnone.2 ⟨hal, hbelow, ?_, ?_⟩
    · simp [record, hc]
    · rw [hin, if_pos rfl]
      simp [record, hc]
  · refine sound_record [] hput hsettles.numbered hunmarked nodup_nil (by simp) .nil hnone.1
      hunmarked hnone.2 ⟨hal, ?_, ?_, ?_⟩
    · exact hsettles.serial_eq.symm ▸ hsettles.below
    · simp [record, hc]
    · rw [hin', if_neg Bool.false_ne_true]
      exact hsettles.connected

theorem sound_receive {ignorePostPolicyRoutes accepted : Bool} {msg : BmpMsg} (h : l.Sound)
    (hfair : l.Fair (.receive ignorePostPolicyRoutes accepted orders msg))
    (hstep : l.step (.receive ignorePostPolicyRoutes accepted orders msg) = some l') :
    l'.Sound := by
  rw [step] at hstep
  obtain ⟨horder, hun⟩ := hfair
  cases htask : l.task with
  | closing t =>
    rw [htask] at hstep
    cases hstep
  | serving c =>
    rw [htask] at hstep horder
    obtain ⟨⟨c', reg, sent⟩, hhandle, rfl⟩ := map_eq_some_iff.mp hstep
    have hc := h.connection
    rw [ConnectionSound, htask] at hc
    obtain ⟨hal, hbelow, _, _⟩ := hc
    dsimp only
    cases hin : c.stateMachine.isInitiating with
    | false =>
      obtain ⟨hchange, hid, hal', hin'⟩ := Connection.handleMsg_session hal hin horder hhandle
      exact sound_change h hun htask hin hchange hid hal' hin'
    | true =>
      obtain ⟨hsent, hheld, hal', hcases⟩ :=
        Connection.handleMsg_initiating hal hin h.numbered hbelow hhandle
      have hbefore : c.held = .empty := by
        unfold Connection.held
        cases hst : c.stateMachine with
        | initiating id => rfl
        | dumping s | updating s | terminated id =>
          rw [hst] at hin
          cases hin
      rw [hsent, hheld, hbefore, putBy_same]
      exact sound_initiating h htask hin hheld hal' hcases

/-! ### The end of the connection -/

theorem peerIds_perm {order' : List PerPeerHeader} (h : c.held.IterOrder order)
    (h' : c.stateMachine.peerStates.Covers order') :
    (c.held.flat (fun _ id => [id]) order).Perm (Teardown.peerIds c order') := by
  have hcovers : c.held.Covers order' := by
    refine ⟨h'.1, fun k hk => h'.2 k ?_⟩
    rw [Connection.held, PeerStates.ids, Dict.get_map, Option.isSome_map] at hk
    exact hk
  refine (Dict.flat_perm_select h hcovers).trans ?_
  rw [Connection.held, PeerStates.ids, Dict.select_map, ← List.map_eq_flatMap, List.map_map]
  exact .refl _

theorem sound_lost (h : l.Sound) (htask : l.task = .closing (.lost c))
    (horder : c.stateMachine.peerStates.Covers order) :
    (l.record (.closing (.marking c.ingressId (Teardown.peerIds c order) []))
      (l.register.updateInfo c.ingressId (.withState .disconnected)) [] []).Sound := by
  obtain ⟨hnum, ⟨ids, hids, hnodup, hconn, hmarks⟩, ⟨owed, howed, hwithdrawn⟩, hc⟩ := h
  rw [htask] at hids howed
  rw [ConnectionSound, htask] at hc
  obtain ⟨iter, hiter, rfl⟩ := hids
  obtain ⟨iter', hiter', rfl⟩ := howed
  have hperm := peerIds_perm hiter horder
  -- the connection is no peer of its own
  have hkept (id : IngressId) (hput : id ∈ l.put) :
      (l.register.updateInfo c.ingressId (.withState .disconnected)).stateOf id =
        l.register.stateOf id := by
    rw [stateOf_updateInfo, if_neg]
    rintro rfl
    exact hc.2 hput
  refine sound_record [] (append_nil _) (hnum.updateInfo hc.1 _) rfl (hperm.nodup_iff.mp hnodup)
    (fun id hid => ?_) (filter_flips_perm_nil fun id hput => flips_of_stateOf_eq (hkept id hput))
    (hmarks.trans (hperm.append_left _)) rfl
    (hwithdrawn.trans ((peerIds_perm hiter' horder).append_left _)) trivial
  have hmem := hperm.mem_iff.mpr hid
  rw [hkept id (hmarks.mem_iff.mpr (mem_append_right _ hmem))]
  exact hconn id hmem

theorem sound_marking {p : IngressId} {todo : List IngressId} (h : l.Sound)
    (htask : l.task = .closing (.marking id (p :: todo) marked)) :
    (l.record (.closing (.marking id todo (marked ++ [p])))
      (l.register.updateInfo p (.withState .disconnected)) [] []).Sound := by
  obtain ⟨hnum, ⟨ids, hids, hnodup, hconn, hmarks⟩, ⟨owed, howed, hwithdrawn⟩, _⟩ := h
  rw [htask] at hids howed
  cases hids
  cases howed
  obtain ⟨hnot, hnodup⟩ := nodup_cons.mp hnodup
  have hp := hconn p mem_cons_self
  have hstate (id' : IngressId) (hne : id' ≠ p) :
      (l.register.updateInfo p (.withState .disconnected)).stateOf id' = l.register.stateOf id' := by
    rw [stateOf_updateInfo, if_neg hne]
  refine sound_record [p] (append_nil _) (hnum.updateInfo (hnum p (isSome_of_stateOf hp)) _) rfl
    hnodup (fun id' hid' => ?_) ?_ hmarks rfl (hwithdrawn.trans (.of_eq ?_)) trivial
  · rw [hstate id' fun heq => hnot (heq ▸ hid')]
    exact hconn id' (mem_cons_of_mem _ hid')
  · refine filter_flips_perm (nodup_singleton p) ?_ fun id' _ => ?_
    · intro id' hid'
      rw [mem_singleton.mp hid']
      exact hmarks.mem_iff.mpr (mem_append_right _ mem_cons_self)
    · rw [mem_singleton]
      constructor
      · intro hflip
        by_contra hne
        rw [flips_of_stateOf_eq (hstate id' hne)] at hflip
        cases hflip
      · rintro rfl
        refine flips_of_marked hp ?_
        rw [stateOf_updateInfo, if_pos rfl]
        rfl
  · simp

theorem sound_teardown (h : l.Sound) (hfair : l.Fair (.teardown order))
    (hstep : l.step (.teardown order) = some l') : l'.Sound := by
  rw [step] at hstep
  obtain ⟨horder, _⟩ := hfair
  cases htask : l.task with
  | serving c =>
    rw [htask] at hstep
    cases hstep
  | closing t =>
    rw [htask] at hstep horder
    obtain ⟨⟨t', reg, sent⟩, hteardown, rfl⟩ := map_eq_some_iff.mp hstep
    have hquiet : (l.put.dedup.filter (flips l.register l.register)).Perm [] :=
      filter_flips_perm_nil fun _ _ => flips_of_stateOf_eq rfl
    have ⟨hnum, ⟨ids, hids, hnodup, hconn, hmarks⟩, ⟨owed, howed, hwithdrawn⟩, _⟩ := h
    rw [htask] at hids howed
    cases t with
    | lost c =>
      cases hteardown
      exact sound_lost h htask horder
    | marking id todo marked =>
      cases todo with
      | cons p todo =>
        cases hteardown
        exact sound_marking h htask
      | nil =>
        cases hteardown
        cases hids
        cases howed
        exact sound_record [] (append_nil _) hnum rfl hnodup hconn hquiet hmarks rfl
          (by simpa [withdrawnBy, Function.comp_def] using hwithdrawn) trivial
    | withdrawn id =>
      cases hteardown
      cases hids
      cases howed
      exact sound_record [] (append_nil _) hnum rfl hnodup hconn hquiet hmarks rfl hwithdrawn trivial
    | ended => cases hteardown

theorem mem_flat_held
    (h : id ∈ c.held.flat (fun _ id => [id]) order) : ∃ k, c.held.get k = some id := by
  obtain ⟨k, _, hk⟩ := mem_flatMap.mp h
  cases hget : c.held.get k with
  | none =>
    rw [hget] at hk
    cases hk
  | some id' =>
    rw [hget] at hk
    exact ⟨k, by rw [mem_singleton.mp hk, hget]⟩

/-- What is held unmarked is owned. -/
theorem owns_of_unmarked {t : Task} (h : t.Unmarked ids) (hid : id ∈ ids) : t.Owns id := by
  cases t with
  | serving c =>
    obtain ⟨order, _, rfl⟩ := h
    exact .inr (mem_flat_held hid)
  | closing t =>
    cases t with
    | lost c =>
      obtain ⟨order, _, rfl⟩ := h
      exact mem_flat_held hid
    | marking _ todo _ =>
      cases h
      exact hid
    | withdrawn _ | ended =>
      cases h
      cases hid

theorem sound_others (h : l.Sound) (hfair : l.Fair (.others reg)) :
    ({ l with register := reg } : Ledger).Sound := by
  obtain ⟨_, hnum, hserial, hkeeps⟩ := hfair
  obtain ⟨_, ⟨ids, hids, hnodup, hconn, hmarks⟩, howed, hc⟩ := h
  refine ⟨hnum, ⟨ids, hids, hnodup, fun id hid => ?_, hmarks⟩, howed, ?_⟩
  · exact hkeeps id (owns_of_unmarked hids hid) (hconn id hid)
  · unfold ConnectionSound at hc ⊢
    dsimp only
    split at hc
    next c htask =>
      obtain ⟨hal, hbelow, hnot, hc⟩ := hc
      refine ⟨hal, lt_of_lt_of_le hbelow hserial, hnot, ?_⟩
      split at hc
      next hin =>
        rw [if_pos hin]
        exact hc
      next hin =>
        rw [if_neg hin]
        refine hkeeps _ ?_ hc
        rw [htask]
        exact .inl rfl
    · exact ⟨lt_of_lt_of_le hc.1 hserial, hc.2⟩
    · trivial

theorem sound_lose (h : l.Sound) (htask : l.task = .serving c) :
    ({ l with task := .closing (.lost c) } : Ledger).Sound := by
  obtain ⟨hnum, hmarks, howed, hc⟩ := h
  rw [htask] at hmarks howed
  rw [ConnectionSound, htask] at hc
  exact ⟨hnum, hmarks, howed, hc.2.1, hc.2.2.1⟩

theorem sound_step {mv : LedgerMove} (h : l.Sound) (hfair : l.Fair mv)
    (hstep : l.step mv = some l') : l'.Sound := by
  cases mv with
  | receive ignorePostPolicyRoutes accepted orders msg => exact sound_receive h hfair hstep
  | teardown order => exact sound_teardown h hfair hstep
  | others reg =>
    cases hstep
    exact sound_others h hfair
  | lose =>
    rw [step] at hstep
    cases htask : l.task with
    | serving c =>
      rw [htask] at hstep
      cases hstep
      exact sound_lose h htask
    | closing t =>
      rw [htask] at hstep
      cases hstep

theorem sound_start (hreg : reg.Numbered) (unitIngressId : IngressId)
    (addr : IpAddr) : (start reg unitIngressId addr).Sound where
  numbered := hreg.register.updateInfo (register_lt _) _
  marks := ⟨[], ⟨[], Dict.iterOrder_empty, rfl⟩, nodup_nil, by simp, .nil⟩
  withdrawals := ⟨[], ⟨[], Dict.iterOrder_empty, rfl⟩, .nil⟩
  connection := ⟨⟨rfl, rfl⟩, register_lt _, not_mem_nil, rfl⟩

/-! ## Exact teardowns -/

/-- What a Peer Down for a known peer must do. -/
structure ExactPeerDown (c : Connection) (reg : Register) (pph : PerPeerHeader)
    (c' : Connection) (reg' : Register) (update : Update) : Prop where
  /-- No peer of the identity is left, and the others are as they were. -/
  peers : ∀ k, c'.stateMachine.peerStates.get k =
    if k.sameIdentity pph then none else c.stateMachine.peerStates.get k
  once : (withdrawnBy update).Nodup
  all : ∀ id, id ∈ withdrawnBy update ↔
    ∃ k st, k.sameIdentity pph = true ∧ c.stateMachine.peerStates.get k = some st ∧
      st.ingressId = id
  register : ∀ id, reg'.stateOf id =
    if id ∈ withdrawnBy update then some .disconnected else reg.stateOf id

/-- Ids that are held once are taken out once. -/
theorem nodup_of_change {held held' : Holdings} (h : Change held reg held' reg' put withdrawn)
    (horder : held.IterOrder order)
    (hnodup : (held.flat (fun _ id => [id]) order).Nodup) : withdrawn.Nodup := by
  cases h with
  | quiet | puts => exact nodup_nil
  | takes es hkeys hes =>
    obtain ⟨rest, _, hperm⟩ := Dict.flat_foldl_erase (f := fun _ id => [id]) horder hes hkeys
    rw [← List.map_eq_flatMap] at hperm
    exact (nodup_append.mp (hperm.nodup_iff.mp hnodup)).1

section

variable (h : l.Sound) (htask : l.task = .serving c) (ignorePostPolicyRoutes : Bool)
include h htask

theorem exactPeerDown_of_sound (horder : c.stateMachine.peerStates.Covers orders.peers)
    {pph k : PerPeerHeader} (hk : k.sameIdentity pph = true)
    (hknown : (c.stateMachine.peerStates.get k).isSome) :
    ∃ c' reg' update, c.handleMsg ignorePostPolicyRoutes true l.register orders
        (.peerDownNotification pph) = some (c', reg', [.outputStream, update]) ∧
      ExactPeerDown c l.register pph c' reg' update := by
  have hc := h.connection
  rw [ConnectionSound, htask] at hc
  obtain ⟨ids, hids, hnodup, _, _⟩ := h.marks
  rw [htask] at hids
  obtain ⟨iter, hiter, rfl⟩ := hids
  -- Dumping and Updating handle the message alike
  obtain ⟨dumping, s, hst⟩ : ∃ dumping s, c.stateMachine = Session.wrap dumping s := by
    cases hst : c.stateMachine with
    | dumping s => exact ⟨true, s, rfl⟩
    | updating s => exact ⟨false, s, rfl⟩
    | initiating id | terminated id =>
      rw [hst] at hknown
      cases hknown
  have hpeers : c.stateMachine.peerStates = s.peerStates := by rw [hst, Session.peerStates_wrap]
  have hin : c.stateMachine.isInitiating = false := by
    rw [hst]
    cases dumping <;> rfl
  rw [hpeers] at hknown
  obtain ⟨update, peers, hdown, hget, hmem⟩ :=
    s.peerDown_known l.register orders (hpeers ▸ horder) hk hknown
  have hprocess : c.stateMachine.processMsg l.register orders (.peerDownNotification pph) =
      (.routingUpdate update, Session.wrap dumping { s with peerStates := peers },
        l.register.disconnectAll (withdrawnBy update)) := by
    rw [hst]
    cases dumping <;>
      simp [BmpState.processMsg, Session.processMsg, hdown, MessageType.reported, Session.wrap]
  have hresolved : c.rebindResolved = true := by
    rw [hc.1.2, hin]
    rfl
  have hhandle := Connection.handleMsg_routingUpdate ignorePostPolicyRoutes hresolved rfl hprocess
  refine ⟨_, _, update, hhandle, ?_, ?_, ?_, ?_⟩
  · intro k
    rw [hpeers, ← hget]
    cases dumping <;> rfl
  · obtain ⟨hchange, _⟩ := Connection.handleMsg_session hc.1 hin horder hhandle
    have honce := nodup_of_change hchange hiter hnodup
    simpa [withdrawnBy] using honce
  · intro id
    rw [hpeers, hmem]
  · intro id
    exact stateOf_disconnectAll ..

theorem isSome_handleMsg_of_sound (accepted : Bool) (orders : IterOrders) (msg : BmpMsg) :
    (c.handleMsg ignorePostPolicyRoutes accepted l.register orders msg).isSome := by
  rw [← ne_none_iff_isSome]
  intro hnone
  obtain ⟨k, id, hget, hmissing⟩ :=
    BmpState.missing_of_panicked (Connection.handleMsg_eq_none hnone)
  obtain ⟨ids, hids, _, hconn, _⟩ := h.marks
  rw [htask] at hids
  obtain ⟨iter, hiter, rfl⟩ := hids
  have hmem : id ∈ c.held.flat (fun _ id => [id]) iter := by
    have hk : k ∈ iter := (hiter.2 k).mpr (by rw [Connection.held, hget]; rfl)
    exact mem_flatMap.mpr ⟨k, hk, by rw [Connection.held, hget]; exact mem_singleton_self _⟩
  have hsome := isSome_of_stateOf (hconn id hmem)
  rw [hmissing] at hsome
  cases hsome

end

theorem settled_of_sound (h : l.Sound) (hended : l.task.ended = true) :
    l.put.Perm l.withdrawn ∧ l.put.Perm l.marked := by
  have hnone {ids : List IngressId} (hids : l.task.Unmarked ids) : ids = [] := by
    unfold Task.ended at hended
    split at hended
    next htask =>
      rw [htask] at hids
      obtain ⟨order, _, rfl⟩ := hids
      simp [Dict.flat, Connection.held, BmpState.peerStates, PeerStates.ids]
    next htask =>
      rw [htask] at hids
      exact hids
    · cases hended
  have howes {ids : List IngressId} (hids : l.task.Owed ids) : ids = [] := by
    unfold Task.Owed at hids
    split at hids
    next htask =>
      rw [htask] at hended
      cases hended
    · exact hnone hids
  obtain ⟨ids, hids, _, _, hmarks⟩ := h.marks
  obtain ⟨owed, howed, hwithdrawn⟩ := h.withdrawals
  rw [hnone hids, append_nil] at hmarks
  rw [howes howed, append_nil] at hwithdrawn
  exact ⟨hwithdrawn, hmarks⟩

theorem exec_marking (order : List PerPeerHeader) (id : IngressId) (todo : List IngressId)
    (htask : l.task = .closing (.marking id todo marked)) :
    ∃ l', exec step l (List.replicate (todo.length + 2) (.teardown order)) = some l' ∧
      l'.task = .closing .ended := by
  induction todo generalizing l marked with
  | nil => exact ⟨_, by simp [List.replicate, exec, step, htask, Teardown.step, record]; rfl, rfl⟩
  | cons p todo ih =>
    obtain ⟨l', hl', hended⟩ := ih (l := l.record (.closing (.marking id todo (marked ++ [p])))
      (l.register.updateInfo p (.withState .disconnected)) [] []) rfl
    refine ⟨l', ?_, hended⟩
    rw [length_cons, succ_add, replicate_succ, exec_cons_eq_some]
    exact ⟨_, by simp [step, htask, Teardown.step], hl'⟩

theorem exec_closing (htask : l.task = .serving c) (order : List PerPeerHeader) :
    ∃ l', exec step l (.lose :: List.replicate ((Teardown.peerIds c order).length + 3)
        (.teardown order)) = some l' ∧ l'.task = .closing .ended := by
  let lost : Ledger := { l with task := .closing (.lost c) }
  obtain ⟨l', hl', hended⟩ := exec_marking order c.ingressId (Teardown.peerIds c order)
    (l := lost.record (.closing (.marking c.ingressId (Teardown.peerIds c order) []))
      (l.register.updateInfo c.ingressId (.withState .disconnected)) [] []) rfl
  refine ⟨l', ?_, hended⟩
  rw [exec_cons_eq_some]
  refine ⟨lost, by simp [step, htask, lost], ?_⟩
  rw [replicate_succ, exec_cons_eq_some]
  exact ⟨_, by simp [step, lost, Teardown.step], hl'⟩

theorem step_termination (h : l.Sound) (htask : l.task = .serving c)
    (hin : c.stateMachine.inSession = true) (ignorePostPolicyRoutes : Bool) (orders : IterOrders) :
    ∃ l', l.step (.receive ignorePostPolicyRoutes true orders .terminationMessage) = some l' ∧
      l'.task.ended = true := by
  obtain ⟨⟨c', reg, sent⟩, hhandle⟩ := isSome_iff_exists.mp
    (isSome_handleMsg_of_sound h htask ignorePostPolicyRoutes true orders .terminationMessage)
  have hst : ∃ id, c'.stateMachine = .terminated id := by
    rw [Connection.stateMachine_handleMsg rfl hhandle]
    cases hst : c.stateMachine with
    | initiating id | terminated id =>
      rw [hst] at hin
      cases hin
    | dumping s | updating s =>
      refine ⟨s.ingressId, ?_⟩
      simp only [BmpState.processMsg, Session.processMsg, Session.terminate]
      split <;> rfl
  obtain ⟨id, hst⟩ := hst
  refine ⟨l.record (.serving c') reg _ _, by rw [step, htask]; dsimp only; rw [hhandle]; rfl, ?_⟩
  obtain ⟨st, _, _⟩ := c'
  cases hst
  rfl

/-- What holds of the teardowns in a state of the connection. -/
structure Exact (l : Ledger) : Prop where
  never_panics : ∀ c, l.task = .serving c → ∀ ignorePostPolicyRoutes accepted orders msg,
    (c.handleMsg ignorePostPolicyRoutes accepted l.register orders msg).isSome
  peerDown : ∀ c, l.task = .serving c → ∀ ignorePostPolicyRoutes orders pph k,
    c.stateMachine.peerStates.Covers orders.peers → k.sameIdentity pph = true →
    (c.stateMachine.peerStates.get k).isSome →
    ∃ c' reg' update, c.handleMsg ignorePostPolicyRoutes true l.register orders
        (.peerDownNotification pph) = some (c', reg', [.outputStream, update]) ∧
      ExactPeerDown c l.register pph c' reg' update
  /-- Each time an id was put, it is withdrawn once and marked once. -/
  settled : l.task.ended = true → l.put.Perm l.withdrawn ∧ l.put.Perm l.marked
  /-- The loss of the connection ends it in any state, and so does a Termination in a session. -/
  closes : ∀ c, l.task = .serving c → ∀ order, ∃ l', exec step l (.lose ::
      List.replicate ((Teardown.peerIds c order).length + 3) (.teardown order)) = some l' ∧
    l'.task.ended = true
  terminates : ∀ c, l.task = .serving c → c.stateMachine.inSession = true →
    ∀ ignorePostPolicyRoutes orders, ∃ l',
      l.step (.receive ignorePostPolicyRoutes true orders .terminationMessage) = some l' ∧
      l'.task.ended = true

/-- From the accept on, whatever the messages and whatever the other tasks do in between, the
teardowns are complete and exact. -/
theorem teardown_exact {reg : Register} (hreg : reg.Numbered) (unitIngressId : IngressId)
    (addr : IpAddr) {moves : List LedgerMove} {l : Ledger}
    (hfair : Along step Fair (start reg unitIngressId addr) moves)
    (hrun : exec step (start reg unitIngressId addr) moves = some l) : l.Exact := by
  have h : l.Sound := exec_invariant step Sound Fair
    (fun _ _ _ hs hG hstep => sound_step hs hG hstep) (sound_start hreg unitIngressId addr) hfair hrun
  constructor
  · intro c htask ignorePostPolicyRoutes accepted orders msg
    exact isSome_handleMsg_of_sound h htask ignorePostPolicyRoutes accepted orders msg
  · intro c htask ignorePostPolicyRoutes orders pph k horder hk hknown
    exact exactPeerDown_of_sound h htask ignorePostPolicyRoutes horder hk hknown
  · exact settled_of_sound h
  · intro c htask order
    obtain ⟨l', hl', hended⟩ := exec_closing htask order
    exact ⟨l', hl', by rw [hended]; rfl⟩
  · intro c htask hin ignorePostPolicyRoutes orders
    exact step_termination h htask hin ignorePostPolicyRoutes orders

/-! ## A session with one peer -/

namespace OnePeer

def peer : PerPeerHeader := .ofPeer

def receive (msg : BmpMsg) : LedgerMove := .receive false true ⟨[], [peer]⟩ msg

def up (pph : PerPeerHeader) : LedgerMove :=
  receive (.peerUpNotification ⟨pph, ⟨true, []⟩, false, [], [], none⟩)

/-- The peer comes up and the connection is lost. -/
def moves : List LedgerMove :=
  [receive (.initiationMessage [] [] []), up peer, .lose] ++ List.replicate 4 (.teardown [peer])

theorem covers_of_ne {peers : PeerStates} (h : ∀ k, k ≠ peer → peers.get k = none) :
    peers.Covers [peer] := by
  refine ⟨by decide, fun k hk => ?_⟩
  by_contra hmem
  rw [mem_singleton] at hmem
  rw [h k hmem] at hk
  cases hk

theorem fair_moves : Along step Fair (start .new 0 (.v4 192 0 2 1)) moves := by
  refine along_cons step rfl ⟨covers_of_ne fun _ _ => rfl, le_of_ble_eq_true rfl⟩ ?_
  refine along_cons step rfl ⟨covers_of_ne fun _ _ => rfl, le_of_ble_eq_true rfl⟩ ?_
  refine along_cons step rfl ⟨trivial, trivial⟩ ?_
  refine along_cons step rfl ⟨covers_of_ne fun k hk => Dict.get_insert_of_ne _ hk, trivial⟩ ?_
  refine along_cons step rfl ⟨trivial, trivial⟩ ?_
  refine along_cons step rfl ⟨trivial, trivial⟩ ?_
  exact along_cons step rfl ⟨trivial, trivial⟩ trivial

theorem exact_moves : ∃ l, exec step (start .new 0 (.v4 192 0 2 1)) moves = some l ∧
    l.put = [2] ∧ l.Exact := by
  refine ⟨_, rfl, rfl, teardown_exact ?_ 0 (.v4 192 0 2 1) fair_moves rfl⟩
  intro id hid
  cases hid

def postPolicy : PerPeerHeader := { peer with isPostPolicy := true }

/-- The other tasks take `2 ^ 32 - 1` ids, so that the counter comes back to the id of the peer when
its post-policy view comes up: two peer states hold it, and it is marked once. -/
theorem wrapped_marked_once : ∃ l l', exec step (start .new 0 (.v4 192 0 2 1))
      [receive (.initiationMessage [] [] []), up peer] = some l ∧
    exec step l ([.others { l.register with serial := l.register.serial + (2 ^ 32 - 1) },
      up postPolicy, .lose] ++ List.replicate 5 (.teardown [peer, postPolicy])) = some l' ∧
    l'.put = [2, 2] ∧ l'.marked = [2] ∧ ¬ l'.Exact := by
  refine ⟨_, _, rfl, rfl, rfl, rfl, fun h => ?_⟩
  have hlength := (h.settled rfl).2.length_eq
  cases hlength

end OnePeer

end Ledger

end Rotonda.BmpIn
