import Rotonda.BmpIn.Connection
import Rotonda.RibUnit.History

/-!
A BMP session that ends while the next session of its router is starting.

The two tasks share the register and send their updates to the RIB unit, each in its own order.
The ending one flips its peers first, which lets the successor claim their ids, and withdraws
them afterwards.

* `successor_active_throughout_iff`: the routes of the successor are active in every state of a
  schedule exactly when no withdrawal of the ending session is handled while the successor has a
  route announced under one of its ids;
* `along_of_withdrawn_first`: it is enough that the withdrawal is handled first;
* `lateWithdrawal_hides_route`: the schedule in between loses a route for good.
-/

namespace Rotonda.BmpIn

open Lib.Runs

structure Handover (S : Type) where
  rib : Rib S
  ending : Teardown
  /-- The next session; `none` once its task panicked. -/
  successor : Option Connection
  endingSent : List Update
  successorSent : List Update
  /-- What the RIB unit has handled of the updates of the successor. -/
  handled : List RibEvent

inductive Move where
  | teardown (order : List PerPeerHeader)
  | receive (accepted : Bool) (orders : IterOrders) (msg : BmpMsg)
  | handleEnding
  | handleSuccessor

namespace Handover

variable {S : Type}
variable {st st' : Handover S} {cfg : RibConfig} {ignore : Bool} {m : Move} {es : List RibEvent}

def start (rib : Rib S) (old new : Connection) : Handover S := ⟨rib, .lost old, some new, [], [], []⟩

def register (st : Handover S) : Register := st.rib.ingressRegister

def withRegister (rib : Rib S) (reg : Register) : Rib S := { rib with ingressRegister := reg }

/-- Both tasks have sent what they have to send, and everything is handled. -/
def Settled (st : Handover S) : Prop :=
  st.endingSent = [] ∧ st.successorSent = [] ∧ st.ending = .ended

variable [PrefixStore S RotondaPaMap]

def step (cfg : RibConfig) (ignorePostPolicyRoutes : Bool) (st : Handover S) :
    Move → Option (Handover S)
  | .teardown order => (st.ending.step order st.register).map fun (ending, reg, sent) =>
    { st with
      rib := withRegister st.rib reg
      ending := ending
      endingSent := st.endingSent ++ sent }
  | .receive accepted orders msg => st.successor.map fun c =>
    match c.handleMsg ignorePostPolicyRoutes accepted st.register orders msg with
    | none => { st with successor := none }
    | some (c, reg, sent) =>
      { st with
        rib := withRegister st.rib reg
        successor := some c
        successorSent := st.successorSent ++ sent }
  | .handleEnding => match st.endingSent with
    | [] => none
    | u :: rest => some { st with rib := (st.rib.processUpdate cfg u).1, endingSent := rest }
  | .handleSuccessor => match st.successorSent with
    | [] => none
    | u :: rest => some
      { st with
        rib := (st.rib.processUpdate cfg u).1
        successorSent := rest
        handled := st.handled ++ cfg.events u }

/-- Every route that the successor has announced and not withdrawn is active. -/
def SuccessorActive (st : Handover S) : Prop :=
  ∀ k, latest k st.handled = some true → st.rib.ReportsActive k

/-- The move handles a withdrawal of the ending session while the successor has a route announced
under one of its ids. -/
def Clobbers (st : Handover S) : Move → Prop
  | .handleEnding => match st.endingSent with
    | .withdrawBulk entries :: _ =>
      ∃ k, k.mui ∈ entries.map Prod.fst ∧ latest k st.handled = some true
    | _ => False
  | _ => False

def IsTeardownUpdate : Update → Prop
  | .withdrawBulk _ | .upstreamStatusChange _ => True
  | _ => False

/-- The ending session has nothing in flight but what its teardown sends. -/
def OnlyTeardown (st : Handover S) : Prop := ∀ u ∈ st.endingSent, IsTeardownUpdate u

theorem isTeardownUpdate_of_step {order : List PerPeerHeader} {reg reg' : Register}
    {t t' : Teardown} {sent : List Update} (h : t.step order reg = some (t', reg', sent)) :
    ∀ u ∈ sent, IsTeardownUpdate u := by
  cases t with
  | lost c => cases h; simp
  | marking id todo marked =>
    cases todo <;> cases h <;> simp [IsTeardownUpdate]
  | withdrawn id => cases h; simp [IsTeardownUpdate]
  | ended => cases h

omit [PrefixStore S RotondaPaMap] in
theorem isTeardownUpdate_head {u : Update} {rest : List Update} (hst : st.OnlyTeardown)
    (hq : st.endingSent = u :: rest) : IsTeardownUpdate u :=
  hst u (by rw [hq]; exact List.mem_cons_self)

/-- What a move does to the RIB and to the history of the successor. -/
theorem step_cases (h : st.step cfg ignore m = some st') :
    ((∃ reg, st'.rib = withRegister st.rib reg) ∧ st'.handled = st.handled ∧
      (st.OnlyTeardown → st'.OnlyTeardown) ∧ m ≠ .handleEnding) ∨
    (∃ u rest, m = .handleEnding ∧ st.endingSent = u :: rest ∧ st'.endingSent = rest ∧
      st'.rib = (st.rib.processUpdate cfg u).1 ∧ st'.handled = st.handled) ∨
    (∃ u, m = .handleSuccessor ∧ st'.endingSent = st.endingSent ∧
      st'.rib = (st.rib.processUpdate cfg u).1 ∧ st'.handled = st.handled ++ cfg.events u) := by
  cases m with
  | teardown order =>
    obtain ⟨⟨t, reg, sent⟩, ht, rfl⟩ := Option.map_eq_some_iff.mp h
    refine .inl ⟨⟨reg, rfl⟩, rfl, fun hst u hu => ?_, nofun⟩
    rcases List.mem_append.mp hu with hu | hu
    · exact hst u hu
    · exact isTeardownUpdate_of_step ht u hu
  | receive accepted orders msg =>
    obtain ⟨c, _, rfl⟩ := Option.map_eq_some_iff.mp h
    cases c.handleMsg ignore accepted st.register orders msg with
    | none => exact .inl ⟨⟨st.register, rfl⟩, rfl, id, nofun⟩
    | some res => exact .inl ⟨⟨res.2.1, rfl⟩, rfl, id, nofun⟩
  | handleEnding =>
    simp only [step] at h
    cases hq : st.endingSent with
    | nil => simp [hq] at h
    | cons u rest =>
      rw [hq] at h
      cases h
      exact .inr (.inl ⟨u, rest, rfl, rfl, rfl, rfl, rfl⟩)
  | handleSuccessor =>
    simp only [step] at h
    cases hq : st.successorSent with
    | nil => simp [hq] at h
    | cons u rest =>
      rw [hq] at h
      cases h
      exact .inr (.inr ⟨u, rfl, rfl, rfl, rfl⟩)

theorem onlyTeardown_step (hst : st.OnlyTeardown) (h : st.step cfg ignore m = some st') :
    st'.OnlyTeardown := by
  rcases step_cases h with ⟨_, _, hkeep, _⟩ | ⟨u, rest, _, hq, hrest, _⟩ | ⟨_, _, hq, _⟩
  · exact hkeep hst
  · intro v hv
    rw [hrest] at hv
    exact hst v (by rw [hq]; exact List.mem_cons_of_mem _ hv)
  · intro v hv
    exact hst v (hq ▸ hv)

theorem handled_nil_along {first rest : List Move} (hst : st.handled = [])
    (hfirst : .handleSuccessor ∉ first) (hrest : .handleEnding ∉ rest) :
    Along (step cfg ignore) (fun st m => ¬ st.Clobbers m) st (first ++ rest) := by
  induction first generalizing st with
  | nil =>
    refine along_of_forall _ _ fun m hm st hclobbers => ?_
    cases m with
    | handleEnding => exact hrest hm
    | _ => exact hclobbers
  | cons m first ih =>
    intro st' h
    simp only [List.mem_cons, not_or] at hfirst
    refine ⟨?_, ih ?_ hfirst.2⟩
    · intro hclobbers
      unfold Clobbers at hclobbers
      split at hclobbers
      · split at hclobbers
        · obtain ⟨k, _, hk⟩ := hclobbers
          rw [hst] at hk
          cases hk
        · exact hclobbers
      · exact hclobbers
    · rcases step_cases h with ⟨_, hh, _⟩ | ⟨_, _, _, _, _, _, hh⟩ | ⟨_, hm, _⟩
      · rw [hh, hst]
      · rw [hh, hst]
      · exact absurd hm.symm hfirst.1

/-- A schedule is safe if the updates of the ending session are handled before those of the
successor. -/
theorem along_of_withdrawn_first (cfg : RibConfig) (ignore : Bool) (rib : Rib S)
    (old new : Connection) {first rest : List Move} (hfirst : .handleSuccessor ∉ first)
    (hrest : .handleEnding ∉ rest) :
    Along (step cfg ignore) (fun st m => ¬ st.Clobbers m) (start rib old new) (first ++ rest) :=
  handled_nil_along rfl hfirst hrest

variable [LawfulPrefixStore S]

/-- An event of the successor itself keeps its routes active. -/
theorem active_step (retain : Bool) {rib : Rib S} (e : RibEvent)
    (h : ∀ k, latest k es = some true → rib.ReportsActive k) :
    ∀ k, latest k (es ++ [e]) = some true → (rib.step retain e).ReportsActive k := by
  intro k hk
  rw [latest_snoc] at hk
  rw [Rib.reportsActive_step]
  cases hv : e.verdict k with
  | some up => simpa [hv] using hk
  | none => exact .inr (h k (by simpa [hv] using hk))

theorem active_run (retain : Bool) {rib : Rib S} (new : List RibEvent)
    (h : ∀ k, latest k es = some true → rib.ReportsActive k) :
    ∀ k, latest k (es ++ new) = some true → (run (Rib.step retain) rib new).ReportsActive k := by
  induction new generalizing rib es with
  | nil => simpa using h
  | cons e new ih =>
    rw [List.append_cons]
    exact ih (active_step retain e h)

theorem reportsActive_withdrawBulk_iff (cfg : RibConfig) (rib : Rib S)
    (entries : List (IngressId × Option IngressInfo)) (k : RouteKey) :
    (rib.processUpdate cfg (.withdrawBulk entries)).1.ReportsActive k ↔
      k.mui ∉ entries.map Prod.fst ∧ rib.ReportsActive k := by
  rw [Rib.processUpdate_eq_run, RibConfig.events, run_cons, run_nil, Rib.reportsActive_step]
  by_cases hk : k.mui ∈ entries.map Prod.fst
  · simp only [RibEvent.verdict, if_pos hk]
    simp [hk]
  · simp only [RibEvent.verdict, if_neg hk, Rib.Clears, false_and, false_or]
    simp [hk]

theorem successorActive_step (hst : st.OnlyTeardown) (hact : st.SuccessorActive)
    (hguard : ¬ st.Clobbers m) (h : st.step cfg ignore m = some st') : st'.SuccessorActive := by
  rcases step_cases h with ⟨⟨reg, hrib⟩, hhandled, _⟩ | ⟨u, rest, rfl, hq, _, hrib, hhandled⟩ |
    ⟨u, _, _, hrib, hhandled⟩
  · intro k hk
    rw [hhandled] at hk
    rw [hrib]
    exact hact k hk
  · intro k hk
    rw [hhandled] at hk
    rw [hrib]
    have hu := isTeardownUpdate_head hst hq
    cases u with
    | withdrawBulk entries =>
      refine (reportsActive_withdrawBulk_iff ..).mpr ⟨fun hmem => hguard ?_, hact k hk⟩
      rw [Clobbers, hq]
      exact ⟨k, hmem, hk⟩
    | upstreamStatusChange status => exact hact k hk
    | _ => exact hu.elim
  · rw [SuccessorActive, hrib, hhandled, Rib.processUpdate_eq_run]
    exact active_run _ _ hact

theorem not_successorActive_step (hclobbers : st.Clobbers m) (h : st.step cfg ignore m = some st') :
    ¬ st'.SuccessorActive := by
  rcases step_cases h with ⟨_, _, _, hm⟩ | ⟨u, rest, rfl, hq, _, hrib, hhandled⟩ | ⟨u, rfl, _⟩
  · cases m with
    | handleEnding => exact absurd rfl hm
    | _ => exact hclobbers.elim
  · rw [Clobbers, hq] at hclobbers
    cases u with
    | withdrawBulk entries =>
      obtain ⟨k, hmem, hk⟩ := hclobbers
      intro hact
      have hactive := hact k (by rw [hhandled]; exact hk)
      rw [hrib, reportsActive_withdrawBulk_iff] at hactive
      exact hactive.1 hmem
    | _ => exact hclobbers.elim
  · exact hclobbers.elim

/-- For every schedule of the two sessions: the routes of the successor are active in every state
reached exactly when no withdrawal of the ending session is handled while the successor has a
route announced under one of the withdrawn ids. -/
theorem successor_active_throughout_iff (cfg : RibConfig) (ignorePostPolicyRoutes : Bool)
    (rib : Rib S) (old new : Connection) (moves : List Move) :
    (∀ pre st, pre <+: moves →
        exec (step cfg ignorePostPolicyRoutes) (start rib old new) pre = some st →
        st.SuccessorActive) ↔
      Along (step cfg ignorePostPolicyRoutes) (fun st m => ¬ st.Clobbers m)
        (start rib old new) moves := by
  have hstart : (start rib old new).OnlyTeardown := nofun
  have honly : ∀ pre st, exec (step cfg ignorePostPolicyRoutes) (start rib old new) pre = some st →
      st.OnlyTeardown := fun pre st h =>
    exec_invariant _ OnlyTeardown (fun _ _ => True) (fun _ _ _ hst _ hs => onlyTeardown_step hst hs)
      hstart (along_of_forall _ _ fun _ _ _ => trivial) h
  rw [← exec_throughout_iff _ (fun st => st.OnlyTeardown ∧ st.SuccessorActive) _
    (fun st m st' hst hguard hs =>
      ⟨onlyTeardown_step hst.1 hs, successorActive_step hst.1 hst.2 hguard hs⟩)
    (fun st m st' _ hguard hs hst =>
      not_successorActive_step (not_not.mp hguard) hs hst.2)
    moves ⟨hstart, fun k hk => by cases hk⟩]
  exact ⟨fun hact pre st hpre hs => ⟨honly pre st hs, hact pre st hpre hs⟩,
    fun hall pre st hpre hs => (hall pre st hpre hs).2⟩

/-! ## A withdrawal that is handled first -/

end Handover

/-! ## A router that reconnects -/

namespace Reconnect

def addr : IpAddr := .v4 192 0 2 1

def pph : PerPeerHeader := .ofPeer

def initiation : BmpMsg := .initiationMessage ["router"] ["a router"] []

def peerUp : BmpMsg := .peerUpNotification ⟨pph, ⟨true, []⟩, false, [], [], none⟩

def announcement : BmpMsg := .routeMonitoring pph fun _ => .ok
  { isEor := none
    explodeAnnouncements := .ok [(Payload.slash8 10 0 .active).rxValue]
    explodeWithdrawals := .ok []
    announcementsVec := .ok [.ipv4Unicast] }

/-- A session with one peer, when the router connects a second time. -/
def scene : Option (Rib (MapStore RotondaPaMap) × Connection × Connection) := do
  let (unit, reg) := Register.new.register
  let (old, reg) := Connection.accept reg unit addr
  let (old, reg, _) ← old.handleMsg false true reg ⟨[2], []⟩ initiation
  let (old, reg, _) ← old.handleMsg false true reg ⟨[2], []⟩ peerUp
  let (new, reg) := Connection.accept reg unit addr
  return (Rib.new reg, old, new)

/-- The ending session flips its entry and its peer. -/
def marks : List Move := [.teardown [pph], .teardown [pph]]

def withdraws : List Move :=
  [.teardown [pph], .teardown [pph], .handleEnding, .handleEnding]

/-- The router comes back, its peer claims the id it had, and it announces a route. -/
def returns : List Move :=
  [.receive true ⟨[2, 3, 4], []⟩ initiation, .receive true ⟨[2, 3], []⟩ peerUp,
    .receive true ⟨[2, 3], [pph]⟩ announcement] ++ List.replicate 6 .handleSuccessor

def lateWithdrawal : List Move := marks ++ returns ++ withdraws

def key : RouteKey := ⟨false, .slash8 10, 3⟩

/-- The withdrawal of the ending session is handled last and hides the route of its successor. -/
theorem lateWithdrawal_hides_route :
    ∃ rib old new st, scene = some (rib, old, new) ∧
      exec (Handover.step ⟨true, none⟩ false) (.start rib old new) lateWithdrawal = some st ∧
      st.Settled ∧ ¬ st.SuccessorActive := by
  refine ⟨_, _, _, _, rfl, rfl, ⟨rfl, rfl, rfl⟩, fun hactive => ?_⟩
  exact absurd (hactive key (by decide)) (by decide)

/-- The same steps with the withdrawal first keep the route of the successor throughout. -/
theorem earlyWithdrawal_keeps_route :
    ∃ rib old new, scene = some (rib, old, new) ∧
      (∀ pre st, pre <+: (marks ++ withdraws) ++ returns →
        exec (Handover.step ⟨true, none⟩ false) (.start rib old new) pre = some st →
        st.SuccessorActive) ∧
      ∃ st, exec (Handover.step ⟨true, none⟩ false) (.start rib old new)
          ((marks ++ withdraws) ++ returns) = some st ∧
        st.Settled ∧ latest key st.handled = some true ∧ st.rib.ReportsActive key := by
  refine ⟨_, _, _, rfl, ?_, _, rfl, ⟨rfl, rfl, rfl⟩, by decide, by decide⟩
  refine (Handover.successor_active_throughout_iff ⟨true, none⟩ false _ _ _ _).mpr ?_
  exact Handover.along_of_withdrawn_first _ _ _ _ _ (by simp [marks, withdraws])
    (by simp [returns])

end Reconnect

end Rotonda.BmpIn
