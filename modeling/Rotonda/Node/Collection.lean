import Rotonda.Node.Exclusive

/-!
What the collector takes away.

An id is freed if two snapshots in a row had it disconnected and it is disconnected when its turn
comes.  In between it may have been claimed and torn down again, which the collector does not
notice.

* `sparesHeld_of_kept`: nothing that a live session holds is taken away;
* `collection_safe`: if no id is torn down again while the collector goes by it, what is freed was
  disconnected since the sweep before, and no parent goes before its children;
* `freed_early`: what happens otherwise.
-/

namespace Rotonda.Node

open Lib Lib.Ownership Lib.Runs BmpIn List Option Register

variable {S : Type} [PrefixStore S RotondaPaMap] {units : List IngressId} {cfg : RibConfig}

/-! ## Marks -/

def Thread.marks : Thread → SessionMove → Option IngressId
  | .busy _ (.call (.updateInfo id info) _), .proceed =>
    if info.state = some .disconnected then some id else none
  | .closing (.lost c), .teardown _ => some c.ingressId
  | .closing (.marking _ (id :: _) _), .teardown _ => some id
  | _, _ => none

theorem disconnected_of_deliver {hub : Hub S} {u : Update} {id : IngressId}
    (h : (hub.deliver cfg u).register.stateOf id = some .disconnected) :
    hub.register.stateOf id = some .disconnected := by
  rcases (hub.rib.touched_processUpdate cfg u).get id with heq | ⟨_, heq⟩
  · rw [← h]
    exact (stateOf_congr heq).symm
  · have hconn : (hub.deliver cfg u).register.stateOf id = some .connected := by
      change ((hub.rib.processUpdate cfg u).1.ingressRegister.get id).bind _ = _
      rw [heq]
      rfl
    cases hconn.symm.trans h

variable {reg : Register} {info : IngressInfo}

theorem disconnected_of_insert {id id' : IngressId} (hinfo : info.state = some .connected)
    (h : (reg.insert id' info).stateOf id = some .disconnected) :
    reg.stateOf id = some .disconnected := by
  rw [stateOf_insert] at h
  split at h
  · cases hinfo.symm.trans h
  · exact h

variable {order : List IngressId}

theorem disconnected_of_findAndClaim {found : IngressInfo → Bool} {id : IngressId}
    (h : (reg.findAndClaim order found).2.stateOf id = some .disconnected) :
    reg.stateOf id = some .disconnected := by
  unfold Register.findAndClaim at h
  split at h
  · exact h
  · exact disconnected_of_insert rfl h

theorem disconnected_of_updateInfo {id id' : IngressId}
    (h : (reg.updateInfo id' info).stateOf id = some .disconnected) :
    reg.stateOf id = some .disconnected ∨ id' = id ∧ info.state = some .disconnected := by
  rw [stateOf_updateInfo] at h
  split at h
  next heq =>
    subst heq
    rcases hstate : info.state with _ | st
    · rw [hstate] at h
      exact .inl h
    · rw [hstate] at h
      cases h
      exact .inr ⟨rfl, rfl⟩
  · exact .inl h

/-- A call marks an id, or it leaves no id disconnected that was not. -/
theorem disconnected_of_handle {hub : Hub S} {call : Call} {id : IngressId}
    (h : (hub.handle cfg call).2.register.stateOf id = some .disconnected) :
    hub.register.stateOf id = some .disconnected ∨
      ∃ info, call = .updateInfo id info ∧ info.state = some .disconnected := by
  cases call with
  | findExistingPeerAndClaim _ _ | findExistingBmpRouterAndClaim _ _ =>
    exact .inl (disconnected_of_findAndClaim h)
  | register | get _ => exact .inl h
  | updateInfo id' info =>
    rcases disconnected_of_updateInfo h with h | ⟨rfl, hstate⟩
    · exact .inl h
    · exact .inr ⟨info, rfl, hstate⟩
  | remove id' =>
    change (hub.register.remove id').stateOf id = _ at h
    rw [stateOf_remove] at h
    split at h
    · cases h
    · exact .inl h
  | updateData u => exact .inl (disconnected_of_deliver h)

/-- An id is disconnected after a move of a task only if it was, or if the move marks it. -/
theorem Thread.disconnected_of_step {t t' : Thread} {m : SessionMove} {hub hub' : Hub S}
    (hstep : t.step units cfg hub m = some (t', hub')) {id : IngressId}
    (h : hub'.register.stateOf id = some .disconnected) :
    hub.register.stateOf id = some .disconnected ∨ t.marks m = some id := by
  cases m with
  | proceed =>
    cases t with
    | busy shown p =>
      cases p with
      | ret c => cases c <;> cases hstep; exact .inl h
      | commit l p => cases hstep; exact .inl h
      | call call k =>
        cases hstep
        rcases disconnected_of_handle h with h | ⟨info, rfl, hstate⟩
        · exact .inl h
        · exact .inr (if_pos hstate)
    | _ => cases hstep
  | teardown order =>
    cases t with
    | closing t =>
      simp only [step] at hstep
      split at hstep
      · obtain ⟨⟨t', reg, sent⟩, ht, heq⟩ := map_eq_some_iff.mp hstep
        cases heq
        cases t with
        | lost c =>
          cases ht
          exact (disconnected_of_updateInfo h).imp_right fun h => congrArg some h.1
        | marking id' todo marked =>
          cases todo with
          | nil => cases ht; exact .inl (disconnected_of_deliver h)
          | cons p todo =>
            cases ht
            exact (disconnected_of_updateInfo h).imp_right fun h => congrArg some h.1
        | withdrawn id' => cases ht; exact .inl (disconnected_of_deliver h)
        | ended => cases ht
      · cases hstep
    | _ => cases hstep
  | connect unit addr =>
    cases t with
    | absent =>
      simp only [step] at hstep
      split at hstep <;> cases hstep
      exact .inl h
    | _ => cases hstep
  | receive ignore accepted orders msg =>
    cases t with
    | idle c =>
      simp only [step] at hstep
      split at hstep <;> cases hstep
      exact .inl h
    | _ => cases hstep
  | lose =>
    cases t with
    | idle c => cases hstep; exact .inl h
    | _ => cases hstep

/-! ## What live sessions hold -/

variable {gc : Gc}

namespace System

/-- The id of a live session, or of a peer of one. -/
def Held (sys : System S) (id : IngressId) : Prop :=
  (∃ n c, c ∈ (sys.sessions n).live ∧
    (id = c.stateMachine.ingressId ∨
      ∃ pph st, c.stateMachine.peerStates.get pph = some st ∧ id = st.ingressId)) ∨
  ∃ n t, sys.bgp.tasks n = some t ∧ t.live = true ∧ id = t.processor.sessionIngressId

/-- The collector is about to free the entry. -/
def Frees (sys : System S) (id : IngressId) : Prop :=
  sys.gc.target = some id ∧ sys.hub.register.stateOf id = some .disconnected

/-- A task marks an id as disconnected that the collector goes by. -/
def Flaps (sys : System S) : Move → Prop
  | .session n m => ∃ id ∈ sys.gc.remembered, (sys.sessions n).marks m = some id
  | _ => False

instance (sys : System S) (m : Move) : Decidable (sys.Flaps m) := match m with
  | .session n m =>
    inferInstanceAs (Decidable (∃ id ∈ sys.gc.remembered, (sys.sessions n).marks m = some id))
  | .bgp _ | .sweep _ => isFalse id

/-- Nothing of what a live session holds is taken away by the next step of the collector. -/
def SparesHeld (units : List IngressId) (cfg : RibConfig) (sys : System S) : Prop :=
  ∀ order sys', sys.step units cfg (.sweep order) = some sys' → ∀ id, sys.Held id →
    sys'.hub.register.get id = sys.hub.register.get id ∧
      ∀ k : RouteKey, k.mui = id → sys'.hub.rib.localRecord k = sys.hub.rib.localRecord k

variable {own : Owner → Dict IngressId Tenure} {sys sys' : System S}

theorem target_mem {id : IngressId} (h : gc.target = some id) : id ∈ gc.due := by
  match gc with
  | .waiting _ | .reclaimingPeers [] .. | .reclaimingRouters [] _ => cases h
  | .reclaimingPeers (_ :: _) .. | .reclaimingRouters (_ :: _) _ =>
    cases h
    exact mem_cons_self

/-- What a live session holds is owned by it, under a tenure that no disconnected entry fits, or by
the BGP sessions. -/
theorem Held.owned {id : IngressId} (hid : sys.Held id) (h : Kept units cfg own sys) :
    (∃ n t, (own (.session n)).get id = some t ∧ t.isMonitored = true) ∨
      (own .bgp).get id = some .bgp := by
  rcases hid with ⟨n, c, hc, hid⟩ | ⟨n, t, ht, _, rfl⟩
  · obtain ⟨hcarries, hruns⟩ := (h.threads n).visible c hc
    rcases hid with rfl | ⟨pph, st, hst, rfl⟩
    · rcases hruns with hruns | hruns
      · exact .inl ⟨n, _, hruns, rfl⟩
      · exact .inl ⟨n, _, hruns, rfl⟩
    · exact .inl ⟨n, _, hcarries pph st hst, rfl⟩
  · exact .inr (h.bgp.tasks ht).ingress

theorem sparesHeld_of_kept [LawfulPrefixStore S] (h : Kept units cfg own sys) :
    sys.SparesHeld units cfg := by
  intro order sys' hstep id hid
  have howned := hid.owned h
  simp only [step] at hstep
  split at hstep
  · rcases hgc : Gc.step order (sys.gc, sys.hub.rib) with ⟨gc, rib⟩
    rw [hgc] at hstep
    cases hstep
    refine ⟨?_, fun k hk => Gc.localRecord_step hgc fun hmem => ?_⟩
    · rcases Gc.register_step hgc with heq | ⟨id', info, htarget, hget, hstate, heq⟩
      · exact congrArg (·.get id) heq
      · change rib.ingressRegister.get id = _
        rw [heq, get_remove, if_neg]
        · rfl
        rintro rfl
        rcases howned with ⟨n, t, hown, ht⟩ | hown
        · have hfits := (h.apart.holds _ id t hown).2.2
          obtain ⟨info', hget', hkind⟩ := hfits.monitored ht
          cases hget.symm.trans hget'
          rw [hget'] at hfits
          exact not_fits_of_disconnected hstate hkind t hfits
        · have hcand := h.gc.remembered (mem_append_left _ (target_mem htarget))
          cases hown.symm.trans (not_bgp_of_candidate h (by simp) hcand)
    · have hgcOwns := h.gc.reclaimed hmem
      rw [hk] at hgcOwns
      rcases howned with ⟨n, t, hown, _⟩ | hown
      · cases h.apart.disjoint hown hgcOwns
      · cases h.apart.disjoint hown hgcOwns
  · cases hstep

def snapshots (sys : System S) : Move → Bool
  | .sweep _ => sys.gc.isWaiting
  | _ => false

end System

/-! ## What stayed disconnected -/

/-- The node, with the ids that were disconnected in every state since the last snapshot, and those
that were since the one before it. -/
structure Watched (S : Type) where
  sys : System S
  sinceLast : IngressId → Bool
  sinceBefore : IngressId → Bool

namespace Watched

def start (k : Nat) : Watched S := ⟨.start k, fun _ => false, fun _ => false⟩

def step (units : List IngressId) (cfg : RibConfig) (w : Watched S) (m : Move) :
    Option (Watched S) :=
  (w.sys.step units cfg m).map fun sys =>
    let now := fun id => decide (sys.hub.register.stateOf id = some .disconnected)
    if w.sys.snapshots m then ⟨sys, now, fun id => w.sinceLast id && now id⟩
    else ⟨sys, fun id => w.sinceLast id && now id, fun id => w.sinceBefore id && now id⟩

/-- The next step of the collector spares what live sessions hold, frees only what was disconnected
since the sweep before, and frees no router that is still a parent. -/
structure Safe (units : List IngressId) (cfg : RibConfig) (w : Watched S) : Prop where
  held : w.sys.SparesHeld units cfg
  idle {id : IngressId} (h : w.sys.Frees id) : w.sinceBefore id = true
  childless {id : IngressId} (h : w.sys.Frees id) (hid : id ∈ w.sys.gc.routers) {id' : IngressId}
    {info : IngressInfo} (hget : w.sys.hub.register.get id' = some info) :
    info.parentIngress ≠ some id

/-- What the collector goes by, and is disconnected, has been so since its snapshot. -/
structure Tidy (w : Watched S) : Prop where
  latest {id : IngressId} (h : id ∈ w.sys.gc.latest)
    (hd : w.sys.hub.register.stateOf id = some .disconnected) : w.sinceLast id = true
  due {id : IngressId} (h : id ∈ w.sys.gc.due)
    (hd : w.sys.hub.register.stateOf id = some .disconnected) : w.sinceBefore id = true
  childless {id : IngressId} (h : id ∈ w.sys.gc.routers)
    (hd : w.sys.hub.register.stateOf id = some .disconnected) {id' : IngressId}
    {info : IngressInfo} (hget : w.sys.hub.register.get id' = some info) :
    info.parentIngress ≠ some id

variable {w w' : Watched S} {own : Owner → Dict IngressId Tenure}

theorem routers_subset_due {id : IngressId} (h : id ∈ gc.routers) : id ∈ gc.due := by
  cases gc with
  | waiting prev => cases h
  | reclaimingPeers todo reclaimed routers next => exact mem_append_right _ h
  | reclaimingRouters todo next => exact h

omit [PrefixStore S RotondaPaMap] in
/-- Between two snapshots: lists get shorter, nothing that is listed becomes disconnected, and no
child is added to a router that is. -/
theorem Tidy.step (h : w.Tidy) {sys : System S}
    (hlatest : ∀ id ∈ sys.gc.latest, id ∈ w.sys.gc.latest)
    (hdue : ∀ id ∈ sys.gc.due, id ∈ w.sys.gc.due)
    (hrouters : ∀ id ∈ sys.gc.routers, id ∈ w.sys.gc.routers)
    (hback : ∀ id ∈ w.sys.gc.remembered,
      sys.hub.register.stateOf id = some .disconnected →
      w.sys.hub.register.stateOf id = some .disconnected)
    (hparents : ∀ id id' info, w.sys.hub.register.stateOf id = some .disconnected →
      sys.hub.register.get id' = some info → info.parentIngress = some id →
      ∃ old, w.sys.hub.register.get id' = some old ∧ old.parentIngress = some id) :
    Tidy ⟨sys,
      fun id => w.sinceLast id && decide (sys.hub.register.stateOf id = some .disconnected),
      fun id => w.sinceBefore id && decide (sys.hub.register.stateOf id = some .disconnected)⟩ where
  latest := by
    intro id hid hd
    have hold := hback id (mem_append_right _ (hlatest id hid)) hd
    rw [Bool.and_eq_true, decide_eq_true_iff]
    exact ⟨h.latest (hlatest id hid) hold, hd⟩
  due := by
    intro id hid hd
    have hold := hback id (mem_append_left _ (hdue id hid)) hd
    rw [Bool.and_eq_true, decide_eq_true_iff]
    exact ⟨h.due (hdue id hid) hold, hd⟩
  childless := by
    intro id hid hd id' info hget hparent
    have hid := hrouters id hid
    have hold := hback id (mem_append_left _ (routers_subset_due hid)) hd
    obtain ⟨old, hget', hparent'⟩ := hparents id id' info hold hget hparent
    exact h.childless hid hold hget' hparent'

theorem tidy_snapshot (h : w.Tidy) (hkept : Kept units cfg own w.sys) {prev : List IngressId}
    (hgc : w.sys.gc = .waiting prev) (horder : Listed w.sys.hub.register order) :
    let now := fun id => decide (w.sys.hub.register.stateOf id = some .disconnected)
    let info := w.sys.hub.register
    let gc := Gc.reclaimingPeers (info.peersToReclaim order prev) []
      (info.routersToReclaim order prev) (info.disconnected order)
    Tidy ⟨{ w.sys with gc := gc }, now, fun id => w.sinceLast id && now id⟩ := by
  intro now info gc
  have hprev {id : IngressId} (hid : id ∈ prev)
      (hd : w.sys.hub.register.stateOf id = some .disconnected) :
      (w.sinceLast id && now id) = true := by
    rw [Bool.and_eq_true, decide_eq_true_iff]
    refine ⟨h.latest ?_ hd, hd⟩
    rw [hgc]
    exact hid
  have hrouter {id : IngressId} (hid : id ∈ info.routersToReclaim order prev) :
      id ∉ info.parentsInUse order ∧ id ∈ prev := by
    have hcond := (mem_filter.mp hid).2
    simp only [Bool.and_eq_true, Bool.not_eq_true', decide_eq_true_iff,
      decide_eq_false_iff_not] at hcond
    exact ⟨hcond.1.2, hcond.2⟩
  refine ⟨fun _ hd => decide_eq_true hd, fun {id} hid hd => ?_,
    fun {id} hid _ {id' child} hget hparent => ?_⟩
  · rcases mem_append.mp hid with hid | hid
    · have hcond := (mem_filter.mp hid).2
      simp only [Bool.and_eq_true, decide_eq_true_iff] at hcond
      exact hprev hcond.2 hd
    · exact hprev (hrouter hid).2 hd
  · -- the snapshot has the child, and with it its parent
    have hlt := hkept.sound.numbered id' (by rw [hget]; rfl)
    refine (hrouter hid).1 (mem_filterMap.mpr ⟨id', horder id' hlt (by rw [hget]; rfl), ?_⟩)
    change (w.sys.hub.register.get id').bind _ = _
    rw [hget]
    exact hparent

theorem exists_of_isWaiting (h : gc.isWaiting = true) : ∃ prev, gc = .waiting prev := by
  cases gc with
  | waiting prev => exact ⟨prev, rfl⟩
  | _ => cases h

/-- The lists of the collector get shorter between two snapshots. -/
theorem lists_of_gc_step {gc' : Gc} {rib rib' : Rib S}
    (h : Gc.step order (gc, rib) = (gc', rib')) (hgc : gc.isWaiting = false) :
    (∀ id ∈ gc'.latest, id ∈ gc.latest) ∧ (∀ id ∈ gc'.due, id ∈ gc.due) ∧
      ∀ id ∈ gc'.routers, id ∈ gc.routers := by
  cases gc with
  | waiting prev => cases hgc
  | reclaimingPeers todo reclaimed routers next =>
    cases todo with
    | nil =>
      cases h
      exact ⟨fun _ h => h, fun _ h => h, fun _ h => h⟩
    | cons id todo =>
      simp only [Gc.step] at h
      split at h <;> cases h <;>
        exact ⟨fun _ h => h, fun _ h => mem_cons_of_mem _ h, fun _ h => h⟩
  | reclaimingRouters todo next =>
    cases todo with
    | nil =>
      cases h
      exact ⟨fun _ h => h, (fun _ h => by cases h), fun _ h => by cases h⟩
    | cons id todo =>
      cases h
      exact ⟨fun _ h => h, fun _ h => mem_cons_of_mem _ h,
        fun _ h => mem_cons_of_mem _ h⟩

theorem tidy_sweep (h : w.Tidy) (hkept : Kept units cfg own w.sys)
    (hstep : w.step units cfg (.sweep order) = some w') : w'.Tidy := by
  obtain ⟨sys, hsys, rfl⟩ := map_eq_some_iff.mp hstep
  simp only [System.step] at hsys
  split at hsys
  next horder =>
    rcases hgc : Gc.step order (w.sys.gc, w.sys.hub.rib) with ⟨gc', rib'⟩
    rw [hgc] at hsys
    cases hsys
    cases hwait : w.sys.gc.isWaiting with
    | true =>
      obtain ⟨prev, hprev⟩ := exists_of_isWaiting hwait
      rw [hprev] at hgc
      cases hgc
      simp only [System.snapshots, hwait, if_true]
      exact tidy_snapshot h hkept hprev horder
    | false =>
      obtain ⟨hlatest, hdue, hrouters⟩ := lists_of_gc_step hgc hwait
      simp only [System.snapshots, hwait]
      refine h.step hlatest hdue hrouters (fun id _ hd => ?_) fun id id' info _ hget hparent =>
        ⟨info, Gc.get_of_step hgc hget, hparent⟩
      obtain ⟨info, hget, hstate⟩ := bind_eq_some_iff.mp hd
      exact bind_eq_some_iff.mpr ⟨info, Gc.get_of_step hgc hget, hstate⟩
  · cases hsys

variable [LawfulPrefixStore S]

theorem tidy_step (h : w.Tidy) (hun : w.sys.hub.register.Unwrapped)
    (hkept : Kept units cfg own w.sys) {m : Move} (hguard : ¬ w.sys.Flaps m)
    (hstep : w.step units cfg m = some w') : w'.Tidy := by
  cases m with
  | sweep order => exact tidy_sweep h hkept hstep
  | session n m =>
    obtain ⟨sys, hsys, rfl⟩ := map_eq_some_iff.mp hstep
    obtain ⟨⟨t, hub⟩, ht, rfl⟩ := map_eq_some_iff.mp hsys
    have hhub := (System.kept_session hun hkept ht).1
    refine h.step (fun _ h => h) (fun _ h => h) (fun _ h => h) (fun id hid hd => ?_)
      fun id id' info hd hget hparent => ?_
    · refine (Thread.disconnected_of_step ht hd).resolve_right fun hmarks => ?_
      exact hguard ⟨id, hid, hmarks⟩
    · exact (hhub.parents hget hparent).resolve_right fun hne => hne hd
  | bgp m =>
    obtain ⟨sys, hsys, rfl⟩ := map_eq_some_iff.mp hstep
    obtain ⟨⟨b, hub⟩, hb, rfl⟩ := map_eq_some_iff.mp hsys
    obtain ⟨ω', hmoved, hkept'⟩ := System.kept_bgp hun hkept hb
    refine h.step (fun _ h => h) (fun _ h => h) (fun _ h => h) (fun id hid hd => ?_)
      fun id id' info _ hget hparent => ?_
    · have hget := System.get_of_bgpMoved hkept hmoved (by simp) (hkept.gc.remembered hid)
      exact (stateOf_congr hget).symm.trans hd
    · -- the entry of a BGP session has no parent
      cases hω : ω'.get id' with
      | none => exact ⟨info, (hmoved.frame hω).symm.trans hget, hparent⟩
      | some t =>
        cases hmoved.only hω
        rw [((hmoved.holds id' _ hω).2.2 info hget).1] at hparent
        cases hparent

theorem kept_step (hun : w.sys.hub.register.Unwrapped) {m : Move}
    (hkept : Kept units cfg own w.sys) (hstep : w.step units cfg m = some w') :
    ∃ own', Kept units cfg own' w'.sys := by
  obtain ⟨sys, hsys, rfl⟩ := map_eq_some_iff.mp hstep
  obtain ⟨own', hkept'⟩ := System.kept_step hun hkept hsys
  refine ⟨own', ?_⟩
  dsimp only
  split <;> exact hkept'

omit [LawfulPrefixStore S] in
theorem tidy_start (k : Nat) : (start k : Watched S).Tidy :=
  ⟨fun h => (by cases h), fun h => (by cases h), fun h => (by cases h)⟩

/-- In every schedule in which no task marks an id that the collector goes by and the counter of the
register does not wrap, every step of the collector is safe. -/
theorem collection_safe {k : Nat} {moves : List Move}
    (hguard : Along (step (unitIds k) cfg)
      (fun w m => w.sys.hub.register.Unwrapped ∧ ¬ w.sys.Flaps m) (start k : Watched S) moves)
    (h : exec (step (unitIds k) cfg) (start k) moves = some w) : w.Safe (unitIds k) cfg := by
  obtain ⟨⟨own, hkept⟩, htidy⟩ := exec_invariant (step (unitIds k) cfg)
    (fun w : Watched S => (∃ own, Kept (unitIds k) cfg own w.sys) ∧ w.Tidy) _
    (fun w m w' ⟨⟨_, hkept⟩, htidy⟩ ⟨hun, hflaps⟩ hstep =>
      ⟨kept_step hun hkept hstep, tidy_step htidy hun hkept hflaps hstep⟩)
    ⟨⟨_, System.kept_start k⟩, tidy_start k⟩ hguard h
  exact ⟨System.sparesHeld_of_kept hkept, fun hf => htidy.due (System.target_mem hf.1) hf.2,
    fun hf hid => htidy.childless hid hf.2⟩

end Watched

/-! ## A router that comes back between two sweeps -/

namespace Flap

open BmpIn.Reconnect (addr pph initiation peerUp)
open Twice (proceeds message arrives connects config)

/-- The connection is lost, and its teardown runs to the end; `marks` entries are marked. -/
def loses (n marks : Nat) : List Move :=
  .session n .lose :: List.replicate (marks + 2) (.session n (.teardown [pph]))

/-- The router comes back and takes the id it had. -/
def returns (n : Nat) : List Move :=
  .session n (.connect 1 addr) :: proceeds n 3 ++ message n initiation 8

def sweeps (steps : Nat) : List Move := List.replicate steps (.sweep [2, 3, 4])

def collects (moves : List Move) : Option (Watched (MapStore RotondaPaMap)) :=
  exec (Watched.step (unitIds 1) config) (.start 1) moves

/-- A peer is torn down before a sweep, comes back, and is torn down again before the next one. -/
def flap : List Move :=
  connects 0 ++ loses 0 2 ++ sweeps 3 ++ returns 1 ++ message 1 peerUp 6 ++ loses 1 2 ++ sweeps 1

/-- A router without peers is due, when it comes back with a peer and is torn down again. -/
def late : List Move :=
  arrives 0 ++ loses 0 1 ++ sweeps 3 ++ sweeps 1 ++ returns 1 ++ message 1 peerUp 6 ++ loses 1 2 ++
    sweeps 1

/-- A peer that is torn down and stays away for a sweep. -/
def away : List Move := connects 0 ++ loses 0 2 ++ sweeps 3 ++ sweeps 1

/-- The peer is freed although it was up since the sweep before, and the router although it is the
parent of an entry. -/
theorem freed_early :
    (∃ w, collects flap = some w ∧ w.sys.Frees 3 ∧ w.sinceBefore 3 = false ∧
      ¬ w.Safe (unitIds 1) config) ∧
    (∃ w, collects late = some w ∧ w.sys.Frees 2 ∧ 2 ∈ w.sys.gc.routers ∧
      (∃ info, w.sys.hub.register.get 4 = some info ∧ info.parentIngress = some 2) ∧
      ¬ w.Safe (unitIds 1) config) := by
  have hflap : (collects flap).map (fun w =>
      (w.sys.gc.target, w.sys.hub.register.stateOf 3, w.sinceBefore 3)) =
      some (some 3, some .disconnected, false) := by decide +kernel
  have hlate : (collects late).map (fun w =>
      (w.sys.gc.target, w.sys.hub.register.stateOf 2, w.sys.gc.routers,
        (w.sys.hub.register.get 4).map (·.parentIngress))) =
      some (some 2, some .disconnected, [2], some (some 2)) := by decide +kernel
  obtain ⟨w, hw, hlook⟩ := map_eq_some_iff.mp hflap
  obtain ⟨htarget, hlook⟩ := Prod.mk.inj hlook
  obtain ⟨hstate, hsince⟩ := Prod.mk.inj hlook
  obtain ⟨w', hw', hlook'⟩ := map_eq_some_iff.mp hlate
  obtain ⟨htarget', hlook'⟩ := Prod.mk.inj hlook'
  obtain ⟨hstate', hlook'⟩ := Prod.mk.inj hlook'
  obtain ⟨hrouters, hparent⟩ := Prod.mk.inj hlook'
  obtain ⟨info, hget, hinfo⟩ := map_eq_some_iff.mp hparent
  have hmem : 2 ∈ w'.sys.gc.routers := by
    rw [hrouters]
    exact mem_singleton_self 2
  refine ⟨⟨w, hw, ⟨htarget, hstate⟩, hsince, fun hsafe => ?_⟩,
    w', hw', ⟨htarget', hstate'⟩, hmem, ⟨info, hget, hinfo⟩, fun hsafe => ?_⟩
  · cases hsince.symm.trans (hsafe.idle ⟨htarget, hstate⟩)
  · exact hsafe.childless ⟨htarget', hstate'⟩ hmem hget hinfo

/-- A peer that stays away is freed, and was disconnected since the sweep before. -/
theorem away_safe :
    (collects away).map (fun w => (w.sys.gc.target, w.sys.hub.register.stateOf 3)) =
        some (some 3, some .disconnected) ∧
      ∀ w, collects away = some w → w.Safe (unitIds 1) config :=
  ⟨by decide +kernel, fun _ h => Watched.collection_safe
    (along_of_test _ (g := fun w m => w.sys.hub.register.Unwrapped && !decide (w.sys.Flaps m))
      (fun _ _ h => by simpa using h) (by decide +kernel)) h⟩

end Flap

end Rotonda.Node
