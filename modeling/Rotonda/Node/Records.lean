import Rotonda.Node.Collection

/-!
Records and entries: what the stores hold and what the register knows of.

BMP tasks store routes under connected peers, and the collector removes the records of what it
frees.  A BGP session that ends, or is replaced, frees its entry and only withdraws its records.

* `records_entered`: between two sweeps every ingress with a record has an entry, if no BGP session
  frees an entry that has records and no update of one comes after its entry is gone;
* `orphaned`: a session that comes and goes leaves a record without an entry.
-/

namespace Rotonda.Node

open Lib Lib.Ownership Lib.Runs BmpIn List Option

variable {S : Type} [PrefixStore S RotondaPaMap] {units : List IngressId} {cfg : RibConfig}

/-- Every ingress with a record has an entry that is not a router's, or was freed by the collector
and is about to be cleared. -/
def Filed (gc : Gc) (rib : Rib S) : Prop :=
  ∀ id, rib.Stores id →
    (∃ info, rib.ingressRegister.get id = some info ∧ info.ingressType ≠ some .bmp) ∨
      id ∈ gc.reclaimed

namespace System

/-- A BGP session is about to free an entry that has records, or an update of one brings routes of an
ingress without an entry. -/
def Orphans (sys : System S) : Move → Prop
  | .bgp (.act n (.proceed order)) => ∃ t id, sys.bgp.tasks n = some t ∧
      t.processor.Frees (sys.bgp.shared sys.hub) order id ∧
      (sys.hub.register.get id).isSome ∧ sys.hub.rib.Stores id
  | .bgp (.handle n) => ∃ t u, sys.bgp.tasks n = some t ∧ t.pending.head? = some u ∧
      ∃ id ∈ u.payloads.map Payload.ingressId, sys.hub.register.get id = none
  | _ => False

variable {own : Owner → Dict IngressId Tenure} {sys sys' : System S}

/-! ## BMP tasks -/

theorem filed_session [LawfulPrefixStore S] (h : Filed sys.gc sys.hub.rib)
    (hun : sys.hub.register.Unwrapped) (hkept : Kept units cfg own sys) {n : Nat} {m : SessionMove}
    {t : Thread} {hub : Hub S}
    (hstep : (sys.sessions n).step units cfg sys.hub m = some (t, hub)) : Filed sys.gc hub.rib := by
  obtain ⟨hhub, hbgp, _⟩ := kept_session hun hkept hstep
  -- an entry that is not a router's stays, and does not become one
  have hkeep {id : IngressId} {old : IngressInfo} (hold : sys.hub.register.get id = some old)
      (htype : old.ingressType ≠ some .bmp) :
      ∃ info, hub.register.get id = some info ∧ info.ingressType ≠ some .bmp := by
    cases hget : hub.register.get id with
    | none => exact absurd (hhub.entries hold hget).1 htype
    | some info =>
      refine ⟨info, rfl, ?_⟩
      rcases hkept.kinds id old hold with hmon | hown
      · rw [hhub.types hold hget (by rcases hmon with h | h <;> rw [h] <;> rfl)]
        exact htype
      · rcases ((hbgp id _ hown).2.2 info hget).2 with h | h <;> rw [h] <;> exact nofun
  intro id hstores
  rcases hhub.stores hstores with hstores | ⟨old, hold, htype⟩
  · rcases h id hstores with ⟨old, hold, htype⟩ | hmem
    · exact .inl (hkeep hold htype)
    · exact .inr hmem
  · exact .inl (hkeep hold (by rw [htype]; exact nofun))

/-! ## BGP sessions -/

variable {id : IngressId}

omit [PrefixStore S RotondaPaMap] in
/-- Entries of BGP sessions are no routers'. -/
theorem not_bmp_of_bgpMoved {ω ω' : Dict IngressId Tenure} {hub hub' : Hub S}
    (hmoved : BgpMoved units ω ω' hub hub') {old info : IngressInfo}
    (hold : hub.register.get id = some old) (htype : old.ingressType ≠ some .bmp)
    (hget : hub'.register.get id = some info) : info.ingressType ≠ some .bmp := by
  cases hω : ω'.get id with
  | none =>
    cases hold.symm.trans ((hmoved.frame hω).symm.trans hget)
    exact htype
  | some t =>
    cases hmoved.only hω
    rcases ((hmoved.holds id _ hω).2.2 info hget).2 with h | h <;> rw [h] <;> exact nofun

theorem isSome_deliver {hub : Hub S} (u : Update)
    (h : (hub.register.get id).isSome) : ((hub.deliver cfg u).register.get id).isSome := by
  rcases (hub.rib.touched_processUpdate cfg u).get id with heq | ⟨_, heq⟩
  · exact heq.symm ▸ h
  · change ((hub.rib.processUpdate cfg u).1.ingressRegister.get id).isSome
    rw [heq]
    rfl

/-- What a move of a BGP session leaves: records under ingresses that had an entry and have one. -/
theorem stores_bgp [LawfulPrefixStore S] {m : BgpMove} {b : Bgp} {hub : Hub S}
    (hstep : sys.bgp.step cfg sys.hub m = some (b, hub)) (hguard : ¬ sys.Orphans (.bgp m))
    (hstores : hub.rib.Stores id) :
    (sys.hub.rib.Stores id ∨ (sys.hub.register.get id).isSome ∧ ∃ n t u, sys.bgp.tasks n = some t ∧
      u ∈ t.pending ∧ id ∈ u.announcers) ∧
      ((sys.hub.register.get id).isSome → (hub.register.get id).isSome) := by
  cases m with
  | accept n negotiated =>
    simp only [Bgp.step] at hstep
    split at hstep <;> cases hstep
    exact ⟨.inl hstores, fun h => h⟩
  | act n input =>
    obtain ⟨t, ht, hstep⟩ := bind_eq_some_iff.mp hstep
    split at hstep
    · cases hstep
    · obtain ⟨⟨p, sh, sent, abort⟩, hp, heq⟩ := map_eq_some_iff.mp hstep
      cases heq
      refine ⟨.inl hstores, fun hsome => ?_⟩
      change (sh.ingresses.get id).isSome
      rcases (BgpIn.Processor.stepped_of_step hp).register with
        heq | ⟨info, _, heq⟩ | ⟨id', order, rfl, hfrees, heq⟩ <;> rw [heq]
      · exact hsome
      · rw [Register.get_updateInfo]
        split
        · rfl
        · exact hsome
      · rw [Register.get_remove]
        split
        next hid =>
          subst hid
          exact absurd ⟨t, id, ht, hfrees, hsome, hstores⟩ hguard
        · exact hsome
  | handle n =>
    obtain ⟨t, ht, hstep⟩ := bind_eq_some_iff.mp hstep
    split at hstep
    · cases hstep
    next u rest hq =>
      cases hstep
      refine ⟨?_, isSome_deliver u⟩
      rcases Rib.stores_processUpdate hstores with hstores | hmem
      · exact .inl hstores
      · refine .inr ⟨?_, n, t, u, ht, by rw [hq]; exact mem_cons_self, ?_⟩
        · by_contra hnone
          rw [not_isSome_iff_eq_none] at hnone
          exact hguard ⟨t, u, ht, by rw [hq]; rfl, id, hmem, hnone⟩
        · cases u <;> first | exact hmem | cases hmem
  | cancel n =>
    obtain ⟨t, ht, hstep⟩ := bind_eq_some_iff.mp hstep
    split at hstep <;> cases hstep
    exact ⟨.inl hstores, fun h => h⟩

theorem filed_bgp [LawfulPrefixStore S] (h : Filed sys.gc sys.hub.rib)
    (hun : sys.hub.register.Unwrapped) (hkept : Kept units cfg own sys) {m : BgpMove} {b : Bgp}
    {hub : Hub S} (hstep : sys.bgp.step cfg sys.hub m = some (b, hub))
    (hguard : ¬ sys.Orphans (.bgp m)) : Filed sys.gc hub.rib := by
  obtain ⟨ω', hmoved, _⟩ := kept_bgp hun hkept hstep
  intro id hstores
  obtain ⟨hfrom, hentry⟩ := stores_bgp hstep hguard hstores
  have hkeep {old : IngressInfo} (hold : sys.hub.register.get id = some old)
      (htype : old.ingressType ≠ some .bmp) :
      ∃ info, hub.register.get id = some info ∧ info.ingressType ≠ some .bmp := by
    obtain ⟨info, hget⟩ := isSome_iff_exists.mp (hentry (by rw [hold]; rfl))
    exact ⟨info, hget, not_bmp_of_bgpMoved hmoved hold htype hget⟩
  rcases hfrom with hstores | ⟨hsome, n, t, u, ht, hu, hid⟩
  · rcases h id hstores with ⟨old, hold, htype⟩ | hmem
    · exact .inl (hkeep hold htype)
    · exact .inr hmem
  · -- the entry is the session's own
    obtain ⟨old, hold⟩ := isSome_iff_exists.mp hsome
    have hown := (hkept.bgp.tasks ht).pending hu hid
    refine .inl (hkeep hold ?_)
    rcases ((hkept.apart.holds .bgp id _ hown).2.2 old hold).2 with h | h <;> rw [h] <;> exact nofun

/-! ## The collector -/

theorem filed_gc [LawfulPrefixStore S] {gc gc' : Gc} {rib rib' : Rib S} {order : List IngressId}
    (hstep : Gc.step order (gc, rib) = (gc', rib')) (h : Filed gc rib)
    (hrouters : ∀ id ∈ gc.routers, ∀ info, rib.ingressRegister.get id = some info →
      info.ingressType = some .bmp) : Filed gc' rib' := by
  cases gc with
  | waiting prev =>
    cases hstep
    exact h
  | reclaimingPeers todo reclaimed routers next =>
    cases todo with
    | nil =>
      cases hstep
      intro id hstores
      obtain ⟨hstores, hnot⟩ := Rib.stores_removeForIngresses.mp hstores
      rw [rib.ingressRegister_removeForIngresses]
      exact .inl ((h id hstores).resolve_right hnot)
    | cons id todo =>
      simp only [Gc.step] at hstep
      rcases rib.ingressRegister.removeIfDisconnected_cases id with heq | ⟨info, _, _, heq⟩ <;>
        rw [heq] at hstep <;> cases hstep
      · exact h
      · -- the entry that was freed is about to be cleared
        intro id' hstores
        by_cases hid : id' = id
        · exact .inr (mem_append_right _ (mem_singleton.mpr hid))
        · dsimp only
          rw [Register.get_remove, if_neg hid]
          exact (h id' hstores).imp_right fun hmem => mem_append_left _ hmem
  | reclaimingRouters todo next =>
    cases todo with
    | nil =>
      cases hstep
      exact h
    | cons id todo =>
      simp only [Gc.step] at hstep
      rcases rib.ingressRegister.removeIfDisconnected_cases id with heq | ⟨info, hget, _, heq⟩ <;>
        rw [heq] at hstep <;> cases hstep
      · exact h
      · -- a router has no records
        intro id' hstores
        obtain ⟨old, hold, htype⟩ := (h id' hstores).resolve_right fun hmem => by cases hmem
        have hid : id' ≠ id := by
          rintro rfl
          exact htype (hrouters id' mem_cons_self old hold)
        refine .inl ⟨old, ?_, htype⟩
        dsimp only
        rw [Register.get_remove, if_neg hid]
        exact hold

/-! ## The node -/

theorem filed_step [LawfulPrefixStore S] (h : Filed sys.gc sys.hub.rib)
    (hun : sys.hub.register.Unwrapped) (hkept : Kept units cfg own sys) {m : Move}
    (hguard : ¬ sys.Orphans m) (hstep : sys.step units cfg m = some sys') :
    Filed sys'.gc sys'.hub.rib := by
  cases m with
  | session n m =>
    obtain ⟨⟨t, hub⟩, ht, rfl⟩ := map_eq_some_iff.mp hstep
    exact filed_session h hun hkept ht
  | bgp m =>
    obtain ⟨⟨b, hub⟩, hb, rfl⟩ := map_eq_some_iff.mp hstep
    exact filed_bgp h hun hkept hb hguard
  | sweep order =>
    simp only [step] at hstep
    split at hstep <;> cases hstep
    refine filed_gc rfl h fun id hid info hget => ?_
    rcases hkept.gc.routers hid with hvacant | ⟨info', ty, hget', _, htype, hty⟩
    · cases hget.symm.trans (hkept.apart.holds .gc id _ hvacant).2.2
    · cases hget.symm.trans hget'
      rw [htype, mem_singleton.mp hty]

theorem filed_start [LawfulPrefixStore S] (k : Nat) :
    Filed (start k : System S).gc (start k : System S).hub.rib := by
  rintro id ⟨key, _, hsome⟩
  change ((Rib.new _ : Rib S).localRecord key).isSome at hsome
  rw [Rib.localRecord_new] at hsome
  cases hsome

/-- In every schedule of such steps, every ingress with a record has an entry between two
sweeps. -/
theorem records_entered [LawfulPrefixStore S] {k : Nat} {moves : List Move}
    (hguard : Along (step (unitIds k) cfg)
      (fun sys m => sys.hub.register.Unwrapped ∧ ¬ sys.Orphans m) (start k : System S) moves)
    (h : exec (step (unitIds k) cfg) (start k) moves = some sys) (hgc : sys.gc.isWaiting = true) :
    ∀ id, sys.hub.rib.Stores id → (sys.hub.register.get id).isSome := by
  obtain ⟨⟨own, hkept⟩, hfiled⟩ := exec_invariant (step (unitIds k) cfg)
    (fun sys : System S => (∃ own, Kept (unitIds k) cfg own sys) ∧ Filed sys.gc sys.hub.rib) _
    (fun sys m sys' ⟨⟨_, hkept⟩, hfiled⟩ ⟨hun, horphans⟩ hstep =>
      ⟨kept_step hun hkept hstep, filed_step hfiled hun hkept horphans hstep⟩)
    ⟨⟨_, kept_start k⟩, filed_start k⟩ hguard h
  intro id hstores
  rcases hfiled id hstores with ⟨info, hget, _⟩ | hmem
  · exact isSome_of_eq_some hget
  · obtain ⟨prev, hprev⟩ := Watched.exists_of_isWaiting hgc
    rw [hprev] at hmem
    cases hmem

end System

/-! ## A session that comes and goes -/

namespace Orphan

open BmpIn.Reconnect (announcement)
open Twice (runs connects message config)
open Flap (loses sweeps)

def peer : BgpIn.Negotiated := ⟨.v4 192 0 2 9, 64501, [], []⟩

def act (input : BgpIn.Input) : Move := .bgp (.act 0 input)

/-- A BGP session comes up, announces a route, and ends. -/
def session : List Move :=
  [.bgp (.accept 0 peer), act (.sessionNegotiated []), act (.proceed []), act (.proceed []),
    act (.proceed []),
    act (.updateMessage true (.ok [(Payload.slash8 10 0 .active).rxValue]) (.ok [])),
    .bgp (.handle 0), .bgp (.handle 0),
    act .leave, act (.proceed []), .bgp (.handle 0), act (.proceed [])]

def key (id : IngressId) : RouteKey := ⟨false, .slash8 10, id⟩

/-- What is left of an ingress: a record, an entry; and whether a sweep is going on. -/
def look (id : IngressId) (sys : System (MapStore RotondaPaMap)) : Bool × Bool × Bool :=
  ((sys.hub.rib.localRecord (key id)).isSome, (sys.hub.register.get id).isSome, sys.gc.isWaiting)

/-- After two sweeps the record of the session is still there, and its entry is not. -/
theorem orphaned : ∃ sys, runs (session ++ sweeps 3 ++ sweeps 3) = some sys ∧
    sys.gc.isWaiting = true ∧
    (∃ t, sys.bgp.tasks 0 = some t ∧ t.processor.phase = .ended ∧ t.pending = []) ∧
    sys.hub.rib.Stores 2 ∧ sys.hub.register.get 2 = none := by
  have hlook : (runs (session ++ sweeps 3 ++ sweeps 3)).map (fun sys => (look 2 sys,
      (sys.bgp.tasks 0).map fun t => (t.processor.phase, t.pending.length))) =
      some ((true, false, true), some (.ended, 0)) := by decide +kernel
  obtain ⟨sys, hsys, hlook⟩ := map_eq_some_iff.mp hlook
  obtain ⟨hlook, htask⟩ := Prod.mk.inj hlook
  obtain ⟨hrecord, hlook⟩ := Prod.mk.inj hlook
  obtain ⟨hentry, hwait⟩ := Prod.mk.inj hlook
  obtain ⟨t, ht, hlook⟩ := map_eq_some_iff.mp htask
  obtain ⟨hphase, hpending⟩ := Prod.mk.inj hlook
  exact ⟨sys, hsys, hwait, ⟨t, ht, hphase, length_eq_zero_iff.mp hpending⟩,
    ⟨key 2, rfl, hrecord⟩, not_isSome_iff_eq_none.mp (by rw [hentry]; exact nofun)⟩

/-- A router whose peer announces a route, and that goes away. -/
def monitored : List Move := connects 0 ++ message 0 announcement 4 ++ loses 0 2 ++ sweeps 3

theorem guarded_monitored :
    Along (System.step (unitIds 1) config) (fun sys m => sys.hub.register.Unwrapped ∧ ¬ sys.Orphans m)
      (.start 1 : System (MapStore RotondaPaMap)) monitored := by
  refine along_of_test _ (g := fun sys m => sys.hub.register.Unwrapped &&
    match m with | .bgp _ => false | _ => true) (fun sys m htest => ?_) (by decide +kernel)
  rw [Bool.and_eq_true] at htest
  refine ⟨of_decide_eq_true htest.1, fun horphans => ?_⟩
  cases m with
  | bgp m => cases htest.2
  | _ => exact horphans

/-- The record of a peer that went away is there after a sweep, and so is its entry. -/
theorem monitored_entered :
    (runs monitored).map (look 3) = some (true, true, true) ∧
      ∀ sys, runs monitored = some sys → ∀ id, sys.hub.rib.Stores id →
        (sys.hub.register.get id).isSome := by
  have hlook : (runs monitored).map (look 3) = some (true, true, true) := by decide +kernel
  refine ⟨hlook, fun sys hsys => ?_⟩
  rw [hsys] at hlook
  obtain ⟨_, hlook⟩ := Prod.mk.inj (Option.some.inj hlook)
  exact System.records_entered guarded_monitored hsys (Prod.mk.inj hlook).2

end Orphan

end Rotonda.Node
