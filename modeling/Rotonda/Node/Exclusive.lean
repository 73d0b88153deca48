import Rotonda.Node.System
import Rotonda.BmpIn.Handover

/-!
No two tasks of a node get in each other's way.

Every BMP connection owns its ids, the BGP sessions own theirs together, and the collector owns
those it has freed and not yet cleared.  Every move of the node leaves the claims of the others
alone.

* `Thread.lands`, `Bgp.lands`, `Gc.lands`: what one move of each party keeps;
* `System.kept_step`: the same for the node;
* `peers_exclusive`: the ids of the peers of live sessions are exclusive, and their entries are
  connected and match.
-/

namespace Rotonda.Node

open Lib Lib.Ownership Lib.Runs BmpIn List Option Dict Nat Function

variable {S : Type} [PrefixStore S RotondaPaMap] {units : List IngressId} {cfg : RibConfig}
  {ω : Dict IngressId Tenure}
variable {reg : Register} {sent : List Update} {m : SessionMove} {id : IngressId}
  {info : IngressInfo} {b : Bgp} {n : Nat} {tys : List IngressType} {order : List IngressId}

/-! ## BMP connections -/

/-- What a teardown asks of the claims of its task. -/
def TeardownOwns (ω : Dict IngressId Tenure) : Teardown → Prop
  | .lost c => Settled c ω
  | .marking _ todo _ =>
    todo.Nodup ∧ ∀ id ∈ todo, ∃ parent pph, ω.get id = some (.peer parent pph)
  | _ => True

/-- What a task asks of its claims. -/
def Thread.Owns (S : Type) [PrefixStore S RotondaPaMap] (units : List IngressId) (cfg : RibConfig)
    (ω : Dict IngressId Tenure) : Thread → Prop
  | .absent => True
  | .idle c => Settled c ω
  | .busy shown p => Visible shown ω ∧
      (protocol (S := S) units cfg).wp p shown ω fun c _ ω => ∃ c', c = some c' ∧ Settled c' ω
  | .closing t => TeardownOwns ω t

theorem Thread.Owns.visible {t : Thread} (h : t.Owns S units cfg ω) : Visible t.live ω := by
  cases t with
  | idle c => exact Machine.visible (Settled.machine h)
  | busy shown p => exact h.1
  | _ => exact visible_none ω

section Threads

variable {hub hub' : Hub S} (hun : hub.register.Unwrapped) (hsound : Sound units hub)
  (hholds : Holds (Ok units) ω hub)
include hun hsound hholds

theorem Thread.next_lands {t t' : Thread} (h : t.next cfg hub = some (t', hub'))
    (ht : t.Owns S units cfg ω) :
    Lands units ω none hub hub' fun ω' => t'.Owns S units cfg ω' := by
  -- the end of a program, or a call of it
  cases t with
  | busy shown p =>
    obtain ⟨hvis, hp⟩ := ht
    cases p with
    | ret c =>
      obtain ⟨c', rfl, hc'⟩ := hp
      cases h
      exact lands_same hsound hholds (visible_none ω) hc'
    | _ =>
      simp only [next] at h
      obtain ⟨⟨p', l', hub'⟩, hnext, heq⟩ := map_eq_some_iff.mp h
      cases heq
      obtain ⟨hsound', hstep, ω', hholds', hspares, hclaims, hvis', hp'⟩ :=
        Protocol.wp_next hp hnext hun hsound hholds (.refl hub) (.refl hub ω)
      exact ⟨hsound', hstep, ω', hholds', hspares, hclaims, visible_none _, hvis', hp'⟩
  | _ => cases h

variable [LawfulPrefixStore S]

theorem teardown_lands {t t' : Teardown} {order : List PerPeerHeader} (horder : order.Nodup)
    (h : t.step order hub.register = some (t', reg, sent)) (ht : TeardownOwns ω t) :
    Lands units ω none hub (sent.foldl (Hub.deliver cfg) (hub.setRegister reg))
      fun ω' => TeardownOwns ω' t' := by
  have hdeliver (u : Update) (hu : introduces u = []) (hend : TeardownOwns ω t') :
      Lands units ω none hub (hub.deliver cfg u) fun ω' => TeardownOwns ω' t' :=
    wp_updateData (R := fun _ _ ω' => TeardownOwns ω' t') (u := u) (by rw [hu]; exact nofun)
      (visible_none ω) hend hub hun hsound hholds
  cases t with
  | lost c =>
    cases h
    have hid : ω.get c.ingressId =
        some (if c.stateMachine.isInitiating then .provisional else .router) := by
      rw [← ht.aligned.1]
      exact ht.machine.own
    obtain ⟨hnodup, hpeers⟩ := ht.machine.carries.select horder fun _ _ => true
    have hmark : taskWp S units cfg
        (Steps.updateInfo c.ingressId (.withState .disconnected)) none ω
        fun _ _ ω' => TeardownOwns ω' (.marking c.ingressId (Teardown.peerIds c order) []) := by
      refine wp_mark hid (by split <;> rfl) (visible_none _) ⟨hnodup, fun id hmem => ?_⟩
      obtain ⟨parent, pph, hpeer⟩ := hpeers id hmem
      have hne : id ≠ c.ingressId := by
        rintro rfl
        rw [hid] at hpeer
        split at hpeer <;> cases hpeer
      exact ⟨parent, pph, (get_erase_of_ne hne).trans hpeer⟩
    exact hmark hub hun hsound hholds
  | marking id todo marked =>
    cases todo with
    | nil =>
      cases h
      exact hdeliver _ rfl trivial
    | cons p todo =>
      cases h
      obtain ⟨hnodup, hpeers⟩ := ht
      obtain ⟨hnot, hnodup⟩ := nodup_cons.mp hnodup
      obtain ⟨_, _, hp⟩ := hpeers p mem_cons_self
      have hmark : taskWp S units cfg
          (Steps.updateInfo p (.withState .disconnected)) none ω
          fun _ _ ω' => TeardownOwns ω' (.marking id todo (marked ++ [p])) := by
        refine wp_mark hp rfl (visible_none _) ⟨hnodup, fun id' hmem => ?_⟩
        rw [get_erase, if_neg fun (heq : id' = p) => hnot (heq ▸ hmem)]
        exact hpeers id' (mem_cons_of_mem _ hmem)
      exact hmark hub hun hsound hholds
  | withdrawn id =>
    cases h
    exact hdeliver _ rfl trivial
  | ended => cases h

theorem Thread.lands {t t' : Thread} (h : t.step units cfg hub m = some (t', hub'))
    (ht : t.Owns S units cfg ω) :
    Lands units ω none hub hub' fun ω' => t'.Owns S units cfg ω' := by
  cases m with
  | proceed =>
    have hnext : t.next cfg hub = some (t', hub') := by
      cases t <;> exact h
    exact next_lands hun hsound hholds hnext ht
  | connect unit addr =>
    cases t with
    | absent =>
      simp only [step] at h
      split at h <;> cases h
      next hunit =>
        refine lands_same hsound hholds (visible_none ω) ⟨visible_none ω, ?_⟩
        exact Protocol.wp_bind' (wp_accept hunit addr fun c ω' hc => ⟨c, rfl, hc⟩)
    | _ => cases h
  | receive ignore accepted orders msg =>
    cases t with
    | idle c =>
      simp only [step] at h
      split at h <;> cases h
      next horders =>
        refine lands_same hsound hholds (visible_none ω) ⟨Machine.visible (Settled.machine ht), ?_⟩
        exact wp_handleMsg ignore accepted horders msg ht fun c' _ ω' hc' _ => ⟨c', rfl, hc'⟩
    | _ => cases h
  | lose =>
    cases t with
    | idle c =>
      cases h
      exact lands_same hsound hholds (visible_none ω) ht
    | _ => cases h
  | teardown order =>
    cases t with
    | closing t =>
      simp only [step] at h
      split at h
      next horder =>
        obtain ⟨⟨t', reg, sent⟩, hstep, heq⟩ := map_eq_some_iff.mp h
        cases heq
        exact teardown_lands hun hsound hholds horder hstep ht
      · cases h
    | _ => cases h

end Threads

/-! ## BGP sessions -/

/-- What the task of a BGP session asks of the claims of all of them. -/
structure TaskOwns (t : BgpTask) (ω : Dict IngressId Tenure) : Prop where
  ingress : ω.get t.processor.sessionIngressId = some .bgp
  replacing {old : BgpIn.LiveSession} (h : t.processor.phase = .replacing old) :
    ω.get old.ingressId = some .bgp
  removing {id : IngressId} (h : t.processor.phase = .removing id) : ω.get id = some .bgp
  pending {u : Update} (h : u ∈ t.pending) {id : IngressId} (hid : id ∈ u.announcers) :
    ω.get id = some .bgp

structure BgpOwns (b : Bgp) (ω : Dict IngressId Tenure) : Prop where
  tasks {n : Nat} {t : BgpTask} (h : b.tasks n = some t) : TaskOwns t ω
  live {key : BgpIn.SessionKey} {s : BgpIn.LiveSession} (h : b.liveSessions.get key = some s) :
    ω.get s.ingressId = some .bgp
  only {id : IngressId} {t : Tenure} (h : ω.get id = some t) : t = .bgp

/-- Every entry is of a BMP task's making, or it is a BGP session's. -/
def Kinds (hub : Hub S) (ω : Dict IngressId Tenure) : Prop :=
  ∀ id info, hub.register.get id = some info → Monitored info ∨ ω.get id = some .bgp

/-- What a move of a BGP session may do at most: take an id that is new, and change entries of
BGP sessions. -/
structure BgpMoved (units : List IngressId) (ω ω' : Dict IngressId Tenure) (hub hub' : Hub S) :
    Prop where
  serial : hub.register.serial ≤ hub'.register.serial
  grows (id : IngressId) : ω'.get id = ω.get id ∨
    ω'.get id = some .bgp ∧ hub.register.serial ≤ id
  frame {id : IngressId} (h : ω'.get id = none) : hub'.register.get id = hub.register.get id
  holds : Holds (Ok units) ω' hub'
  only {id : IngressId} {t : Tenure} (h : ω'.get id = some t) : t = .bgp

section Bgp

variable {hub hub' : Hub S} {ω' : Dict IngressId Tenure}
variable {t : BgpTask} {p' : BgpIn.Processor} {sh' : BgpIn.Shared}

omit [PrefixStore S RotondaPaMap]

section

variable (h : BgpMoved units ω ω' hub hub')
include h

theorem BgpMoved.sound (hsound : Sound units hub) : Sound units hub' := by
  -- an id is nobody's of the BGP sessions and as before, or it fits their tenure
  have hcases (id : IngressId) : hub'.register.get id = hub.register.get id ∧ ω'.get id = none ∨
      Ok units .bgp hub' id := by
    cases hω : ω'.get id with
    | none => exact .inl ⟨h.frame hω, rfl⟩
    | some t =>
      cases h.only hω
      exact .inr (h.holds id _ hω)
  refine ⟨fun id hsome => ?_, fun {id info} hget hparent hasn => ?_, fun {id} hunit => ?_⟩
  · rcases hcases id with ⟨heq, _⟩ | hok
    · rw [heq] at hsome
      exact lt_of_lt_of_le (hsound.numbered id hsome) h.serial
    · exact hok.2.1
  · rcases hcases id with ⟨heq, _⟩ | hok
    · exact hsound.shaped (heq.symm.trans hget) hparent hasn
    · rw [(hok.2.2 info hget).1] at hparent
      cases hparent
  · rcases hcases id with ⟨heq, _⟩ | hok
    · obtain ⟨hlt, hnone⟩ := hsound.unit hunit
      exact ⟨lt_of_lt_of_le hlt h.serial, heq.trans hnone⟩
    · exact absurd hunit hok.1

theorem BgpMoved.spares :
    Spares (Ok units) ω ω' hub hub' := by
  intro id hnone k hok
  rcases h.grows id with heq | ⟨_, hfresh⟩
  · rw [hnone] at heq
    exact ⟨hok.of_get_eq h.serial (h.frame heq), heq⟩
  · exact absurd hok.2.1 (not_lt.mpr hfresh)

theorem BgpMoved.mono (hid : ω.get id = some .bgp) : ω'.get id = some .bgp := by
  rcases h.grows id with heq | ⟨heq, _⟩
  · exact heq.trans hid
  · exact heq

theorem BgpMoved.kinds (hkinds : Kinds hub ω) : Kinds hub' ω' := by
  intro id info hget
  cases hω : ω'.get id with
  | none =>
    rw [h.frame hω] at hget
    refine (hkinds id info hget).imp_right fun hid => ?_
    rw [← hω]
    exact h.mono hid
  | some t =>
    cases h.only hω
    exact .inr rfl

end

theorem TaskOwns.mono (h : TaskOwns t ω)
    (hω : ∀ id, ω.get id = some .bgp → ω'.get id = some .bgp) : TaskOwns t ω' :=
  ⟨hω _ h.ingress, fun hp => hω _ (h.replacing hp), fun hp => hω _ (h.removing hp),
    fun hu _ hid => hω _ (h.pending hu hid)⟩

theorem fits_bgp_updateInfo (hparent : info.parentIngress = none)
    (htype : info.ingressType = some .bgp ∨ info.ingressType = none)
    (h : Tenure.bgp.Fits units (reg.get id)) :
    Tenure.bgp.Fits units ((reg.updateInfo id info).get id) := by
  rintro new hnew
  rw [Register.get_updateInfo, if_pos rfl] at hnew
  cases hnew
  cases hget : reg.get id with
  | none => exact ⟨hparent, htype⟩
  | some old =>
    obtain ⟨hparent', htype'⟩ := h old hget
    refine ⟨by simp [IngressInfo.merge, hparent, hparent'], ?_⟩
    rcases htype with htype | htype
    · exact .inl (by simp [IngressInfo.merge, htype])
    · simpa [IngressInfo.merge, htype] using htype'

section

variable (hholds : Holds (Ok units) ω hub) (honly : ∀ id t, ω.get id = some t → t = .bgp)
include hholds honly

theorem bgpMoved_same : BgpMoved units ω ω hub hub :=
  ⟨le_refl _, fun _ => .inl rfl, fun _ => rfl, hholds, honly _ _⟩

/-- The entries of BGP sessions change, and still fit. -/
theorem bgpMoved_changed (hserial : hub'.register.serial = hub.register.serial)
    (hframe : ∀ id, ω.get id = none → hub'.register.get id = hub.register.get id)
    (hfits : ∀ id, ω.get id = some .bgp → Tenure.bgp.Fits units (hub.register.get id) →
      Tenure.bgp.Fits units (hub'.register.get id)) : BgpMoved units ω ω hub hub' where
  serial := le_of_eq hserial.symm
  grows := fun _ => .inl rfl
  frame := hframe _
  holds := by
    intro id t hid
    cases honly id t hid
    obtain ⟨hunit, hlt, hfit⟩ := hholds id _ hid
    exact ⟨hunit, by rw [hserial]; exact hlt, hfits id hid hfit⟩
  only := honly _ _

/-- The entry of one BGP session changes. -/
theorem bgpMoved_edit (hid : ω.get id = some .bgp) (hserial : reg.serial = hub.register.serial)
    (hothers : ∀ id', id' ≠ id → reg.get id' = hub.register.get id')
    (hfits : Tenure.bgp.Fits units (hub.register.get id) → Tenure.bgp.Fits units (reg.get id)) :
    BgpMoved units ω ω hub (hub.setRegister reg) := by
  refine bgpMoved_changed hholds honly hserial (fun id' hnone => hothers id' ?_)
    fun id' _ hfit => ?_
  · rintro rfl
    cases hid.symm.trans hnone
  · by_cases heq : id' = id
    · subst heq
      exact hfits hfit
    · change Tenure.bgp.Fits units (reg.get id')
      rw [hothers id' heq]
      exact hfit

/-- A step of a session changes its own entry, or frees one of BGP sessions. -/
theorem bgpMoved_stepped (ht : TaskOwns t ω) {sh : BgpIn.Shared}
    (h : t.processor.Stepped sh input p' sh' sent) (hsh : sh.ingresses = hub.register) :
    BgpMoved units ω ω hub (hub.setRegister sh'.ingresses) := by
  rcases h.register with heq | ⟨info, hinfo, heq⟩ | ⟨id, _, _, hfrees, heq⟩ <;>
    rw [heq, hsh]
  · exact bgpMoved_same hholds honly
  · refine bgpMoved_edit hholds honly ht.ingress rfl
      (fun id' hne => Register.get_updateInfo_ne hne) (fits_bgp_updateInfo ?_ ?_) <;>
      rcases hinfo with rfl | rfl
    · rfl
    · rfl
    · exact .inl rfl
    · exact .inr rfl
  · have hid : ω.get id = some .bgp := by
      rcases hfrees with hphase | ⟨_, rfl, _⟩
      · exact ht.removing hphase
      · exact ht.ingress
    refine bgpMoved_edit hholds honly hid rfl
      (fun id' hne => by rw [Register.get_remove, if_neg hne]) fun _ info hget => ?_
    rw [Register.get_remove, if_pos rfl] at hget
    cases hget

/-- A new session takes the next id. -/
theorem bgpMoved_register (hun : hub.register.Unwrapped) (hsound : Sound units hub) :
    BgpMoved units ω (ω.insert hub.register.register.1 .bgp) hub
      (hub.setRegister hub.register.register.2) where
  serial := le_succ _
  grows := by
    intro id
    rw [get_insert]
    split
    next heq => exact .inr ⟨rfl, le_of_eq (heq.trans hun.register).symm⟩
    · exact .inl rfl
  frame := fun _ => rfl
  holds := by
    intro id t hid
    rcases of_get_insert hid with ⟨rfl, rfl⟩ | ⟨_, hid⟩
    · rw [hun.register]
      refine ⟨fun hunit => lt_irrefl _ (hsound.unit hunit).1, lt_succ_self _, ?_⟩
      intro info hget
      exact absurd (hsound.numbered _ (isSome_of_eq_some hget)) (lt_irrefl _)
    · obtain ⟨hunit, hlt, hfit⟩ := hholds id t hid
      exact ⟨hunit, lt_succ_of_lt hlt, hfit⟩
  only := by
    intro id t hid
    rcases of_get_insert hid with ⟨_, rfl⟩ | ⟨_, hid⟩
    · rfl
    · exact honly id t hid

end

theorem announcers_of_concerns {u : Update}
    (h : BgpIn.Concerns id u ∨ ∃ id', u = .withdraw id' none) {id' : IngressId}
    (hid : id' ∈ u.announcers) : id' = id := by
  rcases h with h | ⟨id'', rfl⟩
  · cases u with
    | bulk ps =>
      obtain ⟨p, hp, rfl⟩ := mem_map.mp hid
      exact h p hp
    | withdraw id'' scope => cases hid
    | outputStream => cases hid
    | _ => cases h
  · cases hid

theorem BgpOwns.setTask (hb : BgpOwns b ω) (hω : ∀ id, ω.get id = some .bgp → ω'.get id = some .bgp)
    (honly : ∀ id t, ω'.get id = some t → t = .bgp) (ht : TaskOwns t ω') :
    BgpOwns (b.setTask n t) ω' := by
  refine ⟨fun {m t'} hm => ?_, fun hs => hω _ (hb.live hs), honly _ _⟩
  rw [Bgp.tasks_setTask] at hm
  split at hm
  · cases hm
    exact ht
  · exact (hb.tasks hm).mono hω

theorem BgpOwns.stepped (hb : BgpOwns b ω) (hkinds : Kinds hub ω) (ht : b.tasks n = some t)
    (h : t.processor.Stepped (b.shared hub) input p' sh' sent) (abort : Option Nat) :
    BgpOwns ⟨fun m => ((b.setTask n { t with processor := p', pending := sent }).tasks m).map
      (·.abortIf abort), sh'.liveSessions, sh'.sessionIdCounter⟩ ω := by
  have htask := hb.tasks ht
  have hingress : ω.get p'.sessionIngressId = some .bgp := by
    rcases h.ingress with heq | ⟨info, hget, htype⟩
    · rw [heq]
      exact htask.ingress
    · refine (hkinds _ info hget).resolve_left fun hmon => ?_
      rcases hmon with hmon | hmon <;> cases htype.symm.trans hmon
  have htask' : TaskOwns { t with processor := p', pending := sent } ω := by
    refine ⟨hingress, fun hp => hb.live (h.replacing hp), fun hp => ?_, fun hu id hid => ?_⟩
    · obtain ⟨old, hphase, rfl⟩ := h.removing hp
      exact htask.replacing hphase
    · rw [announcers_of_concerns (h.sent hu) hid]
      exact hingress
  have hset := hb.setTask (fun _ hid => hid) (fun _ _ => hb.only) htask' (n := n)
  refine ⟨fun {m t'} hm => ?_, fun {key s} hs => ?_, hb.only⟩
  · obtain ⟨t'', ht'', rfl⟩ := map_eq_some_iff.mp hm
    obtain ⟨h₁, h₂, h₃, h₄⟩ := hset.tasks ht''
    exact ⟨h₁, h₂, h₃, h₄⟩
  · rcases h.live hs with hs | hs
    · exact hb.live hs
    · rw [hs]
      exact htask.ingress

end Bgp

variable {hub : Hub S}

/-- The RIB unit handles an update of a BGP session. -/
theorem bgpMoved_deliver (hholds : Holds (Ok units) ω hub)
    (honly : ∀ id t, ω.get id = some t → t = .bgp) {u : Update}
    (hu : ∀ id ∈ u.announcers, ω.get id = some .bgp) :
    BgpMoved units ω ω hub (hub.deliver cfg u) := by
  have htouched := hub.rib.touched_processUpdate cfg u
  refine bgpMoved_changed hholds honly htouched.serial (fun id hnone => ?_) fun id _ hfit => ?_
  · exact (htouched.get id).resolve_right fun h => by cases hnone.symm.trans (hu id h.1)
  · rcases htouched.get id with heq | ⟨_, heq⟩
    · exact heq.symm ▸ hfit
    · intro info hget
      cases heq.symm.trans hget
      cases hold : hub.rib.ingressRegister.get id with
      | none => exact ⟨rfl, .inr rfl⟩
      | some old => exact hfit old hold

theorem Bgp.lands (hun : hub.register.Unwrapped) {b' : Bgp} {hub' : Hub S} {m : BgpMove}
    (h : b.step cfg hub m = some (b', hub')) (hsound : Sound units hub)
    (hholds : Holds (Ok units) ω hub) (hb : BgpOwns b ω) (hkinds : Kinds hub ω) :
    ∃ ω', BgpMoved units ω ω' hub hub' ∧ BgpOwns b' ω' := by
  have honly (id : IngressId) (t : Tenure) (hid : ω.get id = some t) : t = .bgp := hb.only hid
  cases m with
  | accept n negotiated =>
    simp only [step] at h
    split at h <;> cases h
    have hmoved := bgpMoved_register hholds honly hun hsound
    refine ⟨_, hmoved, hb.setTask (fun _ => hmoved.mono) (fun _ _ => hmoved.only) ?_⟩
    exact ⟨get_insert_self .., nofun, nofun, nofun⟩
  | act n input =>
    obtain ⟨t, ht, h⟩ := bind_eq_some_iff.mp h
    split at h
    · cases h
    · obtain ⟨⟨p', sh', sent, abort⟩, hstep, heq⟩ := map_eq_some_iff.mp h
      cases heq
      have hstepped := BgpIn.Processor.stepped_of_step hstep
      exact ⟨ω, bgpMoved_stepped hholds honly (hb.tasks ht) hstepped rfl,
        hb.stepped hkinds ht hstepped abort⟩
  | handle n =>
    obtain ⟨t, ht, h⟩ := bind_eq_some_iff.mp h
    split at h
    · cases h
    next u rest hq =>
      cases h
      obtain ⟨h₁, h₂, h₃, h₄⟩ := hb.tasks ht
      rw [hq] at h₄
      refine ⟨ω, bgpMoved_deliver hholds honly fun id hid => h₄ mem_cons_self hid,
        hb.setTask (fun _ hid => hid) honly ⟨h₁, h₂, h₃, fun hu => h₄ (mem_cons_of_mem _ hu)⟩⟩
  | cancel n =>
    obtain ⟨t, ht, h⟩ := bind_eq_some_iff.mp h
    split at h <;> cases h
    obtain ⟨h₁, h₂, h₃, _⟩ := hb.tasks ht
    exact ⟨ω, bgpMoved_same hholds honly,
      hb.setTask (fun _ hid => hid) honly ⟨h₁, h₂, h₃, nofun⟩⟩

/-! ## The collector -/

/-- An id that the collector goes by: it has freed its entry, or the entry is there, was not that of
a connection before its Initiation, and is of one of the types. -/
def Candidate (tys : List IngressType) (hub : Hub S) (ω : Dict IngressId Tenure) (id : IngressId) :
    Prop :=
  ω.get id = some .vacant ∨ ∃ info ty, hub.register.get id = some info ∧ ¬ Unnamed info ∧
    info.ingressType = some ty ∧ ty ∈ tys

structure GcOwns (gc : Gc) (hub : Hub S) (ω : Dict IngressId Tenure) : Prop where
  remembered {id : IngressId} (h : id ∈ gc.remembered) : Candidate [.bmp, .bgpViaBmp] hub ω id
  routers {id : IngressId} (h : id ∈ gc.routers) : Candidate [.bmp] hub ω id
  reclaimed {id : IngressId} (h : id ∈ gc.reclaimed) : ω.get id = some .vacant

section Gc

variable {hub hub' : Hub S} {ω' : Dict IngressId Tenure}

omit [PrefixStore S RotondaPaMap] in
theorem GcOwns.mono {gc : Gc} (h : GcOwns gc hub ω)
    (hkeep : ∀ tys id, Candidate tys hub ω id → Candidate tys hub' ω id) : GcOwns gc hub' ω :=
  ⟨fun hid => hkeep _ _ (h.remembered hid), fun hid => hkeep _ _ (h.routers hid), h.reclaimed⟩

theorem Candidate.step (h : Candidate tys hub ω id)
    (hstep : hub.Step hub') : Candidate tys hub' ω id := by
  rcases h with h | ⟨info, ty, hget, hnamed, htype, hty⟩
  · exact .inl h
  · refine .inr ?_
    cases hget' : hub'.register.get id with
    | none => exact absurd (hstep.entries hget hget').2 hnamed
    | some info' =>
      refine ⟨info', ty, rfl, fun hu => hnamed (hstep.unnamed hget hget' hu), ?_, hty⟩
      rw [hstep.types hget hget' (by rw [htype]; rfl), htype]

omit [PrefixStore S RotondaPaMap] in
/-- An entry that the collector may free fits no tenure. -/
theorem not_fits_of_disconnected (hstate : info.state = some .disconnected) (hkind : Monitored info)
    (t : Tenure) : ¬ t.Fits units (some info) := by
  intro hfits
  cases t with
  | vacant => cases hfits
  | provisional =>
    obtain ⟨_, heq, _, hne, _⟩ := hfits
    cases heq
    exact hne hstate
  | router =>
    obtain ⟨_, heq, _, hconn, _⟩ := hfits
    cases heq
    cases hstate.symm.trans hconn
  | claimed =>
    obtain ⟨_, heq, _, hconn⟩ := hfits
    cases heq
    cases hstate.symm.trans hconn
  | peer parent pph =>
    obtain ⟨_, heq, hpeer⟩ := hfits
    cases heq
    cases hstate.symm.trans hpeer.state
  | bgp =>
    obtain ⟨_, htype⟩ := hfits info rfl
    rcases hkind with hkind | hkind <;> rw [hkind] at htype <;> rcases htype with h | h <;> cases h

/-- The collector frees an entry, if it is disconnected, and owns the id then. -/
theorem collect_lands (hsound : Sound units hub) (hholds : Holds (Ok units) ω hub)
    (htys : ∀ ty ∈ tys, ty = .bmp ∨ ty = .bgpViaBmp) (hid : Candidate tys hub ω id) :
    ∃ ω', Sound units (hub.setRegister (hub.register.removeIfDisconnected id).2) ∧
      Holds (Ok units) ω' (hub.setRegister (hub.register.removeIfDisconnected id).2) ∧
      Spares (Ok units) ω ω' hub (hub.setRegister (hub.register.removeIfDisconnected id).2) ∧
      (∀ id', ω.get id' = some .vacant → ω'.get id' = some .vacant) ∧
      (∀ tys id', Candidate tys hub ω id' →
        Candidate tys (hub.setRegister (hub.register.removeIfDisconnected id).2) ω' id') ∧
      ((hub.register.removeIfDisconnected id).1.isSome → ω'.get id = some .vacant) := by
  rcases hub.register.removeIfDisconnected_cases id with heq | ⟨info, hget, hstate, heq⟩ <;> rw [heq]
  · exact ⟨ω, hsound, hholds, Spares.refl (Ok units) ω hub, fun _ h => h, fun _ _ h => h, nofun⟩
  · have hkind : Monitored info := by
      rcases hid with hvacant | ⟨info', ty, hget', _, htype, hty⟩
      · cases hget.symm.trans (hholds id _ hvacant).2.2
      · cases hget.symm.trans hget'
        rcases htys ty hty with rfl | rfl
        · exact .inl htype
        · exact .inr htype
    have hnot (t : Tenure) : ¬ Ok units t hub id := fun hok => by
      have hfits := hok.2.2
      rw [hget] at hfits
      exact not_fits_of_disconnected hstate hkind t hfits
    have hself : (hub.setRegister (hub.register.remove id)).register.get id = none := by
      change (hub.register.remove id).get id = none
      rw [Register.get_remove, if_pos rfl]
    have hedit : hub.Edited id (hub.setRegister (hub.register.remove id)) :=
      Hub.edited_setRegister (fun id' hne => by rw [Register.get_remove, if_neg hne])
        (le_refl _)
    have hunit : id ∉ units := fun h => by cases hget.symm.trans (hsound.unit h).2
    have hlt : id < hub.register.serial := hsound.numbered id (by rw [hget]; rfl)
    refine ⟨ω.insert id .vacant, hedit.sound ?_ hsound hlt hunit,
      hedit.holds_insert hholds ⟨hunit, hlt, hself⟩,
      hedit.spares_insert fun t hok => absurd hok (hnot t), fun id' hid' => ?_,
      fun tys' id' hcand => ?_, fun _ => get_insert_self ..⟩
    · intro info' hget'
      cases hself.symm.trans hget'
    · rw [get_insert]
      split
      · rfl
      · exact hid'
    · by_cases hne : id' = id
      · subst hne
        exact .inl (get_insert_self ..)
      · unfold Candidate
        rw [get_insert_of_ne _ hne, hedit.others hne]
        exact hcand

omit [PrefixStore S RotondaPaMap] in
theorem candidate_of_idle {ty : IngressType} (h : hub.register.idle ty id = true) (hty : ty ∈ tys) :
    Candidate tys hub ω id := by
  unfold Register.idle at h
  cases hget : hub.register.get id with
  | none => rw [hget] at h; cases h
  | some info =>
    rw [hget] at h
    obtain ⟨hstate, htype⟩ := Bool.and_eq_true_iff.mp h
    exact .inr ⟨info, ty, hget, fun hu => hu.1 (of_decide_eq_true hstate),
      of_decide_eq_true htype, hty⟩

omit [PrefixStore S RotondaPaMap] in
/-- What a sweep takes from its snapshot. -/
theorem gcOwns_snapshot (order prev : List IngressId) :
    GcOwns (.reclaimingPeers (hub.register.peersToReclaim order prev) []
      (hub.register.routersToReclaim order prev) (hub.register.disconnected order)) hub ω := by
  have hrouter {id : IngressId} (h : id ∈ hub.register.routersToReclaim order prev) :
      hub.register.idle .bmp id = true := by
    have hid := (mem_filter.mp h).2
    simp only [Bool.and_eq_true] at hid
    exact hid.1.1
  refine ⟨fun {id} hid => ?_, fun hid => candidate_of_idle (hrouter hid) (by simp), nofun⟩
  simp only [Gc.remembered, Gc.due, Gc.latest, mem_append] at hid
  rcases hid with (hid | hid) | hid
  · have hidle := (mem_filter.mp hid).2
    simp only [Bool.and_eq_true] at hidle
    exact candidate_of_idle hidle.1 (by simp)
  · exact candidate_of_idle (hrouter hid) (by simp)
  · have hidle := (mem_filter.mp hid).2
    simp only [Bool.or_eq_true] at hidle
    rcases hidle with hidle | hidle
    · exact candidate_of_idle hidle (by simp)
    · exact candidate_of_idle hidle (by simp)

theorem gc_lands {gc gc' : Gc} {rib : Rib S} (h : Gc.step order (gc, hub.rib) = (gc', rib))
    (hsound : Sound units hub) (hholds : Holds (Ok units) ω hub) (hgc : GcOwns gc hub ω) :
    ∃ ω', Sound units { hub with rib := rib } ∧ Holds (Ok units) ω' { hub with rib := rib } ∧
      Spares (Ok units) ω ω' hub { hub with rib := rib } ∧
      GcOwns gc' { hub with rib := rib } ω' := by
  cases gc with
  | waiting prev =>
    cases h
    exact ⟨ω, hsound, hholds, Spares.refl (Ok units) ω hub, gcOwns_snapshot order prev⟩
  | reclaimingPeers todo reclaimed routers next =>
    cases todo with
    | nil =>
      cases h
      have hreg : (hub.rib.removeForIngresses reclaimed).ingressRegister = hub.register :=
        hub.rib.ingressRegister_removeForIngresses reclaimed
      have hkeep {t : Tenure} {id : IngressId} (hok : Ok units t hub id) :
          Ok units t { hub with rib := hub.rib.removeForIngresses reclaimed } id := by
        unfold Ok
        rw [Hub.register, hreg]
        exact hok
      refine ⟨ω, sound_of_get_eq hsound (congrArg _ hreg) fun id => congrArg (·.get id) hreg,
        fun id t hid => hkeep (hholds id t hid), fun id hnone t hok => ⟨hkeep hok, hnone⟩, ?_⟩
      have hgc' : GcOwns (.reclaimingRouters routers next) hub ω :=
        ⟨hgc.remembered, hgc.routers, fun hid => by cases hid⟩
      refine hgc'.mono fun tys id hcand => ?_
      unfold Candidate
      rw [Hub.register, hreg]
      exact hcand
    | cons id todo =>
      obtain ⟨ω', hsound', hholds', hspares, hvacant, hcand, hfreed⟩ := collect_lands hsound hholds
        (by simp) (hgc.remembered (mem_append_left _ (mem_append_left _
          mem_cons_self)))
      have hremembered {id' : IngressId} (hid : id' ∈ todo ++ routers ++ next) :=
        hcand _ id' (hgc.remembered (mem_cons_of_mem id hid))
      have hrouters {id' : IngressId} (hid : id' ∈ routers) := hcand _ id' (hgc.routers hid)
      simp only [Gc.step] at h
      split at h
      next info reg heq =>
        cases h
        change hub.register.removeIfDisconnected id = _ at heq
        rw [heq] at hsound' hholds' hspares hfreed hremembered hrouters
        refine ⟨ω', hsound', hholds', hspares, hremembered, hrouters, fun {id'} hid => ?_⟩
        rcases mem_append.mp hid with hid | hid
        · exact hvacant id' (hgc.reclaimed hid)
        · rw [mem_singleton.mp hid]
          exact hfreed rfl
      next reg heq =>
        cases h
        change hub.register.removeIfDisconnected id = _ at heq
        rw [heq] at hsound' hholds' hspares hremembered hrouters
        exact ⟨ω', hsound', hholds', hspares, hremembered, hrouters,
          fun hid => hvacant _ (hgc.reclaimed hid)⟩
  | reclaimingRouters todo next =>
    cases todo with
    | nil =>
      cases h
      exact ⟨ω, hsound, hholds, Spares.refl (Ok units) ω hub, hgc.remembered,
        (fun hid => by cases hid), fun hid => by cases hid⟩
    | cons id todo =>
      cases h
      obtain ⟨ω', hsound', hholds', hspares, _, hcand, _⟩ := collect_lands hsound hholds
        (by simp) (hgc.remembered (mem_append_left _ mem_cons_self))
      exact ⟨ω', hsound', hholds', hspares,
        fun {id'} hid => hcand _ id' (hgc.remembered (mem_cons_of_mem id hid)),
        fun {id'} hid => hcand _ id' (hgc.routers (mem_cons_of_mem id hid)), fun hid => by cases hid⟩

end Gc

/-! ## The node -/

inductive Owner where
  | session (n : Nat)
  | bgp
  | gc
  deriving DecidableEq

/-- All tasks of the node keep to their claims. -/
structure Kept (units : List IngressId) (cfg : RibConfig) (own : Owner → Dict IngressId Tenure)
    (sys : System S) : Prop where
  apart : Apart (Ok units) own sys.hub
  sound : Sound units sys.hub
  threads (n : Nat) : (sys.sessions n).Owns S units cfg (own (.session n))
  bgp : BgpOwns sys.bgp (own .bgp)
  kinds : Kinds sys.hub (own .bgp)
  gc : GcOwns sys.gc sys.hub (own .gc)

namespace System

theorem kept_start (k : Nat) : Kept (unitIds k) cfg (fun _ => .empty) (start k : System S) where
  apart := ⟨fun _ _ _ h => (by cases h), fun h => (by cases h)⟩
  sound := by
    refine ⟨fun id hsome => ?_, fun hget => ?_, fun hid => ⟨?_, rfl⟩⟩
    · cases hsome
    · cases hget
    · obtain ⟨_, hlt⟩ := mem_range'_1.mp hid
      change _ < k + 1
      omega
  threads := fun _ => trivial
  bgp := ⟨nofun, fun h => (by cases h), fun h => (by cases h)⟩
  kinds := fun _ _ h => by cases h
  gc := ⟨nofun, nofun, nofun⟩

variable {own : Owner → Dict IngressId Tenure} {sys sys' : System S}

/-- What the collector goes by is not a BGP session's. -/
theorem not_bgp_of_candidate (h : Kept units cfg own sys)
    (htys : ∀ ty ∈ tys, ty = .bmp ∨ ty = .bgpViaBmp)
    (hid : Candidate tys sys.hub (own .gc) id) : (own .bgp).get id = none := by
  rcases hid with hid | ⟨info, ty, hget, _, htype, hty⟩
  · exact h.apart.get_eq_none (by exact nofun : Owner.gc ≠ .bgp) hid
  · cases hω : (own .bgp).get id with
    | none => rfl
    | some t =>
      cases h.bgp.only hω
      obtain ⟨_, hbgp⟩ := (h.apart.holds .bgp id _ hω).2.2 info hget
      rw [htype] at hbgp
      rcases htys ty hty with rfl | rfl <;> rcases hbgp with hbgp | hbgp <;> cases hbgp

/-- So no move of a BGP session changes it. -/
theorem get_of_bgpMoved (h : Kept units cfg own sys) {ω' : Dict IngressId Tenure}
    (hmoved : BgpMoved units (own .bgp) ω' sys.hub hub)
    (htys : ∀ ty ∈ tys, ty = .bmp ∨ ty = .bgpViaBmp) (hid : Candidate tys sys.hub (own .gc) id) :
    hub.register.get id = sys.hub.register.get id := by
  have hlt : id < sys.hub.register.serial := by
    rcases hid with hid | ⟨info, ty, hget, _⟩
    · exact (h.apart.holds .gc id _ hid).2.1
    · exact h.sound.numbered id (by rw [hget]; rfl)
  refine hmoved.frame ?_
  rcases hmoved.grows id with heq | ⟨_, hfresh⟩
  · exact heq.trans (not_bgp_of_candidate h htys hid)
  · exact absurd hlt (not_lt.mpr hfresh)

theorem kept_bgp (hun : sys.hub.register.Unwrapped) (h : Kept units cfg own sys) {m : BgpMove}
    (hstep : sys.bgp.step cfg sys.hub m = some (b, hub)) :
    ∃ ω', BgpMoved units (own .bgp) ω' sys.hub hub ∧
      Kept units cfg (Function.update own .bgp ω') { sys with hub := hub, bgp := b } := by
  obtain ⟨ω', hmoved, hb⟩ := Bgp.lands hun hstep h.sound (h.apart.holds .bgp) h.bgp h.kinds
  refine ⟨ω', hmoved, h.apart.step_of_spares .bgp hmoved.holds hmoved.spares,
    hmoved.sound h.sound, fun n => ?_, ?_, ?_, ?_⟩
  · simpa only [update_of_ne (by exact nofun : Owner.session n ≠ .bgp)] using h.threads n
  · simpa only [update_self] using hb
  · simpa only [update_self] using hmoved.kinds h.kinds
  · rw [update_of_ne (by exact nofun : Owner.gc ≠ .bgp)]
    have hkeep {tys : List IngressType} (htys : ∀ ty ∈ tys, ty = .bmp ∨ ty = .bgpViaBmp)
        {id : IngressId} (hid : Candidate tys sys.hub (own .gc) id) :
        Candidate tys hub (own .gc) id := by
      unfold Candidate
      rw [get_of_bgpMoved h hmoved htys hid]
      exact hid
    exact ⟨fun hid => hkeep (by simp) (h.gc.remembered hid),
      fun hid => hkeep (by simp) (h.gc.routers hid), h.gc.reclaimed⟩

theorem kept_sweep (h : Kept units cfg own sys) {gc : Gc} {rib : Rib S}
    (hstep : Gc.step order (sys.gc, sys.hub.rib) = (gc, rib)) :
    ∃ ω', Kept units cfg (Function.update own .gc ω')
      { sys with hub := { sys.hub with rib := rib }, gc := gc } := by
  obtain ⟨ω', hsound, hholds, hspares, hgc⟩ := gc_lands hstep h.sound (h.apart.holds .gc) h.gc
  refine ⟨ω', h.apart.step_of_spares .gc hholds hspares, hsound,
    fun n => ?_, ?_, ?_, ?_⟩
  · simpa only [update_of_ne (by exact nofun : Owner.session n ≠ .gc)] using h.threads n
  · simpa only [update_of_ne (by exact nofun : Owner.bgp ≠ .gc)] using h.bgp
  · rw [update_of_ne (by exact nofun : Owner.bgp ≠ .gc)]
    intro id info hget
    exact h.kinds id info (Gc.get_of_step hstep hget)
  · simpa only [update_self] using hgc

/-- The steps of the schedule are taken before the counter of the register wraps. -/
def Unwrapped (units : List IngressId) (cfg : RibConfig) : System S → List Move → Prop :=
  Along (step units cfg) fun sys _ => sys.hub.register.Unwrapped

theorem unwrapped_of_test {moves : List Move}
    (h : alongTest (step units cfg) (fun sys _ => sys.hub.register.Unwrapped) sys moves) :
    Unwrapped units cfg sys moves :=
  along_of_test _ (fun _ _ => of_decide_eq_true) h

structure LivePeer (sys : System S) (n : Nat) (c : Connection) (pph : PerPeerHeader)
    (st : PeerState) : Prop where
  live : c ∈ (sys.sessions n).live
  peer : c.stateMachine.peerStates.get pph = some st

def Exclusive (sys : System S) : Prop :=
  ∀ n c pph st n' c' pph' st', sys.LivePeer n c pph st → sys.LivePeer n' c' pph' st' →
    st.ingressId = st'.ingressId → n = n' ∧ pph = pph'

/-- The peers of live sessions have entries that are connected and match them. -/
def Entered (sys : System S) : Prop :=
  ∀ n c pph st, sys.LivePeer n c pph st →
    ∃ info, sys.hub.register.get st.ingressId = some info ∧ IsPeer c.stateMachine.ingressId pph info

theorem LivePeer.owned {c : Connection} {pph : PerPeerHeader} {st : PeerState}
    (hp : sys.LivePeer n c pph st) (h : Kept units cfg own sys) :
    (own (.session n)).get st.ingressId = some (.peer c.stateMachine.ingressId pph) :=
  ((h.threads n).visible c hp.live).carries pph st hp.peer

variable [LawfulPrefixStore S]

theorem kept_session (hun : sys.hub.register.Unwrapped) (h : Kept units cfg own sys) {t : Thread}
    (hstep : (sys.sessions n).step units cfg sys.hub m = some (t, hub)) :
    sys.hub.Step hub ∧ Holds (Ok units) (own .bgp) hub ∧ ∃ ω',
      Spares (Ok units) (own (.session n)) ω' sys.hub hub ∧ Claims sys.hub (own (.session n)) ω' ∧
      Kept units cfg (Function.update own (.session n) ω')
        { sys with
          hub := hub
          sessions := Function.update sys.sessions n t } := by
  obtain ⟨hsound, hhub, ω', hholds, hspares, hclaims, _, ht⟩ :=
    Thread.lands hun h.sound (h.apart.holds _) hstep (h.threads n)
  have hapart := h.apart.step_of_spares (.session n) hholds hspares
  have hbgp := hapart.holds .bgp
  rw [update_of_ne (by exact nofun : Owner.bgp ≠ .session n)] at hbgp
  refine ⟨hhub, hbgp, ω', hspares, hclaims, hapart, hsound, fun m => ?_, ?_, ?_, ?_⟩
  · by_cases hm : m = n
    · subst hm
      simpa only [update_self] using ht
    · simpa only [update_of_ne hm,
        update_of_ne (fun heq : Owner.session m = .session n => hm (by cases heq; rfl))]
        using h.threads m
  · simpa only [update_of_ne (by exact nofun : Owner.bgp ≠ .session n)] using h.bgp
  · rw [update_of_ne (by exact nofun : Owner.bgp ≠ .session n)]
    intro id info hget
    rcases hhub.kinds hget with hmon | hold
    · exact .inl hmon
    · exact h.kinds id info hold
  · rw [update_of_ne (by exact nofun : Owner.gc ≠ .session n)]
    exact h.gc.mono fun tys id hcand => hcand.step hhub

theorem kept_step (hun : sys.hub.register.Unwrapped) (h : Kept units cfg own sys) {m : Move}
    (hstep : sys.step units cfg m = some sys') : ∃ own', Kept units cfg own' sys' := by
  cases m with
  | session n m =>
    obtain ⟨⟨t, hub⟩, ht, rfl⟩ := map_eq_some_iff.mp hstep
    obtain ⟨_, _, ω', _, _, hkept⟩ := kept_session hun h ht
    exact ⟨_, hkept⟩
  | bgp m =>
    obtain ⟨⟨b, hub⟩, hb, rfl⟩ := map_eq_some_iff.mp hstep
    obtain ⟨ω', _, hkept⟩ := kept_bgp hun h hb
    exact ⟨_, hkept⟩
  | sweep order =>
    simp only [step] at hstep
    split at hstep <;> cases hstep
    obtain ⟨ω', hkept⟩ := kept_sweep h rfl
    exact ⟨_, hkept⟩

theorem kept_of_exec {k : Nat} {moves : List Move}
    (hun : Unwrapped (unitIds k) cfg (start k : System S) moves)
    (h : exec (step (unitIds k) cfg) (start k) moves = some sys) :
    ∃ own, Kept (unitIds k) cfg own sys :=
  exec_invariant _ (fun sys => ∃ own, Kept (unitIds k) cfg own sys) _
    (fun _ _ _ ⟨_, hkept⟩ hun hstep => kept_step hun hkept hstep) ⟨_, kept_start k⟩ hun h

/-- In every state of every schedule in which the counter does not wrap. -/
theorem peers_exclusive {k : Nat} {moves : List Move}
    (hun : Unwrapped (unitIds k) cfg (start k : System S) moves)
    (h : exec (step (unitIds k) cfg) (start k) moves = some sys) : sys.Exclusive ∧ sys.Entered := by
  obtain ⟨own, hkept⟩ := kept_of_exec hun h
  constructor
  · intro n c pph st n' c' pph' st' hp hp' hid
    have hown := hp.owned hkept
    have hown' := hp'.owned hkept
    rw [hid] at hown
    cases hkept.apart.disjoint hown hown'
    rw [hown'] at hown
    obtain ⟨_, hpph⟩ := Tenure.peer.inj (Option.some.inj hown)
    exact ⟨rfl, hpph.symm⟩
  · intro n c pph st hp
    exact (hkept.apart.holds _ _ _ (hp.owned hkept)).2.2

end System

/-! ## Two sessions of one router -/

namespace Twice

open BmpIn.Reconnect (addr pph initiation peerUp)

def proceeds (n steps : Nat) : List Move := List.replicate steps (.session n .proceed)

def message (n : Nat) (msg : BmpMsg) (steps : Nat) : List Move :=
  .session n (.receive false true ⟨[2, 3, 4, 5], [pph]⟩ msg) :: proceeds n steps

def arrives (n : Nat) : List Move :=
  .session n (.connect 1 addr) :: proceeds n 3 ++ message n initiation 6

def connects (n : Nat) : List Move := arrives n ++ message n peerUp 6

def config : RibConfig := ⟨true, none⟩

def runs (moves : List Move) : Option (System (MapStore RotondaPaMap)) :=
  exec (System.step (unitIds 1) config) (.start 1) moves

def peerId (n : Nat) (sys : System (MapStore RotondaPaMap)) : Option IngressId :=
  (sys.sessions n).live.bind fun c => c.stateMachine.peerStates.getPeerIngressId pph

theorem livePeer_of_peerId {n : Nat} {sys : System (MapStore RotondaPaMap)} {id : IngressId}
    (h : peerId n sys = some id) : ∃ c st, sys.LivePeer n c pph st ∧ st.ingressId = id := by
  obtain ⟨c, hlive, hid⟩ := Option.bind_eq_some_iff.mp h
  obtain ⟨st, hst, rfl⟩ := Option.map_eq_some_iff.mp hid
  exact ⟨c, st, ⟨hlive, hst⟩, rfl⟩

/-- The router connects a second time while its first session is up, and its peer has an id in
each. -/
theorem both_exclusive :
    (runs (connects 0 ++ connects 1)).map (fun sys => (peerId 0 sys, peerId 1 sys)) =
        some (some 3, some 5) ∧
      ∀ sys, runs (connects 0 ++ connects 1) = some sys → sys.Exclusive ∧ sys.Entered :=
  ⟨by decide +kernel, fun _ => System.peers_exclusive (System.unwrapped_of_test (by decide +kernel))⟩

def negotiated : BgpIn.Negotiated := ⟨.v4 192 0 2 9, 64501, [], []⟩

def accepts (count : Nat) : List Move :=
  (List.range count).map fun n => .bgp (.accept n negotiated)

/-- As many BGP connections accepted, each with an id of its own up to the wrap. -/
def accepted (sys : System (MapStore RotondaPaMap)) (count : Nat) :
    System (MapStore RotondaPaMap) where
  hub := sys.hub.setRegister
    { sys.hub.register with serial := sys.hub.register.serial + count }
  sessions := sys.sessions
  bgp := { sys.bgp with
    tasks := fun n => if n < count then
        some ⟨⟨negotiated, (sys.hub.register.serial + n) % 2 ^ 32, none, .connecting⟩, [], false, false⟩
      else none }
  gc := sys.gc

theorem bgp_of_sessions {sys sys' : System (MapStore RotondaPaMap)} {moves : List Move}
    (hmoves : ∀ m ∈ moves, ∃ n sm, m = .session n sm)
    (h : exec (System.step (unitIds 1) config) sys moves = some sys') : sys'.bgp = sys.bgp := by
  refine exec_invariant _ (fun s => s.bgp = sys.bgp) (fun _ m => ∃ n sm, m = .session n sm) ?_ rfl
    (along_of_forall _ _ fun m hm _ => hmoves m hm) h
  rintro s _ s' hs ⟨n, sm, rfl⟩ hstep
  obtain ⟨_, _, rfl⟩ := map_eq_some_iff.mp hstep
  exact hs

theorem exec_accepts (sys : System (MapStore RotondaPaMap)) (hnone : sys.bgp.tasks = fun _ => none)
    (count : Nat) :
    exec (System.step (unitIds 1) config) sys (accepts count) = some (accepted sys count) := by
  induction count with
  | zero =>
    obtain ⟨hub, sessions, ⟨tasks, _, _⟩, gc⟩ := sys
    cases hnone
    rfl
  | succ count ih =>
    rw [accepts, List.range_succ, List.map_append, exec_append, ← accepts, ih, Option.bind_some]
    have htask : (accepted sys count).bgp.tasks count = none := if_neg (lt_irrefl count)
    simp only [List.map_cons, List.map_nil, exec, System.step, Bgp.step, htask, Option.map_some,
      Option.bind_some]
    refine congrArg some (System.mk.injEq .. |>.mpr ⟨rfl, rfl, ?_, rfl⟩)
    refine Bgp.mk.injEq .. |>.mpr ⟨funext fun n => ?_, rfl, rfl⟩
    rw [Function.update_apply]
    by_cases heq : n = count
    · subst heq
      rw [if_pos rfl, if_pos (lt_succ_self n)]
      rfl
    · rw [if_neg heq]
      exact if_congr (by omega) rfl rfl

/-- The ids in between went to BGP connections: the peer of the second session gets the id that the
peer of the first still holds. -/
theorem wrapped_shared :
    ∃ sys, runs (connects 0 ++ arrives 1 ++ accepts (2 ^ 32 - 2) ++ message 1 peerUp 6) = some sys ∧
      ¬ sys.Exclusive := by
  have hids : ((runs (connects 0 ++ arrives 1)).bind fun sys =>
      (exec (System.step (unitIds 1) config) (accepted sys (2 ^ 32 - 2)) (message 1 peerUp 6)).map
        fun sys => (peerId 0 sys, peerId 1 sys)) = some (some 3, some 3) := by
    decide +kernel
  obtain ⟨sys, hsys, hids⟩ := Option.bind_eq_some_iff.mp hids
  obtain ⟨sys', hsys', hids⟩ := Option.map_eq_some_iff.mp hids
  refine ⟨sys', ?_, ?_⟩
  · have hbgp := bgp_of_sessions (by simp [connects, arrives, message, proceeds]) hsys
    rw [runs, exec_append, exec_append, ← runs, hsys, Option.bind_some,
      exec_accepts sys (congrArg Bgp.tasks hbgp), Option.bind_some, hsys']
  · intro h
    obtain ⟨h0, h1⟩ := Prod.mk.inj hids
    obtain ⟨c, st, hp, hst⟩ := livePeer_of_peerId h0
    obtain ⟨c', st', hp', hst'⟩ := livePeer_of_peerId h1
    cases (h 0 c pph st 1 c' pph st' hp hp' (hst.trans hst'.symm)).1

end Twice

end Rotonda.Node
