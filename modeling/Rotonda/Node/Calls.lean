import Rotonda.Node.Hub

/-!
The rules of the calls: what a BMP task has to own for a call, and what it owns after it.

* `wp_register`, `wp_findExistingPeerAndClaim`, `wp_findExistingBmpRouterAndClaim`: an id that can
  be nobody's becomes the task's;
* `wp_updateInfo`: an id changes its tenure;
* `wp_mark`, `wp_remove`: an id is given up;
* `wp_get`, `wp_updateData`: nothing changes hands.
-/

namespace Rotonda.Node

open Lib Lib.Ownership BmpIn Nat Register

variable {S : Type} [PrefixStore S RotondaPaMap] {units : List IngressId} {cfg : RibConfig}
  {l : Option Connection} {ω : Dict IngressId Tenure}
variable {id : IngressId} {t : Tenure} {old query : IngressInfo}
  {R : Post Unit} {u : Update}

/-! ## What the others see -/

theorem visible_none (ω : Dict IngressId Tenure) : Visible none ω := by
  rintro c ⟨⟩

theorem Runs.insert {router : IngressId} (h : Runs router ω)
    (ht : ω.get id = none ∨ t = .provisional ∨ t = .router) : Runs router (ω.insert id t) := by
  unfold Runs
  rw [Dict.get_insert]
  split
  next heq =>
    subst heq
    rcases ht with hnone | rfl | rfl
    · rcases h with h | h <;> cases hnone.symm.trans h
    · exact .inl rfl
    · exact .inr rfl
  · exact h

/-- An id of mine that is no peer becomes or stays one of a connection, or an id is new. -/
theorem Visible.insert (h : Visible l ω) (hid : ∀ parent pph, ω.get id ≠ some (.peer parent pph))
    (ht : ω.get id = none ∨ t = .provisional ∨ t = .router) : Visible l (ω.insert id t) := by
  intro c hc
  obtain ⟨hcarries, hruns⟩ := h c hc
  refine ⟨fun pph st hst => ?_, hruns.insert ht⟩
  have hpeer := hcarries pph st hst
  have hne : st.ingressId ≠ id := by
    rintro rfl
    exact hid _ _ hpeer
  rw [Dict.get_insert_of_ne t hne, hpeer]

theorem Visible.insert_free (h : Visible l ω) (hid : ω.get id = none)
    (t : Tenure) : Visible l (ω.insert id t) :=
  h.insert (fun _ _ hpeer => by cases hid.symm.trans hpeer) (.inl hid)

/-! ## Ids that nobody owns -/

/-- An entry that a claim may take fits no tenure. -/
theorem not_fits (hstate : old.state ≠ some .connected) (hparent : old.parentIngress ≠ none)
    (hknown : old.remoteAsn ≠ none ∨ old.name ≠ none) (t : Tenure) : ¬ t.Fits units (some old) := by
  intro hfits
  cases t with
  | vacant => cases hfits
  | provisional =>
    obtain ⟨info, heq, _, _, hasn, hname, _⟩ := hfits
    cases heq
    exact hknown.elim (fun h => h hasn) fun h => h hname
  | router =>
    obtain ⟨info, heq, _, hconn, _⟩ := hfits
    cases heq
    exact hstate hconn
  | claimed =>
    obtain ⟨info, heq, _, hconn⟩ := hfits
    cases heq
    exact hstate hconn
  | peer parent pph =>
    obtain ⟨info, heq, hpeer⟩ := hfits
    cases heq
    exact hstate hpeer.state
  | bgp => exact hparent (hfits old rfl).1

theorem ne_none_of_mandatory {α : Type} [DecidableEq α] {info query : Option α}
    (h : Register.mandatory info query = true) : info ≠ none ∧ info = query := by
  rw [Register.mandatory, Bool.and_eq_true, beq_iff_eq] at h
  refine ⟨fun hnone => ?_, h.2⟩
  rw [hnone] at h
  cases h.1

theorem matchesPeer_known (h : Register.matchesPeer query old = true) :
    old.state ≠ some .connected ∧ old.parentIngress ≠ none ∧ old.remoteAsn ≠ none := by
  simp only [Register.matchesPeer, Bool.and_eq_true, bne_iff_ne] at h
  exact ⟨h.1, (ne_none_of_mandatory h.2.1.1.1.1.1.1.1).1, (ne_none_of_mandatory h.2.1.1.1.1.1.2).1⟩

theorem matchesBmpRouter_known (h : Register.matchesBmpRouter query old = true) :
    old.state ≠ some .connected ∧ old.parentIngress ≠ none ∧
      old.ingressType = query.ingressType ∧ old.name = query.name := by
  simp only [Register.matchesBmpRouter, Bool.and_eq_true, bne_iff_ne, beq_iff_eq] at h
  exact ⟨h.1, (ne_none_of_mandatory h.2.1.1.1).1, (ne_none_of_mandatory h.2.1.2).2, h.2.2⟩

/-! ## Calls -/

/-- A call goes well: it leaves the others alone, and the task goes on with what it owns then. -/
def Lands (units : List IngressId) (ω : Dict IngressId Tenure) (l : Option Connection)
    (hub hub' : Hub S) (Q : Dict IngressId Tenure → Prop) : Prop :=
  Sound units hub' ∧ hub.Step hub' ∧ ∃ ω', Holds (Ok units) ω' hub' ∧
    Spares (Ok units) ω ω' hub hub' ∧ Claims hub ω ω' ∧ Visible l ω' ∧ Q ω'

section Claims

omit [PrefixStore S RotondaPaMap]

variable {hub : Hub S}

theorem Claims.refl (hub : Hub S) (ω : Dict IngressId Tenure) : Claims hub ω ω :=
  fun _ _ h _ => .inl h

theorem Claims.insert (ht : t.isBare = true → t = .vacant ∧ hub.register.serial ≤ id) :
    Claims hub ω (ω.insert id t) := by
  intro id' t' hget hbare
  rcases Dict.of_get_insert hget with ⟨rfl, rfl⟩ | ⟨_, hget⟩
  · exact .inr (ht hbare)
  · exact .inl hget

theorem Claims.erase (hub : Hub S) (ω : Dict IngressId Tenure) (id : IngressId) :
    Claims hub ω (ω.erase id) := by
  intro id' t' hget _
  exact .inl (Dict.of_get_erase hget).2

end Claims

theorem wp_onRegister {call : Call} (hcall : call.sends = [])
    {R : Post call.Resp}
    (h : ∀ hub : Hub S, hub.register.Unwrapped → Sound units hub → Holds (Ok units) ω hub → ∀ r reg,
      call.onRegister hub.register = (r, reg) → Lands units ω l hub (hub.setRegister reg) (R r l)) :
    taskWp S units cfg (Steps.perform call) l ω R := by
  refine Protocol.wp_perform fun hub hun hsound hholds => ?_
  have hlands := h hub hun hsound hholds _ _ rfl
  cases call with
  | updateData update => cases hcall
  | _ => exact hlands

variable {hub : Hub S}

theorem lands_same {Q : Dict IngressId Tenure → Prop} (hsound : Sound units hub)
    (hholds : Holds (Ok units) ω hub) (hl : Visible l ω) (hQ : Q ω) : Lands units ω l hub hub Q :=
  ⟨hsound, .refl hub, ω, hholds, Spares.refl (Ok units) ω hub, .refl hub ω, hl, hQ⟩

/-! ## Taking an id -/

theorem wp_register {R : Post IngressId}
    (hl : Visible l ω) (hR : ∀ id, ω.get id = none → R id l (ω.insert id .vacant)) :
    taskWp S units cfg Steps.register l ω R := by
  refine wp_onRegister rfl fun hub hun hsound hholds id reg hcall => ?_
  cases hcall
  rw [show hub.register.serial % 2 ^ 32 = hub.register.serial from hun.register]
  have hfree : ω.get hub.register.serial = none := by
    cases hget : ω.get hub.register.serial with
    | none => rfl
    | some t => exact absurd (hholds _ t hget).2.1 (lt_irrefl _)
  have hvacant : hub.register.get hub.register.serial = none :=
    Register.Numbered.get_serial hsound.numbered
  have hunit : hub.register.serial ∉ units := fun h => lt_irrefl _ (hsound.unit h).1
  have hedit : hub.Edited hub.register.serial (hub.setRegister hub.register.register.2) :=
    Hub.edited_setRegister (fun _ _ => rfl) (le_succ _)
  obtain ⟨hsound', hstep, hholds', hspares⟩ := hedit.takes (t := .vacant)
    (fun info hget => by cases hvacant.symm.trans hget) hsound hholds
    (fun t hok => absurd hok.2.1 (lt_irrefl _)) ⟨hunit, lt_succ_self _, hvacant⟩
    (fun h => absurd hvacant h)
  exact ⟨hsound', hstep, _, hholds', hspares, .insert fun _ => ⟨rfl, le_refl _⟩,
    hl.insert_free hfree .vacant, hR _ hfree⟩

omit [PrefixStore S RotondaPaMap] in
/-- An entry that changes its state only. -/
theorem newEntry_state (hsound : Sound units hub)
    (hget : hub.register.get id = some old) (hkind : Monitored old) {st : Option IngressState}
    (hnamed : st = some .disconnected ∨ old.remoteAsn ≠ none ∨ old.name ≠ none) :
    NewEntry hub (some old) { old with state := st } where
  shaped := by
    intro hparent hasn
    change old.ingressType = _
    exact hsound.shaped hget hparent hasn
  types := fun h _ => by cases h; rfl
  kinds := hkind
  unnamed := by
    rintro ⟨hstate, hasn, hname⟩
    rcases hnamed with hdisc | hknown | hknown
    · exact absurd hdisc hstate
    · exact absurd hasn hknown
    · exact absurd hname hknown
  parents := fun hp => .inl ⟨old, rfl, hp⟩

section

variable {R : Post (Option (IngressId × IngressInfo))} (hl : Visible l ω) (hnone : R none l ω)
include hl hnone

/-- A claim of what a search finds, where that is an entry that fits no tenure. -/
theorem lands_findAndClaim {order : List IngressId} {found : IngressInfo → Bool}
    {claimed : Option (IngressId × IngressInfo)} {reg : Register} (ht : t.isBare = false)
    (hsome : ∀ id info, ω.get id = none → R (some (id, info)) l (ω.insert id t))
    (hsound : Sound units hub) (hholds : Holds (Ok units) ω hub)
    (hclaim : hub.register.findAndClaim order found = (claimed, reg))
    (hfound : ∀ {id old}, hub.register.get id = some old → found old = true →
      Monitored old ∧ (old.remoteAsn ≠ none ∨ old.name ≠ none) ∧
      (∀ t : Tenure, ¬ t.Fits units (some old)) ∧
      t.Fits units (some { old with state := some .connected })) :
    Lands units ω l hub (hub.setRegister reg) (R claimed l) := by
  cases claimed with
  | none =>
    cases (findAndClaim_eq_none hclaim).1
    exact lands_same hsound hholds hl hnone
  | some e =>
  obtain ⟨id, info⟩ := e
  obtain ⟨old, hget, hold, rfl, rfl⟩ := findAndClaim_eq_some hclaim
  obtain ⟨hkind, hknown, hfits, hconnected⟩ := hfound hget hold
  have hbelow : id < hub.register.serial := hsound.numbered id (by rw [hget]; rfl)
  have hunit : id ∉ units := fun h => by cases hget.symm.trans (hsound.unit h).2
  have hnot (t : Tenure) : ¬ Ok units t hub id := fun hok => by
    have hok := hok.2.2
    rw [hget] at hok
    exact hfits t hok
  have hfree : ω.get id = none := by
    cases hω : ω.get id with
    | none => rfl
    | some t' => exact absurd (hholds id t' hω) (hnot t')
  have hself (info : IngressInfo) : (hub.register.insert id info).get id = some info := by
    rw [get_insert, if_pos rfl]
  have hedit (info : IngressInfo) : hub.Edited id (hub.setRegister (hub.register.insert id info)) :=
    Hub.edited_setRegister (fun id' hne => by rw [get_insert, if_neg hne]) (le_refl _)
  obtain ⟨hsound', hstep, hholds', hspares⟩ := (hedit _).takes
    (fun info hinfo => by
      cases (hself _).symm.trans hinfo
      rw [hget]
      exact newEntry_state hsound hget hkind (.inr hknown))
    hsound hholds (fun t hok => absurd hok (hnot t)) ⟨hunit, hbelow, hself _ ▸ hconnected⟩
    fun _ => hself _ ▸ nofun
  exact ⟨hsound', hstep, _, hholds', hspares,
    .insert (fun hbare => by cases ht.symm.trans hbare), hl.insert_free hfree t, hsome id _ hfree⟩

theorem wp_findExistingPeerAndClaim (order : List IngressId) (query : IngressInfo)
    (hsome : ∀ id info, ω.get id = none → R (some (id, info)) l (ω.insert id .claimed)) :
    taskWp S units cfg (Steps.findExistingPeerAndClaim order query) l ω R := by
  refine wp_onRegister rfl fun hub _ hsound hholds claimed reg hclaim => ?_
  refine lands_findAndClaim hl hnone rfl hsome hsound hholds hclaim fun hget hfound => ?_
  obtain ⟨hstate, hparent, hasn⟩ := matchesPeer_known hfound
  have htype := hsound.shaped hget (Option.isSome_iff_ne_none.mpr hparent)
    (Option.isSome_iff_ne_none.mpr hasn)
  exact ⟨.inr htype, .inl hasn, not_fits hstate hparent (.inl hasn), _, rfl, htype, rfl⟩

theorem wp_findExistingBmpRouterAndClaim (order : List IngressId)
    (htype : query.ingressType = some .bmp) (hname : query.name ≠ none)
    (hsome : ∀ id info, ω.get id = none → R (some (id, info)) l (ω.insert id .router)) :
    taskWp S units cfg (Steps.findExistingBmpRouterAndClaim order query) l ω R := by
  refine wp_onRegister rfl fun hub _ hsound hholds claimed reg hclaim => ?_
  refine lands_findAndClaim hl hnone rfl hsome hsound hholds hclaim fun {id old} hget hfound => ?_
  obtain ⟨hstate, hparent, htype', hname'⟩ := matchesBmpRouter_known hfound
  have hold : old.ingressType = some .bmp := htype'.trans htype
  -- an entry with a parent and an AS number is a peer's
  have hasn : old.remoteAsn = none := by
    by_contra hne
    have hpeer := hsound.shaped hget (Option.isSome_iff_ne_none.mpr hparent)
      (Option.isSome_iff_ne_none.mpr hne)
    rw [hold] at hpeer
    cases hpeer
  have hknown : old.name ≠ none := by
    rw [hname']
    exact hname
  exact ⟨.inl hold, .inr hknown, not_fits hstate hparent (.inr hknown), _, rfl, hold, rfl, hasn⟩

end

/-! ## Entries of mine -/

theorem wp_get {R : Post (Option IngressInfo)} (hl : Visible l ω) (hid : ω.get id = some t)
    (hR : ∀ e, t.Fits units e → R e l ω) : taskWp S units cfg (Steps.get id) l ω R := by
  refine wp_onRegister rfl fun hub _ hsound hholds e reg hcall => ?_
  cases hcall
  exact lands_same hsound hholds hl (hR _ (hholds id t hid).2.2)

def updated (e : Option IngressInfo) (info : IngressInfo) : IngressInfo :=
  e.elim info fun old => old.merge info

theorem wp_updateInfo {info : IngressInfo} (t' : Tenure) (ht' : t'.isBare = false)
    (hid : ω.get id = some t) (hfits : ∀ e, t.Fits units e → t'.Fits units (some (updated e info)))
    (hnew : ∀ hub : Hub S, Sound units hub → Holds (Ok units) ω hub →
      NewEntry hub (hub.register.get id) (updated (hub.register.get id) info))
    (hl : Visible l (ω.insert id t')) (hR : R () l (ω.insert id t')) :
    taskWp S units cfg (Steps.updateInfo id info) l ω R := by
  refine wp_onRegister rfl fun hub _ hsound hholds r reg hcall => ?_
  cases hcall
  have hok := hholds id t hid
  have hself : (hub.register.updateInfo id info).get id =
      some (updated (hub.register.get id) info) := by
    rw [get_updateInfo, if_pos rfl]
    rfl
  have hedit : hub.Edited id (hub.setRegister (hub.register.updateInfo id info)) :=
    Hub.edited_setRegister (fun id' hne => get_updateInfo_ne hne) (le_refl _)
  obtain ⟨hsound', hstep, hholds', hspares⟩ := hedit.takes (t := t')
    (fun new hget => by
      cases hself.symm.trans hget
      exact hnew hub hsound hholds)
    hsound hholds (fun _ _ => by rw [hid]; exact nofun)
    ⟨hok.1, hok.2.1, by
      change t'.Fits units ((hub.register.updateInfo id info).get id)
      rw [hself]
      exact hfits _ hok.2.2⟩
    (fun _ hnone => by cases hself.symm.trans hnone)
  exact ⟨hsound', hstep, _, hholds', hspares,
    .insert fun hbare => (by rw [ht'] at hbare; cases hbare), hl, hR⟩

/-! ## Giving an id up -/

/-- The tenures whose entry a teardown marks. -/
def Tenure.isMonitored : Tenure → Bool
  | provisional | router | peer .. => true
  | _ => false

theorem Tenure.Fits.monitored {e : Option IngressInfo} (h : t.Fits units e)
    (ht : t.isMonitored = true) : ∃ info, e = some info ∧ Monitored info := by
  cases t with
  | provisional | router => obtain ⟨info, he, htype, _⟩ := h; exact ⟨info, he, .inl htype⟩
  | peer parent pph => obtain ⟨info, he, hpeer⟩ := h; exact ⟨info, he, .inr hpeer.ingressType⟩
  | _ => cases ht

theorem wp_mark (hid : ω.get id = some t) (ht : t.isMonitored = true) (hl : Visible l (ω.erase id))
    (hR : R () l (ω.erase id)) :
    taskWp S units cfg (Steps.updateInfo id (.withState .disconnected)) l ω R := by
  refine wp_onRegister rfl fun hub _ hsound hholds r reg hcall => ?_
  cases hcall
  obtain ⟨old, hold, hkind⟩ := (hholds id t hid).2.2.monitored ht
  have hself : (hub.register.updateInfo id (.withState .disconnected)).get id =
      some { old with state := some .disconnected } := by
    rw [get_updateInfo, if_pos rfl, hold]
    exact congrArg some (old.merge_withState .disconnected)
  have hedit : hub.Edited id
      (hub.setRegister (hub.register.updateInfo id (.withState .disconnected))) :=
    Hub.edited_setRegister (fun id' hne => get_updateInfo_ne hne) (le_refl _)
  obtain ⟨hsound', hstep, hholds', hspares⟩ := hedit.gives
    (fun new hget => by
      cases hself.symm.trans hget
      rw [hold]
      exact newEntry_state hsound hold hkind (.inl rfl))
    hsound hholds hid (fun _ _ hnone => by cases hself.symm.trans hnone)
  exact ⟨hsound', hstep, _, hholds', hspares, .erase hub ω id, hl, hR⟩

theorem wp_remove (hid : ω.get id = some .provisional) (hl : Visible l (ω.erase id))
    (hR : R () l (ω.erase id)) : taskWp S units cfg (Steps.remove id) l ω R := by
  refine wp_onRegister rfl fun hub _ hsound hholds r reg hcall => ?_
  cases hcall
  obtain ⟨old, hold, htype, hstate, hasn, hname, _⟩ := (hholds id _ hid).2.2
  have hself : (hub.register.remove id).get id = none := by
    rw [get_remove, if_pos rfl]
  have hedit : hub.Edited id (hub.setRegister (hub.register.remove id)) :=
    Hub.edited_setRegister (fun id' hne => by rw [get_remove, if_neg hne]) (le_refl _)
  obtain ⟨hsound', hstep, hholds', hspares⟩ := hedit.gives
    (fun new hget => by cases hself.symm.trans hget) hsound hholds hid
    (fun old' hold' _ => by cases hold.symm.trans hold'; exact ⟨htype, hstate, hasn, hname⟩)
  exact ⟨hsound', hstep, _, hholds', hspares, .erase hub ω id, hl, hR⟩

/-! ## Updates -/

theorem mem_introduces_of_mem_announcers (h : id ∈ u.announcers) : id ∈ introduces u := by
  cases u <;> first | exact h | cases h

theorem mem_introduces_of_payload (h : id ∈ u.payloads.map Payload.ingressId) :
    id ∈ introduces u ∧ ∀ id', u ≠ .ingressReappeared id' := by
  cases u <;> first | exact ⟨h, nofun⟩ | cases h

/-- What the RIB unit forwards of a batch is about the payloads of the batch. -/
theorem introduces_filterPayload {rib : Rib S} {ps : List Payload}
    (hu : u ∈ (rib.filterPayload cfg ps).2) (hid : id ∈ introduces u) :
    id ∈ ps.map Payload.ingressId := by
  have hpayload (p : Payload) (hp : p ∈ u.payloads) : p.ingressId ∈ ps.map Payload.ingressId := by
    have hmem := List.mem_flatMap.mpr ⟨u, hu, hp⟩
    rw [Rib.filterPayload_forwarded] at hmem
    exact cfg.ingressId_mem_of_accepted hmem
  have hid : id ∈ u.payloads.map Payload.ingressId := by
    rcases Rib.filterPayload_kinds hu with rfl | ⟨p, rfl⟩ | ⟨qs, rfl⟩ <;> exact hid
  obtain ⟨p, hp, rfl⟩ := List.mem_map.mp hid
  exact hpayload p hp

theorem introduces_forwarded {rib : Rib S} {u' : Update} (hu : u' ∈ (rib.processUpdate cfg u).2)
    (hid : id ∈ introduces u') : id ∈ introduces u ∧ (u = .ingressReappeared id → u' = u) := by
  cases u with
  | bulk | single => exact ⟨introduces_filterPayload hu hid, nofun⟩
  | rtr update => cases hu
  | _ =>
    cases List.mem_singleton.mp hu
    exact ⟨hid, fun _ => rfl⟩

/-- An update about ids of connected entries leaves the register as it is. -/
theorem get_deliver (h : ∀ id ∈ introduces u, hub.register.stateOf id = some .connected)
    (id : IngressId) : (hub.deliver cfg u).register.get id = hub.register.get id := by
  rcases (hub.rib.touched_processUpdate cfg u).get id with heq | ⟨hid, heq⟩
  · exact heq
  · refine Eq.trans heq ?_
    have hconn := h id (mem_introduces_of_mem_announcers hid)
    rw [Register.stateOf, Hub.register] at hconn
    obtain ⟨info, hget, hstate⟩ := Option.bind_eq_some_iff.mp hconn
    rw [Hub.register, hget, ← hstate]
    rfl

omit [PrefixStore S RotondaPaMap] in
theorem sound_of_get_eq {hub' : Hub S} (h : Sound units hub)
    (hserial : hub'.register.serial = hub.register.serial)
    (hget : ∀ id, hub'.register.get id = hub.register.get id) : Sound units hub' where
  numbered := by
    intro id hsome
    rw [hget] at hsome
    rw [hserial]
    exact h.numbered id hsome
  shaped := fun hinfo => h.shaped ((hget _).symm.trans hinfo)
  unit := by
    intro id hunit
    rw [hserial, hget]
    exact h.unit hunit

variable [LawfulPrefixStore S]

theorem wp_updateData
    (hu : ∀ id ∈ introduces u, (∃ parent pph, ω.get id = some (.peer parent pph)) ∨
      u = .ingressReappeared id ∧ ω.get id = some .router) (hl : Visible l ω) (hR : R () l ω) :
    taskWp S units cfg (Steps.updateData u) l ω R := by
  refine Protocol.wp_perform fun hub _ hsound hholds => ?_
  have hentry (id : IngressId) (hid : id ∈ introduces u) : ∃ info,
      hub.register.get id = some info ∧ info.state = some .connected ∧
        (info.ingressType = some .bgpViaBmp ∨ u = .ingressReappeared id) := by
    rcases hu id hid with ⟨parent, pph, hω⟩ | ⟨hre, hω⟩
    · obtain ⟨info, hget, hpeer⟩ := (hholds id _ hω).2.2
      exact ⟨info, hget, hpeer.state, .inl hpeer.ingressType⟩
    · obtain ⟨info, hget, _, hstate, _⟩ := (hholds id _ hω).2.2
      exact ⟨info, hget, hstate, .inr hre⟩
  have hget (id : IngressId) : (hub.deliver cfg u).register.get id = hub.register.get id := by
    refine get_deliver (fun id hid => ?_) id
    obtain ⟨info, hinfo, hstate, _⟩ := hentry id hid
    rw [Register.stateOf, hinfo]
    exact hstate
  have hserial : (hub.deliver cfg u).register.serial = hub.register.serial :=
    (hub.rib.touched_processUpdate cfg u).serial
  have hkeep {t : Tenure} {id : IngressId} (hok : Ok units t hub id) :
      Ok units t (hub.deliver cfg u) id := hok.of_get_eq (le_of_eq hserial.symm) (hget id)
  change Lands units ω l hub (hub.deliver cfg u) (R () l)
  refine ⟨sound_of_get_eq hsound hserial hget, ⟨le_of_eq hserial.symm, ?_, ?_, ?_, ?_, ?_, ?_, ?_⟩, ω,
    fun id t hω => hkeep (hholds id t hω), fun id hnone t hok => ⟨hkeep hok, hnone⟩,
    .refl hub ω, hl, hR⟩
  · intro id info p hinfo hp
    exact .inl ⟨info, (hget id).symm.trans hinfo, hp⟩
  · intro id old info hold hinfo _
    cases hold.symm.trans ((hget id).symm.trans hinfo)
    rfl
  · intro id info hinfo
    exact .inr ((hget id).symm.trans hinfo)
  · intro id old info hold hinfo hu
    cases hold.symm.trans ((hget id).symm.trans hinfo)
    exact hu
  · intro id hstores
    rcases Rib.stores_processUpdate hstores with hstores | hmem
    · exact .inl hstores
    · obtain ⟨hid, hne⟩ := mem_introduces_of_payload hmem
      obtain ⟨info, hinfo, _, htype⟩ := hentry id hid
      exact .inr ⟨info, hinfo, htype.resolve_right (hne id)⟩
  · intro id old hold hnone
    cases hold.symm.trans ((hget id).symm.trans hnone)
  · refine ⟨_, rfl, fun u' hu' id hid => ?_⟩
    obtain ⟨hmem, hre⟩ := introduces_forwarded hu' hid
    obtain ⟨info, hinfo, _, htype⟩ := hentry id hmem
    exact ⟨info, (hget id).trans hinfo, htype.imp_right fun h => (hre h).trans h⟩

end Rotonda.Node
