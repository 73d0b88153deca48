import Rotonda.RibUnit.Unit

/-!
What one update leaves behind in the register and in the stores, whatever it says of routes.

* `Rib.touched_processUpdate`: it connects ingresses that it announces, and nothing else;
* `Rib.stores_processUpdate`: records are new only under ingresses of its payloads.
-/

namespace Rotonda

variable {ids : List IngressId} {ps : List Payload}

def Update.announcers : Update → List IngressId
  | .ingressReappeared id => [id]
  | u => u.payloads.map Payload.ingressId

/-- Some of the entries were marked as connected, or made so, and nothing else happened. -/
structure Register.Touched (ids : List IngressId) (reg reg' : Register) : Prop where
  serial : reg'.serial = reg.serial
  get (id : IngressId) : reg'.get id = reg.get id ∨
    id ∈ ids ∧ reg'.get id = some { (reg.get id).getD {} with state := some .connected }

namespace Register

theorem Touched.refl (ids : List IngressId) (reg : Register) : Touched ids reg reg :=
  ⟨rfl, fun _ => .inl rfl⟩

theorem Touched.trans {reg reg₁ reg₂ : Register} (h : Touched ids reg reg₁)
    (h' : Touched ids reg₁ reg₂) : Touched ids reg reg₂ := by
  refine ⟨h'.serial.trans h.serial, fun id => ?_⟩
  rcases h'.get id with heq | ⟨hid, heq⟩
  · rw [heq]
    exact h.get id
  · refine .inr ⟨hid, heq.trans ?_⟩
    rcases h.get id with heq' | ⟨_, heq'⟩
    · rw [heq']
    · rw [heq']
      rfl

theorem Touched.mono {ids' : List IngressId} {reg reg' : Register} (h : Touched ids reg reg')
    (hids : ∀ id ∈ ids, id ∈ ids') : Touched ids' reg reg' := by
  refine ⟨h.serial, fun id => ?_⟩
  rcases h.get id with heq | ⟨hid, heq⟩
  · exact .inl heq
  · exact .inr ⟨hids id hid, heq⟩

theorem touched_updateInfo (reg : Register) (id : IngressId) :
    Touched [id] reg (reg.updateInfo id (.withState .connected)) := by
  refine ⟨rfl, fun id' => ?_⟩
  rw [get_updateInfo]
  by_cases hid : id' = id
  · subst hid
    refine .inr ⟨List.mem_singleton_self id', ?_⟩
    rw [if_pos rfl]
    cases reg.get id' with
    | none => rfl
    | some old => exact congrArg some (old.merge_withState .connected)
  · rw [if_neg hid]
    exact .inl rfl

end Register

theorem RibConfig.ingressId_mem_of_accepted (cfg : RibConfig) {q : Payload}
    (h : q ∈ ps.filterMap cfg.accepted) : q.ingressId ∈ ps.map Payload.ingressId := by
  obtain ⟨p, hp, hacc⟩ := List.mem_filterMap.mp h
  have hid : q.ingressId = p.ingressId := congrArg RouteKey.mui (key_of_accepted hacc).1
  rw [hid]
  exact List.mem_map_of_mem hp

namespace Rib

variable {S : Type} [PrefixStore S RotondaPaMap]
variable {rib : Rib S} {id : IngressId} {cfg : RibConfig}

def Stores (rib : Rib S) (id : IngressId) : Prop :=
  ∃ k : RouteKey, k.mui = id ∧ (rib.localRecord k).isSome

/-! ## The register -/

theorem touched_insertPayload (cfg : RibConfig) (rib : Rib S) (p : Payload) :
    Register.Touched [p.ingressId] rib.ingressRegister
      (rib.insertPayload cfg p).ingressRegister := by
  rw [insertPayload, insert_eq, ingressRegister_insertPrefix]
  split
  · exact Register.touched_updateInfo ..
  · exact .refl ..

theorem touched_filterPayload (cfg : RibConfig) (rib : Rib S) (ps : List Payload) :
    Register.Touched (ps.map Payload.ingressId) rib.ingressRegister
      (rib.filterPayload cfg ps).1.ingressRegister := by
  have hfold (qs : List Payload) (hqs : ∀ q ∈ qs, q.ingressId ∈ ps.map Payload.ingressId) :
      Register.Touched (ps.map Payload.ingressId) rib.ingressRegister
        (qs.foldl (insertPayload cfg) rib).ingressRegister := by
    induction qs generalizing rib with
    | nil => exact .refl ..
    | cons q qs ih =>
      have hfirst := (rib.touched_insertPayload cfg q).mono
        fun id hid => List.mem_singleton.mp hid ▸ hqs q List.mem_cons_self
      exact hfirst.trans (ih _ fun q' hq' => hqs q' (List.mem_cons_of_mem _ hq'))
  rw [filterPayload_rib]
  exact hfold _ fun q hq => cfg.ingressId_mem_of_accepted hq

theorem touched_processUpdate (cfg : RibConfig) (rib : Rib S) (u : Update) :
    Register.Touched u.announcers rib.ingressRegister
      (rib.processUpdate cfg u).1.ingressRegister := by
  cases u with
  | bulk ps => exact rib.touched_filterPayload cfg ps
  | single p => exact rib.touched_filterPayload cfg [p]
  | withdrawBulk entries =>
    simp only [processUpdate]
    rw [ingressRegister_removeForIngresses, ingressRegister_withdrawForIngresses]
    exact .refl ..
  | withdraw id scope =>
    simp only [processUpdate]
    rw [ingressRegister_withdrawForIngresses]
    exact .refl ..
  | ingressReappeared id => exact Register.touched_updateInfo ..
  | upstreamStatusChange _ | outputStream | peerStats _ _ | rtr _ => exact .refl ..

/-! ## The stores -/

theorem stores_of_localRecord {rib' : Rib S}
    (h : ∀ k : RouteKey, k.mui = id → (rib'.localRecord k).isSome → (rib.localRecord k).isSome)
    (hid : rib'.Stores id) : rib.Stores id := by
  obtain ⟨k, hk, hsome⟩ := hid
  exact ⟨k, hk, h k hk hsome⟩

variable [LawfulPrefixStore S]

theorem stores_insertPayload {p : Payload}
    (h : (rib.insertPayload cfg p).Stores id) : rib.Stores id ∨ id = p.ingressId := by
  obtain ⟨k, hk, hsome⟩ := h
  by_cases hkey : k = p.key
  · right
    rw [← hk, hkey]
    rfl
  · rw [insertPayload, insert_eq, localRecord_insertPrefix_ne _ _ _ _ _ _ _ _ hkey] at hsome
    exact .inl ⟨k, hk, hsome⟩

theorem stores_filterPayload (h : (rib.filterPayload cfg ps).1.Stores id) :
    rib.Stores id ∨ id ∈ ps.map Payload.ingressId := by
  rw [filterPayload_rib] at h
  have hmem (q : Payload) (hq : q ∈ ps.filterMap cfg.accepted) :
      q.ingressId ∈ ps.map Payload.ingressId := cfg.ingressId_mem_of_accepted hq
  generalize ps.filterMap cfg.accepted = qs at h hmem
  induction qs generalizing rib with
  | nil => exact .inl h
  | cons q qs ih =>
    rcases ih h fun q' hq' => hmem q' (List.mem_cons_of_mem _ hq') with hstores | hid
    · rcases stores_insertPayload hstores with hstores | rfl
      · exact .inl hstores
      · exact .inr (hmem q List.mem_cons_self)
    · exact .inr hid

theorem stores_withdrawForIngresses {ids : List (IngressId × Option AfiSafiType)} {retain : Bool}
    (h : (rib.withdrawForIngresses ids retain).1.Stores id) : rib.Stores id := by
  refine stores_of_localRecord (fun k _ hsome => ?_) h
  rw [localRecord_withdrawForIngresses] at hsome
  split at hsome
  next hcond =>
    rw [Bool.and_eq_true] at hcond
    exact hcond.2
  · exact hsome

theorem stores_removeForIngresses :
    (rib.removeForIngresses ids).Stores id ↔ rib.Stores id ∧ id ∉ ids := by
  constructor
  · rintro ⟨k, rfl, hsome⟩
    rw [localRecord_removeForIngresses] at hsome
    split at hsome
    · cases hsome
    next hids => exact ⟨⟨k, rfl, hsome⟩, hids⟩
  · rintro ⟨⟨k, rfl, hsome⟩, hids⟩
    refine ⟨k, rfl, ?_⟩
    rw [localRecord_removeForIngresses, if_neg hids]
    exact hsome

theorem stores_processUpdate {u : Update} (h : (rib.processUpdate cfg u).1.Stores id) :
    rib.Stores id ∨ id ∈ u.payloads.map Payload.ingressId := by
  cases u with
  | bulk _ | single _ => exact stores_filterPayload h
  | withdrawBulk entries =>
    exact .inl (stores_withdrawForIngresses (stores_removeForIngresses.mp h).1)
  | withdraw id scope => exact .inl (stores_withdrawForIngresses h)
  | ingressReappeared id =>
    refine .inl (stores_of_localRecord (fun k _ hsome => ?_) h)
    exact (localRecord_markIngressActive rib id k) ▸ hsome
  | upstreamStatusChange status => exact .inl h
  | outputStream => exact .inl h
  | peerStats id body => exact .inl h
  | rtr update => exact .inl h

end Rib

end Rotonda
