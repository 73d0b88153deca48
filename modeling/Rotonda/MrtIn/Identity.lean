import Rotonda.MrtIn.Unit

/-!
The ids of MRT peers over whole runs of the unit.

A message finds the id of its peer if there is one, and registers the peer otherwise, so that
messages never give a peer a second id.  A dump registers every peer of its table.

* `Known`: the entries under the unit are such that lookups find them, and what was sent for a peer
  has one of its ids;
* `unique_step_iff`: one file keeps ids unique exactly when its peers are new;
* `oneIdentity_iff`: every peer has one identity exactly when the peers of every dump are new.
-/

namespace Rotonda.MrtIn.Runner

open Lib Lib.Runs List

variable {r : Runner} {peer : PeerEntry} {info : IngressInfo}
  {ingressMap : List (PeerEntry × IngressId)}

/-- No peer has two ids under the unit. -/
def Unique (r : Runner) : Prop :=
  ∀ peer id id', r.IsPeer peer id → r.IsPeer peer id' → id = id'

/-- No peer has two ids, and all routes of a peer, from dumps and from messages, have the same. -/
structure OneIdentity (r : Runner) : Prop where
  unique : r.Unique
  same : ∀ e ∈ r.sent, ∀ e' ∈ r.sent, e.peer = e'.peer →
    ∀ p ∈ e.update.payloads, ∀ p' ∈ e'.update.payloads, p.ingressId = p'.ingressId

def newPeers (r : Runner) (file : File) : List PeerEntry :=
  if r.stopped then []
  else match file.content with
    | .error _ => []
    | .ok content => content.peerIndexTable.toOption.getD []

/-- The peers of the file's table are all different and none of them is known to the unit. -/
def Fresh (r : Runner) (file : File) : Prop :=
  (r.newPeers file).Nodup ∧ ∀ peer ∈ r.newPeers file, ∀ id, ¬ r.IsPeer peer id

/-! ## Lookups -/

/-- An entry without any of the fields that tell the RIBs of one peer apart. -/
structure Plain (info : IngressInfo) : Prop where
  state : info.state ≠ some .connected
  ribType : info.ribType = none
  peerRibType : info.peerRibType = none
  peerType : info.peerType = none
  distinguisher : info.distinguisher = none
  vrfName : info.vrfName = none

structure Known (r : Runner) : Prop where
  numbered : r.register.Numbered
  plain : ∀ id info, r.register.get id = some info → info.parentIngress = some r.parentId →
    Plain info
  sent : ∀ e ∈ r.sent, ∀ p ∈ e.update.payloads, r.IsPeer e.peer p.ingressId

theorem plain_peerInfo (r : Runner) (peer : PeerEntry) (filename : Option String) :
    Plain { r.peerInfo peer with filename := filename } :=
  ⟨nofun, rfl, rfl, rfl, rfl, rfl⟩

theorem mandatory_iff {α : Type} [DecidableEq α] {info : Option α} {a : α} :
    Register.mandatory info (some a) = true ↔ info = some a := by
  cases info <;> simp [Register.mandatory]

theorem of_matchesPeer (h : Register.matchesPeer (r.peerInfo peer) info = true) :
    info.parentIngress = some r.parentId ∧ info.remoteAddr = some peer.addr ∧
      info.remoteAsn = some peer.asn := by
  simp only [Register.matchesPeer, peerInfo, Bool.and_eq_true, mandatory_iff] at h
  obtain ⟨_, ⟨⟨⟨⟨⟨⟨hparent, haddr⟩, hasn⟩, _⟩, _⟩, _⟩, _⟩, _⟩ := h
  exact ⟨hparent, haddr, hasn⟩

theorem matchesPeer_of_plain (hplain : Plain info) (hparent : info.parentIngress = some r.parentId)
    (haddr : info.remoteAddr = some peer.addr) (hasn : info.remoteAsn = some peer.asn) :
    Register.matchesPeer (r.peerInfo peer) info = true := by
  simp [Register.matchesPeer, Register.mandatory, peerInfo, hplain.state, hplain.ribType,
    hplain.peerRibType, hplain.peerType, hplain.distinguisher, hplain.vrfName, hparent, haddr, hasn]

/-- A lookup fails only for a peer without an id. -/
theorem not_isPeer_of_find_none (h : r.Known) (it : Iteration)
    (hfind : r.register.findExistingPeer (it.1 r.register) (r.peerInfo peer) = none)
    (id : IngressId) : ¬ r.IsPeer peer id := by
  rintro ⟨info, hget, hparent, haddr, hasn⟩
  have hmiss := (Dict.find_eq_none (it.2 r.register h.numbered)).mp hfind id info hget
  rw [matchesPeer_of_plain (h.plain id info hget hparent) hparent haddr hasn] at hmiss
  cases hmiss

theorem isPeer_of_find_some (it : Iteration) {id : IngressId}
    (hfind : r.register.findExistingPeer (it.1 r.register) (r.peerInfo peer) = some (id, info)) :
    r.IsPeer peer id := by
  obtain ⟨_, hget, hmatch⟩ := Dict.find_eq_some hfind
  exact ⟨info, hget, of_matchesPeer hmatch⟩

/-! ## Steps -/

/-- What a part of a file leaves that gives no second id to a peer. -/
structure Extends (r r' : Runner) : Prop where
  known : r'.Known
  grows : ∀ peer id, r.IsPeer peer id → r'.IsPeer peer id
  unique : r.Unique → r'.Unique

theorem Known.extends (h : r.Known) : Extends r r := ⟨h, fun _ _ h => h, id⟩

theorem Extends.trans {r₁ r₂ r₃ : Runner} (h₁ : Extends r₁ r₂) (h₂ : Extends r₂ r₃) :
    Extends r₁ r₃ :=
  ⟨h₂.known, fun peer id h => h₂.grows peer id (h₁.grows peer id h), h₂.unique ∘ h₁.unique⟩

/-- What a part of a file does that registers peers only after a lookup, as long as there are
ids. -/
structure Continues (r r' : Runner) : Prop where
  serial : r.register.serial ≤ r'.register.serial
  step : r.Known → r'.register.serial ≤ 2 ^ 32 → Extends r r'

theorem Continues.refl (r : Runner) : Continues r r := ⟨Nat.le_refl _, fun h _ => h.extends⟩

theorem Continues.trans {r₁ r₂ r₃ : Runner} (h₁ : Continues r₁ r₂) (h₂ : Continues r₂ r₃) :
    Continues r₁ r₃ := by
  refine ⟨h₁.serial.trans h₂.serial, fun h hle => ?_⟩
  have hfirst := h₁.step h (h₂.serial.trans hle)
  exact hfirst.trans (h₂.step hfirst.known hle)

section

variable (h : r.Known)
include h

theorem extends_updateData {u : Update}
    (hu : ∀ p ∈ u.payloads, r.IsPeer peer p.ingressId) : Extends r (r.updateData peer u) := by
  refine ⟨⟨h.numbered, h.plain, fun e he => ?_⟩, fun _ _ h => h, fun h => h⟩
  rcases mem_append.mp he with hold | hnew
  · exact h.sent e hold
  · rw [mem_singleton.mp hnew]
    exact hu

section

variable (hun : r.register.Unwrapped)
include hun

/-- The ids after a peer has been registered, by a message or from the table of a file. -/
theorem isPeer_registered_iff (peer : PeerEntry) (filename : Option String) (peer' : PeerEntry)
    (id : IngressId) :
    (r.registerInfo { r.peerInfo peer with filename := filename }).2.IsPeer peer' id ↔
      r.IsPeer peer' id ∨ id = r.register.serial ∧ peer' = peer :=
  isPeer_registerInfo_iff h.numbered hun rfl rfl rfl peer' id

theorem known_registered (peer : PeerEntry) (filename : Option String) :
    (r.registerInfo { r.peerInfo peer with filename := filename }).2.Known := by
  refine ⟨numbered_registerInfo h.numbered _, fun id info hget hparent => ?_, fun e he p hp => ?_⟩
  · rw [get_registerInfo h.numbered hun] at hget
    split at hget
    · cases hget
      exact plain_peerInfo r peer filename
    · exact h.plain id info hget hparent
  · exact (isPeer_registered_iff h hun peer filename e.peer p.ingressId).mpr
      (.inl (h.sent e he p hp))

end

/-- The id of a message's peer is one of its ids, also if it had to be registered. -/
theorem extends_ingressFor (it : Iteration) (peer : PeerEntry)
    (hle : (r.ingressFor it peer).2.register.serial ≤ 2 ^ 32) :
    Extends r (r.ingressFor it peer).2 ∧
      (r.ingressFor it peer).2.IsPeer peer (r.ingressFor it peer).1 := by
  unfold ingressFor at hle ⊢
  cases hfind : r.register.findExistingPeer (it.1 r.register) (r.peerInfo peer) with
  | some found => exact ⟨h.extends, isPeer_of_find_some it hfind⟩
  | none =>
    rw [hfind] at hle
    have hnone := not_isPeer_of_find_none h it hfind
    have hpeer := isPeer_registered_iff h hle peer none
    refine ⟨⟨known_registered h hle peer none, fun p id hid => (hpeer p id).mpr (.inl hid), ?_⟩,
      (hpeer peer _).mpr (.inr ⟨Register.Unwrapped.register hle, rfl⟩)⟩
    intro hunique p id id' hid hid'
    rcases (hpeer p id).mp hid with hold | ⟨heq, rfl⟩
    · rcases (hpeer p id').mp hid' with hold' | ⟨_, rfl⟩
      · exact hunique p id id' hold hold'
      · exact absurd hold (hnone id)
    · rcases (hpeer p id').mp hid' with hold' | ⟨heq', _⟩
      · exact absurd hold' (hnone id')
      · rw [heq, heq']

omit h in
theorem serial_le_ingressFor (it : Iteration) (peer : PeerEntry) :
    r.register.serial ≤ (r.ingressFor it peer).2.register.serial := by
  unfold ingressFor
  split
  · exact Nat.le_refl _
  · exact Nat.le_succ _

omit h in
theorem continues_processMessage (it : Iteration) (msg : Message) :
    Continues r (r.processMessage it msg).1 := by
  unfold processMessage
  split
  · exact .refl r
  next upd _ =>
    split
    · exact .refl r
    · exact .refl r
    next reach unreach _ _ =>
      refine ⟨serial_le_ingressFor it msg.peer, fun h hle => ?_⟩
      obtain ⟨hext, hpeer⟩ := extends_ingressFor h it msg.peer hle
      refine hext.trans (extends_updateData hext.known fun p hp => ?_)
      have hid : p.ingressId = (r.ingressFor it msg.peer).1 := by
        rcases mem_append.mp hp with hreach | hunreach
        · obtain ⟨rr, _, rfl⟩ := mem_map.mp hreach
          rfl
        · obtain ⟨rr, _, rfl⟩ := mem_map.mp hunreach
          rfl
      rw [hid]
      exact hpeer
  · exact .refl r
  · exact .refl r
  · exact .refl r
  · exact .refl r

omit h in
theorem continues_processRecord (record : Bgp4Mp × Iteration) :
    Continues r (r.processRecord record).1 := by
  unfold processRecord
  split
  next sc _ =>
    rw [processStateChange_eq]
    exact .refl r
  next msg _ => exact continues_processMessage record.2 msg

theorem extends_processRibEntry (hmap : ∀ x ∈ ingressMap, r.IsPeer x.1 x.2)
    (e : RibEntry) : Extends r (processRibEntry ingressMap r e).1 := by
  unfold processRibEntry
  split
  · exact h.extends
  · exact h.extends
  next rr _ =>
    split
    · exact h.extends
    next peer id hget =>
      refine extends_updateData h fun p hp => ?_
      rw [mem_singleton.mp hp]
      exact hmap (peer, id) (mem_of_getElem? hget)

end

theorem register_processRibEntry (e : RibEntry) :
    (processRibEntry ingressMap r e).1.register = r.register := by
  unfold processRibEntry
  split
  · rfl
  · rfl
  · split <;> rfl

/-! ## Tables -/

/-- What registering the peers of a table does: each gets a fresh id, by its place in the table. -/
structure Registers (r : Runner) (table : List PeerEntry) (r' : Runner) : Prop where
  known : r'.Known
  isPeer_iff : ∀ peer id, r'.IsPeer peer id ↔
    r.IsPeer peer id ∨ ∃ i, table[i]? = some peer ∧ id = r.register.serial + i

theorem Known.registers_nil (h : r.Known) : Registers r [] r :=
  ⟨h, fun peer id => by simp⟩

theorem serial_registerPeers (filename : String) (table : List PeerEntry) :
    (registerPeers filename table r ingressMap).1.register.serial =
      r.register.serial + table.length := by
  induction table generalizing r ingressMap with
  | nil => rfl
  | cons peer table ih =>
    rw [registerPeers]
    exact ih.trans (Nat.add_right_comm ..)

theorem registerPeers_registers (filename : String) (h : r.Known) (table : List PeerEntry)
    (hle : r.register.serial + table.length ≤ 2 ^ 32)
    (hmap : ∀ x ∈ ingressMap, r.IsPeer x.1 x.2) :
    Registers r table (registerPeers filename table r ingressMap).1 ∧
      ∀ x ∈ (registerPeers filename table r ingressMap).2,
        (registerPeers filename table r ingressMap).1.IsPeer x.1 x.2 := by
  induction table generalizing r ingressMap with
  | nil => exact ⟨h.registers_nil, hmap⟩
  | cons peer table ih =>
    have hun : r.register.Unwrapped :=
      Nat.lt_of_lt_of_le (Nat.lt_add_of_pos_right (Nat.succ_pos _)) hle
    have hpeer := isPeer_registered_iff h hun peer (some filename)
    have hmap' : ∀ x ∈ ingressMap ++ [(peer, r.register.register.1)],
        (r.registerInfo { r.peerInfo peer with filename := some filename }).2.IsPeer x.1 x.2 := by
      intro x hx
      rcases mem_append.mp hx with hold | hnew
      · exact (hpeer x.1 x.2).mpr (.inl (hmap x hold))
      · rw [mem_singleton.mp hnew]
        exact (hpeer peer _).mpr (.inr ⟨hun.register, rfl⟩)
    obtain ⟨hregisters, hids⟩ := ih (known_registered h hun peer (some filename))
      (hle.trans_eq' (Nat.add_right_comm _ _ 1)) hmap'
    refine ⟨⟨hregisters.known, fun p id => ?_⟩, hids⟩
    rw [registerPeers]
    refine (hregisters.isPeer_iff p id).trans ?_
    have hserial : (r.registerInfo { r.peerInfo peer with
        filename := some filename }).2.register.serial = r.register.serial + 1 := rfl
    rw [hpeer p id, hserial, or_assoc]
    apply or_congr_right
    constructor
    · rintro (⟨hid, hp⟩ | ⟨i, hi, hid⟩)
      · exact ⟨0, by rw [hp]; rfl, hid⟩
      · exact ⟨i + 1, hi, by rw [hid, Nat.add_assoc, Nat.add_comm 1 i]⟩
    · rintro ⟨i, hi, hid⟩
      cases i with
      | zero => exact .inl ⟨hid, (Option.some.inj hi).symm⟩
      | succ i => exact .inr ⟨i, hi, by rw [hid, Nat.add_assoc, Nat.add_comm 1 i]⟩

section

variable (h : r.Known)
include h

/-- Ids are unique after a table exactly when its peers are new. -/
theorem Registers.unique_iff {r' : Runner} {table : List PeerEntry} (hr : Registers r table r')
    (hunique : r.Unique) : r'.Unique ↔ table.Nodup ∧ ∀ peer ∈ table, ∀ id, ¬ r.IsPeer peer id := by
  have hold : ∀ {peer id}, r.IsPeer peer id → id < r.register.serial := by
    rintro peer id ⟨info, hget, _⟩
    exact h.numbered id (by rw [hget]; rfl)
  constructor
  · intro hr'
    refine ⟨?_, fun peer hpeer id hid => ?_⟩
    · rw [nodup_iff_getElem?_ne_getElem?]
      intro i j hij hj heq
      obtain ⟨peer, hpeer⟩ : ∃ peer, table[j]? = some peer := ⟨_, List.getElem?_eq_getElem hj⟩
      have hsame : r.register.serial + i = r.register.serial + j :=
        hr' peer _ _ ((hr.isPeer_iff peer _).mpr (.inr ⟨i, heq.trans hpeer, rfl⟩))
          ((hr.isPeer_iff peer _).mpr (.inr ⟨j, hpeer, rfl⟩))
      omega
    · obtain ⟨i, hi⟩ := mem_iff_getElem?.mp hpeer
      have hsame : id = r.register.serial + i :=
        hr' peer _ _ ((hr.isPeer_iff peer id).mpr (.inl hid))
          ((hr.isPeer_iff peer _).mpr (.inr ⟨i, hi, rfl⟩))
      have hlt : r.register.serial + i < r.register.serial := hsame ▸ hold hid
      omega
  · rintro ⟨hnodup, hnew⟩ peer id id' hid hid'
    rcases (hr.isPeer_iff peer id).mp hid with hin | ⟨i, hi, hidi⟩
    · rcases (hr.isPeer_iff peer id').mp hid' with hin' | ⟨j, hj, _⟩
      · exact hunique peer id id' hin hin'
      · exact absurd hin (hnew peer (mem_of_getElem? hj) id)
    · rcases (hr.isPeer_iff peer id').mp hid' with hin' | ⟨j, hj, hidj⟩
      · exact absurd hin' (hnew peer (mem_of_getElem? hi) id')
      · have hij : i = j := by
          obtain ⟨hlt, _⟩ := List.getElem?_eq_some_iff.mp hi
          exact (List.getElem?_inj hlt hnodup).mp (hi.trans hj.symm)
        rw [hidi, hidj, hij]

/-! ## Files -/

omit h in
theorem continues_records (records : List (Bgp4Mp × Iteration)) :
    Continues r (runUntil processRecord r records).1 := by
  have hbody : ∀ s, ∀ record ∈ records, Continues r s → Continues r (s.processRecord record).1 :=
    fun s record _ hs => hs.trans (continues_processRecord record)
  exact runUntil_invariant hbody (.refl r)

theorem extends_ribEntries (hmap : ∀ x ∈ ingressMap, r.IsPeer x.1 x.2) (entries : List RibEntry) :
    Extends r (runUntil (processRibEntry ingressMap) r entries).1 := by
  have hbody : ∀ s, ∀ e ∈ entries, Extends r s →
      Extends r (processRibEntry ingressMap s e).1 := by
    intro s e _ hs
    have hmap' : ∀ x ∈ ingressMap, s.IsPeer x.1 x.2 := fun x hx => hs.grows x.1 x.2 (hmap x hx)
    exact hs.trans (extends_processRibEntry hs.known hmap' e)
  exact runUntil_invariant hbody h.extends

omit h in
theorem register_ribEntries (entries : List RibEntry) :
    (runUntil (processRibEntry ingressMap) r entries).1.register = r.register :=
  runUntil_invariant (P := fun s : Runner => s.register = r.register)
    (fun _ e _ hs => (register_processRibEntry e).trans hs) rfl

/-- A dump registers the peers of its table. -/
theorem processDump_registers (filename : String) (content : MrtFile)
    (hle : (processDump filename content r).1.register.serial ≤ 2 ^ 32) :
    ∃ r₁, Registers r (content.peerIndexTable.toOption.getD []) r₁ ∧
      Extends r₁ (processDump filename content r).1 := by
  unfold processDump at hle ⊢
  cases htable : content.peerIndexTable with
  | error e => exact ⟨r, h.registers_nil, h.extends⟩
  | ok table =>
    rw [htable] at hle
    have hserial := @serial_registerPeers r [] filename table
    have hregs := @registerPeers_registers r [] filename h table
    cases hentries : content.ribEntries with
    | error e =>
      rw [hentries] at hle
      obtain ⟨hregisters, _⟩ := hregs (hserial ▸ hle) nofun
      exact ⟨_, hregisters, hregisters.known.extends⟩
    | ok entries =>
      simp only [hentries, register_ribEntries] at hle
      obtain ⟨hregisters, hids⟩ := hregs (hserial ▸ hle) nofun
      exact ⟨_, hregisters, extends_ribEntries hregisters.known hids entries⟩

/-- A file registers the peers of its table, and then goes on record by record. -/
theorem processFile_registers (hrunning : r.stopped = false) (file : File) (its : Nat → Iteration)
    (hle : (r.processFile file its).1.register.serial ≤ 2 ^ 32) :
    ∃ r₁, Registers r (r.newPeers file) r₁ ∧ Extends r₁ (r.processFile file its).1 := by
  unfold processFile at hle ⊢
  unfold newPeers
  rw [hrunning]
  cases hcontent : file.content with
  | error e => exact ⟨r, h.registers_nil, h.extends⟩
  | ok content =>
    have hdump := processDump_registers h file.filename content
    rw [hcontent] at hle
    dsimp only at hle ⊢
    rcases heq : processDump file.filename content r with ⟨r₂, failure⟩
    rw [heq] at hle hdump
    cases failure with
    | some failure => exact hdump hle
    | none =>
      obtain ⟨r₁, hregisters, hext⟩ := hdump ((continues_records _).serial.trans hle)
      exact ⟨r₁, hregisters, hext.trans ((continues_records _).step hext.known hle)⟩

variable (item : File × (Nat → Iteration))

section

variable (hle : (r.step item).register.serial ≤ 2 ^ 32)
include hle

/-- The same for a file of the queue, which a panic may have stopped before. -/
theorem step_registers :
    ∃ r₁, Registers r (r.newPeers item.1) r₁ ∧ Extends r₁ (r.step item) := by
  unfold step at hle ⊢
  split at hle
  next hstopped =>
    have hnone : r.newPeers item.1 = [] := by rw [newPeers, if_pos hstopped]
    rw [if_pos hstopped]
    exact ⟨r, hnone ▸ h.registers_nil, h.extends⟩
  next hrunning =>
    rw [if_neg hrunning]
    have hfile := processFile_registers h (by simpa using hrunning) item.1 item.2
    split at hle
    next r₂ heq =>
      rw [heq] at hfile
      obtain ⟨r₁, hregisters, hext⟩ := hfile hle
      exact ⟨r₁, hregisters, ⟨hext.known.numbered, hext.known.plain, hext.known.sent⟩, hext.grows,
        hext.unique⟩
    next r₂ _ _ heq =>
      rw [heq] at hfile
      exact hfile hle

theorem Known.step : (r.step item).Known := by
  obtain ⟨r₁, _, hext⟩ := step_registers h item hle
  exact hext.known

/-- One file keeps ids unique exactly when the peers of its table are new. -/
theorem unique_step_iff (hunique : r.Unique) : (r.step item).Unique ↔ r.Fresh item.1 := by
  obtain ⟨r₁, hregisters, hext⟩ := step_registers h item hle
  rw [Fresh, ← hregisters.unique_iff h hunique]
  refine ⟨fun hstep peer id id' hid hid' => ?_, hext.unique⟩
  exact hstep peer id id' (hext.grows peer id hid) (hext.grows peer id' hid')

end

omit item

/-- What was sent for a peer has one of its ids, so that one id each is all that is needed. -/
theorem oneIdentity_iff_unique : r.OneIdentity ↔ r.Unique := by
  refine ⟨OneIdentity.unique, fun hunique => ⟨hunique, ?_⟩⟩
  intro e he e' he' hpeer p hp p' hp'
  have hid' := h.sent e' he' p' hp'
  rw [← hpeer] at hid'
  exact hunique e.peer _ _ (h.sent e he p hp) hid'

end

/-! ## Runs -/

/-- No entry names a parent that has not been registered. -/
def WellParented (reg : Register) : Prop :=
  ∀ id info parent, reg.get id = some info → info.parentIngress = some parent → parent < reg.serial

section

variable {reg : Register} (hnum : reg.Numbered) (hparents : WellParented reg)
  (hun : reg.Unwrapped)
include hnum hparents hun

theorem not_isPeer_start (unitName : String) {id : IngressId}
    (hget : (start reg unitName).register.get id = some info) :
    info.parentIngress ≠ some (start reg unitName).parentId := by
  intro hparent
  have hreg : (start reg unitName).register = (reg.register.2).updateInfo reg.register.1
      { unitName := some unitName, desc := some "mrt-file-in unit" } := rfl
  rw [hreg, hun.register, Register.get_updateInfo, Register.get_register, Register.get_register,
    hnum.get_serial] at hget
  split at hget
  · cases hget
    cases hparent
  · have hlt := hparents id info _ hget hparent
    exact absurd (hlt.trans_eq' hun.register) (Nat.lt_irrefl _)

theorem known_start (unitName : String) : (start reg unitName).Known where
  numbered := hnum.register.updateInfo reg.register_lt _
  plain _ _ hget hparent := absurd hparent (not_isPeer_start hnum hparents hun unitName hget)
  sent := nofun

end

/-- In every run of the unit in which ids are handed out once, each peer has one identity throughout
exactly when no dump lists a peer twice or lists one that an earlier file has brought. -/
theorem oneIdentity_iff {reg : Register} (hnum : reg.Numbered) (hparents : WellParented reg)
    (unitName : String) (items : List (File × (Nat → Iteration)))
    (hle : ∀ pre, pre <+: items → (run step (start reg unitName) pre).register.serial ≤ 2 ^ 32) :
    (∀ pre, pre <+: items → (run step (start reg unitName) pre).OneIdentity) ↔
      ∀ pre item, pre ++ [item] <+: items →
        (run step (start reg unitName) pre).Fresh item.1 := by
  have hun : reg.Unwrapped := hle [] nil_prefix
  have hnext : ∀ pre item, pre ++ [item] <+: items →
      ((run step (start reg unitName) pre).step item).register.serial ≤ 2 ^ 32 := by
    intro pre item hpre
    rw [← run_snoc step]
    exact hle _ hpre
  have hstart := known_start hnum hparents hun unitName
  have hknown := run_invariant step (fun _ r => r.Known) (start reg unitName) items hstart
    fun pre item hpre h => h.step item (hnext pre item hpre)
  refine throughout_iff step (fun _ r => r.OneIdentity) (fun r item => r.Fresh item.1) _ items
    ?_ ?_ ?_
  · refine (oneIdentity_iff_unique hstart).mpr fun peer id id' hid _ => ?_
    obtain ⟨info, hget, hparent, _⟩ := hid
    exact absurd hparent (not_isPeer_start hnum hparents hun unitName hget)
  · intro pre item hpre hone hfresh
    have h := hknown pre ((prefix_append pre [item]).trans hpre)
    rw [oneIdentity_iff_unique (h.step item (hnext pre item hpre))]
    exact (unique_step_iff h item (hnext pre item hpre) hone.unique).mpr hfresh
  · intro pre item hpre hone hstale hone'
    have h := hknown pre ((prefix_append pre [item]).trans hpre)
    exact hstale ((unique_step_iff h item (hnext pre item hpre) hone.unique).mp hone'.unique)

/-! ### Dumps with the same peer -/

/-- An update file with one UPDATE of the peer, which withdraws 10.0.0.0/8. -/
def withdrawalOf (peer : PeerEntry) : File :=
  ⟨"updates.mrt", .ok ⟨.error "no peer index table", .ok [],
    [.message ⟨peer, .ok (.update (Rib.slash8Update [] [10]))⟩]⟩⟩

/-- Two dumps with the same peer leave it with two ids, and its routes with two. -/
theorem two_dumps_two_ids :
    ¬ (run step (start .new "mrt-in")
      [(dumpOf [peer65000], fun _ => .ascending),
        (dumpOf [peer65000], fun _ => .ascending)]).OneIdentity := by
  intro h
  have hsame : (2 : Nat) = 3 :=
    h.unique peer65000 2 3 ⟨_, rfl, rfl, rfl, rfl⟩ ⟨_, rfl, rfl, rfl, rfl⟩
  cases hsame

/-- A dump and an update file for its peer: the withdrawal has the id of the route. -/
theorem oneIdentity_dump_updates :
    (∀ pre, pre <+: [(dumpOf [peer65000], fun _ => Iteration.ascending),
        (withdrawalOf peer65000, fun _ => Iteration.ascending)] →
      (run step (start .new "mrt-in") pre).OneIdentity) ∧
    (run step (start .new "mrt-in") [(dumpOf [peer65000], fun _ => .ascending),
        (withdrawalOf peer65000, fun _ => .ascending)]).sent.map Emission.update =
      [.single (.slash8 10 2 .active), .bulk [.slash8 10 2 .withdrawn]] := by
  have hempty : ∀ id, Register.new.get id = none := fun id => rfl
  have hnum : Register.new.Numbered := fun id h => by simp [hempty] at h
  have hparents : WellParented .new := fun id info parent h => by simp [hempty] at h
  refine ⟨(oneIdentity_iff hnum hparents "mrt-in" _ ?_).mpr ?_, by decide +kernel⟩
  · intro pre hpre
    rcases prefix_cons_iff.mp hpre with rfl | ⟨_, rfl, hrest⟩
    · decide
    · rcases prefix_cons_iff.mp hrest with rfl | ⟨_, rfl, hlast⟩
      · decide +kernel
      · cases prefix_nil.mp hlast
        decide +kernel
  have hfirst : (start .new "mrt-in").Fresh (dumpOf [peer65000]) := by
    refine ⟨nodup_singleton _, fun peer _ id hid => ?_⟩
    obtain ⟨info, hget, hparent, _⟩ := hid
    exact not_isPeer_start hnum hparents (by decide) "mrt-in" hget hparent
  have hsecond : ∀ r : Runner, r.Fresh (withdrawalOf peer65000) := by
    intro r
    have hnone : r.newPeers (withdrawalOf peer65000) = [] := by
      simp [newPeers, withdrawalOf, Except.toOption]
    simp [Fresh, hnone]
  apply (@steps_cons _ _ step (fun r item => r.Fresh item.1) _ _ _).mpr
  refine ⟨hfirst, ?_⟩
  apply (@steps_cons _ _ step (fun r item => r.Fresh item.1) _ _ _).mpr
  exact ⟨hsecond _, @steps_nil _ _ step (fun r item => r.Fresh item.1) _⟩

end Rotonda.MrtIn.Runner
