import Rotonda.BmpIn.Steps
import Rotonda.RibUnit.Footprint

/-!
What the tasks of a node share, and what each of them may rely on.

All tasks use one register and one RIB, and the RIB unit handles an update while the task that
sent it waits.  A task owns ingress ids; the tenure of an id says what its entry looks like, and
no other task changes an entry that would fit a tenure.

* `Hub.handle`: a call of a BMP task;
* `Tenure.Fits`: the tenures;
* `Hub.Step`: what a call may do at most;
* `Hub.Edited.spares_insert`, `Hub.Edited.step`, `Hub.Edited.sound`: calls that change one entry.
-/

namespace Rotonda.Node

open Lib Lib.Ownership BmpIn

structure Hub (S : Type) where
  rib : Rib S
  /-- What the RIB unit has forwarded, until the units after it take it. -/
  gate : List Update

namespace Hub

variable {S : Type}

def register (hub : Hub S) : Register := hub.rib.ingressRegister

def setRegister (hub : Hub S) (reg : Register) : Hub S :=
  { hub with rib := { hub.rib with ingressRegister := reg } }

variable [PrefixStore S RotondaPaMap]

def deliver (cfg : RibConfig) (hub : Hub S) (u : Update) : Hub S :=
  ⟨(hub.rib.processUpdate cfg u).1, hub.gate ++ (hub.rib.processUpdate cfg u).2⟩

def handle (cfg : RibConfig) (hub : Hub S) : (call : Call) → call.Resp × Hub S
  | .updateData update => ((), hub.deliver cfg update)
  | call => ((call.onRegister hub.register).1, hub.setRegister (call.onRegister hub.register).2)

end Hub

def introduces : Update → List IngressId
  | .peerStats id _ => [id]
  | u => u.announcers

/-! ## Tenures -/

/-- The entry of a peer under a header in the session of a router. -/
structure IsPeer (parent : IngressId) (pph : PerPeerHeader) (info : IngressInfo) : Prop where
  state : info.state = some .connected
  ingressType : info.ingressType = some .bgpViaBmp
  parentIngress : info.parentIngress = some parent
  remoteAddr : info.remoteAddr = some pph.address
  remoteAsn : info.remoteAsn = some pph.asn
  peerRibType : info.peerRibType = some pph.peerRibType

inductive Tenure where
  /-- The id was taken and has no entry, or no longer one. -/
  | vacant
  /-- A connection before its Initiation. -/
  | provisional
  | router
  /-- The entry of a peer that was claimed. -/
  | claimed
  | peer (parent : IngressId) (pph : PerPeerHeader)
  | bgp

/-- What the entry of an id looks like; `units` are the ids of the units, which have none. -/
def Tenure.Fits (units : List IngressId) : Tenure → Option IngressInfo → Prop
  | vacant, e => e = none
  | provisional, e => ∃ info, e = some info ∧ info.ingressType = some .bmp ∧
      info.state ≠ some .disconnected ∧ info.remoteAsn = none ∧ info.name = none ∧
      ∃ unit ∈ units, info.parentIngress = some unit
  | router, e => ∃ info, e = some info ∧ info.ingressType = some .bmp ∧
      info.state = some .connected ∧ info.remoteAsn = none
  | claimed, e => ∃ info, e = some info ∧ info.ingressType = some .bgpViaBmp ∧
      info.state = some .connected
  | peer parent pph, e => ∃ info, e = some info ∧ IsPeer parent pph info
  | bgp, e => ∀ info, e = some info → info.parentIngress = none ∧
      (info.ingressType = some .bgp ∨ info.ingressType = none)

section

variable {S : Type}

def Ok (units : List IngressId) (t : Tenure) (hub : Hub S) (id : IngressId) : Prop :=
  id ∉ units ∧ id < hub.register.serial ∧ t.Fits units (hub.register.get id)

/-- What holds of the register at all times. -/
structure Sound (units : List IngressId) (hub : Hub S) : Prop where
  numbered : hub.register.Numbered
  shaped {id : IngressId} {info : IngressInfo} (h : hub.register.get id = some info)
    (hparent : info.parentIngress.isSome) (hasn : info.remoteAsn.isSome) :
    info.ingressType = some .bgpViaBmp
  unit {id : IngressId} (h : id ∈ units) : id < hub.register.serial ∧ hub.register.get id = none

variable [PrefixStore S RotondaPaMap]

/-- The entry is of the kind that BMP tasks make. -/
def Monitored (info : IngressInfo) : Prop :=
  info.ingressType = some .bmp ∨ info.ingressType = some .bgpViaBmp

/-- The entry of a connection that is up and has not said who it is. -/
def Unnamed (info : IngressInfo) : Prop :=
  info.state ≠ some .disconnected ∧ info.remoteAsn = none ∧ info.name = none

/-- What a call of a BMP task may do at most: a parent that is new to an entry is not disconnected,
types stay, entries are made for peers and routers, no entry loses its name, only entries of
unnamed routers go, records are new only under peers, and what is forwarded is about peers, but for
a router that reappears. -/
structure Hub.Step (hub hub' : Hub S) : Prop where
  serial : hub.register.serial ≤ hub'.register.serial
  parents {id : IngressId} {info : IngressInfo} {p : IngressId}
    (h : hub'.register.get id = some info) (hp : info.parentIngress = some p) :
    (∃ old, hub.register.get id = some old ∧ old.parentIngress = some p) ∨
      hub.register.stateOf p ≠ some .disconnected
  types {id : IngressId} {old info : IngressInfo} (h : hub.register.get id = some old)
    (h' : hub'.register.get id = some info) (hold : old.ingressType.isSome) :
    info.ingressType = old.ingressType
  kinds {id : IngressId} {info : IngressInfo} (h' : hub'.register.get id = some info) :
    Monitored info ∨ hub.register.get id = some info
  unnamed {id : IngressId} {old info : IngressInfo} (h : hub.register.get id = some old)
    (h' : hub'.register.get id = some info) (hinfo : Unnamed info) : Unnamed old
  stores {id : IngressId} (h : hub'.rib.Stores id) : hub.rib.Stores id ∨
    ∃ info, hub.register.get id = some info ∧ info.ingressType = some .bgpViaBmp
  entries {id : IngressId} {old : IngressInfo} (h : hub.register.get id = some old)
    (h' : hub'.register.get id = none) : old.ingressType = some .bmp ∧ Unnamed old
  gate : ∃ new, hub'.gate = hub.gate ++ new ∧ ∀ u ∈ new, ∀ id ∈ introduces u,
    ∃ info, hub'.register.get id = some info ∧
      (info.ingressType = some .bgpViaBmp ∨ u = .ingressReappeared id)

theorem Hub.Step.refl (hub : Hub S) : hub.Step hub where
  serial := Nat.le_refl _
  parents := fun h hp => .inl ⟨_, h, hp⟩
  types := fun h h' _ => by cases h.symm.trans h'; rfl
  kinds := .inr
  unnamed := fun h h' hinfo => by cases h.symm.trans h'; exact hinfo
  stores := .inl
  entries := fun h h' => by cases h.symm.trans h'
  gate := ⟨[], (List.append_nil _).symm, by simp⟩

def Carries (router : IngressId) (peers : PeerStates) (ω : Dict IngressId Tenure) : Prop :=
  ∀ pph st, peers.get pph = some st → ω.get st.ingressId = some (.peer router pph)

/-- The id is the one of a connection. -/
def Runs (id : IngressId) (ω : Dict IngressId Tenure) : Prop :=
  ω.get id = some .provisional ∨ ω.get id = some .router

/-- What the others see of a task: its peers are entered for them, under an id of its own. -/
structure Shown (c : Connection) (ω : Dict IngressId Tenure) : Prop where
  carries : Carries c.stateMachine.ingressId c.stateMachine.peerStates ω
  runs : Runs c.stateMachine.ingressId ω

def Visible (l : Option Connection) (ω : Dict IngressId Tenure) : Prop := ∀ c ∈ l, Shown c ω

/-- The tenures that an id without an entry fits. -/
def Tenure.isBare : Tenure → Bool
  | vacant | bgp => true
  | _ => false

/-- A task claims an id without an entry only if it did so before, or if the id is new. -/
def Claims (hub : Hub S) (ω ω' : Dict IngressId Tenure) : Prop :=
  ∀ id t, ω'.get id = some t → t.isBare = true →
    ω.get id = some t ∨ t = .vacant ∧ hub.register.serial ≤ id

def protocol (units : List IngressId) (cfg : RibConfig) :
    Protocol Call Call.Resp (Option Connection) (Hub S) IngressId Tenure where
  handle := Hub.handle cfg
  Ok := Ok units
  Within := fun hub => hub.register.Unwrapped
  Inv := Sound units
  Guar := Hub.Step
  Claims := Claims
  Visible := Visible

/-- What is to hold when a program of a task has ended. -/
abbrev Post (α : Type) : Type := α → Option Connection → Dict IngressId Tenure → Prop

variable (S) in
abbrev taskWp (units : List IngressId) (cfg : RibConfig) {α : Type} :
    Prog Call Call.Resp (Option Connection) α → Option Connection → Dict IngressId Tenure →
      Post α → Prop :=
  (protocol (S := S) units cfg).wp

end

/-! ## Calls that change one entry -/

section Edit

variable {S : Type} [PrefixStore S RotondaPaMap] {units : List IngressId} {hub hub' : Hub S}
  {id : IngressId} {ω : Dict IngressId Tenure} {t : Tenure}

/-- At most the entry of one id has changed. -/
structure Hub.Edited (id : IngressId) (hub hub' : Hub S) : Prop where
  others {id' : IngressId} (h : id' ≠ id) : hub'.register.get id' = hub.register.get id'
  serial : hub.register.serial ≤ hub'.register.serial
  stores {id' : IngressId} (h : hub'.rib.Stores id') : hub.rib.Stores id'
  gate : hub'.gate = hub.gate

theorem Hub.edited_setRegister {reg : Register}
    (hothers : ∀ id', id' ≠ id → reg.get id' = hub.register.get id')
    (hserial : hub.register.serial ≤ reg.serial) : hub.Edited id (hub.setRegister reg) where
  others := fun {id'} h => hothers id' h
  serial := hserial
  stores := fun h => h
  gate := rfl

omit [PrefixStore S RotondaPaMap] in
theorem Ok.of_get_eq (h : Ok units t hub id) (hserial : hub.register.serial ≤ hub'.register.serial)
    (hget : hub'.register.get id = hub.register.get id) : Ok units t hub' id :=
  ⟨h.1, Nat.lt_of_lt_of_le h.2.1 hserial, by rw [hget]; exact h.2.2⟩

section

variable (h : hub.Edited id hub')
include h

/-- The id is mine, or it can be nobody's. -/
theorem Hub.Edited.spares_insert (hfree : ∀ t, Ok units t hub id → ω.get id ≠ none) :
    Spares (Ok units) ω (ω.insert id t) hub hub' := by
  intro id' hnone t' hok
  have hne : id' ≠ id := by
    rintro rfl
    exact hfree t' hok hnone
  exact ⟨hok.of_get_eq h.serial (h.others hne), (Dict.get_insert_of_ne t hne).trans hnone⟩

theorem Hub.Edited.spares_erase (hmine : ω.get id ≠ none) :
    Spares (Ok units) ω (ω.erase id) hub hub' := by
  intro id' hnone t' hok
  have hne : id' ≠ id := by
    rintro rfl
    exact hmine hnone
  refine ⟨hok.of_get_eq h.serial (h.others hne), ?_⟩
  rw [Dict.get_erase_of_ne hne]
  exact hnone

theorem Hub.Edited.holds_insert (hω : Holds (Ok units) ω hub)
    (hok : Ok units t hub' id) : Holds (Ok units) (ω.insert id t) hub' := by
  intro id' t' hget
  rcases Dict.of_get_insert hget with ⟨rfl, rfl⟩ | ⟨hne, hget⟩
  · exact hok
  · exact (hω id' t' hget).of_get_eq h.serial (h.others hne)

theorem Hub.Edited.holds_erase (hω : Holds (Ok units) ω hub) :
    Holds (Ok units) (ω.erase id) hub' := by
  intro id' t' hget
  obtain ⟨hne, hget⟩ := Dict.of_get_erase hget
  exact (hω id' t' hget).of_get_eq h.serial (h.others hne)

end

structure NewEntry (hub : Hub S) (old : Option IngressInfo)
    (new : IngressInfo) : Prop where
  shaped (hparent : new.parentIngress.isSome) (hasn : new.remoteAsn.isSome) :
    new.ingressType = some .bgpViaBmp
  types {info : IngressInfo} (h : old = some info) (hsome : info.ingressType.isSome) :
    new.ingressType = info.ingressType
  kinds : Monitored new
  unnamed (hnew : Unnamed new) {info : IngressInfo} (h : old = some info) : Unnamed info
  parents {p : IngressId} (hp : new.parentIngress = some p) :
    (∃ info, old = some info ∧ info.parentIngress = some p) ∨
      hub.register.stateOf p ≠ some .disconnected

section

variable (h : hub.Edited id hub')
  (hnew : ∀ info, hub'.register.get id = some info → NewEntry hub (hub.register.get id) info)
include h hnew

theorem Hub.Edited.step
    (hgone : ∀ old, hub.register.get id = some old → hub'.register.get id = none →
      old.ingressType = some .bmp ∧ Unnamed old) : hub.Step hub' where
  serial := h.serial
  parents := by
    intro id' info p hget hp
    by_cases hid : id' = id
    · subst hid
      exact (hnew info hget).parents hp
    · exact .inl ⟨info, (h.others hid).symm.trans hget, hp⟩
  types := by
    intro id' old info hold hget hsome
    by_cases hid : id' = id
    · subst hid
      exact (hnew info hget).types hold hsome
    · cases hold.symm.trans ((h.others hid).symm.trans hget)
      rfl
  kinds := by
    intro id' info hget
    by_cases hid : id' = id
    · subst hid
      exact .inl (hnew info hget).kinds
    · exact .inr ((h.others hid).symm.trans hget)
  unnamed := by
    intro id' old info hold hget hinfo
    by_cases hid : id' = id
    · subst hid
      exact (hnew info hget).unnamed hinfo hold
    · cases hold.symm.trans ((h.others hid).symm.trans hget)
      exact hinfo
  stores := fun hid => .inl (h.stores hid)
  entries := by
    intro id' old hold hnone
    by_cases hid : id' = id
    · subst hid
      exact hgone old hold hnone
    · cases hold.symm.trans ((h.others hid).symm.trans hnone)
  gate := ⟨[], by rw [h.gate, List.append_nil], by simp⟩

theorem Hub.Edited.sound (hsound : Sound units hub) (hid : id < hub'.register.serial)
    (hunit : id ∉ units) : Sound units hub' where
  numbered := by
    intro id' hsome
    by_cases heq : id' = id
    · rw [heq]
      exact hid
    · rw [h.others heq] at hsome
      exact Nat.lt_of_lt_of_le (hsound.numbered id' hsome) h.serial
  shaped := by
    intro id' info hget
    by_cases heq : id' = id
    · subst heq
      exact (hnew info hget).shaped
    · exact hsound.shaped ((h.others heq).symm.trans hget)
  unit := by
    intro id' hmem
    have hne : id' ≠ id := fun heq => hunit (heq ▸ hmem)
    obtain ⟨hlt, hnone⟩ := hsound.unit hmem
    exact ⟨Nat.lt_of_lt_of_le hlt h.serial, (h.others hne).trans hnone⟩

/-- The id becomes or stays mine, under a tenure that its new entry fits. -/
theorem Hub.Edited.takes (hsound : Sound units hub) (hω : Holds (Ok units) ω hub)
    (hfree : ∀ t, Ok units t hub id → ω.get id ≠ none) (hok : Ok units t hub' id)
    (hgone : hub.register.get id ≠ none → hub'.register.get id ≠ none) :
    Sound units hub' ∧ hub.Step hub' ∧ Holds (Ok units) (ω.insert id t) hub' ∧
      Spares (Ok units) ω (ω.insert id t) hub hub' := by
  refine ⟨h.sound hnew hsound hok.2.1 hok.1, h.step hnew fun old hold hnone => ?_,
    h.holds_insert hω hok, h.spares_insert hfree⟩
  exact absurd hnone (hgone (by rw [hold]; exact nofun))

/-- An id of mine is given up. -/
theorem Hub.Edited.gives (hsound : Sound units hub) (hω : Holds (Ok units) ω hub)
    (hid : ω.get id = some t)
    (hgone : ∀ old, hub.register.get id = some old → hub'.register.get id = none →
      old.ingressType = some .bmp ∧ Unnamed old) :
    Sound units hub' ∧ hub.Step hub' ∧ Holds (Ok units) (ω.erase id) hub' ∧
      Spares (Ok units) ω (ω.erase id) hub hub' := by
  have hok := hω id t hid
  exact ⟨h.sound hnew hsound (Nat.lt_of_lt_of_le hok.2.1 h.serial) hok.1, h.step hnew hgone,
    h.holds_erase hω, h.spares_erase (by rw [hid]; exact nofun)⟩

end

end Edit

end Rotonda.Node
