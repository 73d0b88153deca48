import Rotonda.Lib.Dict
import Rotonda.Net

/-!
The ingress register: what is known of every source, keyed by a serial id.

* `updateInfo` merges the fields that are set, `get_updateInfo` says what it leaves;
* the `findExisting…` functions walk the map in its iteration order, which the standard library
  leaves open: it is an argument here (`IterOrder`);
* `findAndClaim_eq_some` and `findAndClaim_eq_none` say what a claim can do;
* `stateOf`, `disconnectAll`: the state of an entry and the mark that teardowns leave.
-/

namespace Rotonda

open Lib

abbrev IngressId := Nat

inductive IngressType where
  | bmp
  | bgpViaBmp
  | bgp
  | mrt
  | rtr
  deriving DecidableEq, Repr

inductive IngressState where
  | connected
  | disconnected
  | nonNetwork
  deriving DecidableEq, Repr

inductive RibType where
  | adjRibIn
  | adjRibOut
  | locRib
  deriving DecidableEq, Repr

inductive PeerRibType where
  | inPre
  | inPost
  | loc
  | outPre
  | outPost
  deriving DecidableEq, Repr

def PeerRibType.ofRibType (isPostPolicy : Bool) : RibType → PeerRibType
  | .adjRibIn => if isPostPolicy then .inPost else .inPre
  | .adjRibOut => if isPostPolicy then .outPost else .outPre
  | .locRib => .loc

inductive PeerType where
  | globalInstance
  | rdInstance
  | localInstance
  | localRibInstance
  | other (code : UInt8)
  deriving DecidableEq, Repr

/-- A route distinguisher: eight octets. -/
abbrev Distinguisher := { bs : Bytes // bs.length = 8 }

structure IngressInfo where
  unitName : Option String := none
  ingressType : Option IngressType := none
  parentIngress : Option IngressId := none
  state : Option IngressState := none
  remoteAddr : Option IpAddr := none
  remoteAsn : Option Asn := none
  ribType : Option RibType := none
  peerRibType : Option PeerRibType := none
  filename : Option String := none
  name : Option String := none
  desc : Option String := none
  localAsn : Option Asn := none
  peerType : Option PeerType := none
  distinguisher : Option Distinguisher := none
  vrfName : Option String := none
  localCapabilities : Option Bytes := none
  remoteCapabilities : Option Bytes := none
  deriving DecidableEq, Repr

namespace IngressInfo

/-- The fields of `new` that are set, the others from `old`. -/
def merge (old new : IngressInfo) : IngressInfo where
  unitName := new.unitName.or old.unitName
  ingressType := new.ingressType.or old.ingressType
  parentIngress := new.parentIngress.or old.parentIngress
  state := new.state.or old.state
  remoteAddr := new.remoteAddr.or old.remoteAddr
  remoteAsn := new.remoteAsn.or old.remoteAsn
  ribType := new.ribType.or old.ribType
  peerRibType := new.peerRibType.or old.peerRibType
  filename := new.filename.or old.filename
  name := new.name.or old.name
  desc := new.desc.or old.desc
  localAsn := new.localAsn.or old.localAsn
  peerType := new.peerType.or old.peerType
  distinguisher := new.distinguisher.or old.distinguisher
  vrfName := new.vrfName.or old.vrfName
  localCapabilities := new.localCapabilities.or old.localCapabilities
  remoteCapabilities := new.remoteCapabilities.or old.remoteCapabilities

/-- An info with nothing but a state, as the teardown and reactivation paths write it. -/
def withState (st : IngressState) : IngressInfo := { state := some st }

@[simp] theorem merge_withState (old : IngressInfo) (st : IngressState) :
    old.merge (withState st) = { old with state := some st } := by
  simp [merge, withState]

end IngressInfo

structure Register where
  /-- One more than the ids that were handed out.  The counter itself has 32 bits and wraps. -/
  serial : Nat
  info : Dict IngressId IngressInfo

namespace Register

variable {reg reg' : Register} {id : IngressId} {order : List IngressId}
  {found : IngressInfo → Bool}

def new : Register := ⟨1, .empty⟩

def get (reg : Register) (id : IngressId) : Option IngressInfo := reg.info.get id

def register (reg : Register) : IngressId × Register :=
  (reg.serial % 2 ^ 32, { reg with serial := reg.serial + 1 })

def insert (reg : Register) (id : IngressId) (info : IngressInfo) : Register :=
  { reg with info := reg.info.insert id info }

def updateInfo (reg : Register) (id : IngressId) (newInfo : IngressInfo) : Register :=
  reg.insert id (match reg.get id with
    | some old => old.merge newInfo
    | none => newInfo)

def remove (reg : Register) (id : IngressId) : Register := { reg with info := reg.info.erase id }

def removeIfDisconnected (reg : Register) (id : IngressId) : Option IngressInfo × Register :=
  match reg.get id with
  | some info =>
    if info.state = some .disconnected then (some info, reg.remove id) else (none, reg)
  | none => (none, reg)

section

variable (reg : Register) (id : IngressId)

theorem removeIfDisconnected_cases :
    reg.removeIfDisconnected id = (none, reg) ∨ ∃ info, reg.get id = some info ∧
      info.state = some .disconnected ∧ reg.removeIfDisconnected id = (some info, reg.remove id) := by
  unfold removeIfDisconnected
  cases hget : reg.get id with
  | none => exact .inl rfl
  | some info =>
    dsimp only
    split
    next hstate => exact .inr ⟨info, rfl, hstate, rfl⟩
    · exact .inl rfl

@[simp] theorem get_insert (info : IngressInfo) (id' : IngressId) :
    (reg.insert id info).get id' = if id' = id then some info else reg.get id' :=
  Dict.get_insert ..

@[simp] theorem get_register :
    reg.register.2.get id = reg.get id := rfl

variable (newInfo : IngressInfo)

theorem get_updateInfo
    (id' : IngressId) : (reg.updateInfo id newInfo).get id' =
      if id' = id then some ((reg.get id).elim newInfo fun old => old.merge newInfo)
      else reg.get id' := by
  rw [updateInfo, get_insert]
  cases reg.get id <;> rfl

@[simp] theorem get_remove (id' : IngressId) :
    (reg.remove id).get id' = if id' = id then none else reg.get id' := Dict.get_erase ..

end

theorem get_updateInfo_ne {id' : IngressId} {newInfo : IngressInfo}
    (h : id' ≠ id) : (reg.updateInfo id newInfo).get id' = reg.get id' := by
  rw [get_updateInfo, if_neg h]

/-! ## Searching the map -/

def IterOrder (reg : Register) (order : List IngressId) : Prop := reg.info.IterOrder order

def search (reg : Register) (order : List IngressId) (filter : IngressInfo → Bool) :
    List (IngressId × IngressInfo) :=
  reg.info.select order fun _ info => filter info

/-- The first entry, in iteration order, for which `found` holds. -/
def find (reg : Register) (order : List IngressId) (found : IngressInfo → Bool) :
    Option (IngressId × IngressInfo) :=
  reg.info.find order fun _ info => found info

def findAndClaim (reg : Register) (order : List IngressId) (found : IngressInfo → Bool) :
    Option (IngressId × IngressInfo) × Register :=
  match reg.find order found with
  | none => (none, reg)
  | some (id, info) =>
    let claimed := { info with state := some .connected }
    (some (id, claimed), reg.insert id claimed)

/-- A mandatory field of a match: set, and equal in the query. -/
def mandatory {α : Type} [DecidableEq α] (info query : Option α) : Bool :=
  info.isSome && info == query

def matchesBgpSession (query info : IngressInfo) : Bool :=
  mandatory info.remoteAddr query.remoteAddr && mandatory info.remoteAsn query.remoteAsn &&
    mandatory info.ingressType query.ingressType

def matchesPeer (query info : IngressInfo) : Bool :=
  info.state != some .connected &&
  (mandatory info.parentIngress query.parentIngress &&
    mandatory info.remoteAddr query.remoteAddr && mandatory info.remoteAsn query.remoteAsn &&
    info.ribType == query.ribType && info.peerRibType == query.peerRibType &&
    info.peerType == query.peerType && info.distinguisher == query.distinguisher &&
    info.vrfName == query.vrfName)

def matchesBmpRouter (query info : IngressInfo) : Bool :=
  info.state != some .connected &&
  (mandatory info.parentIngress query.parentIngress &&
    mandatory info.remoteAddr query.remoteAddr &&
    mandatory info.ingressType query.ingressType && info.name == query.name)

def findExistingBgpSession (reg : Register) (order : List IngressId) (query : IngressInfo) :
    Option (IngressId × IngressInfo) :=
  reg.find order (matchesBgpSession query)

def findExistingPeer (reg : Register) (order : List IngressId) (query : IngressInfo) :
    Option (IngressId × IngressInfo) :=
  reg.find order (matchesPeer query)

def findExistingPeerAndClaim (reg : Register) (order : List IngressId) (query : IngressInfo) :
    Option (IngressId × IngressInfo) × Register :=
  reg.findAndClaim order (matchesPeer query)

def findExistingBmpRouterAndClaim (reg : Register) (order : List IngressId)
    (query : IngressInfo) : Option (IngressId × IngressInfo) × Register :=
  reg.findAndClaim order (matchesBmpRouter query)

theorem findAndClaim_eq_some {info : IngressInfo}
    (h : reg.findAndClaim order found = (some (id, info), reg')) :
    ∃ old, reg.get id = some old ∧ found old = true ∧
      info = { old with state := some .connected } ∧ reg' = reg.insert id info := by
  unfold findAndClaim at h
  cases hf : reg.find order found with
  | none => rw [hf] at h; cases h
  | some p =>
    obtain ⟨id', old⟩ := p
    rw [hf] at h
    obtain ⟨_, hget, hfound⟩ := Dict.find_eq_some hf
    cases h
    exact ⟨old, hget, hfound, rfl, rfl⟩

theorem findAndClaim_eq_none (h : reg.findAndClaim order found = (none, reg')) :
    reg' = reg ∧ reg.find order found = none := by
  unfold findAndClaim at h
  cases hf : reg.find order found with
  | none => rw [hf] at h; cases h; exact ⟨rfl, rfl⟩
  | some p => rw [hf] at h; cases h

/-! ## The state of an ingress -/

def stateOf (reg : Register) (id : IngressId) : Option IngressState := (reg.get id).bind (·.state)

/-- Every entry has an id below the serial. -/
def Numbered (reg : Register) : Prop := ∀ id, (reg.get id).isSome → id < reg.serial

/-- The counter has not wrapped, so that the next id is handed out for the first time. -/
def Unwrapped (reg : Register) : Prop := reg.serial < 2 ^ 32

instance : DecidablePred Unwrapped := fun reg => reg.serial.decLt _

theorem Unwrapped.register (h : reg.Unwrapped) : reg.register.1 = reg.serial := Nat.mod_eq_of_lt h

theorem register_lt (reg : Register) : reg.register.1 < reg.register.2.serial :=
  Nat.lt_succ_of_le (Nat.mod_le ..)

def disconnectAll (reg : Register) (ids : List IngressId) : Register :=
  ids.foldl (fun reg id => reg.updateInfo id (.withState .disconnected)) reg

theorem stateOf_congr (h : reg'.get id = reg.get id) : reg'.stateOf id = reg.stateOf id := by
  rw [stateOf, h, stateOf]

theorem isSome_of_stateOf {st : IngressState}
    (h : reg.stateOf id = some st) : (reg.get id).isSome := by
  obtain ⟨info, hinfo, _⟩ := Option.bind_eq_some_iff.mp h
  rw [hinfo]
  rfl

section

variable (reg : Register) (id id' : IngressId)

theorem stateOf_insert (info : IngressInfo) :
    (reg.insert id info).stateOf id' = if id' = id then info.state else reg.stateOf id' := by
  rw [stateOf, get_insert]
  split <;> rfl

theorem stateOf_updateInfo (info : IngressInfo) :
    (reg.updateInfo id info).stateOf id' =
      if id' = id then info.state.or (reg.stateOf id) else reg.stateOf id' := by
  rw [stateOf, get_updateInfo]
  split
  · cases hget : reg.get id <;> simp [stateOf, hget, IngressInfo.merge]
  · rfl

theorem stateOf_remove :
    (reg.remove id).stateOf id' = if id' = id then none else reg.stateOf id' := by
  rw [stateOf, get_remove]
  split <;> rfl

end

section

variable (h : reg.Numbered)
include h

/-- The next id is free. -/
theorem Numbered.get_serial : reg.get reg.serial = none := by
  rw [← Option.not_isSome_iff_eq_none]
  exact fun hsome => Nat.lt_irrefl _ (h reg.serial hsome)

theorem Numbered.get_register_fst (hun : reg.Unwrapped) : reg.get reg.register.1 = none := by
  rw [hun.register]
  exact h.get_serial

theorem Numbered.insert (hid : id < reg.serial)
    (info : IngressInfo) : (reg.insert id info).Numbered := by
  intro id' hid'
  rw [get_insert] at hid'
  split at hid'
  next heq => rw [heq]; exact hid
  · exact h id' hid'

theorem Numbered.updateInfo (hid : id < reg.serial)
    (info : IngressInfo) : (reg.updateInfo id info).Numbered :=
  h.insert hid _

theorem Numbered.remove (id : IngressId) : (reg.remove id).Numbered := by
  intro id' hid'
  rw [get_remove] at hid'
  split at hid'
  · cases hid'
  · exact h id' hid'

theorem Numbered.register : reg.register.2.Numbered :=
  fun id hid => Nat.lt_succ_of_lt (h id hid)

end

@[simp] theorem disconnectAll_nil (reg : Register) : reg.disconnectAll [] = reg := rfl

theorem disconnectAll_cons (reg : Register) (id : IngressId) (ids : List IngressId) :
    reg.disconnectAll (id :: ids) =
      (reg.updateInfo id (.withState .disconnected)).disconnectAll ids := rfl

@[simp] theorem serial_disconnectAll (reg : Register) (ids : List IngressId) :
    (reg.disconnectAll ids).serial = reg.serial := by
  induction ids generalizing reg with
  | nil => rfl
  | cons id ids ih =>
    rw [disconnectAll_cons, ih]
    rfl

theorem stateOf_disconnectAll (reg : Register) (ids : List IngressId) (id : IngressId) :
    (reg.disconnectAll ids).stateOf id =
      if id ∈ ids then some .disconnected else reg.stateOf id := by
  induction ids generalizing reg with
  | nil => simp
  | cons id' ids ih =>
    rw [disconnectAll_cons, ih, stateOf_updateInfo]
    by_cases hmem : id ∈ ids <;> by_cases heq : id = id' <;> simp [hmem, heq, IngressInfo.withState]

theorem Numbered.disconnectAll (h : reg.Numbered) {ids : List IngressId}
    (hids : ∀ id ∈ ids, id < reg.serial) : (reg.disconnectAll ids).Numbered := by
  induction ids generalizing reg with
  | nil => exact h
  | cons id ids ih =>
    rw [disconnectAll_cons]
    apply ih
    · exact h.updateInfo (hids id List.mem_cons_self) _
    · intro id' hid'
      exact hids id' (List.mem_cons_of_mem _ hid')

end Register

end Rotonda
