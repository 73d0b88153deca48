import Rotonda.BgpIn.PeerConfig
import Rotonda.Comms.Gate

/-!
What becomes of the sessions of a BGP unit when the unit is reconfigured.

A connection is accepted with the entry that the lookup finds under the configuration of the time.
Its session then hears of every configuration over its own clone of the gate, and keeps or drops the
connection by a comparison with the configuration that it was accepted with.

* `matches_iff`: a session that has reacted to every configuration and is still there has what a new
  connection from its address would be given, exactly if the lookup still finds its entry with the
  protocols and add-path families of before.
-/

namespace Rotonda.BgpIn

open Lib.Runs List

/-! ## Configurations -/

structure BgpTcpIn (ord : PrefixOrder) where
  listen : String
  myAsn : Asn
  myBgpId : { bs : Bytes // bs.length = 4 }
  peerConfigs : PeerConfigs ord

/-- General and peer-specific parameters of a session. -/
structure CombinedConfig where
  myAsn : Asn
  myBgpId : { bs : Bytes // bs.length = 4 }
  remotePrefixOrExact : PrefixOrExact
  peerConfig : PeerConfig

namespace CombinedConfig

def remoteAsnAllowed (c : CombinedConfig) (remote : Asn) : Bool :=
  c.peerConfig.acceptRemoteAsn remote

def holdTime (c : CombinedConfig) : Option UInt16 := c.peerConfig.holdTime

def protocols (c : CombinedConfig) : List AfiSafiType := c.peerConfig.protocols

def addpath (c : CombinedConfig) : List AfiSafiType := c.peerConfig.addpath

/-- The same entry, and the same parameters for the negotiation. -/
structure Same (c c' : CombinedConfig) : Prop where
  entry : c.remotePrefixOrExact = c'.remotePrefixOrExact
  localAsn : c.myAsn = c'.myAsn
  bgpId : c.myBgpId = c'.myBgpId
  holdTime : c.holdTime = c'.holdTime
  md5Key : c.peerConfig.usedMd5Key = c'.peerConfig.usedMd5Key
  protocols : c.protocols = c'.protocols
  addpath : c.addpath = c'.addpath
  remoteAsns : ∀ asn, c.remoteAsnAllowed asn = c'.remoteAsnAllowed asn

end CombinedConfig

variable {ord : PrefixOrder}

namespace BgpTcpIn

/-- `PartialEq` for configurations of the unit. -/
def eq (unit other : BgpTcpIn ord) : Bool :=
  unit.listen == other.listen && unit.myAsn == other.myAsn && unit.myBgpId == other.myBgpId

/-- What a new connection from the address is given. -/
def configFor (unit : BgpTcpIn ord) (addr : IpAddr) : Option CombinedConfig :=
  (unit.peerConfigs.get addr).map fun (remoteNet, cfg) =>
    ⟨unit.myAsn, unit.myBgpId, remoteNet, cfg⟩

end BgpTcpIn

/-! ## Sessions -/

inductive DisconnectReason where
  | reconfiguration
  | deconfigured
  deriving DecidableEq

/-- The task of a session, with what waits for it in its clone of the gate. -/
structure Session (ord : PrefixOrder) where
  remoteAddr : IpAddr
  unitCfg : BgpTcpIn ord
  config : CombinedConfig
  attached : Bool
  commands : List (BgpTcpIn ord)
  disconnect : Option DisconnectReason
  /-- The loop was left. -/
  left : Bool

namespace Session

/-- The arm for a new configuration; `none` is a failed `expect`. -/
def reconfigured (s : Session ord) (newUnit : BgpTcpIn ord) : Option (Session ord) :=
  if !newUnit.eq s.unitCfg then
    some { s with disconnect := some .reconfiguration, left := true }
  else match newUnit.peerConfigs.getExact s.config.remotePrefixOrExact with
    | some newPeerConfig =>
      match s.unitCfg.peerConfigs.getExact s.config.remotePrefixOrExact with
      | some current =>
        if !newPeerConfig.eq current then some { s with disconnect := some .reconfiguration }
        else some s
      | none => none
    | none => some { s with disconnect := some .deconfigured, left := true }

/-- A command for the clone; a full queue drops it, and one that is not attached does not get it. -/
def notify (newUnit : BgpTcpIn ord) (s : Session ord) : Session ord :=
  if s.attached ∧ s.commands.length < Comms.commandQueueLen then
    { s with commands := s.commands ++ [newUnit] }
  else s

/-- The session is what a new connection from its address would be given. -/
def Matches (bgp : BgpTcpIn ord) (s : Session ord) : Prop :=
  ∃ c, bgp.configFor s.remoteAddr = some c ∧ c.Same s.config

/-- The lookup finds the entry of the session, with its protocols and add-path families. -/
def EntryKept (bgp : BgpTcpIn ord) (s : Session ord) : Prop :=
  ∃ cfg, bgp.peerConfigs.get s.remoteAddr = some (s.config.remotePrefixOrExact, cfg) ∧
    cfg.protocols = s.config.protocols ∧ cfg.addpath = s.config.addpath

end Session

/-! ## The unit -/

structure Runner (ord : PrefixOrder) where
  bgp : BgpTcpIn ord
  sessions : List (Session ord)

namespace Runner

def new (bgp : BgpTcpIn ord) : Runner ord := ⟨bgp, []⟩

inductive Move (ord : PrefixOrder) where
  | accept (addr : IpAddr)
  /-- The root handles the attach request of a session's clone. -/
  | attach (i : Nat)
  | reconfigure (newUnit : BgpTcpIn ord)
  /-- A session takes the first of its commands. -/
  | handle (i : Nat)

/-- A connection without an entry is refused. -/
def accept (st : Runner ord) (addr : IpAddr) : Runner ord :=
  match st.bgp.configFor addr with
  | some config =>
    { st with sessions := st.sessions ++ [⟨addr, st.bgp, config, false, [], none, false⟩] }
  | none => st

def step (st : Runner ord) : Move ord → Option (Runner ord)
  | .accept addr => some (st.accept addr)
  | .attach i => st.sessions[i]?.map fun s =>
    { st with sessions := st.sessions.set i { s with attached := true } }
  | .reconfigure newUnit =>
    some { bgp := newUnit, sessions := st.sessions.map (Session.notify newUnit) }
  | .handle i => st.sessions[i]?.bind fun s =>
    if s.left then none
    else match s.commands with
      | [] => none
      | newUnit :: rest =>
        (Session.reconfigured { s with commands := rest } newUnit).map fun s' =>
          { st with sessions := st.sessions.set i s' }

/-- A configuration that the root handles reaches every session that is still there. -/
def Delivers (st : Runner ord) : Move ord → Prop
  | .reconfigure _ => ∀ s ∈ st.sessions, s.disconnect = none →
    s.attached = true ∧ s.commands.length < Comms.commandQueueLen
  | _ => True

end Runner

/-! ## What the comparison lets pass -/

namespace Session

variable {s s' : Session ord} {newUnit bgp : BgpTcpIn ord}

/-- The configuration has an entry under the key of the session, and nothing that is compared has
changed. -/
def Passes (c : BgpTcpIn ord) (s : Session ord) : Prop :=
  c.eq s.unitCfg = true ∧ ∃ cfg, c.peerConfigs.getExact s.config.remotePrefixOrExact = some cfg ∧
    cfg.eq s.config.peerConfig = true

def Accepted (s : Session ord) : Prop := s.unitCfg.configFor s.remoteAddr = some s.config

theorem Accepted.get (h : s.Accepted) :
    s.unitCfg.peerConfigs.get s.remoteAddr =
        some (s.config.remotePrefixOrExact, s.config.peerConfig) ∧
      s.config.myAsn = s.unitCfg.myAsn ∧ s.config.myBgpId = s.unitCfg.myBgpId := by
  obtain ⟨⟨key, cfg⟩, hget, hconfig⟩ := Option.map_eq_some_iff.mp h
  rw [← hconfig]
  exact ⟨hget, rfl, rfl⟩

theorem Accepted.getExact (h : s.Accepted) :
    s.unitCfg.peerConfigs.getExact s.config.remotePrefixOrExact = some s.config.peerConfig :=
  PeerConfigs.getExact_of_get h.get.1

/-- A session passes the configuration that it was accepted under. -/
theorem Accepted.passes (h : s.Accepted) : s.Passes s.unitCfg :=
  ⟨by simp [BgpTcpIn.eq], _, h.getExact, by simp [PeerConfig.eq]⟩

/-- What the reaction can be; the entry that the session was accepted with is always there. -/
theorem Accepted.reconfigured (h : s.Accepted) (newUnit : BgpTcpIn ord) :
    ∃ s', s.reconfigured newUnit = some s' ∧
      ((s' = s ∧ s.Passes newUnit) ∨
        ∃ reason left, s' = { s with disconnect := some reason, left := left }) := by
  unfold Session.reconfigured
  split
  · exact ⟨_, rfl, .inr ⟨_, _, rfl⟩⟩
  next hunit =>
    cases hnew : newUnit.peerConfigs.getExact s.config.remotePrefixOrExact with
    | none => exact ⟨_, rfl, .inr ⟨_, _, rfl⟩⟩
    | some newPeerConfig =>
      rw [h.getExact]
      dsimp only
      split
      · exact ⟨_, rfl, .inr ⟨_, s.left, rfl⟩⟩
      next hpeer => exact ⟨s, rfl, .inl ⟨rfl, by simpa using hunit, _, hnew, by simpa using hpeer⟩⟩

/-- The session heard of the latest configuration, or will. -/
def Current (bgp : BgpTcpIn ord) (s : Session ord) : Prop :=
  s.Accepted ∧ (s.disconnect = none →
    (∀ c, s.commands.getLast? = some c → c = bgp) ∧ (s.commands = [] → s.Passes bgp))

/-- For a session that passes, the rest is in the entry that the lookup finds. -/
theorem Passes.matches_iff_entryKept (hpass : s.Passes bgp) (h : s.Accepted) :
    s.Matches bgp ↔ s.EntryKept bgp := by
  obtain ⟨hunit, cfg, hget, hpeer⟩ := hpass
  simp only [BgpTcpIn.eq, PeerConfig.eq, Bool.and_eq_true, beq_iff_eq] at hunit hpeer
  obtain ⟨_, hasn, hid⟩ := h.get
  constructor
  · rintro ⟨c, hc, hsame⟩
    obtain ⟨⟨key, cfg'⟩, hlookup, rfl⟩ := Option.map_eq_some_iff.mp hc
    refine ⟨cfg', ?_, hsame.protocols, hsame.addpath⟩
    rw [hlookup, ← hsame.entry]
  · rintro ⟨cfg', hlookup, hprotocols, haddpath⟩
    have hsome := PeerConfigs.getExact_of_get hlookup
    rw [hget] at hsome
    cases hsome
    refine ⟨⟨bgp.myAsn, bgp.myBgpId, s.config.remotePrefixOrExact, cfg⟩, ?_, ?_⟩
    · rw [BgpTcpIn.configFor, hlookup]
      rfl
    · refine ⟨rfl, hunit.1.2.trans hasn.symm, hunit.2.trans hid.symm, hpeer.1.2, ?_, hprotocols,
        haddpath, fun asn => ?_⟩
      · simp only [PeerConfig.usedMd5Key, hpeer.2]
      · simp only [CombinedConfig.remoteAsnAllowed, PeerConfig.acceptRemoteAsn, hpeer.1.1]

end Session

/-! ## Every run -/

namespace Session

variable {s s' : Session ord} {newUnit bgp : BgpTcpIn ord}

theorem Current.notify (h : s.Current bgp)
    (hdelivered : s.disconnect = none →
      s.attached = true ∧ s.commands.length < Comms.commandQueueLen) :
    (s.notify newUnit).Current newUnit := by
  obtain ⟨haccepted, hcurrent⟩ := h
  unfold Session.notify
  split
  · exact ⟨haccepted, fun _ => ⟨by simp, by simp⟩⟩
  next hmissed => exact ⟨haccepted, fun hopen => absurd (hdelivered hopen) hmissed⟩

theorem Current.handle {rest : List (BgpTcpIn ord)} (h : s.Current bgp)
    (hcommands : s.commands = newUnit :: rest)
    (hs : Session.reconfigured { s with commands := rest } newUnit = some s') : s'.Current bgp := by
  obtain ⟨haccepted, hcurrent⟩ := h
  have haccepted' : Accepted { s with commands := rest } := haccepted
  obtain ⟨s'', hsome, hreaction⟩ := haccepted'.reconfigured newUnit
  rw [hs] at hsome
  cases hsome
  rcases hreaction with ⟨rfl, hpass⟩ | ⟨reason, left, rfl⟩
  · refine ⟨haccepted, fun hopen => ?_⟩
    obtain ⟨hlast, _⟩ := hcurrent hopen
    rw [hcommands] at hlast
    constructor
    · intro c hc
      refine hlast c ?_
      rw [List.getLast?_cons, hc]
      rfl
    · rintro rfl
      rw [← hlast newUnit rfl]
      exact hpass
  · exact ⟨haccepted, fun hopen => by cases hopen⟩

end Session

namespace Runner

variable {st st' : Runner ord}

/-- Every session heard of the latest configuration, or will. -/
def Current (st : Runner ord) : Prop := ∀ s ∈ st.sessions, s.Current st.bgp

theorem Current.set {i : Nat} {s : Session ord} (h : st.Current) (hs : s.Current st.bgp) :
    ({ st with sessions := st.sessions.set i s } : Runner ord).Current := by
  intro t ht
  rcases mem_or_eq_of_mem_set ht with ht | rfl
  · exact h t ht
  · exact hs

theorem Current.step {m : Move ord} (h : st.Current) (hdelivered : st.Delivers m)
    (hs : st.step m = some st') : st'.Current := by
  cases m with
  | accept addr =>
    cases hs
    unfold Runner.accept
    cases hconfig : st.bgp.configFor addr with
    | none => exact h
    | some config =>
      intro s hs
      rcases mem_append.mp hs with hs | hs
      · exact h s hs
      · cases mem_singleton.mp hs
        have haccepted : Session.Accepted ⟨addr, st.bgp, config, false, [], none, false⟩ := hconfig
        exact ⟨haccepted, fun _ => ⟨by simp, fun _ => haccepted.passes⟩⟩
  | attach i =>
    obtain ⟨s, hget, rfl⟩ := Option.map_eq_some_iff.mp hs
    have hcurrent := h s (mem_of_getElem? hget)
    exact h.set hcurrent
  | reconfigure newUnit =>
    cases hs
    intro s hs
    obtain ⟨s, hmem, rfl⟩ := mem_map.mp hs
    exact (h s hmem).notify (hdelivered s hmem)
  | handle i =>
    obtain ⟨s, hget, hs⟩ := Option.bind_eq_some_iff.mp hs
    have hcurrent := h s (mem_of_getElem? hget)
    by_cases hleft : s.left = true
    · simp [hleft] at hs
    · rw [if_neg hleft] at hs
      cases hcommands : s.commands with
      | nil => simp [hcommands] at hs
      | cons newUnit rest =>
        rw [hcommands] at hs
        obtain ⟨s', hreact, rfl⟩ := Option.map_eq_some_iff.mp hs
        exact h.set (hcurrent.handle hcommands hreact)

/-- In every run in which each configuration reaches the sessions that are there, a session that has
reacted to all of them and was not disconnected has the entry and the parameters that a new
connection from its address would be given, exactly if the lookup under the latest configuration
still finds its entry, with the protocols and add-path families it was accepted with. -/
theorem matches_iff (bgp : BgpTcpIn ord) {ms : List (Move ord)}
    (hrun : exec step (new bgp) ms = some st) (hdelivered : Along step Delivers (new bgp) ms)
    {s : Session ord} (hs : s ∈ st.sessions) (hopen : s.disconnect = none)
    (hidle : s.commands = []) : s.Matches st.bgp ↔ s.EntryKept st.bgp := by
  have hcurrent : st.Current :=
    exec_invariant step Current Delivers (fun _ _ _ h hd hs => h.step hd hs)
      (fun s hs => by cases hs) hdelivered hrun
  obtain ⟨haccepted, hpass⟩ := hcurrent s hs
  exact ((hpass hopen).2 hidle).matches_iff_entryKept haccepted

/-! ## Two reconfigurations -/

def unitWith (cfg : PeerConfig) : BgpTcpIn bitOrder where
  listen := "127.0.0.1:179"
  myAsn := 65000
  myBgpId := ⟨[192, 0, 2, 1], rfl⟩
  peerConfigs := ⟨[(.pfx (.slash8 10), cfg)], by simp⟩

/-- A connection is accepted with one entry and hears of another. -/
def replaced (cfg : PeerConfig) : List (Move bitOrder) :=
  [.accept (.v4 10 0 0 1), .attach 0, .reconfigure (unitWith cfg), .handle 0]

def unicastPeer : PeerConfig := { anyPeer "peer" with protocols := [.ipv4Unicast] }

/-- The entry of a session gets a list of protocols; the session stays and does not have it. -/
theorem protocols_not_matched :
    ∃ st s, exec step (new (unitWith (anyPeer "peer"))) (replaced unicastPeer) = some st ∧
      st.sessions = [s] ∧ s.disconnect = none ∧ s.commands = [] ∧ ¬ s.Matches st.bgp := by
  refine ⟨_, _, rfl, rfl, rfl, rfl, ?_⟩
  rintro ⟨c, hc, hsame⟩
  cases hc
  cases hsame.protocols

/-- An entry gets another name, and the session matches it. -/
theorem renamed_matches :
    ∃ st s, exec step (new (unitWith (anyPeer "peer"))) (replaced (anyPeer "renamed")) = some st ∧
      st.sessions = [s] ∧ s.disconnect = none ∧ s.Matches st.bgp := by
  have hdelivered : Along step Delivers (new (unitWith (anyPeer "peer")))
      (replaced (anyPeer "renamed")) := by
    refine along_cons step rfl trivial (along_cons step rfl trivial (along_cons step rfl ?_
      (along_of_forall step _ fun e he _ => ?_)))
    · intro s hs _
      cases mem_singleton.mp hs
      exact ⟨rfl, by decide⟩
    · cases mem_singleton.mp he
      trivial
  refine ⟨_, _, rfl, rfl, rfl, ?_⟩
  exact (matches_iff _ rfl hdelivered mem_cons_self rfl rfl).mpr ⟨_, rfl, rfl, rfl⟩

end Runner

end Rotonda.BgpIn
