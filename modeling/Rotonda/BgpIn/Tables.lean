import Rotonda.BgpIn.Processor
import Rotonda.Lib.Runs

/-!
The tables that all BGP sessions of a unit share: the ingress register, the live sessions and the
statistics of the peers.

Every session updates them in critical sections of its own, and between any two of them the other
sessions may run.  At rest, when no session is in the middle of its negotiation or of its cleanup,
the tables should agree.

* `Tables.Agree`, `Tables.AtRest`: the agreement, and when it is asked for;
* `Processor.Acts`: the steps of a session, by what they do to what is shared.
-/

namespace Rotonda.BgpIn

open Lib Lib.Runs Option

abbrev AfiSafiKey := UInt16 × UInt8

/-- The counters of a peer that a negotiation resets. -/
structure BgpPeerStats where
  adjRibInRoutes : Nat := 0
  adjRibInPerAfiSafi : Dict AfiSafiKey Nat := Dict.empty

def BgpPeerStats.resetAdjRibIn (stats : BgpPeerStats) : BgpPeerStats :=
  { stats with adjRibInRoutes := 0, adjRibInPerAfiSafi := Dict.empty }

abbrev BgpPeerStatsRegistry := Dict IngressId BgpPeerStats

def BgpPeerStatsRegistry.getOrCreate (reg : BgpPeerStatsRegistry) (id : IngressId) :
    BgpPeerStats × BgpPeerStatsRegistry :=
  match reg.get id with
  | some stats => (stats, reg)
  | none => ({}, reg.insert id {})

/-- The session has chosen its ingress and is not registered yet. -/
def Phase.negotiating : Phase → Bool
  | .resolving | .replacing _ | .removing _ | .inserting | .registering => true
  | _ => false

/-- A task of the unit. -/
structure Connection where
  processor : Processor
  /-- The session is registered, and its statistics are still to be acquired. -/
  unmetered : Bool
  cancelled : Bool

namespace Connection

def key (c : Connection) : SessionKey := c.processor.negotiated.key

def id (c : Connection) : IngressId := c.processor.sessionIngressId

def sid (c : Connection) : Option Nat := c.processor.mySessionId

def phase (c : Connection) : Phase := c.processor.phase

def Negotiating (c : Connection) : Prop := c.phase.negotiating = true ∨ c.unmetered = true

instance (c : Connection) : Decidable c.Negotiating := inferInstanceAs (Decidable (_ ∨ _))

/-- The session holds an ingress that it has not entered yet. -/
def Between (c : Connection) : Prop :=
  c.phase = .inserting ∨ ∃ old, c.phase = .replacing old

/-- Neither in the middle of the negotiation nor in that of the cleanup. -/
def AtRest (c : Connection) : Prop :=
  c.cancelled = true ∨
    c.unmetered = false ∧ (c.phase = .connecting ∨ c.phase = .established ∨ c.phase = .ended)

end Connection

structure Tables where
  shared : Shared
  peerStats : BgpPeerStatsRegistry
  connections : Dict Nat Connection
  /-- The sessions whose abort was requested. -/
  aborts : List Nat

namespace Tables

inductive Move where
  | accept (n : Nat) (negotiated : Negotiated)
  | act (n : Nat) (input : Input)
  | meter (n : Nat)
  /-- The aborted task is dropped at an await. -/
  | cancel (n : Nat)

/-- The statistics go with the register entry, under the lock of the live sessions. -/
def reclaimStats (st : Tables) (p : Processor) : Input → BgpPeerStatsRegistry
  | .proceed order =>
    if p.phase = .reclaiming ∧ (st.shared.liveSessions.find order fun _ s =>
        s.ingressId == p.sessionIngressId) = none then st.peerStats.erase p.sessionIngressId
    else st.peerStats
  | _ => st.peerStats

/-- A connection has taken a step. -/
def after (st : Tables) (n : Nat) (c : Connection) (input : Input) (p : Processor) (sh : Shared)
    (abort : Option Nat) : Tables where
  shared := sh
  peerStats := st.reclaimStats c.processor input
  connections := st.connections.insert n
    { c with processor := p, unmetered := c.phase = .registering }
  aborts := st.aborts ++ abort.toList

/-- A connection starts to negotiate, with the ingress that it has chosen. -/
def negotiates (st : Tables) (n : Nat) (c : Connection) (input : Input) (id : IngressId) : Tables :=
  st.after n c input
    { c.processor with
      sessionIngressId := id
      mySessionId := some st.shared.sessionIdCounter
      phase := .resolving }
    { st.shared with sessionIdCounter := st.shared.sessionIdCounter + 1 } none

/-- A connection has come in, with an ingress id of its own. -/
def accepts (st : Tables) (n : Nat) (negotiated : Negotiated) : Tables :=
  { st with
    shared := { st.shared with ingresses := st.shared.ingresses.register.2 }
    connections := st.connections.insert n
      ⟨⟨negotiated, st.shared.ingresses.register.1, none, .connecting⟩, false, false⟩ }

def step (st : Tables) : Move → Option Tables
  | .accept n negotiated => match st.connections.get n with
    | some _ => none
    | none =>
      let (id, ingresses) := st.shared.ingresses.register
      some { st with
        shared := { st.shared with ingresses := ingresses }
        connections := st.connections.insert n ⟨⟨negotiated, id, none, .connecting⟩, false, false⟩ }
  | .act n input => (st.connections.get n).bind fun c =>
    if c.cancelled ∨ c.unmetered then none
    else (c.processor.step st.shared input).map fun (p, sh, _, abort) =>
      st.after n c input p sh abort
  | .meter n => (st.connections.get n).bind fun c =>
    if c.unmetered then
      let (stats, reg) := st.peerStats.getOrCreate c.id
      some { st with
        peerStats := reg.insert c.id stats.resetAdjRibIn
        connections := st.connections.insert n { c with unmetered := false } }
    else none
  | .cancel n => (st.connections.get n).bind fun c =>
    if c.sid.any (· ∈ st.aborts) then
      some { st with connections := st.connections.insert n { c with cancelled := true } }
    else none

/-- A unit before its first connection. -/
def start (ingresses : Register) (sessionIdCounter : Nat) : Tables :=
  ⟨⟨ingresses, Dict.empty, sessionIdCounter⟩, Dict.empty, Dict.empty, []⟩

def ConnectedBgp (st : Tables) (id : IngressId) (info : IngressInfo) : Prop :=
  st.shared.ingresses.get id = some info ∧ info.state = some .connected ∧
    info.ingressType = some .bgp

structure Agree (st : Tables) : Prop where
  registered {key : SessionKey} {e : LiveSession} (h : st.shared.liveSessions.get key = some e) :
    ∃ info, st.ConnectedBgp e.ingressId info ∧ info.remoteAddr = some key.1 ∧
      info.remoteAsn = some key.2
  metered {key : SessionKey} {e : LiveSession} (h : st.shared.liveSessions.get key = some e) :
    (st.peerStats.get e.ingressId).isSome
  live {id : IngressId} {info : IngressInfo} (h : st.ConnectedBgp id info) :
    ∃ key e, st.shared.liveSessions.get key = some e ∧ e.ingressId = id
  apart {key key' : SessionKey} {e e' : LiveSession}
    (h : st.shared.liveSessions.get key = some e) (h' : st.shared.liveSessions.get key' = some e')
    (heq : e.ingressId = e'.ingressId) : key = key'

def AtRest (st : Tables) : Prop := ∀ n c, st.connections.get n = some c → c.AtRest

/-- The maps are iterated from end to end. -/
def Iterates (st : Tables) : Move → Prop
  | .act _ (.sessionNegotiated order) => st.shared.ingresses.IterOrder order
  | .act n (.proceed order) => ∀ c, st.connections.get n = some c → c.phase = .reclaiming →
    st.shared.liveSessions.IterOrder order
  | _ => True

/-- No session starts to negotiate while another one negotiates with the same peer, and a new
connection gets an ingress id that was not handed out before. -/
def Apart (st : Tables) : Move → Prop
  | .act n (.sessionNegotiated _) => ∀ c, st.connections.get n = some c →
    ∀ m d, st.connections.get m = some d → d.Negotiating → d.key ≠ c.key
  | .accept .. => st.shared.ingresses.Unwrapped
  | _ => True

end Tables

/-! ## What a step can do -/

namespace Processor

/-- The steps of a session, by what they do to what is shared. -/
inductive Acts (p : Processor) (sh : Shared) :
    Input → Processor → Shared → Option Nat → Prop where
  | reuse {order : List IngressId} {id : IngressId} {info : IngressInfo}
      (hp : p.phase = .connecting)
      (hfind : sh.ingresses.findExistingBgpSession order p.query = some (id, info)) :
      Acts p sh (.sessionNegotiated order)
        { p with
          sessionIngressId := id
          mySessionId := some sh.sessionIdCounter
          phase := .resolving }
        { sh with sessionIdCounter := sh.sessionIdCounter + 1 } none
  | own {order : List IngressId} (hp : p.phase = .connecting)
      (hfind : sh.ingresses.findExistingBgpSession order p.query = none) :
      Acts p sh (.sessionNegotiated order)
        { p with mySessionId := some sh.sessionIdCounter, phase := .resolving }
        { sh with sessionIdCounter := sh.sessionIdCounter + 1 } none
  | leave {input : Input} (hp : p.phase = .connecting ∨ p.phase = .established) :
      Acts p sh input { p with phase := .closing } sh none
  | takeOut {order : List SessionKey} {old : LiveSession} (hp : p.phase = .resolving)
      (hold : sh.liveSessions.get p.negotiated.key = some old) :
      Acts p sh (.proceed order) { p with phase := .replacing old }
        { sh with liveSessions := sh.liveSessions.erase p.negotiated.key } none
  | vacant {order : List SessionKey} (hp : p.phase = .resolving)
      (hnone : sh.liveSessions.get p.negotiated.key = none) :
      Acts p sh (.proceed order) { p with phase := .inserting } sh none
  | dismiss {order : List SessionKey} {old : LiveSession} (hp : p.phase = .replacing old)
      (hne : old.ingressId ≠ p.sessionIngressId) :
      Acts p sh (.proceed order) { p with phase := .removing old.ingressId } sh
        (some old.sessionId)
  | succeed {order : List SessionKey} {old : LiveSession} (hp : p.phase = .replacing old)
      (heq : old.ingressId = p.sessionIngressId) :
      Acts p sh (.proceed order) { p with phase := .inserting } sh (some old.sessionId)
  | remove {order : List SessionKey} {id : IngressId} (hp : p.phase = .removing id) :
      Acts p sh (.proceed order) { p with phase := .inserting }
        { sh with ingresses := sh.ingresses.remove id } none
  | insert {order : List SessionKey} {sid : Nat} (hp : p.phase = .inserting)
      (hsid : p.mySessionId = some sid) :
      Acts p sh (.proceed order) { p with phase := .registering }
        { sh with
          liveSessions := sh.liveSessions.insert p.negotiated.key ⟨sid, p.sessionIngressId⟩ } none
  | register {order : List SessionKey} (hp : p.phase = .registering) :
      Acts p sh (.proceed order) { p with phase := .established }
        { sh with ingresses := sh.ingresses.updateInfo p.sessionIngressId p.info } none
  | update {input : Input} (hp : p.phase = .established) : Acts p sh input p sh none
  | quit {order : List SessionKey} {e : LiveSession} (hp : p.phase = .closing)
      (hlive : sh.liveSessions.get p.negotiated.key = some e)
      (hsid : p.mySessionId = some e.sessionId) :
      Acts p sh (.proceed order) { p with phase := .reclaiming }
        { sh with
          liveSessions := sh.liveSessions.erase p.negotiated.key
          ingresses := sh.ingresses.updateInfo p.sessionIngressId (.withState .disconnected) } none
  | expelled {order : List SessionKey} (hp : p.phase = .closing)
      (hno : ∀ e, sh.liveSessions.get p.negotiated.key = some e →
        p.mySessionId ≠ some e.sessionId) :
      Acts p sh (.proceed order) { p with phase := .ended } sh none
  | keep {order : List SessionKey} {found : SessionKey × LiveSession} (hp : p.phase = .reclaiming)
      (hfind : (sh.liveSessions.find order fun _ s => s.ingressId == p.sessionIngressId) =
        some found) :
      Acts p sh (.proceed order) { p with phase := .ended } sh none
  | free {order : List SessionKey} (hp : p.phase = .reclaiming)
      (hfind : (sh.liveSessions.find order fun _ s => s.ingressId == p.sessionIngressId) = none) :
      Acts p sh (.proceed order) { p with phase := .ended }
        { sh with ingresses := sh.ingresses.remove p.sessionIngressId } none

variable {p p' : Processor} {sh sh' : Shared} {input : Input} {sent : List Update}
  {abort : Option Nat}

theorem acts_cleanup (hp : p.phase = .closing) (order : List SessionKey) :
    Acts p sh (.proceed order) (p.cleanup sh).1 (p.cleanup sh).2.1 none := by
  unfold cleanup
  dsimp only
  split
  next hcond =>
    obtain ⟨hsome, heq⟩ := hcond
    obtain ⟨sid, hsid⟩ := isSome_iff_exists.mp hsome
    rw [hsid] at heq
    obtain ⟨e, he, rfl⟩ := map_eq_some_iff.mp heq
    exact .quit hp he hsid
  next hcond =>
    refine .expelled hp fun e he hsid => hcond ⟨by rw [hsid]; rfl, ?_⟩
    rw [he, hsid]
    rfl

theorem acts_of_step (h : p.step sh input = some (p', sh', sent, abort)) :
    Acts p sh input p' sh' abort := by
  unfold step at h
  cases hphase : p.phase <;> cases input <;> simp only [hphase] at h
  case connecting.sessionNegotiated order =>
    simp only [negotiate] at h
    split at h <;> cases h
    next hfind => exact .reuse hphase hfind
    next hfind => exact .own hphase hfind
  case connecting.updateMessage => cases h; exact .leave (.inl hphase)
  case connecting.leave => cases h; exact .leave (.inl hphase)
  case established.leave => cases h; exact .leave (.inr hphase)
  case resolving.proceed order =>
    split at h <;> cases h
    next old hold => exact .takeOut hphase hold
    next hnone => exact .vacant hphase hnone
  case replacing.proceed old order =>
    split at h <;> cases h
    next hne => exact .dismiss hphase hne
    next heq => exact .succeed hphase (not_not.mp heq)
  case removing.proceed id order => cases h; exact .remove hphase
  case inserting.proceed order =>
    obtain ⟨sid, hsid, heq⟩ := map_eq_some_iff.mp h
    cases heq
    exact .insert hphase hsid
  case registering.proceed order => cases h; exact .register hphase
  case established.updateMessage => cases h; exact .update hphase
  case closing.proceed order => cases h; exact acts_cleanup hphase order
  case reclaiming.proceed order =>
    cases h
    unfold reclaim
    split
    next found hfind => exact .keep hphase hfind
    next hfind => exact .free hphase hfind
  all_goals cases h

end Processor

namespace Tables

variable {st st' : Tables} {n m : Nat} {c c' d : Connection}

theorem connection_cases {conns conns' : Dict Nat Connection} (hconns : conns' = conns.insert n c)
    (h : conns'.get m = some d) : m = n ∧ d = c ∨ m ≠ n ∧ conns.get m = some d :=
  Dict.of_get_insert (hconns ▸ h)

theorem step_act {input : Input} (h : st.step (.act n input) = some st') :
    ∃ c p sh abort, st.connections.get n = some c ∧ c.cancelled = false ∧ c.unmetered = false ∧
      c.processor.Acts st.shared input p sh abort ∧ st' = st.after n c input p sh abort := by
  obtain ⟨c, hc, h⟩ := bind_eq_some_iff.mp h
  split at h
  · cases h
  next hidle =>
    obtain ⟨⟨p, sh, sent, abort⟩, hstep, rfl⟩ := map_eq_some_iff.mp h
    rw [not_or, Bool.not_eq_true, Bool.not_eq_true] at hidle
    exact ⟨c, p, sh, abort, hc, hidle.1, hidle.2, Processor.acts_of_step hstep, rfl⟩

theorem step_accept {negotiated : Negotiated}
    (h : st.step (.accept n negotiated) = some st') :
    st.connections.get n = none ∧ st' = st.accepts n negotiated := by
  simp only [step] at h
  split at h <;> cases h
  next hnone => exact ⟨hnone, rfl⟩

theorem step_meter (h : st.step (.meter n) = some st') :
    ∃ c stats, st.connections.get n = some c ∧ c.unmetered = true ∧ st' = { st with
      peerStats := (st.peerStats.getOrCreate c.id).2.insert c.id stats
      connections := st.connections.insert n { c with unmetered := false } } := by
  obtain ⟨c, hc, h⟩ := bind_eq_some_iff.mp h
  split at h <;> cases h
  next hun => exact ⟨c, _, hc, hun, rfl⟩

theorem step_cancel (h : st.step (.cancel n) = some st') :
    ∃ c sid, st.connections.get n = some c ∧ c.sid = some sid ∧ sid ∈ st.aborts ∧
      st' = { st with connections := st.connections.insert n { c with cancelled := true } } := by
  obtain ⟨c, hc, h⟩ := bind_eq_some_iff.mp h
  split at h <;> cases h
  next hany =>
    obtain ⟨sid, hsid, hmem⟩ := (any_eq_true _ _).mp hany
    exact ⟨c, sid, hc, hsid, of_decide_eq_true hmem, rfl⟩

end Tables

end Rotonda.BgpIn
