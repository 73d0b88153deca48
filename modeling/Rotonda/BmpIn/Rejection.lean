import Rotonda.BmpIn.Acceptance
import Rotonda.BmpIn.Steps

/-!
What a message that the state machine rejects leaves behind.

Most rejections come before anything is written.  A Route Monitoring message is different: by the
time its routes turn out to be unreadable, a peer may have been made up for it, the parser settings
of its peer replaced, or a pending End-of-RIB struck off.

* `PeerState.after`: the peer of a Route Monitoring message when its routes are read;
* `BmpState.Commits`: the message writes something before it can be rejected;
* `BmpState.rejected_unchanged_iff`: a rejected message leaves state and register alone exactly when
  it does not commit;
* `Session.retry_conservative`: how often an UPDATE is parsed, and what that does to the settings.
-/

namespace Rotonda.BmpIn

open Lib Lib.Runs

/-- The peer of a Route Monitoring message once its update is parsed, before its routes are
read. -/
def PeerState.after (st : PeerState) (pph : PerPeerHeader) (update : BgpUpdate)
    (config : SessionConfig) (retry : Bool) : PeerState :=
  { st with
    sessionConfig := if retry then config else st.sessionConfig
    pendingEors := match update.isEor with
      | none => st.pendingEors
      | some afiSafi => st.pendingEors.erase (EoRProperties.new pph afiSafi) }

inductive FsmPhase where
  | initiating
  | dumping
  | updating
  | terminated
  deriving DecidableEq

namespace BmpState

def phase : BmpState → FsmPhase
  | initiating _ => .initiating
  | dumping _ => .dumping
  | updating _ => .updating
  | terminated _ => .terminated

structure Unchanged (st : BmpState) (reg : Register) (after : BmpState × Register) : Prop where
  phase : after.1.phase = st.phase
  peers : after.1.peerStates = st.peerStates
  register : after.2 = reg

theorem unchanged_self (st : BmpState) (reg : Register) : st.Unchanged reg (st, reg) :=
  ⟨rfl, rfl, rfl⟩

end BmpState

namespace Session

variable {s : Session} {reg : Register} {orders : IterOrders} {pph : PerPeerHeader}
  {bgpUpdate : SessionConfig → Except String BgpUpdate} {dumping : Bool} {st : PeerState}
variable {update : BgpUpdate} {config : SessionConfig}

def withPeer (s : Session) (pph : PerPeerHeader) (st : PeerState) : Session :=
  { s with peerStates := s.peerStates.insert pph st }

theorem withPeer_self (hget : s.peerStates.get pph = some st) : s.withPeer pph st = s := by
  rw [withPeer, Dict.insert_of_get hget]

theorem withPeer_withPeer (s : Session) (pph : PerPeerHeader) (st st' : PeerState) :
    (s.withPeer pph st).withPeer pph st' = s.withPeer pph st' := by
  simp only [withPeer, Dict.insert_insert]

theorem unchanged_withPeer_iff (hget : s.peerStates.get pph = some st) (st' : PeerState) :
    (wrap dumping s).Unchanged reg (wrap dumping (s.withPeer pph st'), reg) ↔ st' = st := by
  constructor
  · intro h
    have hst' : (s.withPeer pph st').peerStates.get pph = some st' := Dict.get_insert_self ..
    have hpeers := h.peers
    rw [peerStates_wrap, peerStates_wrap] at hpeers
    rw [hpeers, hget] at hst'
    exact (Option.some.inj hst').symm
  · rintro rfl
    rw [withPeer_self hget]
    exact BmpState.unchanged_self ..

theorem routesOf_of_invalid (h : (s.routesOf pph update).1.isInvalid = true) :
    (s.routesOf pph update).2 = s := by
  unfold routesOf at h ⊢
  split at h
  · rfl
  · split at h
    · rfl
    · cases h

section

variable (hget : s.peerStates.get pph = some st)
include hget

theorem finish_of_invalid (hrej : (s.finish dumping orders pph update).1.isInvalid = true) :
    (s.finish dumping orders pph update).2 =
      wrap dumping (s.withPeer pph (st.after pph update st.sessionConfig false)) := by
  unfold finish at hrej ⊢
  cases heor : update.isEor with
  | none =>
    simp only [heor] at hrej
    have hst : st.after pph update st.sessionConfig false = st := by simp [PeerState.after, heor]
    simp only [routesOf_of_invalid hrej, hst, withPeer_self hget]
  | some afiSafi =>
    have hpeers : (s.peerStates.removePendingEor orders.peers pph afiSafi).2 =
        s.peerStates.insert pph (st.after pph update st.sessionConfig false) := by
      simp [PeerStates.removePendingEor, hget, PeerState.after, heor]
    simp only [heor] at hrej ⊢
    cases hdone : dumping && (s.peerStates.removePendingEor orders.peers pph afiSafi).1 with
    | true =>
      rw [hdone] at hrej
      cases hrej
    | false =>
      simp only [hdone] at hrej
      simp only [Bool.false_eq_true, if_false] at hrej ⊢
      rw [routesOf_of_invalid hrej, hpeers]
      rfl

theorem routeMonitoring_known :
    s.routeMonitoring dumping reg orders pph bgpUpdate =
      match parseUpdate bgpUpdate st.sessionConfig with
      | .error _ => (.invalidMessage "Invalid BMP RouteMonitoring BGP UPDATE message" (some true),
          wrap dumping s, reg)
      | .ok (update, config, retry) =>
        let s := s.withPeer pph
          { st with sessionConfig := if retry then config else st.sessionConfig }
        ((s.finish dumping orders pph update).1, (s.finish dumping orders pph update).2, reg) := by
  have hens : s.ensurePeer reg orders pph = (.ok s, reg) := by simp [ensurePeer, hget]
  rw [routeMonitoring_eq, hens]
  dsimp only
  unfold monitor
  rw [PeerStates.getPeerConfig, hget]
  dsimp only [Option.map_some]
  rcases parseUpdate bgpUpdate st.sessionConfig with err | ⟨update, config, retry⟩
  · rfl
  · cases retry with
    | false =>
      dsimp only
      rw [if_neg Bool.false_ne_true, if_neg Bool.false_ne_true, withPeer_self hget]
    | true => simp [PeerStates.updatePeerConfig, hget, withPeer]

/-- A rejected message for a known peer: the update could not be parsed and nothing happened, or
it was parsed and the peer is edited. -/
theorem rejected_known
    (hrej : (s.routeMonitoring dumping reg orders pph bgpUpdate).1.isInvalid = true) :
    (s.routeMonitoring dumping reg orders pph bgpUpdate).2 =
      match parseUpdate bgpUpdate st.sessionConfig with
      | .error _ => (wrap dumping s, reg)
      | .ok (update, config, retry) =>
        (wrap dumping (s.withPeer pph (st.after pph update config retry)), reg) := by
  rw [routeMonitoring_known hget] at hrej ⊢
  cases hparse : parseUpdate bgpUpdate st.sessionConfig with
  | error err => rfl
  | ok parsed =>
    obtain ⟨update, config, retry⟩ := parsed
    rw [hparse] at hrej
    dsimp only at hrej ⊢
    rw [finish_of_invalid (Dict.get_insert_self ..) hrej, withPeer_withPeer]
    rfl

end

/-- With the settings of a retry the parser reads AS numbers of the other width. -/
theorem config_of_retry {config' : SessionConfig}
    (h : parseUpdate bgpUpdate config = .ok (update, config', true)) : config' ≠ config := by
  rw [parseUpdate_eq] at h
  split at h
  · cases h
  · dsimp only at h
    split at h <;> cases h
    intro heq
    have hfour := congrArg SessionConfig.fourOctetAsns heq
    cases hc : config.fourOctetAsns <;> simp [hc] at hfour

theorem after_eq_self_iff {retry : Bool}
    (hparse : parseUpdate bgpUpdate st.sessionConfig = .ok (update, config, retry)) :
    st.after pph update config retry = st ↔
      ¬ (retry = true ∨
        ∃ afiSafi, update.isEor = some afiSafi ∧ EoRProperties.new pph afiSafi ∈ st.pendingEors) := by
  constructor
  · rintro h (rfl | ⟨afiSafi, heor, hmem⟩)
    · exact config_of_retry hparse (congrArg PeerState.sessionConfig h)
    · have hpending := congrArg PeerState.pendingEors h
      simp only [PeerState.after, heor] at hpending
      have hlen := List.length_erase_of_mem hmem
      have hpos := List.length_pos_of_mem hmem
      rw [hpending] at hlen
      omega
  · intro h
    obtain ⟨hretry, heor⟩ := not_or.mp h
    have hretry : retry = false := by simpa using hretry
    have hpending : (match update.isEor with
        | none => st.pendingEors
        | some afiSafi => st.pendingEors.erase (EoRProperties.new pph afiSafi)) =
        st.pendingEors := by
      cases heor' : update.isEor with
      | none => rfl
      | some afiSafi => exact List.erase_of_not_mem fun hmem => heor ⟨afiSafi, heor', hmem⟩
    simp only [PeerState.after, hpending, hretry]
    rfl

/-- What a Route Monitoring message writes before it can be rejected: a peer that is made up for
it, other parser settings, or an End-of-RIB that was waited for. -/
def Commits (s : Session) (reg : Register) (orders : IterOrders) (pph : PerPeerHeader)
    (bgpUpdate : SessionConfig → Except String BgpUpdate) : Prop :=
  match s.peerStates.get pph with
  | none => ∃ s', (s.ensurePeer reg orders pph).1 = .ok s'
  | some st => ∃ update config retry,
      parseUpdate bgpUpdate st.sessionConfig = .ok (update, config, retry) ∧
        (retry = true ∨ ∃ afiSafi, update.isEor = some afiSafi ∧
          EoRProperties.new pph afiSafi ∈ st.pendingEors)

theorem rejected_known_iff (hget : s.peerStates.get pph = some st)
    (hrej : (s.routeMonitoring dumping reg orders pph bgpUpdate).1.isInvalid = true) :
    (wrap dumping s).Unchanged reg (s.routeMonitoring dumping reg orders pph bgpUpdate).2 ↔
      ¬ s.Commits reg orders pph bgpUpdate := by
  rw [rejected_known hget hrej, Commits, hget]
  cases hparse : parseUpdate bgpUpdate st.sessionConfig with
  | error err =>
    refine iff_of_true (BmpState.unchanged_self ..) ?_
    rintro ⟨_, _, _, hok, _⟩
    cases hparse.symm.trans hok
  | ok parsed =>
    obtain ⟨update, config, retry⟩ := parsed
    dsimp only
    rw [unchanged_withPeer_iff hget, after_eq_self_iff hparse, not_iff_not]
    constructor
    · intro h
      exact ⟨update, config, retry, hparse, h⟩
    · rintro ⟨_, _, _, hok, h⟩
      cases hparse.symm.trans hok
      exact h

theorem unknown_iff (hget : s.peerStates.get pph = none) :
    (wrap dumping s).Unchanged reg (s.routeMonitoring dumping reg orders pph bgpUpdate).2 ↔
      ¬ s.Commits reg orders pph bgpUpdate := by
  obtain ⟨hreg, hst⟩ := s.routeMonitoring_cases dumping reg orders pph bgpUpdate
  rw [Commits, hget]
  cases hens : (s.ensurePeer reg orders pph).1 with
  | error res =>
    rw [hens] at hst
    have hsame : (s.ensurePeer reg orders pph).2 = reg := by
      have hcases := s.ensurePeer_cases reg orders pph
      cases h : s.ensurePeer reg orders pph with | mk r reg' => ?_
      rw [h] at hcases hens
      cases hens
      cases hcases <;> rfl
    refine iff_of_true ⟨by rw [hst.2], by rw [hst.2], hreg.trans hsame⟩ ?_
    rintro ⟨_, ⟨⟩⟩
  | ok s₁ =>
    rw [hens] at hst
    obtain ⟨hsome, _, s₂, _, hedited, hst₂⟩ := hst
    refine iff_of_false (fun h => ?_) (not_not.mpr ⟨s₁, rfl⟩)
    -- the peer that was made up is still there
    obtain ⟨st, hst₁⟩ := Option.isSome_iff_exists.mp hsome
    obtain ⟨_, _, hget₂⟩ := hedited.2 st hst₁
    have hpeers : (s.routeMonitoring dumping reg orders pph bgpUpdate).2.1.peerStates =
        s₂.peerStates := by
      rcases hst₂ with hst₂ | hst₂
      · rw [hst₂]
        exact peerStates_wrap dumping s₂
      · rw [hst₂]
        rfl
    rw [← hpeers, h.peers, peerStates_wrap, hget] at hget₂
    cases hget₂

end Session

namespace BmpState

/-- The message writes something before it can be rejected. -/
def Commits (st : BmpState) (reg : Register) (orders : IterOrders) : BmpMsg → Prop
  | .routeMonitoring pph bgpUpdate => match st with
    | .dumping s | .updating s => s.Commits reg orders pph bgpUpdate
    | .initiating _ | .terminated _ => False
  | _ => False

end BmpState

theorem isInvalid_reported (res : MessageType) : res.reported.isInvalid = res.isInvalid := by
  cases res <;> rfl

namespace Session

/-- A message of a session that is rejected, for both states that have one. -/
theorem rejected_iff (dumping : Bool) {s : Session} {reg : Register} {orders : IterOrders}
    {msg : BmpMsg} (hrej : (s.processMsg dumping reg orders msg).1.isInvalid = true) :
    (wrap dumping s).Unchanged reg (s.processMsg dumping reg orders msg).2 ↔
      ¬ (wrap dumping s).Commits reg orders msg := by
  cases msg with
  | routeMonitoring pph bgpUpdate =>
    have hcommits : (wrap dumping s).Commits reg orders (.routeMonitoring pph bgpUpdate) ↔
        s.Commits reg orders pph bgpUpdate := by cases dumping <;> rfl
    rw [hcommits]
    cases hget : s.peerStates.get pph with
    | none => exact unknown_iff hget
    | some st => exact rejected_known_iff hget hrej
  | peerUpNotification m =>
    refine iff_of_true ?_ not_false
    have hup : (s.peerUp reg orders m).1.isInvalid = true := hrej
    have hsame : (s.peerUp reg orders m).2 = (s, reg) := by
      unfold peerUp PeerStates.addPeerConfig at hup ⊢
      by_cases hknown : (s.peerStates.get m.pph).isSome
      · simp [hknown]
      · simp only [hknown] at hup
        split at hup
        next heq => cases heq
        · cases hup
        · cases hup
    change (wrap dumping s).Unchanged reg
      (wrap dumping (s.peerUp reg orders m).2.1, (s.peerUp reg orders m).2.2)
    rw [hsame]
    exact BmpState.unchanged_self ..
  | peerDownNotification pph =>
    refine iff_of_true ?_ not_false
    have hdown : (s.peerDown reg orders pph).1.isInvalid = true := hrej
    have hsame : (s.peerDown reg orders pph).2 = (s, reg) := by
      unfold peerDown at hdown ⊢
      split at hdown
      · rfl
      · cases hdown
    change (wrap dumping s).Unchanged reg
      (wrap dumping (s.peerDown reg orders pph).2.1, (s.peerDown reg orders pph).2.2)
    rw [hsame]
    exact BmpState.unchanged_self ..
  | terminationMessage =>
    simp only [processMsg, terminate] at hrej
    split at hrej <;> cases hrej
  | statisticsReport pph raw =>
    simp only [processMsg, statisticsReport] at hrej
    split at hrej
    · cases hrej
    · split at hrej <;> cases hrej
  | initiationMessage | routeMirroring => cases hrej

end Session

namespace BmpState

/-- A message that is answered with `InvalidMessage` leaves the phase, the peers and the register
alone exactly when it wrote nothing before it was found invalid. -/
theorem rejected_unchanged_iff {st : BmpState} {reg : Register} {orders : IterOrders}
    {msg : BmpMsg} (hrej : (st.processMsg reg orders msg).1.isInvalid = true) :
    st.Unchanged reg (st.processMsg reg orders msg).2 ↔ ¬ st.Commits reg orders msg := by
  have hrej' := (isInvalid_reported _).symm.trans hrej
  cases st with
  | initiating id =>
    cases msg with
    | initiationMessage => cases hrej'
    | _ => exact iff_of_true (unchanged_self ..) nofun
  | dumping s => exact Session.rejected_iff true hrej'
  | updating s => exact Session.rejected_iff false hrej'
  | terminated id => cases msg <;> exact iff_of_true (unchanged_self ..) nofun

end BmpState

/-! ## The retry -/

/-- Two rounds are enough for the loop. -/
theorem parseLoop_eq (bgpUpdate : SessionConfig → Except String BgpUpdate) (config : SessionConfig)
    (fuel : Nat) :
    parseLoop bgpUpdate (fuel + 2) [] config false = (if (bgpUpdate config).isOk then [config]
        else [config, { config with fourOctetAsns := !config.fourOctetAsns }],
      parseUpdate bgpUpdate config) := by
  obtain ⟨four, addpaths⟩ := config
  rw [parseUpdate, parseLoop, parseLoop]
  cases bgpUpdate ⟨four, addpaths⟩ with
  | ok update => rfl
  | error err =>
    cases hretry : bgpUpdate ⟨!four, addpaths⟩ <;> cases four <;>
      simp_all [generateAlternateConfig, parseLoop, Except.isOk, Except.toBool]

namespace PeerStates

variable {peers : PeerStates} {pph : PerPeerHeader}

/-- An edit of what a peer waits for keeps its settings. -/
theorem getPeerConfig_insert {st : PeerState} (hget : peers.get pph = some st)
    (pending : List EoRProperties) (k : PerPeerHeader) :
    getPeerConfig (peers.insert pph { st with pendingEors := pending }) k =
      getPeerConfig peers k := by
  rw [getPeerConfig, getPeerConfig, Dict.get_insert]
  split
  next hk => simp [hk, hget]
  · rfl

theorem getPeerConfig_addPendingEor (afiSafi : AfiSafiType) (k : PerPeerHeader) :
    getPeerConfig (peers.addPendingEor pph afiSafi) k = getPeerConfig peers k := by
  unfold addPendingEor
  split
  next st hget => exact getPeerConfig_insert hget _ k
  · rfl

theorem getPeerConfig_removePendingEor (order : List PerPeerHeader) (afiSafi : AfiSafiType)
    (k : PerPeerHeader) :
    getPeerConfig (peers.removePendingEor order pph afiSafi).2 k = getPeerConfig peers k := by
  cases hget : peers.get pph with
  | none => simp [removePendingEor, hget]
  | some st => simp [removePendingEor, hget, getPeerConfig_insert hget]

end PeerStates

namespace Session

variable {s s₁ : Session} {reg reg₁ : Register} {orders : IterOrders} {pph : PerPeerHeader}
  {config : SessionConfig}

theorem getPeerConfig_routesOf (update : BgpUpdate) (k : PerPeerHeader) :
    (s.routesOf pph update).2.peerStates.getPeerConfig k = s.peerStates.getPeerConfig k := by
  unfold routesOf
  repeat' split
  all_goals simp [PeerStates.getPeerConfig_addPendingEor]

theorem getPeerConfig_finish (dumping : Bool) (update : BgpUpdate) (k : PerPeerHeader) :
    (s.finish dumping orders pph update).2.peerStates.getPeerConfig k =
      s.peerStates.getPeerConfig k := by
  unfold finish
  split
  · rw [peerStates_wrap, getPeerConfig_routesOf]
  · dsimp only
    split
    · exact PeerStates.getPeerConfig_removePendingEor orders.peers _ k
    · rw [peerStates_wrap, getPeerConfig_routesOf]
      exact PeerStates.getPeerConfig_removePendingEor orders.peers _ k

/-- However many rounds it is given, the loop makes one attempt or two, the second with the other
width of AS numbers; the settings of the peer change if that one succeeds, and only then. -/
theorem retry_conservative (bgpUpdate : SessionConfig → Except String BgpUpdate)
    (hens : s.ensurePeer reg orders pph = (.ok s₁, reg₁))
    (hstored : s₁.peerStates.getPeerConfig pph = some config) (dumping : Bool) (fuel : Nat) :
    let alt : SessionConfig := { config with fourOctetAsns := !config.fourOctetAsns }
    parseLoop bgpUpdate (fuel + 2) [] config false =
        (if (bgpUpdate config).isOk then [config] else [config, alt],
          parseUpdate bgpUpdate config) ∧
      ∀ k, ((wrap dumping s).processMsg reg orders
          (.routeMonitoring pph bgpUpdate)).2.1.peerStates.getPeerConfig k =
        if k = pph ∧ (bgpUpdate config).isOk = false ∧ (bgpUpdate alt).isOk then some alt
        else s₁.peerStates.getPeerConfig k := by
  refine ⟨parseLoop_eq .., fun k => ?_⟩
  obtain ⟨st, hget, rfl⟩ := Option.map_eq_some_iff.mp hstored
  have hmsg : ((wrap dumping s).processMsg reg orders (.routeMonitoring pph bgpUpdate)).2.1 =
      (s.routeMonitoring dumping reg orders pph bgpUpdate).2.1 := by
    cases dumping <;> rfl
  rw [hmsg, routeMonitoring_of_ensurePeer hens _ _ reg, routeMonitoring_known hget, parseUpdate_eq]
  cases bgpUpdate st.sessionConfig with
  | ok update => simp [getPeerConfig_finish, withPeer_self hget, Except.isOk, Except.toBool]
  | error err =>
    dsimp only
    cases bgpUpdate { st.sessionConfig with
        fourOctetAsns := !st.sessionConfig.fourOctetAsns } with
    | error err' => simp [peerStates_wrap, Except.isOk, Except.toBool]
    | ok update =>
      dsimp only
      rw [getPeerConfig_finish]
      by_cases hk : k = pph <;>
        simp [Except.isOk, Except.toBool, withPeer, PeerStates.getPeerConfig, Dict.get_insert, hk]

end Session

/-! ## An update that cannot be read -/

namespace Unreadable

open LatePeerUp (prePolicy postPolicy up)

def orders : IterOrders := ⟨[2, 3], [prePolicy]⟩

def scene : BmpState × Register :=
  let (c, reg) := Connection.accept Register.new.register.2 1 (.v4 192 0 2 1)
  [BmpMsg.initiationMessage ["router"] [] [], .peerUpNotification (up prePolicy)].foldl
    (fun now msg => (now.1.processMsg now.2 orders msg).2) (c.stateMachine, reg)

/-- Route Monitoring with an UPDATE that no settings can parse. -/
def garbled (pph : PerPeerHeader) : BmpMsg := .routeMonitoring pph fun _ => .error "short input"

def answered (pph : PerPeerHeader) : MessageType × BmpState × Register :=
  scene.1.processMsg scene.2 orders (garbled pph)

/-- Under the header for post-policy routes the message is rejected, but there is a peer more and
an entry more in the register. -/
theorem garbled_leaves_peer :
    (answered postPolicy).1.isInvalid = true ∧
      (scene.1.peerStates.get postPolicy).isNone ∧
      ((answered postPolicy).2.1.peerStates.get postPolicy).isSome ∧
      (scene.2.get 4).isNone ∧ ((answered postPolicy).2.2.get 4).isSome ∧
      ¬ scene.1.Unchanged scene.2 (answered postPolicy).2 := by
  have hnew : (scene.2.get 4).isNone ∧ ((answered postPolicy).2.2.get 4).isSome := by decide
  refine ⟨by decide, by decide, by decide, hnew.1, hnew.2, fun h => ?_⟩
  have hsome := hnew.2
  rw [h.register] at hsome
  exact absurd hsome (by decide)

/-- Under the header of the peer that is up it is rejected without a trace. -/
theorem garbled_unchanged :
    (answered prePolicy).1.isInvalid = true ∧ scene.1.Unchanged scene.2 (answered prePolicy).2 := by
  have hrej : (answered prePolicy).1.isInvalid = true := by decide
  refine ⟨hrej, (BmpState.rejected_unchanged_iff hrej).mpr ?_⟩
  rintro ⟨_, _, _, ⟨⟩, _⟩

def onePeer : Session :=
  ⟨1, "", "", [], Dict.empty.insert prePolicy ⟨⟨true, []⟩, false, [], 2, false⟩⟩

/-- An UPDATE that parses with two-octet AS numbers only. -/
def narrow (config : SessionConfig) : Except String BgpUpdate :=
  if config.fourOctetAsns then .error "short input" else .ok ⟨none, .ok [], .ok [], .ok []⟩

theorem narrow_retried :
    (parseLoop narrow 2 [] ⟨true, []⟩ false).1 = [⟨true, []⟩, ⟨false, []⟩] ∧
      ((Session.wrap true onePeer).processMsg .new orders
        (.routeMonitoring prePolicy narrow)).2.1.peerStates.getPeerConfig prePolicy =
          some ⟨false, []⟩ := by
  have hens : onePeer.ensurePeer .new orders prePolicy = (.ok onePeer, .new) := rfl
  have hstored : onePeer.peerStates.getPeerConfig prePolicy = some ⟨true, []⟩ := rfl
  have hretry := Session.retry_conservative narrow hens hstored true 0
  exact ⟨congrArg Prod.fst hretry.1, hretry.2 prePolicy⟩

end Unreadable

end Rotonda.BmpIn
