import Rotonda.BmpIn.Effect
import Rotonda.Lib.Sessions

/-!
Which Peer Up messages a BMP session accepts.

The map of peers also holds peers that were made up for Route Monitoring messages without a Peer
Up of their own.  A Peer Up for such a header is refused like a duplicate.

* `BmpState.genuine_iff_isUp`: the peers that were not made up are those whose Peer Up was
  accepted and not ended since;
* `BmpState.peerUp_correct_iff`: Peer Ups are judged by the messages seen exactly when none comes
  for a peer that was made up;
* `BmpState.peerUp_after_synthesis`: one that does is refused.
-/

namespace Rotonda.BmpIn

open Lib Lib.Runs Lib.Sessions BmpState

/-! ## What the messages seen say -/

def MessageType.isInvalid : MessageType → Bool
  | invalidMessage .. => true
  | _ => false

def MessageType.isAlreadyUp : MessageType → Bool
  | invalidMessage err _ => err = "PeerUpNotification received for peer that is already 'up'"
  | _ => false

/-- What a message does to the peer of a header: an accepted Peer Up opens its session, a Peer
Down for its identity closes it. -/
def peerEvent (pph : PerPeerHeader) : BmpMsg × MessageType → Option (Event Unit)
  | (.peerUpNotification m, res) => if m.pph = pph ∧ !res.isInvalid then some (.opens ()) else none
  | (.peerDownNotification p, _) => if pph.sameIdentity p then some (.closes ()) else none
  | _ => none

theorem peerEvent_ne_uses (pph : PerPeerHeader) (entry : BmpMsg × MessageType) (u : Unit) :
    peerEvent pph entry ≠ some (.uses u) := by
  unfold peerEvent
  split
  · split <;> simp
  · split <;> simp
  · simp

/-- The last accepted Peer Up for the header is not ended. -/
def isUp (log : List (BmpMsg × MessageType)) (pph : PerPeerHeader) : Bool :=
  isOpen (log.filterMap (peerEvent pph)) ()

theorem isUp_snoc (log : List (BmpMsg × MessageType)) (e : BmpMsg × MessageType)
    (pph : PerPeerHeader) :
    isUp (log ++ [e]) pph = (peerEvent pph e).elim (isUp log pph) (after () (isUp log pph)) := by
  rw [isUp, List.filterMap_append]
  cases he : peerEvent pph e with
  | none => simp [he, isUp]
  | some ev =>
    have hsingle : [e].filterMap (peerEvent pph) = [ev] := by simp [he]
    rw [hsingle, isOpen_snoc]
    rfl

/-! ## Peers that were not made up -/

/-- A peer that came by its own Peer Up. -/
def PeerStates.Genuine (peers : PeerStates) (pph : PerPeerHeader) : Prop :=
  ∃ st, peers.get pph = some st ∧ st.synthesized = false

/-- A peer that was made up for a Route Monitoring message. -/
def PeerStates.Synthesized (peers : PeerStates) (pph : PerPeerHeader) : Prop :=
  ∃ st, peers.get pph = some st ∧ st.synthesized = true

namespace PeerStates

variable {peers peers' : PeerStates} {pph k : PerPeerHeader}

theorem genuine_insert {st : PeerState} :
    Genuine (peers.insert pph st) k ↔
      if k = pph then st.synthesized = false else peers.Genuine k := by
  unfold Genuine
  rw [Dict.get_insert]
  split <;> simp

theorem EditedAt.genuine_iff (h : EditedAt pph peers peers') (hpph : (peers.get pph).isSome) :
    peers'.Genuine k ↔ peers.Genuine k := by
  by_cases hk : k = pph
  · subst hk
    obtain ⟨st, hst⟩ := Option.isSome_iff_exists.mp hpph
    obtain ⟨config, pending, hget⟩ := h.2 st hst
    simp [Genuine, hst, hget]
  · rw [Genuine, h.1 k hk, Genuine]

end PeerStates

namespace Session

variable {s : Session} {reg : Register} {orders : IterOrders}

/-- A Peer Up is refused if there is a peer under its header. -/
theorem peerUp_cases (s : Session) (reg : Register) (orders : IterOrders) (m : PeerUp) :
    ((s.peerStates.get m.pph).isSome ∧ (s.peerUp reg orders m).1.isAlreadyUp = true ∧
      (s.peerUp reg orders m).1.isInvalid = true ∧ (s.peerUp reg orders m).2.1 = s) ∨
    (s.peerStates.get m.pph = none ∧ (s.peerUp reg orders m).1.isInvalid = false ∧
      (s.peerUp reg orders m).1.isAlreadyUp = false ∧
      ∃ id, (s.peerUp reg orders m).2.1.peerStates =
        s.peerStates.insert m.pph ⟨m.sessionConfig, m.gracefulRestart, [], id, false⟩) := by
  unfold peerUp
  rcases s.peerStates.addPeerConfig_cases reg orders.register s.ingressId m with
    ⟨hsome, heq⟩ | ⟨hnone, id, existing, reg', _, heq⟩
  · rw [heq]
    exact .inl ⟨hsome, by simp [MessageType.isAlreadyUp], rfl, rfl⟩
  · rw [heq]
    cases existing <;> exact .inr ⟨hnone, rfl, rfl, id, rfl⟩

theorem genuine_peerUp (m : PeerUp) (k : PerPeerHeader) :
    (s.peerUp reg orders m).2.1.peerStates.Genuine k ↔
      (m.pph = k ∧ (s.peerUp reg orders m).1.isInvalid = false) ∨ s.peerStates.Genuine k := by
  rcases s.peerUp_cases reg orders m with ⟨_, _, hinv, hsame⟩ | ⟨hnone, hinv, _, id, hpeers⟩
  · rw [hsame, hinv]
    simp
  · rw [hpeers, hinv, PeerStates.genuine_insert]
    by_cases hk : k = m.pph
    · simp [hk]
    · simp [hk, Ne.symm hk]

theorem genuine_peerDown (h : s.peerStates.Covers orders.peers) (p k : PerPeerHeader) :
    (s.peerDown reg orders p).2.1.peerStates.Genuine k ↔
      k.sameIdentity p = false ∧ s.peerStates.Genuine k := by
  rw [PeerStates.Genuine, get_peerDown h, PeerStates.Genuine]
  by_cases hid : k.sameIdentity p = true <;> simp [hid]

theorem genuine_ensurePeer {s' : Session} {reg' : Register} {pph : PerPeerHeader}
    (h : s.ensurePeer reg orders pph = (.ok s', reg')) (k : PerPeerHeader) :
    s'.peerStates.Genuine k ↔ s.peerStates.Genuine k := by
  have hcases := s.ensurePeer_cases reg orders pph
  rw [h] at hcases
  cases hcases with
  | known hknown => exact .rfl
  | synthesized hnew _ hsource =>
    rw [withCopy, PeerStates.genuine_insert]
    by_cases hk : k = pph
    · rw [if_pos hk, hk, PeerStates.Genuine, hnew]
      simp
    · rw [if_neg hk]

/-- Route Monitoring adds made-up peers only. -/
theorem genuine_routeMonitoring (dumping : Bool) (pph : PerPeerHeader)
    (bgpUpdate : SessionConfig → Except String BgpUpdate) (k : PerPeerHeader) :
    (s.routeMonitoring dumping reg orders pph bgpUpdate).2.1.peerStates.Genuine k ↔
      s.peerStates.Genuine k := by
  have hcases := (s.routeMonitoring_cases dumping reg orders pph bgpUpdate).2
  cases hens : s.ensurePeer reg orders pph with
  | mk res reg' =>
    rw [hens] at hcases
    cases res with
    | error res =>
      rw [hcases.2]
      cases dumping <;> rfl
    | ok s₁ =>
      have hgenuine := genuine_ensurePeer hens k
      obtain ⟨hsome, _, s₂, _, hedit, hst | hst⟩ := hcases
      · rw [hst, ← hgenuine, ← hedit.genuine_iff hsome]
        cases dumping <;> rfl
      · rw [hst, ← hgenuine, ← hedit.genuine_iff hsome]
        rfl

end Session

namespace BmpState

variable {st : BmpState} {e : Input}
variable {log : List (BmpMsg × MessageType)}

theorem peerEvent_reported (pph : PerPeerHeader) (msg : BmpMsg) (res : MessageType) :
    peerEvent pph (msg, res.reported) = peerEvent pph (msg, res) := by
  cases msg <;> cases res <;> rfl

/-- One message of a session that goes on, in terms of what it says of a peer. -/
theorem genuine_next (hin : (st.next e).inSession = true) (hst : st.inSession = true)
    (he : e.Ordered st) (k : PerPeerHeader) :
    (st.next e).peerStates.Genuine k ↔
      (peerEvent k (e.msg, st.answer e)).elim (st.peerStates.Genuine k)
        fun ev => ev = .opens () := by
  have hstep (dumping : Bool) (s : Session) (hcov : s.peerStates.Covers e.orders.peers)
      (hgo : (s.processMsg dumping e.register e.orders e.msg).2.1.inSession = true) :
      (s.processMsg dumping e.register e.orders e.msg).2.1.peerStates.Genuine k ↔
        (peerEvent k (e.msg, (s.processMsg dumping e.register e.orders e.msg).1)).elim
          (s.peerStates.Genuine k) fun ev => ev = .opens () := by
    have hwrap (s : Session) : (if dumping then BmpState.dumping s else BmpState.updating s
        ).peerStates = s.peerStates := by
      cases dumping <;> rfl
    unfold Session.processMsg at hgo ⊢
    cases hmsg : e.msg with
    | peerUpNotification m =>
      rw [hmsg] at hgo
      dsimp only
      rw [hwrap, Session.genuine_peerUp]
      cases hinv : (s.peerUp e.register e.orders m).1.isInvalid <;> by_cases hk : m.pph = k <;>
        simp [peerEvent, hinv, hk]
    | peerDownNotification p =>
      dsimp only
      rw [hwrap, Session.genuine_peerDown hcov]
      cases hid : k.sameIdentity p <;> simp [peerEvent, hid]
    | routeMonitoring pph bgpUpdate => exact Session.genuine_routeMonitoring ..
    | terminationMessage =>
      rw [hmsg] at hgo
      simp only [Session.terminate] at hgo
      split at hgo <;> cases hgo
    | initiationMessage | statisticsReport | routeMirroring =>
      dsimp only
      rw [hwrap]
      rfl
  cases st with
  | initiating id => cases hst
  | terminated id => cases hst
  | dumping s =>
    rw [answer, processMsg, peerEvent_reported]
    exact hstep true s he.1 hin
  | updating s =>
    rw [answer, processMsg, peerEvent_reported]
    exact hstep false s he.1 hin

/-! ## Whole sessions -/

/-- The peers that were not made up are those that the messages seen say are up. -/
def Agrees (st : BmpState) (log : List (BmpMsg × MessageType)) : Prop :=
  match st with
  | initiating _ => ∀ k, isUp log k = false
  | dumping s | updating s => ∀ k, s.peerStates.Genuine k ↔ isUp log k = true
  | terminated _ => True

theorem agrees_of_inSession (hin : st.inSession = true) :
    st.Agrees log ↔ ∀ k, st.peerStates.Genuine k ↔ isUp log k = true := by
  cases st with
  | initiating id => cases hin
  | terminated id => cases hin
  | dumping s => rfl
  | updating s => rfl

theorem next_initiating (id : IngressId) (e : Input) :
    (∃ s names descs extra, e.msg = .initiationMessage names descs extra ∧
      (initiating id).next e = dumping s ∧ s.peerStates = .empty) ∨
    ((initiating id).next e = initiating id ∧ ((initiating id).answer e).isInvalid = true) := by
  obtain ⟨reg, orders, msg⟩ := e
  cases msg with
  | initiationMessage names descs extra => exact .inl ⟨_, _, _, _, rfl, rfl, rfl⟩
  | _ => exact .inr ⟨rfl, rfl⟩

theorem isUp_snoc_eq_false {entry : BmpMsg × MessageType} {k : PerPeerHeader}
    (h : isUp log k = false) (hno : peerEvent k entry ≠ some (.opens ())) :
    isUp (log ++ [entry]) k = false := by
  rw [isUp_snoc]
  cases hev : peerEvent k entry with
  | none => exact h
  | some ev =>
    cases ev with
    | opens u => exact absurd hev hno
    | uses u => exact h
    | closes u => rfl

/-- A message before the Initiation, or the Initiation itself, brings up no peer. -/
theorem agrees_next_initiating {id : IngressId} (h : (initiating id).Agrees log) :
    ((initiating id).next e).Agrees (log ++ [(e.msg, (initiating id).answer e)]) := by
  rcases next_initiating id e with ⟨s, _, _, _, hmsg, hs, hpeers⟩ | ⟨hs, hinv⟩
  · rw [hs]
    intro k
    rw [isUp_snoc_eq_false (h k) (by simp [hmsg, peerEvent]), hpeers]
    simp [PeerStates.Genuine]
  · rw [hs]
    intro k
    refine isUp_snoc_eq_false (h k) ?_
    cases hmsg : e.msg with
    | peerUpNotification m => simp [peerEvent, hinv]
    | peerDownNotification p =>
      simp only [peerEvent, ne_eq]
      split <;> simp
    | _ => simp [peerEvent]

theorem agrees_next (h : st.Agrees log) (he : e.Ordered st) :
    (st.next e).Agrees (log ++ [(e.msg, st.answer e)]) := by
  cases hst : st.inSession with
  | false =>
    cases st with
    | initiating id => exact agrees_next_initiating h
    | terminated id => trivial
    | dumping s => cases hst
    | updating s => cases hst
  | true =>
    rw [agrees_of_inSession hst] at h
    cases hin : (st.next e).inSession with
    | true =>
      rw [agrees_of_inSession hin]
      intro k
      rw [genuine_next hin hst he, isUp_snoc]
      cases hev : peerEvent k (e.msg, st.answer e) with
      | none => exact h k
      | some ev =>
        cases ev with
        | opens u => simp [after]
        | uses u => exact absurd hev (peerEvent_ne_uses _ _ _)
        | closes u => simp [after]
    | false =>
      cases hnext : st.next e with
      | terminated id => trivial
      | initiating id =>
        have hback : (st.next e).isInitiating = false := by
          cases st with
          | initiating _ | terminated _ => cases hst
          | dumping s | updating s => exact s.isInitiating_processMsg ..
        rw [hnext] at hback
        cases hback
      | dumping _ | updating _ => rw [hnext] at hin; cases hin

/-- The peers of a session that were not made up are those whose last accepted Peer Up is not
ended. -/
theorem genuine_iff_isUp (id : IngressId) {es : List Input} (hord : (new id).OrderedAlong es) :
    ∀ pre, pre <+: es → (run next (new id) pre).Agrees ((new id).log pre) := by
  refine run_invariant next (fun pre st => st.Agrees ((new id).log pre)) (new id) es
    (fun k => rfl) fun pre e hpre hst => ?_
  rw [log_snoc]
  exact agrees_next hst (hord pre e hpre)

/-- The session judges a Peer Up by the messages seen, and if it accepts it, it stores what the
Peer Up says. -/
def JudgesPeerUp (start : BmpState) (pre : List Input) (e : Input) (m : PeerUp) : Prop :=
  (((run next start pre).answer e).isAlreadyUp = true ↔ isUp (start.log pre) m.pph = true) ∧
    (((run next start pre).answer e).isAlreadyUp = false →
      ∃ id, ((run next start pre).next e).peerStates.get m.pph =
        some ⟨m.sessionConfig, m.gracefulRestart, [], id, false⟩)

theorem isAlreadyUp_reported (res : MessageType) : res.reported.isAlreadyUp = res.isAlreadyUp := by
  cases res <;> rfl

/-- A Peer Up in a session is refused exactly if there is a peer under its header, and stored
otherwise. -/
theorem peerUp_answer (hst : st.inSession = true) {m : PeerUp}
    (hmsg : e.msg = .peerUpNotification m) :
    ((st.answer e).isAlreadyUp = true ↔ (st.peerStates.get m.pph).isSome) ∧
      ((st.answer e).isAlreadyUp = false → ∃ id, (st.next e).peerStates.get m.pph =
        some ⟨m.sessionConfig, m.gracefulRestart, [], id, false⟩) := by
  have hstep (s : Session) :
      ((s.peerUp e.register e.orders m).1.isAlreadyUp = true ↔
          (s.peerStates.get m.pph).isSome) ∧
        ((s.peerUp e.register e.orders m).1.isAlreadyUp = false →
          ∃ id, (s.peerUp e.register e.orders m).2.1.peerStates.get m.pph =
            some ⟨m.sessionConfig, m.gracefulRestart, [], id, false⟩) := by
    rcases s.peerUp_cases e.register e.orders m with ⟨hsome, hup, _⟩ | ⟨hnone, _, hup, id, hpeers⟩
    · simp [hsome, hup]
    · refine ⟨by simp [hnone, hup], fun _ => ⟨id, ?_⟩⟩
      rw [hpeers, Dict.get_insert_self]
  cases st with
  | initiating id | terminated id => cases hst
  | dumping s | updating s =>
    rw [answer, next, processMsg, isAlreadyUp_reported]
    simp only [Session.processMsg, hmsg]
    exact hstep s

/-- For every sequence of messages: all Peer Ups of the session are judged by the messages seen
exactly when none comes for a header under which a peer was made up. -/
theorem peerUp_correct_iff (id : IngressId) (es : List Input)
    (hord : (new id).OrderedAlong es) :
    (∀ pre e m, pre ++ [e] <+: es → e.msg = .peerUpNotification m →
      (run next (new id) pre).inSession = true → JudgesPeerUp (new id) pre e m) ↔
    (∀ pre e m, pre ++ [e] <+: es → e.msg = .peerUpNotification m →
      (run next (new id) pre).inSession = true →
      ¬ (run next (new id) pre).peerStates.Synthesized m.pph) := by
  refine forall_congr' fun pre => forall_congr' fun e => forall_congr' fun m =>
    imp_congr_right fun hpre => imp_congr_right fun hmsg => imp_congr_right fun hin => ?_
  have hagrees := genuine_iff_isUp id hord pre ((List.prefix_append pre [e]).trans hpre)
  rw [agrees_of_inSession hin] at hagrees
  obtain ⟨hup, hstored⟩ := peerUp_answer hin hmsg
  rw [JudgesPeerUp, and_iff_left hstored, hup, ← hagrees m.pph]
  cases hget : (run next (new id) pre).peerStates.get m.pph with
  | none => simp [PeerStates.Genuine, PeerStates.Synthesized, hget]
  | some st => cases hsyn : st.synthesized <;>
      simp [PeerStates.Genuine, PeerStates.Synthesized, hget, hsyn]

end BmpState

/-! ## A Peer Up that comes after its routes -/

namespace LatePeerUp

def prePolicy : PerPeerHeader := .ofPeer

def postPolicy : PerPeerHeader := { prePolicy with isPostPolicy := true }

def up (pph : PerPeerHeader) : PeerUp := ⟨pph, ⟨true, []⟩, false, [], [], none⟩

def emptyUpdate : BmpMsg := .routeMonitoring postPolicy fun _ => .ok ⟨none, .ok [], .ok [], .ok []⟩

/-- The register when the router is known, and when its peer is. -/
def router : Register := Register.new.register.2.updateInfo 1 { ingressType := some .bmp }
def withPeer : Register := router.register.2.updateInfo 2 ((up prePolicy).query 1)

def inputs (reg : Register) (msgs : List BmpMsg) : List Input :=
  msgs.map fun msg => ⟨reg, ⟨[1, 2], [prePolicy, postPolicy]⟩, msg⟩

def first : List Input :=
  inputs router [.initiationMessage [] [] [], .peerUpNotification (up prePolicy)]

/-- Routes under the post-policy header come before its Peer Up. -/
def late : List Input := first ++ inputs withPeer [emptyUpdate, .peerUpNotification (up postPolicy)]

def early : List Input := first ++ inputs withPeer [.peerUpNotification (up postPolicy), emptyUpdate]

/-- The second Peer Up is refused, although there was none for its header. -/
theorem refused : ∃ pre e m, pre ++ [e] = late ∧ e.msg = .peerUpNotification m ∧
    (run BmpState.next (.new 1) pre).inSession = true ∧
    ¬ BmpState.JudgesPeerUp (.new 1) pre e m := by
  refine ⟨late.take 3, ⟨withPeer, ⟨[1, 2], [prePolicy, postPolicy]⟩,
    .peerUpNotification (up postPolicy)⟩, up postPolicy, rfl, rfl, rfl, fun h => ?_⟩
  exact absurd (h.1.mp (by decide)) (by decide)

theorem covers_of_subset {peers : PeerStates}
    (h : ∀ k, k ≠ prePolicy → k ≠ postPolicy → peers.get k = none) :
    peers.Covers [prePolicy, postPolicy] := by
  refine ⟨by decide, fun k hk => ?_⟩
  by_contra hmem
  rw [List.mem_pair, not_or] at hmem
  rw [h k hmem.1 hmem.2] at hk
  cases hk

theorem ordered_early : (BmpState.new 1).OrderedAlong early := by
  refine orderedAlong_cons.mpr ⟨⟨covers_of_subset fun _ _ _ => rfl, nofun⟩, ?_⟩
  refine orderedAlong_cons.mpr ⟨⟨covers_of_subset fun _ _ _ => rfl, nofun⟩, ?_⟩
  refine orderedAlong_cons.mpr ⟨⟨covers_of_subset fun k hpre _ => ?_, nofun⟩, ?_⟩
  · exact Dict.get_insert_of_ne _ hpre
  refine orderedAlong_cons.mpr ⟨⟨covers_of_subset fun k hpre hpost => ?_, ?_⟩, ?_⟩
  · exact (Dict.get_insert_of_ne _ hpost).trans (Dict.get_insert_of_ne _ hpre)
  · rintro pph ⟨⟩
    decide
  · exact orderedAlong_nil _

/-- With its Peer Up first, every Peer Up is judged by the messages seen. -/
theorem early_judged : (run BmpState.next (.new 1) first).inSession = true ∧
    ∀ pre e m, pre ++ [e] <+: early → e.msg = .peerUpNotification m →
      (run BmpState.next (.new 1) pre).inSession = true →
      BmpState.JudgesPeerUp (.new 1) pre e m := by
  refine ⟨rfl, (peerUp_correct_iff 1 early ordered_early).mpr ?_⟩
  intro pre e m hpre hmsg _
  have hnone : ∀ peers : PeerStates, peers.get m.pph = none → ¬ peers.Synthesized m.pph := by
    rintro peers hget ⟨st, hst, _⟩
    rw [hget] at hst
    cases hst
  rcases snoc_prefix_cons.mp hpre with ⟨rfl, rfl⟩ | ⟨pre₁, rfl, h₁⟩
  · exact hnone _ rfl
  rcases snoc_prefix_cons.mp h₁ with ⟨rfl, rfl⟩ | ⟨pre₂, rfl, h₂⟩
  · exact hnone _ rfl
  rcases snoc_prefix_cons.mp h₂ with ⟨rfl, rfl⟩ | ⟨pre₃, rfl, h₃⟩
  · cases hmsg
    exact hnone _ rfl
  rcases snoc_prefix_cons.mp h₃ with ⟨rfl, rfl⟩ | ⟨pre₄, rfl, h₄⟩
  · cases hmsg
  · simp at h₄

end LatePeerUp

end Rotonda.BmpIn
