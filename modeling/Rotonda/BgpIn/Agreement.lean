import Rotonda.BgpIn.Naming

/-!
The tables of the BGP sessions agree.

* `Held`: every live session has a connection behind it, and every Connected ingress a live
  session or a connection about to enter it;
* `agree_at_rest`: the tables agree at rest if no session starts to negotiate while another one
  negotiates with the same peer (`Apart`);
* `concurrent_disagree`: two sessions that negotiate with one peer at once leave a Connected
  ingress that no live session has.
-/

namespace Rotonda.BgpIn

open Lib Lib.Runs List Option Dict

namespace Tables

variable {st st' : Tables} {n m : Nat} {c c' d : Connection}
variable {sid : Nat} {key : SessionKey} {e : LiveSession} {input : Input} {abort : Option Nat}
  {p : Processor} {order : List SessionKey}

/-! ## The live sessions -/

/-- The connection stands behind an entry of the live sessions. -/
structure Owns (st : Tables) (key : SessionKey) (e : LiveSession) (c : Connection) : Prop where
  sid : c.sid = some e.sessionId
  id : c.id = e.ingressId
  key : c.key = key
  running : c.cancelled = false
  registered : c.phase = .registering ∨ (c.phase = .established ∨ c.phase = .closing) ∧
    (∃ info, st.ConnectedBgp e.ingressId info) ∧
    (c.unmetered = false → (st.peerStats.get e.ingressId).isSome)

/-- The session is out of the way for good. -/
structure Gone (st : Tables) (sid : Nat) : Prop where
  known : sid < st.shared.sessionIdCounter
  notLive {key : SessionKey} {e : LiveSession} (h : st.shared.liveSessions.get key = some e) :
    e.sessionId ≠ sid
  settled {n : Nat} {c : Connection} (hc : st.connections.get n = some c)
    (hsid : c.sid = some sid) : ¬ c.Negotiating

structure Held (st : Tables) : Prop where
  owner {key : SessionKey} {e : LiveSession} (h : st.shared.liveSessions.get key = some e) :
    ∃ n c, st.connections.get n = some c ∧ Owns st key e c
  connected {id : IngressId} {info : IngressInfo} (h : st.ConnectedBgp id info) :
    (∃ key e, st.shared.liveSessions.get key = some e ∧ e.ingressId = id) ∨
      ∃ n c, st.connections.get n = some c ∧ c.cancelled = false ∧ c.id = id ∧ c.Between
  entered {n : Nat} {c : Connection} (hc : st.connections.get n = some c)
    (hphase : c.phase = .registering) : ∃ sid, c.sid = some sid ∧
      st.shared.liveSessions.get c.key = some ⟨sid, c.id⟩
  replaced {n : Nat} {c : Connection} {old : LiveSession} (hc : st.connections.get n = some c)
    (hphase : c.phase = .replacing old) : old.ingressId = c.id ∧ Gone st old.sessionId
  removing {n : Nat} {c : Connection} (id : IngressId) (hc : st.connections.get n = some c) :
    c.phase ≠ .removing id
  inherits {n : Nat} {c : Connection} {e : LiveSession} (hc : st.connections.get n = some c)
    (hphase : c.phase = .resolving) (h : st.shared.liveSessions.get c.key = some e) :
    e.ingressId = c.id
  vacant {n : Nat} {c : Connection} (hc : st.connections.get n = some c) (hbetween : c.Between) :
    st.shared.liveSessions.get c.key = none
  aborted {sid : Nat} (h : sid ∈ st.aborts) : Gone st sid

/-- Nobody comes back, and the live sessions are the old ones but for others. -/
private theorem Gone.kept (h : Gone st sid) (hc : st.connections.get n = some c)
    (hconns : st'.connections = st.connections.insert n c') (hsid : c'.sid = c.sid)
    (hcount : st'.shared.sessionIdCounter = st.shared.sessionIdCounter)
    (hneg : c'.Negotiating → c.Negotiating)
    (hlive : ∀ key e, st'.shared.liveSessions.get key = some e →
      st.shared.liveSessions.get key = some e ∨ e.sessionId ≠ sid) : Gone st' sid where
  known := hcount ▸ h.known
  notLive := fun hget => (hlive _ _ hget).elim h.notLive fun hne => hne
  settled := by
    intro m d hd hds
    rcases connection_cases hconns hd with ⟨rfl, rfl⟩ | ⟨_, hd₀⟩
    · exact fun hn => h.settled hc (hsid ▸ hds) (hneg hn)
    · exact h.settled hd₀ hds

private structure Sits (st : Tables) (c : Connection) : Prop where
  entered (hphase : c.phase = .registering) : ∃ sid, c.sid = some sid ∧
    st.shared.liveSessions.get c.key = some ⟨sid, c.id⟩
  replaced (old : LiveSession) (hphase : c.phase = .replacing old) :
    old.ingressId = c.id ∧ Gone st old.sessionId
  removing (id : IngressId) : c.phase ≠ .removing id
  inherits (e : LiveSession) (hphase : c.phase = .resolving)
    (h : st.shared.liveSessions.get c.key = some e) : e.ingressId = c.id
  vacant (hbetween : c.Between) : st.shared.liveSessions.get c.key = none

theorem Held.sits (h : Held st) (hc : st.connections.get n = some c) : Sits st c :=
  ⟨h.entered hc, fun _ => h.replaced hc, fun id => h.removing id hc, fun _ => h.inherits hc,
    h.vacant hc⟩

/-- The connection keeps its entry while it registers, and gets none while it negotiates. -/
private theorem Sits.kept (h : Sits st d) (hgone : ∀ {sid}, Gone st sid → Gone st' sid)
    (hentered : d.phase = .registering → ∀ e, st.shared.liveSessions.get d.key = some e →
      st'.shared.liveSessions.get d.key = some e)
    (hnew : d.Negotiating → ∀ e, st'.shared.liveSessions.get d.key = some e →
      st.shared.liveSessions.get d.key = some e) : Sits st' d := by
  refine ⟨fun hp => ?_, fun old hp => ?_, h.removing, fun e hp hget => ?_, fun hbetween => ?_⟩
  · obtain ⟨sid, hds, hget⟩ := h.entered hp
    exact ⟨sid, hds, hentered hp _ hget⟩
  · obtain ⟨heq, hg⟩ := h.replaced old hp
    exact ⟨heq, hgone hg⟩
  · exact h.inherits e hp (hnew (.inl (by rw [hp]; rfl)) e hget)
  · have hdn : d.Negotiating := by
      rcases hbetween with hp | ⟨old, hp⟩ <;> exact .inl (by rw [hp]; rfl)
    cases hget : st'.shared.liveSessions.get d.key with
    | none => rfl
    | some e => cases (h.vacant hbetween).symm.trans (hnew hdn e hget)

/-- Out of the negotiation nothing is asked of a connection. -/
theorem Sits.of_idle (h : c.phase.negotiating = false) : Sits st c := by
  have hno : ∀ {q : Phase}, q.negotiating = true → c.phase ≠ q := by
    rintro q hq rfl
    cases h.symm.trans hq
  refine ⟨fun hp => absurd hp (hno rfl), fun _ hp => absurd hp (hno rfl), fun _ => hno rfl,
    fun _ hp => absurd hp (hno rfl), ?_⟩
  rintro (hp | ⟨old, hp⟩) <;> exact absurd hp (hno rfl)

theorem Sits.congr (h : Sits st c) (hc : c'.processor = c.processor) : Sits st c' := by
  obtain ⟨p, _, _⟩ := c'
  cases hc
  exact ⟨h.entered, h.replaced, h.removing, h.inherits, h.vacant⟩

theorem Sits.of_inserting (h : c.phase = .inserting)
    (hnone : st.shared.liveSessions.get c.key = none) : Sits st c := by
  refine ⟨fun hp => ?_, fun _ hp => ?_, fun _ hp => ?_, fun _ hp => ?_, fun _ => hnone⟩ <;>
    cases h.symm.trans hp

/-- The entry of an ingress stays what it is to the session behind it. -/
private def Stays (st st' : Tables) (id : IngressId) : Prop :=
  (∀ info, st.ConnectedBgp id info → ∃ info, st'.ConnectedBgp id info) ∧
    ((st.peerStats.get id).isSome → (st'.peerStats.get id).isSome)

theorem stays_same (hreg : ∀ id, st'.shared.ingresses.get id = st.shared.ingresses.get id)
    (hstats : st'.peerStats = st.peerStats) (id : IngressId) : Stays st st' id :=
  ⟨fun info h => ⟨info, (hreg id).trans h.1, h.2⟩, fun h => hstats ▸ h⟩

theorem Owns.same (h : Owns st key e d) (hstays : Stays st st' e.ingressId) : Owns st' key e d := by
  refine ⟨h.sid, h.id, h.key, h.running, h.registered.imp_right ?_⟩
  rintro ⟨hp, ⟨info, hinfo⟩, hmeter⟩
  exact ⟨hp, hstays.1 info hinfo, fun hun => hstays.2 (hmeter hun)⟩

/-- A session in the middle of its negotiation stands behind an entry only while it registers. -/
theorem Owns.phase_cases (h : Owns st key e c) :
    c.phase = .registering ∨ c.phase = .established ∨ c.phase = .closing :=
  h.registered.imp_right fun h => h.1

/-- A step of one connection, or a new one: the entries, the connected ingresses and the other
connections are the old ones, but for what the step is about. -/
theorem Held.of_insert (h : Held st) (hconns : st'.connections = st.connections.insert n c')
    (hgone : ∀ {sid}, Gone st sid → Gone st' sid)
    (howner : ∀ key e, st'.shared.liveSessions.get key = some e → Owns st' key e c' ∨
      st.shared.liveSessions.get key = some e ∧ Stays st st' e.ingressId ∧
        ∀ d, st.connections.get n = some d → ¬ Owns st key e d)
    (hconnected : ∀ id info, st'.ConnectedBgp id info →
      (∃ key e, st'.shared.liveSessions.get key = some e ∧ e.ingressId = id) ∨
      (c'.cancelled = false ∧ c'.id = id ∧ c'.Between) ∨ (∃ info, st.ConnectedBgp id info) ∧
        (∀ key e, st.shared.liveSessions.get key = some e → e.ingressId = id →
          st'.shared.liveSessions.get key = some e) ∧
        ∀ d, st.connections.get n = some d → ¬ (d.cancelled = false ∧ d.id = id ∧ d.Between))
    (hself : Sits st' c')
    (hentered : ∀ m d, m ≠ n → st.connections.get m = some d → d.phase = .registering →
      ∀ e, st.shared.liveSessions.get d.key = some e → st'.shared.liveSessions.get d.key = some e)
    (hnew : ∀ m d, m ≠ n → st.connections.get m = some d → d.Negotiating →
      ∀ e, st'.shared.liveSessions.get d.key = some e → st.shared.liveSessions.get d.key = some e)
    (haborts : ∀ sid ∈ st'.aborts, sid ∈ st.aborts ∨ Gone st sid) : Held st' := by
  have hsits : ∀ {m d}, st'.connections.get m = some d → Sits st' d := by
    intro m d hd
    rcases connection_cases hconns hd with ⟨rfl, rfl⟩ | ⟨hmn, hd₀⟩
    · exact hself
    · exact (h.sits hd₀).kept hgone (hentered m d hmn hd₀) (hnew m d hmn hd₀)
  have hother : ∀ {m d}, m ≠ n → st.connections.get m = some d → st'.connections.get m = some d :=
    fun hmn hd => hconns ▸ (get_insert_of_ne _ hmn).trans hd
  have hmine : st'.connections.get n = some c' := hconns ▸ get_insert_self ..
  refine ⟨fun {key e} hget => ?_, fun {id info} hinfo => ?_, fun hd => (hsits hd).entered,
    fun hd => (hsits hd).replaced _, fun id hd => (hsits hd).removing id,
    fun hd => (hsits hd).inherits _, fun hd => (hsits hd).vacant,
    fun {sid} hmem => hgone ((haborts sid hmem).elim h.aborted fun hg => hg)⟩
  · rcases howner key e hget with howns | ⟨hget, hstays, hno⟩
    · exact ⟨n, c', hmine, howns⟩
    · obtain ⟨m, d, hd, howns⟩ := h.owner hget
      refine ⟨m, d, hother ?_ hd, howns.same hstays⟩
      rintro rfl
      exact hno d hd howns
  · rcases hconnected id info hinfo with hlive | hself | ⟨⟨info₀, hinfo₀⟩, hkept, hno⟩
    · exact .inl hlive
    · exact .inr ⟨n, c', hmine, hself⟩
    · rcases h.connected hinfo₀ with ⟨key, e, hget, hid⟩ | ⟨m, d, hd, hrun, hid, hbetween⟩
      · exact .inl ⟨key, e, hkept key e hget hid, hid⟩
      · refine .inr ⟨m, d, hother ?_ hd, hrun, hid, hbetween⟩
        rintro rfl
        exact hno d hd ⟨hrun, hid, hbetween⟩

/-- A connection comes in, or starts to negotiate with the ingress of the entry of its peer. -/
private theorem Held.joined (h : Held st)
    (hfree : ∀ d, st.connections.get n = some d → d.phase = .connecting)
    (hconns : st'.connections = st.connections.insert n c')
    (hphase : c'.phase = .connecting ∨ c'.phase = .resolving)
    (hsid : ∀ sid, c'.sid = some sid → st.shared.sessionIdCounter ≤ sid)
    (hcount : st.shared.sessionIdCounter ≤ st'.shared.sessionIdCounter)
    (hlive : st'.shared.liveSessions = st.shared.liveSessions)
    (hreg : ∀ id, st'.shared.ingresses.get id = st.shared.ingresses.get id)
    (hstats : st'.peerStats = st.peerStats) (haborts : st'.aborts = st.aborts)
    (hinherits : c'.phase = .resolving → ∀ e, st.shared.liveSessions.get c'.key = some e →
      e.ingressId = c'.id) : Held st' := by
  have hgone : ∀ {sid}, Gone st sid → Gone st' sid := by
    intro sid hg
    refine ⟨Nat.lt_of_lt_of_le hg.known hcount, fun hget => hg.notLive (hlive ▸ hget), ?_⟩
    intro m d hd hds
    rcases connection_cases hconns hd with ⟨rfl, rfl⟩ | ⟨_, hd₀⟩
    · exact absurd hg.known (Nat.not_lt.mpr (hsid sid hds))
    · exact hg.settled hd₀ hds
  refine h.of_insert hconns hgone (fun key e hget => ?_) (fun id info hinfo => ?_) ?_
    (fun _ _ _ _ _ e hget => hlive ▸ hget) (fun _ _ _ _ _ e hget => hlive ▸ hget)
    fun sid hmem => .inl (haborts ▸ hmem)
  · refine .inr ⟨hlive ▸ hget, stays_same hreg hstats _, fun d hd how => ?_⟩
    rcases how.phase_cases with hp | hp | hp <;> cases (hfree d hd).symm.trans hp
  · refine .inr (.inr ⟨⟨info, (hreg id).symm.trans hinfo.1, hinfo.2⟩,
      fun key e hget _ => hlive ▸ hget, fun d hd hb => ?_⟩)
    rcases hb.2.2 with hp | ⟨old, hp⟩ <;> cases (hfree d hd).symm.trans hp
  · rcases hphase with hphase | hphase
    · exact .of_idle (by rw [hphase]; rfl)
    · refine ⟨fun hp => ?_, fun old hp => ?_, fun id hp => ?_, fun e hp hget => ?_, fun hb => ?_⟩
      · cases hphase.symm.trans hp
      · cases hphase.symm.trans hp
      · cases hphase.symm.trans hp
      · exact hinherits hp e (hlive ▸ hget)
      · rcases hb with hp | ⟨old, hp⟩ <;> cases hphase.symm.trans hp

theorem not_between {phase : Phase} (h : c.phase = phase) (h1 : phase ≠ .inserting)
    (h2 : ∀ old, phase ≠ .replacing old) : ¬ c.Between := by
  subst h
  rintro (hp | ⟨old, hp⟩)
  · exact h1 hp
  · exact h2 old hp

theorem reclaimStats_eq {phase : Phase} (h : c.phase = phase) (hne : phase ≠ .reclaiming) :
    st.reclaimStats c.processor input = st.peerStats := by
  cases input with
  | proceed order => exact if_neg fun hcond => hne (h.symm.trans hcond.1)
  | _ => rfl

variable {sh : Shared} {phase : Phase} {reg : Register}

theorem stays_after {id : IngressId} (hstats : st.reclaimStats c.processor input = st.peerStats)
    (hreg : ∀ info, st.ConnectedBgp id info →
      ∃ info, (st.after n c input p sh abort).ConnectedBgp id info) :
    Stays st (st.after n c input p sh abort) id :=
  ⟨hreg, fun hsome => (congrArg (fun r => (r.get id).isSome) hstats).trans hsome⟩

theorem mem_aborts_after (h : sid ∈ (st.after n c input p sh none).aborts) : sid ∈ st.aborts := by
  simpa only [after, toList_none, append_nil] using h

/-- A connection has taken the entry of its peer out of the table. -/
private def withoutEntry (st : Tables) (n : Nat) (c : Connection) (order : List SessionKey)
    (phase : Phase) (reg : Register) : Tables :=
  st.after n c (.proceed order) { c.processor with phase := phase }
    { st.shared with liveSessions := st.shared.liveSessions.erase c.key, ingresses := reg } none

private theorem live_withoutEntry
    (h : (withoutEntry st n c order phase reg).shared.liveSessions.get key = some e) :
    key ≠ c.key ∧ st.shared.liveSessions.get key = some e :=
  of_get_erase h

section

variable (h : Held st) (hc : st.connections.get n = some c)
include h hc

/-- A step that leaves the live sessions alone. -/
theorem Held.moved (hconns : st'.connections = st.connections.insert n c')
    (hid : c'.id = c.id) (hsid : c'.sid = c.sid)
    (hcount : st'.shared.sessionIdCounter = st.shared.sessionIdCounter)
    (hlive : st'.shared.liveSessions = st.shared.liveSessions)
    (hneg : c'.Negotiating → c.Negotiating)
    (hself : (∀ {sid}, Gone st sid → Gone st' sid) → Sits st' c')
    (hbetween : c.cancelled = false → c.Between → c'.cancelled = false ∧ c'.Between)
    (hstays : ∀ key e, st.shared.liveSessions.get key = some e → Stays st st' e.ingressId)
    (howner : ∀ key e, st.shared.liveSessions.get key = some e → Owns st' key e c →
      Owns st' key e c')
    (hconnected : ∀ id info, st'.ConnectedBgp id info → (∃ info, st.ConnectedBgp id info) ∨
      ∃ key e, st.shared.liveSessions.get key = some e ∧ e.ingressId = id)
    (haborts : ∀ sid ∈ st'.aborts, sid ∈ st.aborts ∨ Gone st sid) : Held st' := by
  have hgone : ∀ {sid}, Gone st sid → Gone st' sid := fun hg =>
    hg.kept hc hconns hsid hcount hneg fun _ _ hget => .inl (hlive ▸ hget)
  refine h.of_insert hconns hgone (fun key e hget => ?_) (fun id info hinfo => ?_) (hself hgone)
    (fun _ _ _ _ _ e hget => hlive ▸ hget) (fun _ _ _ _ _ e hget => hlive ▸ hget) haborts
  · rw [hlive] at hget
    by_cases how : Owns st key e c
    · exact .inl (howner key e hget (how.same (hstays key e hget)))
    · refine .inr ⟨hget, hstays key e hget, fun d hd => ?_⟩
      cases hc.symm.trans hd
      exact how
  · rw [hlive]
    by_cases hb : c.cancelled = false ∧ c.id = id ∧ c.Between
    · obtain ⟨hrun, hb'⟩ := hbetween hb.1 hb.2.2
      exact .inr (.inl ⟨hrun, hid.trans hb.2.1, hb'⟩)
    · rcases hconnected id info hinfo with hold | hlive
      · refine .inr (.inr ⟨hold, fun key e hget _ => hget, fun d hd => ?_⟩)
        cases hc.symm.trans hd
        exact hb
      · exact .inl hlive

/-- The entry is taken out by a session that stands in for its ingress, or that marks it. -/
private theorem Held.erased (hname : Named st)
    (hold : st.shared.liveSessions.get c.key = some e) (hid : e.ingressId = c.id)
    (hp : c.phase ≠ .reclaiming)
    (hnegotiating : phase.negotiating = true → c.phase.negotiating = true)
    (hreg : ∀ {id}, id ≠ c.id → reg.get id = st.shared.ingresses.get id)
    (hown : ∀ info, reg.get c.id = some info → info.state = some .connected →
      c.cancelled = false ∧ phase = .replacing e)
    (hother : ∀ m d, m ≠ n → st.connections.get m = some d → d.phase = .registering →
      d.key ≠ c.key)
    (hself : (∀ {sid}, Gone st sid → Gone (withoutEntry st n c order phase reg) sid) →
      Sits (withoutEntry st n c order phase reg) { c with
        processor := { c.processor with phase := phase }, unmetered := c.phase = .registering }) :
    Held (withoutEntry st n c order phase reg) := by
  have hgone : ∀ {sid}, Gone st sid → Gone (withoutEntry st n c order phase reg) sid := fun hg =>
    hg.kept hc rfl rfl rfl (negotiating_after hnegotiating) fun _ _ hget =>
      .inl (live_withoutEntry hget).2
  refine h.of_insert rfl hgone (fun key e' hget => ?_) (fun id info hinfo => ?_) (hself hgone)
    (fun m d hmn hd hp e' hget => (get_erase_of_ne (hother m d hmn hd hp)).trans hget)
    (fun _ _ _ _ _ e' hget => (live_withoutEntry hget).2)
    fun sid hmem => .inl (mem_aborts_after hmem)
  · obtain ⟨hne, hget⟩ := live_withoutEntry hget
    obtain ⟨m, d, hd, howns⟩ := h.owner hget
    have hdid : e'.ingressId ≠ c.id := fun heq =>
      hne (howns.key.symm.trans (hname.same_key hc hd (howns.id.trans heq)))
    refine .inr ⟨hget, stays_after (reclaimStats_eq rfl hp) fun info hinfo =>
      ⟨info, (hreg hdid).trans hinfo.1, hinfo.2⟩, fun d hd how => ?_⟩
    cases hc.symm.trans hd
    exact hne how.key.symm
  · by_cases heq : id = c.id
    · subst heq
      obtain ⟨hrun, hphase⟩ := hown info hinfo.1 hinfo.2.1
      exact .inr (.inl ⟨hrun, rfl, .inr ⟨e, hphase⟩⟩)
    · refine .inr (.inr ⟨⟨info, (hreg heq).symm.trans hinfo.1, hinfo.2⟩, fun key e' hget he => ?_,
        fun d hd hb => ?_⟩)
      · refine (get_erase_of_ne ?_).trans hget
        rintro rfl
        cases hold.symm.trans hget
        exact heq (he.symm.trans hid)
      · cases hc.symm.trans hd
        exact heq hb.2.1.symm

/-- The old session of the peer is taken out of the table. -/
private theorem Held.takenOut {old : LiveSession} (hname : Named st) (hsolo : Solo st)
    (hrun : c.cancelled = false) (hphase : c.phase = .resolving)
    (hold : st.shared.liveSessions.get c.key = some old) :
    Held (withoutEntry st n c order (.replacing old) st.shared.ingresses) := by
  have hcn : c.Negotiating := .inl (by rw [hphase]; rfl)
  -- the connection of the old session is out of its negotiation
  obtain ⟨k, d, hd, howns⟩ := h.owner hold
  have hkn : k ≠ n := by
    rintro rfl
    cases hc.symm.trans hd
    rcases howns.phase_cases with hp | hp | hp <;> cases hphase.symm.trans hp
  have hdn : ¬ d.Negotiating := fun hdn => hkn (hsolo.alone hc hd hcn hdn howns.key)
  have hgoneOld : Gone (withoutEntry st n c order (.replacing old) st.shared.ingresses)
      old.sessionId := by
    constructor
    case known => exact hname.sid_lt hd howns.sid
    case notLive =>
      intro key e hget heq
      obtain ⟨hne, hget⟩ := live_withoutEntry hget
      obtain ⟨k', d', hd', howns'⟩ := h.owner hget
      cases hname.sid_inj hd hd' howns.sid (heq ▸ howns'.sid)
      cases hd.symm.trans hd'
      exact hne (howns'.key.symm.trans howns.key)
    case settled =>
      intro m d' hd' hds
      rcases connection_cases rfl hd' with ⟨rfl, rfl⟩ | ⟨_, hd₀⟩
      · exact absurd (hname.sid_inj hd hc howns.sid hds) hkn
      · cases hname.sid_inj hd hd₀ howns.sid hds
        cases hd.symm.trans hd₀
        exact hdn
  have hid : old.ingressId = c.id := h.inherits hc hphase hold
  refine h.erased hc hname hold hid (hphase ▸ nofun)
    (fun _ => congrArg Phase.negotiating hphase) (fun _ => rfl) (fun _ _ _ => ⟨hrun, rfl⟩)
    (fun m d hmn hd hp heq => hmn (hsolo.alone hc hd hcn (.inl (by rw [hp]; rfl)) heq)) fun _ => ?_
  refine ⟨nofun, fun old' hp => ?_, nofun, nofun, fun _ => ?_⟩
  · cases hp
    exact ⟨hid, hgoneOld⟩
  · exact (get_erase ..).trans (if_pos rfl)

/-- The session enters the table, where its peer has no entry. -/
theorem Held.inserted (hsolo : Solo st) (hrun : c.cancelled = false)
    (hphase : c.phase = .inserting) (hcs : c.sid = some sid) :
    Held (st.after n c (.proceed order) { c.processor with phase := .registering }
      { st.shared with
        liveSessions := st.shared.liveSessions.insert c.key ⟨sid, c.id⟩ } none) := by
  have hcn : c.Negotiating := .inl (by rw [hphase]; rfl)
  -- no other session negotiates with the peer
  have hpeer : ∀ {m d}, m ≠ n → st.connections.get m = some d → d.Negotiating → d.key ≠ c.key :=
    fun hmn hd hdn heq => hmn (hsolo.alone hc hd hcn hdn heq)
  refine h.of_insert rfl (fun hg => hg.kept hc rfl rfl rfl (fun _ => hcn) fun key e hget => ?_)
    (fun key e hget => ?_) (fun id info hinfo => ?_)
    ⟨fun _ => ⟨sid, hcs, get_insert_self ..⟩, nofun, nofun, nofun, fun hb => ?_⟩
    (fun m d hmn hd hp e hget => ?_) (fun m d hmn hd hdn e hget => ?_)
    fun sid hmem => .inl (mem_aborts_after hmem)
  · rcases of_get_insert hget with ⟨rfl, rfl⟩ | ⟨_, hget⟩
    · exact .inr fun heq => hg.settled hc (heq ▸ hcs) hcn
    · exact .inl hget
  · rcases of_get_insert hget with ⟨rfl, rfl⟩ | ⟨_, hget⟩
    · exact .inl ⟨hcs, rfl, rfl, hrun, .inl rfl⟩
    · refine .inr ⟨hget, stays_after (reclaimStats_eq hphase nofun) fun info h => ⟨info, h⟩,
        fun d hd how => ?_⟩
      cases hc.symm.trans hd
      rcases how.phase_cases with hp | hp | hp <;> cases hphase.symm.trans hp
  · by_cases heq : id = c.id
    · exact .inl ⟨c.key, _, get_insert_self .., heq.symm⟩
    · refine .inr (.inr ⟨⟨info, hinfo⟩, fun key e hget _ => ?_, fun d hd hb => ?_⟩)
      · refine (get_insert_of_ne _ ?_).trans hget
        rintro rfl
        cases (h.vacant hc (.inl hphase)).symm.trans hget
      · cases hc.symm.trans hd
        exact heq hb.2.1.symm
  · exact absurd hb (not_between rfl nofun nofun)
  · exact (get_insert_of_ne _ (hpeer hmn hd (.inl (by rw [hp]; rfl)))).trans hget
  · exact (get_insert_of_ne _ (hpeer hmn hd hdn)).symm.trans hget

/-- The session leaves the table and marks its ingress. -/
private theorem Held.quit (hname : Named st) (hphase : c.phase = .closing)
    (hlive : st.shared.liveSessions.get c.key = some e) (hcs : c.sid = some e.sessionId) :
    Held (withoutEntry st n c order .reclaiming
      (st.shared.ingresses.updateInfo c.id (.withState .disconnected))) := by
  have hentry : e.ingressId = c.id := by
    obtain ⟨m, d, hd, howns⟩ := h.owner hlive
    cases hname.sid_inj hc hd hcs howns.sid
    cases hc.symm.trans hd
    exact howns.id.symm
  refine h.erased hc hname hlive hentry (hphase ▸ nofun) nofun Register.get_updateInfo_ne
    (fun info hget hstate => ?_) (fun m d hmn hd hp heq => ?_) fun _ => .of_idle rfl
  · -- the ingress is no longer Connected
    have hof := Register.stateOf_updateInfo st.shared.ingresses c.id c.id (.withState .disconnected)
    rw [if_pos rfl, Register.stateOf, hget, bind_some, hstate] at hof
    cases hof
  · -- the entry of a session that registers is its own
    obtain ⟨sid, hds, hget⟩ := h.entered hd hp
    rw [heq] at hget
    cases hlive.symm.trans hget
    exact hmn (hname.sid_inj hd hc hds hcs)

private theorem Held.negotiates {id : IngressId} (hphase : c.phase = .connecting)
    (hinherits : ∀ e, st.shared.liveSessions.get c.key = some e → e.ingressId = id) :
    Held (st.negotiates n c input id) := by
  refine h.joined (fun d hd => ?_) rfl (.inr rfl) (fun sid hsid => ?_) (Nat.le_succ _) rfl
    (fun _ => rfl) (reclaimStats_eq hphase nofun) (append_nil _) fun _ => hinherits
  · cases hc.symm.trans hd
    exact hphase
  · exact Nat.le_of_eq (Option.some.inj hsid)

/-- The steps of a session that only concern itself. -/
theorem Held.goes (phase : Phase) (hrun : c.cancelled = false)
    (hnegotiating : phase.negotiating = true → c.phase.negotiating = true)
    (hphase : phase = .inserting ∧ st.shared.liveSessions.get c.key = none ∨
      phase.negotiating = false)
    (hbetween : c.Between → phase = .inserting)
    (hstats : st.reclaimStats c.processor input = st.peerStats)
    (hunmetered : c.unmetered = false)
    (howner : ∀ {st' : Tables} key e, st.shared.liveSessions.get key = some e → Owns st' key e c →
      c.phase = .established ∧ (phase = .established ∨ phase = .closing))
    (habort : ∀ sid, abort = some sid → Gone st sid) :
    Held (st.after n c input { c.processor with phase := phase } st.shared abort) := by
  refine h.moved hc rfl rfl rfl rfl rfl (negotiating_after hnegotiating) (fun _ => ?_)
    (fun _ hb => ⟨hrun, .inl (hbetween hb)⟩) (fun _ e _ => ?_)
    (fun key e hget how => ?_) (fun id info hinfo => .inl ⟨info, hinfo⟩) (fun sid hmem => ?_)
  · rcases hphase with ⟨hp, hnone⟩ | hp
    · exact .of_inserting hp hnone
    · exact .of_idle hp
  · exact stays_after hstats fun info hinfo => ⟨info, hinfo⟩
  · obtain ⟨hest, hp⟩ := howner key e hget how
    refine ⟨how.sid, how.id, how.key, how.running, .inr ⟨hp, ?_⟩⟩
    rcases how.registered with hr | ⟨_, hinfo, hmeter⟩
    · cases hest.symm.trans hr
    · exact ⟨hinfo, fun _ => hmeter hunmetered⟩
  · rcases mem_append.mp hmem with hmem | hmem
    · exact .inl hmem
    · exact .inr (habort sid (mem_toList.mp hmem))

theorem Held.registers (hrun : c.cancelled = false) (hphase : c.phase = .registering)
    (order : List SessionKey) :
    Held (st.after n c (.proceed order) { c.processor with phase := .established }
      { st.shared with
        ingresses := st.shared.ingresses.updateInfo c.id c.processor.info } none) := by
  obtain ⟨info, hinfo, hstate, htype, _⟩ := get_registered c.processor st.shared.ingresses c.id
  refine h.moved hc rfl rfl rfl rfl rfl (negotiating_after fun hn => nomatch hn)
    (fun _ => .of_idle rfl) (fun _ hb => absurd hb (not_between hphase nofun nofun))
    (fun key e _ => stays_after (reclaimStats_eq hphase nofun) fun info' hinfo' => ?_)
    (fun key e _ how => ?_) (fun id info' hinfo' => ?_) fun sid hmem => .inl (mem_aborts_after hmem)
  · by_cases heq : e.ingressId = c.id
    · rw [heq]
      exact ⟨info, hinfo, hstate, htype⟩
    · exact ⟨info', (Register.get_updateInfo_ne heq).trans hinfo'.1, hinfo'.2⟩
  · refine ⟨how.sid, how.id, how.key, hrun, .inr ⟨.inl rfl, ⟨info, ?_, hstate, htype⟩, ?_⟩⟩
    · rw [← how.id]
      exact hinfo
    · exact fun hun => absurd hphase (of_decide_eq_false hun)
  · by_cases heq : id = c.id
    · obtain ⟨sid, _, hget⟩ := h.entered hc hphase
      exact .inr ⟨c.key, _, hget, heq.symm⟩
    · exact .inl ⟨info', (Register.get_updateInfo_ne heq).symm.trans hinfo'.1, hinfo'.2⟩

theorem Held.frees (hphase : c.phase = .reclaiming)
    (horder : st.shared.liveSessions.IterOrder order)
    (hfind : (st.shared.liveSessions.find order fun _ s => s.ingressId == c.id) = none) :
    Held (st.after n c (.proceed order) { c.processor with phase := .ended }
      { st.shared with ingresses := st.shared.ingresses.remove c.id } none) := by
  have hne : ∀ {key e}, st.shared.liveSessions.get key = some e → e.ingressId ≠ c.id := by
    intro key e hget heq
    have hno := (find_eq_none horder).mp hfind key e hget
    rw [heq, beq_self_eq_true] at hno
    cases hno
  have hstats : st.reclaimStats c.processor (.proceed order) = st.peerStats.erase c.id :=
    if_pos ⟨hphase, hfind⟩
  refine h.moved hc rfl rfl rfl rfl rfl (negotiating_after fun hn => nomatch hn)
    (fun _ => .of_idle rfl) (fun _ hb => absurd hb (not_between hphase nofun nofun))
    (fun key e hget => ⟨fun info hinfo => ⟨info, ?_, hinfo.2⟩, fun hsome => ?_⟩)
    (fun key e hget how => absurd how.id.symm (hne hget))
    (fun id info hinfo => .inl ⟨info, ?_, hinfo.2⟩) fun sid hmem => .inl (mem_aborts_after hmem)
  · exact (Register.get_remove ..).trans ((if_neg (hne hget)).trans hinfo.1)
  · refine (congrArg (fun r => (r.get e.ingressId).isSome) hstats).trans ?_
    rw [get_erase_of_ne (hne hget)]
    exact hsome
  · have hget := hinfo.1
    simp only [after, Register.get_remove] at hget
    split at hget
    · cases hget
    · exact hget

private theorem Held.act (hname : Named st) (hsolo : Solo st) (hrun : c.cancelled = false)
    (hmetered : c.unmetered = false) (hacts : c.processor.Acts st.shared input p sh abort)
    (hiter : st.Iterates (.act n input)) (hapart : st.Apart (.act n input)) :
    Held (st.after n c input p sh abort) := by
  have howner : ∀ {phase : Phase}, c.processor.phase = phase →
      phase ≠ .registering ∧ phase ≠ .established ∧ phase ≠ .closing →
      ∀ {st' : Tables} key e, ¬ Owns st' key e c := by
    rintro _ rfl ⟨h1, h2, h3⟩ st' key e how
    rcases how.phase_cases with hp | hp | hp
    · exact h1 hp
    · exact h2 hp
    · exact h3 hp
  -- the live session of the peer is registered under its one entry
  have hlive : ∀ e, st.shared.liveSessions.get c.key = some e →
      (∀ m d, st.connections.get m = some d → d.Negotiating → d.key ≠ c.key) →
      ∃ info, st.shared.ingresses.get e.ingressId = some info ∧ OfPeer c.key info := by
    intro e hget hapart
    obtain ⟨m, d, hd, how⟩ := h.owner hget
    rcases how.registered with hp | ⟨_, ⟨info, hinfo, _, htype⟩, _⟩
    · exact absurd how.key (hapart m d hd (.inl (by rw [hp]; rfl)))
    · obtain ⟨haddr, hasn⟩ := hname.typed hd (how.id ▸ hinfo) htype
      rw [how.key] at haddr hasn
      exact ⟨info, hinfo, htype, haddr, hasn⟩
  cases hacts with
  | reuse hp hfind =>
    obtain ⟨_, hinfo, hmatch⟩ := find_eq_some hfind
    refine h.negotiates hc hp fun e hget => ?_
    obtain ⟨info', hget', hpeer⟩ := hlive e hget (hapart c hc)
    exact hsolo.unique hget' hinfo hpeer ((matchesBgpSession_iff _ _).mp hmatch)
  | own hp hfind =>
    refine h.negotiates hc hp fun e hget => ?_
    obtain ⟨info', hget', hpeer⟩ := hlive e hget (hapart c hc)
    have hno := (find_eq_none hiter).mp hfind _ info' hget'
    rw [(matchesBgpSession_iff _ _).mpr hpeer] at hno
    cases hno
  | leave hp =>
    have hp' : ∀ {q : Phase}, c.phase = q → q = .connecting ∨ q = .established := by
      rintro _ rfl
      exact hp
    refine h.goes hc .closing hrun nofun (.inr rfl) (fun hb => ?_)
      (reclaimStats_eq rfl fun hr => ?_) hmetered (fun key e _ how => ⟨?_, .inr rfl⟩) nofun
    · rcases hb with hb | ⟨old, hb⟩ <;> rcases hp' hb with hq | hq <;> cases hq
    · rcases hp' hr with hq | hq <;> cases hq
    · rcases how.phase_cases with hq | hq | hq
      · rcases hp' hq with hq | hq <;> cases hq
      · exact hq
      · rcases hp' hq with hq | hq <;> cases hq
  | takeOut hp hold => exact h.takenOut hc hname hsolo hrun hp hold
  | vacant hp hnone =>
    exact h.goes hc .inserting hrun (fun _ => congrArg Phase.negotiating hp)
      (.inl ⟨rfl, hnone⟩) (fun _ => rfl) (reclaimStats_eq hp nofun) hmetered
      (fun key e _ how => absurd how (howner hp ⟨nofun, nofun, nofun⟩ key e)) nofun
  | dismiss hp hne => exact absurd (h.replaced hc hp).1 hne
  | succeed hp _ =>
    refine h.goes hc .inserting hrun (fun _ => congrArg Phase.negotiating hp)
      (.inl ⟨rfl, h.vacant hc (.inr ⟨_, hp⟩)⟩) (fun _ => rfl) (reclaimStats_eq hp nofun) hmetered
      (fun key e _ how => absurd how (howner hp ⟨nofun, nofun, nofun⟩ key e)) ?_
    intro sid hsid
    cases hsid
    exact (h.replaced hc hp).2
  | remove hp => exact absurd hp (h.removing _ hc)
  | insert hp hsid => exact h.inserted hc hsolo hrun hp hsid
  | register hp => exact h.registers hc hrun hp _
  | update hp =>
    exact h.goes hc c.phase hrun (fun hn => hn) (.inr (congrArg Phase.negotiating hp))
      (fun hb => absurd hb (not_between hp nofun nofun)) (reclaimStats_eq hp nofun) hmetered
      (fun key e _ how => ⟨hp, .inl hp⟩) nofun
  | quit hp hget hsid => exact h.quit hc hname hp hget hsid
  | expelled hp hno =>
    refine h.goes hc .ended hrun nofun (.inr rfl)
      (fun hb => absurd hb (not_between hp nofun nofun)) (reclaimStats_eq hp nofun) hmetered
      (fun key e hget how => ?_) nofun
    have hkey := how.key
    subst hkey
    exact absurd how.sid (hno e hget)
  | keep hp hfind =>
    refine h.goes hc .ended hrun nofun (.inr rfl)
      (fun hb => absurd hb (not_between hp nofun nofun)) (if_neg fun hcond => ?_) hmetered
      (fun key e _ how => absurd how (howner hp ⟨nofun, nofun, nofun⟩ key e)) nofun
    cases hfind.symm.trans hcond.2
  | free hp hfind => exact h.frees hc hp (hiter c hc hp) hfind

end

/-! ## Whole runs -/

structure Inv (st : Tables) : Prop where
  named : Named st
  solo : Solo st
  held : Held st

private theorem Inv.act {sh : Shared} (h : Inv st) (hc : st.connections.get n = some c)
    (hrun : c.cancelled = false) (hmetered : c.unmetered = false)
    (hacts : c.processor.Acts st.shared input p sh abort) (hiter : st.Iterates (.act n input))
    (hapart : st.Apart (.act n input)) : Inv (st.after n c input p sh abort) := by
  refine ⟨h.named.act hc hacts, h.solo.act hc hacts hiter hapart ?_,
    h.held.act hc h.named h.solo hrun hmetered hacts hiter hapart⟩
  rintro hp ⟨e, hget, hsid⟩
  obtain ⟨m, d, hd, how⟩ := h.held.owner hget
  cases h.named.sid_inj hc hd hsid how.sid
  cases hc.symm.trans hd
  rcases how.registered with hr | ⟨_, ⟨info, hinfo, _⟩, _⟩
  · cases hp.symm.trans hr
  · rw [how.id, hinfo]
    rfl

theorem isSome_getOrCreate (reg : BgpPeerStatsRegistry) (id id' : IngressId)
    (h : (reg.get id').isSome) : ((reg.getOrCreate id).2.get id').isSome := by
  unfold BgpPeerStatsRegistry.getOrCreate
  split
  · exact h
  · rw [get_insert]
    split
    · rfl
    · exact h

theorem Inv.meter {stats : BgpPeerStats} (h : Inv st)
    (hc : st.connections.get n = some c) (hun : c.unmetered = true) :
    Inv { st with
      peerStats := (st.peerStats.getOrCreate c.id).2.insert c.id stats
      connections := st.connections.insert n { c with unmetered := false } } := by
  have hneg : Connection.Negotiating { c with unmetered := false } → c.Negotiating :=
    fun _ => .inr hun
  have hgrow : ∀ {id}, (st.peerStats.get id).isSome →
      (((st.peerStats.getOrCreate c.id).2.insert c.id stats).get id).isSome := by
    intro id hsome
    rw [get_insert]
    split
    · rfl
    · exact isSome_getOrCreate _ _ _ hsome
  refine ⟨h.named.kept hc rfl rfl rfl rfl rfl rfl (h.named.begun hc)
      (fun hphase => h.named.connecting hc hphase) (.refl _ _),
    h.solo.kept hc rfl rfl rfl (fun hn => hn) hneg (.refl _),
    h.held.moved hc rfl rfl rfl rfl rfl hneg
      (fun hgone => ((h.held.sits hc).kept hgone (fun _ _ h => h) fun _ _ h => h).congr rfl)
      (fun h1 h2 => ⟨h1, h2⟩) (fun _ _ _ => ⟨fun info hinfo => ⟨info, hinfo⟩, hgrow⟩)
      (fun key e _ how => ?_) (fun _ info hinfo => .inl ⟨info, hinfo⟩) fun _ hmem => .inl hmem⟩
  refine ⟨how.sid, how.id, how.key, how.running, how.registered.imp_right ?_⟩
  rintro ⟨hp, hinfo, _⟩
  refine ⟨hp, hinfo, fun _ => ?_⟩
  rw [← how.id]
  exact congrArg Option.isSome (get_insert_self ..)

theorem Inv.cancel (h : Inv st) (hc : st.connections.get n = some c)
    (hsid : c.sid = some sid) (habort : sid ∈ st.aborts) :
    Inv { st with connections := st.connections.insert n { c with cancelled := true } } := by
  have hgone := h.held.aborted habort
  have hnb : ¬ c.Between := by
    intro hb
    refine hgone.settled hc hsid (.inl ?_)
    rcases hb with hp | ⟨old, hp⟩ <;> rw [hp] <;> rfl
  refine ⟨h.named.kept hc rfl rfl rfl rfl rfl rfl (h.named.begun hc)
      (fun hphase => h.named.connecting hc hphase) (.refl _ _),
    h.solo.kept hc rfl rfl rfl (fun hn => hn) (fun hn => hn) (.refl _),
    h.held.moved hc rfl rfl rfl rfl rfl (fun hn => hn)
      (fun hgone => ((h.held.sits hc).kept hgone (fun _ _ h => h) fun _ _ h => h).congr rfl)
      (fun _ hb => absurd hb hnb) (fun _ _ _ => ⟨fun info hinfo => ⟨info, hinfo⟩, fun h => h⟩)
      (fun key e hget how => ?_) (fun _ info hinfo => .inl ⟨info, hinfo⟩) fun _ hmem => .inl hmem⟩
  exact absurd (Option.some.inj (how.sid.symm.trans hsid)) (hgone.notLive hget)

private theorem Inv.accept (h : Inv st) (hnone : st.connections.get n = none)
    (hun : st.shared.ingresses.Unwrapped) (negotiated : Negotiated) :
    Inv (st.accepts n negotiated) := by
  have hidle : ∀ p : Processor, p.phase = .connecting →
      ¬ Connection.Negotiating ⟨p, false, false⟩ := by
    rintro p hp (hn | hn)
    · cases (congrArg Phase.negotiating hp).symm.trans hn
    · cases hn
  exact ⟨h.named.accepted hun negotiated,
    h.solo.joined rfl (fun _ => rfl) (fun hn => absurd hn (hidle _ rfl))
      (fun hn => absurd hn (hidle _ rfl)),
    h.held.joined (fun d hd => nomatch hnone.symm.trans hd) rfl (.inl rfl) nofun (Nat.le_refl _)
      rfl (fun _ => rfl) rfl rfl nofun⟩

private theorem Inv.step {mv : Move} (h : Inv st) (hguard : st.Iterates mv ∧ st.Apart mv)
    (hstep : st.step mv = some st') : Inv st' := by
  cases mv with
  | accept n negotiated =>
    obtain ⟨hnone, rfl⟩ := step_accept hstep
    exact h.accept hnone hguard.2 negotiated
  | act n input =>
    obtain ⟨c, p, sh, abort, hc, hrun, hmetered, hacts, rfl⟩ := step_act hstep
    exact h.act hc hrun hmetered hacts hguard.1 hguard.2
  | meter n =>
    obtain ⟨c, stats, hc, hun, rfl⟩ := step_meter hstep
    exact h.meter hc hun
  | cancel n =>
    obtain ⟨c, sid, hc, hsid, habort, rfl⟩ := step_cancel hstep
    exact h.cancel hc hsid habort

private theorem inv_start {ingresses : Register} (hnum : ingresses.Numbered)
    (hnew : ∀ id info, ingresses.get id = some info → info.ingressType ≠ some .bgp)
    (sessionIdCounter : Nat) : Inv (start ingresses sessionIdCounter) where
  named := ⟨hnum, nofun, nofun, nofun, nofun, nofun, nofun, nofun, nofun, nofun⟩
  solo := ⟨fun hinfo _ hpeer => absurd hpeer.1 (hnew _ _ hinfo), nofun, nofun⟩
  held := ⟨nofun, fun hinfo => absurd hinfo.2.2 (hnew _ _ hinfo.1), nofun, nofun, nofun, nofun,
    nofun, nofun⟩

theorem Inv.agree (h : Inv st) (hrest : st.AtRest) : st.Agree := by
  -- a connection behind an entry is established, with its statistics
  have hup : ∀ {key e}, st.shared.liveSessions.get key = some e →
      ∃ n c, st.connections.get n = some c ∧ Owns st key e c ∧
        (∃ info, st.ConnectedBgp e.ingressId info) ∧ (st.peerStats.get e.ingressId).isSome := by
    intro key e hget
    obtain ⟨n, c, hc, how⟩ := h.held.owner hget
    have hidle := (hrest n c hc).resolve_left (by rw [how.running]; nofun)
    rcases how.registered with hp | ⟨_, hinfo, hmeter⟩
    · rcases hidle.2 with hp' | hp' | hp' <;> cases hp.symm.trans hp'
    · exact ⟨n, c, hc, how, hinfo, hmeter hidle.1⟩
  constructor
  case registered =>
    intro key e hget
    obtain ⟨n, c, hc, how, ⟨info, hinfo⟩, _⟩ := hup hget
    have hpeer := h.named.typed hc (how.id ▸ hinfo.1) hinfo.2.2
    rw [how.key] at hpeer
    exact ⟨info, hinfo, hpeer⟩
  case metered =>
    intro key e hget
    obtain ⟨n, c, _, _, _, hsome⟩ := hup hget
    exact hsome
  case live =>
    intro id info hinfo
    rcases h.held.connected hinfo with hlive | ⟨n, c, hc, hrun, _, hb⟩
    · exact hlive
    · have hidle := (hrest n c hc).resolve_left (by rw [hrun]; nofun)
      rcases hb with hp | ⟨old, hp⟩ <;> rcases hidle.2 with hp' | hp' | hp' <;>
        cases hp.symm.trans hp'
  case apart =>
    intro key key' e e' hget hget' heq
    obtain ⟨n, c, hc, how⟩ := h.held.owner hget
    obtain ⟨m, d, hd, how'⟩ := h.held.owner hget'
    have hkey := h.named.same_key hd hc (how.id.trans (heq.trans how'.id.symm))
    exact how.key.symm.trans (hkey.trans how'.key)

theorem agree_at_rest (ingresses : Register) (sessionIdCounter : Nat)
    (hnum : ingresses.Numbered)
    (hnew : ∀ id info, ingresses.get id = some info → info.ingressType ≠ some .bgp)
    (moves : List Move)
    (hmoves : Along step (fun st mv => st.Iterates mv ∧ st.Apart mv)
      (start ingresses sessionIdCounter) moves)
    (hexec : exec step (start ingresses sessionIdCounter) moves = some st)
    (hrest : st.AtRest) : st.Agree := by
  have hinv : Inv st := exec_invariant step Inv _ (fun _ _ _ h hguard hstep => h.step hguard hstep)
    (inv_start hnum hnew sessionIdCounter) hmoves hexec
  exact hinv.agree hrest

/-! ## Two sessions at once -/

theorem accepted_of_exec {moves : List Move} (h : exec step st moves = some st')
    (hc : (st'.connections.get n).isSome) :
    (st.connections.get n).isSome ∨ ∃ negotiated, .accept n negotiated ∈ moves := by
  induction moves generalizing st with
  | nil => cases h; exact .inl hc
  | cons mv moves ih =>
    obtain ⟨s, hs, hrest⟩ := (exec_cons_eq_some step).mp h
    rcases ih hrest with hsome | ⟨negotiated, hmem⟩
    · have hinsert : ∀ {m c d}, st.connections.get m = some d →
          ((st.connections.insert m c).get n).isSome → (st.connections.get n).isSome := by
        intro m c d hd hget
        rw [get_insert] at hget
        split at hget
        next heq => rw [heq, hd]; rfl
        · exact hget
      cases mv with
      | accept m negotiated =>
        obtain ⟨_, rfl⟩ := step_accept hs
        by_cases heq : n = m
        · subst heq
          exact .inr ⟨negotiated, mem_cons_self⟩
        · exact .inl ((congrArg Option.isSome (get_insert_of_ne _ heq)).symm.trans hsome)
      | act m input =>
        obtain ⟨d, p, sh, abort, hd, _, _, _, rfl⟩ := step_act hs
        exact .inl (hinsert hd hsome)
      | meter m =>
        obtain ⟨d, stats, hd, _, rfl⟩ := step_meter hs
        exact .inl (hinsert hd hsome)
      | cancel m =>
        obtain ⟨d, sid, hd, _, _, rfl⟩ := step_cancel hs
        exact .inl (hinsert hd hsome)
    · exact .inr ⟨negotiated, mem_cons_of_mem _ hmem⟩

namespace Concurrent

def negotiated : Negotiated := ⟨.v4 192 0 2 7, 64500, [], []⟩

def unit : Tables := start ⟨1, Dict.empty⟩ 0

/-- A session chooses its ingress and finds no live session of its peer. -/
def resolves (n : Nat) : List Move := [.act n (.sessionNegotiated []), .act n (.proceed [])]

def enters (n : Nat) : List Move := [.act n (.proceed []), .act n (.proceed []), .meter n]

def race : List Move :=
  [.accept 0 negotiated, .accept 1 negotiated] ++ resolves 0 ++ resolves 1 ++ enters 0 ++ enters 1

theorem race_iterates : Along step Iterates unit race := by
  have hempty : Register.IterOrder ⟨3, Dict.empty⟩ [] :=
    ⟨nodup_nil, fun k => by simp [get_empty]⟩
  refine along_cons step rfl trivial <| along_cons step rfl trivial <|
    along_cons step rfl hempty <| along_cons step rfl ?_ <|
    along_cons step rfl hempty <| along_cons step rfl ?_ <|
    along_cons step rfl ?_ <| along_cons step rfl ?_ <| along_cons step rfl trivial <|
    along_cons step rfl ?_ <| along_cons step rfl ?_ <| along_cons step rfl trivial trivial
  -- no session reclaims
  all_goals
    intro c hc hp
    cases hc
    cases hp

/-- What is left of the race: the states of the two tasks, the first ingress, and the table. -/
theorem race_exec : ∃ st, exec step unit race = some st ∧
    (st.connections.get 0).map (fun c => (c.phase, c.unmetered)) = some (.established, false) ∧
    (st.connections.get 1).map (fun c => (c.phase, c.unmetered)) = some (.established, false) ∧
    ((st.shared.ingresses.get 1).map fun info => (info.state, info.ingressType)) =
      some (some .connected, some .bgp) ∧
    st.shared.liveSessions =
      (Dict.empty.insert negotiated.key ⟨0, 1⟩).insert negotiated.key ⟨1, 2⟩ :=
  ⟨_, rfl, rfl, rfl, rfl, rfl⟩

/-- Both sessions resolve before either has entered the table, so that neither sees the other: the
second overwrites the entry of the first, whose ingress stays Connected. -/
theorem concurrent_disagree : ∃ st, exec step unit race = some st ∧
    Along step Iterates unit race ∧ st.AtRest ∧ ¬ st.Agree := by
  obtain ⟨st, hexec, h0, h1, hreg, hlive⟩ := race_exec
  refine ⟨st, hexec, race_iterates, ?_, ?_⟩
  · intro n c hc
    have hup : (st.connections.get n).map (fun c => (c.phase, c.unmetered)) =
        some (.established, false) := by
      rcases accepted_of_exec (n := n) hexec (by rw [hc]; rfl) with hsome | ⟨_, hmem⟩
      · cases hsome
      · simp only [race, resolves, enters, cons_append, nil_append, mem_cons,
          Move.accept.injEq, reduceCtorEq, not_mem_nil, or_false] at hmem
        rcases hmem with ⟨rfl, _⟩ | ⟨rfl, _⟩
        · exact h0
        · exact h1
    rw [hc] at hup
    have hpair := Prod.mk.inj (Option.some.inj hup)
    exact .inr ⟨hpair.2, .inr (.inl hpair.1)⟩
  · intro hagree
    obtain ⟨info, hinfo, hpair⟩ := map_eq_some_iff.mp hreg
    have hstate := Prod.mk.inj hpair
    obtain ⟨key, e, hget, hid⟩ := hagree.live ⟨hinfo, hstate.1, hstate.2⟩
    rw [hlive, insert_insert] at hget
    rcases of_get_insert hget with ⟨_, rfl⟩ | ⟨_, hget⟩
    · cases hid
    · cases hget

/-- The same two sessions, the second of which negotiates when the first is up. -/
def replacement : List Move :=
  [.accept 0 negotiated, .accept 1 negotiated] ++ resolves 0 ++ enters 0 ++
    [.act 1 (.sessionNegotiated [1]), .act 1 (.proceed []), .act 1 (.proceed [])] ++ enters 1 ++
    [.cancel 0]

theorem iterates_proceed {c : Connection} (hc : st.connections.get n = some c)
    (hp : c.phase ≠ .reclaiming) :
    st.Iterates (.act n (.proceed order)) ∧ st.Apart (.act n (.proceed order)) := by
  refine ⟨fun d hd hr => ?_, trivial⟩
  cases hc.symm.trans hd
  exact absurd hr hp

theorem replacement_guarded :
    Along step (fun st mv => st.Iterates mv ∧ st.Apart mv) unit replacement := by
  have hempty : Register.IterOrder ⟨3, Dict.empty⟩ [] :=
    ⟨nodup_nil, fun k => by simp [get_empty]⟩
  have hone : Register.IterOrder (Register.updateInfo ⟨3, Dict.empty⟩ 1
      (Processor.info ⟨negotiated, 1, some 0, .registering⟩)) [1] := by
    refine ⟨nodup_singleton 1, fun k => ?_⟩
    change k ∈ [1] ↔ (Register.get _ k).isSome = true
    rw [Register.get_updateInfo, mem_singleton]
    split
    next heq => simp [heq]
    next hne => simp [hne, Register.get]
  refine along_cons step rfl ⟨trivial, Nat.le_of_ble_eq_true rfl⟩ <|
    along_cons step rfl ⟨trivial, Nat.le_of_ble_eq_true rfl⟩ <|
    along_cons step rfl ⟨hempty, fun c hc m d hd hn => ?_⟩ <|
    along_cons step rfl (iterates_proceed rfl nofun) <|
    along_cons step rfl (iterates_proceed rfl nofun) <|
    along_cons step rfl (iterates_proceed rfl nofun) <| along_cons step rfl ⟨trivial, trivial⟩ <|
    along_cons step rfl ⟨hone, fun c hc m d hd hn => ?_⟩ <|
    along_cons step rfl (iterates_proceed rfl nofun) <|
    along_cons step rfl (iterates_proceed rfl nofun) <|
    along_cons step rfl (iterates_proceed rfl nofun) <|
    along_cons step rfl (iterates_proceed rfl nofun) <| along_cons step rfl ⟨trivial, trivial⟩ <|
    along_cons step rfl ⟨trivial, trivial⟩ trivial
  · rcases connection_cases rfl hd with ⟨_, rfl⟩ | ⟨_, hd⟩
    · rcases hn with hn | hn <;> cases hn
    · rcases connection_cases rfl hd with ⟨_, rfl⟩ | ⟨_, hd⟩
      · rcases hn with hn | hn <;> cases hn
      · cases hd
  · have hexec : exec step unit
        ([.accept 0 negotiated, .accept 1 negotiated] ++ resolves 0 ++ enters 0) = some _ := rfl
    rcases accepted_of_exec hexec (isSome_of_eq_some hd) with hsome | ⟨_, hmem⟩
    · cases hsome
    · simp only [resolves, enters, cons_append, nil_append, mem_cons,
        Move.accept.injEq, reduceCtorEq, not_mem_nil, or_false] at hmem
      rcases hmem with ⟨rfl, _⟩ | ⟨rfl, _⟩ <;> cases hd <;> rcases hn with hn | hn <;> cases hn

theorem replacement_exec : ∃ st, exec step unit replacement = some st ∧
    (st.connections.get 0).map Connection.cancelled = some true ∧
    (st.connections.get 1).map (fun c => (c.phase, c.unmetered)) = some (.established, false) ∧
    st.shared.liveSessions.get negotiated.key = some ⟨1, 1⟩ := by
  have hlook : ((exec step unit replacement).map fun st =>
      ((st.connections.get 0).map Connection.cancelled,
        (st.connections.get 1).map fun c => (c.phase, c.unmetered),
        st.shared.liveSessions.get negotiated.key)) =
      some (some true, some (.established, false), some ⟨1, 1⟩) := by
    decide +kernel
  obtain ⟨st, hexec, hlook⟩ := map_eq_some_iff.mp hlook
  have hpair := Prod.mk.inj hlook
  exact ⟨st, hexec, hpair.1, Prod.mk.inj hpair.2⟩

/-- The second session replaces the first and takes over its ingress. -/
theorem replacement_agree : ∃ st, exec step unit replacement = some st ∧ st.Agree ∧
    st.shared.liveSessions.get negotiated.key = some ⟨1, 1⟩ := by
  obtain ⟨st, hexec, h0, h1, hlive⟩ := replacement_exec
  have hget : ∀ id, Register.get ⟨1, Dict.empty⟩ id = none := fun id => rfl
  refine ⟨st, hexec, agree_at_rest ⟨1, Dict.empty⟩ 0 (fun id hid => ?_) (fun id info hinfo => ?_)
    replacement replacement_guarded hexec fun n c hc => ?_, hlive⟩
  · rw [hget] at hid
    cases hid
  · rw [hget] at hinfo
    cases hinfo
  rcases accepted_of_exec hexec (isSome_of_eq_some hc) with hsome | ⟨_, hmem⟩
  · cases hsome
  · simp only [replacement, resolves, enters, cons_append, nil_append, mem_cons,
      Move.accept.injEq, reduceCtorEq, not_mem_nil, or_false] at hmem
    rcases hmem with ⟨rfl, _⟩ | ⟨rfl, _⟩
    · rw [hc] at h0
      exact .inl (Option.some.inj h0)
    · rw [hc] at h1
      have hpair := Prod.mk.inj (Option.some.inj h1)
      exact .inr ⟨hpair.2, .inr (.inl hpair.1)⟩

end Concurrent

end Tables

end Rotonda.BgpIn
