import Rotonda.Payload

/-!
The task of one BGP session, in the steps in which it uses what it shares with other sessions:
the register, the table of live sessions and the counter of session ids.

A session that negotiates reuses the ingress of an earlier session with its peer, withdraws what
that one left, and replaces it in the table; a session that ends withdraws its routes if the table
still holds it.

* `Processor.step`: one step, with the updates it sends and the session it aborts;
* `stepped_of_step`: what a step can do to what is shared.
-/

namespace Rotonda.BgpIn

open Lib List

/-- What the OPEN exchange settles. -/
structure Negotiated where
  remoteAddr : IpAddr
  remoteAsn : Asn
  localCapabilities : Bytes
  remoteCapabilities : Bytes

abbrev SessionKey := IpAddr × Asn

def Negotiated.key (n : Negotiated) : SessionKey := (n.remoteAddr, n.remoteAsn)

/-- An entry of the table of live sessions; the session id stands for the handles of its task. -/
structure LiveSession where
  sessionId : Nat
  ingressId : IngressId
  deriving DecidableEq

structure Shared where
  ingresses : Register
  liveSessions : Dict SessionKey LiveSession
  sessionIdCounter : Nat

inductive Phase where
  | connecting
  /-- The ingress is chosen and a withdrawal sent if it is reused. -/
  | resolving
  /-- An older session was taken out of the table. -/
  | replacing (old : LiveSession)
  /-- The withdrawal of another ingress was sent. -/
  | removing (oldIngressId : IngressId)
  | inserting
  | registering
  | established
  /-- The loop was left. -/
  | closing
  /-- The withdrawal of the session's routes was sent. -/
  | reclaiming
  | ended
  deriving DecidableEq

/-- The session has negotiated and is up, or is on its way out. -/
def Phase.settled : Phase → Bool
  | .established | .closing | .reclaiming | .ended => true
  | _ => false

inductive Input where
  | sessionNegotiated (order : List IngressId)
  /-- An UPDATE with the verdict of the roto function on it (true without one) and its routes. -/
  | updateMessage (accepted : Bool) (reach unreach : Except String (List RotondaRoute))
  /-- The connection is lost, or the session is shut down. -/
  | leave
  /-- The task goes on with what it is in the middle of. -/
  | proceed (order : List SessionKey)

structure Processor where
  negotiated : Negotiated
  sessionIngressId : IngressId
  mySessionId : Option Nat
  phase : Phase

def Concerns (id : IngressId) : Update → Prop
  | .bulk ps => ∀ p ∈ ps, p.ingressId = id
  | .withdraw id' _ => id' = id
  | .outputStream => True
  | _ => False

namespace Processor

def processUpdate (p : Processor) (reach unreach : Except String (List RotondaRoute)) :
    Except String Update := do
  let reach ← reach
  let unreach ← unreach
  return .bulk (reach.map (⟨·, p.sessionIngressId, .active⟩) ++
    unreach.map (⟨·, p.sessionIngressId, .withdrawn⟩))

/-- What an UPDATE message makes the task send. -/
def updatesFor (p : Processor) (accepted : Bool)
    (reach unreach : Except String (List RotondaRoute)) : List Update :=
  if !accepted then [.outputStream]
  else match p.processUpdate reach unreach with
    | .ok update => [.outputStream, update]
    | .error _ => [.outputStream]

def query (p : Processor) : IngressInfo where
  remoteAddr := some p.negotiated.remoteAddr
  remoteAsn := some p.negotiated.remoteAsn
  ingressType := some .bgp

/-- What the register is told of an established session. -/
def info (p : Processor) : IngressInfo where
  ingressType := some .bgp
  state := some .connected
  remoteAddr := some p.negotiated.remoteAddr
  remoteAsn := some p.negotiated.remoteAsn
  peerRibType := some .inPost
  localCapabilities := some p.negotiated.localCapabilities
  remoteCapabilities := some p.negotiated.remoteCapabilities

/-- `SessionNegotiated`: take a session id, and the ingress of an earlier session if there is
one. -/
def negotiate (p : Processor) (sh : Shared) (order : List IngressId) :
    Processor × Shared × List Update :=
  let p := { p with mySessionId := some sh.sessionIdCounter, phase := .resolving }
  let sh := { sh with sessionIdCounter := sh.sessionIdCounter + 1 }
  match sh.ingresses.findExistingBgpSession order p.query with
  | some (existing, _) =>
    ({ p with sessionIngressId := existing }, sh, [.withdraw existing none])
  | none => (p, sh, [])

/-- Leave the table, if it still holds this session. -/
def cleanup (p : Processor) (sh : Shared) : Processor × Shared × List Update :=
  let live := (sh.liveSessions.get p.negotiated.key).map LiveSession.sessionId
  if p.mySessionId.isSome ∧ live = p.mySessionId then
    ({ p with phase := .reclaiming },
      { sh with
        liveSessions := sh.liveSessions.erase p.negotiated.key
        ingresses := sh.ingresses.updateInfo p.sessionIngressId (.withState .disconnected) },
      [.withdraw p.sessionIngressId none])
  else ({ p with phase := .ended }, sh, [])

def reclaim (p : Processor) (sh : Shared) (order : List SessionKey) : Shared :=
  match sh.liveSessions.find order fun _ s => s.ingressId == p.sessionIngressId with
  | some _ => sh
  | none => { sh with ingresses := sh.ingresses.remove p.sessionIngressId }

/-- One step: the task, what is shared, the updates sent (which the task awaits) and the session
id of the task it aborts. -/
def step (p : Processor) (sh : Shared) (input : Input) :
    Option (Processor × Shared × List Update × Option Nat) :=
  match p.phase, input with
  | .connecting, .sessionNegotiated order =>
    let (p, sh, sent) := p.negotiate sh order
    some (p, sh, sent, none)
  | .connecting, .updateMessage .. | .connecting, .leave | .established, .leave =>
    some ({ p with phase := .closing }, sh, [], none)
  | .resolving, .proceed _ => match sh.liveSessions.get p.negotiated.key with
    | some old => some ({ p with phase := .replacing old },
        { sh with liveSessions := sh.liveSessions.erase p.negotiated.key }, [], none)
    | none => some ({ p with phase := .inserting }, sh, [], none)
  | .replacing old, .proceed _ =>
    if old.ingressId ≠ p.sessionIngressId then
      some ({ p with phase := .removing old.ingressId }, sh, [.withdraw old.ingressId none],
        some old.sessionId)
    else some ({ p with phase := .inserting }, sh, [], some old.sessionId)
  | .removing id, .proceed _ =>
    some ({ p with phase := .inserting }, { sh with ingresses := sh.ingresses.remove id }, [], none)
  | .inserting, .proceed _ => p.mySessionId.map fun sid =>
    ({ p with phase := .registering },
      { sh with liveSessions :=
          sh.liveSessions.insert p.negotiated.key ⟨sid, p.sessionIngressId⟩ }, [], none)
  | .registering, .proceed _ => some ({ p with phase := .established },
      { sh with ingresses := sh.ingresses.updateInfo p.sessionIngressId p.info }, [], none)
  | .established, .updateMessage accepted reach unreach =>
    some (p, sh, p.updatesFor accepted reach unreach, none)
  | .closing, .proceed _ =>
    let (p, sh, sent) := p.cleanup sh
    some (p, sh, sent, none)
  | .reclaiming, .proceed order =>
    some ({ p with phase := .ended }, p.reclaim sh order, [], none)
  | _, _ => none

/-! ## What a step can do -/

variable {p p' : Processor} {sh sh' : Shared} {input : Input} {sent : List Update}
  {abort : Option Nat}

/-- Before the negotiation: the session chooses its ingress and withdraws what it reuses, or it
leaves. -/
theorem step_of_connecting (hp : p.phase = .connecting)
    (h : p.step sh input = some (p', sh', sent, abort)) :
    (p'.phase = .resolving ∧ (sent = [.withdraw p'.sessionIngressId none] ∨
      sent = [] ∧ p'.sessionIngressId = p.sessionIngressId)) ∨
    (p'.phase = .closing ∧ sent = [] ∧ p'.sessionIngressId = p.sessionIngressId) := by
  unfold step at h
  rw [hp] at h
  cases input with
  | sessionNegotiated order =>
    simp only [negotiate] at h
    split at h <;> cases h <;> simp_all
  | updateMessage _ _ _ | leave => cases h; exact .inr ⟨rfl, rfl, rfl⟩
  | proceed order => cases h

/-- After the negotiation the ingress of a session is final. -/
theorem step_of_negotiated (hp : p.phase ≠ .connecting)
    (h : p.step sh input = some (p', sh', sent, abort)) :
    p'.phase ≠ .connecting ∧ p'.phase ≠ .resolving ∧
      p'.sessionIngressId = p.sessionIngressId := by
  unfold step at h
  cases hphase : p.phase <;> cases input <;> simp only [hphase] at h
  case connecting.sessionNegotiated => exact absurd hphase hp
  case resolving.proceed => split at h <;> cases h <;> simp
  case replacing.proceed => split at h <;> cases h <;> simp
  case inserting.proceed =>
    obtain ⟨sid, _, heq⟩ := Option.map_eq_some_iff.mp h
    cases heq
    simp
  case closing.proceed =>
    simp only [cleanup] at h
    split at h <;> cases h <;> simp
  case established.updateMessage => cases h; simp [hphase]
  all_goals cases h
  all_goals first | exact absurd hphase hp | simp

theorem concerns_updatesFor (accepted : Bool) (reach unreach : Except String (List RotondaRoute)) :
    ∀ u ∈ p.updatesFor accepted reach unreach, Concerns p.sessionIngressId u := by
  have hupdate : ∀ u, p.processUpdate reach unreach = .ok u →
      Concerns p.sessionIngressId u := by
    intro u hu
    cases reach with
    | error err => cases hu
    | ok rs => cases unreach with
      | error err => cases hu
      | ok ws =>
        cases hu
        intro q hq
        rcases mem_append.mp hq with hq | hq <;>
          obtain ⟨r, _, rfl⟩ := mem_map.mp hq <;> rfl
  intro u hu
  unfold updatesFor at hu
  split at hu
  · cases mem_singleton.mp hu
    trivial
  · split at hu
    next hok =>
      rcases mem_cons.mp hu with rfl | hu
      · trivial
      · cases mem_singleton.mp hu
        exact hupdate _ hok
    · cases mem_singleton.mp hu
      trivial

/-- A session that is up, or on its way out, sends nothing but updates for its own ingress. -/
theorem step_of_settled (hp : p.phase.settled = true)
    (h : p.step sh input = some (p', sh', sent, abort)) :
    p'.phase.settled = true ∧ p'.sessionIngressId = p.sessionIngressId ∧
      ∀ u ∈ sent, Concerns p.sessionIngressId u := by
  unfold step at h
  cases hphase : p.phase <;> simp only [hphase, Phase.settled, Bool.false_eq_true] at hp <;>
    cases input <;> simp only [hphase] at h
  case established.updateMessage accepted reach unreach =>
    cases h
    exact ⟨by rw [hphase]; rfl, rfl, concerns_updatesFor accepted reach unreach⟩
  case closing.proceed =>
    simp only [cleanup] at h
    split at h <;> cases h <;> simp [Phase.settled, Concerns]
  all_goals cases h
  all_goals simp [Phase.settled]

/-! ## What a step does to what is shared -/

/-- The task is about to remove the entry of a session it has replaced, or its own, which no session
in the table is on. -/
def Frees (p : Processor) (sh : Shared) (order : List SessionKey) (id : IngressId) : Prop :=
  p.phase = .removing id ∨ p.phase = .reclaiming ∧ id = p.sessionIngressId ∧
    sh.liveSessions.find order (fun _ s => s.ingressId == id) = none

/-- All that a step may do: an ingress that is not the session's own comes from an entry of a BGP
session or from the table, and the register changes in one entry at most. -/
structure Stepped (p : Processor) (sh : Shared) (input : Input) (p' : Processor) (sh' : Shared)
    (sent : List Update) : Prop where
  ingress : p'.sessionIngressId = p.sessionIngressId ∨
    ∃ info, sh.ingresses.get p'.sessionIngressId = some info ∧ info.ingressType = some .bgp
  replacing {old : LiveSession} (h : p'.phase = .replacing old) :
    sh.liveSessions.get p.negotiated.key = some old
  removing {id : IngressId} (h : p'.phase = .removing id) :
    ∃ old, p.phase = .replacing old ∧ id = old.ingressId
  live {key : SessionKey} {s : LiveSession} (h : sh'.liveSessions.get key = some s) :
    sh.liveSessions.get key = some s ∨ s.ingressId = p.sessionIngressId
  sent {u : Update} (h : u ∈ sent) : Concerns p'.sessionIngressId u ∨ ∃ id, u = .withdraw id none
  register : sh'.ingresses = sh.ingresses ∨
    (∃ info, (info = p.info ∨ info = .withState .disconnected) ∧
      sh'.ingresses = sh.ingresses.updateInfo p.sessionIngressId info) ∨
    ∃ id order, input = .proceed order ∧ p.Frees sh order id ∧
      sh'.ingresses = sh.ingresses.remove id

/-- The session moves on and changes the register at most. -/
theorem stepped_moved (sh : Shared) (reg : Register) {phase : Phase}
    (hreplacing : ∀ old, phase ≠ .replacing old) (hremoving : ∀ id, phase ≠ .removing id)
    (hreg : reg = sh.ingresses ∨
      (∃ info, (info = p.info ∨ info = .withState .disconnected) ∧
        reg = sh.ingresses.updateInfo p.sessionIngressId info) ∨
      ∃ id order, input = .proceed order ∧ p.Frees sh order id ∧ reg = sh.ingresses.remove id) :
    Stepped p sh input { p with phase := phase } { sh with ingresses := reg } [] where
  ingress := .inl rfl
  replacing := fun h => absurd h (hreplacing _)
  removing := fun h => absurd h (hremoving _)
  live := .inl
  sent := nofun
  register := hreg

theorem stepped_negotiate (order : List IngressId) :
    Stepped p sh input (p.negotiate sh order).1 (p.negotiate sh order).2.1
      (p.negotiate sh order).2.2 := by
  unfold negotiate
  dsimp only
  split
  next existing info hfind =>
    obtain ⟨_, hget, hfound⟩ := Dict.find_eq_some hfind
    have htype : info.ingressType = some .bgp := by
      simp only [Register.matchesBgpSession, Register.mandatory, Bool.and_eq_true,
        beq_iff_eq] at hfound
      exact hfound.2.2
    refine ⟨.inr ⟨info, hget, htype⟩, nofun, nofun, .inl, fun hu => ?_, .inl rfl⟩
    cases mem_singleton.mp hu
    exact .inl rfl
  · exact ⟨.inl rfl, nofun, nofun, .inl, nofun, .inl rfl⟩

theorem stepped_cleanup :
    Stepped p sh input (p.cleanup sh).1 (p.cleanup sh).2.1 (p.cleanup sh).2.2 := by
  unfold cleanup
  dsimp only
  split
  · refine ⟨.inl rfl, (by simp), (by simp), fun h => .inl (Dict.of_get_erase h).2, fun hu => ?_,
      .inr (.inl ⟨_, .inr rfl, rfl⟩)⟩
    cases mem_singleton.mp hu
    exact .inl rfl
  · exact stepped_moved sh _ (by simp) (by simp) (.inl rfl)

theorem stepped_of_step (h : p.step sh input = some (p', sh', sent, abort)) :
    Stepped p sh input p' sh' sent := by
  unfold step at h
  cases hphase : p.phase <;> cases input <;> simp only [hphase] at h
  case connecting.sessionNegotiated order => cases h; exact stepped_negotiate order
  case connecting.updateMessage => cases h; exact stepped_moved sh _ (by simp) (by simp) (.inl rfl)
  case connecting.leave => cases h; exact stepped_moved sh _ (by simp) (by simp) (.inl rfl)
  case established.leave => cases h; exact stepped_moved sh _ (by simp) (by simp) (.inl rfl)
  case resolving.proceed =>
    split at h <;> cases h
    next old hold =>
      refine ⟨.inl rfl, fun h => ?_, (by simp), fun h => .inl (Dict.of_get_erase h).2, (by simp),
        .inl rfl⟩
      cases h
      exact hold
    · exact stepped_moved sh _ (by simp) (by simp) (.inl rfl)
  case replacing.proceed old order =>
    split at h <;> cases h
    · refine ⟨.inl rfl, (by simp), fun h => ?_, .inl, fun hu => ?_, .inl rfl⟩
      · cases h
        exact ⟨old, hphase, rfl⟩
      · cases mem_singleton.mp hu
        exact .inr ⟨_, rfl⟩
    · exact stepped_moved sh _ (by simp) (by simp) (.inl rfl)
  case removing.proceed id order =>
    cases h
    exact stepped_moved sh _ (by simp) (by simp) (.inr (.inr ⟨id, order, rfl, .inl hphase, rfl⟩))
  case inserting.proceed =>
    obtain ⟨sid, _, heq⟩ := Option.map_eq_some_iff.mp h
    cases heq
    refine ⟨.inl rfl, (by simp), (by simp), fun {key s} h => ?_, (by simp), .inl rfl⟩
    rcases Dict.of_get_insert h with ⟨_, rfl⟩ | ⟨_, h⟩
    · exact .inr rfl
    · exact .inl h
  case registering.proceed =>
    cases h
    exact stepped_moved sh _ (by simp) (by simp) (.inr (.inl ⟨_, .inl rfl, rfl⟩))
  case established.updateMessage accepted reach unreach =>
    cases h
    refine ⟨.inl rfl, fun h => ?_, fun h => ?_, .inl,
      fun hu => .inl (concerns_updatesFor accepted reach unreach _ hu), .inl rfl⟩
    · cases hphase.symm.trans h
    · cases hphase.symm.trans h
  case closing.proceed => cases h; exact stepped_cleanup
  case reclaiming.proceed order =>
    cases h
    unfold reclaim
    split
    · exact stepped_moved sh _ (by simp) (by simp) (.inl rfl)
    next hfind =>
      exact stepped_moved sh _ (by simp) (by simp)
        (.inr (.inr ⟨_, order, rfl, .inr ⟨hphase, rfl, hfind⟩, rfl⟩))
  all_goals cases h

end Processor

end Rotonda.BgpIn
