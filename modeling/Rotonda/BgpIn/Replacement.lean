import Rotonda.BgpIn.Processor
import Rotonda.RibUnit.History

/-!
A BGP session that is replaced by a new session with the same peer.

Both tasks run on, each awaiting the RIB unit for every update it sends, while the RIB handles
one event at a time.  The new session may take over the ingress of the old one, withdraws what is
stored under it and aborts the old session after that.

* `exact_throughout_iff`: once the new session has settled on its ingress, the active routes under
  it are exactly its own in every state reached if and only if no step disturbs them
  (`Disturbs`): an event of the old session that says something else about a route, or a
  reactivation that exposes one;
* `lateUpdate_not_exact`: an UPDATE of the old session between the withdrawal and the abort stays.
-/

namespace Rotonda.BgpIn

open Lib Lib.Runs Processor

variable {who : Party} {input : Input}

/-- A task with the events it waits for; `aborted` once an abort was requested. -/
structure Task where
  processor : Processor
  pending : List RibEvent
  aborted : Bool
  cancelled : Bool

def Task.abortIf (t : Task) (sid : Option Nat) : Task :=
  { t with aborted := t.aborted || (sid.isSome && sid == t.processor.mySessionId) }

inductive Party where
  | old
  | new
  deriving DecidableEq

inductive Move where
  | act (who : Party) (input : Input)
  | handle (who : Party)
  /-- The task is dropped at an await, with what it waits for. -/
  | cancel (who : Party)

structure Replacement (S : Type) where
  rib : Rib S
  liveSessions : Dict SessionKey LiveSession
  sessionIdCounter : Nat
  old : Task
  new : Task
  /-- What the RIB has handled of the new session. -/
  handled : List RibEvent

variable {cfg : RibConfig}

namespace Replacement

variable {S : Type}

def task (st : Replacement S) : Party → Task
  | .old => st.old
  | .new => st.new

def setTask (st : Replacement S) (who : Party) (t : Task) : Replacement S :=
  match who with
  | .old => { st with old := t }
  | .new => { st with new := t }

def shared (st : Replacement S) : Shared :=
  ⟨st.rib.ingressRegister, st.liveSessions, st.sessionIdCounter⟩

def setShared (st : Replacement S) (sh : Shared) : Replacement S :=
  { st with
    rib := { st.rib with ingressRegister := sh.ingresses }
    liveSessions := sh.liveSessions
    sessionIdCounter := sh.sessionIdCounter }

/-- An established session, and a connection of its peer under a fresh id. -/
def start (rib : Rib S) (liveSessions : Dict SessionKey LiveSession) (sessionIdCounter : Nat)
    (negotiated : Negotiated) (oldSid : Nat) (oldId newId : IngressId) : Replacement S :=
  ⟨rib, liveSessions, sessionIdCounter, ⟨⟨negotiated, oldId, some oldSid, .established⟩, [],
    false, false⟩, ⟨⟨negotiated, newId, none, .connecting⟩, [], false, false⟩, []⟩

variable [PrefixStore S RotondaPaMap]

def step (cfg : RibConfig) (st : Replacement S) : Move → Option (Replacement S)
  | .act who input =>
    if (st.task who).cancelled ∨ (st.task who).pending ≠ [] then none
    else ((st.task who).processor.step st.shared input).map fun (p, sh, sent, abort) =>
      let st := (st.setShared sh).setTask who
        { st.task who with processor := p, pending := sent.flatMap cfg.events }
      { st with old := st.old.abortIf abort, new := st.new.abortIf abort }
  | .handle who => match (st.task who).pending with
    | [] => none
    | e :: rest =>
      let st := st.setTask who { st.task who with pending := rest }
      some { st with
        rib := st.rib.step cfg.retainWithdrawnAttributes e
        handled := if who = .new then st.handled ++ [e] else st.handled }
  | .cancel who =>
    if (st.task who).aborted then
      some (st.setTask who { st.task who with pending := [], cancelled := true })
    else none

def ingressId (st : Replacement S) : IngressId := st.new.processor.sessionIngressId

/-- The new session has settled on its ingress, and what it reuses was withdrawn. -/
def Tracks (st : Replacement S) : Prop :=
  st.new.cancelled = false ∧ st.new.processor.phase ≠ .connecting ∧
    (st.new.processor.phase = .resolving → st.new.pending = [])

/-- The active routes under the ingress of the new session are those it has announced and not
withdrawn. -/
def Exact (st : Replacement S) : Prop :=
  ∀ k : RouteKey, k.mui = st.ingressId →
    (st.rib.ReportsActive k ↔ latest k st.handled = some true)

/-- The old session is gone, the new one is up, and everything is handled. -/
def Settled (st : Replacement S) : Prop :=
  (st.old.cancelled = true ∨ st.old.processor.phase = .ended) ∧ st.old.pending = [] ∧
    st.new.cancelled = false ∧ st.new.processor.phase = .established ∧ st.new.pending = []

/-- The event changes a route behind the back of the new session: it clears the flag over a route
stored as active, or it is the old session's and says something else than the new one. -/
def Overrides (st : Replacement S) (who : Party) (e : RibEvent) (k : RouteKey) : Prop :=
  match e.verdict k with
  | none => st.rib.Clears k.mui e ∧ st.rib.Hidden k
  | some up => who = .old ∧ ¬ (up = true ↔ latest k st.handled = some true)

def Disturbs (st : Replacement S) : Move → Prop
  | .handle who => st.Tracks ∧ match (st.task who).pending with
    | e :: _ => ∃ k : RouteKey, k.mui = st.ingressId ∧ st.Overrides who e k
    | [] => False
  | _ => False

/-! ## What a move can do -/

/-- The rest of a task's life is no business of the property. -/
private theorem step_act {st st' : Replacement S} (h : st.step cfg (.act who input) = some st') :
    ∃ p sh sent abort, (st.task who).pending = [] ∧
      (st.task who).processor.step st.shared input = some (p, sh, sent, abort) ∧
      st'.rib = { st.rib with ingressRegister := sh.ingresses } ∧ st'.handled = st.handled ∧
      (st'.task who).processor = p ∧ (st'.task who).pending = sent.flatMap cfg.events ∧
      (∀ other, other ≠ who → (st'.task other).processor = (st.task other).processor ∧
        (st'.task other).pending = (st.task other).pending) ∧
      st'.new.cancelled = st.new.cancelled := by
  simp only [step] at h
  split at h
  · cases h
  next hguard =>
    obtain ⟨⟨p, sh, sent, abort⟩, hstep, rfl⟩ := Option.map_eq_some_iff.mp h
    have hpending : (st.task who).pending = [] := by
      by_contra hne
      exact hguard (.inr hne)
    refine ⟨p, sh, sent, abort, hpending, hstep, ?_⟩
    cases who
    · refine ⟨rfl, rfl, rfl, rfl, ?_, rfl⟩
      rintro (_ | _) hne
      · exact absurd rfl hne
      · exact ⟨rfl, rfl⟩
    · refine ⟨rfl, rfl, rfl, rfl, ?_, rfl⟩
      rintro (_ | _) hne
      · exact ⟨rfl, rfl⟩
      · exact absurd rfl hne

theorem step_handle {st st' : Replacement S} (h : st.step cfg (.handle who) = some st') :
    ∃ e rest, (st.task who).pending = e :: rest ∧
      st'.rib = st.rib.step cfg.retainWithdrawnAttributes e ∧
      st'.handled = (if who = .new then st.handled ++ [e] else st.handled) ∧
      (st'.task who).pending = rest ∧
      (∀ other, (st'.task other).processor = (st.task other).processor ∧
        (other ≠ who → (st'.task other).pending = (st.task other).pending)) ∧
      st'.new.cancelled = st.new.cancelled := by
  simp only [step] at h
  split at h
  · cases h
  next e rest hq =>
    cases h
    refine ⟨e, rest, hq, ?_⟩
    cases who
    · refine ⟨rfl, rfl, rfl, ?_, rfl⟩
      rintro (_ | _)
      · exact ⟨rfl, fun hne => absurd rfl hne⟩
      · exact ⟨rfl, fun _ => rfl⟩
    · refine ⟨rfl, rfl, rfl, ?_, rfl⟩
      rintro (_ | _)
      · exact ⟨rfl, fun _ => rfl⟩
      · exact ⟨rfl, fun hne => absurd rfl hne⟩

private theorem step_cancel {st st' : Replacement S} (h : st.step cfg (.cancel who) = some st') :
    st' = st.setTask who { st.task who with pending := [], cancelled := true } := by
  simp only [step] at h
  split at h <;> cases h
  rfl

end Replacement

/-- The event is about one ingress, and names it. -/
def Under (m : IngressId) : RibEvent → Prop
  | .payload p => p.ingressId = m
  | .withdraw id _ => id = m
  | _ => False

theorem events_under {m : IngressId} {u : Update} (hu : Concerns m u) :
    ∀ e ∈ cfg.events u, Under m e := by
  cases u with
  | bulk ps =>
    intro e he
    obtain ⟨q, hq, rfl⟩ := List.mem_map.mp he
    obtain ⟨p, hp, hacc⟩ := List.mem_filterMap.mp hq
    have hkey := (RibConfig.key_of_accepted hacc).1
    have hmui : q.ingressId = p.ingressId := congrArg RouteKey.mui hkey
    exact hmui.trans (hu p hp)
  | withdraw id scope =>
    intro e he
    cases List.mem_singleton.mp he
    exact hu
  | outputStream => exact nofun
  | _ => exact hu.elim

namespace Replacement

variable {S : Type} [PrefixStore S RotondaPaMap]
variable {e : RibEvent} {m : Move}

/-- What holds of the two sessions in every state. -/
structure Inv (oldId newId : IngressId) (st : Replacement S) : Prop where
  oldSettled : st.old.processor.phase.settled = true
  oldIngress : st.old.processor.sessionIngressId = oldId
  oldPending : ∀ e ∈ st.old.pending, Under oldId e
  /-- Before it negotiates, the new session has done nothing and nothing is known of its id. -/
  connecting : st.new.processor.phase = .connecting →
    st.ingressId = newId ∧ st.new.pending = [] ∧ st.handled = [] ∧
      ∀ k : RouteKey, k.mui = newId → ¬ st.rib.ReportsActive k
  resolving : st.new.processor.phase = .resolving →
    st.new.pending = [] ∨ st.new.pending = [.withdraw st.ingressId none]

variable {cfg : RibConfig} {oldId newId : IngressId} {st st' : Replacement S}

theorem inv_act_old (hinv : Inv oldId newId st)
    (h : st.step cfg (.act .old input) = some st') : Inv oldId newId st' := by
  obtain ⟨p, sh, sent, abort, _, hstep, hrib, hhandled, hp, hpending, hother, _⟩ := step_act h
  obtain ⟨hsettled, hid, hsent⟩ := step_of_settled hinv.oldSettled hstep
  obtain ⟨hproc, hnewPending⟩ := hother .new nofun
  have hnew : st'.new.processor = st.new.processor := hproc
  have hnewp : st'.new.pending = st.new.pending := hnewPending
  refine ⟨hp ▸ hsettled, (congrArg _ hp).trans (hid.trans hinv.oldIngress), ?_, ?_, ?_⟩
  · intro e he
    obtain ⟨u, hu, he⟩ := List.mem_flatMap.mp (hpending ▸ he)
    exact hinv.oldIngress ▸ events_under (hsent u hu) e he
  · intro hphase
    rw [hnew] at hphase
    rw [ingressId, hnew, hnewp, hhandled, hrib]
    exact hinv.connecting hphase
  · intro hphase
    rw [hnew] at hphase
    rw [ingressId, hnew, hnewp]
    exact hinv.resolving hphase

theorem inv_act_new (hinv : Inv oldId newId st)
    (h : st.step cfg (.act .new input) = some st') : Inv oldId newId st' := by
  obtain ⟨p, sh, sent, abort, _, hstep, _, _, hp, hpending, hother, _⟩ := step_act h
  obtain ⟨hproc, holdPending⟩ := hother .old nofun
  have hp' : st'.new.processor = p := hp
  refine ⟨?_, ?_, ?_, ?_, ?_⟩
  · exact (congrArg (·.phase.settled) hproc).trans hinv.oldSettled
  · exact (congrArg (·.sessionIngressId) hproc).trans hinv.oldIngress
  · exact fun e he => hinv.oldPending e (holdPending ▸ he)
  · intro hphase
    rw [hp'] at hphase
    -- no step leads back to `connecting`
    by_cases hconn : st.new.processor.phase = .connecting
    · rcases step_of_connecting hconn hstep with ⟨h', _⟩ | ⟨h', _⟩
      · cases h'.symm.trans hphase
      · cases h'.symm.trans hphase
    · exact absurd hphase (step_of_negotiated hconn hstep).1
  · intro hphase
    have hpend : st'.new.pending = sent.flatMap cfg.events := hpending
    rw [hp'] at hphase
    by_cases hconn : st.new.processor.phase = .connecting
    · rcases step_of_connecting hconn hstep with ⟨_, hsent | ⟨hsent, _⟩⟩ | ⟨h', _⟩
      · right
        rw [hpend, hsent, ingressId, hp']
        rfl
      · left
        rw [hpend, hsent]
        rfl
      · cases h'.symm.trans hphase
    · exact absurd hphase (step_of_negotiated hconn hstep).2.1

/-- A step of a task leaves the RIB as it is, so it keeps what was exact. -/
theorem exact_act (h : st.step cfg (.act who input) = some st')
    (hid : st'.ingressId = st.ingressId) (hexact : st.Exact) : st'.Exact := by
  obtain ⟨_, _, _, _, _, _, hrib, hhandled, _⟩ := step_act h
  rw [Exact, hid, hrib, hhandled]
  exact hexact

theorem exact_act_old (h : st.step cfg (.act .old input) = some st')
    (hexact : st.Tracks → st.Exact) : st'.Tracks → st'.Exact := by
  intro htracks
  obtain ⟨_, _, _, _, _, _, _, _, _, _, hother, hcancelled⟩ := step_act h
  obtain ⟨hproc, hpending⟩ := hother .new nofun
  have hnew : st'.new.processor = st.new.processor := hproc
  have hnewp : st'.new.pending = st.new.pending := hpending
  refine exact_act h (by rw [ingressId, hnew]; rfl) (hexact ?_)
  rwa [Tracks, hcancelled, hnew, hnewp] at htracks

theorem exact_act_new (hinv : Inv oldId newId st) (h : st.step cfg (.act .new input) = some st')
    (hexact : st.Tracks → st.Exact) : st'.Tracks → st'.Exact := by
  intro htracks
  obtain ⟨p, _, sent, _, hnil, hstep, _, _, hp, hpending, _, hcancelled⟩ := step_act h
  have hp' : st'.new.processor = p := hp
  have hpend : st'.new.pending = sent.flatMap cfg.events := hpending
  by_cases hconn : st.new.processor.phase = .connecting
  · -- nothing is stored under a fresh id, and what is reused must be withdrawn first
    obtain ⟨hid, _, hhandled, hactive⟩ := hinv.connecting hconn
    have hfresh : st.Exact := by
      intro k hk
      rw [hhandled]
      exact iff_of_false (hactive k (hk.trans hid)) nofun
    rcases step_of_connecting hconn hstep with ⟨hres, hsent | ⟨_, hid'⟩⟩ | ⟨_, _, hid'⟩
    · have hempty := htracks.2.2 (by rw [hp']; exact hres)
      rw [hpend, hsent] at hempty
      cases hempty
    · exact exact_act h (by rw [ingressId, hp']; exact hid') hfresh
    · exact exact_act h (by rw [ingressId, hp']; exact hid') hfresh
  · obtain ⟨_, _, hid'⟩ := step_of_negotiated hconn hstep
    refine exact_act h (by rw [ingressId, hp']; exact hid') (hexact ⟨?_, hconn, fun _ => hnil⟩)
    rw [← hcancelled]
    exact htracks.1

theorem tracks_handle (h : st.step cfg (.handle who) = some st')
    (hphase : st.new.processor.phase ≠ .resolving) : st'.Tracks ↔ st.Tracks := by
  obtain ⟨_, _, _, _, _, _, hother, hcancelled⟩ := step_handle h
  have hnew : st'.new.processor = st.new.processor := (hother .new).1
  simp [Tracks, hcancelled, hnew, hphase]

variable [LawfulPrefixStore S]

theorem reportsActive_step_of_under {retain : Bool} {rib : Rib S} {m : IngressId}
    (he : Under m e) {k : RouteKey} (hk : k.mui ≠ m) :
    (rib.step retain e).ReportsActive k ↔ rib.ReportsActive k := by
  have hverdict : e.verdict k = none := by
    cases e with
    | payload p =>
      have hne : p.key ≠ k := fun h => hk (h ▸ he)
      simp [RibEvent.verdict, hne]
    | withdraw id scope =>
      have hne : k.mui ≠ id := fun h => hk (h.trans he)
      simp [RibEvent.verdict, hne]
    | _ => exact he.elim
  have hclears : ¬ rib.Clears k.mui e := by
    cases e with
    | payload p => exact fun h => hk (h.1.symm.trans he)
    | withdraw id scope => exact fun h => h
    | _ => exact he.elim
  rw [Rib.reportsActive_step, hverdict]
  simp [hclears]

theorem inv_handle (hne : oldId ≠ newId) (hinv : Inv oldId newId st)
    (h : st.step cfg (.handle who) = some st') : Inv oldId newId st' := by
  obtain ⟨e, rest, hq, hrib, hhandled, hrest, hother, _⟩ := step_handle h
  have hold : st'.old.processor = st.old.processor := (hother .old).1
  have hnew : st'.new.processor = st.new.processor := (hother .new).1
  refine ⟨hold ▸ hinv.oldSettled, hold ▸ hinv.oldIngress, ?_, ?_, ?_⟩
  · cases who with
    | old =>
      intro e' he'
      have hmem : e' ∈ st.old.pending := by
        rw [show st.old.pending = e :: rest from hq]
        exact List.mem_cons_of_mem _ (hrest ▸ he')
      exact hinv.oldPending e' hmem
    | new =>
      have hp : st'.old.pending = st.old.pending := (hother .old).2 nofun
      exact fun e' he' => hinv.oldPending e' (hp ▸ he')
  · intro hphase
    rw [hnew] at hphase
    obtain ⟨hid, hpend, hnil, hactive⟩ := hinv.connecting hphase
    cases who with
    | new =>
      rw [show st.new.pending = e :: rest from hq] at hpend
      cases hpend
    | old =>
      have hp : st'.new.pending = st.new.pending := (hother .new).2 nofun
      have he : Under oldId e := hinv.oldPending e (by
        rw [show st.old.pending = e :: rest from hq]
        exact List.mem_cons_self)
      refine ⟨by rw [ingressId, hnew]; exact hid, hp.trans hpend, by simpa [hhandled] using hnil, ?_⟩
      intro k hk hrep
      rw [hrib, reportsActive_step_of_under he (hk ▸ hne.symm)] at hrep
      exact hactive k hk hrep
  · intro hphase
    rw [hnew] at hphase
    rw [ingressId, hnew]
    cases who with
    | new =>
      left
      rcases hinv.resolving hphase with hpend | hpend
      · rw [show st.new.pending = e :: rest from hq] at hpend
        cases hpend
      · rw [show st.new.pending = e :: rest from hq] at hpend
        cases hpend
        exact hrest
    | old =>
      have hp : st'.new.pending = st.new.pending := (hother .new).2 nofun
      rw [hp]
      exact hinv.resolving hphase

private theorem inv_step (hne : oldId ≠ newId) (hinv : Inv oldId newId st)
    (h : st.step cfg m = some st') : Inv oldId newId st' := by
  cases m with
  | act who input =>
    cases who with
    | old => exact inv_act_old hinv h
    | new => exact inv_act_new hinv h
  | handle who => exact inv_handle hne hinv h
  | cancel who =>
    rw [step_cancel h]
    cases who with
    | old =>
      exact ⟨hinv.oldSettled, hinv.oldIngress, nofun, hinv.connecting, hinv.resolving⟩
    | new =>
      refine ⟨hinv.oldSettled, hinv.oldIngress, hinv.oldPending, ?_, fun _ => .inl rfl⟩
      intro hphase
      obtain ⟨hid, _, hnil, hactive⟩ := hinv.connecting hphase
      exact ⟨hid, rfl, hnil, hactive⟩

/-! ## Exactness -/

/-- What one event does to the routes under the ingress of the new session. -/
theorem exact_event (retain : Bool) {k : RouteKey}
    (hk : st.rib.ReportsActive k ↔ latest k st.handled = some true) :
    ((st.rib.step retain e).ReportsActive k ↔
      latest k (if who = .new then st.handled ++ [e] else st.handled) = some true) ↔
      ¬ st.Overrides who e k := by
  rw [Rib.reportsActive_step, Overrides]
  cases hv : e.verdict k with
  | none =>
    have hlatest : latest k (if who = .new then st.handled ++ [e] else st.handled) =
        latest k st.handled := by
      split
      · rw [latest_snoc, hv, Option.none_or]
      · rfl
    rw [hlatest, ← hk]
    have hhidden : st.rib.Hidden k → ¬ st.rib.ReportsActive k := by
      intro hhid hact
      have hmask := ((Rib.reportsActive_iff ..).mp hact).1
      cases hmask.symm.trans hhid.1
    tauto
  | some up =>
    cases who with
    | new => simp [latest_snoc, hv]
    | old => simp

theorem exact_handle_iff {rest : List RibEvent} (h : st.step cfg (.handle who) = some st')
    (hq : (st.task who).pending = e :: rest) (hexact : st.Exact) :
    st'.Exact ↔ ¬ ∃ k : RouteKey, k.mui = st.ingressId ∧ st.Overrides who e k := by
  obtain ⟨e', rest', hq', hrib, hhandled, _, hother, _⟩ := step_handle h
  cases hq.symm.trans hq'
  have hid : st'.ingressId = st.ingressId := congrArg Processor.sessionIngressId (hother .new).1
  rw [Exact, hid, hrib, hhandled, not_exists]
  refine forall_congr' fun k => ?_
  rw [not_and]
  exact imp_congr_right fun hk => exact_event _ (hexact k hk)

/-- The withdrawal of what the new session reuses leaves nothing active. -/
theorem exact_withdrawn (h : st.step cfg (.handle .new) = some st')
    (hpending : st.new.pending = [.withdraw st.ingressId none]) : st'.Exact := by
  obtain ⟨e, rest, hq, hrib, hhandled, _, hother, _⟩ := step_handle h
  cases hpending.symm.trans hq
  have hid : st'.ingressId = st.ingressId := congrArg Processor.sessionIngressId (hother .new).1
  intro k hk
  have hverdict : (RibEvent.withdraw st.ingressId none).verdict k = some false := by
    simp [RibEvent.verdict, hk, hid, scopeCovers]
  rw [hrib, hhandled, Rib.reportsActive_step, if_pos rfl, latest_snoc, hverdict]
  simp

theorem exact_handle (hinv : Inv oldId newId st) (h : st.step cfg (.handle who) = some st')
    (hexact : st.Tracks → st.Exact)
    (hguard : ¬ st.Disturbs (.handle who)) : st'.Tracks → st'.Exact := by
  intro htracks
  obtain ⟨e, rest, hq, _, _, hrest, hother, hcancelled⟩ := step_handle h
  have hnew : st'.new.processor = st.new.processor := (hother .new).1
  have hkeep : st.Tracks → st'.Exact := by
    intro ht
    rw [exact_handle_iff h hq (hexact ht)]
    intro hover
    refine hguard ⟨ht, ?_⟩
    rw [hq]
    exact hover
  by_cases hphase : st.new.processor.phase = .resolving
  · cases who with
    | old =>
      have hp : st'.new.pending = st.new.pending := (hother .new).2 nofun
      refine hkeep ?_
      rwa [Tracks, hcancelled, hnew, hp] at htracks
    | new =>
      refine exact_withdrawn h ((hinv.resolving hphase).resolve_left fun hnil => ?_)
      cases hnil.symm.trans hq
  · exact hkeep ((tracks_handle h hphase).mp htracks)

theorem exact_step (hinv : Inv oldId newId st) (hexact : st.Tracks → st.Exact)
    (hguard : ¬ st.Disturbs m) (h : st.step cfg m = some st') : st'.Tracks → st'.Exact := by
  cases m with
  | act who input =>
    cases who with
    | old => exact exact_act_old h hexact
    | new => exact exact_act_new hinv h hexact
  | handle who => exact exact_handle hinv h hexact hguard
  | cancel who =>
    rw [step_cancel h]
    cases who with
    | old => exact hexact
    | new =>
      intro htracks
      cases htracks.1

theorem not_exact_step (hexact : st.Tracks → st.Exact) (hdisturbs : st.Disturbs m)
    (h : st.step cfg m = some st') : ¬ (st'.Tracks → st'.Exact) := by
  cases m with
  | act _ _ | cancel _ => exact hdisturbs.elim
  | handle who =>
    obtain ⟨htracks, hover⟩ := hdisturbs
    obtain ⟨e, rest, hq, _, _, _, hother, hcancelled⟩ := step_handle h
    have hnew : st'.new.processor = st.new.processor := (hother .new).1
    rw [hq] at hover
    intro hexact'
    refine (exact_handle_iff h hq (hexact htracks)).mp (hexact' ?_) hover
    by_cases hphase : st.new.processor.phase = .resolving
    · cases who with
      | old =>
        have hp : st'.new.pending = st.new.pending := (hother .new).2 nofun
        rwa [Tracks, hcancelled, hnew, hp]
      | new => cases (htracks.2.2 hphase).symm.trans hq
    · exact (tracks_handle h hphase).mpr htracks

/-- For every schedule of the two sessions, from an old session that is up and a new one under a
fresh id: once the new session has settled on its ingress, the active routes under it are exactly
those it has announced and not withdrawn in every state reached, if and only if no step disturbs
them. -/
theorem exact_throughout_iff (cfg : RibConfig) (rib : Rib S)
    (liveSessions : Dict SessionKey LiveSession) (sessionIdCounter : Nat) (negotiated : Negotiated)
    (oldSid : Nat) (oldId newId : IngressId) (hne : oldId ≠ newId)
    (hfresh : ∀ k : RouteKey, k.mui = newId → ¬ rib.ReportsActive k) (moves : List Move) :
    (∀ pre st, pre <+: moves →
        exec (step cfg) (start rib liveSessions sessionIdCounter negotiated oldSid oldId newId)
          pre = some st →
        st.Tracks → st.Exact) ↔
      Along (step cfg) (fun st m => ¬ st.Disturbs m)
        (start rib liveSessions sessionIdCounter negotiated oldSid oldId newId) moves := by
  have hinv : Inv oldId newId
      (start rib liveSessions sessionIdCounter negotiated oldSid oldId newId) :=
    ⟨rfl, rfl, nofun, fun _ => ⟨rfl, rfl, rfl, hfresh⟩, nofun⟩
  have hinvs : ∀ pre st, exec (step cfg)
      (start rib liveSessions sessionIdCounter negotiated oldSid oldId newId) pre = some st →
      Inv oldId newId st := fun pre st h =>
    exec_invariant _ (Inv oldId newId) (fun _ _ => True)
      (fun _ _ _ hst _ hs => inv_step hne hst hs) hinv (along_of_forall _ _ fun _ _ _ => trivial) h
  rw [← exec_throughout_iff _ (fun st => Inv oldId newId st ∧ (st.Tracks → st.Exact)) _
    (fun st m st' hst hguard hs =>
      ⟨inv_step hne hst.1 hs, exact_step hst.1 hst.2 hguard hs⟩)
    (fun st m st' hst hguard hs hst' =>
      not_exact_step hst.2 (not_not.mp hguard) hs hst'.2)
    moves ⟨hinv, fun htracks => absurd rfl htracks.2.1⟩]
  exact ⟨fun hexact pre st hpre hs => ⟨hinvs pre st hs, hexact pre st hpre hs⟩,
    fun hall pre st hpre hs => (hall pre st hpre hs).2⟩

/-! ## Without retained attributes and without the old session -/

section

variable (hretain : cfg.retainWithdrawnAttributes = false) (hst : ∀ k, ¬ st.rib.Hidden k)
include hretain hst

theorem nothing_hidden_step (h : st.step cfg m = some st') : ∀ k, ¬ st'.rib.Hidden k := by
  intro k
  cases m with
  | act who input =>
    obtain ⟨_, _, _, _, _, _, hrib, _⟩ := step_act h
    rw [hrib]
    exact hst k
  | handle who =>
    obtain ⟨e, _, _, hrib, _⟩ := step_handle h
    rw [hrib, hretain]
    exact Rib.not_hidden_step (hst k) e
  | cancel who =>
    rw [step_cancel h]
    cases who <;> exact hst k

/-- A schedule disturbs nothing if attributes are not retained and none of the old session's
events is handled. -/
theorem along_of_old_silent {moves : List Move} (hmoves : .handle .old ∉ moves) :
    Along (step cfg) (fun st m => ¬ st.Disturbs m) st moves := by
  induction moves generalizing st with
  | nil => trivial
  | cons m moves ih =>
    intro st' h
    simp only [List.mem_cons, not_or] at hmoves
    refine ⟨fun hdisturbs => ?_, ih (nothing_hidden_step hretain hst h) hmoves.2⟩
    cases m with
    | act _ _ | cancel _ => exact hdisturbs
    | handle who =>
      obtain ⟨e, rest, hq, _⟩ := step_handle h
      obtain ⟨_, hover⟩ := hdisturbs
      rw [hq] at hover
      obtain ⟨k, _, hk⟩ := hover
      unfold Overrides at hk
      split at hk
      · exact hst k hk.2
      · exact hmoves.1 (by rw [hk.1])

end

end Replacement

/-! ## A peer that restarts -/

namespace Restart

def negotiated : Negotiated := ⟨.v4 192 0 2 7, 64500, [], []⟩

/-- The register with the old session of the peer under id 1, when id 2 was handed out. -/
def register : Register :=
  (Register.new.register.2.updateInfo 1
    (Processor.info ⟨negotiated, 1, some 0, .registering⟩)).register.2

def liveSessions : Dict SessionKey LiveSession := Dict.empty.insert negotiated.key ⟨0, 1⟩

def scene : Replacement (MapStore RotondaPaMap) :=
  .start (Rib.new register) liveSessions 1 negotiated 0 1 2

/-- The peer announces one route over a session. -/
def announce (who : Party) (a : UInt8) : List Move :=
  [.act who (.updateMessage true (.ok [(Payload.slash8 a 0 .active).rxValue]) (.ok [])),
    .handle who]

/-- The new session reuses the ingress and withdraws what the old one left. -/
def reuse : List Move := [.act .new (.sessionNegotiated [1]), .handle .new]

/-- The new session takes the old one out of the table, aborts it and goes up. -/
def replace : List Move :=
  [.act .new (.proceed []), .act .new (.proceed []), .cancel .old, .act .new (.proceed []),
    .act .new (.proceed [])]

def lateUpdate : List Move := reuse ++ announce .old 10 ++ replace ++ announce .new 20

/-- An UPDATE of the old session between the withdrawal and the abort leaves a route that the new
session never announced. -/
theorem lateUpdate_not_exact :
    ∃ st, exec (Replacement.step ⟨false, none⟩) scene lateUpdate = some st ∧
      st.Settled ∧ ¬ st.Exact := by
  refine ⟨_, rfl, ⟨.inl rfl, rfl, rfl, rfl, rfl⟩, fun hexact => ?_⟩
  have hkey := (hexact ⟨false, .slash8 10, 1⟩ rfl).mp (by decide)
  revert hkey
  decide

/-- Without that UPDATE the routes under the reused ingress are those of the new session. -/
theorem restart_exact :
    (∀ pre st, pre <+: reuse ++ replace ++ announce .new 20 →
      exec (Replacement.step ⟨false, none⟩) scene pre = some st → st.Tracks → st.Exact) ∧
    ∃ st, exec (Replacement.step ⟨false, none⟩) scene (reuse ++ replace ++ announce .new 20) =
        some st ∧ st.Settled ∧ st.Tracks ∧ st.ingressId = 1 ∧
      st.rib.ReportsActive ⟨false, .slash8 20, 1⟩ := by
  refine ⟨?_, _, rfl, ⟨.inl rfl, rfl, rfl, rfl, rfl⟩, ⟨rfl, nofun, nofun⟩, rfl, by decide⟩
  refine (Replacement.exact_throughout_iff ⟨false, none⟩ (Rib.new register) liveSessions 1
    negotiated 0 1 2 (by decide) ?_ _).mpr ?_
  · intro k _ hactive
    rw [Rib.reportsActive_iff] at hactive
    obtain ⟨_, r, hr, _⟩ := hactive
    rw [Rib.localRecord_new] at hr
    cases hr
  · exact Replacement.along_of_old_silent rfl (Rib.not_hidden_new _)
      (by simp [reuse, replace, announce])

end Restart

end Rotonda.BgpIn
