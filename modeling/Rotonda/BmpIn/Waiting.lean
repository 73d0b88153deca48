import Rotonda.BmpIn.Effect

/-!
The End-of-RIBs that the peers of a BMP session wait for.

The waiting lists are kept by the code per header; a peer that is made up for a Route Monitoring
message copies the list of the peer it is made from, with the flags of that peer.

* `Session.hear`: the update of a Route Monitoring message, and the session that handles it;
* `Session.Shift`: what a message does to the waiting lists;
* `Session.shifts_processMsg`: every message does one of these, or terminates the session, and it
  ends the dump exactly when it is an End-of-RIB after which nobody waits.
-/

namespace Rotonda.BmpIn

open Lib Dict PeerStates

variable {st : PeerState} {order : List PerPeerHeader}

/-! ## What a Route Monitoring message says -/

namespace BgpUpdate

/-- The families that the update announces; none if it is refused. -/
def families (update : BgpUpdate) : List AfiSafiType :=
  match update.explodeAnnouncements, update.explodeWithdrawals, update.announcementsVec with
  | .ok _, .ok _, .ok announcements => announcements
  | _, _, _ => []

/-- The family that the update makes a peer wait for. -/
def awaited (update : BgpUpdate) : Option AfiSafiType :=
  match update.explodeAnnouncements, update.explodeWithdrawals, update.announcementsVec with
  | .ok reach, .ok _, .ok announcements => if 0 < reach.length then announcements.head? else none
  | _, _, _ => none

theorem awaited_mem {update : BgpUpdate} {afiSafi : AfiSafiType}
    (h : update.awaited = some afiSafi) : afiSafi ∈ update.families := by
  unfold awaited at h
  unfold families
  split at h
  · split at h
    · exact List.mem_of_mem_head? h
    · cases h
  · cases h

end BgpUpdate

namespace Session

/-- The update of a Route Monitoring message, with the session in which its routes are handled:
there is a peer for the header, and the update can be parsed. -/
def hear (s : Session) (reg : Register) (orders : IterOrders) (pph : PerPeerHeader)
    (bgpUpdate : SessionConfig → Except String BgpUpdate) : Option (Session × BgpUpdate) :=
  match s.ensurePeer reg orders pph with
  | (.error _, _) => none
  | (.ok s, _) =>
    match s.peerStates.getPeerConfig pph with
    | none => none
    | some config =>
      match parseUpdate bgpUpdate config with
      | .error _ => none
      | .ok (update, config, retry) =>
        some (if retry then
            { s with peerStates := s.peerStates.updatePeerConfig pph config }
          else s, update)

variable {s s₁ : Session} {reg : Register} {orders : IterOrders} {pph : PerPeerHeader}
  {bgpUpdate : SessionConfig → Except String BgpUpdate} {update : BgpUpdate} {dumping : Bool}

/-- The update that is heard is handled in its session; otherwise the session is kept, with the
peer that was made up for the message. -/
theorem routeMonitoring_hear (dumping : Bool) (s : Session) (reg : Register) (orders : IterOrders)
    (pph : PerPeerHeader) (bgpUpdate : SessionConfig → Except String BgpUpdate) :
    let st := (s.routeMonitoring dumping reg orders pph bgpUpdate).2.1
    match s.hear reg orders pph bgpUpdate with
    | some (s₁, update) => st = (s₁.finish dumping orders pph update).2
    | none => ∃ s₁, (s₁ = s ∨ (s.ensurePeer reg orders pph).1 = .ok s₁) ∧ st = wrap dumping s₁ := by
  rw [routeMonitoring_eq]
  unfold hear monitor
  rcases s.ensurePeer reg orders pph with ⟨res | s', reg'⟩
  · exact ⟨s, .inl rfl, rfl⟩
  · dsimp only
    cases s'.peerStates.getPeerConfig pph with
    | none => exact ⟨s', .inr rfl, rfl⟩
    | some config =>
      dsimp only
      rcases parseUpdate bgpUpdate config with err | ⟨update, config', retry⟩
      · exact ⟨s', .inr rfl, rfl⟩
      · rfl

end Session

def BmpState.isUpdating : BmpState → Bool
  | updating _ => true
  | _ => false

/-! ## Waiting for End-of-RIBs -/

/-- Whether a peer is able to send End-of-RIB, and those that it waits for. -/
structure Waiting where
  capable : Bool
  pending : List EoRProperties

abbrev Waits := Dict PerPeerHeader Waiting

namespace Waiting

def await (w : Waiting) (pph : PerPeerHeader) : Option AfiSafiType → Waiting
  | some afiSafi =>
    if w.capable then { w with pending := w.pending.insert (EoRProperties.new pph afiSafi) } else w
  | none => w

def ends (w : Waiting) (pph : PerPeerHeader) (afiSafi : AfiSafiType) : Waiting :=
  { w with pending := w.pending.erase (EoRProperties.new pph afiSafi) }

end Waiting

def PeerState.waiting (st : PeerState) : Waiting := ⟨st.eorCapable, st.pendingEors⟩

def PeerStates.waits (peers : PeerStates) : Waits := peers.map PeerState.waiting

def Waits.Over (waits : Waits) : Prop := ∀ k w, waits.get k = some w → w.pending = []

namespace PeerStates

variable {peers : PeerStates} {pph : PerPeerHeader}

theorem waits_insert (peers : PeerStates) (pph : PerPeerHeader) (st : PeerState) :
    PeerStates.waits (peers.insert pph st) = peers.waits.insert pph st.waiting :=
  map_insert ..

theorem waits_get_eq_some {w : Waiting} : peers.waits.get pph = some w ↔
    ∃ st, peers.get pph = some st ∧ st.waiting = w := by
  rw [waits, get_map, Option.map_eq_some_iff]

theorem waits_get_of (h : peers.get pph = some st) : peers.waits.get pph = some st.waiting := by
  rw [waits, get_map, h]
  rfl

theorem waits_get_of_none (h : peers.get pph = none) : peers.waits.get pph = none := by
  rw [waits, get_map, h]
  rfl

theorem waits_updatePeerConfig (peers : PeerStates) (pph : PerPeerHeader)
    (config : SessionConfig) : (peers.updatePeerConfig pph config).waits = peers.waits := by
  unfold updatePeerConfig
  split
  next st hget =>
    have hsame : peers.waits.insert pph st.waiting = peers.waits :=
      insert_of_get (waits_get_of hget)
    rw [waits_insert]
    exact hsame
  · rfl

theorem waits_addPendingEor (hget : peers.get pph = some st) (hcapable : st.eorCapable = true)
    (afiSafi : AfiSafiType) :
    (peers.addPendingEor pph afiSafi).waits =
      peers.waits.insert pph (st.waiting.await pph (some afiSafi)) := by
  rw [addPendingEor, hget]
  dsimp only
  rw [waits_insert, Waiting.await, PeerState.waiting, PeerState.waiting]
  dsimp only
  rw [if_pos hcapable]

theorem waits_removePendingEor (hget : peers.get pph = some st) (order : List PerPeerHeader)
    (afiSafi : AfiSafiType) :
    (peers.removePendingEor order pph afiSafi).2.waits =
      peers.waits.insert pph (st.waiting.ends pph afiSafi) := by
  rw [removePendingEor, hget]
  dsimp only
  rw [waits_insert]
  rfl

theorem removePendingEor_fst (hget : peers.get pph = some st) (horder : peers.Covers order)
    (afiSafi : AfiSafiType) :
    (peers.removePendingEor order pph afiSafi).1 = true ↔
      (peers.removePendingEor order pph afiSafi).2.waits.Over := by
  have hedit := editedAt_removePendingEor peers order pph afiSafi
  have hcovers : (peers.removePendingEor order pph afiSafi).2.Covers order := by
    refine ⟨horder.1, fun k hk => horder.2 k ?_⟩
    by_cases heq : k = pph
    · rw [heq, hget]
      rfl
    · rw [← hedit.1 k heq]
      exact hk
  have hfst : (peers.removePendingEor order pph afiSafi).1 =
      ((peers.removePendingEor order pph afiSafi).2.select order fun _ _ => true).all
        fun e => e.2.pendingEors.isEmpty := rfl
  rw [hfst, List.all_eq_true]
  constructor
  · intro h k w hw
    obtain ⟨st, hst, rfl⟩ := waits_get_eq_some.mp hw
    exact List.isEmpty_iff.mp (h (k, st) ((mem_select_of_covers hcovers).mpr ⟨hst, rfl⟩))
  · rintro h ⟨k, st⟩ he
    have hst := ((mem_select_of_covers hcovers).mp he).1
    exact List.isEmpty_iff.mpr (h k st.waiting (waits_get_of hst))

end PeerStates

namespace Session

variable {s s₁ : Session} {reg : Register} {orders : IterOrders} {pph : PerPeerHeader}
  {bgpUpdate : SessionConfig → Except String BgpUpdate} {update : BgpUpdate} {dumping : Bool}

theorem waits_routesOf (hget : s.peerStates.get pph = some st)
    (update : BgpUpdate) : (s.routesOf pph update).2.peerStates.waits =
      s.peerStates.waits.insert pph (st.waiting.await pph update.awaited) := by
  have hid : s.peerStates.getPeerIngressId pph = some st.ingressId := by
    rw [PeerStates.getPeerIngressId, hget]
    rfl
  have hcap : s.peerStates.isPeerEorCapable pph = some st.eorCapable := by
    rw [PeerStates.isPeerEorCapable, hget]
    rfl
  have hsame : s.peerStates.waits.insert pph st.waiting = s.peerStates.waits :=
    insert_of_get (waits_get_of hget)
  unfold routesOf extractRouteMonitoringRoutes BgpUpdate.awaited
  cases hreach : update.explodeAnnouncements with
  | error err => exact hsame.symm
  | ok reach =>
    cases hunreach : update.explodeWithdrawals with
    | error err => exact hsame.symm
    | ok unreach =>
      cases hvec : update.announcementsVec with
      | error err => simp [hid, Waiting.await, hsame, bind, Except.bind, pure, Except.pure]
      | ok announcements =>
        simp only [hid, hcap, bind, Except.bind, pure, Except.pure, Option.some.injEq]
        by_cases hlen : 0 < reach.length
        · cases hhead : announcements.head? with
          | none => simp [hlen, Waiting.await, hsame]
          | some afiSafi =>
            by_cases hcapable : st.eorCapable = true
            · rw [if_pos ⟨hlen, hcapable⟩, if_pos hlen]
              exact waits_addPendingEor hget hcapable afiSafi
            · rw [if_neg (fun h => hcapable h.2), if_pos hlen, Waiting.await]
              have hnot : ¬ st.waiting.capable = true := hcapable
              rw [if_neg hnot, hsame]
        · rw [if_neg (fun h => hlen h.1), if_neg hlen]
          exact hsame.symm

/-- The waiting lists once there is a peer for the header: as they are, or with a copy. -/
inductive Joined (waits : Waits) (pph : PerPeerHeader) : Waits → Prop
  | known (h : (waits.get pph).isSome) : Joined waits pph waits
  | copied {src : PerPeerHeader} {w : Waiting} (hnew : waits.get pph = none)
      (hsrc : src.sameIdentity pph = true) (hw : waits.get src = some w) :
      Joined waits pph (waits.insert pph w)

theorem Joined.isSome {waits waits' : Waits} (h : Joined waits pph waits') :
    (waits'.get pph).isSome := by
  cases h with
  | known h => exact h
  | copied => simp

theorem joined_of_ensurePeer (h : (s.ensurePeer reg orders pph).1 = .ok s₁) :
    Joined s.peerStates.waits pph s₁.peerStates.waits := by
  have hcases := s.ensurePeer_cases reg orders pph
  generalize s.ensurePeer reg orders pph = e at h hcases
  cases hcases with
  | known hknown =>
    cases h
    apply Joined.known
    rw [PeerStates.waits, get_map, Option.isSome_map]
    exact hknown
  | @synthesized src source _ id _ _ hnew hsrc hsource _ _ =>
    cases h
    have hw : s.peerStates.waits.get src = some source.waiting := waits_get_of hsource
    rw [withCopy, waits_insert]
    exact .copied (waits_get_of_none hnew) hsrc hw
  | panicked | unknown => cases h

theorem joined_of_hear (h : s.hear reg orders pph bgpUpdate = some (s₁, update)) :
    Joined s.peerStates.waits pph s₁.peerStates.waits := by
  unfold hear at h
  split at h
  · cases h
  next s' reg' hens =>
    have hjoined : Joined s.peerStates.waits pph s'.peerStates.waits :=
      joined_of_ensurePeer (by rw [hens])
    split at h
    · cases h
    · split at h
      · cases h
      · obtain ⟨rfl, _⟩ := Prod.mk.inj (Option.some.inj h)
        split
        · rw [waits_updatePeerConfig]
          exact hjoined
        · exact hjoined

/-- What the routes of an update do to the waiting lists, and when they end the dump. -/
theorem finish_spec (dumping : Bool) {w : Waiting} (hw : s.peerStates.waits.get pph = some w)
    (horder : s.peerStates.Covers orders.peers)
    (hlaw : update.isEor.isSome → update.awaited = none) :
    let st := (s.finish dumping orders pph update).2
    match update.isEor with
    | none => st.peerStates.waits =
        s.peerStates.waits.insert pph (w.await pph update.awaited) ∧
        st.isUpdating = !dumping ∧ st.inSession = true
    | some afiSafi => st.peerStates.waits = s.peerStates.waits.insert pph (w.ends pph afiSafi) ∧
        (st.isUpdating = true ↔ dumping = false ∨ st.peerStates.waits.Over) ∧
        st.inSession = true := by
  intro st
  obtain ⟨ps, hget, rfl⟩ := waits_get_eq_some.mp hw
  have hwrap (s : Session) :
      let st := wrap dumping s
      st.peerStates = s.peerStates ∧ st.isUpdating = !dumping ∧ st.inSession = true := by
    cases dumping <;> exact ⟨rfl, rfl, rfl⟩
  cases hisEor : update.isEor with
  | none =>
    have hst : st = wrap dumping (s.routesOf pph update).2 := by simp only [st, finish, hisEor]
    obtain ⟨hpeers, hupdating, hsession⟩ := hwrap (s.routesOf pph update).2
    rw [hst]
    refine ⟨?_, hupdating, hsession⟩
    rw [hpeers, waits_routesOf hget]
  | some afiSafi =>
    let peers := (s.peerStates.removePendingEor orders.peers pph afiSafi).2
    have hremoved : peers.waits = s.peerStates.waits.insert pph (ps.waiting.ends pph afiSafi) :=
      waits_removePendingEor hget orders.peers afiSafi
    have hdone := removePendingEor_fst hget horder afiSafi
    have hst : st = if dumping && (s.peerStates.removePendingEor orders.peers pph afiSafi).1 then
        .updating { s with peerStates := peers }
        else wrap dumping ({ s with peerStates := peers }.routesOf pph update).2 := by
      simp only [st, finish, hisEor, peers]
      split <;> rfl
    -- without announcements the routes add no waiting
    have hroutes : ({ s with peerStates := peers }.routesOf pph update).2.peerStates.waits =
        peers.waits := by
      obtain ⟨ps', hget', hps'⟩ : ∃ ps', peers.get pph = some ps' ∧
          ps'.waiting = ps.waiting.ends pph afiSafi := by
        rw [← waits_get_eq_some, hremoved, get_insert_self]
      rw [waits_routesOf (s := { s with peerStates := peers }) hget', hlaw (by rw [hisEor]; rfl)]
      exact insert_of_get (waits_get_of hget')
    by_cases hmoves : (dumping && (s.peerStates.removePendingEor orders.peers pph afiSafi).1) = true
    · rw [hst, if_pos hmoves]
      have hover := hdone.mp (Bool.and_eq_true_iff.mp hmoves).2
      exact ⟨hremoved, ⟨fun _ => .inr hover, fun _ => rfl⟩, rfl⟩
    · rw [hst, if_neg hmoves]
      obtain ⟨hpeers, hupdating, hsession⟩ :=
        hwrap ({ s with peerStates := peers }.routesOf pph update).2
      refine ⟨?_, ?_, hsession⟩
      · rw [hpeers, hroutes, hremoved]
      · rw [hupdating, hpeers, hroutes, Bool.not_eq_true']
        constructor
        · exact .inl
        · rintro (hnot | hover)
          · exact hnot
          · cases hd : dumping with
            | false => rfl
            | true =>
              rw [hd, Bool.true_and, hdone] at hmoves
              exact absurd hover hmoves

/-- What a message does to the waiting lists, and the update that is heard by it. -/
inductive Shift (waits : Waits) : BmpMsg → Option (PerPeerHeader × BgpUpdate) → Waits → Prop
  | same (msg : BmpMsg) : Shift waits msg none waits
  | up (m : PeerUp) (hnew : waits.get m.pph = none) :
      Shift waits (.peerUpNotification m) none (waits.insert m.pph ⟨m.gracefulRestart, []⟩)
  | down {pph : PerPeerHeader} {waits' : Waits}
      (hget : ∀ k, waits'.get k = if k.sameIdentity pph then none else waits.get k) :
      Shift waits (.peerDownNotification pph) none waits'
  | unheard {pph : PerPeerHeader} {bgpUpdate : SessionConfig → Except String BgpUpdate}
      {waits' : Waits} (hjoined : Joined waits pph waits') :
      Shift waits (.routeMonitoring pph bgpUpdate) none waits'
  | routes {pph : PerPeerHeader} {bgpUpdate : SessionConfig → Except String BgpUpdate}
      {update : BgpUpdate} {waits₁ : Waits} {w : Waiting} (heor : update.isEor = none)
      (hjoined : Joined waits pph waits₁) (hw : waits₁.get pph = some w) :
      Shift waits (.routeMonitoring pph bgpUpdate) (some (pph, update))
        (waits₁.insert pph (w.await pph update.awaited))
  | ended {pph : PerPeerHeader} {bgpUpdate : SessionConfig → Except String BgpUpdate}
      {update : BgpUpdate} {afiSafi : AfiSafiType} {waits₁ : Waits} {w : Waiting}
      (heor : update.isEor = some afiSafi) (hjoined : Joined waits pph waits₁)
      (hw : waits₁.get pph = some w) :
      Shift waits (.routeMonitoring pph bgpUpdate) (some (pph, update))
        (waits₁.insert pph (w.ends pph afiSafi))

end Session

/-- The update that a message carries, if there is a peer for it and it can be parsed. -/
def Session.heard (s : Session) (e : Input) : Option (PerPeerHeader × BgpUpdate) :=
  match e.msg with
  | .routeMonitoring pph bgpUpdate =>
    (s.hear e.register e.orders pph bgpUpdate).map fun r => (pph, r.2)
  | _ => none

def BmpState.heard (st : BmpState) (e : Input) : Option (PerPeerHeader × BgpUpdate) :=
  match st with
  | dumping s | updating s => s.heard e
  | initiating _ | terminated _ => none

/-- An End-of-RIB carries no announcement: so the library decides what is one. -/
def Input.Lawful (e : Input) : Prop :=
  ∀ pph bgpUpdate, e.msg = .routeMonitoring pph bgpUpdate → ∀ config update,
    bgpUpdate config = .ok update → update.isEor.isSome → update.explodeAnnouncements = .ok []

def isEndOfRib : Option (PerPeerHeader × BgpUpdate) → Bool
  | some (_, update) => update.isEor.isSome
  | none => false

namespace Session

variable {s s₁ : Session} {reg : Register} {orders : IterOrders} {pph : PerPeerHeader}
  {bgpUpdate : SessionConfig → Except String BgpUpdate} {update : BgpUpdate} {dumping : Bool}
variable {e : Input}

theorem parsed_of_hear (h : s.hear reg orders pph bgpUpdate = some (s₁, update)) :
    ∃ config, bgpUpdate config = .ok update := by
  unfold hear at h
  split at h
  · cases h
  · split at h
    · cases h
    next config _ =>
      split at h
      · cases h
      next update' config' retry hparse =>
        obtain ⟨_, rfl⟩ := Prod.mk.inj (Option.some.inj h)
        rw [parseUpdate_eq] at hparse
        split at hparse
        next hok =>
          cases hparse
          exact ⟨_, hok⟩
        · dsimp only at hparse
          split at hparse
          next hok =>
            cases hparse
            exact ⟨_, hok⟩
          · cases hparse

/-- What one message does in Dumping or Updating. -/
structure Shifts (dumping : Bool) (s : Session) (e : Input)
    (heard : Option (PerPeerHeader × BgpUpdate)) (st : BmpState) : Prop where
  shift : Shift s.peerStates.waits e.msg heard st.peerStates.waits
  inSession : st.inSession = true
  moves : st.isUpdating = true ↔
    dumping = false ∨ (isEndOfRib heard = true ∧ st.peerStates.waits.Over)

theorem shifts_wrap {s₁ : Session} (h : Shift s.peerStates.waits e.msg none s₁.peerStates.waits) :
    Shifts dumping s e none (wrap dumping s₁) := by
  cases dumping <;> exact ⟨h, rfl, by simp [BmpState.isUpdating, isEndOfRib, wrap]⟩

theorem covers_of_joined (h : Joined s.peerStates.waits pph s₁.peerStates.waits)
    (horder : s.peerStates.Covers order) (hpph : pph ∈ order) : s₁.peerStates.Covers order := by
  have hsome (peers : PeerStates) (k : PerPeerHeader) :
      (peers.waits.get k).isSome = (peers.get k).isSome := by
    rw [PeerStates.waits, get_map, Option.isSome_map]
  refine ⟨horder.1, fun k hk => ?_⟩
  by_cases heq : k = pph
  · exact heq ▸ hpph
  · apply horder.2 k
    rw [← hsome] at hk ⊢
    generalize s₁.peerStates.waits = waits₁ at h hk
    cases h with
    | known => exact hk
    | copied =>
      rw [get_insert_of_ne _ heq] at hk
      exact hk

theorem shifts_routeMonitoring (hlaw : e.Lawful) (hmsg : e.msg = .routeMonitoring pph bgpUpdate)
    (horder : s.peerStates.Covers e.orders.peers) (hpph : pph ∈ e.orders.peers) :
    Shifts dumping s e (s.heard e)
      (s.routeMonitoring dumping e.register e.orders pph bgpUpdate).2.1 := by
  rw [heard, hmsg]
  dsimp only
  have hhandled := s.routeMonitoring_hear dumping e.register e.orders pph bgpUpdate
  cases hhear : s.hear e.register e.orders pph bgpUpdate with
  | none =>
    rw [hhear] at hhandled
    obtain ⟨s₁, hs₁, hst⟩ := hhandled
    rw [hst, Option.map_none]
    apply shifts_wrap
    rw [hmsg]
    rcases hs₁ with rfl | hens
    · exact .same _
    · exact .unheard (joined_of_ensurePeer hens)
  | some r =>
    obtain ⟨s₁, update⟩ := r
    have hjoined := joined_of_hear hhear
    obtain ⟨w, hw⟩ := Option.isSome_iff_exists.mp hjoined.isSome
    have hawaited : update.isEor.isSome → update.awaited = none := by
      intro heor
      obtain ⟨config, hparse⟩ := parsed_of_hear hhear
      have hnone := hlaw pph bgpUpdate hmsg config update hparse heor
      rw [BgpUpdate.awaited, hnone]
      split
      next hreach _ _ =>
        cases hreach
        rfl
      · rfl
    have hspec := finish_spec dumping hw (covers_of_joined hjoined horder hpph) hawaited
    rw [hhear] at hhandled
    rw [hhandled, Option.map_some]
    dsimp only at hspec ⊢
    cases heor : update.isEor with
    | none =>
      rw [heor] at hspec
      obtain ⟨hwaits, hupdating, hsession⟩ := hspec
      refine ⟨?_, hsession, ?_⟩
      · rw [hwaits, hmsg]
        exact .routes heor hjoined hw
      · rw [hupdating]
        simp [isEndOfRib, heor]
    | some afiSafi =>
      rw [heor] at hspec
      obtain ⟨hwaits, hupdating, hsession⟩ := hspec
      refine ⟨?_, hsession, ?_⟩
      · rw [hwaits, hmsg]
        exact .ended heor hjoined hw
      · rw [hupdating]
        simp [isEndOfRib, heor]

theorem shifts_processMsg (hlaw : e.Lawful) (horder : s.peerStates.Covers e.orders.peers)
    (hpph : ∀ pph ∈ e.msg.monitored, pph ∈ e.orders.peers) :
    (∃ id, (s.processMsg dumping e.register e.orders e.msg).2.1 = .terminated id) ∨
      Shifts dumping s e (s.heard e) (s.processMsg dumping e.register e.orders e.msg).2.1 := by
  have hquiet {s₁ : Session} (hheard : s.heard e = none)
      (h : Shift s.peerStates.waits e.msg none s₁.peerStates.waits) :
      Shifts dumping s e (s.heard e) (if dumping then .dumping s₁ else .updating s₁) := by
    rw [hheard]
    exact shifts_wrap h
  unfold processMsg
  cases hmsg : e.msg with
  | initiationMessage | statisticsReport | routeMirroring =>
    exact .inr (hquiet (by rw [heard, hmsg]) (hmsg ▸ .same _))
  | peerUpNotification m =>
    refine .inr (hquiet (by rw [heard, hmsg]) ?_)
    rw [hmsg]
    unfold peerUp
    rcases s.peerStates.addPeerConfig_cases e.register e.orders.register s.ingressId m with
      ⟨_, heq⟩ | ⟨hnone, id, existing, reg', _, heq⟩
    · rw [heq]
      exact .same _
    · rw [heq]
      have hup := Shift.up m (waits_get_of_none hnone)
      cases existing with
      | none | some =>
        dsimp only
        rw [waits_insert]
        exact hup
  | peerDownNotification pph =>
    refine .inr (hquiet (by rw [heard, hmsg]) ?_)
    rw [hmsg]
    apply Shift.down
    intro k
    rw [PeerStates.waits, get_map, get_peerDown horder, PeerStates.waits, get_map]
    split <;> rfl
  | routeMonitoring pph bgpUpdate =>
    refine .inr (shifts_routeMonitoring hlaw hmsg horder (hpph pph ?_))
    rw [hmsg]
    rfl
  | terminationMessage =>
    refine .inl ⟨s.ingressId, ?_⟩
    simp only [terminate]
    split <;> rfl

end Session

end Rotonda.BmpIn
