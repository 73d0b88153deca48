import Rotonda.BmpIn.Waiting

/-!
When the initial dump of a BMP session is over.

A peer that is able to send End-of-RIB has to send one for every family that it has announced.

* `Watch`: a session with what each peer has announced and ended since it is up;
* `Watch.Rule`: the session moves to Updating exactly at the message by which all is ended;
* `Watch.dump_follows_rule`: it does along every run of regular messages, and every waiting list
  then carries the flags of its own header;
* `CopiedWait.stuck`: a copied list that no End-of-RIB empties.
-/

namespace Rotonda.BmpIn

open Lib Lib.Runs List Dict PeerStates

/-! ## The rule -/

/-- The families that a peer has announced and those that it has ended, since it is up. -/
structure Progress where
  announced : List AfiSafiType
  ended : List AfiSafiType

def Progress.none : Progress := ⟨[], []⟩

def Progress.add (p : Progress) (update : BgpUpdate) : Progress :=
  match update.isEor with
  | some afiSafi => { p with ended := p.ended ++ [afiSafi] }
  | .none => { p with announced := p.announced ++ update.families }

/-- A session with the progress of its peers, as the messages tell it. -/
structure Watch where
  state : BmpState
  progress : PerPeerHeader → Progress

namespace Watch

/-- The session right after its Initiation. -/
def start (s : Session) : Watch := ⟨.dumping s, fun _ => .none⟩

def next (w : Watch) (e : Input) : Watch where
  state := w.state.next e
  progress k :=
    if ((w.state.next e).peerStates.get k).isNone then .none
    else match w.state.heard e with
      | some (pph, update) => if k = pph then (w.progress k).add update else w.progress k
      | .none => w.progress k

/-- Every peer that is up and able to send End-of-RIB has sent it for every family that it has
announced. -/
def Done (w : Watch) : Prop :=
  ∀ k st, w.state.peerStates.get k = some st → st.eorCapable = true →
    ∀ afiSafi ∈ (w.progress k).announced, afiSafi ∈ (w.progress k).ended

/-- The session moves to Updating exactly at the message by which everything is ended: an
End-of-RIB, or a message before which it was not. -/
def Rule (w : Watch) (e : Input) : Prop :=
  (∃ s, w.state = .dumping s) → ((w.next e).state.isUpdating = true ↔
    (w.next e).state.inSession = true ∧ (w.next e).Done ∧
      (isEndOfRib (w.state.heard e) = true ∨ ¬ w.Done))

/-- Every waiting entry has the flags of its header, so that an End-of-RIB takes it out. -/
def Flagged (w : Watch) : Prop :=
  ∀ k st, w.state.peerStates.get k = some st → ∀ p ∈ st.pendingEors,
    (p.postPolicy = k.isPostPolicy ∧ p.adjRibOut = decide (k.adjRibType = .adjRibOut)) ∧
      p ∉ st.pendingEors.erase (EoRProperties.new k p.afiSafi)

/-- The messages for which the waiting lists keep to what was announced. -/
structure Regular (w : Watch) (e : Input) : Prop where
  /-- A peer is made up only while no peer of its identity waits. -/
  made_up : ∀ pph ∈ e.msg.monitored, w.state.peerStates.get pph = none →
    ∀ k st, k.sameIdentity pph = true → w.state.peerStates.get k = some st → st.pendingEors = []
  /-- An update of a peer that is able to send End-of-RIB announces routes of one family, which
  is not ended yet. -/
  one_family : ∀ pph update, w.state.heard e = some (pph, update) → update.isEor = none →
    (∃ k st, k.sameIdentity pph = true ∧ w.state.peerStates.get k = some st ∧
      st.eorCapable = true) → update.families = [] ∨
    ∃ afiSafi, (∀ f ∈ update.families, f = afiSafi) ∧ update.awaited = some afiSafi ∧
      afiSafi ∉ (w.progress pph).ended
  /-- A Peer Down does not take the last peer that has something to end. -/
  not_last : ∀ pph, e.msg = .peerDownNotification pph → ¬ w.Done →
    ∃ k st, k.sameIdentity pph = false ∧ w.state.peerStates.get k = some st ∧
      st.eorCapable = true ∧
      ∃ afiSafi ∈ (w.progress k).announced, afiSafi ∉ (w.progress k).ended

end Watch

/-! ### The invariant -/

namespace Waiting

variable {f : AfiSafiType}

def Flagged (w : Waiting) (k : PerPeerHeader) : Prop :=
  w.pending.Nodup ∧ ∀ p ∈ w.pending, p = EoRProperties.new k p.afiSafi

def Follows (w : Waiting) (k : PerPeerHeader) (p : Progress) : Prop :=
  ∀ afiSafi, EoRProperties.new k afiSafi ∈ w.pending ↔
    w.capable = true ∧ afiSafi ∈ p.announced ∧ afiSafi ∉ p.ended

variable {w : Waiting} {k : PerPeerHeader} {p : Progress}

theorem new_inj {g : AfiSafiType} (h : EoRProperties.new k f = EoRProperties.new k g) : f = g :=
  congrArg EoRProperties.afiSafi h

theorem flagged_of_nil (h : w.pending = []) : w.Flagged k := by
  rw [Flagged, h]
  exact ⟨nodup_nil, by simp⟩

theorem Flagged.await (h : w.Flagged k) (f : Option AfiSafiType) : (w.await k f).Flagged k := by
  cases f with
  | none => exact h
  | some f =>
    rw [Waiting.await]
    split
    · refine ⟨h.1.insert, fun p hp => ?_⟩
      rcases mem_insert_iff.mp hp with rfl | hp
      · rfl
      · exact h.2 p hp
    · exact h

theorem Flagged.ends (h : w.Flagged k) (f : AfiSafiType) : (w.ends k f).Flagged k :=
  ⟨h.1.erase _, fun p hp => h.2 p (mem_of_mem_erase hp)⟩

theorem follows_of_nil (h : w.pending = []) : w.Follows k .none := by
  intro f
  simp [h, Progress.none]

variable {update : BgpUpdate}

theorem Follows.ends (hflagged : w.Flagged k) (h : w.Follows k p)
    (heor : update.isEor = some f) : (w.ends k f).Follows k (p.add update) := by
  intro g
  rw [Progress.add, heor, Waiting.ends, hflagged.1.mem_erase_iff, h g]
  dsimp only
  rw [mem_append, mem_singleton, not_or]
  constructor
  · rintro ⟨hne, hcap, hann, hend⟩
    exact ⟨hcap, hann, hend, fun heq => hne (heq ▸ rfl)⟩
  · rintro ⟨hcap, hann, hend, hne⟩
    exact ⟨fun heq => hne (new_inj heq), hcap, hann, hend⟩

theorem Follows.await (h : w.Follows k p) (heor : update.isEor = none)
    (hfamily : w.capable = true → update.families = [] ∨
      ∃ f, (∀ g ∈ update.families, g = f) ∧ update.awaited = some f ∧ f ∉ p.ended) :
    (w.await k update.awaited).Follows k (p.add update) := by
  intro g
  rw [Progress.add, heor]
  dsimp only
  rw [mem_append]
  cases hcap : w.capable with
  | false =>
    have hsame : w.await k update.awaited = w := by
      rw [Waiting.await.eq_def]
      split
      · rw [hcap, if_neg Bool.false_ne_true]
      · rfl
    rw [hsame, h g, hcap]
    simp
  | true =>
    rcases hfamily hcap with hnil | ⟨f, hone, hawaited, hnot⟩
    · have hnone : update.awaited = none := by
        rw [Option.eq_none_iff_forall_not_mem]
        intro f hf
        have hmem := BgpUpdate.awaited_mem hf
        rw [hnil] at hmem
        cases hmem
      rw [hnone, Waiting.await, h g, hnil]
      simp
    · have hmem := BgpUpdate.awaited_mem hawaited
      rw [hawaited, Waiting.await, if_pos hcap]
      dsimp only
      rw [mem_insert_iff, h g, hcap]
      constructor
      · rintro (heq | ⟨_, hann, hend⟩)
        · rw [new_inj heq]
          exact ⟨rfl, .inr hmem, hnot⟩
        · exact ⟨rfl, .inl hann, hend⟩
      · rintro ⟨_, hann | hfam, hend⟩
        · exact .inr ⟨rfl, hann, hend⟩
        · exact .inl (by rw [hone g hfam])

end Waiting

namespace Watch

variable {w : Watch} {e : Input}
variable {wt : Waiting} {pph : PerPeerHeader} {waits₁ : Waits}

def waits (w : Watch) : Waits := w.state.peerStates.waits

structure Sound (w : Watch) : Prop where
  flagged : ∀ k wt, w.waits.get k = some wt → wt.Flagged k
  fresh : ∀ k, w.waits.get k = none → w.progress k = .none

/-- The waiting lists are what is announced and not ended. -/
def Follows (w : Watch) : Prop :=
  ∀ k wt, w.waits.get k = some wt → wt.Follows k (w.progress k)

theorem flagged_of_sound (h : w.Sound) : w.Flagged := by
  intro k st hst p hp
  have hflagged := h.flagged k st.waiting (waits_get_of hst)
  have heq := hflagged.2 p hp
  refine ⟨⟨?_, ?_⟩, ?_⟩
  · rw [heq]
    rfl
  · rw [heq]
    rfl
  · rw [← heq]
    exact fun hmem => (hflagged.1.mem_erase_iff.mp hmem).1 rfl

/-- Nobody waits exactly when everything is ended. -/
theorem done_iff_over (h : w.Sound) (hfollows : w.Follows) : w.Done ↔ w.waits.Over := by
  constructor
  · intro hdone k wt hwt
    obtain ⟨st, hst, rfl⟩ := waits_get_eq_some.mp hwt
    rw [eq_nil_iff_forall_not_mem]
    intro p hp
    rw [(h.flagged k _ hwt).2 p hp, hfollows k _ hwt] at hp
    exact hp.2.2 (hdone k st hst hp.1 _ hp.2.1)
  · intro hover k st hst hcapable f hf
    by_contra hnot
    have hwt : w.waits.get k = some st.waiting := waits_get_of hst
    have hmem := (hfollows k _ hwt f).mpr ⟨hcapable, hf, hnot⟩
    rw [hover k _ hwt] at hmem
    cases hmem

variable {k : PerPeerHeader}

theorem progress_next (h : (w.next e).waits.get k = some wt) :
    (w.next e).progress k = match w.state.heard e with
      | some (pph, update) => if k = pph then (w.progress k).add update else w.progress k
      | none => w.progress k := by
  obtain ⟨st, hst, _⟩ := waits_get_eq_some.mp h
  have hsome : ((w.state.next e).peerStates.get k).isNone = false := by
    change (w.state.next e).peerStates.get k = some st at hst
    rw [hst]
    rfl
  rw [next]
  dsimp only
  rw [hsome, if_neg Bool.false_ne_true]

theorem fresh_next (w : Watch) (e : Input) (k : PerPeerHeader)
    (h : (w.next e).waits.get k = none) : (w.next e).progress k = .none := by
  have hnone : ((w.state.next e).peerStates.get k).isNone = true := by
    rw [waits, PeerStates.waits, get_map, Option.map_eq_none_iff] at h
    change (w.state.next e).peerStates.get k = none at h
    rw [h]
    rfl
  rw [next]
  dsimp only
  rw [hnone, if_pos rfl]

/-- A peer that is made up while its identity does not wait starts afresh. -/
theorem pending_of_copied (hmade : ∀ pph ∈ e.msg.monitored,
      w.state.peerStates.get pph = none → ∀ k st, k.sameIdentity pph = true →
        w.state.peerStates.get k = some st → st.pendingEors = []) (hpph : pph ∈ e.msg.monitored)
    {src : PerPeerHeader} (hnew : w.waits.get pph = none) (hsrc : src.sameIdentity pph = true)
    (hw : w.waits.get src = some wt) : wt.pending = [] := by
  obtain ⟨st, hst, rfl⟩ := waits_get_eq_some.mp hw
  rw [waits, PeerStates.waits, get_map, Option.map_eq_none_iff] at hnew
  exact hmade pph hpph hnew src st hsrc hst

theorem flagged_joined (h : w.Sound) (hregular : w.Regular e) (hpph : pph ∈ e.msg.monitored)
    (hjoined : Session.Joined w.waits pph waits₁)
    (hwt : waits₁.get k = some wt) : wt.Flagged k := by
  cases hjoined with
  | known => exact h.flagged k wt hwt
  | copied hnew hsrc hw =>
    rcases of_get_insert hwt with ⟨_, rfl⟩ | ⟨_, hwt⟩
    · exact Waiting.flagged_of_nil (pending_of_copied hregular.made_up hpph hnew hsrc hw)
    · exact h.flagged k wt hwt

theorem follows_joined (h : w.Sound) (hfollows : w.Follows) (hregular : w.Regular e)
    (hpph : pph ∈ e.msg.monitored) (hjoined : Session.Joined w.waits pph waits₁)
    (hwt : waits₁.get k = some wt) : wt.Follows k (w.progress k) := by
  cases hjoined with
  | known => exact hfollows k wt hwt
  | copied hnew hsrc hw =>
    rcases of_get_insert hwt with ⟨rfl, rfl⟩ | ⟨_, hwt⟩
    · rw [h.fresh _ hnew]
      exact Waiting.follows_of_nil (pending_of_copied hregular.made_up hpph hnew hsrc hw)
    · exact hfollows k wt hwt

theorem next_shifts {s : Session} (dumping : Bool)
    (hst : w.state = if dumping then .dumping s else .updating s) (hlaw : e.Lawful)
    (horder : e.Ordered w.state) :
    (∃ id, (w.next e).state = .terminated id) ∨
      Session.Shifts dumping s e (w.state.heard e) (w.next e).state := by
  have hpeers : w.state.peerStates = s.peerStates := by
    rw [hst]
    cases dumping <;> rfl
  have hheard : w.state.heard e = s.heard e := by
    rw [hst]
    cases dumping <;> rfl
  have hnext : (w.next e).state = (s.processMsg dumping e.register e.orders e.msg).2.1 := by
    change w.state.next e = _
    rw [hst]
    cases dumping <;> rfl
  rw [hnext, hheard]
  exact Session.shifts_processMsg hlaw (hpeers ▸ horder.1) horder.2

theorem flagged_shift (h : w.Sound) (hregular : w.Regular e)
    {heard : Option (PerPeerHeader × BgpUpdate)} {waits' : Waits}
    (hshift : Session.Shift w.waits e.msg heard waits')
    (hwt : waits'.get k = some wt) : wt.Flagged k := by
  have hjoins {pph : PerPeerHeader} (hpph : pph ∈ e.msg.monitored) {waits₁ : Waits}
      (hjoined : Session.Joined w.waits pph waits₁) {k : PerPeerHeader} {wt : Waiting}
      (hwt : waits₁.get k = some wt) : wt.Flagged k := flagged_joined h hregular hpph hjoined hwt
  generalize e.msg = msg at hshift hjoins
  cases hshift with
  | same => exact h.flagged k wt hwt
  | up m hnew =>
    rcases of_get_insert hwt with ⟨_, rfl⟩ | ⟨_, hwt⟩
    · exact Waiting.flagged_of_nil rfl
    · exact h.flagged k wt hwt
  | down hget =>
    rw [hget] at hwt
    split at hwt
    · cases hwt
    · exact h.flagged k wt hwt
  | unheard hjoined => exact hjoins rfl hjoined hwt
  | routes heor hjoined hw =>
    rcases of_get_insert hwt with ⟨rfl, rfl⟩ | ⟨_, hwt⟩
    · exact (hjoins rfl hjoined hw).await _
    · exact hjoins rfl hjoined hwt
  | ended heor hjoined hw =>
    rcases of_get_insert hwt with ⟨rfl, rfl⟩ | ⟨_, hwt⟩
    · exact (hjoins rfl hjoined hw).ends _
    · exact hjoins rfl hjoined hwt

/-- The capability of a peer that is there, or made up, is that of a peer of its identity. -/
theorem capable_of_joined (hjoined : Session.Joined w.waits pph waits₁)
    (hwt : waits₁.get pph = some wt) (hcapable : wt.capable = true) :
    ∃ k st, k.sameIdentity pph = true ∧ w.state.peerStates.get k = some st ∧
      st.eorCapable = true := by
  have hstate {k : PerPeerHeader} (hk : k.sameIdentity pph = true)
      (hget : w.waits.get k = some wt) : ∃ k st, k.sameIdentity pph = true ∧
        w.state.peerStates.get k = some st ∧ st.eorCapable = true := by
    obtain ⟨st, hst, rfl⟩ := waits_get_eq_some.mp hget
    exact ⟨k, st, hk, hst, hcapable⟩
  cases hjoined with
  | known => exact hstate pph.sameIdentity_refl hwt
  | copied hnew hsrc hw =>
    rw [get_insert_self] at hwt
    cases hwt
    exact hstate hsrc hw

theorem follows_shift (h : w.Sound) (hfollows : w.Follows) (hregular : w.Regular e)
    (hshift : Session.Shift w.waits e.msg (w.state.heard e) (w.next e).waits) :
    (w.next e).Follows := by
  intro k wt hwt
  rw [progress_next hwt]
  have hjoins {pph : PerPeerHeader} (hpph : pph ∈ e.msg.monitored) {waits₁ : Waits}
      (hjoined : Session.Joined w.waits pph waits₁) {k : PerPeerHeader} {wt : Waiting}
      (hwt : waits₁.get k = some wt) : wt.Flagged k ∧ wt.Follows k (w.progress k) :=
    ⟨flagged_joined h hregular hpph hjoined hwt, follows_joined h hfollows hregular hpph hjoined hwt⟩
  have hfamily := hregular.one_family
  generalize e.msg = msg at hshift hjoins
  generalize w.state.heard e = heard at hshift hfamily
  generalize (w.next e).waits = waits' at hshift hwt
  cases hshift with
  | same => exact hfollows k wt hwt
  | up m hnew =>
    rcases of_get_insert hwt with ⟨rfl, rfl⟩ | ⟨_, hwt⟩
    · dsimp only
      rw [h.fresh _ hnew]
      exact Waiting.follows_of_nil rfl
    · exact hfollows k wt hwt
  | down hget =>
    rw [hget] at hwt
    split at hwt
    · cases hwt
    · exact hfollows k wt hwt
  | unheard hjoined => exact (hjoins rfl hjoined hwt).2
  | @routes pph _ update _ w₁ heor hjoined hw =>
    dsimp only
    rcases of_get_insert hwt with ⟨rfl, rfl⟩ | ⟨hne, hwt⟩
    · rw [if_pos rfl]
      refine (hjoins rfl hjoined hw).2.await heor fun hcapable => ?_
      exact hfamily _ update rfl heor (capable_of_joined hjoined hw hcapable)
    · rw [if_neg hne]
      exact (hjoins rfl hjoined hwt).2
  | @ended pph _ update f _ w₁ heor hjoined hw =>
    dsimp only
    rcases of_get_insert hwt with ⟨rfl, rfl⟩ | ⟨hne, hwt⟩
    · rw [if_pos rfl]
      exact (hjoins rfl hjoined hw).2.ends (hjoins rfl hjoined hw).1 heor
    · rw [if_neg hne]
      exact (hjoins rfl hjoined hwt).2

/-- A peer has something to end. -/
def Unfinished (w : Watch) : Prop :=
  ∃ k wt f, w.waits.get k = some wt ∧ wt.capable = true ∧ f ∈ (w.progress k).announced ∧
    f ∉ (w.progress k).ended

theorem unfinished_iff : w.Unfinished ↔ ¬ w.Done := by
  constructor
  · rintro ⟨k, wt, f, hwt, hcapable, hann, hend⟩ hdone
    obtain ⟨st, hst, rfl⟩ := waits_get_eq_some.mp hwt
    exact hend (hdone k st hst hcapable f hann)
  · intro hdone
    simp only [Done, not_forall] at hdone
    obtain ⟨k, st, hst, hcapable, f, hann, hend⟩ := hdone
    exact ⟨k, st.waiting, f, waits_get_of hst, hcapable, hann, hend⟩

theorem get_of_joined {waits : Waits} (hjoined : Session.Joined waits pph waits₁)
    (hwt : waits.get k = some wt) : waits₁.get k = some wt := by
  cases hjoined with
  | known => exact hwt
  | copied hnew _ _ =>
    rw [get_insert_of_ne, hwt]
    rintro rfl
    rw [hnew] at hwt
    cases hwt

theorem capable_await (wt : Waiting) (k : PerPeerHeader) (f : Option AfiSafiType) :
    (wt.await k f).capable = wt.capable := by
  cases f with
  | none => rfl
  | some f =>
    rw [Waiting.await]
    split <;> rfl

/-- Only an End-of-RIB can end something. -/
theorem unfinished_shift (hregular : w.Regular e)
    (hshift : Session.Shift w.waits e.msg (w.state.heard e) (w.next e).waits)
    (hnot : isEndOfRib (w.state.heard e) = false) (h : w.Unfinished) : (w.next e).Unfinished := by
  -- it is enough that a peer with something to end is kept, with what it had to end
  have hkeep {k : PerPeerHeader} (wt : Waiting) {wt' : Waiting} {f : AfiSafiType}
      (hwt' : (w.next e).waits.get k = some wt') (hcapable' : wt'.capable = wt.capable)
      (hcapable : wt.capable = true) (hann : f ∈ (w.progress k).announced)
      (hend : f ∉ (w.progress k).ended) : (w.next e).Unfinished := by
    refine ⟨k, wt', f, hwt', hcapable'.trans hcapable, ?_⟩
    rw [progress_next hwt']
    split
    next pph update hheard =>
      rw [hheard] at hnot
      have heor : update.isEor = none := by
        simpa [isEndOfRib] using hnot
      split
      · rw [Progress.add, heor]
        exact ⟨mem_append_left _ hann, hend⟩
      · exact ⟨hann, hend⟩
    · exact ⟨hann, hend⟩
  obtain ⟨k, wt, f, hwt, hcapable, hann, hend⟩ := h
  have hlast := hregular.not_last
  generalize e.msg = msg at hshift hlast
  generalize w.state.heard e = heard at hshift hnot
  generalize hwaits : (w.next e).waits = waits' at hshift
  rw [hwaits] at hkeep
  cases hshift with
  | same => exact hkeep wt hwt rfl hcapable hann hend
  | up m hnew =>
    refine hkeep wt ?_ rfl hcapable hann hend
    rw [get_insert_of_ne, hwt]
    rintro rfl
    rw [hnew] at hwt
    cases hwt
  | @down pph _ hget =>
    obtain ⟨k', st, hid, hst, hcapable', f', hann', hend'⟩ :=
      hlast pph rfl (unfinished_iff.mp ⟨k, wt, f, hwt, hcapable, hann, hend⟩)
    refine hkeep st.waiting ?_ rfl hcapable' hann' hend'
    rw [hget, hid, if_neg Bool.false_ne_true]
    exact waits_get_of hst
  | unheard hjoined => exact hkeep wt (get_of_joined hjoined hwt) rfl hcapable hann hend
  | @routes pph _ update _ w₁ heor hjoined hw =>
    by_cases hk : k = pph
    · subst hk
      cases hw.symm.trans (get_of_joined hjoined hwt)
      exact hkeep wt (get_insert_self ..) (capable_await ..) hcapable hann hend
    · refine hkeep wt ?_ rfl hcapable hann hend
      rw [get_insert_of_ne _ hk]
      exact get_of_joined hjoined hwt
  | ended heor hjoined hw =>
    rw [isEndOfRib, heor] at hnot
    cases hnot

theorem rule_of_sound (h : w.Sound) (hfollows : (∃ s, w.state = .dumping s) → w.Follows)
    (hregular : w.Regular e) (hlaw : e.Lawful) (horder : e.Ordered w.state) : w.Rule e := by
  rintro ⟨s, hst⟩
  have hfollows := hfollows ⟨s, hst⟩
  rcases next_shifts true hst hlaw horder with ⟨id, hterminated⟩ | hshifts
  · rw [hterminated]
    simp [BmpState.isUpdating, BmpState.inSession]
  · have hwaits : w.waits = s.peerStates.waits := by
      rw [waits, hst]
      rfl
    have hshift : Session.Shift w.waits e.msg (w.state.heard e) (w.next e).waits := by
      rw [hwaits]
      exact hshifts.shift
    have hsound : (w.next e).Sound :=
      ⟨fun k wt hwt => flagged_shift h hregular hshift hwt, w.fresh_next e⟩
    have hdone := done_iff_over hsound (follows_shift h hfollows hregular hshift)
    rw [hshifts.moves, hdone]
    constructor
    · rintro (hfalse | ⟨heor, hover⟩)
      · cases hfalse
      · exact ⟨hshifts.inSession, hover, .inl heor⟩
    · rintro ⟨_, hover, hcause⟩
      cases heor : isEndOfRib (w.state.heard e) with
      | true => exact .inr ⟨rfl, hover⟩
      | false =>
        rcases hcause with hend | hundone
        · rw [heor] at hend
          cases hend
        · have hunfinished := unfinished_shift hregular hshift heor (unfinished_iff.mpr hundone)
          exact absurd (hdone.mpr hover) (unfinished_iff.mp hunfinished)

/-- What every state of a run satisfies. -/
structure Kept (w : Watch) : Prop where
  sound : w.Sound
  follows : (∃ s, w.state = .dumping s) → w.Follows
  initiated : w.state.isInitiating = false

theorem kept_next (h : w.Kept) (hregular : w.Regular e) (hlaw : e.Lawful)
    (horder : e.Ordered w.state) : (w.next e).Kept := by
  have hempty (w' : Watch) (id : IngressId) (hst : w'.state = .terminated id)
      (hfresh : ∀ k, w'.waits.get k = none → w'.progress k = .none) : w'.Kept := by
    refine ⟨⟨fun k wt hwt => ?_, hfresh⟩, ?_, by rw [hst]; rfl⟩
    · rw [waits, hst] at hwt
      cases hwt
    · rintro ⟨s, hs⟩
      rw [hst] at hs
      cases hs
  have hsession (dumping : Bool) (s : Session)
      (hst : w.state = if dumping then .dumping s else .updating s) : (w.next e).Kept := by
    rcases next_shifts dumping hst hlaw horder with ⟨id, hterminated⟩ | hshifts
    · exact hempty _ id hterminated (w.fresh_next e)
    · have hwaits : w.waits = s.peerStates.waits := by
        rw [waits, hst]
        cases dumping <;> rfl
      have hshift : Session.Shift w.waits e.msg (w.state.heard e) (w.next e).waits := by
        rw [hwaits]
        exact hshifts.shift
      refine ⟨⟨fun k wt hwt => flagged_shift h.sound hregular hshift hwt, w.fresh_next e⟩, ?_, ?_⟩
      · rintro ⟨s', hs'⟩
        cases dumping with
        | true => exact follows_shift h.sound (h.follows ⟨s, hst⟩) hregular hshift
        | false =>
          have hupdating := hshifts.moves.mpr (.inl rfl)
          rw [hs'] at hupdating
          cases hupdating
      · have hin := hshifts.inSession
        cases hnext : (w.next e).state with
        | initiating id =>
          rw [hnext] at hin
          cases hin
        | dumping s | updating s | terminated id => rfl
  cases hst : w.state with
  | initiating id =>
    have hin := h.initiated
    rw [hst] at hin
    cases hin
  | dumping s => exact hsession true s hst
  | updating s => exact hsession false s hst
  | terminated id =>
    apply hempty _ id _ (w.fresh_next e)
    change w.state.next e = _
    rw [hst]
    rfl

theorem kept_start {s : Session} (hs : s.peerStates = .empty) : (start s).Kept := by
  have hnone (k : PerPeerHeader) : (start s).waits.get k = none := by
    rw [waits, start]
    change s.peerStates.waits.get k = none
    rw [hs]
    rfl
  refine ⟨⟨fun k wt hwt => ?_, fun _ _ => rfl⟩, fun _ k wt hwt => ?_, rfl⟩
  · rw [hnone] at hwt
    cases hwt
  · rw [hnone] at hwt
    cases hwt

/-- Along every run of regular messages the dump ends by the rule, and the waiting lists carry
the flags of their headers. -/
theorem dump_follows_rule {s : Session} (hs : s.peerStates = .empty) (es : List Input)
    (hlaw : ∀ e ∈ es, e.Lawful)
    (horder : ∀ pre e, pre ++ [e] <+: es → e.Ordered (run next (start s) pre).state)
    (hregular : ∀ pre e, pre ++ [e] <+: es → (run next (start s) pre).Regular e) :
    (∀ pre e, pre ++ [e] <+: es → (run next (start s) pre).Rule e) ∧
      ∀ pre, pre <+: es → (run next (start s) pre).Flagged := by
  have hlawful {pre : List Input} {e : Input} (hpre : pre ++ [e] <+: es) : e.Lawful :=
    hlaw e (hpre.subset (mem_append_right _ mem_cons_self))
  have hkept : ∀ pre, pre <+: es → (run next (start s) pre).Kept := by
    refine run_invariant next (fun _ w => w.Kept) (start s) es (kept_start hs) ?_
    intro pre e hpre h
    exact kept_next h (hregular pre e hpre) (hlawful hpre) (horder pre e hpre)
  constructor
  · intro pre e hpre
    have h := hkept pre ((prefix_append pre [e]).trans hpre)
    exact rule_of_sound h.sound h.follows (hregular pre e hpre) (hlawful hpre) (horder pre e hpre)
  · intro pre hpre
    exact flagged_of_sound (hkept pre hpre).sound

end Watch

/-! ## A copied waiting list -/

namespace CopiedWait

def prePolicy : PerPeerHeader := .ofPeer

def postPolicy : PerPeerHeader := { prePolicy with isPostPolicy := true }

/-- The peer is able to send End-of-RIB. -/
def up : PeerUp := ⟨prePolicy, ⟨true, []⟩, true, [], [], none⟩

def announcement : BgpUpdate :=
  ⟨none, .ok [.ipv4Unicast (.slash8 10) .emptyPathAttributes], .ok [], .ok [.ipv4Unicast]⟩

def endOfRib : BgpUpdate := ⟨some .ipv4Unicast, .ok [], .ok [], .ok []⟩

def emptyUpdate : BgpUpdate := ⟨none, .ok [], .ok [], .ok []⟩

/-- The register when the router is known, and when its peer is. -/
def router : Register := Register.new.register.2.updateInfo 1 { ingressType := some .bmp }
def withPeer : Register := router.register.2.updateInfo 2 (up.query 1)

def input (reg : Register) (msg : BmpMsg) : Input := ⟨reg, ⟨[1, 2], [prePolicy, postPolicy]⟩, msg⟩

def monitor (pph : PerPeerHeader) (update : BgpUpdate) : Input :=
  input withPeer (.routeMonitoring pph fun _ => .ok update)

def session : Session := ⟨1, "", "", [], .empty⟩

/-- The peer announces a route; then there is a message under its post-policy header. -/
def announced : List Input := [input router (.peerUpNotification up), monitor prePolicy announcement]
def copied : List Input := announced ++ [monitor postPolicy emptyUpdate]

theorem done_of_headers {w : Watch}
    (hget : ∀ k, k ≠ prePolicy → k ≠ postPolicy → w.state.peerStates.get k = none)
    (hpre : (w.progress prePolicy).announced ⊆ (w.progress prePolicy).ended)
    (hpost : (w.progress postPolicy).announced ⊆ (w.progress postPolicy).ended) : w.Done := by
  intro k st hst _ f hf
  by_cases hk : k = prePolicy
  · subst hk
    exact hpre hf
  · by_cases hk' : k = postPolicy
    · subst hk'
      exact hpost hf
    · rw [hget k hk hk'] at hst
      cases hst

/-- The peer sends its End-of-RIB, and the session goes on waiting for the copy. -/
theorem stuck : ¬ (run Watch.next (.start session) copied).Rule (monitor prePolicy endOfRib) ∧
    ¬ (run Watch.next (.start session) copied).Flagged := by
  constructor
  · intro hrule
    have hdone : ((run Watch.next (.start session) copied).next
        (monitor prePolicy endOfRib)).Done := by
      apply done_of_headers
      · intro k hpre hpost
        exact (get_insert_of_ne _ hpre).trans ((get_insert_of_ne _ hpost).trans
          ((get_insert_of_ne _ hpre).trans (get_insert_of_ne _ hpre)))
      · decide
      · decide
    have hmoves := (hrule ⟨_, rfl⟩).mpr ⟨rfl, hdone, .inl rfl⟩
    cases hmoves
  · intro hflagged
    have hflags := hflagged postPolicy _ rfl (EoRProperties.new prePolicy .ipv4Unicast) (by decide)
    cases hflags.1.1

/-- Without the message in between. -/
def plain : List Input := announced ++ [monitor prePolicy endOfRib]

theorem covers_headers {peers : PeerStates} (h : ∀ k, k ≠ prePolicy → peers.get k = none) :
    peers.Covers [prePolicy, postPolicy] := by
  refine ⟨by decide, fun k hk => ?_⟩
  by_contra hmem
  rw [mem_pair, not_or] at hmem
  rw [h k hmem.1] at hk
  cases hk

theorem ordered_plain : ∀ pre e, pre ++ [e] <+: plain →
    e.Ordered (run Watch.next (.start session) pre).state := by
  refine (steps_cons Watch.next (P := fun w e => e.Ordered w.state)).mpr ⟨?_, ?_⟩
  · exact ⟨covers_headers fun _ _ => rfl, nofun⟩
  refine (steps_cons Watch.next (P := fun w e => e.Ordered w.state)).mpr ⟨?_, ?_⟩
  · refine ⟨covers_headers fun k hk => get_insert_of_ne _ hk, ?_⟩
    rintro pph ⟨⟩
    decide
  refine (steps_cons Watch.next (P := fun w e => e.Ordered w.state)).mpr ⟨?_, ?_⟩
  · refine ⟨covers_headers fun k hk =>
      (get_insert_of_ne _ hk).trans (get_insert_of_ne _ hk), ?_⟩
    rintro pph ⟨⟩
    decide
  · exact steps_nil Watch.next (P := fun w e => e.Ordered w.state) _

theorem regular_plain : ∀ pre e, pre ++ [e] <+: plain →
    (run Watch.next (.start session) pre).Regular e := by
  refine (steps_cons Watch.next).mpr ⟨⟨nofun, ?_, nofun⟩, ?_⟩
  · intro pph update hheard
    change none = some (pph, update) at hheard
    cases hheard
  refine (steps_cons Watch.next).mpr ⟨⟨?_, ?_, nofun⟩, ?_⟩
  · rintro pph ⟨⟩ hnone
    cases hnone
  · rintro pph update ⟨⟩ _ _
    exact .inr ⟨.ipv4Unicast, by decide, rfl, by decide⟩
  refine (steps_cons Watch.next).mpr ⟨⟨?_, ?_, nofun⟩, ?_⟩
  · rintro pph ⟨⟩ hnone
    cases hnone
  · rintro pph update ⟨⟩ heor _
    cases heor
  · exact steps_nil Watch.next _

theorem lawful_plain : ∀ e ∈ plain, e.Lawful := by
  intro e he pph bgpUpdate hmsg config update hupdate heor
  simp only [plain, announced, cons_append, nil_append, mem_cons, not_mem_nil, or_false] at he
  rcases he with rfl | rfl | rfl
  · cases hmsg
  · cases hmsg
    cases hupdate
    cases heor
  · cases hmsg
    cases hupdate
    rfl

/-- The End-of-RIB ends the dump. -/
theorem plain_follows_rule : (run Watch.next (.start session) plain).state.isUpdating = true ∧
    (∀ pre e, pre ++ [e] <+: plain → (run Watch.next (.start session) pre).Rule e) ∧
      ∀ pre, pre <+: plain → (run Watch.next (.start session) pre).Flagged :=
  ⟨rfl, Watch.dump_follows_rule rfl plain lawful_plain ordered_plain regular_plain⟩

end CopiedWait

end Rotonda.BmpIn
