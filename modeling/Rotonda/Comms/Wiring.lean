import Rotonda.Comms.Gate

/-!
How the gates are wired, in every run: which channels are open, who holds which sender, and what the
commands in the queues say about their senders.

* `Gates.Wired`: the invariant; channels and clones are numbered by the ids they were made with;
* `Gates.Wired.step`: every step keeps it.
-/

namespace Rotonda.Comms

open Lib List Option Nat Channels

namespace Gates

variable {κ : Type} {g g' : Gates κ}
variable {c : ChannelId} {cmd : GateCommand κ}

/-- The commands that a root forwards, as its clones get them. -/
def isForwarded : GateCommand κ → Bool
  | .followSubscribe .. | .followUnsubscribe .. | .followReconfigure .. | .reportLinks .. |
    .terminate => true
  | _ => false

/-- What is known of the ids that a command names, and of the time it comes: clones are told to
terminate only when the root was. -/
def Means (g : Gates κ) (c : ChannelId) : GateCommand κ → Prop
  | .attachClone cloneId tx => tx = cloneId ∧ cloneId < g.fresh
  | .detachClone cloneId => cloneId < g.fresh ∧ g.clones.get cloneId = none
  | .terminate => g.clones.get c ≠ none → (.root, .terminated) ∈ g.returned
  | _ => True

structure Fits (g : Gates κ) (c : ChannelId) (cmd : GateCommand κ) : Prop where
  forwarded (h : g.clones.get c ≠ none) : isForwarded cmd = true
  content : g.Means c cmd

section Wired

variable (fresh : Nat) (closed : ChannelId → Bool) (clones : Dict Uuid CloneGate)

/-- The channel that the root receives from is open, it is no clone's, and no gate that is still to
be taken over comes with it.  The senders of clones are those of their own channels, and the root
has that of every clone whose request it handled. -/
structure RootWired (newGates : List ChannelId) (attached : List Uuid) (root : RootGate) : Prop where
  commandSender : root.commandSender < fresh ∧ clones.get root.commandSender = none
  commands : root.commands < fresh
  isOpen : closed root.commands = false
  notNew : root.commands ∉ newGates
  notClone : clones.get root.commands = none
  senders {id : Uuid} {tx : ChannelId} (h : root.cloneSenders.get id = some tx) :
    tx = id ∧ id < fresh
  attached {id : Uuid} (h : id ∈ attached) (hid : clones.get id ≠ none) :
    root.cloneSenders.get id = some id

structure NewGateWired (c : ChannelId) : Prop where
  lt : c < fresh
  isOpen : closed c = false
  notClone : clones.get c = none

structure CloneWired (held : List ChannelId) (id : Uuid) (gate : CloneGate) : Prop where
  commands : gate.commands = id
  parent : gate.parentCommandSender < fresh ∧ clones.get gate.parentCommandSender = none
  lt : id < fresh
  isOpen : closed id = false
  notHeld : id ∉ held

structure AttachingWired (a : Attaching) : Prop where
  tx : a.tx = a.cloneId
  lt : a.cloneId < fresh
  parent : a.parentCommandSender < fresh ∧ clones.get a.parentCommandSender = none

end Wired

structure Wired (g : Gates κ) : Prop where
  unused {c : ChannelId} (h : g.fresh ≤ c) : g.channels.queue c = [] ∧ g.channels.closed c = false
  root {root : RootGate} (h : g.root = some root) :
    RootWired g.fresh g.channels.closed g.clones g.newGates g.attached root
  newGates {c : ChannelId} (h : c ∈ g.newGates) : NewGateWired g.fresh g.channels.closed g.clones c
  clones {id : Uuid} {gate : CloneGate} (h : g.clones.get id = some gate) :
    CloneWired g.fresh g.channels.closed g.clones g.held id gate
  attaching {a : Attaching} (h : a ∈ g.attaching) : AttachingWired g.fresh g.clones a
  held {c : ChannelId} (h : c ∈ g.held) : c < g.fresh
  attached {id : Uuid} (h : id ∈ g.attached) : id < g.fresh
  commands {c : ChannelId} {cmd : GateCommand κ} (h : cmd ∈ g.channels.queue c) : g.Fits c cmd

theorem wired_new : (new : Gates κ).Wired := by
  refine ⟨fun _ => ⟨rfl, rfl⟩, fun h => ?_, nofun, nofun, nofun, ?_, nofun, nofun⟩
  · cases h
    exact ⟨⟨Nat.one_pos, rfl⟩, Nat.one_pos, rfl, by simp [new], rfl, nofun, nofun⟩
  · intro c h
    rw [mem_singleton.mp h]
    exact Nat.one_pos

/-! ## Parts of steps -/

/-- The gates that have been made and dropped stay so, and what was returned stays. -/
structure Later (g g' : Gates κ) : Prop where
  fresh : g.fresh ≤ g'.fresh
  clones {id : Uuid} (h : g.clones.get id = none) (hlt : id < g.fresh) : g'.clones.get id = none
  returned {r : Party × Outcome κ} (h : r ∈ g.returned) : r ∈ g'.returned

theorem Fits.later (h : g.Fits c cmd) (hc : c < g.fresh) (hlater : Later g g') : g'.Fits c cmd := by
  have hlive (hclone : g'.clones.get c ≠ none) : g.clones.get c ≠ none := by
    intro hnone
    exact hclone (hlater.clones hnone hc)
  refine ⟨fun hclone => h.forwarded (hlive hclone), ?_⟩
  have hmeans := h.content
  cases cmd with
  | attachClone cloneId tx => exact ⟨hmeans.1, lt_of_lt_of_le hmeans.2 hlater.fresh⟩
  | detachClone cloneId =>
    exact ⟨lt_of_lt_of_le hmeans.1 hlater.fresh, hlater.clones hmeans.2 hmeans.1⟩
  | terminate => exact fun hclone => hlater.returned (hmeans (hlive hclone))
  | _ => trivial

section Parts

variable {root : RootGate} {channels : Channels (GateCommand κ)}

section

variable (h : g.Wired)
include h

theorem Wired.lt_of_mem (hmem : cmd ∈ g.channels.queue c) : c < g.fresh := by
  by_contra hc
  rw [(h.unused (Nat.le_of_not_lt hc)).1] at hmem
  cases hmem

/-- A command that stays in its queue. -/
theorem Wired.fits_later (hmem : cmd ∈ g.channels.queue c) (hlater : Later g g') : g'.Fits c cmd :=
  (h.commands hmem).later (h.lt_of_mem hmem) hlater

/-- Commands are taken from the queues, or put into queues of channels that exist. -/
theorem Wired.withChannels (hclosed : channels.closed = g.channels.closed)
    (hmem : ∀ {c cmd}, cmd ∈ channels.queue c →
      cmd ∈ g.channels.queue c ∨ (c < g.fresh ∧ g.Fits c cmd)) :
    Wired { g with channels := channels } := by
  refine ⟨fun {c} hc => ⟨?_, ?_⟩, ?_, ?_, ?_, h.attaching, h.held, h.attached, fun hcmd => ?_⟩
  · by_contra hne
    obtain ⟨cmd, hcmd⟩ := exists_mem_of_ne_nil _ hne
    rcases hmem hcmd with hold | ⟨hlt, -⟩
    · exact absurd (h.lt_of_mem hold) (not_lt.mpr hc)
    · exact absurd hlt (not_lt.mpr hc)
  · simpa only [hclosed] using (h.unused hc).2
  · intro root hroot
    simpa only [hclosed] using h.root hroot
  · intro c hc
    simpa only [hclosed] using h.newGates hc
  · intro id gate hid
    simpa only [hclosed] using h.clones hid
  · rcases hmem hcmd with hold | ⟨hlt, hfits⟩
    · exact h.fits_later hold ⟨le_refl _, fun h _ => h, fun h => h⟩
    · exact hfits.later hlt ⟨le_refl _, fun h _ => h, fun h => h⟩

theorem Wired.pop (c : ChannelId) : Wired { g with channels := g.channels.pop c } :=
  h.withChannels rfl fun hmem => .inl (mem_of_mem_pop hmem)

theorem Wired.send {cap : Nat} (hc : c < g.fresh) (hfits : g.Fits c cmd)
    (hsend : g.channels.send cap c cmd = some channels) :
    Wired { g with channels := channels } := by
  rcases send_eq_some hsend with ⟨-, rfl⟩ | ⟨-, rfl⟩
  · exact h
  · refine h.withChannels rfl fun hmem => ?_
    rcases mem_queue_push.mp hmem with hmem | ⟨rfl, rfl⟩
    · exact .inl hmem
    · exact .inr ⟨hc, hfits⟩

/-- The root changes. -/
theorem Wired.withRoot
    (hroot : RootWired g.fresh g.channels.closed g.clones g.newGates g.attached root) :
    Wired { g with root := some root } := by
  refine ⟨h.unused, fun heq => ?_, h.newGates, h.clones, h.attaching, h.held, h.attached,
    fun hcmd => ?_⟩
  · cases heq
    exact hroot
  · exact h.fits_later hcmd ⟨le_refl _, fun h _ => h, fun h => h⟩

/-- The maps of the links change. -/
theorem Wired.withMaps (updates suspended : FrimMap Uuid UpdateSender)
    (links : Dict Uuid (UpdateSender × Bool)) :
    Wired { g with
      updates := updates
      suspended := suspended
      links := links } := by
  refine ⟨h.unused, h.root, h.newGates, h.clones, h.attaching, h.held, h.attached, fun hcmd => ?_⟩
  exact h.fits_later hcmd ⟨le_refl _, fun h _ => h, fun h => h⟩

theorem Wired.return (r : Party × Outcome κ) : Wired { g with returned := r :: g.returned } := by
  refine ⟨h.unused, h.root, h.newGates, h.clones, h.attaching, h.held, h.attached, fun hcmd => ?_⟩
  exact h.fits_later hcmd ⟨le_refl _, fun h _ => h, fun h => mem_cons_of_mem _ h⟩

/-- An id is drawn. -/
theorem Wired.tick : Wired { g with fresh := g.fresh + 1 } := by
  refine ⟨fun hc => h.unused (le_of_succ_le hc), fun hroot => ?_, fun hc => ?_, fun hid => ?_,
    fun ha => ?_, fun hc => lt_succ_of_lt (h.held hc),
    fun hid => lt_succ_of_lt (h.attached hid), fun hcmd => ?_⟩
  · have hr := h.root hroot
    exact ⟨⟨lt_succ_of_lt hr.commandSender.1, hr.commandSender.2⟩, lt_succ_of_lt hr.commands, hr.isOpen,
      hr.notNew, hr.notClone, fun hget => ⟨(hr.senders hget).1, lt_succ_of_lt (hr.senders hget).2⟩,
      hr.attached⟩
  · have hn := h.newGates hc
    exact ⟨lt_succ_of_lt hn.lt, hn.isOpen, hn.notClone⟩
  · have hcl := h.clones hid
    exact ⟨hcl.commands, ⟨lt_succ_of_lt hcl.parent.1, hcl.parent.2⟩, lt_succ_of_lt hcl.lt, hcl.isOpen,
      hcl.notHeld⟩
  · have hat := h.attaching ha
    exact ⟨hat.tx, lt_succ_of_lt hat.lt, lt_succ_of_lt hat.parent.1, hat.parent.2⟩
  · exact h.fits_later hcmd ⟨le_succ _, fun h _ => h, fun h => h⟩

end

/-- Forwarding, by a root that may differ from the one before. -/
theorem Wired.notify (h : Wired { g with root := some root })
    (hfits : ∀ id c, root.cloneSenders.get id = some c → Fits { g with root := some root } c cmd) :
    Wired (g.notifyClones root cmd) := by
  obtain ⟨channels, senders, heq, hnotified⟩ := g.notifyClones_spec root cmd
  have hr := h.root rfl
  rw [heq]
  have hchannels : Wired { g with
      channels := channels
      root := some root } := by
    refine h.withChannels hnotified.closed fun hmem => ?_
    rcases hnotified.mem hmem with hmem | ⟨rfl, id, hid⟩
    · exact .inl hmem
    · obtain ⟨rfl, hlt⟩ := hr.senders hid
      exact .inr ⟨hlt, (hfits _ _ hid)⟩
  refine hchannels.withRoot ⟨hr.commandSender, hr.commands, ?_, hr.notNew, hr.notClone,
    fun hget => hr.senders (hnotified.known hget), fun hid hlive => ?_⟩
  · exact (congrFun hnotified.closed _).trans hr.isOpen
  · obtain ⟨gate, hgate⟩ := ne_none_iff_exists'.mp hlive
    exact hnotified.retained (hr.attached hid hlive) (h.clones hgate).isOpen

end Parts

/-! ## Steps -/

section Steps

variable {root : RootGate} {status : GateStatus κ}
variable {id : Uuid} {gate : CloneGate} {r : Gates κ × Outcome κ} {self : Party}

theorem Wired.ne_commands (h : g.Wired) (hroot : g.root = some root)
    (hid : g.clones.get id = some gate) : id ≠ root.commands := by
  rintro rfl
  rw [(h.root hroot).notClone] at hid
  cases hid

theorem Wired.conclude (self : Party) (status : GateStatus κ)
    (h : r.1.Wired) : (conclude self status r).Wired := by
  unfold Gates.conclude
  split
  · split
    · exact h
    · exact h.return _
  · exact h.return _

theorem Wired.suspension (h : g.Wired) (slot : Uuid) (suspend : Bool) :
    (g.suspension slot suspend).Wired := by
  obtain ⟨updates, suspended, heq, -⟩ := g.suspension_spec slot suspend
  rw [heq]
  exact h.withMaps ..

/-- A subscription that is answered is forwarded; one that is not leaves nothing. -/
theorem subscribe_eq (g : Gates κ) (root : RootGate) (suspended response : Bool)
    (directUpdate : Option Uuid) :
    ∃ updates suspended' links slot sender,
      let g' := { g with
        fresh := g.fresh + 1
        updates := updates
        suspended := suspended'
        links := links }
      g.subscribe root suspended response directUpdate = g' ∨
        g.subscribe root suspended response directUpdate =
          g'.notifyClones root (.followSubscribe slot sender) := by
  unfold subscribe
  dsimp only
  cases suspended <;> cases response
  · exact ⟨_, _, g.links, 0, ⟨none, none⟩, .inl rfl⟩
  · exact ⟨_, _, _, _, _, .inr rfl⟩
  · exact ⟨_, _, g.links, 0, ⟨none, none⟩, .inl rfl⟩
  · exact ⟨_, _, _, _, _, .inr rfl⟩

section

variable (h : g.Wired) (hroot : g.root = some root)
include h hroot

theorem Wired.subscribe (suspended response : Bool) (directUpdate : Option Uuid) :
    (g.subscribe root suspended response directUpdate).Wired := by
  obtain ⟨updates, suspended', links, slot, sender, heq⟩ :=
    g.subscribe_eq root suspended response directUpdate
  have hmaps := h.tick.withMaps updates suspended' links
  rcases heq with heq | heq
  · rw [heq]
    exact hmaps
  · rw [heq]
    refine Wired.notify ?_ fun _ _ _ => ⟨fun _ => rfl, trivial⟩
    exact hmaps.withRoot (hmaps.root hroot)

theorem Wired.unsubscribe (slot : Uuid) : (g.unsubscribe root slot).Wired := by
  have hmaps := h.withMaps (g.updates.remove slot).1 (g.suspended.remove slot).1
    (g.links.erase slot)
  exact (hmaps.withRoot (hmaps.root hroot)).notify fun _ _ _ => ⟨fun _ => rfl, trivial⟩

variable {newGate : NewGate}

/-- The root takes over the channel of a new gate, which is open; the old one is closed. -/
theorem Wired.takeOver (hnew : newGate.commands ∈ g.newGates) :
    Wired { g with
      channels := g.channels.close root.commands
      newGates := g.newGates.filter fun c => c ≠ newGate.commands
      updates := .default
      links := .empty
      root := some { root with commands := newGate.commands } } := by
  have hr := h.root hroot
  have hopen {c : ChannelId} (hc : g.channels.closed c = false) (hne : c ≠ root.commands) :
      (g.channels.close root.commands).closed c = false :=
    (closed_close_of_ne hne).trans hc
  refine ⟨fun {c} hc => ?_, fun heq => ?_, fun {c} hc => ?_, fun {id gate} hid => ?_, h.attaching,
    h.held, h.attached, fun hcmd => ?_⟩
  · refine ⟨(h.unused hc).1, hopen (h.unused hc).2 ?_⟩
    rintro rfl
    exact absurd hr.commands (not_lt.mpr hc)
  · cases heq
    have hn := h.newGates hnew
    refine ⟨hr.commandSender, hn.lt, hopen hn.isOpen ?_, ?_, hn.notClone, hr.senders, hr.attached⟩
    · intro heq
      exact hr.notNew (heq ▸ hnew)
    · intro hmem
      simpa using (mem_filter.mp hmem).2
  · have hmem := (mem_filter.mp hc).1
    have hn := h.newGates hmem
    refine ⟨hn.lt, hopen hn.isOpen ?_, hn.notClone⟩
    rintro rfl
    exact hr.notNew hmem
  · have hcl := h.clones hid
    refine ⟨hcl.commands, hcl.parent, hcl.lt, hopen hcl.isOpen ?_, hcl.notHeld⟩
    rintro rfl
    change g.clones.get root.commands = some gate at hid
    rw [hr.notClone] at hid
    cases hid
  · exact h.fits_later hcmd ⟨le_refl _, fun h _ => h, fun h => h⟩

theorem Wired.reconfigure (newConfig : κ) (hnew : newGate.commands ∈ g.newGates) :
    (g.reconfigure root newConfig newGate).Wired :=
  (h.takeOver hroot hnew).notify fun _ _ _ => ⟨fun _ => rfl, trivial⟩

theorem Wired.attachClone {tx : ChannelId}
    (hid : tx = id ∧ id < g.fresh) : (g.attachClone root id tx).Wired := by
  obtain ⟨rfl, hlt⟩ := hid
  have hr := h.root hroot
  refine ⟨h.unused, fun heq => ?_, h.newGates, h.clones, h.attaching, h.held, fun hid => ?_,
    fun hcmd => ?_⟩
  · cases heq
    refine ⟨hr.commandSender, hr.commands, hr.isOpen, hr.notNew, hr.notClone, fun hget => ?_,
      fun {id} hid hlive => ?_⟩
    · rw [FrimMap.get_insert] at hget
      split at hget
      next heq =>
        cases hget
        exact ⟨heq.symm, heq ▸ hlt⟩
      · exact hr.senders hget
    · rw [FrimMap.get_insert]
      split
      next heq => rw [heq]
      next hne => exact hr.attached ((mem_cons.mp hid).resolve_left hne) hlive
  · rcases mem_cons.mp hid with rfl | hid
    · exact hlt
    · exact h.attached hid
  · exact h.fits_later hcmd ⟨le_refl _, fun h _ => h, fun h => h⟩

theorem Wired.detachClone (hid : g.clones.get id = none) : (g.detachClone root id).Wired := by
  have hr := h.root hroot
  refine h.withRoot ⟨hr.commandSender, hr.commands, hr.isOpen, hr.notNew, hr.notClone,
    fun hget => ?_, fun {id'} hid' hlive => ?_⟩
  · rw [FrimMap.get_remove] at hget
    split at hget
    · cases hget
    · exact hr.senders hget
  · rw [FrimMap.get_remove, if_neg]
    · exact hr.attached hid' hlive
    · rintro rfl
      exact hlive hid

/-- The root handles a command.  Its own termination is in the history once the clones are told. -/
theorem Wired.handleRoot (hfits : g.Fits root.commands cmd) (hnew : g.available cmd = true) :
    (Gates.conclude .root status (g.handleRoot root cmd)).Wired := by
  have hself := h.withRoot (h.root hroot)
  cases cmd with
  | attachClone id tx => exact (h.attachClone hroot hfits.content).conclude _ _
  | detachClone id => exact (h.detachClone hroot hfits.content.2).conclude _ _
  | suspension slot suspend => exact (h.suspension slot suspend).conclude _ _
  | subscribe suspended response directUpdate => exact (h.subscribe hroot ..).conclude _ _
  | unsubscribe slot => exact (h.unsubscribe hroot slot).conclude _ _
  | followSubscribe | followUnsubscribe | followReconfigure => exact h.return _
  | reconfigure newConfig newGate =>
    exact (h.reconfigure hroot newConfig (by simpa [available] using hnew)).return _
  | reportLinks report =>
    have hnotify : (g.notifyClones root (.reportLinks report)).Wired :=
      hself.notify fun _ _ _ => ⟨fun _ => rfl, trivial⟩
    exact hnotify.return _
  | trigger => exact h.conclude _ _
  | terminate =>
    have hreturn := h.return (.root, .terminated)
    exact (hreturn.withRoot (hreturn.root hroot)).notify fun _ _ _ =>
      ⟨fun _ => rfl, fun _ => mem_cons_self⟩

end

section

variable (h : g.Wired)
include h

/-- A clone only gets commands that it supports. -/
theorem Wired.handleClone (hcmd : isForwarded cmd = true)
    (hr : g.handleClone id gate cmd = some r) : (Gates.conclude (.clone id) status r).Wired := by
  cases cmd with
  | followSubscribe | followUnsubscribe =>
    cases hr
    exact (h.withMaps ..).conclude _ _
  | followReconfigure | reportLinks | terminate =>
    cases hr
    exact h.return _
  | _ => cases hcmd

/-- The root passes on to a clone what a clone supports. -/
theorem Wired.forwarded_of_queue (hgate : g.clones.get id = some gate) {rest : List (GateCommand κ)}
    (hqueue : g.channels.queue gate.commands = cmd :: rest) : isForwarded cmd = true := by
  refine (h.commands (hqueue ▸ mem_cons_self)).forwarded ?_
  rw [(h.clones hgate).commands, hgate]
  exact some_ne_none _

theorem Wired.process (hstep : g.process status self = some g') : g'.Wired := by
  cases self with
  | root =>
    obtain ⟨root, hroot, ⟨cmd, rest, hqueue, havailable, rfl⟩ | ⟨-, rfl⟩⟩ := processRoot_cases hstep
    · have hfits : g.Fits root.commands cmd := h.commands (hqueue ▸ mem_cons_self)
      refine (h.pop root.commands).handleRoot hroot ?_ ?_
      · exact hfits.later (h.root hroot).commands ⟨le_refl _, fun h _ => h, fun h => h⟩
      · cases cmd <;> exact havailable
    · exact h.return _
  | clone id =>
    obtain ⟨gate, hgate, ⟨cmd, rest, r, hqueue, hr, rfl⟩ | ⟨-, rfl⟩⟩ := processClone_cases hstep
    · exact (h.pop gate.commands).handleClone (h.forwarded_of_queue hgate hqueue) hr
    · exact h.return _

theorem Wired.newGate : g.newGate.Wired := by
  have htick := h.tick
  have hfree : g.clones.get g.fresh = none := by
    by_contra hne
    obtain ⟨gate, hgate⟩ := ne_none_iff_exists'.mp hne
    exact absurd (h.clones hgate).lt (lt_irrefl _)
  refine ⟨htick.unused, fun hroot => ?_, fun {c} hc => ?_, fun {id gate} hid => ?_, htick.attaching,
    fun {c} hc => ?_, htick.attached, fun hcmd => ?_⟩
  · have hr := htick.root hroot
    refine ⟨hr.commandSender, hr.commands, hr.isOpen, fun hmem => ?_, hr.notClone, hr.senders,
      hr.attached⟩
    rcases mem_cons.mp hmem with heq | hmem
    · exact absurd (h.root hroot).commands (by rw [heq]; exact lt_irrefl _)
    · exact hr.notNew hmem
  · rcases mem_cons.mp hc with rfl | hc
    · exact ⟨lt_succ_self _, (h.unused (le_refl _)).2, hfree⟩
    · exact htick.newGates hc
  · have hcl := htick.clones hid
    refine ⟨hcl.commands, hcl.parent, hcl.lt, hcl.isOpen, fun hmem => ?_⟩
    rcases mem_cons.mp hmem with rfl | hmem
    · change g.clones.get g.fresh = some gate at hid
      rw [hfree] at hid
      cases hid
    · exact hcl.notHeld hmem
  · rcases mem_cons.mp hc with rfl | hc
    · exact lt_succ_self _
    · exact htick.held hc
  · exact htick.fits_later hcmd ⟨le_refl _, fun h _ => h, fun h => h⟩

theorem Wired.release (p : ChannelId → Bool) : Wired { g with held := g.held.filter p } := by
  refine ⟨h.unused, h.root, h.newGates, fun hid => ?_, h.attaching,
    fun hc => h.held (mem_of_mem_filter hc), h.attached, fun hcmd => ?_⟩
  · have hcl := h.clones hid
    exact ⟨hcl.commands, hcl.parent, hcl.lt, hcl.isOpen,
      fun hmem => hcl.notHeld (mem_of_mem_filter hmem)⟩
  · exact h.fits_later hcmd ⟨le_refl _, fun h _ => h, fun h => h⟩

theorem Wired.external (hstep : g.send c cmd = some g') : g'.Wired := by
  unfold Gates.send at hstep
  split at hstep
  next hmay =>
    obtain ⟨hheld, hmay⟩ := (Bool.and_eq_true ..).mp hmay
    obtain ⟨channels, hsend, rfl⟩ := map_eq_some_iff.mp hstep
    replace hheld : c ∈ g.held := by simpa using hheld
    have hclone : ¬ g.clones.get c ≠ none := by
      intro hne
      obtain ⟨gate, hgate⟩ := ne_none_iff_exists'.mp hne
      exact (h.clones hgate).notHeld hheld
    refine h.send (h.held hheld) ⟨fun hne => absurd hne hclone, ?_⟩ hsend
    cases cmd with
    | terminate => exact fun hne => absurd hne hclone
    | attachClone | detachClone => cases hmay
    | _ => trivial
  · cases hstep

/-- A clone of the root, or of a clone, gets the sender of the gate it is made from. -/
theorem Wired.parentSender
    (hc : g.parentSender self = some c) : c < g.fresh ∧ g.clones.get c = none := by
  cases self with
  | root =>
    obtain ⟨root, hroot, rfl⟩ := map_eq_some_iff.mp hc
    exact (h.root hroot).commandSender
  | clone id =>
    obtain ⟨gate, hgate, rfl⟩ := map_eq_some_iff.mp hc
    exact (h.clones hgate).parent

theorem Wired.clone (hstep : g.clone self = some g') : g'.Wired := by
  obtain ⟨parent, hparent, rfl⟩ := map_eq_some_iff.mp hstep
  obtain ⟨hparent, hgate⟩ := h.parentSender hparent
  have htick := h.tick
  have hget {c : ChannelId} (hc : c < g.fresh) :
      (g.clones.insert g.fresh ⟨parent, g.fresh⟩).get c = g.clones.get c :=
    Dict.get_insert_of_ne _ (Nat.ne_of_lt hc)
  refine ⟨htick.unused, fun hroot => ?_, fun hc => ?_, fun {id gate} hid => ?_, fun {a} ha => ?_,
    htick.held, htick.attached, fun hcmd => ?_⟩
  · have hr := htick.root hroot
    have hlt := (h.root hroot)
    refine ⟨⟨hr.commandSender.1, (hget hlt.commandSender.1).trans hr.commandSender.2⟩, hr.commands,
      hr.isOpen, hr.notNew, (hget hlt.commands).trans hr.notClone, hr.senders,
      fun hid hlive => hr.attached hid ?_⟩
    rwa [hget (h.attached hid)] at hlive
  · have hn := htick.newGates hc
    exact ⟨hn.lt, hn.isOpen, (hget (h.newGates hc).lt).trans hn.notClone⟩
  · change (g.clones.insert g.fresh _).get id = some gate at hid
    rcases Dict.of_get_insert hid with ⟨rfl, rfl⟩ | ⟨_, hid⟩
    · refine ⟨rfl, ⟨lt_succ_of_lt hparent, (hget hparent).trans hgate⟩, lt_succ_self _,
        (h.unused (le_refl _)).2, fun hmem => ?_⟩
      exact absurd (h.held hmem) (lt_irrefl _)
    · have hcl := htick.clones hid
      exact ⟨hcl.commands, ⟨hcl.parent.1, (hget (h.clones hid).parent.1).trans hcl.parent.2⟩, hcl.lt,
        hcl.isOpen, hcl.notHeld⟩
  · rcases mem_append.mp ha with ha | ha
    · have hat := htick.attaching ha
      exact ⟨hat.tx, hat.lt, hat.parent.1, (hget (h.attaching ha).parent.1).trans hat.parent.2⟩
    · cases mem_singleton.mp ha
      exact ⟨rfl, lt_succ_self _, lt_succ_of_lt hparent, (hget hparent).trans hgate⟩
  · exact h.fits_later hcmd ⟨le_succ _, fun hnone hlt => (hget hlt).trans hnone, fun h => h⟩

theorem Wired.attach {n : Nat} (hstep : g.attach n = some g') : g'.Wired := by
  obtain ⟨a, ha, hstep⟩ := bind_eq_some_iff.mp hstep
  obtain ⟨channels, hsend, hstep⟩ := bind_eq_some_iff.mp hstep
  cases hstep
  have hat := h.attaching (mem_of_getElem? ha)
  have hfits : g.Fits a.parentCommandSender (.attachClone a.cloneId a.tx) :=
    ⟨fun hne => absurd hat.parent.2 hne, hat.tx, hat.lt⟩
  have hsent := h.send hat.parent.1 hfits hsend
  refine ⟨hsent.unused, hsent.root, hsent.newGates, hsent.clones,
    fun hmem => hsent.attaching (mem_of_mem_eraseIdx hmem), hsent.held, hsent.attached,
    fun hcmd => ?_⟩
  exact hsent.fits_later hcmd ⟨le_refl _, fun h _ => h, fun h => h⟩

/-- A gate goes and its channel is closed: `c` is the root's own, or that of one clone. -/
theorem Wired.close (hc : c < g.fresh) (hnew : c ∉ g.newGates) {root : Option RootGate}
    {clones : Dict Uuid CloneGate} (hroot : ∀ r, root = some r → g.root = some r ∧ r.commands ≠ c)
    (hclones : ∀ id gate, clones.get id = some gate → g.clones.get id = some gate ∧ id ≠ c) :
    Wired { g with
      channels := g.channels.close c
      root := root
      clones := clones } := by
  have hopen {c' : ChannelId} (hc' : g.channels.closed c' = false) (hne : c' ≠ c) :
      (g.channels.close c).closed c' = false :=
    (closed_close_of_ne hne).trans hc'
  have hnone {id : Uuid} (hid : g.clones.get id = none) : clones.get id = none := by
    by_contra hne
    obtain ⟨gate, hgate⟩ := ne_none_iff_exists'.mp hne
    rw [(hclones id gate hgate).1] at hid
    cases hid
  refine ⟨fun hle => ⟨(h.unused hle).1, hopen (h.unused hle).2 (ne_of_gt (lt_of_lt_of_le hc hle))⟩,
    fun {r} hr => ?_, fun hmem => ?_, fun {id gate} hid => ?_, fun ha => ?_, h.held, h.attached,
    fun hcmd => ?_⟩
  · obtain ⟨hold, hne⟩ := hroot r hr
    have hw := h.root hold
    refine ⟨⟨hw.commandSender.1, hnone hw.commandSender.2⟩, hw.commands, hopen hw.isOpen hne,
      hw.notNew, hnone hw.notClone, hw.senders, fun hid hlive => hw.attached hid ?_⟩
    exact fun h => hlive (hnone h)
  · have hn := h.newGates hmem
    refine ⟨hn.lt, hopen hn.isOpen ?_, hnone hn.notClone⟩
    rintro rfl
    exact hnew hmem
  · obtain ⟨hold, hne⟩ := hclones id gate hid
    have hcl := h.clones hold
    exact ⟨hcl.commands, ⟨hcl.parent.1, hnone hcl.parent.2⟩, hcl.lt, hopen hcl.isOpen hne,
      hcl.notHeld⟩
  · have hat := h.attaching ha
    exact ⟨hat.tx, hat.lt, hat.parent.1, hnone hat.parent.2⟩
  · exact h.fits_later hcmd ⟨le_refl _, fun h _ => hnone h, fun h => h⟩

theorem Wired.drop (hstep : g.drop self = some g') : g'.Wired := by
  cases self with
  | root =>
    obtain ⟨root, hroot, rfl⟩ := map_eq_some_iff.mp hstep
    have hr := h.root hroot
    refine h.close hr.commands hr.notNew (fun r hr => nomatch hr) fun id gate hid => ⟨hid, ?_⟩
    rintro rfl
    change g.clones.get root.commands = some gate at hid
    rw [hr.notClone] at hid
    cases hid
  | clone id =>
    obtain ⟨gate, hgate, hstep⟩ := bind_eq_some_iff.mp hstep
    obtain ⟨g₁, hdetach, hstep⟩ := bind_eq_some_iff.mp hstep
    obtain ⟨channels, hsend, rfl⟩ := map_eq_some_iff.mp hdetach
    cases hstep
    have hcl := h.clones hgate
    have hne {c : ChannelId} (hc : g.clones.get c = none) : c ≠ gate.commands := by
      rintro rfl
      rw [hcl.commands, hgate] at hc
      cases hc
    have hclosed : Wired { g with
        channels := g.channels.close gate.commands
        clones := g.clones.erase id } := by
      refine h.close (by rw [hcl.commands]; exact hcl.lt) ?_ (fun r hr => ⟨hr, ?_⟩)
        fun id' gate' hid' => ?_
      · intro hmem
        exact hne (h.newGates hmem).notClone rfl
      · exact hne (h.root hr).notClone
      · obtain ⟨hid, hid'⟩ := Dict.of_get_erase hid'
        exact ⟨hid', by rw [hcl.commands]; exact hid⟩
    -- the clone is gone when its message arrives
    rcases send_eq_some hsend with ⟨-, rfl⟩ | ⟨-, rfl⟩
    · exact hclosed
    · refine hclosed.withChannels rfl fun hmem => ?_
      rcases mem_queue_push.mp hmem with hmem | ⟨rfl, rfl⟩
      · exact .inl hmem
      · have hparent : (g.clones.erase id).get gate.parentCommandSender = none := by
          rw [Dict.get_erase, hcl.parent.2, ite_self]
        refine .inr ⟨hcl.parent.1, fun hlive => absurd hparent hlive, hcl.lt, ?_⟩
        change (g.clones.erase id).get id = none
        rw [Dict.get_erase, if_pos rfl]

theorem Wired.step {m : Move κ} (hstep : g.step m = some g') : g'.Wired := by
  cases m with
  | newGate =>
    cases hstep
    exact h.newGate
  | release c =>
    cases hstep
    exact h.release _
  | send c cmd => exact h.external hstep
  | clone self => exact h.clone hstep
  | attach n => exact h.attach hstep
  | process self status => exact h.process hstep
  | drop self => exact h.drop hstep

end

end Steps

end Gates

end Rotonda.Comms
