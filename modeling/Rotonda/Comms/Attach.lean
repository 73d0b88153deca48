import Rotonda.Comms.Wiring

/-!
Whether clones stay attached to their root.

When a root is reconfigured it receives from the channel of the new gate, but the sender that its
clones copy is still that of its first channel.

* `Tied`: while every request goes to the channel that the root receives from, every clone that is
  there has a sender somewhere;
* `Gates.forwards`: what the root forwards, every attached clone gets;
* `Gates.attached_iff`: the requests of all clones arrive, and no clone ends before its root,
  exactly if no clone is made with a sender of a channel that was replaced and the root is not
  reconfigured before it has handled all requests.
-/

namespace Rotonda.Comms

open Lib Lib.Runs List Option Channels

namespace Gates

variable {κ : Type} {g g' : Gates κ} {root : RootGate} {status : GateStatus κ}
variable {cmd : GateCommand κ} {id : Uuid} {m : Move κ} {rest : List (GateCommand κ)}
  {r : Gates κ × Outcome κ} {self : Party}

/-! ## Statements -/

/-- No attach request is sent to, or left in, a channel that the root does not receive from. -/
def NoStray (g : Gates κ) : Prop :=
  ∀ root, g.root = some root →
    (∀ a ∈ g.attaching, a.parentCommandSender = root.commands) ∧
      ∀ c id tx, .attachClone id tx ∈ g.channels.queue c → c = root.commands

/-- `process` of a clone returned `Terminated` only if the root was terminated or dropped. -/
def EndsAfterRoot (g : Gates κ) : Prop :=
  ∀ id, (.clone id, .terminated) ∈ g.returned → g.root = none ∨ (.root, .terminated) ∈ g.returned

/-- What the clones get of a command that the root handles and passes on. -/
def forwardOf : GateCommand κ → Option (GateCommand κ)
  | .reconfigure newConfig _ => some (.followReconfigure newConfig)
  | .reportLinks report => some (.reportLinks report)
  | .terminate => some .terminate
  | _ => none

/-- If the step is one of the root, and the command is one to pass on, it is queued to every clone
that is there and whose request was handled, unless the queue of the clone is full. -/
def Forwards (g : Gates κ) (m : Move κ) (g' : Gates κ) : Prop :=
  ∀ status root cmd cmd' rest, m = .process .root status → g.root = some root →
    g.channels.queue root.commands = cmd :: rest → forwardOf cmd = some cmd' →
    ∀ id ∈ g.attached, ∀ gate, g.clones.get id = some gate →
      g'.channels.queue gate.commands = g.channels.queue gate.commands ++ [cmd'] ∨
        commandQueueLen ≤ (g.channels.queue gate.commands).length

def isAttachClone : GateCommand κ → Bool
  | .attachClone .. => true
  | _ => false

def isReconfigure : GateCommand κ → Bool
  | .reconfigure .. => true
  | _ => false

/-- A clone is made from a gate whose sender is that of the channel the root receives from.  The
root handles a `Reconfigure` when no attach request is on its way or waits behind it. -/
def Orderly (g : Gates κ) : Move κ → Prop
  | .clone self => ∀ root ∈ g.root, ∀ c ∈ g.parentSender self, c = root.commands
  | .process .root _ => ∀ root ∈ g.root, ∀ cmd ∈ (g.channels.queue root.commands).head?,
      isReconfigure cmd = true → g.attaching.isEmpty = true ∧
        ∀ x ∈ g.channels.queue root.commands, isAttachClone x = false
  | _ => True

/-! ## What the root forwards -/

theorem queue_notifyClones (h : Wired { g with root := some root })
    (hid : root.cloneSenders.get id = some id) (hopen : g.channels.closed id = false) :
    (g.notifyClones root cmd).channels.queue id = g.channels.queue id ++ [cmd] ∨
      commandQueueLen ≤ (g.channels.queue id).length := by
  obtain ⟨channels, senders, heq, hnotified⟩ := g.notifyClones_spec root cmd
  rw [heq]
  exact hnotified.queued hid hopen fun id' hid' => ((h.root rfl).senders hid').1.symm

theorem channels_conclude (self : Party) (status : GateStatus κ) (r : Gates κ × Outcome κ) :
    (conclude self status r).channels = r.1.channels := by
  unfold conclude
  split
  · split <;> rfl
  · rfl

variable {gate : CloneGate}

/-- Handling a command that is passed on. -/
theorem queue_handleRoot (h : g.Wired) (hroot : g.root = some root) {cmd' : GateCommand κ}
    (hnew : g.available cmd = true) (hforward : forwardOf cmd = some cmd')
    (hid : root.cloneSenders.get id = some id) (hlive : g.clones.get id = some gate) :
    (g.handleRoot root cmd).1.channels.queue id = g.channels.queue id ++ [cmd'] ∨
      commandQueueLen ≤ (g.channels.queue id).length := by
  have hself := h.withRoot (h.root hroot)
  have hopen := (h.clones hlive).isOpen
  cases cmd with
  | reportLinks | terminate =>
    cases hforward
    exact queue_notifyClones hself hid hopen
  | reconfigure newConfig newGate =>
    cases hforward
    refine queue_notifyClones (h.takeOver hroot (by simpa [available] using hnew)) hid ?_
    refine (closed_close_of_ne ?_).trans hopen
    exact h.ne_commands hroot hlive
  | _ => cases hforward

/-- In every run, every attached clone gets what the root passes on. -/
theorem Wired.forwards (h : g.Wired) (hstep : g.step m = some g') : Forwards g m g' := by
  rintro status root cmd cmd' rest rfl hroot hqueue hforward id hid gate hgate
  obtain ⟨havailable, rfl⟩ := processRoot_of_queue hstep hroot hqueue
  have hsender := (h.root hroot).attached hid (by simp [hgate])
  have hpop : (g.channels.pop root.commands).queue id = g.channels.queue id := by
    rw [queue_pop, if_neg (h.ne_commands hroot hgate)]
  have := queue_handleRoot (h.pop root.commands) hroot (by cases cmd <;> exact havailable) hforward
    hsender hgate
  rw [(h.clones hgate).commands, channels_conclude]
  rwa [hpop] at this

/-! ## Clones and their senders -/

/-- All attach requests go to the root's channel, and every clone that is there is attached or its
request is on the way. -/
structure Tied (attaching : List Attaching) (queue : ChannelId → List (GateCommand κ))
    (clones : Dict Uuid CloneGate) (root : RootGate) : Prop where
  sent {a : Attaching} (h : a ∈ attaching) : a.parentCommandSender = root.commands
  queued {c : ChannelId} {id : Uuid} {tx : ChannelId} (h : .attachClone id tx ∈ queue c) :
    c = root.commands
  linked {id : Uuid} {gate : CloneGate} (h : clones.get id = some gate) :
    root.cloneSenders.get id = some id ∨ (∃ a ∈ attaching, a.tx = id) ∨
      .attachClone id id ∈ queue root.commands

def AllTied (g : Gates κ) : Prop :=
  ∀ root, g.root = some root → Tied g.attaching g.channels.queue g.clones root

section Tied

variable {attaching : List Attaching} {queue queue' : ChannelId → List (GateCommand κ)}
  {clones : Dict Uuid CloneGate}

theorem Tied.queues (h : Tied attaching queue clones root)
    (hmem : ∀ c id tx, .attachClone id tx ∈ queue' c → .attachClone id tx ∈ queue c)
    (hkeep : ∀ id tx, .attachClone id tx ∈ queue root.commands →
      .attachClone id tx ∈ queue' root.commands) :
    Tied attaching queue' clones root := by
  refine ⟨h.sent, fun hcmd => h.queued (hmem _ _ _ hcmd), fun hid => ?_⟩
  rcases h.linked hid with hsender | hattaching | hqueued
  · exact .inl hsender
  · exact .inr (.inl hattaching)
  · exact .inr (.inr (hkeep _ _ hqueued))

theorem Tied.senders (h : Tied attaching queue clones root) {senders : FrimMap Uuid ChannelId}
    (hkeep : ∀ id gate, clones.get id = some gate → root.cloneSenders.get id = some id →
      senders.get id = some id) :
    Tied attaching queue clones { root with cloneSenders := senders } := by
  refine ⟨h.sent, h.queued, fun hid => ?_⟩
  rcases h.linked hid with hsender | hrest
  · exact .inl (hkeep _ _ hid hsender)
  · exact .inr hrest

theorem Tied.notify (h : Tied g.attaching g.channels.queue g.clones root)
    (hw : Wired { g with root := some root })
    (hcmd : isAttachClone cmd = false) : (g.notifyClones root cmd).AllTied := by
  obtain ⟨channels, senders, heq, hnotified⟩ := g.notifyClones_spec root cmd
  rw [heq]
  rintro root' hroot'
  cases hroot'
  refine (h.queues (fun c id tx hmem => ?_) fun id tx => hnotified.keeps).senders
    fun id gate hid hsender => hnotified.retained hsender (hw.clones hid).isOpen
  rcases hnotified.mem hmem with hold | ⟨rfl, -⟩
  · exact hold
  · cases hcmd

/-- Something that is no attach request is taken from the root's channel. -/
theorem Tied.pop (h : Tied g.attaching g.channels.queue g.clones root)
    (hqueue : g.channels.queue root.commands = cmd :: rest) (hcmd : isAttachClone cmd = false) :
    Tied g.attaching (g.channels.pop root.commands).queue g.clones root := by
  refine h.queues (fun _ _ _ => mem_of_mem_pop) fun id tx hmem => ?_
  rcases mem_pop_or hqueue hmem with hkept | ⟨-, rfl⟩
  · exact hkept
  · cases hcmd

end Tied

theorem AllTied.conclude (self : Party) (status : GateStatus κ)
    (h : r.1.AllTied) : (conclude self status r).AllTied := by
  unfold Gates.conclude
  split
  · split <;> exact h
  · exact h

/-- A clone that is tied to its root has a sender. -/
theorem AllTied.cloneHasSender (h : g.AllTied) (hw : g.Wired) (hroot : g.root = some root)
    (hid : g.clones.get id = some gate) : g.cloneHasSender id = true := by
  unfold Gates.cloneHasSender
  rcases (h root hroot).linked hid with hsender | ⟨a, ha, htx⟩ | hqueued
  · have : root.cloneSenders.inner.any (fun e => e.2 = id) = true :=
      any_eq_true.mpr ⟨(id, id), FrimMap.get_eq_some.mp hsender, by simp⟩
    simp [hroot, this]
  · have : g.attaching.any (fun a => a.tx = id) = true :=
      any_eq_true.mpr ⟨a, ha, by simpa using htx⟩
    simp [this]
  · have hany : (g.channels.queue root.commands).any (GateCommand.isAttachOf id) = true :=
      any_eq_true.mpr ⟨_, hqueued, by simp [GateCommand.isAttachOf]⟩
    have : (List.range g.fresh).any (fun c =>
        !g.channels.closed c && (g.channels.queue c).any (GateCommand.isAttachOf id)) = true := by
      refine any_eq_true.mpr ⟨root.commands, mem_range.mpr (hw.root hroot).commands, ?_⟩
      rw [(hw.root hroot).isOpen, hany]
      rfl
    simp [this]

/-! ## Steps -/

theorem Tied.attachClone (h : Tied g.attaching g.channels.queue g.clones root)
    (hqueue : g.channels.queue root.commands = .attachClone id id :: rest) :
    Tied g.attaching (g.channels.pop root.commands).queue g.clones
      { root with cloneSenders := root.cloneSenders.insert id id } := by
  refine ⟨h.sent, fun hcmd => h.queued (mem_of_mem_pop hcmd), fun {id'} _ hid' => ?_⟩
  change (root.cloneSenders.insert id id).get id' = some id' ∨ _
  rw [FrimMap.get_insert]
  split
  next heq => exact .inl (by rw [heq])
  next hne =>
    rcases h.linked hid' with hsender | hattaching | hqueued
    · exact .inl hsender
    · exact .inr (.inl hattaching)
    · rcases mem_pop_or hqueue hqueued with hkept | ⟨-, heq⟩
      · exact .inr (.inr hkept)
      · cases heq
        exact absurd rfl hne

/-- The root moves to a new channel when all requests are handled. -/
theorem Tied.takeOver (h : Tied g.attaching g.channels.queue g.clones root)
    (hattaching : g.attaching = [])
    (hqueue : ∀ x ∈ g.channels.queue root.commands, isAttachClone x = false) (c : ChannelId) :
    Tied g.attaching g.channels.queue g.clones { root with commands := c } := by
  have hnone {c' : ChannelId} {id : Uuid} {tx : ChannelId}
      (hmem : .attachClone id tx ∈ g.channels.queue c') : False := by
    cases h.queued hmem
    cases hqueue _ hmem
  refine ⟨fun ha => ?_, fun hmem => (hnone hmem).elim, fun hid => ?_⟩
  · rw [hattaching] at ha
    cases ha
  · rcases h.linked hid with hsender | ⟨a, ha, -⟩ | hqueued
    · exact .inl hsender
    · rw [hattaching] at ha
      cases ha
    · exact (hnone hqueued).elim

section

variable (h : g.AllTied)
include h

theorem AllTied.suspension (slot : Uuid) (suspend : Bool) :
    (g.suspension slot suspend).AllTied := by
  obtain ⟨updates, suspended, heq, -⟩ := g.suspension_spec slot suspend
  rw [heq]
  exact h

theorem AllTied.handleRoot (hw : g.Wired) (hroot : g.root = some root)
    (hqueue : g.channels.queue root.commands = cmd :: rest) (hnew : g.available cmd = true)
    (horderly : isReconfigure cmd = true → g.attaching = [] ∧
      ∀ x ∈ g.channels.queue root.commands, isAttachClone x = false) :
    (Gates.conclude .root status
      (Gates.handleRoot { g with channels := g.channels.pop root.commands } root cmd)).AllTied := by
  refine AllTied.conclude _ _ ?_
  have htied := h root hroot
  have hfits : g.Fits root.commands cmd := hw.commands (hqueue ▸ mem_cons_self)
  have hpop := hw.pop root.commands
  have hself := hpop.withRoot (hpop.root hroot)
  cases cmd with
  | attachClone id tx =>
    obtain ⟨rfl, -⟩ := hfits.content
    rintro root' hroot'
    cases hroot'
    exact htied.attachClone hqueue
  | detachClone id =>
    rintro root' hroot'
    cases hroot'
    refine (htied.pop hqueue rfl).senders fun id' gate hid' hsender => ?_
    rw [FrimMap.get_remove, if_neg, hsender]
    rintro rfl
    rw [hfits.content.2] at hid'
    cases hid'
  | suspension slot suspend =>
    refine AllTied.suspension (fun root' hroot' => ?_) slot suspend
    cases hroot.symm.trans hroot'
    exact htied.pop hqueue rfl
  | subscribe suspended response directUpdate =>
    obtain ⟨updates, suspended', links, slot, sender, heq⟩ :=
      subscribe_eq { g with channels := g.channels.pop root.commands } root suspended response
        directUpdate
    have hmaps := hpop.tick.withMaps updates suspended' links
    rcases heq with heq | heq
    · change (subscribe { g with channels := g.channels.pop root.commands } ..).AllTied
      rw [heq]
      rintro root' hroot'
      cases hroot.symm.trans hroot'
      exact htied.pop hqueue rfl
    · change (subscribe { g with channels := g.channels.pop root.commands } ..).AllTied
      rw [heq]
      refine Tied.notify ?_ (hmaps.withRoot (hmaps.root hroot)) rfl
      exact htied.pop hqueue rfl
  | unsubscribe slot =>
    have hmaps := hpop.withMaps (g.updates.remove slot).1 (g.suspended.remove slot).1
      (g.links.erase slot)
    exact Tied.notify (htied.pop hqueue rfl) (hmaps.withRoot (hmaps.root hroot)) rfl
  | followSubscribe | followUnsubscribe | followReconfigure | trigger =>
    rintro root' hroot'
    cases hroot.symm.trans hroot'
    exact htied.pop hqueue rfl
  | reconfigure newConfig newGate =>
    obtain ⟨hattaching, hnone⟩ := horderly rfl
    refine Tied.notify ?_ (hpop.takeOver hroot (by simpa [available] using hnew)) rfl
    exact Tied.takeOver (g := { g with channels := g.channels.pop root.commands })
      (htied.pop hqueue rfl) hattaching (fun x hx => hnone x (mem_of_mem_pop hx)) _
  | reportLinks | terminate => exact Tied.notify (htied.pop hqueue rfl) hself rfl

/-- Clones take commands from their own channels, where no requests are. -/
theorem AllTied.processClone (hw : g.Wired)
    (hstep : g.process status (.clone id) = some g') : g'.AllTied := by
  obtain ⟨gate, hgate, ⟨cmd, rest, r, hqueue, hr, rfl⟩ | ⟨-, rfl⟩⟩ := processClone_cases hstep
  · have hforwarded := hw.forwarded_of_queue hgate hqueue
    have hpop : AllTied { g with channels := g.channels.pop gate.commands } := by
      intro root hroot
      refine (h root hroot).queues (fun _ _ _ => mem_of_mem_pop) fun id tx hmem => ?_
      rw [queue_pop, if_neg]
      · exact hmem
      · rw [(hw.clones hgate).commands]
        exact (hw.ne_commands hroot hgate).symm
    refine AllTied.conclude _ _ ?_
    cases cmd with
    | followSubscribe | followUnsubscribe | followReconfigure | reportLinks | terminate =>
      cases hr
      exact hpop
    | _ => cases hforwarded
  · exact AllTied.conclude _ _ h

theorem AllTied.clone (horderly : g.Orderly (.clone self))
    (hstep : g.clone self = some g') : g'.AllTied := by
  obtain ⟨parent, hparent, rfl⟩ := map_eq_some_iff.mp hstep
  intro root hroot
  have htied := h root hroot
  refine ⟨fun ha => ?_, htied.queued, fun {id gate} hid => ?_⟩
  · rcases mem_append.mp ha with ha | ha
    · exact htied.sent ha
    · cases mem_singleton.mp ha
      exact horderly root hroot parent hparent
  · change (g.clones.insert g.fresh _).get id = some gate at hid
    rcases Dict.of_get_insert hid with ⟨rfl, _⟩ | ⟨_, hid⟩
    · exact .inr (.inl ⟨_, mem_append_right _ (mem_singleton.mpr rfl), rfl⟩)
    · rcases htied.linked hid with hsender | ⟨a, ha, htx⟩ | hqueued
      · exact .inl hsender
      · exact .inr (.inl ⟨a, mem_append_left _ ha, htx⟩)
      · exact .inr (.inr hqueued)

theorem AllTied.attach (hw : g.Wired) {n : Nat} (hstep : g.attach n = some g') : g'.AllTied := by
  obtain ⟨a, ha, hstep⟩ := bind_eq_some_iff.mp hstep
  obtain ⟨channels, hsend, hstep⟩ := bind_eq_some_iff.mp hstep
  cases hstep
  intro root hroot
  have htied := h root hroot
  have hparent := htied.sent (mem_of_getElem? ha)
  -- the root receives from this channel, so it is open
  obtain rfl : channels = g.channels.push root.commands (.attachClone a.cloneId a.tx) := by
    rw [hparent] at hsend
    rcases send_eq_some hsend with ⟨hclosed, -⟩ | ⟨-, heq⟩
    · rw [(hw.root hroot).isOpen] at hclosed
      cases hclosed
    · exact heq
  refine ⟨fun ha' => htied.sent (mem_of_mem_eraseIdx ha'), fun hmem => ?_, fun {id gate} hid => ?_⟩
  · rcases mem_queue_push.mp hmem with hmem | ⟨hc, -⟩
    · exact htied.queued hmem
    · exact hc
  · rcases htied.linked hid with hsender | ⟨a', ha', htx⟩ | hqueued
    · exact .inl hsender
    · obtain ⟨i, hi⟩ := mem_iff_getElem?.mp ha'
      by_cases hin : i = n
      · rw [hin, ha] at hi
        cases hi
        refine .inr (.inr (mem_queue_push.mpr (.inr ⟨rfl, ?_⟩)))
        rw [← htx, (hw.attaching ha').tx]
      · exact .inr (.inl ⟨a', mem_eraseIdx_iff_getElem?.mpr ⟨i, hin, hi⟩, htx⟩)
    · exact .inr (.inr (mem_queue_push.mpr (.inl hqueued)))

/-- A command other than an attach request is put into some queue. -/
theorem AllTied.send {cap : Nat} {c : ChannelId} (hcmd : isAttachClone cmd = false)
    {channels : Channels (GateCommand κ)} (hsend : g.channels.send cap c cmd = some channels) :
    AllTied { g with channels := channels } := by
  intro root hroot
  rcases send_eq_some hsend with ⟨-, rfl⟩ | ⟨-, rfl⟩
  · exact h root hroot
  · refine (h root hroot).queues (fun c' id tx hmem => ?_) fun id tx hmem =>
      mem_queue_push.mpr (.inl hmem)
    rcases mem_queue_push.mp hmem with hmem | ⟨-, rfl⟩
    · exact hmem
    · cases hcmd

theorem AllTied.drop (hstep : g.drop self = some g') : g'.AllTied := by
  cases self with
  | root =>
    obtain ⟨root, hroot, rfl⟩ := map_eq_some_iff.mp hstep
    rintro root' hroot'
    cases hroot'
  | clone id =>
    obtain ⟨gate, hgate, hstep⟩ := bind_eq_some_iff.mp hstep
    obtain ⟨g₁, hdetach, hstep⟩ := bind_eq_some_iff.mp hstep
    obtain ⟨channels, hsend, rfl⟩ := map_eq_some_iff.mp hdetach
    cases hstep
    intro root hroot
    have htied := h.send rfl hsend root hroot
    refine ⟨htied.sent, htied.queued, fun {id' gate'} hid' => ?_⟩
    exact htied.linked (Dict.of_get_erase hid').2

theorem AllTied.step (hw : g.Wired) (horderly : g.Orderly m)
    (hstep : g.step m = some g') : g'.AllTied := by
  cases m with
  | newGate | release _ =>
    cases hstep
    exact h
  | send c cmd =>
    change g.send c cmd = some g' at hstep
    unfold Gates.send at hstep
    split at hstep
    next hmay =>
      obtain ⟨channels, hsend, rfl⟩ := map_eq_some_iff.mp hstep
      have hmay := ((Bool.and_eq_true ..).mp hmay).2
      refine h.send ?_ hsend
      cases cmd with
      | attachClone => cases hmay
      | _ => rfl
    · cases hstep
  | clone self => exact h.clone horderly hstep
  | attach n => exact h.attach hw hstep
  | drop self => exact h.drop hstep
  | process self status =>
    cases self with
    | clone id => exact h.processClone hw hstep
    | root =>
      obtain ⟨root, hroot, ⟨cmd, rest, hqueue, havailable, rfl⟩ | ⟨-, rfl⟩⟩ :=
        processRoot_cases hstep
      · refine h.handleRoot hw hroot hqueue havailable fun hreconfigure => ?_
        have hguard := horderly root hroot cmd (by simp [hqueue]) hreconfigure
        exact ⟨isEmpty_iff.mp hguard.1, hguard.2⟩
      · exact AllTied.conclude _ _ h

end

/-! ## Returns -/

theorem returned_handleRoot (g : Gates κ) (root : RootGate) (cmd : GateCommand κ) :
    (g.handleRoot root cmd).1.returned = g.returned := by
  cases cmd with
  | suspension slot suspend =>
    obtain ⟨updates, suspended, heq, -⟩ := g.suspension_spec slot suspend
    change (g.suspension slot suspend).returned = g.returned
    rw [heq]
  | subscribe suspended response directUpdate =>
    obtain ⟨updates, suspended', links, slot, sender, heq | heq⟩ :=
      g.subscribe_eq root suspended response directUpdate
    · change (g.subscribe root suspended response directUpdate).returned = g.returned
      rw [heq]
    · change (g.subscribe root suspended response directUpdate).returned = g.returned
      rw [heq]
      rfl
  | _ => rfl

theorem root_conclude (self : Party) (status : GateStatus κ) (r : Gates κ × Outcome κ) :
    (conclude self status r).root = r.1.root := by
  unfold conclude
  split
  · split <;> rfl
  · rfl

theorem mem_conclude_of_mem (self : Party) (status : GateStatus κ) {x : Party × Outcome κ}
    (h : x ∈ r.1.returned) : x ∈ (conclude self status r).returned := by
  unfold conclude
  split
  · split
    · exact h
    · exact mem_cons_of_mem _ h
  · exact mem_cons_of_mem _ h

/-- `Terminated` is returned by the gate whose command ended so. -/
theorem terminated_of_conclude {party : Party}
    (h : (party, .terminated) ∈ (conclude self status r).returned) :
    (party, .terminated) ∈ r.1.returned ∨ (party = self ∧ r.2 = .terminated) := by
  unfold conclude at h
  split at h
  · split at h
    · exact .inl h
    · rcases mem_cons.mp h with heq | h
      · cases heq
      · exact .inl h
  · rcases mem_cons.mp h with heq | h
    · obtain ⟨hparty, houtcome⟩ := Prod.mk.inj heq
      exact .inr ⟨hparty, houtcome.symm⟩
    · exact .inl h

theorem EndsAfterRoot.mono (h : g.EndsAfterRoot) (hroot : g.root = none → g'.root = none)
    (hold : ∀ r ∈ g.returned, r ∈ g'.returned)
    (hnew : ∀ id, (.clone id, .terminated) ∈ g'.returned → (.clone id, .terminated) ∈ g.returned) :
    g'.EndsAfterRoot := by
  intro id hid
  rcases h id (hnew id hid) with hnone | hterminated
  · exact .inl (hroot hnone)
  · exact .inr (hold _ hterminated)

/-- A clone whose root is there and not terminated waits on an empty channel, and is not told to
terminate. -/
theorem EndsAfterRoot.processClone (h : g.EndsAfterRoot) (hw : g.Wired) (htied : g.AllTied)
    (hstep : g.process status (.clone id) = some g') : g'.EndsAfterRoot := by
  obtain ⟨gate, hgate, ⟨cmd, rest, r, hqueue, hr, rfl⟩ | ⟨hno, rfl⟩⟩ := processClone_cases hstep
  · have hforwarded := hw.forwarded_of_queue hgate hqueue
    have hsame : r.1.root = g.root ∧ r.1.returned = g.returned := by
      cases cmd with
      | followSubscribe | followUnsubscribe | followReconfigure | reportLinks | terminate =>
        cases hr
        exact ⟨rfl, rfl⟩
      | _ => cases hforwarded
    intro id' hid'
    rw [root_conclude, hsame.1]
    rcases terminated_of_conclude hid' with hid' | ⟨-, hterminated⟩
    · rw [hsame.2] at hid'
      refine (h id' hid').imp_right fun hroot => mem_conclude_of_mem _ _ ?_
      rw [hsame.2]
      exact hroot
    · have hroot : (.root, .terminated) ∈ g.returned := by
        cases cmd with
        | terminate =>
          have hmeans : g.Means gate.commands .terminate :=
            (hw.commands (hqueue ▸ mem_cons_self)).content
          refine hmeans ?_
          rw [(hw.clones hgate).commands, hgate]
          exact some_ne_none _
        | followSubscribe | followUnsubscribe | followReconfigure | reportLinks =>
          cases hr
          cases hterminated
        | _ => cases hforwarded
      refine .inr (mem_conclude_of_mem _ _ ?_)
      rw [hsame.2]
      exact hroot
  · intro id' hid'
    cases hroot : g.root with
    | none => exact .inl ((root_conclude ..).trans hroot)
    | some root =>
      have hsender := htied.cloneHasSender hw hroot hgate
      rw [(hw.clones hgate).commands, hsender] at hno
      cases hno

theorem EndsAfterRoot.processRoot (h : g.EndsAfterRoot)
    (hstep : g.process status .root = some g') : g'.EndsAfterRoot := by
  obtain ⟨root, hroot, hturn⟩ := processRoot_cases hstep
  have hsome : g.root = none → g'.root = none := by
    intro hnone
    rw [hroot] at hnone
    cases hnone
  rcases hturn with ⟨cmd, rest, hqueue, -, rfl⟩ | ⟨-, rfl⟩
  · have hsame := returned_handleRoot { g with channels := g.channels.pop root.commands } root cmd
    refine h.mono hsome (fun r hr => mem_conclude_of_mem _ _ (by rw [hsame]; exact hr)) fun id hid => ?_
    rcases terminated_of_conclude hid with hid | ⟨hparty, -⟩
    · rw [hsame] at hid
      exact hid
    · cases hparty
  · refine h.mono hsome (fun r hr => mem_conclude_of_mem _ _ hr) fun id hid => ?_
    rcases terminated_of_conclude hid with hid | ⟨hparty, -⟩
    · exact hid
    · cases hparty

theorem EndsAfterRoot.step (h : g.EndsAfterRoot) (hw : g.Wired) (htied : g.AllTied)
    (hstep : g.step m = some g') : g'.EndsAfterRoot := by
  cases m with
  | newGate | release =>
    cases hstep
    exact h
  | send c cmd =>
    change g.send c cmd = some g' at hstep
    unfold Gates.send at hstep
    split at hstep
    · obtain ⟨channels, -, rfl⟩ := map_eq_some_iff.mp hstep
      exact h
    · cases hstep
  | clone self =>
    obtain ⟨parent, -, rfl⟩ := map_eq_some_iff.mp hstep
    exact h
  | attach n =>
    obtain ⟨a, -, hstep⟩ := bind_eq_some_iff.mp hstep
    obtain ⟨channels, -, hstep⟩ := bind_eq_some_iff.mp hstep
    cases hstep
    exact h
  | process self status =>
    cases self with
    | root => exact h.processRoot hstep
    | clone id => exact h.processClone hw htied hstep
  | drop self =>
    cases self with
    | root =>
      obtain ⟨root, -, rfl⟩ := map_eq_some_iff.mp hstep
      exact fun _ _ => .inl rfl
    | clone id =>
      obtain ⟨gate, -, hstep⟩ := bind_eq_some_iff.mp hstep
      obtain ⟨g₁, hdetach, hstep⟩ := bind_eq_some_iff.mp hstep
      obtain ⟨channels, -, rfl⟩ := map_eq_some_iff.mp hdetach
      cases hstep
      exact h

/-! ## Runs -/

/-- After a `Reconfigure` the root receives from another channel, and the requests are where they
were. -/
theorem reconfigure_of_step (hroot : g.root = some root) {newConfig : κ} {newGate : NewGate}
    (hcmd : .reconfigure newConfig newGate ∈ (g.channels.queue root.commands).head?)
    (hstep : g.step (.process .root status) = some g') :
    newGate.commands ∈ g.newGates ∧
      (∃ root', g'.root = some root' ∧ root'.commands = newGate.commands) ∧
      g'.attaching = g.attaching ∧
      ∀ {c id tx}, .attachClone id tx ∈ g.channels.queue c →
        .attachClone id tx ∈ g'.channels.queue c := by
  obtain ⟨rest, hqueue⟩ := List.head?_eq_some_iff.mp hcmd
  obtain ⟨havailable, rfl⟩ := processRoot_of_queue hstep hroot hqueue
  refine ⟨by simpa [available] using havailable, ⟨_, rfl, rfl⟩, rfl, fun {c id tx} hmem => ?_⟩
  refine mem_notify_of_mem ?_
  rcases mem_pop_or hqueue hmem with hkept | ⟨-, heq⟩
  · exact hkept
  · cases heq

/-- A clone that copies an old sender, or a `Reconfigure` before a request is handled, leaves a
request astray. -/
theorem stray_of_not_orderly (hw : g.Wired) (htied : g.AllTied) (hguard : ¬ g.Orderly m)
    (hstep : g.step m = some g') : ¬ g'.NoStray := by
  intro hstray
  apply hguard
  cases m with
  | clone self =>
    rintro root hroot c hc
    obtain ⟨parent, hparent, rfl⟩ := map_eq_some_iff.mp hstep
    cases hparent.symm.trans hc
    exact (hstray root hroot).1 _ (mem_append_right _ (mem_singleton.mpr rfl))
  | process self status =>
    cases self with
    | clone id => trivial
    | root =>
      rintro root hroot cmd hcmd hreconfigure
      cases cmd with
      | reconfigure newConfig newGate =>
        obtain ⟨hnew, hroot', hattaching, hkeeps⟩ := reconfigure_of_step hroot hcmd hstep
        obtain ⟨root', hroot', hcommands⟩ := hroot'
        obtain ⟨hsent, hqueued⟩ := hstray root' hroot'
        have hne : newGate.commands ≠ root.commands := by
          intro heq
          exact (hw.root hroot).notNew (heq ▸ hnew)
        refine ⟨isEmpty_iff.mpr (eq_nil_iff_forall_not_mem.mpr fun a ha => ?_),
          fun x hx => ?_⟩
        · have hold := (htied root hroot).sent ha
          rw [hsent a (hattaching ▸ ha), hcommands] at hold
          exact hne hold
        · cases x with
          | attachClone id tx =>
            have := hqueued _ id tx (hkeeps hx)
            rw [hcommands] at this
            exact absurd this.symm hne
          | _ => rfl
      | _ => cases hreconfigure
  | _ => trivial

theorem attached_iff (ms : List (Move κ)) :
    (∀ pre m g g', pre ++ [m] <+: ms → exec step new pre = some g → step g m = some g' →
      g'.NoStray ∧ g'.EndsAfterRoot ∧ Forwards g m g') ↔
    Along step Orderly new ms := by
  refine exec_steps_iff step (fun g => g.Wired ∧ g.AllTied ∧ g.EndsAfterRoot) Orderly
    (fun g m g' => g'.NoStray ∧ g'.EndsAfterRoot ∧ Forwards g m g') ?_ ?_ ms ?_
  · rintro g m g' ⟨hw, htied, hends⟩ hguard hstep
    have htied' := htied.step hw hguard hstep
    have hends' := hends.step hw htied hstep
    refine ⟨⟨hw.step hstep, htied', hends'⟩, fun root hroot => ?_, hends', hw.forwards hstep⟩
    exact ⟨fun a ha => (htied' root hroot).sent ha, fun c id tx hmem => (htied' root hroot).queued hmem⟩
  · rintro g m g' ⟨hw, htied, -⟩ hguard hstep h
    exact stray_of_not_orderly hw htied hguard hstep h.1
  · refine ⟨wired_new, fun root hroot => ?_, nofun⟩
    exact ⟨nofun, nofun, nofun⟩

/-! ## A clone that is made after a `Reconfigure` -/

namespace LateClone

def cloned : List (Move Unit) :=
  [.newGate, .send 0 (.reconfigure () ⟨1⟩), .process .root .dormant, .clone .root]

/-- The clone's request goes to the channel that was replaced, and the clone finds that nobody has
its sender. -/
def ended : List (Move Unit) := cloned ++ [.attach 0, .process (.clone 2) .dormant]

def look (g : Gates Unit) : Option ChannelId × List ChannelId × List (Party × Outcome Unit) :=
  (g.root.map RootGate.commands, g.attaching.map Attaching.parentCommandSender, g.returned)

/-- The request is astray, and the clone ends while its root is there and was never terminated. -/
theorem clone_ends_before_root :
    (∃ g, exec step new cloned = some g ∧ ¬ g.NoStray) ∧
      ∃ g, exec step new ended = some g ∧ ¬ g.EndsAfterRoot := by
  have hcloned : (exec step new cloned).map look =
      some (some 1, [0], [(.root, .status (.reconfiguring ()))]) := by decide +kernel
  have hended : (exec step new ended).map look =
      some (some 1, [], [(.clone 2, .terminated), (.root, .status (.reconfiguring ()))]) := by
    decide +kernel
  constructor
  · obtain ⟨g, hg, hlook⟩ := map_eq_some_iff.mp hcloned
    obtain ⟨hroot, hrest⟩ := Prod.mk.inj hlook
    obtain ⟨hattaching, -⟩ := Prod.mk.inj hrest
    obtain ⟨root, hroot, hcommands⟩ := map_eq_some_iff.mp hroot
    refine ⟨g, hg, fun hstray => ?_⟩
    obtain ⟨a, ha, hparent⟩ := mem_map.mp (hattaching ▸ mem_singleton.mpr rfl :
      0 ∈ g.attaching.map Attaching.parentCommandSender)
    have := (hstray root hroot).1 a ha
    rw [hparent, hcommands] at this
    cases this
  · obtain ⟨g, hg, hlook⟩ := map_eq_some_iff.mp hended
    obtain ⟨hroot, hrest⟩ := Prod.mk.inj hlook
    obtain ⟨-, hreturned⟩ := Prod.mk.inj hrest
    refine ⟨g, hg, fun hends => ?_⟩
    rcases hends 2 (by rw [hreturned]; exact mem_cons_self) with hnone | hterminated
    · rw [hnone] at hroot
      cases hroot
    · rw [hreturned] at hterminated
      revert hterminated
      decide

end LateClone

end Gates

end Rotonda.Comms
