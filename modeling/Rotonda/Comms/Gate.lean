import Rotonda.Comms.FrimMap
import Rotonda.Lib.Channels
import Rotonda.Lib.Dict

/-!
A gate, its clones, and the links and agents that send it commands.

The root gate receives its commands over a channel, and so does every clone over one of its own.  A
clone asks the root to be attached with a command on the root's channel; the root forwards to the
clones that are attached.  The maps of the links are shared by the root and all its clones.

* `Gates`: the root, the clones that are not dropped, their channels and the maps;
* `handleRoot`, `handleClone`: what `process` does with one command;
* `processRoot_cases`, `processClone_cases`: what one turn of `process` does.
-/

namespace Rotonda.Comms

open Lib List Channels FrimMap

/-- Ids are drawn at random and taken to be new each time. -/
abbrev Uuid := Nat

def commandQueueLen : Nat := 16

/-- How updates reach a link: over a queue, or by calls of a direct update target. -/
structure UpdateSender where
  queue : Option Uuid
  direct : Option Uuid
deriving DecidableEq

/-- A gate as it comes from `Gate::new`.  Nobody has run it, so it has no links yet. -/
structure NewGate where
  commands : ChannelId

def NewGate.take (newGate : NewGate) : ChannelId × FrimMap Uuid UpdateSender :=
  (newGate.commands, .default)

/-- Configurations, link reports and trigger data only pass through a gate: they are a `κ`.  The
`response` of a `Subscribe` tells whether the link is still there to take the answer. -/
inductive GateCommand (κ : Type) where
  | reportLinks (report : κ)
  | suspension (slot : Uuid) (suspend : Bool)
  | subscribe (suspended response : Bool) (directUpdate : Option Uuid)
  | unsubscribe (slot : Uuid)
  | followSubscribe (slot : Uuid) (updateSender : UpdateSender)
  | followUnsubscribe (slot : Uuid)
  | reconfigure (newConfig : κ) (newGate : NewGate)
  | followReconfigure (newConfig : κ)
  | trigger (data : κ)
  | terminate
  | attachClone (cloneId : Uuid) (tx : ChannelId)
  | detachClone (cloneId : Uuid)

/-- The command holds this sender. -/
def GateCommand.isAttachOf {κ : Type} (tx : ChannelId) : GateCommand κ → Bool
  | .attachClone _ tx' => tx' = tx
  | _ => false

inductive GateStatus (κ : Type) where
  | active
  | dormant
  | reconfiguring (newConfig : κ)
  | reportLinks (report : κ)
  | triggered (data : κ)
deriving DecidableEq

/-- Statuses are compared by their kind only. -/
def GateStatus.eq {κ : Type} : GateStatus κ → GateStatus κ → Bool
  | .active, .active | .dormant, .dormant | .reconfiguring _, .reconfiguring _
  | .reportLinks _, .reportLinks _ | .triggered _, .triggered _ => true
  | _, _ => false

/-- What a command leads to: `process` goes on, returns a status, returns `Terminated` or panics. -/
inductive Outcome (κ : Type) where
  | again
  | status (s : GateStatus κ)
  | terminated
  | panicked
deriving DecidableEq

/-! ## The gates -/

structure RootGate where
  commandSender : ChannelId
  commands : ChannelId
  cloneSenders : FrimMap Uuid ChannelId

structure CloneGate where
  parentCommandSender : ChannelId
  commands : ChannelId

structure Attaching where
  cloneId : Uuid
  tx : ChannelId
  parentCommandSender : ChannelId

inductive Party where
  | root
  | clone (id : Uuid)
deriving DecidableEq

/-- A root gate and all that belongs to it.  Links and agents hold senders of the channels in
`held`; the gates behind `newGates` are made and not yet taken over.  The last three fields are
history and no function reads them: the links that are subscribed, with their sender and whether
they are suspended, the clones whose attach request was handled, and what calls of `process`
returned. -/
structure Gates (κ : Type) where
  channels : Channels (GateCommand κ)
  fresh : Nat
  held : List ChannelId
  newGates : List ChannelId
  updates : FrimMap Uuid UpdateSender
  suspended : FrimMap Uuid UpdateSender
  root : Option RootGate
  clones : Dict Uuid CloneGate
  attaching : List Attaching
  links : Dict Uuid (UpdateSender × Bool)
  attached : List Uuid
  returned : List (Party × Outcome κ)

namespace Gates

variable {κ : Type}

def new : Gates κ where
  channels := .empty
  fresh := 1
  held := [0]
  newGates := []
  updates := .default
  suspended := .default
  root := some ⟨0, 0, .default⟩
  clones := .empty
  attaching := []
  links := .empty
  attached := []
  returned := []

def getGateStatus (g : Gates κ) : GateStatus κ :=
  if g.suspended.len = g.updates.len then .dormant else .active

/-! ## Commands -/

/-- Offer a command to one clone.  If its queue is full the command is dropped; the flag remembers
whether a receiver was found to be gone. -/
def notifyClone (cmd : GateCommand κ) (r : Channels (GateCommand κ) × Bool)
    (entry : Uuid × ChannelId) : Channels (GateCommand κ) × Bool :=
  match r.1.trySend commandQueueLen entry.2 cmd with
  | (channels, .ok) => (channels, r.2)
  | (_, .closed) => (r.1, true)
  | (_, .full) => r

def notifyClones (g : Gates κ) (root : RootGate) (cmd : GateCommand κ) : Gates κ :=
  let r := root.cloneSenders.inner.foldl (notifyClone cmd) (g.channels, false)
  let cloneSenders :=
    if r.2 then root.cloneSenders.retain fun _ sender => !r.1.closed sender
    else root.cloneSenders
  { g with
    channels := r.1
    root := some { root with cloneSenders := cloneSenders } }

/-- History: the latest `Suspension` of a link that is subscribed. -/
def setSuspended (links : Dict Uuid (UpdateSender × Bool)) (slot : Uuid) (suspend : Bool) :
    Dict Uuid (UpdateSender × Bool) :=
  match links.get slot with
  | some (sender, _) => links.insert slot (sender, suspend)
  | none => links

def suspension (g : Gates κ) (slot : Uuid) (suspend : Bool) : Gates κ :=
  let g := { g with links := setSuspended g.links slot suspend }
  if suspend then
    match g.updates.remove slot with
    | (updates, some removed) =>
      { g with
        updates := updates
        suspended := g.suspended.insert slot removed }
    | (_, none) => g
  else
    match g.suspended.remove slot with
    | (suspended, some removed) =>
      { g with
        suspended := suspended
        updates := g.updates.insert slot removed }
    | (_, none) => g

def newSender (slot : Uuid) : Option Uuid → UpdateSender
  | some direct => ⟨none, some direct⟩
  | none => ⟨some slot, none⟩

def subscribe (g : Gates κ) (root : RootGate) (suspended response : Bool)
    (directUpdate : Option Uuid) : Gates κ :=
  let slot := g.fresh
  let updateSender := newSender slot directUpdate
  let g := { g with fresh := g.fresh + 1 }
  let g :=
    if suspended then { g with suspended := g.suspended.insert slot updateSender }
    else { g with updates := g.updates.insert slot updateSender }
  if response then
    notifyClones { g with links := g.links.insert slot (updateSender, suspended) } root
      (.followSubscribe slot updateSender)
  else if suspended then { g with suspended := (g.suspended.remove slot).1 }
  else { g with updates := (g.updates.remove slot).1 }

def unsubscribe (g : Gates κ) (root : RootGate) (slot : Uuid) : Gates κ :=
  notifyClones
    { g with
      suspended := (g.suspended.remove slot).1
      updates := (g.updates.remove slot).1
      links := g.links.erase slot }
    root (.followUnsubscribe slot)

/-- Take over a new gate.  The old receiver is dropped; the root's own sender stays as it is. -/
def reconfigure (g : Gates κ) (root : RootGate) (newConfig : κ) (newGate : NewGate) : Gates κ :=
  let (newCommands, newUpdates) := newGate.take
  notifyClones
    { g with
      channels := g.channels.close root.commands
      newGates := g.newGates.filter fun c => c ≠ newCommands
      updates := newUpdates
      links := .empty }
    { root with commands := newCommands } (.followReconfigure newConfig)

def attachClone (g : Gates κ) (root : RootGate) (cloneId : Uuid) (tx : ChannelId) : Gates κ :=
  { g with
    root := some { root with cloneSenders := root.cloneSenders.insert cloneId tx }
    attached := cloneId :: g.attached }

def detachClone (g : Gates κ) (root : RootGate) (cloneId : Uuid) : Gates κ :=
  { g with root := some { root with cloneSenders := (root.cloneSenders.remove cloneId).1 } }

/-- A clone says that it goes. -/
def detach (g : Gates κ) (id : Uuid) (self : CloneGate) : Option (Gates κ) :=
  (g.channels.send commandQueueLen self.parentCommandSender (.detachClone id)).map fun channels =>
    { g with channels := channels }

def handleRoot (g : Gates κ) (root : RootGate) : GateCommand κ → Gates κ × Outcome κ
  | .attachClone cloneId tx => (g.attachClone root cloneId tx, .again)
  | .detachClone cloneId => (g.detachClone root cloneId, .again)
  | .suspension slot suspend => (g.suspension slot suspend, .again)
  | .subscribe suspended response directUpdate =>
    (g.subscribe root suspended response directUpdate, .again)
  | .unsubscribe slot => (g.unsubscribe root slot, .again)
  | .followSubscribe .. | .followUnsubscribe .. | .followReconfigure .. => (g, .panicked)
  | .reconfigure newConfig newGate =>
    (g.reconfigure root newConfig newGate, .status (.reconfiguring newConfig))
  | .reportLinks report => (g.notifyClones root (.reportLinks report), .status (.reportLinks report))
  | .trigger data =>
    -- the command cannot be cloned for a clone
    (g, if root.cloneSenders.inner.isEmpty then .status (.triggered data) else .panicked)
  | .terminate => (g.notifyClones root .terminate, .terminated)

def handleClone (g : Gates κ) (id : Uuid) (self : CloneGate) :
    GateCommand κ → Option (Gates κ × Outcome κ)
  | .detachClone _ => (g.detach id self).map fun g => (g, .again)
  | .suspension slot suspend => some (g.suspension slot suspend, .again)
  | .attachClone .. | .subscribe .. | .unsubscribe .. | .reconfigure .. => some (g, .panicked)
  | .followSubscribe slot updateSender =>
    some ({ g with updates := g.updates.insert slot updateSender }, .again)
  | .followUnsubscribe slot => some ({ g with updates := (g.updates.remove slot).1 }, .again)
  | .followReconfigure newConfig => some (g, .status (.reconfiguring newConfig))
  | .reportLinks report => some (g, .status (.reportLinks report))
  | .trigger data => some (g, .status (.triggered data))
  | .terminate => some (g, .terminated)

/-! ## Steps -/

/-- `process` was called when the gate had this status; it returns as soon as there is another one.
What it returns goes to the history. -/
def conclude (self : Party) (status : GateStatus κ) (r : Gates κ × Outcome κ) : Gates κ :=
  match r.2 with
  | .again =>
    if status.eq r.1.getGateStatus then r.1
    else { r.1 with returned := (self, .status r.1.getGateStatus) :: r.1.returned }
  | outcome => { r.1 with returned := (self, outcome) :: r.1.returned }

/-- Some sender of a clone's channel exists: in a task, in an open channel or in the root. -/
def cloneHasSender (g : Gates κ) (tx : ChannelId) : Bool :=
  g.attaching.any (fun a => a.tx = tx) ||
    ((List.range g.fresh).any fun c =>
      !g.channels.closed c && (g.channels.queue c).any (GateCommand.isAttachOf tx)) ||
    g.root.any fun root => root.cloneSenders.inner.any fun e => e.2 = tx

def rootHasSender (g : Gates κ) (root : RootGate) : Bool :=
  g.held.contains root.commands || root.commandSender = root.commands ||
    g.attaching.any (fun a => a.parentCommandSender = root.commands) ||
    (List.range g.fresh).any fun id =>
      (g.clones.get id).any fun clone => clone.parentCommandSender = root.commands

/-- The gates that a command brings along.  A gate moves with its command, so it can be taken
over once only. -/
def available (g : Gates κ) : GateCommand κ → Bool
  | .reconfigure _ newGate => g.newGates.contains newGate.commands
  | _ => true

/-- One turn of the loop in `process`.  On an empty channel it waits for its senders. -/
def process (g : Gates κ) (status : GateStatus κ) : Party → Option (Gates κ)
  | .root => do
    let root ← g.root
    match g.channels.recv root.commands with
    | some (cmd, channels) =>
      if g.available cmd then
        some (conclude .root status ({ g with channels := channels }.handleRoot root cmd))
      else none
    | none => if g.rootHasSender root then none else some (conclude .root status (g, .terminated))
  | .clone id => do
    let self ← g.clones.get id
    match g.channels.recv self.commands with
    | some (cmd, channels) =>
      (handleClone { g with channels := channels } id self cmd).map (conclude (.clone id) status)
    | none =>
      if g.cloneHasSender self.commands then none
      else some (conclude (.clone id) status (g, .terminated))

def parentSender (g : Gates κ) : Party → Option ChannelId
  | .root => g.root.map RootGate.commandSender
  | .clone id => (g.clones.get id).map CloneGate.parentCommandSender

def clone (g : Gates κ) (self : Party) : Option (Gates κ) :=
  (g.parentSender self).map fun parentCommandSender =>
    { g with
      fresh := g.fresh + 1
      clones := g.clones.insert g.fresh ⟨parentCommandSender, g.fresh⟩
      attaching := g.attaching ++ [⟨g.fresh, g.fresh, parentCommandSender⟩] }

/-- The nth task sends its request. -/
def attach (g : Gates κ) (n : Nat) : Option (Gates κ) := do
  let a ← g.attaching[n]?
  let channels ← g.channels.send commandQueueLen a.parentCommandSender (.attachClone a.cloneId a.tx)
  return { g with
    channels := channels
    attaching := g.attaching.eraseIdx n }

def drop (g : Gates κ) : Party → Option (Gates κ)
  | .root => g.root.map fun root =>
    { g with
      channels := g.channels.close root.commands
      root := none }
  | .clone id => do
    let self ← g.clones.get id
    let g ← g.detach id self
    return { g with
      channels := g.channels.close self.commands
      clones := g.clones.erase id }

/-- What links and agents may send.  A link knows its slot from the answer to its `Subscribe`. -/
def maySend (g : Gates κ) : GateCommand κ → Bool
  | .suspension slot _ | .unsubscribe slot => slot < g.fresh
  | .reconfigure _ newGate => g.newGates.contains newGate.commands
  | .subscribe .. | .reportLinks _ | .trigger _ | .terminate => true
  | _ => false

def send (g : Gates κ) (c : ChannelId) (cmd : GateCommand κ) : Option (Gates κ) :=
  if g.held.contains c && g.maySend cmd then
    (g.channels.send commandQueueLen c cmd).map fun channels => { g with channels := channels }
  else none

end Gates

/-- The steps of the manager and the links, and those of the owners of gates.  `process` comes with
the status of the gate at the time of its call. -/
inductive Move (κ : Type) where
  | newGate
  | release (c : ChannelId)
  | send (c : ChannelId) (cmd : GateCommand κ)
  | clone (self : Party)
  | attach (n : Nat)
  | process (self : Party) (status : GateStatus κ)
  | drop (self : Party)

namespace Gates

variable {κ : Type}

/-- A new gate and its agent, in the hands of the manager. -/
def newGate (g : Gates κ) : Gates κ :=
  { g with
    fresh := g.fresh + 1
    held := g.fresh :: g.held
    newGates := g.fresh :: g.newGates }

def step (g : Gates κ) : Move κ → Option (Gates κ)
  | .newGate => some g.newGate
  | .release c => some { g with held := g.held.filter fun c' => c' ≠ c }
  | .send c cmd => g.send c cmd
  | .clone self => g.clone self
  | .attach n => g.attach n
  | .process self status => g.process status self
  | .drop self => g.drop self

/-! ## What a turn of `process` does -/

section Turns

variable {g g' : Gates κ} {status : GateStatus κ}

/-- The root handles its next command, or returns when there is neither a command nor a sender. -/
theorem processRoot_cases (h : g.process status .root = some g') :
    ∃ root, g.root = some root ∧
      ((∃ cmd rest, g.channels.queue root.commands = cmd :: rest ∧ g.available cmd = true ∧
        g' = conclude .root status
          ({ g with channels := g.channels.pop root.commands }.handleRoot root cmd)) ∨
      (g.channels.queue root.commands = [] ∧ g' = conclude .root status (g, .terminated))) := by
  obtain ⟨root, hroot, h⟩ := Option.bind_eq_some_iff.mp h
  refine ⟨root, hroot, ?_⟩
  cases hrecv : g.channels.recv root.commands with
  | some r =>
    obtain ⟨cmd, channels⟩ := r
    obtain ⟨⟨rest, hqueue⟩, rfl⟩ := recv_eq_some hrecv
    simp only [hrecv] at h
    split at h
    next havailable => exact .inl ⟨cmd, rest, hqueue, havailable, (Option.some.inj h).symm⟩
    · cases h
  | none =>
    simp only [hrecv] at h
    split at h
    · cases h
    · exact .inr ⟨recv_eq_none hrecv, (Option.some.inj h).symm⟩

theorem processRoot_of_queue (h : g.process status .root = some g') {root : RootGate}
    (hroot : g.root = some root) {cmd : GateCommand κ} {rest : List (GateCommand κ)}
    (hqueue : g.channels.queue root.commands = cmd :: rest) :
    g.available cmd = true ∧
      g' = conclude .root status
        ({ g with channels := g.channels.pop root.commands }.handleRoot root cmd) := by
  obtain ⟨root', hroot', hturn⟩ := processRoot_cases h
  cases hroot.symm.trans hroot'
  rcases hturn with ⟨cmd', rest', hqueue', havailable, hg⟩ | ⟨hempty, -⟩
  · cases hqueue.symm.trans hqueue'
    exact ⟨havailable, hg⟩
  · cases hqueue.symm.trans hempty

/-- A clone handles its next command, or returns when no sender of its channel is left. -/
theorem processClone_cases {id : Uuid} (h : g.process status (.clone id) = some g') :
    ∃ gate, g.clones.get id = some gate ∧
      ((∃ cmd rest r, g.channels.queue gate.commands = cmd :: rest ∧
        handleClone { g with channels := g.channels.pop gate.commands } id gate cmd = some r ∧
        g' = conclude (.clone id) status r) ∨
      (g.cloneHasSender gate.commands = false ∧
        g' = conclude (.clone id) status (g, .terminated))) := by
  obtain ⟨gate, hgate, h⟩ := Option.bind_eq_some_iff.mp h
  refine ⟨gate, hgate, ?_⟩
  cases hrecv : g.channels.recv gate.commands with
  | some r =>
    obtain ⟨cmd, channels⟩ := r
    obtain ⟨⟨rest, hqueue⟩, rfl⟩ := recv_eq_some hrecv
    simp only [hrecv] at h
    obtain ⟨r, hr, heq⟩ := Option.map_eq_some_iff.mp h
    exact .inl ⟨cmd, rest, r, hqueue, hr, heq.symm⟩
  | none =>
    simp only [hrecv] at h
    split at h
    · cases h
    next hno => exact .inr ⟨eq_false_of_ne_true hno, (Option.some.inj h).symm⟩

end Turns

/-! ## Suspension -/

/-- A link that changes its map is in the other one afterwards. -/
theorem suspension_spec (g : Gates κ) (slot : Uuid) (suspend : Bool) :
    ∃ updates suspended,
      g.suspension slot suspend =
        { g with
          updates := updates
          suspended := suspended
          links := setSuspended g.links slot suspend } ∧
      (∀ s, updates.get s =
        if s = slot then (if suspend then none else (g.suspended.get slot).or (g.updates.get slot))
        else g.updates.get s) ∧
      ∀ s, suspended.get s =
        if s = slot then (if suspend then (g.updates.get slot).or (g.suspended.get slot) else none)
        else g.suspended.get s := by
  unfold suspension FrimMap.remove
  cases suspend with
  | true =>
    cases hget : g.updates.get slot with
    | none =>
      refine ⟨g.updates, g.suspended, by simp [hget], fun s => ?_, fun s => ?_⟩
      · by_cases hs : s = slot <;> simp [hs, hget]
      · by_cases hs : s = slot <;> simp [hs]
    | some removed =>
      refine ⟨(g.updates.remove slot).1, g.suspended.insert slot removed, by simp [hget, FrimMap.remove],
        fun s => ?_, fun s => ?_⟩
      · rw [get_remove]
        rfl
      · rw [get_insert]
        rfl
  | false =>
    cases hget : g.suspended.get slot with
    | none =>
      refine ⟨g.updates, g.suspended, by simp [hget], fun s => ?_, fun s => ?_⟩
      · by_cases hs : s = slot <;> simp [hs]
      · by_cases hs : s = slot <;> simp [hs, hget]
    | some removed =>
      refine ⟨g.updates.insert slot removed, (g.suspended.remove slot).1, by simp [hget, FrimMap.remove],
        fun s => ?_, fun s => ?_⟩
      · rw [get_insert]
        rfl
      · rw [get_remove]
        rfl

/-! ## Forwarding -/

/-- What forwarding does: the command is at the end of the queue of each clone that is there, unless
that was full, and the senders of clones that are gone may be dropped. -/
structure Notified (cmd : GateCommand κ) (cs cs' : Channels (GateCommand κ))
    (senders senders' : FrimMap Uuid ChannelId) : Prop where
  closed : cs'.closed = cs.closed
  mem {c : ChannelId} {x : GateCommand κ} (h : x ∈ cs'.queue c) :
    x ∈ cs.queue c ∨ (x = cmd ∧ ∃ id, senders.get id = some c)
  keeps {c : ChannelId} {x : GateCommand κ} (h : x ∈ cs.queue c) : x ∈ cs'.queue c
  queued {id : Uuid} {c : ChannelId} (h : senders.get id = some c) (hopen : cs.closed c = false)
    (hone : ∀ id', senders.get id' = some c → id' = id) :
    cs'.queue c = cs.queue c ++ [cmd] ∨ commandQueueLen ≤ (cs.queue c).length
  known {id : Uuid} {tx : ChannelId} (h : senders'.get id = some tx) : senders.get id = some tx
  retained {id : Uuid} {tx : ChannelId} (h : senders.get id = some tx) (hopen : cs.closed tx = false) :
    senders'.get id = some tx

section Notify

variable {cmd : GateCommand κ} {cs : Channels (GateCommand κ)} {found : Bool} {e : Uuid × ChannelId}
  {es : List (Uuid × ChannelId)} {c : ChannelId} {x : GateCommand κ}
variable {r : Channels (GateCommand κ) × Bool}

theorem notifyClone_cases (cmd : GateCommand κ) (cs : Channels (GateCommand κ)) (found : Bool)
    (e : Uuid × ChannelId) :
    (notifyClone cmd (cs, found) e).1 =
      if cs.closed e.2 = false ∧ (cs.queue e.2).length < commandQueueLen then cs.push e.2 cmd
      else cs := by
  unfold notifyClone Channels.trySend
  by_cases hclosed : cs.closed e.2 = true
  · simp [hclosed]
  · by_cases hfull : (cs.queue e.2).length < commandQueueLen <;> simp [hclosed, hfull]

theorem closed_notify (es : List (Uuid × ChannelId)) (r : Channels (GateCommand κ) × Bool) :
    (es.foldl (notifyClone cmd) r).1.closed = r.1.closed := by
  induction es generalizing r with
  | nil => rfl
  | cons e es ih =>
    rw [foldl_cons, ih, notifyClone_cases]
    split <;> rfl

theorem mem_notify (h : x ∈ (es.foldl (notifyClone cmd) r).1.queue c) :
    x ∈ r.1.queue c ∨ (x = cmd ∧ ∃ e ∈ es, e.2 = c) := by
  induction es generalizing r with
  | nil => exact .inl h
  | cons e es ih =>
    rcases ih h with h | ⟨rfl, e', he', hc⟩
    · rw [notifyClone_cases] at h
      split at h
      · rcases mem_queue_push.mp h with h | ⟨rfl, rfl⟩
        · exact .inl h
        · exact .inr ⟨rfl, e, mem_cons_self, rfl⟩
      · exact .inl h
    · exact .inr ⟨rfl, e', mem_cons_of_mem _ he', hc⟩

theorem mem_notify_of_mem (h : x ∈ r.1.queue c) : x ∈ (es.foldl (notifyClone cmd) r).1.queue c := by
  induction es generalizing r with
  | nil => exact h
  | cons e es ih =>
    refine ih ?_
    rw [notifyClone_cases]
    split
    · exact mem_queue_push.mpr (.inl h)
    · exact h

/-- A channel that no sender of the list belongs to. -/
theorem queue_notify_of_forall_ne (h : ∀ e ∈ es, e.2 ≠ c) :
    (es.foldl (notifyClone cmd) r).1.queue c = r.1.queue c := by
  induction es generalizing r with
  | nil => rfl
  | cons e es ih =>
    rw [foldl_cons, ih fun e' he' => h e' (mem_cons_of_mem _ he'), notifyClone_cases]
    split
    · rw [queue_push, if_neg (h e mem_cons_self).symm]
    · rfl

/-- A channel that one sender of the list belongs to. -/
theorem queue_notify {id : Uuid} (hmem : (id, c) ∈ es) (hnodup : (es.map Prod.fst).Nodup)
    (hone : ∀ e ∈ es, e.2 = c → e.1 = id) (hopen : r.1.closed c = false) :
    (es.foldl (notifyClone cmd) r).1.queue c = r.1.queue c ++ [cmd] ∨
      commandQueueLen ≤ (r.1.queue c).length := by
  induction es generalizing r with
  | nil => cases hmem
  | cons e es ih =>
    obtain ⟨hnot, hnodup⟩ := nodup_cons.mp hnodup
    rw [foldl_cons]
    rcases mem_cons.mp hmem with rfl | hmem
    · -- the others do not touch this channel
      have hother : ∀ e ∈ es, e.2 ≠ c := by
        intro e he hc
        exact hnot (mem_map.mpr ⟨e, he, hone e (mem_cons_of_mem _ he) hc⟩)
      rw [queue_notify_of_forall_ne hother, notifyClone_cases]
      split
      · exact .inl (by simp [queue_push])
      next h => exact .inr (by simpa [hopen] using h)
    · have hne : c ≠ e.2 := by
        intro hc
        rw [hone e mem_cons_self hc.symm] at hnot
        exact hnot (mem_map.mpr ⟨_, hmem, rfl⟩)
      have hsame : (notifyClone cmd r e).1.queue c = r.1.queue c := by
        rw [notifyClone_cases]
        split
        · rw [queue_push, if_neg hne]
        · rfl
      have hopen' : (notifyClone cmd r e).1.closed c = false := by
        rw [notifyClone_cases]
        split <;> exact hopen
      have := ih hmem hnodup (fun e' he' => hone e' (mem_cons_of_mem _ he')) hopen'
      rwa [hsame] at this

theorem notifyClones_spec (g : Gates κ) (root : RootGate) (cmd : GateCommand κ) :
    ∃ channels senders,
      g.notifyClones root cmd =
        { g with
          channels := channels
          root := some { root with cloneSenders := senders } } ∧
      Notified cmd g.channels channels root.cloneSenders senders := by
  refine ⟨_, _, rfl, closed_notify .., fun h => ?_, fun h => mem_notify_of_mem h, fun h hopen hone => ?_,
    fun h => ?_, fun h hopen => ?_⟩
  · refine (mem_notify h).imp id ?_
    rintro ⟨rfl, ⟨id, c⟩, he, rfl⟩
    exact ⟨rfl, id, get_eq_some.mpr he⟩
  · exact queue_notify (get_eq_some.mp h) root.cloneSenders.nodup
      (fun e he hc => hone e.1 (hc ▸ get_eq_some.mpr he)) hopen
  · split at h
    · exact (get_retain.mp h).1
    · exact h
  · split
    · refine get_retain.mpr ⟨h, ?_⟩
      rw [closed_notify]
      simp [hopen]
    · exact h

end Notify

end Gates

end Rotonda.Comms
