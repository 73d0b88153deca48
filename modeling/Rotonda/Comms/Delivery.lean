import Rotonda.Comms.Wiring

/-!
Which links a gate delivers to.

The clones replay the subscriptions that the root forwards, later, on maps that they share with the
root.  A replay that comes late undoes what the root did in between.

* `Exact`: the maps hold the links that are subscribed, each in the map that it belongs to;
* `Delivers`: the invariant that allows for a link that a clone has put back and will remove again;
* `Gates.exact_of_timely`: if no clone replays a subscription too late, the maps are exact whenever
  all queues are drained.
-/

namespace Rotonda.Comms

open Lib Lib.Runs List Option Dict Channels

namespace Gates

variable {κ : Type} {g g' : Gates κ} {root : RootGate} {status : GateStatus κ}
variable {cmd : GateCommand κ} {c : ChannelId} {gate : CloneGate} {rest : List (GateCommand κ)}

/-! ## Statements -/

/-- The links that are subscribed and not suspended are in the one map, those that are suspended in
the other. -/
structure Exact (g : Gates κ) : Prop where
  updates (slot : Uuid) (sender : UpdateSender) :
    g.updates.get slot = some sender ↔ g.links.get slot = some (sender, false)
  suspended (slot : Uuid) (sender : UpdateSender) :
    g.suspended.get slot = some sender ↔ g.links.get slot = some (sender, true)
  disjoint (slot : Uuid) : g.updates.get slot = none ∨ g.suspended.get slot = none

def Drained (g : Gates κ) : Prop :=
  (∀ root, g.root = some root → g.channels.queue root.commands = []) ∧
    ∀ id gate, g.clones.get id = some gate → g.channels.queue gate.commands = []

def isUnsubscribeOf (slot : Uuid) : GateCommand κ → Bool
  | .followUnsubscribe slot' => slot' = slot
  | _ => false

/-- A replayed subscription is not late: the link is still subscribed and not suspended, or its
replayed unsubscription waits in the same queue. -/
def Replayable (links : Dict Uuid (UpdateSender × Bool)) (rest : List (GateCommand κ)) :
    GateCommand κ → Prop
  | .followSubscribe slot sender => links.get slot = some (sender, false) ∨
      (links.get slot = none ∧ rest.any (isUnsubscribeOf slot) = true)
  | _ => True

/-- The root may handle the command: there is no suspended link when it is reconfigured, and it
suspends no link that is unsubscribed and was put back. -/
def Handled (g : Gates κ) : GateCommand κ → Prop
  | .reconfigure .. => g.suspended.len = 0
  | .suspension slot true => (g.links.get slot).isSome = true ∨ g.updates.get slot = none
  | _ => True

/-- No clone replays a subscription late, or is dropped before it has removed a link that it put
back, and the root handles commands as `Handled` asks. -/
def Timely (g : Gates κ) : Move κ → Prop
  | .process .root _ => ∀ root ∈ g.root, ∀ cmd ∈ (g.channels.queue root.commands).head?, g.Handled cmd
  | .process (.clone id) _ => ∀ gate ∈ g.clones.get id,
      ∀ cmd ∈ (g.channels.queue gate.commands).head?,
        Replayable g.links (g.channels.queue gate.commands).tail cmd
  | .drop (.clone id) => ∀ gate ∈ g.clones.get id, ∀ cmd ∈ g.channels.queue gate.commands,
      ∀ slot, isUnsubscribeOf slot cmd = true → g.updates.get slot = none
  | _ => True

/-! ## The invariant -/

/-- What is known of the slot that a command names. -/
def Names (fresh : Nat) (links : Dict Uuid (UpdateSender × Bool)) : GateCommand κ → Prop
  | .followSubscribe slot _ | .suspension slot _ | .unsubscribe slot => slot < fresh
  | .followUnsubscribe slot => slot < fresh ∧ links.get slot = none
  | _ => True

/-- Some clone is going to remove the link. -/
def Pending (queue : ChannelId → List (GateCommand κ)) (clones : Dict Uuid CloneGate) (slot : Uuid) :
    Prop :=
  ∃ id gate, clones.get id = some gate ∧ .followUnsubscribe slot ∈ queue gate.commands

/-- The maps are exact but for links that were put back and will be removed again. -/
structure Delivers (g : Gates κ) : Prop where
  suspended (slot : Uuid) (sender : UpdateSender) :
    g.suspended.get slot = some sender ↔ g.links.get slot = some (sender, true)
  active {slot : Uuid} {sender : UpdateSender} (h : g.links.get slot = some (sender, false)) :
    g.updates.get slot = some sender
  updates {slot : Uuid} {sender : UpdateSender} (h : g.updates.get slot = some sender) :
    g.links.get slot = some (sender, false) ∨
      (g.links.get slot = none ∧ Pending g.channels.queue g.clones slot)
  known {slot : Uuid} (h : g.links.get slot ≠ none) : slot < g.fresh
  names {c : ChannelId} {cmd : GateCommand κ} (h : cmd ∈ g.channels.queue c) :
    Names g.fresh g.links cmd

theorem delivers_new : (new : Gates κ).Delivers :=
  ⟨fun _ _ => ⟨nofun, nofun⟩, nofun, nofun, fun h => absurd rfl h, nofun⟩

theorem Delivers.exact (h : g.Delivers) (hdrained : g.Drained) : g.Exact := by
  have hupdates (slot : Uuid) (sender : UpdateSender) :
      g.updates.get slot = some sender ↔ g.links.get slot = some (sender, false) := by
    refine ⟨fun hget => ?_, h.active⟩
    rcases h.updates hget with hlink | ⟨-, id, gate, hgate, hmem⟩
    · exact hlink
    · rw [hdrained.2 id gate hgate] at hmem
      cases hmem
  refine ⟨hupdates, h.suspended, fun slot => ?_⟩
  by_contra hboth
  obtain ⟨hu, hs⟩ := not_or.mp hboth
  obtain ⟨sender, hsender⟩ := ne_none_iff_exists'.mp hu
  obtain ⟨sender', hsender'⟩ := ne_none_iff_exists'.mp hs
  have := (h.suspended slot sender').mp hsender'
  rw [(hupdates slot sender).mp hsender] at this
  cases this

section Parts

variable {channels : Channels (GateCommand κ)}

theorem Names.mono {fresh fresh' : Nat} {links : Dict Uuid (UpdateSender × Bool)}
    (h : Names fresh links cmd) (hle : fresh ≤ fresh') : Names fresh' links cmd := by
  cases cmd with
  | followSubscribe | suspension | unsubscribe => exact Nat.lt_of_lt_of_le h hle
  | followUnsubscribe => exact ⟨Nat.lt_of_lt_of_le h.1 hle, h.2⟩
  | _ => trivial

/-- Commands move, but no clone loses an unsubscription that it has to replay. -/
theorem Delivers.withChannels (h : g.Delivers)
    (hmem : ∀ {c cmd}, cmd ∈ channels.queue c →
      cmd ∈ g.channels.queue c ∨ Names g.fresh g.links cmd)
    (hkeep : ∀ {id gate slot}, g.clones.get id = some gate →
      .followUnsubscribe slot ∈ g.channels.queue gate.commands →
      .followUnsubscribe slot ∈ channels.queue gate.commands) :
    Delivers { g with channels := channels } := by
  refine ⟨h.suspended, h.active, fun hget => ?_, h.known, fun hcmd => ?_⟩
  · refine (h.updates hget).imp id fun ⟨hnone, id, gate, hgate, hpending⟩ => ?_
    exact ⟨hnone, id, gate, hgate, hkeep hgate hpending⟩
  · rcases hmem hcmd with hold | hnew
    · exact h.names hold
    · exact hnew

theorem Delivers.send (h : g.Delivers) {cap : Nat}
    (hsend : g.channels.send cap c cmd = some channels) (hnames : Names g.fresh g.links cmd) :
    Delivers { g with channels := channels } := by
  rcases send_eq_some hsend with ⟨-, rfl⟩ | ⟨-, rfl⟩
  · exact h
  · refine h.withChannels (fun hmem => ?_) fun _ hpending =>
      mem_queue_push.mpr (.inl hpending)
    rcases mem_queue_push.mp hmem with hmem | ⟨rfl, rfl⟩
    · exact .inl hmem
    · exact .inr hnames

theorem Delivers.notify (h : g.Delivers)
    (hnames : Names g.fresh g.links cmd) : (g.notifyClones root cmd).Delivers := by
  obtain ⟨channels, senders, heq, hnotified⟩ := g.notifyClones_spec root cmd
  have hchannels : Delivers { g with channels := channels } := by
    refine h.withChannels (fun hmem => ?_) fun _ hpending => hnotified.keeps hpending
    rcases hnotified.mem hmem with hold | ⟨rfl, -⟩
    · exact .inl hold
    · exact .inr hnames
  rw [heq]
  exact ⟨hchannels.suspended, hchannels.active, hchannels.updates, hchannels.known, hchannels.names⟩

theorem Delivers.tick (h : g.Delivers) : Delivers { g with fresh := g.fresh + 1 } :=
  ⟨h.suspended, h.active, h.updates, fun hslot => Nat.lt_succ_of_lt (h.known hslot),
    fun hcmd => (h.names hcmd).mono (Nat.le_succ _)⟩

theorem Delivers.conclude (self : Party) (status : GateStatus κ) {r : Gates κ × Outcome κ}
    (h : r.1.Delivers) : (Gates.conclude self status r).Delivers := by
  have hreturn (x : Party × Outcome κ) :
      Delivers { r.1 with returned := x :: r.1.returned } :=
    ⟨h.suspended, h.active, h.updates, h.known, h.names⟩
  unfold Gates.conclude
  split
  · split
    · exact h
    · exact hreturn _
  · exact hreturn _

end Parts

/-! ## Commands of the root -/

theorem Names.links {fresh : Nat} {links links' : Dict Uuid (UpdateSender × Bool)}
    (h : Names fresh links cmd)
    (hlinks : ∀ slot, slot < fresh → links.get slot = none → links'.get slot = none) :
    Names fresh links' cmd := by
  cases cmd with
  | followUnsubscribe slot => exact ⟨h.1, hlinks slot h.1 h.2⟩
  | _ => exact h

section Relink

variable {updates suspended : FrimMap Uuid UpdateSender} {links : Dict Uuid (UpdateSender × Bool)}
  {slot : Uuid} {sender : UpdateSender} {flag : Bool}

/-- One link is, from now on, in the map that its flag says.  It was subscribed before, or its slot
is new. -/
theorem Delivers.relink (h : g.Delivers) (hslot : slot < g.fresh)
    (hfree : ∀ {c}, .followUnsubscribe slot ∉ g.channels.queue c)
    (hlinks : ∀ s, links.get s = if s = slot then some (sender, flag) else g.links.get s)
    (hupdates : ∀ s, updates.get s =
      if s = slot then (if flag then none else some sender) else g.updates.get s)
    (hsuspended : ∀ s, suspended.get s =
      if s = slot then (if flag then some sender else none) else g.suspended.get s) :
    Delivers { g with
      updates := updates
      suspended := suspended
      links := links } := by
  refine ⟨fun s u => ?_, fun {s u} hlink => ?_, fun {s u} hget => ?_, fun {s} hlink => ?_,
    fun {c cmd} hcmd => ?_⟩
  · change suspended.get s = some u ↔ links.get s = some (u, true)
    rw [hsuspended, hlinks]
    split
    · cases flag <;> simp
    · exact h.suspended s u
  · change updates.get s = some u
    change links.get s = some (u, false) at hlink
    rw [hupdates]
    rw [hlinks] at hlink
    split at hlink
    next heq =>
      cases hlink
      rw [if_pos heq]
      rfl
    next hne =>
      rw [if_neg hne]
      exact h.active hlink
  · change links.get s = some (u, false) ∨ links.get s = none ∧ _
    change updates.get s = some u at hget
    rw [hlinks]
    rw [hupdates] at hget
    split at hget
    next heq =>
      rw [if_pos heq]
      cases flag with
      | true => cases hget
      | false =>
        cases hget
        exact .inl rfl
    next hne =>
      rw [if_neg hne]
      exact h.updates hget
  · change links.get s ≠ none at hlink
    rw [hlinks] at hlink
    split at hlink
    next heq => exact heq ▸ hslot
    · exact h.known hlink
  · have hnames := h.names hcmd
    cases cmd with
    | followUnsubscribe s =>
      refine ⟨hnames.1, ?_⟩
      change links.get s = none
      rw [hlinks, if_neg]
      · exact hnames.2
      · rintro rfl
        exact hfree hcmd
    | _ => exact hnames

/-- The slot of a link that is subscribed is in no unsubscription. -/
theorem Delivers.free_of_link (h : g.Delivers) {link : UpdateSender × Bool}
    (hlink : g.links.get slot = some link) : .followUnsubscribe slot ∉ g.channels.queue c := by
  intro hmem
  rw [(h.names hmem).2] at hlink
  cases hlink

/-- A new slot is in no unsubscription. -/
theorem Delivers.free_of_fresh (h : g.Delivers) :
    .followUnsubscribe g.fresh ∉ g.channels.queue c := by
  intro hmem
  exact absurd (h.names hmem).1 (Nat.lt_irrefl _)

theorem get_setSuspended (links : Dict Uuid (UpdateSender × Bool)) (slot : Uuid) (suspend : Bool)
    (s : Uuid) :
    (setSuspended links slot suspend).get s =
      if s = slot then (links.get slot).map (fun link => (link.1, suspend)) else links.get s := by
  unfold setSuspended
  cases hlink : links.get slot with
  | none =>
    dsimp only
    by_cases hs : s = slot <;> simp [hs, hlink]
  | some link =>
    obtain ⟨sender, flag⟩ := link
    exact get_insert ..

/-- Where a subscribed link is. -/
theorem Delivers.maps_of_link (h : g.Delivers) (hlink : g.links.get slot = some (sender, flag)) :
    g.updates.get slot = (if flag then none else some sender) ∧
      g.suspended.get slot = if flag then some sender else none := by
  cases flag with
  | true =>
    refine ⟨?_, (h.suspended slot sender).mpr hlink⟩
    by_contra hne
    obtain ⟨sender', hsender'⟩ := ne_none_iff_exists'.mp hne
    rcases h.updates hsender' with hother | ⟨hnone, -⟩
    · rw [hlink] at hother
      cases hother
    · rw [hlink] at hnone
      cases hnone
  | false =>
    refine ⟨h.active hlink, ?_⟩
    by_contra hne
    obtain ⟨sender', hsender'⟩ := ne_none_iff_exists'.mp hne
    have hother := (h.suspended slot sender').mp hsender'
    rw [hlink] at hother
    cases hother

theorem Delivers.suspension (h : g.Delivers) (slot : Uuid) (suspend : Bool)
    (hhandled : g.Handled (.suspension slot suspend)) : (g.suspension slot suspend).Delivers := by
  obtain ⟨updates, suspended, heq, hupdates, hsuspended⟩ := g.suspension_spec slot suspend
  rw [heq]
  cases hlink : g.links.get slot with
  | none =>
    -- the slot is in neither map, but for a link that is to be removed
    have hnone : g.suspended.get slot = none := by
      by_contra hne
      obtain ⟨sender, hsender⟩ := ne_none_iff_exists'.mp hne
      rw [(h.suspended slot sender).mp hsender] at hlink
      cases hlink
    have hgone : suspend = true → g.updates.get slot = none := by
      rintro rfl
      simpa [Handled, hlink] using hhandled
    have hsame : setSuspended g.links slot suspend = g.links := by
      simp [setSuspended, hlink]
    have hu : updates.get = g.updates.get := by
      funext s
      rw [hupdates, hnone]
      split
      next hs =>
        cases suspend with
        | true => rw [hs, hgone rfl]; rfl
        | false => rw [hs]; rfl
      · rfl
    have hs : suspended.get = g.suspended.get := by
      funext s
      rw [hsuspended, hnone]
      split
      next hs =>
        cases suspend with
        | true => rw [hs, hnone, hgone rfl]; rfl
        | false => rw [hs, hnone]; rfl
      · rfl
    rw [hsame]
    refine ⟨fun s u => ?_, fun {s u} hl => ?_, fun {s u} hget => ?_, h.known, h.names⟩
    · exact (congrFun hs s).symm ▸ h.suspended s u
    · exact (congrFun hu s).trans (h.active hl)
    · exact h.updates ((congrFun hu s).symm.trans hget)
  | some link =>
    obtain ⟨sender, flag⟩ := link
    have hslot : slot < g.fresh := h.known (by simp [hlink])
    obtain ⟨hu, hs⟩ := h.maps_of_link hlink
    have hlinks (s : Uuid) : (setSuspended g.links slot suspend).get s =
        if s = slot then some (sender, suspend) else g.links.get s := by
      rw [get_setSuspended, hlink]
      rfl
    refine h.relink hslot (h.free_of_link hlink) hlinks (fun s => ?_) fun s => ?_
    · rw [hupdates, hu, hs]
      cases suspend <;> cases flag <;> rfl
    · rw [hsuspended, hu, hs]
      cases suspend <;> cases flag <;> rfl

end Relink

section

variable (h : g.Delivers)
include h

/-- A slot that was never handed out is in no map. -/
theorem Delivers.get_fresh :
    g.links.get g.fresh = none ∧ g.suspended.get g.fresh = none ∧ g.updates.get g.fresh = none := by
  have hlink : g.links.get g.fresh = none := by
    by_contra hne
    exact absurd (h.known hne) (Nat.lt_irrefl _)
  refine ⟨hlink, ?_, ?_⟩
  · by_contra hne
    obtain ⟨sender, hsender⟩ := ne_none_iff_exists'.mp hne
    rw [(h.suspended _ sender).mp hsender] at hlink
    cases hlink
  · by_contra hne
    obtain ⟨sender, hsender⟩ := ne_none_iff_exists'.mp hne
    rcases h.updates hsender with hother | ⟨-, id, gate, -, hmem⟩
    · rw [hother] at hlink
      cases hlink
    · exact h.free_of_fresh hmem

/-- The maps are replaced by ones that read the same. -/
theorem Delivers.withMaps {updates suspended : FrimMap Uuid UpdateSender}
    (hupdates : ∀ s, updates.get s = g.updates.get s)
    (hsuspended : ∀ s, suspended.get s = g.suspended.get s) :
    Delivers { g with
      updates := updates
      suspended := suspended } := by
  refine ⟨fun s u => ?_, fun {s u} hl => ?_, fun {s u} hget => ?_, h.known, h.names⟩
  · exact (hsuspended s).symm ▸ h.suspended s u
  · exact (hupdates s).trans (h.active hl)
  · exact h.updates ((hupdates s).symm.trans hget)

theorem Delivers.subscribe (root : RootGate) (suspended response : Bool)
    (directUpdate : Option Uuid) : (g.subscribe root suspended response directUpdate).Delivers := by
  obtain ⟨hlink, hs, hu⟩ := h.get_fresh
  unfold Gates.subscribe
  dsimp only
  generalize newSender g.fresh directUpdate = sender
  -- what is inserted for a link that is gone is removed again
  have hback {m : FrimMap Uuid UpdateSender} (hm : m.get g.fresh = none) (s : Uuid) :
      ((m.insert g.fresh sender).remove g.fresh).1.get s = m.get s := by
    rw [FrimMap.get_remove, FrimMap.get_insert]
    split
    next heq => rw [heq, hm]
    · rfl
  have hother {m : FrimMap Uuid UpdateSender} (hm : m.get g.fresh = none) (s : Uuid) :
      m.get s = if s = g.fresh then none else m.get s := by
    split
    next heq => rw [heq, hm]
    · rfl
  have hinsert (s : Uuid) : (g.links.insert g.fresh (sender, suspended)).get s =
      if s = g.fresh then some (sender, suspended) else g.links.get s := get_insert ..
  have hfree {c : ChannelId} : .followUnsubscribe g.fresh ∉ g.channels.queue c := h.free_of_fresh
  cases response <;> cases suspended
  · exact h.tick.withMaps (hback hu) fun _ => rfl
  · exact h.tick.withMaps (fun _ => rfl) (hback hs)
  · refine Delivers.notify ?_ (Nat.lt_succ_self _)
    exact h.tick.relink (Nat.lt_succ_self _) hfree hinsert (fun s => FrimMap.get_insert ..) (hother hs)
  · refine Delivers.notify ?_ (Nat.lt_succ_self _)
    exact h.tick.relink (Nat.lt_succ_self _) hfree hinsert (hother hu) fun s => FrimMap.get_insert ..

variable {slot : Uuid}

theorem Delivers.unsubscribe (root : RootGate)
    (hslot : slot < g.fresh) : (g.unsubscribe root slot).Delivers := by
  have hgone : (g.links.erase slot).get slot = none := by
    rw [get_erase, if_pos rfl]
  refine Delivers.notify ?_ ⟨hslot, hgone⟩
  refine ⟨fun s u => ?_, fun {s u} hlink => ?_, fun {s u} hget => ?_, fun {s} hlink => ?_,
    fun hcmd => (h.names hcmd).links fun s _ hnone => ?_⟩
  · change (g.suspended.remove slot).1.get s = some u ↔ (g.links.erase slot).get s = some (u, true)
    rw [FrimMap.get_remove, get_erase]
    split
    · simp
    · exact h.suspended s u
  · change (g.updates.remove slot).1.get s = some u
    change (g.links.erase slot).get s = some (u, false) at hlink
    rw [get_erase] at hlink
    rw [FrimMap.get_remove]
    split at hlink
    · cases hlink
    next hne =>
      rw [if_neg hne]
      exact h.active hlink
  · change (g.links.erase slot).get s = some (u, false) ∨ (g.links.erase slot).get s = none ∧ _
    change (g.updates.remove slot).1.get s = some u at hget
    rw [FrimMap.get_remove] at hget
    rw [get_erase]
    split at hget
    · cases hget
    next hne =>
      rw [if_neg hne]
      exact h.updates hget
  · change (g.links.erase slot).get s ≠ none at hlink
    rw [get_erase] at hlink
    split at hlink
    · exact absurd rfl hlink
    · exact h.known hlink
  · rw [get_erase, hnone, ite_self]

/-- No link is subscribed after a `Reconfigure`; the map of suspended links is not cleared. -/
theorem Delivers.reconfigure (root : RootGate) (newConfig : κ) (newGate : NewGate)
    (hempty : g.suspended.len = 0) : (g.reconfigure root newConfig newGate).Delivers := by
  refine Delivers.notify ?_ trivial
  have hnone (s : Uuid) : g.suspended.get s = none := by
    have hinner := length_eq_zero_iff.mp hempty
    simp [FrimMap.get, hinner]
  refine ⟨fun s u => ?_, nofun, nofun, fun hlink => absurd rfl hlink,
    fun hcmd => (h.names hcmd).links fun _ _ _ => rfl⟩
  change g.suspended.get s = some u ↔ _
  rw [hnone]
  exact ⟨nofun, nofun⟩

/-! ## Steps -/

/-- A command is taken from the root's channel, which is no clone's. -/
theorem Delivers.popRoot (hw : g.Wired) (hroot : g.root = some root) :
    Delivers { g with channels := g.channels.pop root.commands } := by
  refine h.withChannels (fun hmem => .inl (mem_of_mem_pop hmem)) fun {id gate slot} hgate hmem => ?_
  rw [queue_pop, if_neg]
  · exact hmem
  · rw [(hw.clones hgate).commands]
    exact hw.ne_commands hroot hgate

theorem Delivers.handleRoot (root : RootGate) (hnames : Names g.fresh g.links cmd)
    (hhandled : g.Handled cmd) :
    (Gates.conclude .root status (g.handleRoot root cmd)).Delivers := by
  refine Delivers.conclude _ _ ?_
  cases cmd with
  | suspension slot suspend => exact h.suspension slot suspend hhandled
  | subscribe suspended response directUpdate => exact h.subscribe root suspended response directUpdate
  | unsubscribe slot => exact h.unsubscribe root hnames
  | reconfigure newConfig newGate => exact h.reconfigure root newConfig newGate hhandled
  | reportLinks | terminate => exact h.notify trivial
  | attachClone | detachClone =>
    exact ⟨h.suspended, h.active, h.updates, h.known, h.names⟩
  | followSubscribe | followUnsubscribe | followReconfigure | trigger => exact h

theorem Delivers.processRoot (hw : g.Wired) (htimely : g.Timely (.process .root status))
    (hstep : g.process status .root = some g') : g'.Delivers := by
  obtain ⟨root, hroot, ⟨cmd, rest, hqueue, -, rfl⟩ | ⟨-, rfl⟩⟩ := processRoot_cases hstep
  · refine (h.popRoot hw hroot).handleRoot root (h.names (hqueue ▸ mem_cons_self)) ?_
    have hhandled := htimely root hroot cmd (by simp [hqueue])
    cases cmd <;> exact hhandled
  · exact Delivers.conclude _ _ h

/-- A clone takes a command from its own channel.  A link that it is to remove keeps its
unsubscription, unless this is the command. -/
theorem Delivers.popClone (hqueue : g.channels.queue gate.commands = cmd :: rest)
    (hcmd : ∀ slot, cmd ≠ .followUnsubscribe slot) :
    Delivers { g with channels := g.channels.pop gate.commands } := by
  refine h.withChannels (fun hmem => .inl (mem_of_mem_pop hmem)) fun {id' gate' slot} _ hmem => ?_
  rcases mem_pop_or hqueue hmem with hkept | ⟨-, heq⟩
  · exact hkept
  · exact absurd heq.symm (hcmd slot)

theorem Delivers.followSubscribe {id : Uuid} (hgate : g.clones.get id = some gate)
    {sender : UpdateSender}
    (hqueue : g.channels.queue gate.commands = .followSubscribe slot sender :: rest)
    (htimely : Replayable g.links rest (.followSubscribe slot sender)) :
    Delivers { g with
      channels := g.channels.pop gate.commands
      updates := g.updates.insert slot sender } := by
  have hpop := h.popClone hqueue nofun
  have hget (s : Uuid) : (g.updates.insert slot sender).get s =
      if s = slot then some sender else g.updates.get s := FrimMap.get_insert ..
  refine ⟨hpop.suspended, fun {s u} hlink => ?_, fun {s u} hs => ?_, hpop.known, hpop.names⟩
  · change (g.updates.insert slot sender).get s = some u
    change g.links.get s = some (u, false) at hlink
    rw [hget]
    split
    next heq =>
      -- the link is subscribed, so it is the one that is replayed
      rcases htimely with hsame | ⟨hnone, -⟩
      · rw [heq, hsame] at hlink
        cases hlink
        rfl
      · rw [heq, hnone] at hlink
        cases hlink
    · exact h.active hlink
  · change (g.updates.insert slot sender).get s = some u at hs
    rw [hget] at hs
    split at hs
    next heq =>
      cases hs
      rw [heq]
      rcases htimely with hsame | ⟨hnone, hrest⟩
      · exact .inl hsame
      · obtain ⟨cmd, hcmd, hslot⟩ := any_eq_true.mp hrest
        cases cmd with
        | followUnsubscribe slot' =>
          obtain rfl : slot' = slot := by simpa [isUnsubscribeOf] using hslot
          refine .inr ⟨hnone, id, gate, hgate, ?_⟩
          change _ ∈ (g.channels.pop gate.commands).queue gate.commands
          rw [queue_pop, if_pos rfl, hqueue]
          exact hcmd
        | _ => cases hslot
    · exact hpop.updates hs

theorem Delivers.followUnsubscribe
    (hqueue : g.channels.queue gate.commands = .followUnsubscribe slot :: rest) :
    Delivers { g with
      channels := g.channels.pop gate.commands
      updates := (g.updates.remove slot).1 } := by
  have hnames : Names g.fresh g.links (.followUnsubscribe slot : GateCommand κ) :=
    h.names (hqueue ▸ mem_cons_self)
  have hgone : g.links.get slot = none := hnames.2
  have hget (s : Uuid) : (g.updates.remove slot).1.get s =
      if s = slot then none else g.updates.get s := FrimMap.get_remove ..
  refine ⟨h.suspended, fun {s u} hlink => ?_, fun {s u} hs => ?_, h.known,
    fun hcmd => h.names (mem_of_mem_pop hcmd)⟩
  · change (g.updates.remove slot).1.get s = some u
    change g.links.get s = some (u, false) at hlink
    rw [hget, if_neg]
    · exact h.active hlink
    · rintro rfl
      rw [hgone] at hlink
      cases hlink
  · change (g.updates.remove slot).1.get s = some u at hs
    rw [hget] at hs
    split at hs
    · cases hs
    next hne =>
      refine (h.updates hs).imp_right ?_
      rintro ⟨hnone, id, gate', hgate', hmem⟩
      refine ⟨hnone, id, gate', hgate', ?_⟩
      rcases mem_pop_or hqueue hmem with hkept | ⟨-, heq⟩
      · exact hkept
      · cases heq
        exact absurd rfl hne

theorem Delivers.processClone (hw : g.Wired) {id : Uuid}
    (htimely : g.Timely (.process (.clone id) status))
    (hstep : g.process status (.clone id) = some g') : g'.Delivers := by
  obtain ⟨gate, hgate, ⟨cmd, rest, r, hqueue, hr, rfl⟩ | ⟨-, rfl⟩⟩ := processClone_cases hstep
  · have hforwarded := hw.forwarded_of_queue hgate hqueue
    refine Delivers.conclude _ _ ?_
    cases cmd with
    | followSubscribe slot sender =>
      cases hr
      refine h.followSubscribe hgate hqueue ?_
      have := htimely gate hgate _ (by rw [hqueue]; rfl)
      rwa [hqueue] at this
    | followUnsubscribe slot =>
      cases hr
      exact h.followUnsubscribe hqueue
    | followReconfigure | reportLinks | terminate =>
      cases hr
      exact h.popClone hqueue nofun
    | _ => cases hforwarded
  · exact Delivers.conclude _ _ h

theorem Delivers.drop {self : Party} (htimely : g.Timely (.drop self))
    (hstep : g.drop self = some g') : g'.Delivers := by
  cases self with
  | root =>
    obtain ⟨root, hroot, rfl⟩ := map_eq_some_iff.mp hstep
    exact ⟨h.suspended, h.active, h.updates, h.known, h.names⟩
  | clone id =>
    obtain ⟨gate, hgate, hstep⟩ := bind_eq_some_iff.mp hstep
    obtain ⟨g₁, hdetach, hstep⟩ := bind_eq_some_iff.mp hstep
    obtain ⟨channels, hsend, rfl⟩ := map_eq_some_iff.mp hdetach
    cases hstep
    have hsent := h.send hsend trivial
    refine ⟨hsent.suspended, hsent.active, fun {s u} hs => ?_, hsent.known, hsent.names⟩
    rcases h.updates hs with hlink | ⟨hnone, id', gate', hgate', hmem⟩
    · exact .inl hlink
    · -- the clone that removes the link is another one
      have hne : id' ≠ id := by
        rintro rfl
        cases hgate.symm.trans hgate'
        have hget := htimely gate hgate _ hmem s (by simp [isUnsubscribeOf])
        rw [hget] at hs
        cases hs
      refine .inr ⟨hnone, id', gate', ?_, ?_⟩
      · change (g.clones.erase id).get id' = some gate'
        rw [get_erase, if_neg hne, hgate']
      · rcases send_eq_some hsend with ⟨-, rfl⟩ | ⟨-, rfl⟩
        · exact hmem
        · exact mem_queue_push.mpr (.inl hmem)

theorem Delivers.clone (hw : g.Wired) {self : Party}
    (hstep : g.clone self = some g') : g'.Delivers := by
  obtain ⟨parent, hparent, rfl⟩ := map_eq_some_iff.mp hstep
  have htick := h.tick
  refine ⟨htick.suspended, htick.active, fun hs => ?_, htick.known, htick.names⟩
  refine (h.updates hs).imp_right fun ⟨hnone, id, gate, hgate, hmem⟩ => ⟨hnone, id, gate, ?_, hmem⟩
  exact (get_insert_of_ne _ (Nat.ne_of_lt (hw.clones hgate).lt)).trans hgate

theorem Delivers.step (hw : g.Wired) {m : Move κ} (htimely : g.Timely m)
    (hstep : g.step m = some g') : g'.Delivers := by
  cases m with
  | newGate =>
    cases hstep
    have htick := h.tick
    exact ⟨htick.suspended, htick.active, htick.updates, htick.known, htick.names⟩
  | release c =>
    cases hstep
    exact ⟨h.suspended, h.active, h.updates, h.known, h.names⟩
  | send c cmd =>
    change g.send c cmd = some g' at hstep
    unfold Gates.send at hstep
    split at hstep
    next hmay =>
      obtain ⟨channels, hsend, rfl⟩ := map_eq_some_iff.mp hstep
      have hmay := ((Bool.and_eq_true ..).mp hmay).2
      refine h.send hsend ?_
      cases cmd with
      | suspension slot | unsubscribe slot => exact of_decide_eq_true (p := slot < g.fresh) hmay
      | followSubscribe | followUnsubscribe => cases hmay
      | _ => trivial
    · cases hstep
  | clone self => exact h.clone hw hstep
  | attach n =>
    obtain ⟨a, -, hstep⟩ := bind_eq_some_iff.mp hstep
    obtain ⟨channels, hsend, hstep⟩ := bind_eq_some_iff.mp hstep
    cases hstep
    have hsent := h.send hsend trivial
    exact ⟨hsent.suspended, hsent.active, hsent.updates, hsent.known, hsent.names⟩
  | process self status =>
    cases self with
    | root => exact h.processRoot hw htimely hstep
    | clone id => exact h.processClone hw htimely hstep
  | drop self => exact h.drop htimely hstep

end

/-! ## Runs -/

/-- If no step of a run is late, the maps are exact whenever all queues are drained. -/
theorem exact_of_timely {ms : List (Move κ)} (htimely : Along step Timely new ms)
    (hrun : exec step new ms = some g) (hdrained : g.Drained) : g.Exact := by
  have hinv := exec_invariant step (fun g => g.Wired ∧ g.Delivers) Timely
    (fun g m g' ⟨hw, h⟩ htimely hstep => ⟨hw.step hstep, h.step hw htimely hstep⟩)
    ⟨wired_new, delivers_new⟩ htimely hrun
  exact hinv.2.exact hdrained

/-! ## A suspended link that a clone puts back -/

theorem Wired.drained (h : g.Wired)
    (hempty : (List.range g.fresh).all (fun c => (g.channels.queue c).isEmpty) = true) :
    g.Drained := by
  have hqueue {c : ChannelId} (hc : c < g.fresh) : g.channels.queue c = [] :=
    isEmpty_iff.mp (List.all_eq_true.mp hempty c (mem_range.mpr hc))
  refine ⟨fun root hroot => hqueue (h.root hroot).commands, fun id gate hgate => ?_⟩
  rw [(h.clones hgate).commands]
  exact hqueue (h.clones hgate).lt

theorem wired_of_exec {ms : List (Move κ)} (hrun : exec step new ms = some g) : g.Wired :=
  exec_invariant step Wired (fun _ _ => True) (fun _ _ _ hw _ hstep => hw.step hstep) wired_new
    (along_of_forall step new fun _ _ _ => trivial) hrun

namespace Replayed

/-- A clone is made and attached, a link subscribes, and the clone replays it. -/
def replay (suspended : Bool) : List (Move Unit) :=
  [.clone .root, .attach 0, .process .root .dormant, .send 0 (.subscribe suspended true none),
    .process .root .dormant, .process (.clone 1) .dormant]

def look (g : Gates Unit) : Bool × Option UpdateSender × Option UpdateSender :=
  ((List.range g.fresh).all fun c => (g.channels.queue c).isEmpty, g.updates.get 2, g.suspended.get 2)

/-- A link that subscribes in suspended state ends up in both maps. -/
theorem both_maps : ∃ g, exec step new (replay true) = some g ∧ g.Drained ∧ ¬ g.Exact := by
  have hlook : (exec step new (replay true)).map look =
      some (true, some ⟨some 2, none⟩, some ⟨some 2, none⟩) := by decide +kernel
  obtain ⟨g, hg, hlook⟩ := map_eq_some_iff.mp hlook
  obtain ⟨hempty, hmaps⟩ := Prod.mk.inj hlook
  obtain ⟨hupdates, hsuspended⟩ := Prod.mk.inj hmaps
  refine ⟨g, hg, (wired_of_exec hg).drained hempty, fun hexact => ?_⟩
  rcases hexact.disjoint 2 with hnone | hnone
  · rw [hupdates] at hnone
    cases hnone
  · rw [hsuspended] at hnone
    cases hnone

/-- A test that is enough for this run. -/
def timelyTest (g : Gates Unit) : Move Unit → Bool
  | .process .root _ => g.root.all fun root => (g.channels.queue root.commands).head?.all fun cmd =>
    match cmd with
    | .reconfigure .. | .suspension .. => false
    | _ => true
  | .process (.clone id) _ => (g.clones.get id).all fun gate =>
    (g.channels.queue gate.commands).head?.all fun cmd =>
      match cmd with
      | .followSubscribe slot sender => g.links.get slot = some (sender, false)
      | _ => true
  | .drop _ => false
  | _ => true

theorem timely_of_test (g : Gates Unit) (m : Move Unit) (h : timelyTest g m = true) : g.Timely m := by
  cases m with
  | process self status =>
    cases self with
    | root =>
      intro root hroot cmd hcmd
      have := (Option.all_eq_true ..).mp ((Option.all_eq_true ..).mp h root hroot) cmd hcmd
      cases cmd with
      | reconfigure | suspension => cases this
      | _ => trivial
    | clone id =>
      intro gate hgate cmd hcmd
      have := (Option.all_eq_true ..).mp ((Option.all_eq_true ..).mp h gate hgate) cmd hcmd
      cases cmd with
      | followSubscribe slot sender => exact .inl (of_decide_eq_true this)
      | _ => trivial
  | drop self => cases h
  | _ => trivial

/-- A link that is not suspended is where it was. -/
theorem delivered_once : ∃ g, exec step new (replay false) = some g ∧ g.Drained ∧ g.Exact ∧
    g.updates.get 2 = some ⟨some 2, none⟩ := by
  have hlook : (exec step new (replay false)).map look = some (true, some ⟨some 2, none⟩, none) := by
    decide +kernel
  have htimely : Along step Timely new (replay false) :=
    along_of_test step timely_of_test (by decide +kernel)
  obtain ⟨g, hg, hlook⟩ := map_eq_some_iff.mp hlook
  obtain ⟨hempty, hmaps⟩ := Prod.mk.inj hlook
  obtain ⟨hupdates, -⟩ := Prod.mk.inj hmaps
  have hdrained := (wired_of_exec hg).drained hempty
  exact ⟨g, hg, hdrained, exact_of_timely htimely hg hdrained, hupdates⟩

end Replayed

end Gates

end Rotonda.Comms
