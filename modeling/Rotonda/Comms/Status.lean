import Rotonda.Comms.Gate

/-!
What a gate reports about its links.

A gate keeps the links that are suspended in one map and the others in a second one.  It is meant to
be dormant when no link is in the second map; the status that it computes compares the sizes of the
two maps.

* `Subscriptions`: the links as their commands leave them, and the status that they call for;
* `represents_run`: after any commands the two maps hold exactly the suspended and the other links;
* `status_accurate_iff`: the status is right after every command exactly when at no time all links
  are suspended or as many are suspended as are not.
-/

namespace Rotonda.Comms

open Lib.Runs List

inductive LinkCommand where
  | subscribe (suspended response : Bool) (directUpdate : Option Uuid)
  | suspension (slot : Uuid) (suspend : Bool)
  | unsubscribe (slot : Uuid)

def LinkCommand.toGateCommand {κ : Type} : LinkCommand → GateCommand κ
  | subscribe suspended response directUpdate => .subscribe suspended response directUpdate
  | suspension slot suspend => .suspension slot suspend
  | unsubscribe slot => .unsubscribe slot

def Gates.command {κ : Type} (g : Gates κ) (cmd : LinkCommand) : Gates κ :=
  g.root.elim g fun root => (g.handleRoot root cmd.toGateCommand).1

/-! ## The links -/

/-- The links that are subscribed, with whether they are suspended, and the next slot. -/
structure Subscriptions where
  next : Uuid
  links : List (Uuid × Bool)

namespace Subscriptions

def start : Subscriptions := ⟨1, []⟩

/-- A link that does not take the answer to its `Subscribe` is not subscribed. -/
def step (s : Subscriptions) : LinkCommand → Subscriptions
  | .subscribe suspended response _ =>
    ⟨s.next + 1, if response then s.links ++ [(s.next, suspended)] else s.links⟩
  | .suspension slot suspend =>
    { s with links := s.links.map fun e => if e.1 = slot then (slot, suspend) else e }
  | .unsubscribe slot => { s with links := s.links.filter fun e => e.1 ≠ slot }

def slots (s : Subscriptions) (suspended : Bool) : List Uuid :=
  (s.links.filter fun e => e.2 = suspended).map Prod.fst

/-- A gate is active if it is connected to at least one active link. -/
def status {κ : Type} (s : Subscriptions) : GateStatus κ :=
  if s.slots false = [] then .dormant else .active

/-- There are no links at all, or some are not suspended and their number differs from that of the
suspended ones. -/
def Uneven (s : Subscriptions) : Prop :=
  s.links = [] ∨ s.slots false ≠ [] ∧ (s.slots false).length ≠ (s.slots true).length

variable {s : Subscriptions}

theorem mem_slots {b : Bool} {slot : Uuid} : slot ∈ s.slots b ↔ (slot, b) ∈ s.links := by
  simp [slots]

theorem links_eq_nil_iff (s : Subscriptions) :
    s.links = [] ↔ s.slots false = [] ∧ s.slots true = [] := by
  constructor
  · intro h
    simp [slots, h]
  · rintro ⟨hfalse, htrue⟩
    refine eq_nil_iff_forall_not_mem.mpr fun e he => ?_
    obtain ⟨slot, suspended⟩ := e
    have hslot : slot ∈ s.slots suspended := mem_slots.mpr he
    cases suspended with
    | false => simp [hfalse] at hslot
    | true => simp [htrue] at hslot

theorem mem_links_suspension {slot slot' : Uuid} {suspend b : Bool} :
    (slot', b) ∈ (s.step (.suspension slot suspend)).links ↔
      if slot' = slot then b = suspend ∧ ∃ b, (slot, b) ∈ s.links else (slot', b) ∈ s.links := by
  simp only [step, mem_map]
  constructor
  · rintro ⟨⟨slot'', b''⟩, he, heq⟩
    split at heq
    next hslot =>
      cases heq
      rw [if_pos rfl]
      exact ⟨rfl, b'', hslot ▸ he⟩
    next hslot =>
      cases heq
      rwa [if_neg hslot]
  · intro h
    split at h
    next hslot =>
      obtain ⟨rfl, b', he⟩ := h
      exact ⟨(slot, b'), he, by simp [hslot]⟩
    next hslot => exact ⟨(slot', b), h, by simp [hslot]⟩

/-- Each link has a slot of its own, which was given out before. -/
structure Proper (s : Subscriptions) : Prop where
  nodup : (s.links.map Prod.fst).Nodup
  below : ∀ e ∈ s.links, e.1 < s.next

theorem Proper.step (h : s.Proper) (cmd : LinkCommand) : (s.step cmd).Proper := by
  cases cmd with
  | subscribe suspended response directUpdate =>
    cases response with
    | false => exact ⟨h.nodup, fun e he => Nat.lt_succ_of_lt (h.below e he)⟩
    | true =>
      constructor
      · change ((s.links ++ [(s.next, suspended)]).map Prod.fst).Nodup
        rw [map_append, nodup_append]
        refine ⟨h.nodup, nodup_singleton _, fun slot hslot slot' hslot' => ?_⟩
        obtain ⟨e, he, rfl⟩ := mem_map.mp hslot
        rw [mem_singleton.mp hslot']
        exact Nat.ne_of_lt (h.below e he)
      · intro e he
        rcases mem_append.mp he with he | he
        · exact Nat.lt_succ_of_lt (h.below e he)
        · rw [mem_singleton.mp he]
          exact Nat.lt_succ_self _
  | suspension slot suspend =>
    have hfst : ∀ e : Uuid × Bool, (if e.1 = slot then (slot, suspend) else e).1 = e.1 := by
      intro e
      split
      next h => exact h.symm
      · rfl
    constructor
    · simp only [Subscriptions.step, map_map, Function.comp_def, hfst]
      exact h.nodup
    · intro e he
      obtain ⟨e', he', rfl⟩ := mem_map.mp he
      rw [hfst]
      exact h.below e' he'
  | unsubscribe slot =>
    exact ⟨(filter_sublist.map _).nodup h.nodup, fun e he => h.below e (mem_filter.mp he).1⟩

theorem Proper.nodup_slots (h : s.Proper) (b : Bool) : (s.slots b).Nodup :=
  (filter_sublist.map _).nodup h.nodup

end Subscriptions

/-! ## The maps -/

def Gates.side {κ : Type} (g : Gates κ) (suspended : Bool) : FrimMap Uuid UpdateSender :=
  if suspended then g.suspended else g.updates

/-- The maps hold the links. -/
structure Gates.Represents {κ : Type} (g : Gates κ) (s : Subscriptions) : Prop where
  proper : s.Proper
  root : g.root.isSome
  fresh : g.fresh = s.next
  side (b : Bool) (slot : Uuid) : ((g.side b).get slot).isSome ↔ (slot, b) ∈ s.links

namespace Gates

variable {κ : Type} {g : Gates κ} {s : Subscriptions}

theorem represents_new : (new : Gates κ).Represents .start where
  proper := ⟨nodup_nil, nofun⟩
  root := rfl
  fresh := rfl
  side := fun b slot => by cases b <;> simp [new, side, Subscriptions.start]

section

variable (g : Gates κ) (root : RootGate) (suspended : Bool) (directUpdate : Option Uuid) (b : Bool)
  (slot : Uuid)

/-- A link that takes the answer is in the map that it asked for, any other link where it was. -/
theorem side_subscribe :
    ((g.subscribe root suspended true directUpdate).side b).get slot =
      if b = suspended ∧ slot = g.fresh then some (newSender g.fresh directUpdate)
      else (g.side b).get slot := by
  cases suspended <;> cases b <;>
    simp [subscribe, notifyClones, side, FrimMap.get_insert]

/-- One that does not take it is in neither map. -/
theorem side_subscribe_lost :
    ((g.subscribe root suspended false directUpdate).side b).get slot =
      if b = suspended ∧ slot = g.fresh then none else (g.side b).get slot := by
  cases suspended <;> cases b <;>
    by_cases hslot : slot = g.fresh <;>
    simp [subscribe, side, FrimMap.get_insert, FrimMap.get_remove, hslot]

end

theorem side_suspension (g : Gates κ) (slot : Uuid) (suspend b : Bool) (slot' : Uuid) :
    ((g.suspension slot suspend).side b).get slot' =
      if slot' = slot then
        if b = suspend then ((g.side (!suspend)).get slot).or ((g.side suspend).get slot) else none
      else (g.side b).get slot' := by
  obtain ⟨updates, suspended, heq, hupdates, hsuspended⟩ := g.suspension_spec slot suspend
  rw [heq]
  cases b with
  | false =>
    refine (hupdates slot').trans ?_
    cases suspend <;> simp [side]
  | true =>
    refine (hsuspended slot').trans ?_
    cases suspend <;> simp [side]

theorem side_unsubscribe (g : Gates κ) (root : RootGate) (slot : Uuid) (b : Bool) (slot' : Uuid) :
    ((g.unsubscribe root slot).side b).get slot' =
      if slot' = slot then none else (g.side b).get slot' := by
  cases b <;> simp [unsubscribe, notifyClones, side, FrimMap.get_remove]

theorem Represents.step (h : g.Represents s) (cmd : LinkCommand) :
    (g.command cmd).Represents (s.step cmd) := by
  obtain ⟨root, hroot⟩ := Option.isSome_iff_exists.mp h.root
  have hproper := h.proper.step cmd
  rw [command, hroot]
  cases cmd with
  | subscribe suspended response directUpdate =>
    have hnew : ∀ b, (s.next, b) ∉ s.links := fun b hb => Nat.lt_irrefl _ (h.proper.below _ hb)
    cases response with
    | true =>
      refine ⟨hproper, rfl, ?_, fun b slot => ?_⟩
      · cases suspended <;> exact congrArg (· + 1) h.fresh
      · change (((g.subscribe root suspended true directUpdate).side b).get slot).isSome ↔ _
        rw [side_subscribe, h.fresh]
        by_cases hlink : b = suspended ∧ slot = s.next
        · simp [hlink, Subscriptions.step]
        · rw [if_neg hlink, h.side]
          simp [Subscriptions.step, and_comm.not.mp hlink]
    | false =>
      refine ⟨hproper, ?_, ?_, fun b slot => ?_⟩
      · cases suspended <;> simp [handleRoot, LinkCommand.toGateCommand, Gates.subscribe, hroot]
      · cases suspended <;> exact congrArg (· + 1) h.fresh
      · change (((g.subscribe root suspended false directUpdate).side b).get slot).isSome ↔ _
        rw [side_subscribe_lost, h.fresh]
        by_cases hlink : b = suspended ∧ slot = s.next
        · simp [hlink, Subscriptions.step, hnew]
        · rw [if_neg hlink, h.side]
          rfl
  | suspension slot suspend =>
    obtain ⟨updates, suspended, heq, -, -⟩ := g.suspension_spec slot suspend
    refine ⟨hproper, ?_, ?_, fun b slot' => ?_⟩
    · change (g.suspension slot suspend).root.isSome
      rw [heq]
      exact h.root
    · change (g.suspension slot suspend).fresh = s.next
      rw [heq]
      exact h.fresh
    · change (((g.suspension slot suspend).side b).get slot').isSome ↔ _
      rw [side_suspension, Subscriptions.mem_links_suspension]
      by_cases hslot : slot' = slot
      · rw [if_pos hslot, if_pos hslot]
        by_cases hb : b = suspend
        · rw [if_pos hb, Option.isSome_or, Bool.or_eq_true, h.side, h.side]
          cases suspend <;> simp [hb, or_comm]
        · simp [hb]
      · rw [if_neg hslot, if_neg hslot, h.side]
  | unsubscribe slot =>
    refine ⟨hproper, rfl, h.fresh, fun b slot' => ?_⟩
    change (((g.unsubscribe root slot).side b).get slot').isSome ↔ _
    rw [side_unsubscribe]
    by_cases hslot : slot' = slot
    · simp [hslot, Subscriptions.step]
    · simp [hslot, Subscriptions.step, h.side]

theorem represents_run (cmds : List LinkCommand) :
    (run command (new : Gates κ) cmds).Represents (run Subscriptions.step .start cmds) := by
  induction cmds using List.reverseRecOn with
  | nil => exact represents_new
  | append_singleton cmds cmd ih =>
    rw [run_snoc, run_snoc]
    exact ih.step cmd

theorem Represents.len_side (h : g.Represents s) (b : Bool) : (g.side b).len = (s.slots b).length :=
  FrimMap.len_eq_length (h.proper.nodup_slots b) fun slot =>
    (h.side b slot).trans Subscriptions.mem_slots.symm

/-- Comparing the sizes of the maps is right for uneven links only. -/
theorem Represents.status_iff (h : g.Represents s) : g.getGateStatus = s.status ↔ s.Uneven := by
  have hupdates : g.updates.len = (s.slots false).length := h.len_side false
  have hsuspended : g.suspended.len = (s.slots true).length := h.len_side true
  rw [getGateStatus, hupdates, hsuspended, Subscriptions.status, Subscriptions.Uneven,
    s.links_eq_nil_iff]
  by_cases hactive : s.slots false = []
  · by_cases hsusp : s.slots true = [] <;> simp [hactive, hsusp]
  · by_cases hlen : (s.slots true).length = (s.slots false).length
    · simp [hactive, hlen]
    · simp [hactive, hlen, Ne.symm hlen]

/-- The status is what the links call for after every command exactly when the links are uneven
after every command. -/
theorem status_accurate_iff (cmds : List LinkCommand) :
    (∀ pre, pre <+: cmds → (run command (new : Gates κ) pre).getGateStatus =
        (run Subscriptions.step .start pre).status) ↔
      ∀ pre, pre <+: cmds → (run Subscriptions.step .start pre).Uneven :=
  forall₂_congr fun pre _ => (represents_run pre).status_iff

/-- A gate with an active and a suspended link reports that it is dormant, and one with two suspended
links that it is active. -/
theorem status_inaccurate :
    (run command (new : Gates Unit)
        [.subscribe false true none, .subscribe true true none]).getGateStatus = .dormant ∧
      (run Subscriptions.step .start
        [.subscribe false true none, .subscribe true true none]).status (κ := Unit) = .active ∧
      (run command (new : Gates Unit)
        [.subscribe true true none, .subscribe true true none]).getGateStatus = .active ∧
      (run Subscriptions.step .start
        [.subscribe true true none, .subscribe true true none]).status (κ := Unit) = .dormant := by
  decide

end Gates

end Rotonda.Comms
