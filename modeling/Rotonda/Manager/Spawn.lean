import Rotonda.Lib.Runs
import Rotonda.Manager.Config

/-!
What spawning a configuration does, name by name.

The loops of `spawnInternal` run over hash maps in any order, and the step for a name touches the
entries of that name only.  So the whole is described by what happens at one name (`Slot`).

* `local_targetStep`, `local_unitStep`, `local_drainUnit`, `local_drainTarget`: the steps act on the
  slot of their name;
* `Clashes`: a unit and a target of one name that would both have to be spawned;
* `spawnInternal_eq_none_iff`: spawning panics exactly then;
* `spawnInternal_spec`: the running components and the commands each of them got.
-/

namespace Rotonda.Manager

open Lib Lib.Runs List Option Keyed Spawning

variable {s : Spawning}

/-- The commands that one component got. -/
def commands (kind : Kind) (name : Name) (log : List Action) : List Verb :=
  log.filterMap fun a => if a.kind = kind ∧ a.name = name then some a.verb else none

theorem commands_append (kind : Kind) (name : Name) (log log' : List Action) :
    commands kind name (log ++ log') = commands kind name log ++ commands kind name log' :=
  filterMap_append ..

@[simp] theorem commands_singleton (kind : Kind) (name : Name) (a : Action) :
    commands kind name [a] = if a.kind = kind ∧ a.name = name then [a.verb] else [] := by
  rw [commands, filterMap_cons]
  split <;> simp_all

/-! ## One name -/

@[ext] structure Slot where
  runningUnit : Option RunningUnit
  runningTarget : Option (Component TargetType)
  pendingGate : Option Gate
  newRunningUnit : Option RunningUnit
  newRunningTarget : Option (Component TargetType)
  tracked : Bool
  unitLog : List Verb
  targetLog : List Verb

def Spawning.slot (s : Spawning) (name : Name) : Slot where
  runningUnit := s.runningUnits.get name
  runningTarget := s.runningTargets.get name
  pendingGate := s.pendingGates.get name
  newRunningUnit := s.newRunningUnits.get name
  newRunningTarget := s.newRunningTargets.get name
  tracked := s.tracked.contains name
  unitLog := commands .unit name s.log
  targetLog := commands .target name s.log

namespace Slot

def spawnTarget (v : Slot) (target : Component TargetType) : Option Slot :=
  if v.tracked then none
  else some { v with
    tracked := true, newRunningTarget := some target, targetLog := v.targetLog ++ [.spawn] }

def target (new : Component TargetType) (v : Slot) : Option Slot :=
  match v.runningTarget with
  | some running =>
    let v := { v with runningTarget := none }
    if new.type ≠ running.type then
      spawnTarget { v with targetLog := v.targetLog ++ [.terminate] } new
    else some { v with newRunningTarget := some new, targetLog := v.targetLog ++ [.reconfigure] }
  | none => v.spawnTarget new

def spawnUnit (v : Slot) (unit : Component UnitType) (gate : Gate) : Option Slot :=
  if v.tracked then none
  else some { v with
    tracked := true, newRunningUnit := some ⟨unit.type, gate, unit.links⟩
    unitLog := v.unitLog ++ [.spawn] }

def drainUnit (v : Slot) : Slot :=
  match v.runningUnit with
  | some _ => { v with runningUnit := none, unitLog := v.unitLog ++ [.terminate] }
  | none => v

def drainTarget (v : Slot) : Slot :=
  match v.runningTarget with
  | some _ => { v with runningTarget := none, targetLog := v.targetLog ++ [.terminate] }
  | none => v

/-- A unit that some link names, with its new gate. -/
def referenced (v : Slot) (new : Component UnitType) (gate : Gate) : Option Slot :=
  match v.runningUnit with
  | some running =>
    let v := { v with runningUnit := none }
    if new.type ≠ running.type then
      spawnUnit { v with unitLog := v.unitLog ++ [.terminate] } new gate
    else some { v with
      newRunningUnit := some ⟨new.type, gate, new.links⟩
      unitLog := v.unitLog ++ [.reconfigure] }
  | none => v.spawnUnit new gate

def unit (new : Component UnitType) (v : Slot) : Option Slot :=
  match v.pendingGate with
  | none => some v.drainUnit
  | some gate => referenced { v with pendingGate := none } new gate

end Slot

/-! ## The steps act on the slot of their name -/

namespace Spawning

variable {name : Name}

@[simp] theorem slot_record (s : Spawning) (kind : Kind) (name : Name) (verb : Verb) (n : Name) :
    (s.record kind name verb).slot n = { s.slot n with
      unitLog := (s.slot n).unitLog ++ if kind = .unit ∧ n = name then [verb] else []
      targetLog := (s.slot n).targetLog ++ if kind = .target ∧ n = name then [verb] else [] } := by
  simp [record, slot, commands_append, eq_comm (a := n)]

section

variable (s : Spawning) (name : Name)

variable (n : Name)

theorem slot_erase_target :
    slot { s with runningTargets := s.runningTargets.erase name } n =
      { s.slot n with runningTarget := if n = name then none else (s.slot n).runningTarget } := rfl

theorem slot_erase_unit :
    slot { s with runningUnits := s.runningUnits.erase name } n =
      { s.slot n with runningUnit := if n = name then none else (s.slot n).runningUnit } := rfl

theorem slot_erase_gate :
    slot { s with pendingGates := s.pendingGates.erase name } n =
      { s.slot n with pendingGate := if n = name then none else (s.slot n).pendingGate } := rfl

theorem slot_insert_target (target : Component TargetType) (n : Name) :
    slot { s with newRunningTargets := s.newRunningTargets.insert name target } n =
      { s.slot n with
        newRunningTarget := if n = name then some target else (s.slot n).newRunningTarget } := rfl

theorem slot_insert_unit (unit : RunningUnit) (n : Name) :
    slot { s with newRunningUnits := s.newRunningUnits.insert name unit } n =
      { s.slot n with
        newRunningUnit := if n = name then some unit else (s.slot n).newRunningUnit } := rfl

end

theorem track_eq_none (h : (s.slot name).tracked = true) : s.track name = none := by
  rw [track, if_pos (by simpa [slot] using h)]

theorem track_eq_some (h : (s.slot name).tracked = false) :
    ∃ t, s.track name = some t ∧ ∀ n, t.slot n =
      { s.slot n with tracked := if n = name then true else (s.slot n).tracked } := by
  refine ⟨_, if_neg (by simpa [slot] using h), fun n => ?_⟩
  by_cases hn : n = name <;> simp [slot, hn]

/-- The views of an action that does not fail, in two parts. -/
theorem acts_of_slots {t : Spawning} {v : Slot}
    (h : ∀ n, t.slot n = if n = name then v else s.slot n) :
    Keyed.Acts slot s name (some t) (some v) :=
  .done (by rw [h, if_pos rfl]) fun n hn => by rw [h, if_neg hn]

theorem acts_spawnTarget (s : Spawning) (name : Name) (target : Component TargetType) :
    Keyed.Acts slot s name (s.spawnTarget name target) ((s.slot name).spawnTarget target) := by
  cases htracked : (s.slot name).tracked with
  | true =>
    rw [spawnTarget, track_eq_none htracked, Slot.spawnTarget, htracked]
    exact .fails
  | false =>
    obtain ⟨t, ht, hslots⟩ := track_eq_some htracked
    rw [spawnTarget, ht, Slot.spawnTarget, htracked]
    refine acts_of_slots fun n => ?_
    refine (slot_insert_target (t.record .target name .spawn) name target n).trans ?_
    rw [slot_record, hslots]
    by_cases hn : n = name <;> simp [hn]

theorem acts_spawnUnit (s : Spawning) (name : Name) (unit : Component UnitType) (gate : Gate) :
    Keyed.Acts slot s name (s.spawnUnit name unit gate) ((s.slot name).spawnUnit unit gate) := by
  cases htracked : (s.slot name).tracked with
  | true =>
    rw [spawnUnit, track_eq_none htracked, Slot.spawnUnit, htracked]
    exact .fails
  | false =>
    obtain ⟨t, ht, hslots⟩ := track_eq_some htracked
    rw [spawnUnit, ht, Slot.spawnUnit, htracked]
    refine acts_of_slots fun n => ?_
    refine (slot_insert_unit (t.record .unit name .spawn) name _ n).trans ?_
    rw [slot_record, hslots]
    by_cases hn : n = name <;> simp [hn]

theorem local_drainUnit : Keyed.Local drainUnit slot fun _ v => some v.drainUnit := by
  intro s name _
  unfold drainUnit Slot.drainUnit
  cases hrunning : s.runningUnits.get name with
  | none =>
    simp only [show (s.slot name).runningUnit = none from hrunning]
    exact .done rfl fun _ _ => rfl
  | some running =>
    simp only [show (s.slot name).runningUnit = some running from hrunning]
    refine acts_of_slots fun n => ?_
    rw [slot_record, slot_erase_unit]
    by_cases hn : n = name <;> simp [hn]

theorem local_drainTarget : Keyed.Local drainTarget slot fun _ v => some v.drainTarget := by
  intro s name _
  unfold drainTarget Slot.drainTarget
  cases hrunning : s.runningTargets.get name with
  | none =>
    simp only [show (s.slot name).runningTarget = none from hrunning]
    exact .done rfl fun _ _ => rfl
  | some running =>
    simp only [show (s.slot name).runningTarget = some running from hrunning]
    refine acts_of_slots fun n => ?_
    rw [slot_record, slot_erase_target]
    by_cases hn : n = name <;> simp [hn]

theorem local_targetStep : Keyed.Local targetStep slot Slot.target := by
  intro s name target
  unfold targetStep Slot.target
  cases hrunning : s.runningTargets.get name with
  | none =>
    simp only [show (s.slot name).runningTarget = none from hrunning]
    exact acts_spawnTarget s name target
  | some running =>
    simp only [show (s.slot name).runningTarget = some running from hrunning]
    by_cases htype : target.type = running.type
    · rw [if_neg (not_not.mpr htype), if_neg (not_not.mpr htype)]
      refine acts_of_slots fun n => ?_
      refine (slot_insert_target (record { s with
        runningTargets := s.runningTargets.erase name } .target name .reconfigure) name target
        n).trans ?_
      rw [slot_record, slot_erase_target]
      by_cases hn : n = name <;> simp [hn]
    · rw [if_pos htype, if_pos htype]
      have hspawn := acts_spawnTarget (record { s with
        runningTargets := s.runningTargets.erase name } .target name .terminate) name target
      rw [slot_record, slot_erase_target] at hspawn
      simp only [reduceCtorEq, false_and, if_false, and_self, if_true, append_nil] at hspawn
      refine hspawn.of_other fun n hn => ?_
      rw [slot_record, slot_erase_target]
      simp [hn]

/-- A unit with a gate, the gate taken out of the pending ones. -/
theorem acts_referenced (s : Spawning) (name : Name) (unit : Component UnitType) (gate : Gate) :
    Keyed.Acts slot s name
      (match s.runningUnits.get name with
        | some running =>
          if unit.type ≠ running.type then
            (record { s with runningUnits := s.runningUnits.erase name } .unit name
              .terminate).spawnUnit name unit gate
          else some { record { s with runningUnits := s.runningUnits.erase name } .unit name
              .reconfigure with
            newRunningUnits := s.newRunningUnits.insert name ⟨unit.type, gate, unit.links⟩ }
        | none => s.spawnUnit name unit gate)
      ((s.slot name).referenced unit gate) := by
  unfold Slot.referenced
  cases hrunning : s.runningUnits.get name with
  | none =>
    simp only [show (s.slot name).runningUnit = none from hrunning]
    exact acts_spawnUnit s name unit gate
  | some running =>
    simp only [show (s.slot name).runningUnit = some running from hrunning]
    by_cases htype : unit.type = running.type
    · rw [if_neg (not_not.mpr htype), if_neg (not_not.mpr htype)]
      refine acts_of_slots fun n => ?_
      refine (slot_insert_unit (record { s with
        runningUnits := s.runningUnits.erase name } .unit name .reconfigure) name _ n).trans ?_
      rw [slot_record, slot_erase_unit]
      by_cases hn : n = name <;> simp [hn]
    · rw [if_pos htype, if_pos htype]
      have hspawn := acts_spawnUnit (record { s with
        runningUnits := s.runningUnits.erase name } .unit name .terminate) name unit gate
      rw [slot_record, slot_erase_unit] at hspawn
      simp only [reduceCtorEq, false_and, if_false, and_self, if_true, append_nil] at hspawn
      refine hspawn.of_other fun n hn => ?_
      rw [slot_record, slot_erase_unit]
      simp [hn]

theorem local_unitStep : Keyed.Local unitStep slot Slot.unit := by
  intro s name unit
  unfold unitStep Slot.unit
  cases hgate : s.pendingGates.get name with
  | none =>
    simp only [show (s.slot name).pendingGate = none from hgate]
    exact local_drainUnit s name ()
  | some gate =>
    simp only [show (s.slot name).pendingGate = some gate from hgate]
    have hreferenced := acts_referenced { s with
      pendingGates := s.pendingGates.erase name } name unit gate
    rw [slot_erase_gate, if_pos rfl] at hreferenced
    refine hreferenced.of_other fun n hn => ?_
    rw [slot_erase_gate, if_neg hn]

end Spawning

/-! ## All loops -/

/-- The state in which the loops start. -/
def spawning (m : Manager) : Spawning :=
  ⟨m.runningUnits, m.runningTargets, m.pendingGates, Dict.empty, Dict.empty, [], []⟩

/-- What all loops together do at one name. -/
def Slot.spawn (target : Option (Component TargetType)) (unit : Option (Component UnitType))
    (v : Slot) : Option Slot :=
  (target.elim (some v) fun t => v.target t).bind fun v =>
    (unit.elim (some v) fun u => v.unit u).map fun v => v.drainUnit.drainTarget

/-- The commands that lead from one type, or none, to another. -/
def changes {T : Type} [DecidableEq T] : Option T → Option T → List Verb
  | none, none => []
  | none, some _ => [.spawn]
  | some _, none => [.terminate]
  | some old, some new => if new = old then [.reconfigure] else [.terminate, .spawn]

/-- A unit and a target of one name, neither of them running with its type: both are spawned. -/
def Clashes (m : Manager) (config : Config) : Prop :=
  ∃ n u t, Keyed.find config.units n = some u ∧ Keyed.find config.targets n = some t ∧
    (m.pendingGates.get n).isSome ∧
    (m.runningUnits.get n).map RunningUnit.type ≠ some u.type ∧
    (m.runningTargets.get n).map Component.type ≠ some t.type

/-- The unit that a configuration and a pending gate make. -/
def unitOf (u : Option (Component UnitType)) (gate : Option Gate) : Option RunningUnit :=
  u.bind fun u => gate.map fun gate => ⟨u.type, gate, u.links⟩

namespace Slot

variable {v : Slot}
variable {t : Option (Component TargetType)} {u : Option (Component UnitType)}

theorem target_eq (t : Component TargetType) (htracked : v.tracked = false)
    (hlog : v.targetLog = []) :
    v.target t = some { v with
      runningTarget := none
      newRunningTarget := some t
      tracked := decide (v.runningTarget.map Component.type ≠ some t.type)
      targetLog := changes (v.runningTarget.map Component.type) (some t.type) } := by
  unfold target
  cases hrunning : v.runningTarget with
  | none => simp [spawnTarget, htracked, hlog, changes, hrunning]
  | some running =>
    by_cases htype : t.type = running.type
    · simp [htype, htracked, hlog, changes]
    · simp [htype, Ne.symm htype, spawnTarget, htracked, hlog, changes]

theorem unit_eq_none_iff (u : Component UnitType) :
    v.unit u = none ↔ v.pendingGate.isSome ∧
      v.runningUnit.map RunningUnit.type ≠ some u.type ∧ v.tracked = true := by
  unfold unit referenced
  cases hgate : v.pendingGate with
  | none => simp
  | some gate =>
    cases hrunning : v.runningUnit with
    | none => simp [spawnUnit]
    | some running =>
      by_cases htype : u.type = running.type
      · simp [htype]
      · simp [htype, Ne.symm htype, spawnUnit]

theorem unit_eq_some {w : Slot} {u : Component UnitType} (hlog : v.unitLog = [])
    (hnew : v.newRunningUnit = none) (h : v.unit u = some w) :
    ∃ tracked, w = { v with
      runningUnit := none
      pendingGate := none
      newRunningUnit := unitOf (some u) v.pendingGate
      tracked := tracked
      unitLog := changes (v.runningUnit.map RunningUnit.type)
        ((unitOf (some u) v.pendingGate).map RunningUnit.type) } := by
  refine ⟨w.tracked, ?_⟩
  unfold unit referenced at h
  cases hgate : v.pendingGate with
  | none =>
    cases hrunning : v.runningUnit <;> simp only [hgate, hrunning, drainUnit] at h <;> cases h <;>
      simp [Slot.ext_iff, unitOf, changes, hlog, hnew, hrunning, hgate]
  | some gate =>
    cases hrunning : v.runningUnit with
    | none =>
      simp only [hgate, hrunning, spawnUnit] at h
      split at h <;> cases h
      simp [unitOf, changes, hlog]
    | some running =>
      by_cases htype : u.type = running.type
      · simp only [hgate, hrunning, htype] at h
        simp at h
        cases h
        simp [unitOf, changes, hlog, htype]
      · simp only [hgate, hrunning, spawnUnit, ne_eq, htype] at h
        simp at h
        obtain ⟨_, rfl⟩ := h
        simp [unitOf, changes, hlog, htype]

/-- A name before any loop. -/
structure Idle (v : Slot) : Prop where
  newRunningUnit : v.newRunningUnit = none
  newRunningTarget : v.newRunningTarget = none
  tracked : v.tracked = false
  unitLog : v.unitLog = []
  targetLog : v.targetLog = []

theorem spawn_eq_none_iff (h : v.Idle) (t : Option (Component TargetType))
    (u : Option (Component UnitType)) :
    Slot.spawn t u v = none ↔ ∃ u' t', u = some u' ∧ t = some t' ∧ v.pendingGate.isSome ∧
      v.runningUnit.map RunningUnit.type ≠ some u'.type ∧
      v.runningTarget.map Component.type ≠ some t'.type := by
  cases u with
  | none => cases t <;> simp [spawn, target_eq _ h.tracked h.targetLog]
  | some u =>
    cases t with
    | none => simp [spawn, unit_eq_none_iff, h.tracked]
    | some t => simp [spawn, target_eq _ h.tracked h.targetLog, unit_eq_none_iff]

/-- The commands of the last loops go to what is still running. -/
private theorem drained (v : Slot) :
    v.drainUnit.drainTarget.newRunningUnit = v.newRunningUnit ∧
      v.drainUnit.drainTarget.newRunningTarget = v.newRunningTarget ∧
      v.drainUnit.drainTarget.pendingGate = v.pendingGate ∧
      v.drainUnit.drainTarget.unitLog =
        v.unitLog ++ (v.runningUnit.elim [] fun _ => [.terminate]) ∧
      v.drainUnit.drainTarget.targetLog =
        v.targetLog ++ (v.runningTarget.elim [] fun _ => [.terminate]) := by
  cases hu : v.runningUnit <;> cases ht : v.runningTarget <;>
    simp [drainUnit, drainTarget, hu, ht]

/-- The loops over the configuration do not start anything among what was running. -/
theorem running_after (h : v.Idle) {v₁ v₂ : Slot}
    (hv₁ : (t.elim (some v) fun t => v.target t) = some v₁)
    (hv₂ : (u.elim (some v₁) fun u => v₁.unit u) = some v₂) :
    (v.runningUnit = none → v₂.runningUnit = none) ∧
      (v.runningTarget = none → v₂.runningTarget = none) := by
  have hfirst : v₁.runningUnit = v.runningUnit ∧ v₁.unitLog = [] ∧ v₁.newRunningUnit = none ∧
      (v.runningTarget = none → v₁.runningTarget = none) := by
    cases t with
    | none =>
      cases hv₁
      exact ⟨rfl, h.unitLog, h.newRunningUnit, id⟩
    | some t =>
      rw [elim_some, target_eq _ h.tracked h.targetLog] at hv₁
      cases hv₁
      exact ⟨rfl, h.unitLog, h.newRunningUnit, fun _ => rfl⟩
  obtain ⟨hru, hul, hnu, hrt⟩ := hfirst
  cases u with
  | none =>
    cases hv₂
    exact ⟨fun hnone => hru.trans hnone, hrt⟩
  | some u =>
    obtain ⟨tracked, rfl⟩ := unit_eq_some hul hnu hv₂
    exact ⟨fun _ => rfl, hrt⟩

theorem spawn_eq_some {w : Slot} (h : v.Idle) (hw : Slot.spawn t u v = some w) :
    w.newRunningUnit = unitOf u v.pendingGate ∧ w.newRunningTarget = t ∧
      w.pendingGate = (if u.isSome then none else v.pendingGate) ∧
      w.unitLog = changes (v.runningUnit.map RunningUnit.type)
        ((unitOf u v.pendingGate).map RunningUnit.type) ∧
      w.targetLog = changes (v.runningTarget.map Component.type) (t.map Component.type) := by
  obtain ⟨v₁, hv₁, hw⟩ := bind_eq_some_iff.mp hw
  obtain ⟨v₂, hv₂, rfl⟩ := map_eq_some_iff.mp hw
  obtain ⟨hunit, htarget, hpending, hunitLog, htargetLog⟩ := drained v₂
  rw [hunit, htarget, hpending, hunitLog, htargetLog]
  have hfirst : v₁.runningUnit = v.runningUnit ∧ v₁.pendingGate = v.pendingGate ∧
      v₁.newRunningUnit = none ∧ v₁.unitLog = [] ∧ v₁.newRunningTarget = t ∧
      v₁.targetLog ++ (v₁.runningTarget.elim [] fun _ => [Verb.terminate]) =
        changes (v.runningTarget.map Component.type) (t.map Component.type) := by
    cases t with
    | none =>
      cases hv₁
      refine ⟨rfl, rfl, h.newRunningUnit, h.unitLog, h.newRunningTarget, ?_⟩
      rw [h.targetLog]
      cases v.runningTarget <;> rfl
    | some t =>
      rw [elim_some, target_eq _ h.tracked h.targetLog] at hv₁
      cases hv₁
      exact ⟨rfl, rfl, h.newRunningUnit, h.unitLog, rfl, append_nil _⟩
  obtain ⟨hru, hpg, hnu, hul, hnt, htl⟩ := hfirst
  cases u with
  | none =>
    cases hv₂
    refine ⟨hnu, hnt, hpg, ?_, htl⟩
    rw [hul, hru]
    cases v.runningUnit <;> rfl
  | some u =>
    obtain ⟨tracked, rfl⟩ := unit_eq_some hul hnu hv₂
    dsimp only
    rw [hpg, hru]
    exact ⟨rfl, hnt, rfl, append_nil _, htl⟩

end Slot

/-- A reload did what the configuration and the pending gates ask for. -/
structure Matches (m : Manager) (config : Config) (m' : Manager) (log : List Action) :
    Prop where
  units : ∀ n, m'.runningUnits.get n =
    unitOf (Keyed.find config.units n) (m.pendingGates.get n)
  targets : ∀ n, m'.runningTargets.get n = Keyed.find config.targets n
  unitCommands : ∀ n, commands .unit n log =
    changes ((m.runningUnits.get n).map RunningUnit.type)
      ((m'.runningUnits.get n).map RunningUnit.type)
  targetCommands : ∀ n, commands .target n log =
    changes ((m.runningTargets.get n).map Component.type)
      ((m'.runningTargets.get n).map Component.type)
  pendingGates : ∀ n, m'.pendingGates.get n =
    if (Keyed.find config.units n).isSome then none else m.pendingGates.get n
  gates : m'.gates = m.gates
  nextGate : m'.nextGate = m.nextGate

theorem idle_spawning (m : Manager) (n : Name) : (m.spawning.slot n).Idle :=
  ⟨rfl, rfl, rfl, rfl, rfl⟩

section Loops

variable {orders : Orders} {m : Manager} {config : Config}
variable {order : List Name} {step : Spawning → Name → Unit → Option Spawning} {drain : Slot → Slot}

theorem nodup_keys (h : order.Nodup) : ((keys order).map Prod.fst).Nodup := by
  rwa [keys, List.map_map, show (Prod.fst ∘ fun n : Name => (n, ())) = id from rfl, List.map_id]

theorem find_keys (order : List Name) (n : Name) :
    (Keyed.find (keys order) n).isSome ↔ n ∈ order := by
  rw [find_isSome_iff, keys, List.map_map, show
    (Prod.fst ∘ fun n : Name => (n, ())) = id from rfl, List.map_id]

section

variable (hlocal : Keyed.Local step Spawning.slot fun _ v => some (drain v)) (hnodup : order.Nodup)
include hlocal hnodup

/-- A loop that drains does so at every name, where names without an entry need not be in its
order. -/
theorem drained_of_loop {t : Spawning} (hloop : Keyed.loop step s (keys order) = some t) {n : Name}
    (hout : n ∉ order → drain (s.slot n) = s.slot n) : t.slot n = drain (s.slot n) := by
  have hact := actAt_of_loop hlocal (nodup_keys hnodup) hloop n
  rw [Keyed.actAt] at hact
  cases hfind : Keyed.find (keys order) n with
  | some _ =>
    rw [hfind] at hact
    exact (Option.some.inj hact).symm
  | none =>
    rw [hfind] at hact
    have hnot : n ∉ order := by
      rw [← find_keys, hfind]
      simp
    rw [hout hnot]
    exact (Option.some.inj hact).symm

theorem drain_ne_none (s : Spawning) : ∃ t, Keyed.loop step s (keys order) = some t := by
  refine ne_none_iff_exists'.mp fun hnone => ?_
  obtain ⟨n, hn⟩ := (loop_fails_iff hlocal (nodup_keys hnodup)).mp hnone
  rw [Keyed.actAt] at hn
  cases hfind : Keyed.find (keys order) n <;> rw [hfind] at hn <;> cases hn

end

variable (hunits : (config.units.map Prod.fst).Nodup)
  (htargets : (config.targets.map Prod.fst).Nodup) (hcu : m.runningUnits.Covers orders.units)
  (hct : m.runningTargets.Covers orders.targets)

include hunits htargets

/-- The loops over the configuration, name by name. -/
theorem configured_fails_iff :
    (∃ n, Slot.spawn (Keyed.find config.targets n) (Keyed.find config.units n)
        (m.spawning.slot n) = none) ↔
      ((Keyed.loop Spawning.targetStep m.spawning config.targets).bind fun s =>
        Keyed.loop Spawning.unitStep s config.units) = none := by
  cases hs : Keyed.loop Spawning.targetStep m.spawning config.targets with
  | none =>
    obtain ⟨n, hn⟩ := (loop_fails_iff local_targetStep htargets).mp hs
    refine ⟨fun _ => rfl, fun _ => ⟨n, ?_⟩⟩
    rw [Slot.spawn]
    exact bind_eq_none_iff.mpr fun v hv => absurd (hn.symm.trans hv) nofun
  | some s =>
    rw [bind_some, loop_fails_iff local_unitStep hunits]
    refine exists_congr fun n => ?_
    have hact := actAt_of_loop local_targetStep htargets hs n
    rw [Slot.spawn, show ((Keyed.find config.targets n).elim (some (m.spawning.slot n))
      fun t => Slot.target t (m.spawning.slot n)) = some (s.slot n) from hact, bind_some,
      map_eq_none_iff]
    rfl

include hcu hct

/-- A spawn that does not panic has acted on every name. -/
theorem slots_of_loops {s₁ s₂ s₃ s₄ : Spawning}
    (h₁ : Keyed.loop Spawning.targetStep m.spawning config.targets = some s₁)
    (h₂ : Keyed.loop Spawning.unitStep s₁ config.units = some s₂)
    (h₃ : Keyed.loop Spawning.drainUnit s₂ (keys orders.units) = some s₃)
    (h₄ : Keyed.loop Spawning.drainTarget s₃ (keys orders.targets) = some s₄) (n : Name) :
    Slot.spawn (Keyed.find config.targets n) (Keyed.find config.units n) (m.spawning.slot n) =
      some (s₄.slot n) := by
  have hv₁ := actAt_of_loop local_targetStep htargets h₁ n
  have hv₂ := actAt_of_loop local_unitStep hunits h₂ n
  obtain ⟨hru, hrt⟩ := Slot.running_after (idle_spawning m n) hv₁ hv₂
  have hv₃ : s₃.slot n = (s₂.slot n).drainUnit := by
    refine drained_of_loop local_drainUnit hcu.1 h₃ fun hout => ?_
    have hnone : m.runningUnits.get n = none :=
      not_isSome_iff_eq_none.mp fun hsome => hout (hcu.2 n hsome)
    rw [Slot.drainUnit, hru hnone]
  have hv₄ : s₄.slot n = (s₃.slot n).drainTarget := by
    refine drained_of_loop local_drainTarget hct.1 h₄ fun hout => ?_
    have hnone : m.runningTargets.get n = none :=
      not_isSome_iff_eq_none.mp fun hsome => hout (hct.2 n hsome)
    have hsame : (s₃.slot n).runningTarget = (s₂.slot n).runningTarget := by
      rw [hv₃, Slot.drainUnit]
      split <;> rfl
    rw [Slot.drainTarget, hsame, hrt hnone]
  rw [Slot.spawn, show ((Keyed.find config.targets n).elim (some (m.spawning.slot n))
    fun t => Slot.target t (m.spawning.slot n)) = some (s₁.slot n) from hv₁, bind_some,
    show ((Keyed.find config.units n).elim (some (s₁.slot n))
      fun u => Slot.unit u (s₁.slot n)) = some (s₂.slot n) from hv₂, map_some, hv₄, hv₃]

/-- Spawning panics exactly when a unit and a target of one name are both to be spawned. -/
theorem spawnInternal_eq_none_iff : spawnInternal orders m config = none ↔ Clashes m config := by
  have hclash : Clashes m config ↔
      ∃ n, Slot.spawn (Keyed.find config.targets n) (Keyed.find config.units n)
        (m.spawning.slot n) = none := by
    refine exists_congr fun n => ?_
    rw [Slot.spawn_eq_none_iff (idle_spawning m n)]
    rfl
  rw [hclash, configured_fails_iff hunits htargets]
  change ((Keyed.loop Spawning.targetStep m.spawning config.targets).bind fun s =>
    (Keyed.loop Spawning.unitStep s config.units).bind _) = none ↔ _
  rw [← bind_assoc]
  cases hs : (Keyed.loop Spawning.targetStep m.spawning config.targets).bind fun s =>
    Keyed.loop Spawning.unitStep s config.units with
  | none => simp
  | some s₂ =>
    obtain ⟨s₃, h₃⟩ := drain_ne_none local_drainUnit hcu.1 s₂
    obtain ⟨s₄, h₄⟩ := drain_ne_none local_drainTarget hct.1 s₃
    simp [h₃, h₄]

/-- The running components and the commands after a spawn that does not panic. -/
theorem matches_of_spawnInternal {m' : Manager} {log : List Action}
    (h : spawnInternal orders m config = some (m', log)) : Matches m config m' log := by
  obtain ⟨s₁, h₁, h⟩ := bind_eq_some_iff.mp h
  obtain ⟨s₂, h₂, h⟩ := bind_eq_some_iff.mp h
  obtain ⟨s₃, h₃, h⟩ := bind_eq_some_iff.mp h
  obtain ⟨s₄, h₄, h⟩ := bind_eq_some_iff.mp h
  cases h
  have hslots := fun n => Slot.spawn_eq_some (idle_spawning m n)
    (slots_of_loops hunits htargets hcu hct h₁ h₂ h₃ h₄ n)
  refine ⟨fun n => (hslots n).1, fun n => (hslots n).2.1, fun n => ?_, fun n => ?_,
    fun n => (hslots n).2.2.1, rfl, rfl⟩
  · obtain ⟨hunit, _, _, hlog, _⟩ := hslots n
    exact hlog.trans (by rw [← hunit]; rfl)
  · obtain ⟨_, htarget, _, _, hlog⟩ := hslots n
    exact hlog.trans (by rw [← htarget]; rfl)

end Loops

end Rotonda.Manager
