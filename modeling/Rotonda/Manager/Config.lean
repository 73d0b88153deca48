import Mathlib.Algebra.Ring.Nat
import Rotonda.Lib.Dict
import Rotonda.Lib.Keyed

/-!
The manager: loading a configuration, preparing it, and starting, reconfiguring and stopping units
and targets to match it.

Loading a document creates a gate for every unit that some link names, in a table of its own
(`gates`, a thread-local variable of the source); preparing it moves these gates to the pending
gates of the manager; spawning hands them to the units.  Each stage can fail in the middle.

* `loadLink`, `load`, `prepare`, `spawnInternal`: the stages, with every place where they stop;
* an `Orders` says in which order the maps are iterated (`Orders.Iterates`).
-/

namespace Rotonda

open Lib

abbrev Name := String

inductive UnitType where
  | bgpTcpIn
  | bmpTcpIn
  | bmpTcpOut
  | ribUnit
  | mrtFileIn
  | rtrTcpIn
  deriving DecidableEq, Repr

inductive TargetType where
  | file
  | mqtt
  | null
  deriving DecidableEq, Repr

/-- Gates are numbered as they are created. -/
structure Gate where
  id : Nat
  queueSize : Nat
  deriving DecidableEq, Repr

/-- A link sends its commands to the gate whose agent created it. -/
structure Link where
  gate : Nat
  deriving DecidableEq, Repr

/-! ## Configurations -/

/-- A section of a document: the type of the component and the links it names. -/
structure Section (T : Type) where
  type : T
  sources : List String
  deriving DecidableEq, Repr

/-- A document that can be read, its sections in the order of the hash maps they end up in. -/
structure ConfigFile where
  units : List (Name × Section UnitType)
  targets : List (Name × Section TargetType)
  /-- Whether the roto script, if there is one, compiles. -/
  rotoCompiles : Bool
  nodup_units : (units.map Prod.fst).Nodup
  nodup_targets : (targets.map Prod.fst).Nodup

inductive Document where
  /-- Reading stops at an error, after these links. -/
  | malformed (sources : List String)
  | config (file : ConfigFile)

structure Component (T : Type) where
  type : T
  links : List Link
  deriving DecidableEq, Repr

structure Config where
  units : List (Name × Component UnitType)
  targets : List (Name × Component TargetType)
  rotoCompiles : Bool
  deriving DecidableEq, Repr

structure RunningUnit where
  type : UnitType
  gate : Gate
  links : List Link
  deriving DecidableEq, Repr

structure Manager where
  gates : Dict Name Gate
  pendingGates : Dict Name Gate
  runningUnits : Dict Name RunningUnit
  runningTargets : Dict Name (Component TargetType)
  nextGate : Nat

namespace Manager

def new : Manager := ⟨Dict.empty, Dict.empty, Dict.empty, Dict.empty, 0⟩

/-! ## Loading -/

def defUpdateQueueLen : Nat := 8

/-- Decimal digits, after an optional plus sign, that fit 64 bits. -/
def parseUsize (options : List Char) : Option Nat :=
  let digits := if options.head? = some '+' then options.tail else options
  if digits.isEmpty || !digits.all Char.isDigit then none
  else
    let n := digits.foldl (fun n c => 10 * n + (c.toNat - '0'.toNat)) 0
    if n < 2 ^ 64 then some n else none

/-- The name of a link, up to its first colon, and the queue length after it. -/
def getQueueSizeForLink (linkId : String) : Name × Nat :=
  match linkId.toList.span (· ≠ ':') with
  | (name, _ :: options) => (String.ofList name, (parseUsize options).getD defUpdateQueueLen)
  | (_, []) => (linkId, defUpdateQueueLen)

def linkName (linkId : String) : Name := (getQueueSizeForLink linkId).1

/-- A link to the gate of the named unit, which is created at the first link. -/
def loadLink (m : Manager) (linkId : String) : Manager × Link :=
  match m.gates.get (linkName linkId) with
  | some gate => (m, ⟨gate.id⟩)
  | none =>
    ({ m with
      gates := m.gates.insert (linkName linkId) ⟨m.nextGate, (getQueueSizeForLink linkId).2⟩
      nextGate := m.nextGate + 1 }, ⟨m.nextGate⟩)

def loadLinks : Manager → List String → Manager × List Link
  | m, [] => (m, [])
  | m, linkId :: linkIds =>
    let (m, link) := m.loadLink linkId
    let (m, links) := loadLinks m linkIds
    (m, link :: links)

def loadSections {T : Type} :
    Manager → List (Name × Section T) → Manager × List (Name × Component T)
  | m, [] => (m, [])
  | m, (name, sec) :: secs =>
    let (m, links) := m.loadLinks sec.sources
    let (m, comps) := loadSections m secs
    (m, (name, ⟨sec.type, links⟩) :: comps)

def load (m : Manager) : Document → Manager × Option Config
  | .malformed sources => ((m.loadLinks sources).1, none)
  | .config file =>
    let (m, units) := m.loadSections file.units
    let (m, targets) := m.loadSections file.targets
    (m, some ⟨units, targets, file.rotoCompiles⟩)

/-! ## Preparing -/

/-- The loop over the gates that were drained: each goes to the pending gates, until one is for a
name that is not a unit. -/
def resolveLoop (config : Config) (gates : Dict Name Gate) : Manager → List Name → Manager × Bool
  | m, [] => (m, true)
  | m, name :: order =>
    match gates.get name with
    | none => resolveLoop config gates m order
    | some gate =>
      if name ∉ config.units.map Prod.fst then (m, false)
      else resolveLoop config gates
        { m with pendingGates := m.pendingGates.insert name gate } order

/-- Whether preparing succeeds.  A script that does not compile leaves the gates where they are. -/
def prepare (order : List Name) (m : Manager) (config : Config) : Manager × Bool :=
  if !config.rotoCompiles then (m, false)
  else resolveLoop config m.gates { m with gates := Dict.empty } order

/-! ## Spawning -/

inductive Kind where
  | unit
  | target
  deriving DecidableEq, Repr

inductive Verb where
  | spawn
  | reconfigure
  | terminate
  deriving DecidableEq, Repr

/-- A command that a component receives. -/
structure Action where
  kind : Kind
  name : Name
  verb : Verb
  deriving DecidableEq, Repr

/-- The maps while components are matched with a configuration, the names the coordinator tracks
and the commands given so far. -/
structure Spawning where
  runningUnits : Dict Name RunningUnit
  runningTargets : Dict Name (Component TargetType)
  pendingGates : Dict Name Gate
  newRunningUnits : Dict Name RunningUnit
  newRunningTargets : Dict Name (Component TargetType)
  tracked : List Name
  log : List Action

namespace Spawning

def record (s : Spawning) (kind : Kind) (name : Name) (verb : Verb) : Spawning :=
  { s with log := s.log ++ [⟨kind, name, verb⟩] }

/-- The coordinator holds a second component of one name for unreachable, and panics. -/
def track (s : Spawning) (name : Name) : Option Spawning :=
  if name ∈ s.tracked then none else some { s with tracked := name :: s.tracked }

def spawnTarget (s : Spawning) (name : Name) (target : Component TargetType) : Option Spawning :=
  (s.track name).map fun s =>
    { s.record .target name .spawn with
      newRunningTargets := s.newRunningTargets.insert name target }

def targetStep (s : Spawning) (name : Name) (target : Component TargetType) : Option Spawning :=
  match s.runningTargets.get name with
  | some running =>
    let s := { s with runningTargets := s.runningTargets.erase name }
    if target.type ≠ running.type then (s.record .target name .terminate).spawnTarget name target
    else
      some { s.record .target name .reconfigure with
        newRunningTargets := s.newRunningTargets.insert name target }
  | none => s.spawnTarget name target

def spawnUnit (s : Spawning) (name : Name) (unit : Component UnitType) (gate : Gate) :
    Option Spawning :=
  (s.track name).map fun s =>
    { s.record .unit name .spawn with
      newRunningUnits := s.newRunningUnits.insert name ⟨unit.type, gate, unit.links⟩ }

def unitStep (s : Spawning) (name : Name) (unit : Component UnitType) : Option Spawning :=
  match s.pendingGates.get name with
  | none =>
    -- no link names the unit
    match s.runningUnits.get name with
    | some _ =>
      some ({ s with runningUnits := s.runningUnits.erase name }.record .unit name .terminate)
    | none => some s
  | some gate =>
    let s := { s with pendingGates := s.pendingGates.erase name }
    match s.runningUnits.get name with
    | some running =>
      let s := { s with runningUnits := s.runningUnits.erase name }
      if unit.type ≠ running.type then (s.record .unit name .terminate).spawnUnit name unit gate
      else
        some { s.record .unit name .reconfigure with
          newRunningUnits := s.newRunningUnits.insert name ⟨unit.type, gate, unit.links⟩ }
    | none => s.spawnUnit name unit gate

def drainUnit (s : Spawning) (name : Name) (_ : Unit) : Option Spawning :=
  match s.runningUnits.get name with
  | some _ =>
    some ({ s with runningUnits := s.runningUnits.erase name }.record .unit name .terminate)
  | none => some s

def drainTarget (s : Spawning) (name : Name) (_ : Unit) : Option Spawning :=
  match s.runningTargets.get name with
  | some _ =>
    some ({ s with runningTargets := s.runningTargets.erase name }.record .target name .terminate)
  | none => some s

end Spawning

/-- Orders in which the maps of the manager are iterated. -/
structure Orders where
  gates : List Name
  units : List Name
  targets : List Name

/-- The entries of an order, for a loop over it. -/
def keys (order : List Name) : List (Name × Unit) := order.map (·, ())

/-- The manager after a configuration was spawned, and the commands given; none for a panic. -/
def spawnInternal (orders : Orders) (m : Manager) (config : Config) :
    Option (Manager × List Action) := do
  let s : Spawning :=
    ⟨m.runningUnits, m.runningTargets, m.pendingGates, Dict.empty, Dict.empty, [], []⟩
  let s ← Keyed.loop Spawning.targetStep s config.targets
  let s ← Keyed.loop Spawning.unitStep s config.units
  let s ← Keyed.loop Spawning.drainUnit s (keys orders.units)
  let s ← Keyed.loop Spawning.drainTarget s (keys orders.targets)
  return ({ m with
    runningUnits := s.newRunningUnits
    runningTargets := s.newRunningTargets
    pendingGates := s.pendingGates }, s.log)

/-- What became of a reload. -/
inductive Result where
  | failed
  | spawned (log : List Action)
  deriving DecidableEq, Repr

def reload (orders : Orders) (m : Manager) (doc : Document) : Option (Manager × Result) :=
  match m.load doc with
  | (m, none) => some (m, .failed)
  | (m, some config) =>
    match m.prepare orders.gates config with
    | (m, false) => some (m, .failed)
    | (m, true) => (m.spawnInternal orders config).map fun r => (r.1, .spawned r.2)

/-- The orders are orders of the maps that a reload iterates. -/
def Orders.Iterates (orders : Orders) (m : Manager) (doc : Document) : Prop :=
  (m.load doc).1.gates.IterOrder orders.gates ∧ m.runningUnits.Covers orders.units ∧
    m.runningTargets.Covers orders.targets

end Manager

end Rotonda
