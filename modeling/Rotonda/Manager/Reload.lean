import Rotonda.Manager.Loading
import Rotonda.Manager.Spawn

/-!
Whole reloads of the configuration, one after the other.

A reload that fails leaves gates behind, in the table that loading fills or among the pending ones,
and the next reload takes them for links of its own document.

* `Spawned`: what a reload that spawns leaves: the components that run, the commands they got, and
  the unit each of their links is connected to;
* `reload_failed`, `reload_spawned`: a reload in terms of its document and of the names that have a
  gate already;
* `converges_iff`: after reloads that all spawned, the components that run are those of the last
  document, unless a unit and a target of one name are both to be spawned;
* `reload_independent_iff`: a reload ends as if nothing had been left behind exactly when what was
  left behind does it no harm.
-/

namespace Rotonda.Manager

open Lib Lib.Runs List Option

/-! ## One reload -/

/-- Whether the unit of this name counts as linked to. -/
def used (m : Manager) (file : ConfigFile) (n : Name) : Bool :=
  (m.gates.get n).isSome || (m.pendingGates.get n).isSome || decide (n ∈ references file)

/-- The script compiles, and every gate there is will be for a unit of the document. -/
def Resolves (m : Manager) (file : ConfigFile) : Prop :=
  file.rotoCompiles = true ∧
    ∀ n, (m.gates.get n).isSome ∨ n ∈ references file → n ∈ file.units.map Prod.fst

/-- A unit in use and a target have one name and neither runs already with its type. -/
def ClashesIn (m : Manager) (file : ConfigFile) (used : Name → Bool) : Prop :=
  ∃ n u t, Keyed.find file.units n = some u ∧ Keyed.find file.targets n = some t ∧
    used n = true ∧ (m.runningUnits.get n).map RunningUnit.type ≠ some u.type ∧
    (m.runningTargets.get n).map Component.type ≠ some t.type

def Feeds (m : Manager) (n : Name) (link : Link) : Prop :=
  ∃ u, m.runningUnits.get n = some u ∧ u.gate.id = link.gate

/-- Each link is connected to the unit it names and to no other. -/
def Connected (m : Manager) (linkIds : List String) (links : List Link) : Prop :=
  List.Forall₂ (fun linkId link => ∀ n, m.Feeds n link ↔ n = linkName linkId) linkIds links

/-- What a reload leaves that spawned a document. -/
structure Spawned (m : Manager) (file : ConfigFile) (m' : Manager) (log : List Action) :
    Prop where
  units : ∀ n, (m'.runningUnits.get n).map RunningUnit.type =
    if m.used file n then (Keyed.find file.units n).map Section.type else none
  targets : ∀ n, (m'.runningTargets.get n).map Component.type =
    (Keyed.find file.targets n).map Section.type
  unitCommands : ∀ n, commands .unit n log =
    changes ((m.runningUnits.get n).map RunningUnit.type)
      ((m'.runningUnits.get n).map RunningUnit.type)
  targetCommands : ∀ n, commands .target n log =
    changes ((m.runningTargets.get n).map Component.type)
      ((m'.runningTargets.get n).map Component.type)
  unitLinks : m.Wf → ∀ n u sec, m'.runningUnits.get n = some u →
    Keyed.find file.units n = some sec → m'.Connected sec.sources u.links
  targetLinks : m.Wf → ∀ n t sec, m'.runningTargets.get n = some t →
    Keyed.find file.targets n = some sec → m'.Connected sec.sources t.links
  gates : m'.gates = Dict.empty
  pendingGates : ∀ n, m'.pendingGates.get n =
    if n ∈ file.units.map Prod.fst then none else m.pendingGates.get n
  wf : m.Wf → m'.Wf

/-- A manager that is ready to spawn a document, as a configuration whose links go to `gates`. -/
structure Prepared (m : Manager) (file : ConfigFile) (gates : Dict Name Gate) (config : Config)
    (m₂ : Manager) : Prop where
  runningUnits : m₂.runningUnits = m.runningUnits
  runningTargets : m₂.runningTargets = m.runningTargets
  units : List.Forall₂ (LoadedFrom gates) file.units config.units
  targets : List.Forall₂ (LoadedFrom gates) file.targets config.targets
  used : ∀ n, (m₂.pendingGates.get n).isSome = m.used file n
  pending : ∀ n g, gates.get n = some g → m₂.pendingGates.get n = some g
  defined : ∀ n, (gates.get n).isSome → n ∈ file.units.map Prod.fst
  left : ∀ n, n ∉ file.units.map Prod.fst → m₂.pendingGates.get n = m.pendingGates.get n
  gates : m₂.gates = Dict.empty
  wf : m.Wf → m₂.Wf

variable {linkIds : List String}

namespace Prepared

variable {m m₂ m' : Manager} {file : ConfigFile} {gates : Dict Name Gate} {config : Config}
  {log : List Action}

section

variable (h : Prepared m file gates config m₂)
include h

theorem clashes_iff :
    Clashes m₂ config ↔ m.ClashesIn file (m.used file) := by
  refine exists_congr fun n => ?_
  rw [h.runningUnits, h.runningTargets, h.used]
  rcases LoadedFrom.find h.units n with ⟨hsec, hcomp⟩ | ⟨sec, comp, hsec, hcomp, htype, _⟩
  · simp [hsec, hcomp]
  · rcases LoadedFrom.find h.targets n with
      ⟨hsec', hcomp'⟩ | ⟨sec', comp', hsec', hcomp', htype', _⟩
    · simp [hsec', hcomp']
    · simp [hsec, hcomp, hsec', hcomp', htype, htype']

/-- Links to the loaded gates are connected to the units these gates are handed to. -/
theorem connected (hmatches : Matches m₂ config m' log) (hwf : m.Wf)
    {links : List Link} (hlinks : Linked gates linkIds links) : m'.Connected linkIds links := by
  refine hlinks.imp fun linkId link ⟨g, hg, hid⟩ n => ?_
  constructor
  · rintro ⟨u, hu, heq⟩
    rw [hmatches.units, unitOf, bind_eq_some_iff] at hu
    obtain ⟨comp, _, hu⟩ := hu
    obtain ⟨gate, hgate, rfl⟩ := map_eq_some_iff.mp hu
    exact (h.wf hwf).pending_inj n _ gate g hgate (h.pending _ g hg) (heq.trans hid)
  · rintro rfl
    have hsome : (Keyed.find config.units (linkName linkId)).isSome := by
      rw [Keyed.find_isSome_iff, LoadedFrom.keys h.units]
      exact h.defined _ (by rw [hg]; rfl)
    obtain ⟨comp, hcomp⟩ := isSome_iff_exists.mp hsome
    refine ⟨⟨comp.type, g, comp.links⟩, ?_, hid.symm⟩
    rw [hmatches.units, hcomp, h.pending _ g hg]
    rfl

theorem spawned (hmatches : Matches m₂ config m' log) : m.Spawned file m' log where
  units := by
    intro n
    rw [hmatches.units, ← h.used]
    rcases LoadedFrom.find h.units n with ⟨hsec, hcomp⟩ | ⟨sec, comp, hsec, hcomp, htype, _⟩
    · simp [hsec, hcomp, unitOf]
    · cases m₂.pendingGates.get n <;> simp [hsec, hcomp, unitOf, htype]
  targets := by
    intro n
    rw [hmatches.targets]
    rcases LoadedFrom.find h.targets n with ⟨hsec, hcomp⟩ | ⟨sec, comp, hsec, hcomp, htype, _⟩
    · simp [hsec, hcomp]
    · simp [hsec, hcomp, htype]
  unitCommands := fun n => h.runningUnits ▸ hmatches.unitCommands n
  targetCommands := fun n => h.runningTargets ▸ hmatches.targetCommands n
  unitLinks := by
    intro hwf n u sec hu hsec
    rw [hmatches.units, unitOf, bind_eq_some_iff] at hu
    obtain ⟨comp, hcomp, hu⟩ := hu
    obtain ⟨gate, _, rfl⟩ := map_eq_some_iff.mp hu
    rcases LoadedFrom.find h.units n with ⟨hnone, _⟩ | ⟨sec', comp', hsec', hcomp', _, hlinks⟩
    · cases hnone.symm.trans hsec
    · cases hsec'.symm.trans hsec
      cases hcomp'.symm.trans hcomp
      exact h.connected hmatches hwf hlinks
  targetLinks := by
    intro hwf n t sec ht hsec
    rw [hmatches.targets] at ht
    rcases LoadedFrom.find h.targets n with ⟨hnone, _⟩ | ⟨sec', comp', hsec', hcomp', _, hlinks⟩
    · cases hnone.symm.trans hsec
    · cases hsec'.symm.trans hsec
      cases hcomp'.symm.trans ht
      exact h.connected hmatches hwf hlinks
  gates := hmatches.gates.trans h.gates
  pendingGates := by
    intro n
    have hmem : (Keyed.find config.units n).isSome = true ↔ n ∈ file.units.map Prod.fst := by
      rw [Keyed.find_isSome_iff, LoadedFrom.keys h.units]
    rw [hmatches.pendingGates]
    by_cases hn : n ∈ file.units.map Prod.fst
    · rw [if_pos (hmem.mpr hn), if_pos hn]
    · rw [if_neg (mt hmem.mp hn), if_neg hn]
      exact h.left n hn
  wf := by
    intro hwf
    have hkept : ∀ n g, m'.pendingGates.get n = some g → m₂.pendingGates.get n = some g := by
      intro n g hg
      rw [hmatches.pendingGates] at hg
      split at hg
      · cases hg
      · exact hg
    have hgates : ∀ n, m'.gates.get n = none := by
      intro n
      rw [hmatches.gates, h.gates]
      rfl
    have hwf₂ := h.wf hwf
    refine ⟨fun n g hg => ?_, fun n g hg => ?_, fun n n' g g' hg => ?_,
      fun n n' g g' hg hg' => hwf₂.pending_inj n n' g g' (hkept n g hg) (hkept n' g' hg'),
      fun n n' g g' hg => ?_⟩
    · cases (hgates n).symm.trans hg
    · rw [hmatches.nextGate]
      exact hwf₂.pending_lt n g (hkept n g hg)
    · cases (hgates n).symm.trans hg
    · cases (hgates n).symm.trans hg

end

end Prepared

section OneReload

variable {orders : Orders} {m : Manager} {file : ConfigFile}
  (hiter : orders.Iterates m (.config file))

include hiter

/-- Preparing a loaded document, whatever comes of it. -/
theorem prepare_loaded :
    ∃ config m₁, m.load (.config file) = (m₁, some config) ∧ Loaded m m₁ (references file) ∧
      ((m₁.prepare orders.gates config).2 = true ↔ m.Resolves file) ∧
      ((m₁.prepare orders.gates config).2 = true →
        Prepared m file m₁.gates config (m₁.prepare orders.gates config).1) := by
  obtain ⟨hloaded, config, hconfig, hroto, hunits, htargets⟩ := loaded_config m file
  have hok : ((m.load (.config file)).1.prepare orders.gates config).2 = true ↔
      m.Resolves file := by
    rw [prepare_ok_iff hiter.1, hroto, LoadedFrom.keys hunits, Resolves]
    exact and_congr_right' (forall_congr' fun n => by rw [hloaded.isSome])
  refine ⟨config, (m.load (.config file)).1, Prod.ext rfl hconfig, hloaded, hok, fun h => ?_⟩
  obtain ⟨hru, hrt, hwf⟩ := prepare_frame orders.gates (m.load (.config file)).1 config
  obtain ⟨hgates, hpending⟩ := prepare_pending hiter.1 h
  have hdefined : ∀ n, ((m.load (.config file)).1.gates.get n).isSome →
      n ∈ file.units.map Prod.fst :=
    fun n hn => (hok.mp h).2 n ((hloaded.isSome n).mp hn)
  refine ⟨hru.trans hloaded.runningUnits, hrt.trans hloaded.runningTargets, hunits, htargets,
    fun n => ?_, fun n g hg => ?_, hdefined, fun n hn => ?_, hgates,
    fun h => hwf (hloaded.wf h)⟩
  · rw [hpending, hloaded.pendingGates, Bool.eq_iff_iff, used, isSome_or, Bool.or_eq_true,
      Bool.or_eq_true, Bool.or_eq_true, hloaded.isSome, decide_eq_true_eq, or_right_comm]
  · rw [hpending, hg]
    rfl
  · have hnone : (m.load (.config file)).1.gates.get n = none :=
      not_isSome_iff_eq_none.mp fun hsome => hn (hdefined n hsome)
    rw [hpending, hnone, hloaded.pendingGates]
    rfl

/-- A document that does not resolve leaves all components running as they are. -/
theorem reload_failed (h : ¬ m.Resolves file) :
    ∃ m', m.reload orders (.config file) = some (m', .failed) ∧
      m'.runningUnits = m.runningUnits ∧ m'.runningTargets = m.runningTargets ∧
      (m.Wf → m'.Wf) := by
  obtain ⟨config, m₁, hload, hloaded, hok, _⟩ := prepare_loaded hiter
  obtain ⟨hru, hrt, hwf⟩ := prepare_frame orders.gates m₁ config
  refine ⟨(m₁.prepare orders.gates config).1, ?_, hru.trans hloaded.runningUnits,
    hrt.trans hloaded.runningTargets, fun h => hwf (hloaded.wf h)⟩
  have hfalse : (m₁.prepare orders.gates config).2 = false := Bool.eq_false_iff.mpr (mt hok.mp h)
  rw [reload, hload]
  dsimp only
  rw [show m₁.prepare orders.gates config = ((m₁.prepare orders.gates config).1, false) from
    Prod.ext rfl hfalse]

/-- A document that resolves is spawned, unless two components of one name have to be. -/
theorem reload_spawned (h : m.Resolves file) :
    (m.reload orders (.config file) = none ↔ m.ClashesIn file (m.used file)) ∧
      ∀ m' r, m.reload orders (.config file) = some (m', r) →
        ∃ log, r = .spawned log ∧ m.Spawned file m' log := by
  obtain ⟨config, m₁, hload, _, hok, hprepared⟩ := prepare_loaded hiter
  have hready := hprepared (hok.mpr h)
  have hreload : m.reload orders (.config file) =
      ((m₁.prepare orders.gates config).1.spawnInternal orders config).map fun r =>
        (r.1, .spawned r.2) := by
    rw [reload, hload]
    dsimp only
    rw [show m₁.prepare orders.gates config = ((m₁.prepare orders.gates config).1, true) from
      Prod.ext rfl (hok.mpr h)]
  generalize (m₁.prepare orders.gates config).1 = m₂ at hready hreload
  have hnu : (config.units.map Prod.fst).Nodup :=
    LoadedFrom.keys hready.units ▸ file.nodup_units
  have hnt : (config.targets.map Prod.fst).Nodup :=
    LoadedFrom.keys hready.targets ▸ file.nodup_targets
  have hcu : m₂.runningUnits.Covers orders.units := hready.runningUnits ▸ hiter.2.1
  have hct : m₂.runningTargets.Covers orders.targets := hready.runningTargets ▸ hiter.2.2
  rw [hreload, map_eq_none_iff, spawnInternal_eq_none_iff hnu hnt hcu hct, hready.clashes_iff]
  refine ⟨Iff.rfl, fun m' r hr => ?_⟩
  obtain ⟨⟨m'', log⟩, hspawn, heq⟩ := map_eq_some_iff.mp hr
  cases heq
  exact ⟨log, rfl, hready.spawned (matches_of_spawnInternal hnu hnt hcu hct hspawn)⟩

end OneReload

variable {m : Manager}

theorem wf_of_empty (hgates : ∀ n, m.gates.get n = none)
    (hpending : ∀ n, m.pendingGates.get n = none) : m.Wf := by
  refine ⟨fun n g hg => ?_, fun n g hg => ?_, fun n n' g g' hg => ?_, fun n n' g g' hg => ?_,
    fun n n' g g' hg => ?_⟩
  · cases (hgates n).symm.trans hg
  · cases (hpending n).symm.trans hg
  · cases (hgates n).symm.trans hg
  · cases (hpending n).symm.trans hg
  · cases (hgates n).symm.trans hg

/-! ## Reloads that all spawn -/

def adopt (m : Manager) (step : Orders × ConfigFile) : Option Manager :=
  match m.reload step.1 (.config step.2) with
  | some (m', .spawned _) => some m'
  | _ => none

/-- The running components are those that a document configures, units only if some link names
them, and every component got the commands that lead there. -/
structure Converges (m : Manager) (file : ConfigFile) (m' : Manager) (log : List Action) :
    Prop where
  units : ∀ n, (m'.runningUnits.get n).map RunningUnit.type =
    if n ∈ references file then (Keyed.find file.units n).map Section.type else none
  targets : ∀ n, (m'.runningTargets.get n).map Component.type =
    (Keyed.find file.targets n).map Section.type
  unitCommands : ∀ n, commands .unit n log =
    changes ((m.runningUnits.get n).map RunningUnit.type)
      ((m'.runningUnits.get n).map RunningUnit.type)
  targetCommands : ∀ n, commands .target n log =
    changes ((m.runningTargets.get n).map Component.type)
      ((m'.runningTargets.get n).map Component.type)

/-- Nothing is left of earlier documents. -/
def Clean (m : Manager) : Prop :=
  (∀ n, m.gates.get n = none) ∧ ∀ n, m.pendingGates.get n = none

theorem Clean.used (h : m.Clean) (file : ConfigFile) (n : Name) :
    m.used file n = decide (n ∈ references file) := by
  simp [Manager.used, h.1, h.2]

theorem clean_adopt {m' : Manager} {step : Orders × ConfigFile} (h : m.Clean)
    (hiter : step.1.Iterates m (.config step.2)) (hm' : m.adopt step = some m') : m'.Clean := by
  unfold adopt at hm'
  split at hm'
  next m'' log hreload =>
    cases hm'
    by_cases hres : m.Resolves step.2
    · obtain ⟨log', _, hspawned⟩ := (reload_spawned hiter hres).2 m' _ hreload
      refine ⟨fun n => by rw [hspawned.gates]; rfl, fun n => ?_⟩
      rw [hspawned.pendingGates, h.2, ite_self]
    · obtain ⟨m'', hfailed, _⟩ := reload_failed hiter hres
      cases hfailed.symm.trans hreload
  · cases hm'

/-- After any number of documents that were prepared and spawned, the next one that is prepared is
spawned and the components converge to it, exactly when no unit and target of one name are both to
be spawned. -/
theorem converges_iff {steps : List (Orders × ConfigFile)} {m : Manager}
    (hsteps : Along adopt (fun m step => step.1.Iterates m (.config step.2)) new steps)
    (hrun : exec adopt new steps = some m) {orders : Orders} {file : ConfigFile}
    (hiter : orders.Iterates m (.config file))
    (hprepared : ∀ m', m.reload orders (.config file) ≠ some (m', .failed)) :
    (∃ m' log, m.reload orders (.config file) = some (m', .spawned log) ∧
        m.Converges file m' log) ↔
      ¬ m.ClashesIn file (fun n => decide (n ∈ references file)) := by
  have hclean : m.Clean := exec_invariant adopt Clean _
    (fun _ _ _ h hguard hstep => clean_adopt h hguard hstep)
    ⟨fun _ => rfl, fun _ => rfl⟩ hsteps hrun
  have hused : m.used file = fun n => decide (n ∈ references file) := funext (hclean.used file)
  have hres : m.Resolves file := by
    by_contra hres
    obtain ⟨m', hfailed, _⟩ := reload_failed hiter hres
    exact hprepared m' hfailed
  obtain ⟨hpanics, hspawns⟩ := reload_spawned hiter hres
  rw [← hused, ← hpanics]
  constructor
  · rintro ⟨m', log, hreload, _⟩ hnone
    cases hnone.symm.trans hreload
  · intro hsome
    obtain ⟨⟨m', r⟩, hreload⟩ := ne_none_iff_exists'.mp hsome
    obtain ⟨log, rfl, hspawned⟩ := hspawns m' r hreload
    refine ⟨m', log, hreload, fun n => ?_, hspawned.targets, hspawned.unitCommands,
      hspawned.targetCommands⟩
    rw [hspawned.units, hclean.used]
    simp

/-! ## Reloads that may fail -/

/-- What a failed reload can leave, taken away. -/
def clean (m : Manager) : Manager :=
  { m with gates := Dict.empty, pendingGates := Dict.empty }

def Result.succeeded : Result → Bool
  | failed => false
  | spawned _ => true

/-- The same components run, and corresponding links are connected to units of the same name. -/
structure SameRunning (m m' : Manager) : Prop where
  units : ∀ n, (m.runningUnits.get n).map RunningUnit.type =
    (m'.runningUnits.get n).map RunningUnit.type
  targets : ∀ n, (m.runningTargets.get n).map Component.type =
    (m'.runningTargets.get n).map Component.type
  unitLinks : ∀ n u u', m.runningUnits.get n = some u → m'.runningUnits.get n = some u' →
    List.Forall₂ (fun l l' => ∀ n', m.Feeds n' l ↔ m'.Feeds n' l') u.links u'.links
  targetLinks : ∀ n t t', m.runningTargets.get n = some t → m'.runningTargets.get n = some t' →
    List.Forall₂ (fun l l' => ∀ n', m.Feeds n' l ↔ m'.Feeds n' l') t.links t'.links

/-- Two reloads ended alike. -/
def SameOutcome : Option (Manager × Result) → Option (Manager × Result) → Prop
  | none, none => True
  | some (m, r), some (m', r') => r.succeeded = r'.succeeded ∧ m.SameRunning m'
  | _, _ => False

/-- What was left behind does a document no harm: the document fails by itself, or every gate left
is for a unit of it and, unless it panics by itself, no unit is in use only because of a gate that
was left. -/
def Harmless (m : Manager) : Document → Prop
  | .malformed _ => True
  | .config file => m.clean.Resolves file →
    (∀ n, (m.gates.get n).isSome → n ∈ file.units.map Prod.fst) ∧
      (m.ClashesIn file (fun n => decide (n ∈ references file)) ∨
        ∀ n ∈ file.units.map Prod.fst, m.used file n = true → n ∈ references file)

section Independent

variable {m m' : Manager} {file : ConfigFile}

theorem sameRunning_of_eq (hunits : m.runningUnits = m'.runningUnits)
    (htargets : m.runningTargets = m'.runningTargets) : m.SameRunning m' := by
  have hfeeds : ∀ n l, m.Feeds n l ↔ m'.Feeds n l := by
    intro n l
    rw [Feeds, Feeds, hunits]
  refine ⟨fun n => by rw [hunits], fun n => by rw [htargets], fun n u u' hu hu' => ?_,
    fun n t t' ht ht' => ?_⟩
  · rw [hunits] at hu
    cases hu.symm.trans hu'
    exact forall₂_same.mpr fun l _ n' => hfeeds n' l
  · rw [htargets] at ht
    cases ht.symm.trans ht'
    exact forall₂_same.mpr fun l _ n' => hfeeds n' l

/-- Links connected to the same names are connected alike. -/
theorem feeds_of_connected {links links' : List Link}
    (h : m.Connected linkIds links) (h' : m'.Connected linkIds links') :
    List.Forall₂ (fun l l' => ∀ n, m.Feeds n l ↔ m'.Feeds n l') links links' := by
  induction h generalizing links' with
  | nil =>
    cases h'
    exact .nil
  | cons hhead _ ih =>
    cases h' with
    | cons hhead' hrest' => exact .cons (fun n => (hhead n).trans (hhead' n).symm) (ih hrest')

theorem sameRunning_of_spawned {m₁ m₁' : Manager} {log log' : List Action}
    (h : m.Spawned file m₁ log) (h' : m'.Spawned file m₁' log') (hwf : m.Wf) (hwf' : m'.Wf)
    (hused : ∀ n ∈ file.units.map Prod.fst, m.used file n = m'.used file n) :
    m₁.SameRunning m₁' := by
  have hfind : ∀ n u, m₁.runningUnits.get n = some u → ∃ sec, Keyed.find file.units n = some sec := by
    intro n u hu
    have htype := h.units n
    rw [hu] at htype
    cases hsec : Keyed.find file.units n with
    | none => simp [hsec] at htype
    | some sec => exact ⟨sec, rfl⟩
  have hfind' : ∀ n t, m₁.runningTargets.get n = some t →
      ∃ sec, Keyed.find file.targets n = some sec := by
    intro n t ht
    have htype := h.targets n
    rw [ht] at htype
    cases hsec : Keyed.find file.targets n with
    | none => simp [hsec] at htype
    | some sec => exact ⟨sec, rfl⟩
  refine ⟨fun n => ?_, fun n => (h.targets n).trans (h'.targets n).symm, fun n u u' hu hu' => ?_,
    fun n t t' ht ht' => ?_⟩
  · rw [h.units, h'.units]
    by_cases hn : n ∈ file.units.map Prod.fst
    · rw [hused n hn]
    · rw [Keyed.find_eq_none_iff.mpr hn]
      simp
  · obtain ⟨sec, hsec⟩ := hfind n u hu
    exact feeds_of_connected (h.unitLinks hwf n u sec hu hsec) (h'.unitLinks hwf' n u' sec hu' hsec)
  · obtain ⟨sec, hsec⟩ := hfind' n t ht
    exact feeds_of_connected (h.targetLinks hwf n t sec ht hsec)
      (h'.targetLinks hwf' n t' sec ht' hsec)

theorem resolves_iff :
    m.Resolves file ↔ m.clean.Resolves file ∧
      ∀ n, (m.gates.get n).isSome → n ∈ file.units.map Prod.fst := by
  have hclean : ∀ n, (m.clean.gates.get n).isSome ∨ n ∈ references file ↔
      n ∈ references file := by
    intro n
    simp [clean]
  simp only [Resolves, hclean]
  constructor
  · rintro ⟨hroto, hall⟩
    exact ⟨⟨hroto, fun n hn => hall n (.inr hn)⟩, fun n hn => hall n (.inl hn)⟩
  · rintro ⟨⟨hroto, hrefs⟩, hgates⟩
    exact ⟨hroto, fun n hn => hn.elim (hgates n) (hrefs n)⟩

theorem clean_clean (m : Manager) : m.clean.Clean := ⟨fun _ => rfl, fun _ => rfl⟩

theorem wf_clean (m : Manager) : m.clean.Wf := wf_of_empty (fun _ => rfl) fun _ => rfl

/-- More units in use make no clash go away. -/
private theorem ClashesIn.mono {used used' : Name → Bool} (h : m.ClashesIn file used)
    (hle : ∀ n ∈ file.units.map Prod.fst, used n = true → used' n = true) :
    m.ClashesIn file used' := by
  obtain ⟨n, u, t, hu, ht, hused, htypes⟩ := h
  have hn : n ∈ file.units.map Prod.fst := Keyed.find_isSome_iff.mp (by rw [hu]; rfl)
  exact ⟨n, u, t, hu, ht, hle n hn hused, htypes⟩

end Independent

def attempt (m : Manager) (step : Orders × Document) : Option Manager :=
  (m.reload step.1 step.2).map Prod.fst

theorem wf_attempt {m' : Manager} {step : Orders × Document} (h : m.Wf)
    (hiter : step.1.Iterates m step.2) (hm' : m.attempt step = some m') : m'.Wf := by
  obtain ⟨orders, doc⟩ := step
  obtain ⟨⟨m'', r⟩, hreload, rfl⟩ := map_eq_some_iff.mp hm'
  cases doc with
  | malformed sources =>
    cases hreload
    exact (loaded_loadLinks m sources).1.wf h
  | config file =>
    by_cases hres : m.Resolves file
    · obtain ⟨log, _, hspawned⟩ := (reload_spawned hiter hres).2 m'' r hreload
      exact hspawned.wf h
    · obtain ⟨m₁, hfailed, _, _, hwf⟩ := reload_failed hiter hres
      cases hfailed.symm.trans hreload
      exact hwf h

section Theorem

variable {orders orders' : Orders} {m : Manager} {file : ConfigFile}
  (hiter : orders.Iterates m (.config file)) (hiter' : orders'.Iterates m.clean (.config file))

include hiter hiter'

/-- A gate for a name without a unit makes a document fail that would not fail by itself. -/
theorem not_same_of_unresolved (hclean : m.clean.Resolves file)
    (hgates : ¬ ∀ n, (m.gates.get n).isSome → n ∈ file.units.map Prod.fst) :
    ¬ SameOutcome (m.reload orders (.config file)) (m.clean.reload orders' (.config file)) := by
  have hres : ¬ m.Resolves file := fun h => hgates (resolves_iff.mp h).2
  obtain ⟨m₁, hfailed, _⟩ := reload_failed hiter hres
  rw [hfailed]
  cases hreload : m.clean.reload orders' (.config file) with
  | none => exact id
  | some res =>
    obtain ⟨m₁', r⟩ := res
    obtain ⟨log, rfl, _⟩ := (reload_spawned hiter' hclean).2 m₁' r hreload
    rintro ⟨hsucceeded, _⟩
    cases hsucceeded

/-- A document that resolves with the gates left behind. -/
theorem same_iff_of_resolves (hwf : m.Wf) (hres : m.Resolves file) :
    SameOutcome (m.reload orders (.config file)) (m.clean.reload orders' (.config file)) ↔
      (m.ClashesIn file (fun n => decide (n ∈ references file)) ∨
        ∀ n ∈ file.units.map Prod.fst, m.used file n = true → n ∈ references file) := by
  obtain ⟨hpanics, hspawns⟩ := reload_spawned hiter hres
  obtain ⟨hpanics', hspawns'⟩ := reload_spawned hiter' (resolves_iff.mp hres).1
  have hused' : m.clean.used file = fun n => decide (n ∈ references file) :=
    funext ((clean_clean m).used file)
  rw [hused'] at hpanics'
  -- the running components of the two managers are the same, so a clash of one is one of the other
  change m.clean.reload orders' (.config file) = none ↔
    m.ClashesIn file (fun n => decide (n ∈ references file)) at hpanics'
  have hmore : m.ClashesIn file (fun n => decide (n ∈ references file)) →
      m.ClashesIn file (m.used file) := by
    intro hclash
    refine hclash.mono fun n _ hn => ?_
    rw [used, hn, Bool.or_true]
  by_cases hclash : m.ClashesIn file (fun n => decide (n ∈ references file))
  · rw [hpanics.mpr (hmore hclash), hpanics'.mpr hclash]
    exact ⟨fun _ => .inl hclash, fun _ => trivial⟩
  · rw [or_iff_right hclash]
    obtain ⟨⟨m₁', r'⟩, hreload'⟩ := ne_none_iff_exists'.mp (mt hpanics'.mp hclash)
    obtain ⟨log', rfl, hspawned'⟩ := hspawns' m₁' r' hreload'
    rw [hreload']
    constructor
    · intro hsame n hn hused
      by_contra hnot
      cases hreload : m.reload orders (.config file) with
      | none =>
        rw [hreload] at hsame
        exact hsame
      | some res =>
        -- the unit runs, although no link of the document names it
        obtain ⟨m₁, r⟩ := res
        obtain ⟨log, rfl, hspawned⟩ := hspawns m₁ r hreload
        rw [hreload] at hsame
        have htypes := hsame.2.units n
        rw [hspawned.units, hspawned'.units, hused, hused'] at htypes
        obtain ⟨sec, hsec⟩ := isSome_iff_exists.mp (Keyed.find_isSome_iff.mpr hn)
        simp [hnot, hsec] at htypes
    · intro hharmless
      have hnone : ¬ m.ClashesIn file (m.used file) := by
        intro h
        refine hclash (h.mono fun n hn hused => ?_)
        exact decide_eq_true (hharmless n hn hused)
      obtain ⟨⟨m₁, r⟩, hreload⟩ := ne_none_iff_exists'.mp (mt hpanics.mp hnone)
      obtain ⟨log, rfl, hspawned⟩ := hspawns m₁ r hreload
      rw [hreload]
      refine ⟨rfl, sameRunning_of_spawned hspawned hspawned' hwf (wf_clean m) fun n hn => ?_⟩
      rw [hused', Bool.eq_iff_iff, decide_eq_true_eq]
      refine ⟨hharmless n hn, fun hmem => ?_⟩
      rw [used, decide_eq_true hmem, Bool.or_true]

end Theorem

/-- After any reloads, failed ones among them, the next one ends as it would if the failed ones had
left nothing behind, exactly when what they left does it no harm. -/
theorem reload_independent_iff {steps : List (Orders × Document)} {m : Manager}
    (hsteps : Along attempt (fun m step => step.1.Iterates m step.2) new steps)
    (hrun : exec attempt new steps = some m) {orders orders' : Orders} {doc : Document}
    (hiter : orders.Iterates m doc) (hiter' : orders'.Iterates m.clean doc) :
    SameOutcome (m.reload orders doc) (m.clean.reload orders' doc) ↔ m.Harmless doc := by
  have hwf : m.Wf := exec_invariant attempt Wf _ (fun _ _ _ h hguard hstep =>
    wf_attempt h hguard hstep) (wf_of_empty (fun _ => rfl) fun _ => rfl) hsteps hrun
  cases doc with
  | malformed sources =>
    have hloaded := (loaded_loadLinks m sources).1
    have hloaded' := (loaded_loadLinks m.clean sources).1
    refine ⟨fun _ => trivial, fun _ => ⟨rfl, sameRunning_of_eq ?_ ?_⟩⟩
    · exact hloaded.runningUnits.trans hloaded'.runningUnits.symm
    · exact hloaded.runningTargets.trans hloaded'.runningTargets.symm
  | config file =>
    by_cases hclean : m.clean.Resolves file
    · by_cases hgates : ∀ n, (m.gates.get n).isSome → n ∈ file.units.map Prod.fst
      · rw [same_iff_of_resolves hiter hiter' hwf (resolves_iff.mpr ⟨hclean, hgates⟩)]
        exact ⟨fun h _ => ⟨hgates, h⟩, fun h => (h hclean).2⟩
      · refine ⟨fun h => absurd h (not_same_of_unresolved hiter hiter' hclean hgates),
          fun h => absurd (h hclean).1 hgates⟩
    · refine ⟨fun _ h => absurd h hclean, fun _ => ?_⟩
      obtain ⟨m₁, hfailed, hru, hrt, _⟩ :=
        reload_failed hiter fun h => hclean (resolves_iff.mp h).1
      obtain ⟨m₁', hfailed', hru', hrt', _⟩ := reload_failed hiter' hclean
      rw [hfailed, hfailed']
      exact ⟨rfl, sameRunning_of_eq (hru.trans hru'.symm) (hrt.trans hrt'.symm)⟩

/-! ## Concrete documents -/

namespace Sample

def pipeline : ConfigFile where
  units := [("bmp", ⟨.bmpTcpIn, []⟩)]
  targets := [("log", ⟨.null, ["bmp"]⟩)]
  rotoCompiles := true
  nodup_units := by simp
  nodup_targets := by simp

def moved : ConfigFile where
  units := [("bgp", ⟨.bgpTcpIn, []⟩)]
  targets := [("log", ⟨.null, ["bgp"]⟩)]
  rotoCompiles := true
  nodup_units := by simp
  nodup_targets := by simp

/-- The first document with a unit that no link names. -/
def spare : ConfigFile where
  units := [("bmp", ⟨.bmpTcpIn, []⟩), ("bgp", ⟨.bgpTcpIn, []⟩)]
  targets := [("log", ⟨.null, ["bmp"]⟩)]
  rotoCompiles := true
  nodup_units := by simp
  nodup_targets := by simp

def twins : ConfigFile where
  units := [("bmp", ⟨.bmpTcpIn, []⟩)]
  targets := [("bmp", ⟨.null, ["bmp"]⟩)]
  rotoCompiles := true
  nodup_units := by simp
  nodup_targets := by simp

/-- Orders of the maps of a manager that runs nothing. -/
def ordersOf (gates : List Name) : Orders := ⟨gates, [], []⟩

def afterMalformed (name : String) : Manager := (new.loadLinks [name]).1

theorem iterates_of_gates {file : ConfigFile} {gates : List Name}
    (hunits : m.runningUnits = Dict.empty) (htargets : m.runningTargets = Dict.empty)
    (hnodup : gates.Nodup) (hgates : ∀ n, n ∈ gates ↔ (m.gates.get n).isSome ∨ n ∈ references file)
    : (ordersOf gates).Iterates m (.config file) := by
  refine ⟨⟨hnodup, fun n => ?_⟩, ?_, ?_⟩
  · exact (hgates n).trans ((loaded_config m file).1.isSome n).symm
  · rw [hunits]
    exact ⟨nodup_nil, nofun⟩
  · rw [htargets]
    exact ⟨nodup_nil, nofun⟩

/-- The coordinator panics: it is to track the name for the target and for the unit. -/
theorem twins_panic :
    (ordersOf ["bmp"]).Iterates new (.config twins) ∧
      new.reload (ordersOf ["bmp"]) (.config twins) = none := by
  have hrefs : references twins = ["bmp"] := by decide +kernel
  refine ⟨iterates_of_gates rfl rfl (by simp) fun n => ?_, ?_⟩
  · rw [hrefs]
    simp [new]
  · rw [← isNone_iff_eq_none]
    decide +kernel

/-- After a document that could not be read, a document is refused for a link it does not have, and
a unit is started that no link names; without the first document neither happens. -/
theorem malformed_breaks_next :
    exec attempt new [(ordersOf ["bgp"], .malformed ["bgp"])] = some (afterMalformed "bgp") ∧
      (((afterMalformed "bgp").reload (ordersOf ["bgp", "bmp"]) (.config pipeline)).map
          fun r => r.2.succeeded) = some false ∧
      (((afterMalformed "bgp").clean.reload (ordersOf ["bmp"]) (.config pipeline)).map
          fun r => r.2.succeeded) = some true ∧
      (((afterMalformed "bgp").reload (ordersOf ["bgp", "bmp"]) (.config spare)).map
          fun r => (r.1.runningUnits.get "bgp").map RunningUnit.type) = some (some .bgpTcpIn) ∧
      (((afterMalformed "bgp").clean.reload (ordersOf ["bmp"]) (.config spare)).map
          fun r => (r.1.runningUnits.get "bgp").map RunningUnit.type) = some none := by
  refine ⟨rfl, ?_, ?_, ?_, ?_⟩ <;> decide +kernel

theorem references_pipeline : references pipeline = ["bmp"] := by decide +kernel

theorem iterates_pipeline : (ordersOf ["bmp"]).Iterates new (.config pipeline) := by
  refine iterates_of_gates rfl rfl (by simp) fun n => ?_
  rw [references_pipeline]
  simp [new]

theorem not_clashesIn {file : ConfigFile} {used : Name → Bool}
    (h : ∀ n ∈ file.units.map Prod.fst, n ∉ file.targets.map Prod.fst) :
    ¬ m.ClashesIn file used := by
  rintro ⟨n, u, t, hu, ht, _⟩
  exact h n (Keyed.find_isSome_iff.mp (by rw [hu]; rfl)) (Keyed.find_isSome_iff.mp (by rw [ht]; rfl))

/-- The names of the maps once the first document is spawned. -/
theorem iterates_moved {log : List Action} (hclean : m.Clean) (h : new.Converges pipeline m log) :
    Orders.Iterates ⟨["bgp"], ["bmp"], ["log"]⟩ m (.config moved) := by
  have hrefs : references moved = ["bgp"] := by decide +kernel
  refine ⟨⟨by simp, fun n => ?_⟩, ⟨by simp, fun n hn => ?_⟩, ⟨by simp, fun n hn => ?_⟩⟩
  · refine Iff.trans ?_ ((loaded_config m moved).1.isSome n).symm
    simp [hclean.1 n, hrefs]
  · have htype := h.units n
    rw [references_pipeline] at htype
    by_contra hnot
    rw [if_neg hnot, map_eq_none_iff] at htype
    simp [htype] at hn
  · have htype := congrArg Option.isSome (h.targets n)
    rw [isSome_map, isSome_map, hn] at htype
    exact Keyed.find_isSome_iff.mp htype.symm

theorem gates_afterMalformed (n : Name) :
    ((afterMalformed "bmp").gates.get n).isSome ↔ n = "bmp" := by
  have hname : [("bmp" : String)].map linkName = ["bmp"] := by decide +kernel
  have hempty : (new.gates.get n).isSome = false := rfl
  refine ((loaded_loadLinks new ["bmp"]).1.isSome n).trans ?_
  rw [hname, hempty]
  simp

end Sample

open Sample in
/-- Two documents one after the other: of the second, the target is kept and the unit is new. -/
theorem converges_pipeline :
    ∃ m m' log, new.adopt (ordersOf ["bmp"], pipeline) = some m ∧
      m.reload ⟨["bgp"], ["bmp"], ["log"]⟩ (.config moved) = some (m', .spawned log) ∧
      m.Converges moved m' log := by
  have hsteps : Along adopt (fun m step => step.1.Iterates m (.config step.2)) new [] := trivial
  have hok : ((new.reload (ordersOf ["bmp"]) (.config pipeline)).map fun r => r.2.succeeded) =
      some true := by decide +kernel
  obtain ⟨m, log, hreload, hconverges⟩ := (converges_iff hsteps rfl iterates_pipeline
    fun m' hfailed => by simp [hfailed, Result.succeeded] at hok).mpr (not_clashesIn (by decide))
  have hadopt : new.adopt (ordersOf ["bmp"], pipeline) = some m := by
    unfold adopt
    rw [hreload]
  have hsteps' : Along adopt (fun m step => step.1.Iterates m (.config step.2)) new
      [(ordersOf ["bmp"], pipeline)] := fun _ _ => ⟨iterates_pipeline, trivial⟩
  have hclean : m.Clean := clean_adopt ⟨fun _ => rfl, fun _ => rfl⟩ iterates_pipeline hadopt
  have hok' : ((new.adopt (ordersOf ["bmp"], pipeline)).bind fun m =>
      (m.reload ⟨["bgp"], ["bmp"], ["log"]⟩ (.config moved)).map fun r => r.2.succeeded) =
      some true := by decide +kernel
  obtain ⟨m', log', hreload', hconverges'⟩ := (converges_iff hsteps'
    (by rw [exec, hadopt]; rfl) (iterates_moved hclean hconverges) fun m' hfailed => by
      simp [hadopt, hfailed, Result.succeeded] at hok').mpr (not_clashesIn (by decide))
  exact ⟨m, m', log', hadopt, hreload', hconverges'⟩

open Sample in
/-- What a document leaves that could not be read does no harm to one with the same links. -/
theorem reload_independent_pipeline :
    SameOutcome ((afterMalformed "bmp").reload (ordersOf ["bmp"]) (.config pipeline))
      ((afterMalformed "bmp").clean.reload (ordersOf ["bmp"]) (.config pipeline)) := by
  have hsteps : Along attempt (fun m step => step.1.Iterates m step.2) new
      [(ordersOf ["bmp"], .malformed ["bmp"])] := by
    intro m' hm'
    refine ⟨⟨⟨by simp [ordersOf], fun n => ?_⟩, ⟨nodup_nil, nofun⟩,
      ⟨nodup_nil, nofun⟩⟩, trivial⟩
    exact mem_singleton.trans (gates_afterMalformed n).symm
  have hrun : exec attempt new [(ordersOf ["bmp"], .malformed ["bmp"])] =
      some (afterMalformed "bmp") := rfl
  refine (reload_independent_iff hsteps hrun ?_ ?_).mpr fun _ => ⟨fun n hn => ?_, .inr ?_⟩
  · refine iterates_of_gates rfl rfl (by simp) fun n => ?_
    rw [references_pipeline, gates_afterMalformed]
    simp
  · refine iterates_of_gates rfl rfl (by simp) fun n => ?_
    rw [references_pipeline]
    simp [clean]
  · rw [gates_afterMalformed] at hn
    simp [hn, pipeline]
  · intro n hn _
    rw [references_pipeline]
    exact hn

end Rotonda.Manager
