import Rotonda.Manager.Config

/-!
What loading and preparing a configuration leave in the manager.

* `Loaded`: loading keeps every gate there is and adds one for each name that is linked to;
* `Linked`: the links of a component are links to the gates of the names it lists;
* `prepare_ok_iff`: preparing succeeds exactly when the script compiles and all gates, also those
  that were there before, are for units of the configuration;
* `Wf`: gates of different names, loaded or pending, are different gates.
-/

namespace Rotonda.Manager

open Lib List

/-! ## Gates -/

/-- No gate is in the tables of gates twice, and the next one is new. -/
structure Wf (m : Manager) : Prop where
  gates_lt : ∀ n g, m.gates.get n = some g → g.id < m.nextGate
  pending_lt : ∀ n g, m.pendingGates.get n = some g → g.id < m.nextGate
  gates_inj : ∀ n n' g g', m.gates.get n = some g → m.gates.get n' = some g' → g.id = g'.id →
    n = n'
  pending_inj : ∀ n n' g g', m.pendingGates.get n = some g → m.pendingGates.get n' = some g' →
    g.id = g'.id → n = n'
  gates_pending : ∀ n n' g g', m.gates.get n = some g → m.pendingGates.get n' = some g' →
    g.id ≠ g'.id

/-- What loading links to some names does. -/
structure Loaded (m m' : Manager) (names : List Name) : Prop where
  kept : ∀ n g, m.gates.get n = some g → m'.gates.get n = some g
  isSome : ∀ n, (m'.gates.get n).isSome ↔ (m.gates.get n).isSome ∨ n ∈ names
  pendingGates : m'.pendingGates = m.pendingGates
  runningUnits : m'.runningUnits = m.runningUnits
  runningTargets : m'.runningTargets = m.runningTargets
  wf : m.Wf → m'.Wf

namespace Loaded

variable {m m₁ m₂ : Manager} {names names' : List Name}

theorem refl (m : Manager) : Loaded m m [] :=
  ⟨fun _ _ => id, fun n => by simp, rfl, rfl, rfl, id⟩

theorem trans (h₁ : Loaded m m₁ names) (h₂ : Loaded m₁ m₂ names') :
    Loaded m m₂ (names ++ names') := by
  refine ⟨fun n g hg => h₂.kept n g (h₁.kept n g hg), fun n => ?_,
    h₂.pendingGates.trans h₁.pendingGates, h₂.runningUnits.trans h₁.runningUnits,
    h₂.runningTargets.trans h₁.runningTargets, fun h => h₂.wf (h₁.wf h)⟩
  rw [h₂.isSome, h₁.isSome, mem_append, or_assoc]

end Loaded

variable {m : Manager}

/-- The gate of a new name is a new one. -/
theorem wf_insert (h : m.Wf) (name : Name) (size : Nat) :
    Wf { m with gates := m.gates.insert name ⟨m.nextGate, size⟩, nextGate := m.nextGate + 1 } := by
  have hget : ∀ n g, (m.gates.insert name ⟨m.nextGate, size⟩).get n = some g →
      (n = name ∧ g.id = m.nextGate) ∨ m.gates.get n = some g := by
    intro n g hg
    rcases Dict.of_get_insert hg with ⟨hn, rfl⟩ | ⟨_, hg⟩
    · exact .inl ⟨hn, rfl⟩
    · exact .inr hg
  refine ⟨fun n g hg => ?_, fun n g hg => Nat.lt_succ_of_lt (h.pending_lt n g hg),
    fun n n' g g' hg hg' heq => ?_, h.pending_inj, fun n n' g g' hg hg' heq => ?_⟩
  · rcases hget n g hg with ⟨_, hid⟩ | hold
    · exact hid ▸ Nat.lt_succ_self _
    · exact Nat.lt_succ_of_lt (h.gates_lt n g hold)
  · rcases hget n g hg with ⟨hn, hid⟩ | hold <;> rcases hget n' g' hg' with ⟨hn', hid'⟩ | hold'
    · rw [hn, hn']
    · exact absurd (h.gates_lt n' g' hold') (by omega)
    · exact absurd (h.gates_lt n g hold) (by omega)
    · exact h.gates_inj n n' g g' hold hold' heq
  · rcases hget n g hg with ⟨_, hid⟩ | hold
    · exact absurd (h.pending_lt n' g' hg') (by omega)
    · exact h.gates_pending n n' g g' hold hg' heq

/-! ## Links -/

/-- The links are links to the gates of the names, one for each. -/
def Linked (gates : Dict Name Gate) (linkIds : List String) (links : List Link) : Prop :=
  List.Forall₂ (fun linkId link => ∃ g, gates.get (linkName linkId) = some g ∧ link.gate = g.id)
    linkIds links

theorem Linked.mono {m' : Manager} {names : List Name} (h : Loaded m m' names)
    {linkIds : List String} {links : List Link} (hl : Linked m.gates linkIds links) :
    Linked m'.gates linkIds links :=
  hl.imp fun _ _ ⟨g, hg, hid⟩ => ⟨g, h.kept _ g hg, hid⟩

theorem loaded_loadLink (m : Manager) (linkId : String) :
    Loaded m (m.loadLink linkId).1 [linkName linkId] ∧
      ∃ g, (m.loadLink linkId).1.gates.get (linkName linkId) = some g ∧
        (m.loadLink linkId).2.gate = g.id := by
  unfold loadLink
  split
  next gate hgate =>
    refine ⟨⟨fun _ _ => id, fun n => ?_, rfl, rfl, rfl, id⟩, gate, hgate, rfl⟩
    rw [mem_singleton, iff_self_or]
    rintro rfl
    rw [hgate]
    rfl
  next hnone =>
    refine ⟨⟨fun n g hg => ?_, fun n => ?_, rfl, rfl, rfl, fun h => wf_insert h _ _⟩, _,
      Dict.get_insert_self .., rfl⟩
    · have hne : n ≠ linkName linkId := by
        rintro rfl
        cases hnone.symm.trans hg
      exact (Dict.get_insert_of_ne _ hne).trans hg
    · rw [Dict.get_insert, mem_singleton]
      split
      next hn => simp [hn]
      next hn => simp [hn]

theorem loaded_loadLinks (m : Manager) (linkIds : List String) :
    Loaded m (m.loadLinks linkIds).1 (linkIds.map linkName) ∧
      Linked (m.loadLinks linkIds).1.gates linkIds (m.loadLinks linkIds).2 := by
  induction linkIds generalizing m with
  | nil => exact ⟨.refl m, .nil⟩
  | cons linkId linkIds ih =>
    obtain ⟨hfirst, g, hg, hid⟩ := loaded_loadLink m linkId
    obtain ⟨hrest, hlinks⟩ := ih (m.loadLink linkId).1
    exact ⟨hfirst.trans hrest, .cons ⟨g, hrest.kept _ g hg, hid⟩ hlinks⟩

def sectionNames {T : Type} (secs : List (Name × Section T)) : List Name :=
  secs.flatMap fun s => s.2.sources.map linkName

/-- A component is what its section says, with links to the gates. -/
def LoadedFrom {T : Type} (gates : Dict Name Gate) (sec : Name × Section T)
    (comp : Name × Component T) : Prop :=
  comp.1 = sec.1 ∧ comp.2.type = sec.2.type ∧ Linked gates sec.2.sources comp.2.links

variable {T : Type}

theorem loaded_loadSections (m : Manager) (secs : List (Name × Section T)) :
    Loaded m (m.loadSections secs).1 (sectionNames secs) ∧
      List.Forall₂ (LoadedFrom (m.loadSections secs).1.gates) secs (m.loadSections secs).2 := by
  induction secs generalizing m with
  | nil => exact ⟨.refl m, .nil⟩
  | cons sec secs ih =>
    obtain ⟨name, sec⟩ := sec
    obtain ⟨hfirst, hlinks⟩ := loaded_loadLinks m sec.sources
    obtain ⟨hrest, hcomps⟩ := ih (m.loadLinks sec.sources).1
    exact ⟨hfirst.trans hrest, .cons ⟨rfl, rfl, hlinks.mono hrest⟩ hcomps⟩

variable {gates : Dict Name Gate} {comps : List (Name × Component T)}

variable {secs : List (Name × Section T)}

theorem LoadedFrom.keys (h : List.Forall₂ (LoadedFrom gates) secs comps) :
    comps.map Prod.fst = secs.map Prod.fst := by
  induction h with
  | nil => rfl
  | cons hhead _ ih => rw [map_cons, map_cons, hhead.1, ih]

/-- Under a name there is a component exactly where there is a section, made from it. -/
theorem LoadedFrom.find (h : List.Forall₂ (LoadedFrom gates) secs comps) (n : Name) :
    (Keyed.find secs n = none ∧ Keyed.find comps n = none) ∨
      ∃ sec comp, Keyed.find secs n = some sec ∧ Keyed.find comps n = some comp ∧
        comp.type = sec.type ∧ Linked gates sec.sources comp.links := by
  induction h with
  | nil => exact .inl ⟨rfl, rfl⟩
  | @cons sec comp secs comps hhead _ ih =>
    obtain ⟨hname, htype, hlinks⟩ := hhead
    by_cases hn : sec.1 = n
    · refine .inr ⟨sec.2, comp.2, ?_, ?_, htype, hlinks⟩
      · simp [Keyed.find, hn]
      · simp [Keyed.find, hname, hn]
    · have hsec : Keyed.find (sec :: secs) n = Keyed.find secs n := by simp [Keyed.find, hn]
      have hcomp : Keyed.find (comp :: comps) n = Keyed.find comps n := by
        simp [Keyed.find, hname, hn]
      rw [hsec, hcomp]
      exact ih

def references (file : ConfigFile) : List Name :=
  sectionNames file.units ++ sectionNames file.targets

/-- A document that can be read is loaded. -/
theorem loaded_config (m : Manager) (file : ConfigFile) :
    Loaded m (m.load (.config file)).1 (references file) ∧
      ∃ config, (m.load (.config file)).2 = some config ∧
        config.rotoCompiles = file.rotoCompiles ∧
        List.Forall₂ (LoadedFrom (m.load (.config file)).1.gates) file.units config.units ∧
        List.Forall₂ (LoadedFrom (m.load (.config file)).1.gates) file.targets config.targets := by
  obtain ⟨hunits, hcomps⟩ := loaded_loadSections m file.units
  obtain ⟨htargets, hcomps'⟩ := loaded_loadSections (m.loadSections file.units).1 file.targets
  refine ⟨hunits.trans htargets, _, rfl, rfl, hcomps.imp fun _ _ hfrom => ?_, hcomps'⟩
  exact ⟨hfrom.1, hfrom.2.1, hfrom.2.2.mono htargets⟩

/-! ## Preparing -/

section

variable (config : Config) (gates : Dict Name Gate) (m : Manager) (order : List Name)

/-- The loop succeeds when every gate is for a unit. -/
theorem resolveLoop_ok_iff :
    (resolveLoop config gates m order).2 = true ↔
      ∀ n ∈ order, (gates.get n).isSome → n ∈ config.units.map Prod.fst := by
  induction order generalizing m with
  | nil => simp [resolveLoop]
  | cons name order ih =>
    rw [resolveLoop]
    cases hg : gates.get name with
    | none => simp [ih, hg]
    | some gate =>
      by_cases hmem : name ∈ config.units.map Prod.fst
      · simp only [hmem, not_true_eq_false, if_false, ih, forall_mem_cons, implies_true, true_and]
      · simp only [hmem, not_false_eq_true, if_true, forall_mem_cons, hg, Option.isSome_some,
          forall_const, false_and, Bool.false_eq_true]

/-- The loop only adds pending gates, each from the table it drains. -/
theorem resolveLoop_pending :
    ∃ pending, (resolveLoop config gates m order).1 = { m with pendingGates := pending } ∧
      ∀ n, pending.get n = m.pendingGates.get n ∨
        (pending.get n = gates.get n ∧ (gates.get n).isSome) := by
  induction order generalizing m with
  | nil => exact ⟨_, rfl, fun _ => .inl rfl⟩
  | cons name order ih =>
    rw [resolveLoop]
    cases hg : gates.get name with
    | none => exact ih m
    | some gate =>
      by_cases hmem : name ∈ config.units.map Prod.fst
      · simp only [hmem, not_true_eq_false, if_false]
        obtain ⟨pending, heq, hpending⟩ := ih { m with
          pendingGates := m.pendingGates.insert name gate }
        refine ⟨pending, heq, fun n => ?_⟩
        rcases hpending n with hkept | hnew
        · rw [Dict.get_insert] at hkept
          split at hkept
          next hn =>
            subst hn
            exact .inr ⟨hkept.trans hg.symm, by rw [hg]; rfl⟩
          · exact .inl hkept
        · exact .inr hnew
      · simp only [hmem, not_false_eq_true, if_true]
        exact ⟨_, rfl, fun _ => .inl rfl⟩

end

variable {order : List Name}

/-- A loop that succeeds has moved every gate. -/
theorem resolveLoop_moved {config : Config} (h : (resolveLoop config gates m order).2 = true)
    {n : Name} (hn : n ∈ order) {g : Gate} (hg : gates.get n = some g) :
    (resolveLoop config gates m order).1.pendingGates.get n = some g := by
  induction order generalizing m with
  | nil => cases hn
  | cons name order ih =>
    rw [resolveLoop] at h ⊢
    cases hgate : gates.get name with
    | none =>
      rw [hgate] at h
      have hne : n ≠ name := by
        rintro rfl
        cases hgate.symm.trans hg
      exact ih h ((mem_cons.mp hn).resolve_left hne)
    | some gate =>
      rw [hgate] at h
      by_cases hmem : name ∈ config.units.map Prod.fst
      · simp only [hmem, not_true_eq_false, if_false] at h ⊢
        by_cases hrest : n ∈ order
        · exact ih h hrest
        · -- the last write under this name
          obtain rfl := (mem_cons.mp hn).resolve_right hrest
          cases hgate.symm.trans hg
          obtain ⟨pending, heq, hpending⟩ := resolveLoop_pending config gates { m with
            pendingGates := m.pendingGates.insert n g } order
          rw [heq]
          rcases hpending n with hkept | ⟨hnew, _⟩
          · exact hkept.trans (Dict.get_insert_self ..)
          · exact hnew.trans hg
      · simp only [hmem, not_false_eq_true, if_true] at h
        cases h

theorem prepare_ok_iff (horder : m.gates.IterOrder order)
    (config : Config) : (prepare order m config).2 = true ↔ config.rotoCompiles = true ∧
      ∀ n, (m.gates.get n).isSome → n ∈ config.units.map Prod.fst := by
  rw [prepare]
  cases config.rotoCompiles with
  | false => simp
  | true =>
    simp only [Bool.not_true, Bool.false_eq_true, if_false, resolveLoop_ok_iff, true_and]
    exact ⟨fun h n hn => h n ((horder.2 n).mpr hn) hn, fun h n _ hn => h n hn⟩

/-- Moving gates to the pending ones mixes up no gates. -/
theorem wf_moved (h : m.Wf) {pending : Dict Name Gate}
    (hpending : ∀ n, pending.get n = m.pendingGates.get n ∨
      (pending.get n = m.gates.get n ∧ (m.gates.get n).isSome)) :
    Wf { m with gates := Dict.empty, pendingGates := pending } := by
  have hfrom : ∀ n g, pending.get n = some g →
      m.pendingGates.get n = some g ∨ m.gates.get n = some g := by
    intro n g hg
    rcases hpending n with hkept | ⟨hnew, _⟩
    · exact .inl (hkept.symm.trans hg)
    · exact .inr (hnew.symm.trans hg)
  refine ⟨nofun, fun n g hg => ?_, nofun, fun n n' g g' hg hg' heq => ?_, nofun⟩
  · rcases hfrom n g hg with hold | hold
    · exact h.pending_lt n g hold
    · exact h.gates_lt n g hold
  · rcases hfrom n g hg with hold | hold <;> rcases hfrom n' g' hg' with hold' | hold'
    · exact h.pending_inj n n' g g' hold hold' heq
    · exact absurd heq.symm (h.gates_pending n' n g' g hold' hold)
    · exact absurd heq (h.gates_pending n n' g g' hold hold')
    · exact h.gates_inj n n' g g' hold hold' heq

/-- Preparing touches the gates only. -/
theorem prepare_frame (order : List Name) (m : Manager) (config : Config) :
    (prepare order m config).1.runningUnits = m.runningUnits ∧
      (prepare order m config).1.runningTargets = m.runningTargets ∧
      (m.Wf → (prepare order m config).1.Wf) := by
  rw [prepare]
  split
  · exact ⟨rfl, rfl, id⟩
  · obtain ⟨pending, heq, hpending⟩ := resolveLoop_pending config m.gates
      { m with gates := Dict.empty } order
    rw [heq]
    exact ⟨rfl, rfl, fun h => wf_moved h hpending⟩

/-- After preparing, every gate is pending. -/
theorem prepare_pending (horder : m.gates.IterOrder order)
    {config : Config} (h : (prepare order m config).2 = true) :
    (prepare order m config).1.gates = Dict.empty ∧
      ∀ n, (prepare order m config).1.pendingGates.get n =
        (m.gates.get n).or (m.pendingGates.get n) := by
  rw [prepare] at h ⊢
  split at h
  · cases h
  next hroto =>
    rw [if_neg hroto]
    obtain ⟨pending, heq, hpending⟩ := resolveLoop_pending config m.gates
      { m with gates := Dict.empty } order
    refine ⟨by rw [heq], fun n => ?_⟩
    cases hg : m.gates.get n with
    | some g =>
      have hn : n ∈ order := (horder.2 n).mpr (by rw [hg]; rfl)
      exact (resolveLoop_moved h hn hg).trans rfl
    | none =>
      rw [heq]
      rcases hpending n with hkept | ⟨_, hsome⟩
      · exact hkept
      · rw [hg] at hsome
        cases hsome

end Rotonda.Manager
