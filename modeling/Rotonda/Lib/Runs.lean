import Mathlib.Data.List.Induction

/-!
Runs of event-driven systems, over arbitrary states and events.

* `run`: a total step function folded over a list of events; `throughout_iff` says when a
  property of history and state holds in every state of a run, in terms of one guard per step;
* `runUntil`: a loop that one of its items may end; `runUntil_flatten` says that a loop over chunks
  of items is one over the items;
* `exec`: a step function that may refuse an event, so that a list of events is a schedule of
  several parties; `exec_invariant` carries an invariant along every schedule whose steps
  satisfy a guard (`Along`); `exec_within_iff`, `exec_history_iff`, `exec_throughout_iff` and
  `exec_steps_iff` are exact.
-/

namespace Lib.Runs

open List

/-! ## Total steps -/

section Total

variable {σ ε : Type} (step : σ → ε → σ)

def run (s : σ) (es : List ε) : σ := es.foldl step s

@[simp] theorem run_nil (s : σ) : run step s [] = s := rfl

@[simp] theorem run_cons (s : σ) (e : ε) (es : List ε) :
    run step s (e :: es) = run step (step s e) es := rfl

theorem run_append (s : σ) (es fs : List ε) :
    run step s (es ++ fs) = run step (run step s es) fs := foldl_append ..

theorem run_snoc (s : σ) (es : List ε) (e : ε) :
    run step s (es ++ [e]) = step (run step s es) e := by
  rw [run_append, run_cons, run_nil]

/-- The first step of a run, or a later one. -/
theorem snoc_prefix_cons {pre : List ε} {e a : ε} {as : List ε} :
    pre ++ [e] <+: a :: as ↔
      (pre = [] ∧ e = a) ∨ ∃ rest, pre = a :: rest ∧ rest ++ [e] <+: as := by
  cases pre with
  | nil => simp [cons_prefix_cons]
  | cons b pre => simp [cons_prefix_cons, and_assoc]

variable {P : σ → ε → Prop}

/-- What holds of every step of a run, step by step. -/
theorem steps_cons {s : σ} {a : ε} {as : List ε} :
    (∀ pre e, pre ++ [e] <+: a :: as → P (run step s pre) e) ↔
      P s a ∧ ∀ pre e, pre ++ [e] <+: as → P (run step (step s a) pre) e := by
  constructor
  · intro h
    refine ⟨h [] a (snoc_prefix_cons.mpr (.inl ⟨rfl, rfl⟩)), fun pre e hpre => ?_⟩
    exact h (a :: pre) e (snoc_prefix_cons.mpr (.inr ⟨pre, rfl, hpre⟩))
  · rintro ⟨ha, has⟩ pre e hpre
    rcases snoc_prefix_cons.mp hpre with ⟨rfl, rfl⟩ | ⟨rest, rfl, hrest⟩
    · exact ha
    · exact has rest e hrest

theorem steps_nil (s : σ) (pre : List ε) (e : ε) (h : pre ++ [e] <+: []) :
    P (run step s pre) e := by
  simp at h

variable (P : List ε → σ → Prop)

/-- An invariant of history and state: it holds at the start and each step of the run keeps it. -/
theorem run_invariant (s : σ) (es : List ε) (h0 : P [] s)
    (hstep : ∀ pre e, pre ++ [e] <+: es → P pre (run step s pre) →
      P (pre ++ [e]) (step (run step s pre) e)) :
    ∀ pre, pre <+: es → P pre (run step s pre) := by
  intro pre
  induction pre using List.reverseRecOn with
  | nil => intro _; exact h0
  | append_singleton pre e ih =>
    intro hpre
    rw [run_snoc]
    exact hstep pre e hpre (ih ((prefix_append pre [e]).trans hpre))

/-- A property that every guarded step keeps and every unguarded step breaks holds throughout a
run exactly when every step of the run is guarded. -/
theorem throughout_iff (G : σ → ε → Prop) (s : σ) (es : List ε)
    (h0 : P [] s)
    (hkeep : ∀ pre e, pre ++ [e] <+: es → P pre (run step s pre) → G (run step s pre) e →
      P (pre ++ [e]) (step (run step s pre) e))
    (hbreak : ∀ pre e, pre ++ [e] <+: es → P pre (run step s pre) → ¬ G (run step s pre) e →
      ¬ P (pre ++ [e]) (step (run step s pre) e)) :
    (∀ pre, pre <+: es → P pre (run step s pre)) ↔
      ∀ pre e, pre ++ [e] <+: es → G (run step s pre) e := by
  constructor
  · intro hP pre e hpre
    by_contra hG
    have hp := hP pre ((prefix_append pre [e]).trans hpre)
    have he := hP (pre ++ [e]) hpre
    rw [run_snoc] at he
    exact hbreak pre e hpre hp hG he
  · intro hG
    exact run_invariant step P s es h0 fun pre e hpre hp => hkeep pre e hpre hp (hG pre e hpre)

end Total

/-! ## Loops that an item may end -/

section Until

variable {σ α φ : Type} (body : σ → α → σ × Option φ)

/-- The items one after the other, up to the first that fails. -/
def runUntil : σ → List α → σ × Option φ
  | s, [] => (s, none)
  | s, a :: as => match body s a with
    | (s', none) => runUntil s' as
    | (s', some failure) => (s', some failure)

variable {body}

/-- What every item keeps, the loop keeps. -/
theorem runUntil_invariant {P : σ → Prop} {as : List α}
    (hbody : ∀ s, ∀ a ∈ as, P s → P (body s a).1) {s : σ} (hs : P s) :
    P (runUntil body s as).1 := by
  induction as generalizing s with
  | nil => exact hs
  | cons a as ih =>
    have hnext := hbody s a mem_cons_self hs
    rw [runUntil]
    split
    next s' heq =>
      rw [heq] at hnext
      exact ih (fun t b hb => hbody t b (mem_cons_of_mem _ hb)) hnext
    next s' failure heq =>
      rwa [heq] at hnext

theorem runUntil_cons_none {s s' : σ} {a : α} (h : body s a = (s', none)) (as : List α) :
    runUntil body s (a :: as) = runUntil body s' as := by
  simp only [runUntil, h]

theorem runUntil_cons_some {s s' : σ} {a : α} {failure : φ} (h : body s a = (s', some failure))
    (as : List α) : runUntil body s (a :: as) = (s', some failure) := by
  simp only [runUntil, h]

theorem runUntil_append (s : σ) (as bs : List α) :
    runUntil body s (as ++ bs) = match runUntil body s as with
      | (s', none) => runUntil body s' bs
      | (s', some failure) => (s', some failure) := by
  induction as generalizing s with
  | nil => rfl
  | cons a as ih =>
    cases h : body s a with
    | mk s' failure =>
      cases failure with
      | none => rw [cons_append, runUntil_cons_none h, runUntil_cons_none h, ih]
      | some failure => rw [cons_append, runUntil_cons_some h, runUntil_cons_some h]

theorem runUntil_map {β : Type} (g : β → α) (s : σ) (bs : List β) :
    runUntil body s (bs.map g) = runUntil (fun s b => body s (g b)) s bs := by
  induction bs generalizing s with
  | nil => rfl
  | cons b bs ih =>
    rw [map_cons, runUntil, runUntil]
    cases body s (g b) with
    | mk s' failure => cases failure <;> simp only [ih]

theorem runUntil_flatten (s : σ) (chunks : List (List α)) :
    runUntil (runUntil body) s chunks = runUntil body s chunks.flatten := by
  induction chunks generalizing s with
  | nil => rfl
  | cons chunk chunks ih =>
    rw [flatten_cons, runUntil_append, runUntil]
    cases runUntil body s chunk with
    | mk s' failure => cases failure <;> simp only [ih]

/-- A loop that no item ends. -/
theorem runUntil_of_none (h : ∀ s a, (body s a).2 = none) (s : σ) (as : List α) :
    runUntil body s as = (as.foldl (fun s a => (body s a).1) s, none) := by
  induction as generalizing s with
  | nil => rfl
  | cons a as ih =>
    have hbody : body s a = ((body s a).1, none) := Prod.ext rfl (h s a)
    rw [runUntil_cons_none hbody, ih, foldl_cons]

end Until

/-- Numbered items whose number is not used. -/
theorem map_zipIdx_fst {α β : Type} (g : α → β) (as : List α) :
    (as.zipIdx.map fun (a, _) => g a) = as.map g := by
  have hcomp : (as.zipIdx.map fun (a, _) => g a) = (as.zipIdx.map Prod.fst).map g := by
    rw [map_map]
    rfl
  rw [hcomp, zipIdx_map_fst]

theorem flatten_toChunks {α : Type} (n : Nat) (as : List α) : (as.toChunks n).flatten = as := by
  have hgo : ∀ (as : List α) (acc : Array α) (accs : Array (List α)),
      (List.toChunks.go n as acc accs).flatten = accs.toList.flatten ++ (acc.toList ++ as) := by
    intro as
    induction as with
    | nil => intro acc accs; simp [List.toChunks.go]
    | cons a as ih =>
      intro acc accs
      rw [List.toChunks.go]
      split <;> simp [ih]
  cases as with
  | nil => cases n <;> rfl
  | cons a as =>
    cases n with
    | zero => simp [List.toChunks]
    | succ n => simp [List.toChunks, hgo]

/-! ## Steps that may refuse an event -/

section Partial

variable {σ ε : Type} (step : σ → ε → Option σ)

def exec : σ → List ε → Option σ
  | s, [] => some s
  | s, e :: es => (step s e).bind fun s' => exec s' es

/-- Every step that the schedule takes is taken in a state where the guard holds. -/
def Along (G : σ → ε → Prop) : σ → List ε → Prop
  | _, [] => True
  | s, e :: es => ∀ s', step s e = some s' → G s e ∧ Along G s' es

variable {es : List ε}

theorem exec_cons_eq_some {s t : σ} {e : ε} :
    exec step s (e :: es) = some t ↔ ∃ s', step s e = some s' ∧ exec step s' es = some t := by
  simp [exec, Option.bind_eq_some_iff]

theorem exec_append (s : σ) (es fs : List ε) :
    exec step s (es ++ fs) = (exec step s es).bind fun s' => exec step s' fs := by
  induction es generalizing s with
  | nil => rfl
  | cons e es ih =>
    simp only [cons_append, exec]
    cases step s e with
    | none => rfl
    | some s' => exact ih s'

variable {G : σ → ε → Prop}

theorem along_cons {s s' : σ} {e : ε} (hs : step s e = some s')
    (hG : G s e) (hes : Along step G s' es) : Along step G s (e :: es) := by
  intro t ht
  cases hs.symm.trans ht
  exact ⟨hG, hes⟩

theorem along_of_forall (s : σ) (hG : ∀ e ∈ es, ∀ s, G s e) : Along step G s es := by
  induction es generalizing s with
  | nil => trivial
  | cons e es ih =>
    intro s' _
    exact ⟨hG e mem_cons_self s, ih s' fun e he => hG e (mem_cons_of_mem _ he)⟩

theorem along_of_isPrefix {pre : List ε} (hpre : pre <+: es) {s : σ} (hG : Along step G s es) :
    Along step G s pre := by
  obtain ⟨post, rfl⟩ := hpre
  induction pre generalizing s with
  | nil => trivial
  | cons e pre ih =>
    intro s' hs'
    exact ⟨(hG s' hs').1, ih (hG s' hs').2⟩

def alongTest (g : σ → ε → Bool) : σ → List ε → Bool
  | _, [] => true
  | s, e :: es => match step s e with
    | none => true
    | some s' => g s e && alongTest g s' es

theorem along_of_test {g : σ → ε → Bool} (hg : ∀ s e, g s e = true → G s e)
    {s : σ} (h : alongTest step g s es = true) : Along step G s es := by
  induction es generalizing s with
  | nil => trivial
  | cons e es ih =>
    intro s' hs'
    rw [alongTest, hs', Bool.and_eq_true] at h
    exact ⟨hg s e h.1, ih h.2⟩

theorem exec_invariant (P : σ → Prop) (G : σ → ε → Prop)
    (hstep : ∀ s e s', P s → G s e → step s e = some s' → P s') {s t : σ} (hs : P s)
    (hG : Along step G s es) (h : exec step s es = some t) : P t := by
  induction es generalizing s with
  | nil => cases h; exact hs
  | cons e es ih =>
    obtain ⟨s', hs', ht⟩ := (exec_cons_eq_some step).mp h
    obtain ⟨hguard, hrest⟩ := hG s' hs'
    exact ih (hstep s e s' hs hguard hs') hrest ht

/-- A property of the schedule so far and of the state it leads to, kept by every guarded step and
broken by every unguarded one: it holds at every point of a schedule exactly when every step the
schedule takes is guarded.  Only steps within `H` are asked about. -/
theorem exec_within_iff (P : List ε → σ → Prop) (H G : σ → ε → Prop)
    (hkeep : ∀ done s e s', P done s → H s e → G s e → step s e = some s' → P (done ++ [e]) s')
    (hbreak : ∀ done s e s', P done s → H s e → ¬ G s e → step s e = some s' →
      ¬ P (done ++ [e]) s')
    {done : List ε} {s : σ} (es : List ε) (hs : P done s) (hH : Along step H s es) :
    (∀ pre t, pre <+: es → exec step s pre = some t → P (done ++ pre) t) ↔ Along step G s es := by
  induction es generalizing done s with
  | nil =>
    refine ⟨fun _ => trivial, fun _ pre t hpre h => ?_⟩
    cases prefix_nil.mp hpre
    cases h
    rwa [append_nil]
  | cons e es ih =>
    constructor
    · intro hP s' hs'
      obtain ⟨hwithin, hlater⟩ := hH s' hs'
      have hfirst : P (done ++ [e]) s' :=
        hP [e] s' (prefix_append [e] es) (by simp [exec, hs'])
      refine ⟨by_contra fun hG => hbreak done s e s' hs hwithin hG hs' hfirst,
        (ih hfirst hlater).mp ?_⟩
      intro pre t hpre h
      rw [append_assoc]
      exact hP (e :: pre) t (cons_prefix_cons.mpr ⟨rfl, hpre⟩) (by simp [exec, hs', h])
    · intro hG pre t hpre h
      rcases pre with _ | ⟨e', pre⟩
      · cases h
        rwa [append_nil]
      · obtain ⟨rfl, htail⟩ := cons_prefix_cons.mp hpre
        obtain ⟨s', hs', ht⟩ := (exec_cons_eq_some step).mp h
        obtain ⟨hguard, hrest⟩ := hG s' hs'
        obtain ⟨hwithin, hlater⟩ := hH s' hs'
        have hpost := (ih (hkeep done s e' s' hs hwithin hguard hs') hlater).mpr hrest pre t htail ht
        rwa [append_assoc] at hpost

theorem exec_history_iff (P : List ε → σ → Prop) (G : σ → ε → Prop)
    (hkeep : ∀ done s e s', P done s → G s e → step s e = some s' → P (done ++ [e]) s')
    (hbreak : ∀ done s e s', P done s → ¬ G s e → step s e = some s' → ¬ P (done ++ [e]) s')
    {done : List ε} {s : σ} (es : List ε) (hs : P done s) :
    (∀ pre t, pre <+: es → exec step s pre = some t → P (done ++ pre) t) ↔ Along step G s es :=
  exec_within_iff step P (fun _ _ => True) G (fun _ _ _ _ hs _ => hkeep _ _ _ _ hs)
    (fun _ _ _ _ hs _ => hbreak _ _ _ _ hs) es hs (along_of_forall _ _ fun _ _ _ => trivial)

/-- The same for a property of the state alone. -/
theorem exec_throughout_iff (P : σ → Prop) (G : σ → ε → Prop)
    (hkeep : ∀ s e s', P s → G s e → step s e = some s' → P s')
    (hbreak : ∀ s e s', P s → ¬ G s e → step s e = some s' → ¬ P s') {s : σ} (es : List ε)
    (hs : P s) : (∀ pre t, pre <+: es → exec step s pre = some t → P t) ↔ Along step G s es :=
  @exec_history_iff σ ε step (fun _ => P) G (fun _ => hkeep) (fun _ => hbreak) [] s es hs

/-- The same for a property of steps: guarded steps keep an invariant and have the property,
unguarded steps from states with the invariant do not have it. -/
theorem exec_steps_iff (I : σ → Prop) (G : σ → ε → Prop) (Q : σ → ε → σ → Prop)
    (hkeep : ∀ s e s', I s → G s e → step s e = some s' → I s' ∧ Q s e s')
    (hbreak : ∀ s e s', I s → ¬ G s e → step s e = some s' → ¬ Q s e s')
    {s : σ} (es : List ε) (hs : I s) :
    (∀ pre e t t', pre ++ [e] <+: es → exec step s pre = some t → step t e = some t' → Q t e t') ↔
      Along step G s es := by
  induction es generalizing s with
  | nil =>
    refine ⟨fun _ => trivial, fun _ pre e t t' hpre => ?_⟩
    simp at hpre
  | cons e es ih =>
    constructor
    · intro hQ s' hs'
      have hfirst := hQ [] e s s' (prefix_append [e] es) rfl hs'
      have hG : G s e := by_contra fun hG => hbreak s e s' hs hG hs' hfirst
      refine ⟨hG, (ih (hkeep s e s' hs hG hs').1).mp fun pre e' t t' hpre h ht => ?_⟩
      refine hQ (e :: pre) e' t t' (cons_prefix_cons.mpr ⟨rfl, hpre⟩) ?_ ht
      simp [exec, hs', h]
    · intro hG pre e' t t' hpre h ht
      rcases snoc_prefix_cons.mp hpre with ⟨rfl, rfl⟩ | ⟨rest, rfl, hrest⟩
      · cases h
        exact (hkeep _ _ t' hs (hG t' ht).1 ht).2
      · obtain ⟨s', hs', h⟩ := (exec_cons_eq_some step).mp h
        obtain ⟨hguard, halong⟩ := hG s' hs'
        exact (ih (hkeep s e s' hs hguard hs').1).mpr halong rest e' t t' hrest h ht

end Partial

end Lib.Runs
