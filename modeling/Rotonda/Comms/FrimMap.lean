import Mathlib.Data.List.Nodup
import Rotonda.Lib.Runs

/-!
The frequently read, infrequently modified mini map: a list of pairs that every modification
replaces by a new one.

* `get_eq_some`: a lookup finds exactly the pairs of the list;
* `get_insert`, `get_remove`, `get_retain`: reading after a modification;
* `Threads.linearizable_iff`: when concurrent modifications, whose closures may run on snapshots that
  are outdated then, return what they did.
-/

namespace Rotonda

open List Lib.Runs

structure FrimMap (K V : Type) where
  inner : List (K × V)
  nodup : (inner.map Prod.fst).Nodup

namespace FrimMap

variable {K V : Type}
variable {m : FrimMap K V}

def default : FrimMap K V := ⟨[], nodup_nil⟩

def len (m : FrimMap K V) : Nat := m.inner.length

/-- Remove all pairs that the test refuses. -/
def retain (m : FrimMap K V) (f : K → V → Bool) : FrimMap K V :=
  ⟨m.inner.filter fun e => f e.1 e.2, (filter_sublist.map _).nodup m.nodup⟩

variable [DecidableEq K]

def get (m : FrimMap K V) (key : K) : Option V :=
  (m.inner.find? fun e => e.1 = key).map Prod.snd

theorem nodup_insert (m : FrimMap K V) (key : K) (value : V) :
    (((m.inner.filter fun e => e.1 ≠ key) ++ [(key, value)]).map Prod.fst).Nodup := by
  have hsub := (m.inner.filter_sublist (p := fun e => e.1 ≠ key)).map Prod.fst
  rw [map_append, nodup_append]
  refine ⟨hsub.nodup m.nodup, nodup_singleton _, fun k hk k' hk' => ?_⟩
  obtain ⟨e, he, rfl⟩ := mem_map.mp hk
  rw [mem_singleton.mp hk']
  simpa using (mem_filter.mp he).2

/-- The new pair goes to the end; a pair with its key is dropped. -/
def insert (m : FrimMap K V) (key : K) (value : V) : FrimMap K V :=
  ⟨(m.inner.filter fun e => e.1 ≠ key) ++ [(key, value)], m.nodup_insert key value⟩

/-- The map without the key, and the value that stood there. -/
def remove (m : FrimMap K V) (key : K) : FrimMap K V × Option V :=
  (⟨m.inner.eraseP fun e => e.1 = key, (eraseP_sublist.map _).nodup m.nodup⟩, m.get key)

theorem get_eq_some {k : K} {v : V} : m.get k = some v ↔ (k, v) ∈ m.inner := by
  unfold get
  constructor
  · intro h
    obtain ⟨⟨k', v'⟩, he, rfl⟩ := Option.map_eq_some_iff.mp h
    have hk : k' = k := by simpa using List.find?_some he
    exact hk ▸ mem_of_find?_eq_some he
  · intro h
    obtain ⟨inner, hnodup⟩ := m
    induction inner with
    | nil => cases h
    | cons e es ih =>
      obtain ⟨hnot, hnodup⟩ := nodup_cons.mp hnodup
      rcases mem_cons.mp h with rfl | h
      · simp
      · have hne : ¬ e.1 = k := by
          rintro rfl
          exact hnot (mem_map.mpr ⟨_, h, rfl⟩)
        rw [List.find?_cons_of_neg (by simpa using hne)]
        exact ih hnodup h

/-- A map has as many pairs as it has keys. -/
theorem len_eq_length {keys : List K} (hnodup : keys.Nodup)
    (hmem : ∀ k, (m.get k).isSome ↔ k ∈ keys) : m.len = keys.length := by
  have hkeys : ∀ k, k ∈ m.inner.map Prod.fst ↔ k ∈ keys := by
    intro k
    rw [← hmem, Option.isSome_iff_exists]
    simp [get_eq_some]
  have hperm := (perm_ext_iff_of_nodup m.nodup hnodup).mpr hkeys
  rw [len, ← hperm.length_eq, length_map]

@[simp] theorem get_default (k : K) : (default : FrimMap K V).get k = none := rfl

theorem get_insert (m : FrimMap K V) (k : K) (v : V) (k' : K) :
    (m.insert k v).get k' = if k' = k then some v else m.get k' := by
  refine Option.ext fun v' => ?_
  rw [get_eq_some, insert, mem_append, mem_filter, mem_singleton, Prod.mk.injEq]
  split
  next h => simp [h, eq_comm]
  next h => simp [h, get_eq_some]

@[simp] theorem get_insert_self (m : FrimMap K V) (k : K) (v : V) :
    (m.insert k v).get k = some v := by
  rw [get_insert, if_pos rfl]

theorem mem_eraseP {es : List (K × V)} (h : (es.map Prod.fst).Nodup) {k : K} {e : K × V} :
    e ∈ es.eraseP (fun e => e.1 = k) ↔ e ∈ es ∧ e.1 ≠ k := by
  induction es with
  | nil => simp
  | cons x es ih =>
    obtain ⟨hnot, hnodup⟩ := nodup_cons.mp h
    by_cases hx : x.1 = k
    · rw [eraseP_cons_of_pos (by simpa using hx), mem_cons]
      constructor
      · intro he
        refine ⟨.inr he, ?_⟩
        rintro rfl
        exact hnot (hx ▸ mem_map_of_mem he)
      · rintro ⟨rfl | he, hne⟩
        · exact absurd hx hne
        · exact he
    · rw [eraseP_cons_of_neg (by simpa using hx), mem_cons, mem_cons, ih hnodup]
      constructor
      · rintro (rfl | ⟨he, hne⟩)
        · exact ⟨.inl rfl, hx⟩
        · exact ⟨.inr he, hne⟩
      · rintro ⟨rfl | he, hne⟩
        · exact .inl rfl
        · exact .inr ⟨he, hne⟩

theorem get_remove (m : FrimMap K V) (k k' : K) :
    (m.remove k).1.get k' = if k' = k then none else m.get k' := by
  refine Option.ext fun v => ?_
  rw [get_eq_some, remove, mem_eraseP m.nodup]
  split
  next h => simp [h]
  next h => simp [h, get_eq_some]

@[simp] theorem snd_remove (m : FrimMap K V) (k : K) : (m.remove k).2 = m.get k := rfl

theorem get_retain {f : K → V → Bool} {k : K} {v : V} :
    (m.retain f).get k = some v ↔ m.get k = some v ∧ f k v = true := by
  rw [get_eq_some, get_eq_some, retain, mem_filter]

/-! ## Calls of several threads -/

inductive Op (K V : Type) where
  | insert (key : K) (value : V)
  | retain (f : K → V → Bool)
  | remove (key : K)
  | orInsertWith (key : K) (value : V)

/-- A call under way, with what its closure has captured; `entry` marks an insertion of
`or_insert_with`. -/
inductive Call (K V : Type) where
  | idle
  | insert (key : K) (value : V) (entry : Bool)
  | retain (f : K → V → Bool)
  | remove (key : K) (found : Option V)
  | orInsertWith (key : K) (value : V)

/-- What a call returned, with the map that it replaced or left. -/
inductive Return (K V : Type) where
  | removed (key : K) (before : FrimMap K V) (value : Option V)
  | entered (key : K) (value : V) (after : FrimMap K V)

structure Threads (T K V : Type) where
  map : FrimMap K V := default
  calls : T → Call K V := fun _ => .idle
  log : List (Return K V) := []

/-- A step of a thread: a new call, the lookup of an entry, a run of the closure of a call whose
result is not installed, and one whose result is. -/
inductive Move (T K V : Type) where
  | call (t : T) (op : Op K V)
  | look (t : T)
  | retry (t : T)
  | install (t : T)

def Op.begin : Op K V → Call K V
  | .insert key value => .insert key value false
  | .retain f => .retain f
  | .remove key => .remove key none
  | .orInsertWith key value => .orInsertWith key value

/-- The closure of a call on a snapshot: the new map, and what is captured then. -/
def closure (m : FrimMap K V) : Call K V → Option (FrimMap K V × Call K V)
  | .insert key value entry => some (m.insert key value, .insert key value entry)
  | .retain f => some (m.retain f, .retain f)
  | .remove key found =>
    let (new, v) := m.remove key
    some (new, .remove key (v.or found))
  | _ => none

def Call.returned (before after : FrimMap K V) : Call K V → List (Return K V)
  | .remove key found => [.removed key before found]
  | .insert key value true => [.entered key value after]
  | _ => []

namespace Threads

variable {T : Type} [DecidableEq T]

def set (s : Threads T K V) (t : T) (c : Call K V) : Threads T K V :=
  { s with calls := fun t' => if t' = t then c else s.calls t' }

/-- A move that a thread cannot make changes nothing. -/
def step (s : Threads T K V) : Move T K V → Threads T K V
  | .call t op => match s.calls t with
    | .idle => s.set t op.begin
    | _ => s
  | .look t => match s.calls t with
    | .orInsertWith key value => match s.map.get key with
      | some v => { s.set t .idle with log := s.log ++ [.entered key v s.map] }
      | none => s.set t (.insert key value true)
    | _ => s
  | .retry t => match s.map.closure (s.calls t) with
    | some (_, c) => s.set t c
    | none => s
  | .install t => match s.map.closure (s.calls t) with
    | some (new, c) => { s.set t .idle with map := new, log := s.log ++ c.returned s.map new }
    | none => s

/-- A removal returned the value in the map that it replaced, `or_insert_with` the one in the map that
it left. -/
def Right : Return K V → Prop
  | .removed key before value => value = before.get key
  | .entered key value after => after.get key = some value

/-- A removal that has found the key in an earlier snapshot does not replace a map without it. -/
def Guarded (s : Threads T K V) : Move T K V → Prop
  | .install t => ∀ key found, s.calls t = .remove key found → s.map.get key = none → found = none
  | _ => True

theorem right_step (s : Threads T K V) (mv : Move T K V) (h : ∀ r ∈ s.log, Right r) :
    (∀ r ∈ (s.step mv).log, Right r) ↔ s.Guarded mv := by
  cases mv with
  | call t _ | retry t => simp only [step]; split <;> simpa [Guarded, set] using h
  | look t =>
    simp only [step]
    split
    · split
      next hget => simpa [Guarded, Right, or_imp, forall_and, hget] using h
      · simpa [Guarded, set] using h
    · simpa [Guarded] using h
  | install t =>
    cases hcall : s.calls t with
    | remove key found =>
      -- the closure keeps what it has found if the key is not there any more
      cases hget : s.map.get key <;>
        simp_all [step, closure, Call.returned, Guarded, Right, or_imp]
    | insert key value entry =>
      cases entry <;> simp_all [step, closure, Call.returned, Guarded, Right, or_imp]
    | idle | retain | orInsertWith => simpa [step, closure, Call.returned, Guarded, hcall] using h

theorem linearizable_iff (ms : List (Move T K V)) :
    (∀ pre, pre <+: ms →
      ((run step {} pre).map.inner.map Prod.fst).Nodup ∧ ∀ r ∈ (run step {} pre).log, Right r) ↔
      ∀ pre mv, pre ++ [mv] <+: ms → (run step ({} : Threads T K V) pre).Guarded mv := by
  refine throughout_iff step (fun _ s => (s.map.inner.map Prod.fst).Nodup ∧ ∀ r ∈ s.log, Right r)
    Guarded {} ms ⟨nodup_nil, by simp⟩ (fun _ mv _ h hg => ?_) fun _ mv _ h hg hnext => ?_
  · exact ⟨(step _ mv).map.nodup, (right_step _ mv h.2).mpr hg⟩
  · exact hg ((right_step _ mv h.2).mp hnext.2)

/-- Two threads remove one key, and the second has looked before the first is done. -/
def removedTwice : List (Move Bool Nat Nat) :=
  [.call true (.insert 1 10), .install true, .call true (.remove 1), .call false (.remove 1),
    .retry false, .install true, .install false]

theorem removedTwice_returned :
    (run step {} removedTwice).log.map (fun r => match r with
      | .removed key before value => (before.get key, value)
      | .entered _ value _ => (none, some value)) = [(some 10, some 10), (none, some 10)] := by
  decide

end Threads

end FrimMap

end Rotonda
