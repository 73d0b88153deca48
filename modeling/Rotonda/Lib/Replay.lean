import Mathlib.Data.Option.Basic

/-!
Copies of a table that are made while the table changes.

A command sets the values of some keys and leaves the others alone.  A copy that holds, for each
key, the value of any moment since a log of the commands was started is brought up to date by
replaying the log, although the log starts before that moment.

* `replay_const_or_id`: a log has a last word on a key, or none;
* `Behind.append`: a value that is behind stays so while the table changes;
* `Behind.advance`: the current value itself is behind by the log, at every moment.
-/

namespace Lib.Replay

variable {K V C : Type} (sets : C → K → Option V)

/-- The value of a key after a command. -/
def apply (k : K) (v : V) (c : C) : V := (sets c k).getD v

/-- The value of a key after the commands of a log. -/
def replay (k : K) (v : V) (log : List C) : V := log.foldl (apply sets k) v

/-- Replaying the log over the value gives the current one. -/
def Behind (log : List C) (k : K) (v cur : V) : Prop := replay sets k v log = cur

variable {sets} {k : K} {v cur : V} {log cs : List C}

@[simp] theorem replay_cons (k : K) (v : V) (c : C) (cs : List C) :
    replay sets k v (c :: cs) = replay sets k (apply sets k v c) cs := rfl

theorem replay_append (k : K) (v : V) (log cs : List C) :
    replay sets k v (log ++ cs) = replay sets k (replay sets k v log) cs :=
  List.foldl_append ..

/-- The last word of a log on a key does not depend on what was before. -/
theorem replay_const_or_id (k : K) (cs : List C) :
    (∃ w, ∀ v, replay sets k v cs = w) ∨ ∀ v, replay sets k v cs = v := by
  induction cs with
  | nil => exact .inr fun _ => rfl
  | cons c cs ih =>
    rcases ih with ⟨w, hw⟩ | hid
    · exact .inl ⟨w, fun v => hw _⟩
    · cases hc : sets c k with
      | some w => exact .inl ⟨w, fun v => by rw [replay_cons, hid, apply, hc, Option.getD_some]⟩
      | none => exact .inr fun v => by rw [replay_cons, hid, apply, hc, Option.getD_none]

theorem behind_nil (k : K) (v : V) : Behind sets [] k v v := rfl

/-- The table changes by commands that are logged. -/
theorem Behind.append (h : Behind sets log k v cur) (cs : List C) :
    Behind sets (log ++ cs) k v (replay sets k cur cs) := by
  rw [Behind, replay_append]
  exact congrArg (replay sets k · cs) h

/-- A copy of the current value is behind by the whole log. -/
theorem Behind.advance (h : Behind sets log k cur cur) (cs : List C) :
    Behind sets (log ++ cs) k (replay sets k cur cs) (replay sets k cur cs) := by
  rw [Behind, replay_append]
  rcases replay_const_or_id k cs with ⟨w, hw⟩ | hid
  · rw [hw, hw]
  · rw [hid, hid]
    exact h

/-- The first commands of the log are forgotten. -/
theorem Behind.forget (h : Behind sets (cs ++ log) k cur cur) : Behind sets log k cur cur := by
  rw [Behind, replay_append] at h
  rw [Behind]
  rcases replay_const_or_id k log with ⟨w, hw⟩ | hid
  · rw [hw] at h ⊢
    exact h
  · exact hid cur

/-- The first commands of the log reach the copy. -/
theorem Behind.split (h : Behind sets (cs ++ log) k v cur) :
    Behind sets log k (replay sets k v cs) cur :=
  (replay_append k v cs log).symm.trans h

end Lib.Replay
