import Rotonda.RibUnit.Status
import Mathlib.Logic.Function.Iterate

/-!
The garbage collection of BMP peers and routers that stay disconnected.

A sweep works on a snapshot of the register and on the ids that were disconnected in the snapshot
before.  It frees one entry after the other, each under a lock of its own, so it is given in these
steps; sets are lists, in the order in which they are iterated.

* `Rib.gcDisconnectedBmpPeers`: a whole sweep;
* `Gc.sweep_uninterrupted`: the steps in one go are a whole sweep.
-/

namespace Rotonda

namespace Register

def idle (reg : Register) (t : IngressType) (id : IngressId) : Bool :=
  match reg.get id with
  | some info => info.state = some .disconnected && info.ingressType = some t
  | none => false

def parentsInUse (reg : Register) (order : List IngressId) : List IngressId :=
  order.filterMap fun id => (reg.get id).bind (·.parentIngress)

/-- The ids that are remembered until the next sweep. -/
def disconnected (reg : Register) (order : List IngressId) : List IngressId :=
  order.filter fun id => reg.idle .bgpViaBmp id || reg.idle .bmp id

def peersToReclaim (reg : Register) (order prev : List IngressId) : List IngressId :=
  order.filter fun id => reg.idle .bgpViaBmp id && decide (id ∈ prev)

/-- A router is kept while an entry names it as its parent. -/
def routersToReclaim (reg : Register) (order prev : List IngressId) : List IngressId :=
  order.filter fun id =>
    reg.idle .bmp id && !decide (id ∈ reg.parentsInUse order) && decide (id ∈ prev)

/-- Free the entries that are still disconnected; also which these are. -/
def reclaim (reg : Register) : List IngressId → List IngressId × Register
  | [] => ([], reg)
  | id :: ids => match reg.removeIfDisconnected id with
    | (some _, reg) => ((id :: (reg.reclaim ids).1), (reg.reclaim ids).2)
    | (none, reg) => reg.reclaim ids

end Register

/-- A sweep over a snapshot that is iterated in the order, and the ids for the next one. -/
def Rib.gcDisconnectedBmpPeers {S : Type} [PrefixStore S RotondaPaMap] (rib : Rib S)
    (order prev : List IngressId) : List IngressId × Rib S :=
  let info := rib.ingressRegister
  let (reclaimed, reg) := info.reclaim (info.peersToReclaim order prev)
  let rib := { rib with ingressRegister := reg }.removeForIngresses reclaimed
  let (_, reg) := rib.ingressRegister.reclaim (info.routersToReclaim order prev)
  (info.disconnected order, { rib with ingressRegister := reg })

/-- Where the collector is. -/
inductive Gc where
  /-- Between two sweeps, with what the last snapshot had disconnected. -/
  | waiting (candidates : List IngressId)
  | reclaimingPeers (todo reclaimed routers next : List IngressId)
  | reclaimingRouters (todo next : List IngressId)

namespace Gc

/-- The next step takes a snapshot. -/
def isWaiting : Gc → Bool
  | waiting _ => true
  | _ => false

/-- What the last snapshot had disconnected. -/
def latest : Gc → List IngressId
  | waiting candidates => candidates
  | reclaimingPeers _ _ _ next | reclaimingRouters _ next => next

/-- What is to be freed in the sweep. -/
def due : Gc → List IngressId
  | waiting _ => []
  | reclaimingPeers todo _ routers _ => todo ++ routers
  | reclaimingRouters todo _ => todo

/-- All ids that the collector goes by. -/
def remembered (gc : Gc) : List IngressId := gc.due ++ gc.latest

def routers : Gc → List IngressId
  | waiting _ => []
  | reclaimingPeers _ _ routers _ => routers
  | reclaimingRouters todo _ => todo

/-- The peers whose entries are freed and whose records are not yet removed. -/
def reclaimed : Gc → List IngressId
  | reclaimingPeers _ reclaimed _ _ => reclaimed
  | _ => []

/-- The entry that is to be freed next. -/
def target : Gc → Option IngressId
  | reclaimingPeers (id :: _) .. | reclaimingRouters (id :: _) _ => some id
  | _ => none

variable {S : Type} [PrefixStore S RotondaPaMap]

def step (order : List IngressId) : Gc × Rib S → Gc × Rib S
  | (waiting prev, rib) =>
    let info := rib.ingressRegister
    (reclaimingPeers (info.peersToReclaim order prev) [] (info.routersToReclaim order prev)
      (info.disconnected order), rib)
  | (reclaimingPeers (id :: todo) reclaimed routers next, rib) =>
    match rib.ingressRegister.removeIfDisconnected id with
    | (some _, reg) =>
      (reclaimingPeers todo (reclaimed ++ [id]) routers next, { rib with ingressRegister := reg })
    | (none, reg) =>
      (reclaimingPeers todo reclaimed routers next, { rib with ingressRegister := reg })
  | (reclaimingPeers [] reclaimed routers next, rib) =>
    (reclaimingRouters routers next, rib.removeForIngresses reclaimed)
  | (reclaimingRouters (id :: todo) next, rib) =>
    (reclaimingRouters todo next,
      { rib with ingressRegister := (rib.ingressRegister.removeIfDisconnected id).2 })
  | (reclaimingRouters [] next, rib) => (waiting next, rib)

variable {order : List IngressId}

/-- A step frees one entry at most, and that one is disconnected. -/
theorem register_step {gc gc' : Gc} {rib rib' : Rib S} (h : step order (gc, rib) = (gc', rib')) :
    rib'.ingressRegister = rib.ingressRegister ∨ ∃ id info, gc.target = some id ∧
      rib.ingressRegister.get id = some info ∧ info.state = some .disconnected ∧
      rib'.ingressRegister = rib.ingressRegister.remove id := by
  match gc with
  | waiting prev | reclaimingRouters [] next =>
    cases h
    exact .inl rfl
  | reclaimingPeers [] reclaimed routers next =>
    cases h
    exact .inl (rib.ingressRegister_removeForIngresses reclaimed)
  | reclaimingPeers (id :: todo) reclaimed routers next | reclaimingRouters (id :: todo) next =>
    simp only [step] at h
    rcases rib.ingressRegister.removeIfDisconnected_cases id with heq | ⟨info, hget, hstate, heq⟩ <;>
      rw [heq] at h <;> cases h
    · exact .inl rfl
    · exact .inr ⟨id, info, rfl, hget, hstate, rfl⟩

theorem get_of_step {gc gc' : Gc} {rib rib' : Rib S} (h : step order (gc, rib) = (gc', rib'))
    {id : IngressId} {info : IngressInfo} (hget : rib'.ingressRegister.get id = some info) :
    rib.ingressRegister.get id = some info := by
  rcases register_step h with heq | ⟨id', _, _, _, _, heq⟩ <;> rw [heq] at hget
  · exact hget
  · exact (Lib.Dict.of_get_erase hget).2

theorem serial_step {gc gc' : Gc} {rib rib' : Rib S} (h : step order (gc, rib) = (gc', rib')) :
    rib'.ingressRegister.serial = rib.ingressRegister.serial := by
  rcases register_step h with heq | ⟨id, _, _, _, _, heq⟩ <;> rw [heq]
  rfl

/-- A step removes records of peers that were freed, and no others. -/
theorem localRecord_step [LawfulPrefixStore S] {gc gc' : Gc}
    {rib rib' : Rib S} (h : step order (gc, rib) = (gc', rib')) {k : RouteKey}
    (hk : k.mui ∉ gc.reclaimed) : rib'.localRecord k = rib.localRecord k := by
  cases gc with
  | waiting prev => cases h; rfl
  | reclaimingPeers todo reclaimed routers next =>
    cases todo with
    | nil =>
      cases h
      change k.mui ∉ reclaimed at hk
      rw [Rib.localRecord_removeForIngresses, if_neg hk]
    | cons id todo =>
      simp only [step] at h
      split at h <;> cases h <;> rfl
  | reclaimingRouters todo next => cases todo <;> cases h <;> rfl

theorem iterate_reclaimingPeers (order todo reclaimed routers next : List IngressId) (rib : Rib S) :
    (step order)^[todo.length + 1] (reclaimingPeers todo reclaimed routers next, rib) =
      (reclaimingRouters routers next,
        { rib with ingressRegister := (rib.ingressRegister.reclaim todo).2 }.removeForIngresses
          (reclaimed ++ (rib.ingressRegister.reclaim todo).1)) := by
  induction todo generalizing reclaimed rib with
  | nil => simp [step, Register.reclaim]
  | cons id todo ih =>
    rw [List.length_cons, Function.iterate_succ_apply]
    simp only [step, Register.reclaim]
    split
    · rw [ih]
      simp
    · rw [ih]

theorem iterate_reclaimingRouters (order todo next : List IngressId) (rib : Rib S) :
    (step order)^[todo.length + 1] (reclaimingRouters todo next, rib) =
      (waiting next, { rib with ingressRegister := (rib.ingressRegister.reclaim todo).2 }) := by
  induction todo generalizing rib with
  | nil => rfl
  | cons id todo ih =>
    rw [List.length_cons, Function.iterate_succ_apply]
    simp only [step, Register.reclaim]
    rw [ih]
    split
    next heq => rw [heq]
    next heq => rw [heq]

/-- Without interruption the steps are one sweep. -/
theorem sweep_uninterrupted (order prev : List IngressId) (rib : Rib S) :
    let info := rib.ingressRegister
    (step order)^[(info.routersToReclaim order prev).length + 1 +
        ((info.peersToReclaim order prev).length + 1) + 1] (waiting prev, rib) =
      (waiting (rib.gcDisconnectedBmpPeers order prev).1,
        (rib.gcDisconnectedBmpPeers order prev).2) := by
  dsimp only
  rw [Function.iterate_succ_apply, Function.iterate_add_apply]
  simp only [step]
  rw [iterate_reclaimingPeers, iterate_reclaimingRouters]
  rfl

end Gc

end Rotonda
