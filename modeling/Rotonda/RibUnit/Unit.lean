import Rotonda.RibUnit.Status

/-!
The RIB unit: what it does with one update and what it forwards to the units after it.

The roto function runs on each payload before insertion.  It can reject the payload, and the one
change it can make to a route is the RPKI byte of its path attributes.

* `filterPayload_rib`, `filterPayload_forwarded`: a batch of payloads in terms of the payloads
  that the roto function accepts.
-/

namespace Rotonda

inductive Verdict where
  | accept (rov : Option RovStatus)
  | reject
  deriving DecidableEq, Repr

abbrev RotoFunction := Payload → Verdict

/-- The options of the unit that the route paths read. -/
structure RibConfig where
  retainWithdrawnAttributes : Bool
  rotoFunctionPre : Option RotoFunction

namespace RibConfig

def accepted (cfg : RibConfig) (p : Payload) : Option Payload :=
  match cfg.rotoFunctionPre with
  | none => some p
  | some roto => match roto p with
    | .accept none => some p
    | .accept (some rov) => some { p with rxValue := p.rxValue.setRpkiInfo rov }
    | .reject => none

theorem key_of_accepted {cfg : RibConfig} {p q : Payload} (h : cfg.accepted p = some q) :
    q.key = p.key ∧ q.routeStatus = p.routeStatus := by
  unfold accepted at h
  split at h
  · cases h
    exact ⟨rfl, rfl⟩
  · split at h
    · cases h
      exact ⟨rfl, rfl⟩
    · cases h
      simp [Payload.key]
    · cases h

end RibConfig

namespace Rib

variable {S : Type} [PrefixStore S RotondaPaMap]

def insertPayload (cfg : RibConfig) (rib : Rib S) (payload : Payload) : Rib S :=
  (rib.insert payload.rxValue payload.routeStatus 0 payload.ingressId
    cfg.retainWithdrawnAttributes).1

/-- The loop of `filterPayload`: the RIB, the payloads to forward and what was sent meanwhile. -/
def filterLoop (cfg : RibConfig) :
    Rib S → List Payload → List Payload → List Update → Rib S × List Payload × List Update
  | rib, [], res, sent => (rib, res, sent)
  | rib, p :: ps, res, sent =>
    match cfg.accepted p with
    | some p => filterLoop cfg (rib.insertPayload cfg p) ps (res ++ [p]) (sent ++ [.outputStream])
    | none => filterLoop cfg rib ps res (sent ++ [.outputStream])

def filterPayload (cfg : RibConfig) (rib : Rib S) (payload : List Payload) :
    Rib S × List Update :=
  let (rib, res, sent) := filterLoop cfg rib payload [] []
  match res with
  | [] => (rib, sent)
  | [p] => (rib, sent ++ [.single p])
  | res => (rib, sent ++ [.bulk res])

/-- The entries without an inline snapshot, which are marked and may come back. -/
def toMark (entries : List (IngressId × Option IngressInfo)) :
    List (IngressId × Option AfiSafiType) :=
  (entries.filter fun e => e.2.isNone).map fun e => (e.1, none)

/-- The entries with an inline snapshot, which are gone for good. -/
def toRemove (entries : List (IngressId × Option IngressInfo)) : List IngressId :=
  (entries.filter fun e => e.2.isSome).map Prod.fst

/-- One update: the RIB after it and the updates forwarded through the gate.  An RTR update
changes the VRP cache, which is modelled on its own. -/
def processUpdate (cfg : RibConfig) (rib : Rib S) (update : Update) : Rib S × List Update :=
  match update with
  | .upstreamStatusChange _ | .outputStream | .peerStats .. => (rib, [update])
  | .bulk payloads => rib.filterPayload cfg payloads
  | .single payload => rib.filterPayload cfg [payload]
  | .withdrawBulk entries =>
    let rib := (rib.withdrawForIngresses (toMark entries) cfg.retainWithdrawnAttributes).1
    (rib.removeForIngresses (toRemove entries), [update])
  | .ingressReappeared ingressId =>
    let rib := rib.markIngressActive ingressId
    ({ rib with
      ingressRegister := rib.ingressRegister.updateInfo ingressId (.withState .connected) },
      [update])
  | .withdraw ingressId maybeAfisafi =>
    ((rib.withdrawForIngresses [(ingressId, maybeAfisafi)] cfg.retainWithdrawnAttributes).1,
      [update])
  | .rtr _ => (rib, [])

/-! ## Batches of payloads -/

section

variable (cfg : RibConfig) (rib : Rib S) (ps : List Payload)

theorem filterLoop_eq (res : List Payload) (sent : List Update) :
    filterLoop cfg rib ps res sent =
      ((ps.filterMap cfg.accepted).foldl (insertPayload cfg) rib,
        res ++ ps.filterMap cfg.accepted,
        sent ++ List.replicate ps.length .outputStream) := by
  induction ps generalizing rib res sent with
  | nil => simp [filterLoop]
  | cons p ps ih =>
    cases h : cfg.accepted p <;> simp [filterLoop, h, ih, List.replicate_succ]

/-- The RIB takes the accepted payloads of a batch in their order. -/
theorem filterPayload_rib :
    (rib.filterPayload cfg ps).1 = (ps.filterMap cfg.accepted).foldl (insertPayload cfg) rib := by
  unfold filterPayload
  rw [filterLoop_eq]
  split
  rename_i heq
  cases heq
  split <;> rfl

/-- What is forwarded of a batch carries the accepted payloads in their order. -/
theorem filterPayload_forwarded :
    ((rib.filterPayload cfg ps).2.flatMap Update.payloads) = ps.filterMap cfg.accepted := by
  have hout : ∀ n, (List.replicate n Update.outputStream).flatMap Update.payloads = [] := by
    intro n
    simp [List.flatMap_eq_nil_iff, Update.payloads]
  unfold filterPayload
  rw [filterLoop_eq]
  split
  rename_i heq
  cases heq
  split <;> simp_all [Update.payloads]

end

/-- Of a batch nothing else is forwarded than payloads and what the roto function put out. -/
theorem filterPayload_kinds {cfg : RibConfig} {rib : Rib S} {ps : List Payload} {u : Update}
    (h : u ∈ (rib.filterPayload cfg ps).2) :
    u = .outputStream ∨ (∃ p, u = .single p) ∨ ∃ ps, u = .bulk ps := by
  have hout (n : Nat) (hu : u ∈ List.replicate n Update.outputStream) : u = .outputStream :=
    List.eq_of_mem_replicate hu
  unfold filterPayload at h
  rw [filterLoop_eq] at h
  split at h
  rename_i heq
  cases heq
  split at h
  · exact .inl (hout _ h)
  · rcases List.mem_append.mp h with h | h
    · exact .inl (hout _ h)
    · exact .inr (.inl ⟨_, List.mem_singleton.mp h⟩)
  · rcases List.mem_append.mp h with h | h
    · exact .inl (hout _ h)
    · exact .inr (.inr ⟨_, List.mem_singleton.mp h⟩)

end Rib

end Rotonda
