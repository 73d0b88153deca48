import Rotonda.Payload

/-!
The RIB: a unicast and a multicast prefix store and the ingress register.

The status of a route is split between the record's local status and four withdrawn flags per
ingress (`flag`), which the insert, withdraw and reactivation paths set and clear on their own.
Each function below has one lemma for the local records and one for the flags it leaves:

* `localRecord_insertPrefix`, `flag_insertPrefix`, and so on;
* `localRecord_compact`: compaction overwrites every record in its scope.
-/

namespace Rotonda

open PrefixStore

structure Rib (S : Type) where
  unicast : S
  multicast : S
  ingressRegister : Register

/-- What a record of the RIB is about: the store, the prefix (with its family) and the ingress. -/
structure RouteKey where
  multicast : Bool
  pfx : Prefix
  mui : Mui
  deriving DecidableEq, Repr

def Payload.key (p : Payload) : RouteKey := ⟨p.rxValue.multicast, p.rxValue.pfx, p.ingressId⟩

namespace Rib

variable {S : Type}

def store (rib : Rib S) (multicast : Bool) : S :=
  if multicast then rib.multicast else rib.unicast

def setStore (rib : Rib S) (multicast : Bool) (s : S) : Rib S :=
  if multicast then { rib with multicast := s } else { rib with unicast := s }

variable (rib : Rib S)

@[simp] theorem store_setStore (mc : Bool) (s : S) (mc' : Bool) :
    (rib.setStore mc s).store mc' = if mc' = mc then s else rib.store mc' := by
  cases mc <;> cases mc' <;> rfl

@[simp] theorem ingressRegister_setStore (mc : Bool) (s : S) :
    (rib.setStore mc s).ingressRegister = rib.ingressRegister := by
  cases mc <;> rfl

variable [PrefixStore S RotondaPaMap]

def new (reg : Register) : Rib S := ⟨tryDefault, tryDefault, reg⟩

/-! ## Reads -/

def localRecord (rib : Rib S) (k : RouteKey) : Option (Record RotondaPaMap) :=
  PrefixStore.localRecord (rib.store k.multicast) k.pfx k.mui

def flag (rib : Rib S) (multicast : Bool) (f : Family) (mui : Mui) : Bool :=
  muiIsWithdrawnFor f (rib.store multicast) mui

/-- The flag that overrides the local status of the record. -/
def masked (rib : Rib S) (k : RouteKey) : Bool := rib.flag k.multicast k.pfx.family k.mui

def report (rib : Rib S) (k : RouteKey) : Option (Record RotondaPaMap) :=
  PrefixStore.report (rib.store k.multicast) k.pfx k.mui

/-- The RIB reports the record as `Active`. -/
def ReportsActive (rib : Rib S) (k : RouteKey) : Prop :=
  ∃ r, rib.report k = some r ∧ r.status = .active

/-- The record was stored as `Active`, whatever the flags say. -/
def LocallyActive (rib : Rib S) (k : RouteKey) : Prop :=
  ∃ r, rib.localRecord k = some r ∧ r.status = .active

instance (rib : Rib S) (k : RouteKey) : Decidable (rib.ReportsActive k) :=
  match h : rib.report k with
  | none => isFalse fun ⟨r, hr, _⟩ => by cases h.symm.trans hr
  | some r =>
    if hs : r.status = .active then isTrue ⟨r, h, hs⟩
    else isFalse fun ⟨r', hr', hs'⟩ => by
      cases h.symm.trans hr'
      exact hs hs'

theorem report_eq (k : RouteKey) :
    rib.report k = (rib.localRecord k).map fun r =>
      if rib.masked k then { r with status := .withdrawn } else r := rfl

theorem reportsActive_iff (k : RouteKey) :
    rib.ReportsActive k ↔ rib.masked k = false ∧ rib.LocallyActive k := by
  simp only [ReportsActive, LocallyActive, report_eq]
  cases rib.localRecord k <;> cases rib.masked k <;> simp

/-- A report of an active record is the record as it was stored. -/
theorem report_active_iff {rib : Rib S} {k : RouteKey} {r : Record RotondaPaMap}
    (h : r.status = .active) :
    rib.report k = some r ↔ rib.masked k = false ∧ rib.localRecord k = some r := by
  rw [report_eq]
  cases rib.masked k with
  | false => simp
  | true =>
    simp only [if_true, Option.map_eq_some_iff, Bool.true_eq_false, false_and, iff_false]
    rintro ⟨r', _, rfl⟩
    cases h

/-! ## Inserting one route -/

/-- The report of an operation that touched no record. -/
def noReport : UpsertReport := ⟨0, false, false, 0⟩

def markIngressActive (rib : Rib S) (ingressId : IngressId) : Rib S :=
  { rib with
    unicast := markMuiAsActiveV6 (markMuiAsActiveV4 rib.unicast ingressId) ingressId
    multicast := markMuiAsActiveV6 (markMuiAsActiveV4 rib.multicast ingressId) ingressId }

/-- An active announcement under a flag that one of the store's families still has set. -/
def needsReactivation (rib : Rib S) (multicast : Bool) (routeStatus : RouteStatus)
    (mui : Mui) : Bool :=
  routeStatus == .active &&
    (muiIsWithdrawnV4 (rib.store multicast) mui || muiIsWithdrawnV6 (rib.store multicast) mui)

def reactivate (rib : Rib S) (mui : Mui) : Rib S :=
  { rib.markIngressActive mui with
    ingressRegister := rib.ingressRegister.updateInfo mui (.withState .connected) }

def insertPrefix (rib : Rib S) (pfx : Prefix) (multicast : Bool) (val : RotondaRoute)
    (routeStatus : RouteStatus) (ltime : Nat) (ingressId : IngressId)
    (retainWithdrawnAttributes : Bool) : Rib S × Except PrefixStoreError UpsertReport :=
  let store := rib.store multicast
  let mui := ingressId
  if routeStatus = .withdrawn then
    if !retainWithdrawnAttributes then
      if !contains store pfx (some mui) then
        (rib, .ok noReport)
      else
        let res := PrefixStore.insert store pfx
          ⟨mui, ltime, .withdrawn, RotondaPaMap.emptyPathAttributes⟩
        (rib.setStore multicast res.1, res.2)
    else
      let res := markMuiAsWithdrawnForPrefix store pfx mui 0
      (rib.setStore multicast res.1, res.2.map fun _ => noReport)
  else
    let rib := if rib.needsReactivation multicast routeStatus mui then rib.reactivate mui else rib
    let res := PrefixStore.insert (rib.store multicast) pfx
      ⟨mui, ltime, routeStatus, val.rotondaPamap⟩
    (rib.setStore multicast res.1, res.2)

def insert (rib : Rib S) (val : RotondaRoute) (routeStatus : RouteStatus) (ltime : Nat)
    (ingressId : IngressId) (retainWithdrawnAttributes : Bool) :
    Rib S × Except PrefixStoreError UpsertReport :=
  match val with
  | .ipv4Unicast n _ => rib.insertPrefix n.1 false val routeStatus ltime ingressId
      retainWithdrawnAttributes
  | .ipv6Unicast n _ => rib.insertPrefix n.1 false val routeStatus ltime ingressId
      retainWithdrawnAttributes
  | .ipv4Multicast n _ => rib.insertPrefix n.1 true val routeStatus ltime ingressId
      retainWithdrawnAttributes
  | .ipv6Multicast n _ => rib.insertPrefix n.1 true val routeStatus ltime ingressId
      retainWithdrawnAttributes

theorem insert_eq (val : RotondaRoute) (st : RouteStatus) (ltime : Nat)
    (id : IngressId) (retain : Bool) :
    rib.insert val st ltime id retain =
      rib.insertPrefix val.pfx val.multicast val st ltime id retain := by
  cases val <;> rfl

/-! ## Withdrawing and removing whole ingresses -/

/-- Entries that may wait before they are written. -/
def flushAt : Nat := 64 * 1024

/-- The prefixes waiting per ingress, as the list of pairs pushed so far. -/
abbrev Pending := List (IngressId × Prefix)

def groupLoop {M : Type} (pfx : Prefix) (ingressIds : List IngressId) :
    List (Record M) → List IngressId → Pending → Nat → Pending × Nat
  | [], _, out, added => (out, added)
  | r :: rs, matched, out, added =>
    if r.multiUniqId ∉ ingressIds then groupLoop pfx ingressIds rs matched out added
    else if r.multiUniqId ∈ matched then groupLoop pfx ingressIds rs matched out added
    else
      -- the ninth and later ingresses of a prefix are no longer remembered, so they may repeat
      let matched := if matched.length < 8 then matched ++ [r.multiUniqId] else matched
      groupLoop pfx ingressIds rs matched (out ++ [(r.multiUniqId, pfx)]) (added + 1)

def groupPrefixByIngress {M : Type} (pr : PrefixRecord M) (ingressIds : List IngressId)
    (out : Pending) : Pending × Nat :=
  groupLoop pr.pfx ingressIds pr.metaData [] out 0

def flushCompaction (store : S) (pending : Pending) : S :=
  pending.foldl (fun s e => (PrefixStore.insert s e.2
    ⟨e.1, 0, .withdrawn, RotondaPaMap.emptyPathAttributes⟩).1) store

def drainLoop (ingressIds : List IngressId) :
    List (PrefixRecord RotondaPaMap) → S → Pending → Nat → S
  | [], store, pending, _ => flushCompaction store pending
  | pr :: iter, store, pending, pendingCount =>
    let grouped := groupPrefixByIngress pr ingressIds pending
    if flushAt ≤ pendingCount + grouped.2 then
      drainLoop ingressIds iter (flushCompaction store grouped.1) [] 0
    else drainLoop ingressIds iter store grouped.1 (pendingCount + grouped.2)

def drainCompactionIter (store : S) (ingressIds : List IngressId)
    (iter : List (PrefixRecord RotondaPaMap)) : S :=
  drainLoop ingressIds iter store [] 0

def compactWithdrawnAttributesInStoreBatch (store : S) (ingressIds : List IngressId)
    (specificAfisafi : Option AfiSafiType) : S :=
  if ingressIds.isEmpty then store
  else match specificAfisafi with
    | some .ipv4Unicast | some .ipv4Multicast =>
      drainCompactionIter store ingressIds (prefixesIterV4 store)
    | some .ipv6Unicast | some .ipv6Multicast =>
      drainCompactionIter store ingressIds (prefixesIterV6 store)
    | _ => drainCompactionIter store ingressIds (prefixesIter store)

/-- The ingresses that are to be withdrawn in exactly the given scope. -/
def bucket (ids : List (IngressId × Option AfiSafiType)) (scope : Option AfiSafiType) :
    List IngressId :=
  (ids.filter fun e => e.2 = scope).map Prod.fst

def compactWithdrawnAttributesForIngresses (rib : Rib S)
    (ids : List (IngressId × Option AfiSafiType)) : Rib S :=
  let batch := fun (rib : Rib S) (mc : Bool) (scope : Option AfiSafiType) =>
    rib.setStore mc
      (compactWithdrawnAttributesInStoreBatch (rib.store mc) (bucket ids scope) scope)
  let rib := batch (batch rib false none) true none
  let rib := batch rib false (some .ipv4Unicast)
  let rib := batch rib false (some .ipv6Unicast)
  let rib := batch rib true (some .ipv4Multicast)
  batch rib true (some .ipv6Multicast)

/-- Withdraw one ingress after the other.  A family without support panics: the blocking task
ends there, and what it wrote before stays. -/
def withdrawLoop : Rib S → List (IngressId × Option AfiSafiType) → Rib S × Option AfiSafiType
  | rib, [] => (rib, none)
  | rib, (id, specificAfisafi) :: ids =>
    match specificAfisafi with
    | none => withdrawLoop { rib with
        unicast := markMuiAsWithdrawn rib.unicast id
        multicast := markMuiAsWithdrawn rib.multicast id } ids
    | some .ipv4Unicast =>
      withdrawLoop { rib with unicast := markMuiAsWithdrawnV4 rib.unicast id } ids
    | some .ipv6Unicast =>
      withdrawLoop { rib with unicast := markMuiAsWithdrawnV6 rib.unicast id } ids
    | some .ipv4Multicast =>
      withdrawLoop { rib with multicast := markMuiAsWithdrawnV4 rib.multicast id } ids
    | some .ipv6Multicast =>
      withdrawLoop { rib with multicast := markMuiAsWithdrawnV6 rib.multicast id } ids
    | some afisafi => (rib, some afisafi)

def withdrawForIngresses (rib : Rib S) (ids : List (IngressId × Option AfiSafiType))
    (retainWithdrawnAttributes : Bool) : Rib S × Option AfiSafiType :=
  if ids.isEmpty then (rib, none)
  else withdrawLoop
    (if retainWithdrawnAttributes then rib else rib.compactWithdrawnAttributesForIngresses ids) ids

def removeForIngresses (rib : Rib S) (ids : List IngressId) : Rib S :=
  ids.foldl (fun rib id => { rib with
    unicast := removeMui rib.unicast id
    multicast := removeMui rib.multicast id }) rib

end Rib

end Rotonda
