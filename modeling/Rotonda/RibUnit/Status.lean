import Rotonda.RibUnit.Rib

/-!
What every operation of the RIB does to local records and withdrawn flags, over any lawful store.

* `localRecord_insertPrefix`, `flag_insertPrefix`: one route;
* `localRecord_withdrawForIngresses`, `flag_withdrawForIngresses`: a batch of sessions, with and
  without compaction of the attributes;
* `localRecord_removeForIngresses`, `flag_removeForIngresses`: physical removal.
-/

namespace Rotonda

open PrefixStore LawfulPrefixStore List

/-- The stored families that a withdrawal with this scope is about. -/
def AfiSafiType.covers : AfiSafiType → Bool → Family → Bool
  | ipv4Unicast, mc, f => !mc && f == .v4
  | ipv6Unicast, mc, f => !mc && f == .v6
  | ipv4Multicast, mc, f => mc && f == .v4
  | ipv6Multicast, mc, f => mc && f == .v6
  | other .., _, _ => false

def AfiSafiType.supported : AfiSafiType → Bool
  | other .. => false
  | _ => true

/-- A session withdraw without a family is one of every family. -/
def scopeCovers (scope : Option AfiSafiType) (mc : Bool) (f : Family) : Bool :=
  scope.elim true fun a => a.covers mc f

/-- Some entry of the batch withdraws the family of the ingress. -/
def withdraws (ids : List (IngressId × Option AfiSafiType)) (mc : Bool) (f : Family)
    (m : Mui) : Bool :=
  ids.any fun e => decide (e.1 = m) && scopeCovers e.2 mc f

/-- The family under which a store keeps its records. -/
def AfiSafiType.ofStore : Bool → Family → AfiSafiType
  | false, .v4 => ipv4Unicast
  | false, .v6 => ipv6Unicast
  | true, .v4 => ipv4Multicast
  | true, .v6 => ipv6Multicast

theorem scopeCovers_iff (scope : Option AfiSafiType) (mc : Bool) (f : Family) :
    scopeCovers scope mc f = true ↔ scope = none ∨ scope = some (.ofStore mc f) := by
  cases scope with
  | none => simp [scopeCovers]
  | some a =>
    cases a <;> cases mc <;> cases f <;> simp [scopeCovers, AfiSafiType.covers, AfiSafiType.ofStore]

theorem withdraws_iff (ids : List (IngressId × Option AfiSafiType)) (mc : Bool) (f : Family)
    (m : Mui) :
    withdraws ids mc f m = true ↔ (m, none) ∈ ids ∨ (m, some (.ofStore mc f)) ∈ ids := by
  simp only [withdraws, any_eq_true, Bool.and_eq_true, decide_eq_true_eq, scopeCovers_iff]
  constructor
  · rintro ⟨⟨i, scope⟩, he, rfl, rfl | rfl⟩
    · exact .inl he
    · exact .inr he
  · rintro (h | h)
    · exact ⟨_, h, rfl, .inl rfl⟩
    · exact ⟨_, h, rfl, .inr rfl⟩

namespace Rib

variable {st : RouteStatus}

theorem mem_bucket (ids : List (IngressId × Option AfiSafiType)) (scope : Option AfiSafiType)
    (m : Mui) : m ∈ bucket ids scope ↔ (m, scope) ∈ ids := by
  simp [bucket]

variable {S : Type} [PrefixStore S RotondaPaMap]

/-- The record that compaction leaves. -/
def compacted (m : Mui) : Record RotondaPaMap :=
  ⟨m, 0, .withdrawn, RotondaPaMap.emptyPathAttributes⟩

/-! ## One store of the two -/

theorem localRecord_setStore (rib : Rib S) (mc : Bool) (s : S) (k : RouteKey) :
    (rib.setStore mc s).localRecord k =
      if k.multicast = mc then PrefixStore.localRecord s k.pfx k.mui else rib.localRecord k := by
  simp only [localRecord, store_setStore]
  split <;> rfl

theorem flag_setStore (rib : Rib S) (mc : Bool) (s : S) (mc' : Bool) (f : Family) (m : Mui) :
    (rib.setStore mc s).flag mc' f m =
      if mc' = mc then muiIsWithdrawnFor f s m else rib.flag mc' f m := by
  simp only [flag, store_setStore]
  split <;> rfl

theorem localRecord_setStore_eq {rib : Rib S} {mc : Bool} {s : S} {k : RouteKey}
    (h : k.multicast = mc → PrefixStore.localRecord s k.pfx k.mui =
      PrefixStore.localRecord (rib.store mc) k.pfx k.mui) :
    (rib.setStore mc s).localRecord k = rib.localRecord k := by
  rw [localRecord_setStore]
  split
  next hmc => rw [h hmc, localRecord, hmc]
  · rfl

theorem flag_setStore_eq {rib : Rib S} {mc : Bool} {s : S}
    (h : ∀ f m, muiIsWithdrawnFor f s m = muiIsWithdrawnFor f (rib.store mc) m) (mc' : Bool)
    (f : Family) (m : Mui) : (rib.setStore mc s).flag mc' f m = rib.flag mc' f m := by
  rw [flag_setStore]
  split
  next hmc => rw [h, flag, hmc]
  · rfl

/-! ## The operations unfolded -/

variable (rib : Rib S) (ids : List (IngressId × Option AfiSafiType))

theorem active_store (m : Mui) (mc : Bool) :
    (rib.markIngressActive m).store mc =
      markMuiAsActiveV6 (markMuiAsActiveV4 (rib.store mc) m) m := by
  cases mc <;> rfl

theorem needsReactivation_eq (mc : Bool) (st : RouteStatus) (m : Mui) :
    rib.needsReactivation mc st m =
      (st == .active && (rib.flag mc .v4 m || rib.flag mc .v6 m)) := rfl

/-- The insertion of a route that is not withdrawn, reactivation included. -/
theorem insertPrefix_of_ne_withdrawn (p : Prefix) (mc : Bool) (val : RotondaRoute)
    (lt : Nat) (m : Mui) (retain : Bool) (h : st ≠ .withdrawn) :
    rib.insertPrefix p mc val st lt m retain =
      let rib' := if rib.needsReactivation mc st m then rib.reactivate m else rib
      let res := PrefixStore.insert (rib'.store mc) p ⟨m, lt, st, val.rotondaPamap⟩
      (rib'.setStore mc res.1, res.2) := by
  rw [insertPrefix, if_neg h]

/-- The entries that `withdrawLoop` gets to before a family without support. -/
def handled (ids : List (IngressId × Option AfiSafiType)) :
    List (IngressId × Option AfiSafiType) :=
  ids.takeWhile fun e => e.2.elim true AfiSafiType.supported

/-- What one entry of a batch of withdrawals does, unless it panics. -/
def withdrawOne (rib : Rib S) (id : IngressId) : Option AfiSafiType → Rib S
  | none => { rib with
      unicast := markMuiAsWithdrawn rib.unicast id
      multicast := markMuiAsWithdrawn rib.multicast id }
  | some .ipv4Unicast => { rib with unicast := markMuiAsWithdrawnV4 rib.unicast id }
  | some .ipv6Unicast => { rib with unicast := markMuiAsWithdrawnV6 rib.unicast id }
  | some .ipv4Multicast => { rib with multicast := markMuiAsWithdrawnV4 rib.multicast id }
  | some .ipv6Multicast => { rib with multicast := markMuiAsWithdrawnV6 rib.multicast id }
  | some (.other ..) => rib

theorem withdrawLoop_eq :
    (withdrawLoop rib ids).1 =
      (handled ids).foldl (fun rib e => rib.withdrawOne e.1 e.2) rib := by
  induction ids generalizing rib with
  | nil => rfl
  | cons e ids ih =>
    obtain ⟨id, scope⟩ := e
    match scope with
    | none | some .ipv4Unicast | some .ipv6Unicast | some .ipv4Multicast | some .ipv6Multicast =>
      exact ih _
    | some (.other ..) => rfl

/-! ## The register -/

theorem ingressRegister_insertPrefix (p : Prefix) (mc : Bool) (val : RotondaRoute)
    (st : RouteStatus) (lt : Nat) (m : Mui) (retain : Bool) :
    (rib.insertPrefix p mc val st lt m retain).1.ingressRegister =
      if rib.needsReactivation mc st m then
        rib.ingressRegister.updateInfo m (.withState .connected)
      else rib.ingressRegister := by
  by_cases h : st = .withdrawn
  · subst h
    have hreact : rib.needsReactivation mc .withdrawn m = false := rfl
    rw [hreact]
    simp only [insertPrefix, if_true]
    split
    · split <;> simp
    · simp
  · rw [insertPrefix_of_ne_withdrawn rib p mc val lt m retain h]
    cases rib.needsReactivation mc st m <;> simp [reactivate]

theorem ingressRegister_compact :
    (rib.compactWithdrawnAttributesForIngresses ids).ingressRegister = rib.ingressRegister := by
  simp only [compactWithdrawnAttributesForIngresses, ingressRegister_setStore]

theorem ingressRegister_withdrawLoop :
    (withdrawLoop rib ids).1.ingressRegister = rib.ingressRegister := by
  rw [withdrawLoop_eq]
  induction handled ids generalizing rib with
  | nil => rfl
  | cons e ids ih =>
    obtain ⟨id, scope⟩ := e
    refine (ih _).trans ?_
    match scope with
    | none | some .ipv4Unicast | some .ipv6Unicast | some .ipv4Multicast | some .ipv6Multicast
    | some (.other ..) => rfl

theorem ingressRegister_withdrawForIngresses (retain : Bool) :
    (rib.withdrawForIngresses ids retain).1.ingressRegister = rib.ingressRegister := by
  unfold withdrawForIngresses
  split
  · rfl
  · rw [ingressRegister_withdrawLoop]
    cases retain <;> simp [ingressRegister_compact]

theorem ingressRegister_removeForIngresses (ids : List IngressId) :
    (rib.removeForIngresses ids).ingressRegister = rib.ingressRegister := by
  induction ids generalizing rib with
  | nil => rfl
  | cons id ids ih => exact ih _

variable [LawfulPrefixStore S]

@[simp] theorem localRecord_new (reg : Register) (k : RouteKey) :
    (new reg : Rib S).localRecord k = none := by
  obtain ⟨mc, p, m⟩ := k
  cases mc <;> exact localRecord_tryDefault p m

@[simp] theorem flag_new (reg : Register) (mc : Bool) (f : Family) (m : Mui) :
    (new reg : Rib S).flag mc f m = false := by
  cases mc <;> exact flag_tryDefault f m

/-! ## Reactivation -/

section

variable (m : Mui)

@[simp] theorem localRecord_markIngressActive (k : RouteKey) :
    (rib.markIngressActive m).localRecord k = rib.localRecord k := by
  rw [localRecord, active_store, markMuiAsActiveV6, markMuiAsActiveV4,
    localRecord_markActiveFor, localRecord_markActiveFor, localRecord]

theorem flag_markIngressActive (mc : Bool) (f : Family) (n : Mui) :
    (rib.markIngressActive m).flag mc f n = (!decide (n = m) && rib.flag mc f n) := by
  rw [flag, active_store, markMuiAsActiveV6, markMuiAsActiveV4, flag_markActiveFor,
    flag_markActiveFor, flag]
  cases f <;> simp

@[simp] theorem localRecord_reactivate (k : RouteKey) :
    (rib.reactivate m).localRecord k = rib.localRecord k :=
  localRecord_markIngressActive rib m k

theorem flag_reactivate (mc : Bool) (f : Family) (n : Mui) :
    (rib.reactivate m).flag mc f n = (!decide (n = m) && rib.flag mc f n) :=
  flag_markIngressActive rib m mc f n

end

/-! ## One route -/

theorem localRecord_reactivated (b : Bool) (m : Mui) (k : RouteKey) :
    (if b then rib.reactivate m else rib).localRecord k = rib.localRecord k := by
  cases b <;> simp

section

variable (p : Prefix) (mc : Bool) (val : RotondaRoute)

theorem localRecord_insertPrefix_self (lt : Nat) (m : Mui) (retain : Bool) (h : st ≠ .withdrawn) :
    (rib.insertPrefix p mc val st lt m retain).1.localRecord ⟨mc, p, m⟩ =
      some ⟨m, lt, st, val.rotondaPamap⟩ := by
  rw [insertPrefix_of_ne_withdrawn rib p mc val lt m retain h]
  simp [localRecord_setStore, localRecord_insert]

/-- A withdrawal of one route sets its local status; its attributes stay when they are retained
and are emptied otherwise. -/
theorem localRecord_insertPrefix_withdrawn (lt : Nat) (m : Mui) (retain : Bool) :
    ∃ g : Record RotondaPaMap → Record RotondaPaMap,
      (∀ r, (g r).status = .withdrawn ∧
        (g r).metaData = if retain then r.metaData else .emptyPathAttributes) ∧
      (rib.insertPrefix p mc val .withdrawn lt m retain).1.localRecord ⟨mc, p, m⟩ =
        (rib.localRecord ⟨mc, p, m⟩).map g := by
  cases retain with
  | true =>
    obtain ⟨t, ht⟩ := localRecord_markForPrefix (rib.store mc) p m 0
    refine ⟨fun r => { r with ltime := t, status := .withdrawn }, fun r => ⟨rfl, rfl⟩, ?_⟩
    simp [insertPrefix, ht, localRecord]
  | false =>
    refine ⟨fun _ => ⟨m, lt, .withdrawn, RotondaPaMap.emptyPathAttributes⟩,
      fun r => ⟨rfl, rfl⟩, ?_⟩
    simp only [insertPrefix, Bool.not_false, if_true, contains_eq]
    cases hrec : PrefixStore.localRecord (rib.store mc) p m with
    | none => simp [localRecord, hrec]
    | some r => simp [localRecord_insert, localRecord, hrec]

theorem localRecord_insertPrefix_ne (st : RouteStatus) (lt : Nat) (m : Mui) (retain : Bool)
    {k : RouteKey} (hk : k ≠ ⟨mc, p, m⟩) :
    (rib.insertPrefix p mc val st lt m retain).1.localRecord k = rib.localRecord k := by
  have hk' : k.multicast = mc → ¬ (k.pfx = p ∧ k.mui = m) := by
    rintro rfl ⟨rfl, rfl⟩
    exact hk rfl
  by_cases h : st = .withdrawn
  · subst h
    cases retain with
    | true =>
      obtain ⟨t, ht⟩ := localRecord_markForPrefix (rib.store mc) p m 0
      simp only [insertPrefix, if_true, Bool.not_true, Bool.false_eq_true, if_false]
      exact localRecord_setStore_eq fun hmc => by rw [ht, if_neg (hk' hmc)]
    | false =>
      simp only [insertPrefix, Bool.not_false, if_true]
      split
      · rfl
      · exact localRecord_setStore_eq fun hmc => by rw [localRecord_insert, if_neg (hk' hmc)]
  · rw [insertPrefix_of_ne_withdrawn rib p mc val lt m retain h,
      ← localRecord_reactivated rib (rib.needsReactivation mc st m) m k]
    exact localRecord_setStore_eq fun hmc => by rw [localRecord_insert, if_neg (hk' hmc)]

theorem flag_insertPrefix (st : RouteStatus) (lt : Nat) (m : Mui) (retain : Bool) (mc' : Bool)
    (f : Family) (n : Mui) :
    (rib.insertPrefix p mc val st lt m retain).1.flag mc' f n =
      (!(rib.needsReactivation mc st m && decide (n = m)) && rib.flag mc' f n) := by
  by_cases h : st = .withdrawn
  · subst h
    have hreact : rib.needsReactivation mc .withdrawn m = false := rfl
    rw [hreact, Bool.false_and, Bool.not_false, Bool.true_and]
    cases retain with
    | true =>
      simp only [insertPrefix, if_true, Bool.not_true, Bool.false_eq_true, if_false]
      exact flag_setStore_eq (fun f m => flag_markForPrefix ..) mc' f n
    | false =>
      simp only [insertPrefix, Bool.not_false, if_true]
      split
      · rfl
      · exact flag_setStore_eq (fun f m => flag_insert ..) mc' f n
  · rw [insertPrefix_of_ne_withdrawn rib p mc val lt m retain h]
    have hflag : ∀ b : Bool, (if b then rib.reactivate m else rib).flag mc' f n =
        (!(b && decide (n = m)) && rib.flag mc' f n) := by
      intro b
      cases b <;> simp [flag_reactivate]
    rw [← hflag]
    exact flag_setStore_eq (fun f m => flag_insert ..) mc' f n

end

/-! ## Compaction -/

theorem mem_groupLoop {M : Type} (p : Prefix) (ids : List IngressId)
    (rs : List (Record M)) (matched : List IngressId) (out : Pending) (added : Nat)
    (hmatched : ∀ i ∈ matched, (i, p) ∈ out) (e : IngressId × Prefix) :
    e ∈ (groupLoop p ids rs matched out added).1 ↔
      e ∈ out ∨ (e.2 = p ∧ e.1 ∈ ids ∧ ∃ r ∈ rs, r.multiUniqId = e.1) := by
  induction rs generalizing matched out added with
  | nil => simp [groupLoop]
  | cons r rs ih =>
    have hcons : (∃ r' ∈ r :: rs, r'.multiUniqId = e.1) ↔
        r.multiUniqId = e.1 ∨ ∃ r' ∈ rs, r'.multiUniqId = e.1 := by simp
    rw [hcons]
    simp only [groupLoop]
    split
    next hids =>
      rw [ih matched out added hmatched]
      grind
    next hids =>
      split
      next hmem =>
        -- the ingress was pushed with this prefix before
        have hout := hmatched r.multiUniqId hmem
        rw [ih matched out added hmatched]
        grind
      · rw [ih]
        · grind
        · grind

variable (store : S)

theorem localRecord_flushCompaction (pending : Pending) (q : Prefix) (m : Mui) :
    PrefixStore.localRecord (flushCompaction store pending) q m =
      if (m, q) ∈ pending then some (compacted m) else PrefixStore.localRecord store q m := by
  induction pending generalizing store with
  | nil => simp [flushCompaction]
  | cons e pending ih =>
    have hstep : flushCompaction store (e :: pending) =
        flushCompaction (PrefixStore.insert store e.2 (compacted e.1)).1 pending := rfl
    rw [hstep, ih, localRecord_insert]
    obtain ⟨i, p⟩ := e
    simp only [compacted, mem_cons, Prod.mk.injEq]
    grind

theorem flag_flushCompaction (pending : Pending) (f : Family) (m : Mui) :
    muiIsWithdrawnFor f (flushCompaction store pending) m = muiIsWithdrawnFor f store m := by
  induction pending generalizing store with
  | nil => rfl
  | cons e pending ih => exact (ih _).trans (flag_insert ..)

/-- The walk of `drainCompactionIter` reaches the ingress's record of the prefix. -/
private def Reached (ids : List IngressId) (iter : List (PrefixRecord RotondaPaMap)) (q : Prefix)
    (m : Mui) : Prop :=
  m ∈ ids ∧ ∃ pr ∈ iter, pr.pfx = q ∧ ∃ r ∈ pr.metaData, r.multiUniqId = m

section

variable (ids : List IngressId) (iter : List (PrefixRecord RotondaPaMap)) (store : S)
  (pending : Pending) (count : Nat)

open Classical in
theorem localRecord_drainLoop (q : Prefix) (m : Mui) :
    PrefixStore.localRecord (drainLoop ids iter store pending count) q m =
      if (m, q) ∈ pending ∨ Reached ids iter q m then some (compacted m)
      else PrefixStore.localRecord store q m := by
  induction iter generalizing store pending count with
  | nil => simp [drainLoop, localRecord_flushCompaction, Reached]
  | cons pr iter ih =>
    have hgrouped := mem_groupLoop pr.pfx ids pr.metaData [] pending 0 (by simp) (m, q)
    have hcons : Reached ids (pr :: iter) q m ↔
        (q = pr.pfx ∧ m ∈ ids ∧ ∃ r ∈ pr.metaData, r.multiUniqId = m) ∨ Reached ids iter q m := by
      simp only [Reached, mem_cons]
      grind
    rw [drainLoop, groupPrefixByIngress]
    generalize groupLoop pr.pfx ids pr.metaData [] pending 0 = grouped at hgrouped
    by_cases hflush : flushAt ≤ count + grouped.2
    · rw [if_pos hflush, ih, localRecord_flushCompaction]
      simp only [hgrouped, hcons, not_mem_nil, false_or]
      grind
    · rw [if_neg hflush, ih]
      simp only [hgrouped, hcons, or_assoc]

theorem flag_drainLoop (f : Family) (m : Mui) :
    muiIsWithdrawnFor f (drainLoop ids iter store pending count) m =
      muiIsWithdrawnFor f store m := by
  induction iter generalizing store pending count with
  | nil => exact flag_flushCompaction store pending f m
  | cons pr iter ih =>
    simp only [drainLoop]
    split
    · rw [ih, flag_flushCompaction]
    · rw [ih]

end

/-- Overwrite a record, where there is one, with its compacted form. -/
private def overwrite (c : Bool) (m : Mui) (r : Option (Record RotondaPaMap)) :
    Option (Record RotondaPaMap) :=
  if c && r.isSome then some (compacted m) else r

theorem overwrite_overwrite (c d : Bool) (m : Mui) (r : Option (Record RotondaPaMap)) :
    overwrite c m (overwrite d m r) = overwrite (d || c) m r := by
  cases c <;> cases d <;> cases r <;> rfl

/-- The families that a batch of the compaction walks in its store. -/
private def batchCovers : Option AfiSafiType → Family → Bool
  | some .ipv4Unicast, f | some .ipv4Multicast, f => f == .v4
  | some .ipv6Unicast, f | some .ipv6Multicast, f => f == .v6
  | _, _ => true

theorem localRecord_batch (ids : List IngressId)
    (scope : Option AfiSafiType) (q : Prefix) (m : Mui) :
    PrefixStore.localRecord (compactWithdrawnAttributesInStoreBatch store ids scope) q m =
      overwrite (decide (m ∈ ids) && batchCovers scope q.family) m
        (PrefixStore.localRecord store q m) := by
  have hall := mem_prefixesIter store q m
  have hfor := fun f => mem_prefixesIterFor f store q m
  unfold compactWithdrawnAttributesInStoreBatch
  split
  next hempty => simp [isEmpty_iff.mp hempty, overwrite]
  · split <;>
      simp only [drainCompactionIter, prefixesIterV4, prefixesIterV6, localRecord_drainLoop,
        Reached, hall, hfor, not_mem_nil, false_or, overwrite, batchCovers] <;>
      simp [and_assoc]

theorem flag_batch (ids : List IngressId) (scope : Option AfiSafiType) (f : Family) (m : Mui) :
    muiIsWithdrawnFor f (compactWithdrawnAttributesInStoreBatch store ids scope) m =
      muiIsWithdrawnFor f store m := by
  unfold compactWithdrawnAttributesInStoreBatch
  split
  · rfl
  · split <;> exact flag_drainLoop ..

theorem localRecord_setStore_batch (ids : List IngressId) (mc : Bool)
    (scope : Option AfiSafiType) (k : RouteKey) :
    (rib.setStore mc
      (compactWithdrawnAttributesInStoreBatch (rib.store mc) ids scope)).localRecord k =
      overwrite (decide (k.multicast = mc) && (decide (k.mui ∈ ids) &&
        batchCovers scope k.pfx.family)) k.mui (rib.localRecord k) := by
  rw [localRecord_setStore]
  split
  next hmc => simp [localRecord_batch, hmc, localRecord]
  next hmc => simp [hmc, overwrite]

/-- Compaction overwrites exactly the records in the scope of the batch. -/
theorem localRecord_compact (k : RouteKey) :
    (rib.compactWithdrawnAttributesForIngresses ids).localRecord k =
      overwrite (withdraws ids k.multicast k.pfx.family k.mui) k.mui (rib.localRecord k) := by
  simp only [compactWithdrawnAttributesForIngresses, localRecord_setStore_batch,
    overwrite_overwrite]
  congr 1
  rw [Bool.eq_iff_iff, withdraws_iff]
  simp only [mem_bucket, batchCovers]
  cases k.multicast <;> cases k.pfx.family <;> simp [AfiSafiType.ofStore]

theorem flag_compact (mc : Bool) (f : Family) (m : Mui) :
    (rib.compactWithdrawnAttributesForIngresses ids).flag mc f m = rib.flag mc f m := by
  simp only [compactWithdrawnAttributesForIngresses]
  iterate 6 rw [flag_setStore_eq fun f m => flag_batch ..]

/-! ## Withdrawing sessions -/

theorem localRecord_withdrawOne (id : IngressId) (scope : Option AfiSafiType)
    (k : RouteKey) : (rib.withdrawOne id scope).localRecord k = rib.localRecord k := by
  obtain ⟨mc, p, m⟩ := k
  match scope with
  | none => cases mc <;> exact localRecord_markWithdrawn ..
  | some .ipv4Unicast | some .ipv6Unicast =>
    cases mc
    · exact localRecord_markWithdrawnFor ..
    · rfl
  | some .ipv4Multicast | some .ipv6Multicast =>
    cases mc
    · rfl
    · exact localRecord_markWithdrawnFor ..
  | some (.other ..) => rfl

theorem flag_withdrawOne (id : IngressId) (scope : Option AfiSafiType)
    (mc : Bool) (f : Family) (m : Mui) :
    (rib.withdrawOne id scope).flag mc f m =
      ((decide (id = m) && scopeCovers scope mc f) || rib.flag mc f m) := by
  have hid : decide (id = m) = decide (m = id) := by simp [eq_comm]
  match scope with
  | none =>
    rw [hid]
    cases mc <;> exact (flag_markWithdrawn ..).trans (by simp [scopeCovers, flag, store])
  | some .ipv4Unicast | some .ipv6Unicast =>
    cases mc
    · refine (flag_markWithdrawnFor ..).trans ?_
      cases f <;> simp [scopeCovers, AfiSafiType.covers, flag, store, hid]
    · simp [withdrawOne, flag, store, scopeCovers, AfiSafiType.covers]
  | some .ipv4Multicast | some .ipv6Multicast =>
    cases mc
    · simp [withdrawOne, flag, store, scopeCovers, AfiSafiType.covers]
    · refine (flag_markWithdrawnFor ..).trans ?_
      cases f <;> simp [scopeCovers, AfiSafiType.covers, flag, store, hid]
  | some (.other ..) => simp [withdrawOne, scopeCovers, AfiSafiType.covers]

theorem localRecord_withdrawLoop (k : RouteKey) :
    (withdrawLoop rib ids).1.localRecord k = rib.localRecord k := by
  rw [withdrawLoop_eq]
  induction handled ids generalizing rib with
  | nil => rfl
  | cons e ids ih => exact (ih _).trans (localRecord_withdrawOne rib e.1 e.2 k)

theorem flag_withdrawLoop (mc : Bool) (f : Family) (m : Mui) :
    (withdrawLoop rib ids).1.flag mc f m =
      (withdraws (handled ids) mc f m || rib.flag mc f m) := by
  rw [withdrawLoop_eq]
  induction handled ids generalizing rib with
  | nil => rfl
  | cons e ids ih =>
    rw [foldl_cons, ih, flag_withdrawOne, withdraws, withdraws, any_cons,
      Bool.or_left_comm, Bool.or_assoc]

/-- With retained attributes a session withdraw touches no record; without, it overwrites every
record in its scope. -/
theorem localRecord_withdrawForIngresses (retain : Bool) (k : RouteKey) :
    (rib.withdrawForIngresses ids retain).1.localRecord k =
      if !retain && withdraws ids k.multicast k.pfx.family k.mui && (rib.localRecord k).isSome
      then some (compacted k.mui) else rib.localRecord k := by
  unfold withdrawForIngresses
  split
  next hempty => simp [isEmpty_iff.mp hempty, withdraws]
  · rw [localRecord_withdrawLoop]
    cases retain
    · exact localRecord_compact rib ids k
    · rfl

theorem flag_withdrawForIngresses (retain : Bool) (mc : Bool) (f : Family) (m : Mui) :
    (rib.withdrawForIngresses ids retain).1.flag mc f m =
      (withdraws (handled ids) mc f m || rib.flag mc f m) := by
  unfold withdrawForIngresses
  split
  next hempty => simp [isEmpty_iff.mp hempty, withdraws, handled]
  · rw [flag_withdrawLoop]
    cases retain <;> simp [flag_compact]

/-! ## Removing ingresses -/

theorem localRecord_removeForIngresses (ids : List IngressId) (k : RouteKey) :
    (rib.removeForIngresses ids).localRecord k =
      if k.mui ∈ ids then none else rib.localRecord k := by
  induction ids generalizing rib with
  | nil => simp [removeForIngresses]
  | cons id ids ih =>
    have hstep : ∀ k, ({ rib with
        unicast := removeMui rib.unicast id
        multicast := removeMui rib.multicast id } : Rib S).localRecord k =
          if k.mui = id then none else rib.localRecord k := by
      rintro ⟨mc, p, m⟩
      cases mc <;> exact localRecord_removeMui ..
    refine (ih _).trans ?_
    rw [hstep]
    by_cases h : k.mui = id <;> simp [h]

theorem flag_removeForIngresses (ids : List IngressId) (mc : Bool) (f : Family)
    {m : Mui} (h : m ∉ ids) : (rib.removeForIngresses ids).flag mc f m = rib.flag mc f m := by
  induction ids generalizing rib with
  | nil => rfl
  | cons id ids ih =>
    refine (ih _ (fun hm => h (mem_cons_of_mem _ hm))).trans ?_
    have hne : m ≠ id := fun hm => h (hm ▸ mem_cons_self)
    cases mc <;> exact flag_removeMui f hne

end Rib

end Rotonda
