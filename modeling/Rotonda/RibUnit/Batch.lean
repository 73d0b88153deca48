import Rotonda.RibUnit.Status
import Mathlib.Data.List.TakeWhile

/-!
A batch of session withdraws against the same withdraws one after another.

The batch walks each store once per scope, with a buffer of eight ingresses per prefix and a
flush every `flushAt` entries; one by one, every ingress gets a walk of its own.

* `withdrawEach`: the ingresses of a batch one after another;
* `withdrawForIngresses_eq_each`: both leave the same records and flags, compaction reaches every
  record of a listed ingress, and nothing of another ingress changes.
-/

namespace Rotonda

open PrefixStore LawfulPrefixStore

namespace Rib

variable {S : Type} [PrefixStore S RotondaPaMap]
variable {ids : List (IngressId × Option AfiSafiType)}

def withdrawForIngress (rib : Rib S) (ingressId : IngressId)
    (specificAfisafi : Option AfiSafiType) (retainWithdrawnAttributes : Bool) :
    Rib S × Option AfiSafiType :=
  rib.withdrawForIngresses [(ingressId, specificAfisafi)] retainWithdrawnAttributes

def withdrawEach (rib : Rib S) (ids : List (IngressId × Option AfiSafiType)) (retain : Bool) :
    Rib S :=
  ids.foldl (fun rib e => (rib.withdrawForIngress e.1 e.2 retain).1) rib

/-- No entry asks for a family that the RIB does not store; such an entry panics. -/
def Supported (ids : List (IngressId × Option AfiSafiType)) : Prop :=
  ∀ e ∈ ids, ∀ a ∈ e.2, a.supported = true

/-- Every read of the two RIBs gives the same: what is stored, the flags and the reported
records. -/
def ReadsSame (rib rib' : Rib S) : Prop :=
  (∀ k, rib.localRecord k = rib'.localRecord k) ∧
    (∀ mc f m, rib.flag mc f m = rib'.flag mc f m) ∧ ∀ k, rib.report k = rib'.report k

theorem handled_of_supported (h : Supported ids) : handled ids = ids := by
  rw [handled, List.takeWhile_eq_self_iff]
  intro e he
  cases hscope : e.2 with
  | none => rfl
  | some a => exact h e he a hscope

theorem withdraws_cons (e : IngressId × Option AfiSafiType)
    (ids : List (IngressId × Option AfiSafiType)) (mc : Bool) (f : Family) (m : Mui) :
    withdraws (e :: ids) mc f m = (withdraws [e] mc f m || withdraws ids mc f m) := by
  simp [withdraws]

theorem withdraws_eq_false {m : Mui} (h : m ∉ ids.map Prod.fst) (mc : Bool)
    (f : Family) : withdraws ids mc f m = false := by
  rw [Bool.eq_false_iff, ne_eq, withdraws_iff]
  rintro (hm | hm)
  · exact h (List.mem_map.mpr ⟨_, hm, rfl⟩)
  · exact h (List.mem_map.mpr ⟨_, hm, rfl⟩)

theorem readsSame_of {rib rib' : Rib S} (hrec : ∀ k, rib.localRecord k = rib'.localRecord k)
    (hflag : ∀ mc f m, rib.flag mc f m = rib'.flag mc f m) : rib.ReadsSame rib' := by
  refine ⟨hrec, hflag, fun k => ?_⟩
  rw [report_eq, report_eq, hrec, masked, masked, hflag]

variable [LawfulPrefixStore S]

theorem localRecord_withdrawEach (rib : Rib S) (ids : List (IngressId × Option AfiSafiType))
    (retain : Bool) (k : RouteKey) :
    (rib.withdrawEach ids retain).localRecord k =
      if !retain && withdraws ids k.multicast k.pfx.family k.mui && (rib.localRecord k).isSome
      then some (compacted k.mui) else rib.localRecord k := by
  induction ids generalizing rib with
  | nil => simp [withdrawEach, withdraws]
  | cons e ids ih =>
    rw [withdrawEach, List.foldl_cons, ← withdrawEach, ih, withdrawForIngress,
      localRecord_withdrawForIngresses, withdraws_cons e ids]
    -- a record the first entry overwrites stays what it is
    cases retain <;> cases withdraws [e] k.multicast k.pfx.family k.mui <;>
      cases withdraws ids k.multicast k.pfx.family k.mui <;> cases rib.localRecord k <;> rfl

theorem flag_withdrawEach (rib : Rib S) (h : Supported ids) (retain : Bool) (mc : Bool) (f : Family)
    (m : Mui) :
    (rib.withdrawEach ids retain).flag mc f m = (withdraws ids mc f m || rib.flag mc f m) := by
  induction ids generalizing rib with
  | nil => simp [withdrawEach, withdraws]
  | cons e ids ih =>
    have hids : Supported ids := fun e' he' => h e' (List.mem_cons_of_mem _ he')
    have hone : Supported [e] := fun e' he' => h e' (by simp_all)
    rw [withdrawEach, List.foldl_cons, ← withdrawEach, ih _ hids, withdrawForIngress,
      flag_withdrawForIngresses, handled_of_supported hone, withdraws_cons e ids]
    cases withdraws [e] mc f m <;> cases withdraws ids mc f m <;> rfl

/-- A batch leaves what its entries leave one after another.  Without retention every record of a
listed ingress, in the scope it is listed with, is compacted; no record and no flag of another
ingress changes. -/
theorem withdrawForIngresses_eq_each (rib : Rib S) {ids : List (IngressId × Option AfiSafiType)}
    (hsup : Supported ids) (retain : Bool) :
    (rib.withdrawForIngresses ids retain).1.ReadsSame (rib.withdrawEach ids retain) ∧
      (retain = false → ∀ k, withdraws ids k.multicast k.pfx.family k.mui = true →
        (rib.localRecord k).isSome →
          (rib.withdrawForIngresses ids retain).1.localRecord k = some (compacted k.mui)) ∧
      ∀ m, m ∉ ids.map Prod.fst →
        (∀ mc p, (rib.withdrawForIngresses ids retain).1.localRecord ⟨mc, p, m⟩ =
          rib.localRecord ⟨mc, p, m⟩) ∧
        ∀ mc f, (rib.withdrawForIngresses ids retain).1.flag mc f m = rib.flag mc f m := by
  refine ⟨readsSame_of (fun k => ?_) fun mc f m => ?_, ?_, fun m hm => ⟨fun mc p => ?_, ?_⟩⟩
  · rw [localRecord_withdrawForIngresses, localRecord_withdrawEach]
  · rw [flag_withdrawForIngresses, handled_of_supported hsup, flag_withdrawEach rib hsup]
  · rintro rfl k hk hsome
    rw [localRecord_withdrawForIngresses, hk, hsome]
    rfl
  · rw [localRecord_withdrawForIngresses, withdraws_eq_false hm]
    simp
  · intro mc f
    rw [flag_withdrawForIngresses, handled_of_supported hsup, withdraws_eq_false hm]
    rfl

/-- Two ingresses share a prefix, one of them is listed twice. -/
def sharing : Rib (MapStore RotondaPaMap) :=
  [1, 2, 3].foldl (fun rib id => (rib.insert (Payload.slash8 10 id .active).rxValue .active 0 id
    false).1) (new .new)

theorem withdrawForIngresses_eq_each_sharing :
    (sharing.withdrawForIngresses [(1, none), (2, some .ipv4Unicast), (1, none)] false).1.ReadsSame
      (sharing.withdrawEach [(1, none), (2, some .ipv4Unicast), (1, none)] false) :=
  (withdrawForIngresses_eq_each sharing (by simp [Supported, AfiSafiType.supported]) false).1

end Rib

end Rotonda
