import Rotonda.Node.Exclusive
import Rotonda.BmpIn.Rekey
import Rotonda.Comms.FrimMap

/-!
The tables of a BMP unit that list its routers: the state machine of every connection and what is
known of its router, by ingress id.

A connection enters both tables when it is accepted, moves its entries when the Initiation gives it
the id of a known router, and removes what stands under its last id when its task is over.  Every
operation on a table is one step, and the other tasks may act between any two.

* `follows_of_own`: if no connection removes the entry of another, every connection that has settled
  on its id is listed under it;
* `Late.late_removal_unlists`: the last removal of a session deletes the entries of the session that
  has taken over its id.
-/

namespace Rotonda.Node

open Lib Lib.Ownership Lib.Runs BmpIn Option FrimMap

variable {id : IngressId} {shown : Option Connection} {p : Steps (Option Connection)}

inductive TableOp where
  | insertStates (id : IngressId)
  | insertInfo (id : IngressId) (info : Nat)
  | removeStates (id : IngressId)
  | removeInfo (id : IngressId)
  /-- Take what is known under the one id, to put it under the other. -/
  | moveInfo (id new : IngressId)

/-- A node with the tables of its routers.  The number of a connection stands for its state machine
and for what is known of its router. -/
structure Routers (S : Type) where
  sys : System S
  routerStates : FrimMap IngressId Nat
  routerInfo : FrimMap IngressId Nat
  /-- What the connections have to do next on the tables. -/
  pending : Nat → List TableOp

def rebinds (c : Connection) : Bool :=
  !c.rebindResolved && c.stateMachine.ingressId != c.ingressId

/-- The operations that a step of a connection is followed by: after the accept, after the
Initiation, and at the end of the task. -/
def filing (n : Nat) (t t' : Thread) : List TableOp :=
  match t.live, t'.live with
  | none, some c => [.insertInfo c.ingressId n, .insertStates c.ingressId]
  | some c, some c' =>
    if rebinds c' && !rebinds c then
      [.removeStates c'.ingressId, .insertStates c'.stateMachine.ingressId,
        .moveInfo c'.ingressId c'.stateMachine.ingressId]
    else []
  | _, none => match t, t' with
    | .closing (.withdrawn id), .closing .ended => [.removeStates id, .removeInfo id]
    | _, _ => []

namespace Routers

inductive Move where
  | node (m : Node.Move)
  | table (n : Nat)

variable {S : Type}

def perform (st : Routers S) (n : Nat) (rest : List TableOp) : TableOp → Routers S
  | .insertStates id => { st with
      routerStates := st.routerStates.insert id n
      pending := Function.update st.pending n rest }
  | .insertInfo id info => { st with
      routerInfo := st.routerInfo.insert id info
      pending := Function.update st.pending n rest }
  | .removeStates id => { st with
      routerStates := (st.routerStates.remove id).1
      pending := Function.update st.pending n rest }
  | .removeInfo id => { st with
      routerInfo := (st.routerInfo.remove id).1
      pending := Function.update st.pending n rest }
  | .moveInfo id new => { st with
      routerInfo := (st.routerInfo.remove id).1
      pending := Function.update st.pending n (match (st.routerInfo.remove id).2 with
        | some info => .insertInfo new info :: rest
        | none => rest) }

variable [PrefixStore S RotondaPaMap]

/-- A connection goes on only when it has done its part on the tables. -/
def step (units : List IngressId) (cfg : RibConfig) (st : Routers S) : Move → Option (Routers S)
  | .node (.session n m) =>
    if (st.pending n).isEmpty then (st.sys.step units cfg (.session n m)).map fun sys =>
      { st with
        sys := sys
        pending := Function.update st.pending n (filing n (st.sys.sessions n) (sys.sessions n)) }
    else none
  | .node m => (st.sys.step units cfg m).map fun sys => { st with sys := sys }
  | .table n => match st.pending n with
    | [] => none
    | op :: rest => some (st.perform n rest op)

/-- A node of `k` units at its start. -/
def start (k : Nat) : Routers S := ⟨.start k, .default, .default, fun _ => []⟩

/-- Every live connection that has settled on its ingress id is listed under it. -/
def Follows (st : Routers S) : Prop :=
  ∀ n, ∀ c ∈ (st.sys.sessions n).live, c.rebindResolved = true →
    st.routerStates.get c.ingressId = some n ∧ (st.routerInfo.get c.ingressId).isSome

/-- No connection removes the entry of another. -/
def RemovesOwn (st : Routers S) : Move → Prop
  | .table n => match st.pending n with
    | .removeStates id :: _ => ∀ m, st.routerStates.get id = some m → m = n
    | .removeInfo id :: _ => ∀ m, st.routerInfo.get id = some m → m = n
    | _ => True
  | _ => True

end Routers

/-! ## How far a connection is listed -/

/-- The keys under which the other tasks must leave the tables alone: the id of the state machine,
and the one the connection is filed under as long as it has something to do there. -/
def Relied (c : Connection) (ops : List TableOp) (key : IngressId) : Prop :=
  key = c.stateMachine.ingressId ∨ ops ≠ [] ∧ key = c.ingressId

/-- What stands in the tables at each point of the accept and of the change of the id. -/
inductive Filing (states info : FrimMap IngressId Nat) (n : Nat) (c : Connection) :
    List TableOp → Prop where
  | listed (hs : states.get c.stateMachine.ingressId = some n)
      (hi : info.get c.stateMachine.ingressId = some n) : Filing states info n c []
  | accepted (hid : c.stateMachine.ingressId = c.ingressId) :
      Filing states info n c [.insertInfo c.ingressId n, .insertStates c.ingressId]
  | informed (hid : c.stateMachine.ingressId = c.ingressId)
      (hi : info.get c.ingressId = some n) : Filing states info n c [.insertStates c.ingressId]
  | rekeying (hs : states.get c.ingressId = some n) (hi : info.get c.ingressId = some n) :
      Filing states info n c [.removeStates c.ingressId, .insertStates c.stateMachine.ingressId,
        .moveInfo c.ingressId c.stateMachine.ingressId]
  | taken (hi : info.get c.ingressId = some n) :
      Filing states info n c [.insertStates c.stateMachine.ingressId,
        .moveInfo c.ingressId c.stateMachine.ingressId]
  | put (hs : states.get c.stateMachine.ingressId = some n)
      (hi : info.get c.ingressId = some n) :
      Filing states info n c [.moveInfo c.ingressId c.stateMachine.ingressId]
  | moved (hs : states.get c.stateMachine.ingressId = some n) :
      Filing states info n c [.insertInfo c.stateMachine.ingressId n]

variable {m : Nat}

section Filing

variable {states states' info info' : FrimMap IngressId Nat} {n : Nat} {c : Connection}
  {ops : List TableOp}

/-- The entry of the connection is not touched. -/
def Spared (n : Nat) (c : Connection) (ops : List TableOp) (m m' : FrimMap IngressId Nat) : Prop :=
  ∀ key, Relied c ops key → m.get key = some n → m'.get key = some n

theorem Filing.mono (h : Filing states info n c ops) (hs : Spared n c ops states states')
    (hi : Spared n c ops info info') : Filing states' info' n c ops := by
  cases h with
  | listed h1 h2 => exact .listed (hs _ (.inl rfl) h1) (hi _ (.inl rfl) h2)
  | accepted hid => exact .accepted hid
  | informed hid h2 => exact .informed hid (hi _ (.inr ⟨nofun, rfl⟩) h2)
  | rekeying h1 h2 =>
    exact .rekeying (hs _ (.inr ⟨nofun, rfl⟩) h1) (hi _ (.inr ⟨nofun, rfl⟩) h2)
  | taken h2 => exact .taken (hi _ (.inr ⟨nofun, rfl⟩) h2)
  | put h1 h2 => exact .put (hs _ (.inl rfl) h1) (hi _ (.inr ⟨nofun, rfl⟩) h2)
  | moved h1 => exact .moved (hs _ (.inl rfl) h1)

theorem Spared.refl (n : Nat) (c : Connection) (ops : List TableOp) (m : FrimMap IngressId Nat) :
    Spared n c ops m m := fun _ _ h => h

/-- Another connection removes an entry of its own. -/
theorem Spared.remove (hne : n ≠ m) (hown : ∀ k, states.get id = some k → k = m) :
    Spared n c ops states (states.remove id).1 := by
  intro key _ hget
  rw [get_remove]
  split
  next heq => exact absurd (hown n (heq ▸ hget)) hne
  · exact hget

/-- Another connection enters itself under an id that nothing here relies on. -/
theorem Spared.insert (hid : ¬ Relied c ops id) : Spared n c ops states (states.insert id m) := by
  intro key hrel hget
  rw [get_insert, if_neg]
  · exact hget
  · rintro rfl
    exact hid hrel

end Filing

/-- The task of a connection, with what it has to do on the tables. -/
def FiledThread (states info : FrimMap IngressId Nat) (n : Nat) (ops : List TableOp) :
    Thread → Prop
  | .absent => ops = []
  | .busy none p => ops = [] ∧ Prog.Shows (fun _ => False) (fun c => ∀ c' ∈ c,
      c'.stateMachine.ingressId = c'.ingressId ∧ c'.rebindResolved = false) p
  | .idle c => Filing states info n c ops ∧ (ops ≠ [] → c.rebindResolved = false)
  | .busy (some c) p => (c.rebindResolved = true → c.stateMachine.ingressId = c.ingressId) ∧
      Tidy c.ids p ∧ Filing states info n c ops ∧
      (ops ≠ [] → c.rebindResolved = false ∧ Steps.removes c.ingressId p)
  | .closing _ => ops = [] ∨ ∃ id, ops = [.removeStates id, .removeInfo id] ∨ ops = [.removeInfo id]

section Threads

variable {states states' info info' : FrimMap IngressId Nat} {n : Nat} {ops : List TableOp}
  {t t' : Thread}

theorem FiledThread.mono (h : FiledThread states info n ops t)
    (hs : ∀ c ∈ t.live, Spared n c ops states states')
    (hi : ∀ c ∈ t.live, Spared n c ops info info') : FiledThread states' info' n ops t := by
  cases t with
  | absent => exact h
  | idle c => exact ⟨h.1.mono (hs c rfl) (hi c rfl), h.2⟩
  | busy shown p =>
    cases shown with
    | none => exact h
    | some c =>
      obtain ⟨hid, htidy, hfiling, hops⟩ := h
      exact ⟨hid, htidy, hfiling.mono (hs c rfl) (hi c rfl), hops⟩
  | closing t => exact h

theorem rebinds_eq_false {c : Connection}
    (h : c.rebindResolved = true ∨ c.stateMachine.ingressId = c.ingressId) : rebinds c = false := by
  rcases h with h | h <;> simp [rebinds, h]

variable {S : Type} [PrefixStore S RotondaPaMap] {units : List IngressId} {cfg : RibConfig}
  {hub hub' : Hub S}

/-- The end of a message or of the accept. -/
theorem filed_ret {c : Connection} (h : FiledThread states info n [] (.busy shown (.ret (some c))))
    : FiledThread states info n (filing n (.busy shown (.ret (some c))) (.idle c)) (.idle c) := by
  cases shown with
  | none =>
    obtain ⟨hid, hresolved⟩ := h.2 c rfl
    exact ⟨.accepted hid, fun _ => hresolved⟩
  | some c₀ =>
    obtain ⟨_, htidy, hfiling, _⟩ := h
    obtain ⟨hmachine, hingress⟩ := htidy c rfl
    have hops : filing n (.busy (some c₀) (.ret (some c))) (.idle c) = [] := by
      simp [filing, Thread.live, rebinds_eq_false (c := c) (.inr (hmachine.trans hingress.symm))]
    rw [hops]
    cases hfiling with
    | listed hs hi => exact ⟨.listed (hmachine ▸ hs) (hmachine ▸ hi), nofun⟩

theorem filed_call {op : Call} {k : op.Resp → Steps (Option Connection)}
    (h : FiledThread states info n [] (.busy shown (.call op k))) (r : op.Resp) :
    FiledThread states info n (filing n (.busy shown (.call op k)) (.busy shown (k r)))
      (.busy shown (k r)) := by
  cases shown with
  | none => exact ⟨rfl, h.2 r⟩
  | some c =>
    obtain ⟨hid, htidy, hfiling, _⟩ := h
    have hops : filing n (.busy (some c) (.call op k)) (.busy (some c) (k r)) = [] := by
      simp [filing, Thread.live]
    rw [hops]
    exact ⟨hid, htidy r, hfiling, nofun⟩

theorem filed_commit {l : Option Connection}
    (h : FiledThread states info n [] (.busy shown (.commit l p))) :
    FiledThread states info n (filing n (.busy shown (.commit l p)) (.busy l p)) (.busy l p) := by
  cases shown with
  | none => exact h.2.1.elim
  | some c₀ =>
    obtain ⟨hid, ⟨c, rfl, hc⟩, hfiling, _⟩ := h
    cases hfiling with
    | listed hs hi =>
      rcases hc with ⟨hids, htidy⟩ | ⟨⟨hmachine, hopen, hingress, hresolved, hne⟩, hremoves, htidy⟩
      · obtain ⟨hmachine, hingress, hresolved⟩ := Ids.mk.inj hids
        have hops : filing n (.busy (some c₀) (.commit (some c) p)) (.busy (some c) p) = [] := by
          simp [filing, Thread.live, rebinds, hmachine, hingress, hresolved]
        rw [hops]
        refine ⟨fun h => ?_, hids ▸ htidy, .listed (hmachine ▸ hs) (hmachine ▸ hi), nofun⟩
        rw [hmachine, hingress]
        exact hid (hresolved ▸ h)
      · have hops : filing n (.busy (some c₀) (.commit (some c) p)) (.busy (some c) p) =
            [.removeStates c.ingressId, .insertStates c.stateMachine.ingressId,
              .moveInfo c.ingressId c.stateMachine.ingressId] := by
          have h₀ : rebinds c₀ = false := rebinds_eq_false (.inr hmachine)
          have h₁ : rebinds c = true := by
            have hne' : c.stateMachine.ingressId ≠ c.ingressId := fun heq =>
              hne (heq.trans (hingress.trans hmachine.symm))
            simp [rebinds, hresolved, hne']
          simp [filing, Thread.live, h₀, h₁]
        have hkey : c₀.stateMachine.ingressId = c.ingressId := hmachine.trans hingress.symm
        rw [hops]
        refine ⟨fun h => ?_, htidy, .rekeying (hkey ▸ hs) (hkey ▸ hi),
          fun _ => ⟨hresolved, hremoves⟩⟩
        rw [hresolved] at h
        cases h

theorem filed_teardown {td td' : Teardown} {order : List PerPeerHeader} {reg reg' : Register}
    {sent : List Update} (h : td.step order reg = some (td', reg', sent)) :
    FiledThread states info n (filing n (.closing td) (.closing td')) (.closing td') := by
  cases td with
  | lost c => cases h; exact .inl rfl
  | marking id todo marked => cases todo <;> cases h <;> exact .inl rfl
  | withdrawn id => cases h; exact .inr ⟨id, .inl rfl⟩
  | ended => cases h

theorem shows_accept (unit : IngressId) (addr : IpAddr) :
    ((Steps.accept unit addr).bind fun c => .ret (some c)).Shows (fun _ => False)
      fun c => ∀ c' ∈ c, c'.stateMachine.ingressId = c'.ingressId ∧ c'.rebindResolved = false := by
  intro id _
  rintro c' ⟨⟩
  exact ⟨rfl, rfl⟩

/-- A step of a connection that has done its part on the tables. -/
theorem FiledThread.step {m : SessionMove} (h : FiledThread states info n [] t)
    (hal : ∀ c, t = .idle c → c.Aligned) (hstep : t.step units cfg hub m = some (t', hub')) :
    FiledThread states info n (filing n t t') t' := by
  cases m with
  | proceed =>
    cases t with
    | busy shown p =>
      cases p with
      | ret c =>
        cases c with
        | none => cases hstep
        | some c => cases hstep; exact filed_ret h
      | call op k => cases hstep; exact filed_call h _
      | commit l p => cases hstep; exact filed_commit h
    | _ => cases hstep
  | connect unit addr =>
    cases t with
    | absent =>
      simp only [Thread.step] at hstep
      split at hstep <;> cases hstep
      exact ⟨rfl, shows_accept unit addr⟩
    | _ => cases hstep
  | receive ignore accepted orders msg =>
    cases t with
    | idle c =>
      simp only [Thread.step] at hstep
      split at hstep <;> cases hstep
      have hops : filing n (.idle c)
          (.busy (some c) (Steps.handleMsg ignore accepted c orders msg)) = [] := by
        simp [filing, Thread.live]
      rw [hops]
      exact ⟨fun _ => (hal c rfl).1, tidy_handleMsg ignore accepted (hal c rfl) orders msg, h.1,
        (by simp)⟩
    | _ => cases hstep
  | lose =>
    cases t with
    | idle c => cases hstep; exact .inl rfl
    | _ => cases hstep
  | teardown order =>
    cases t with
    | closing td =>
      simp only [Thread.step] at hstep
      split at hstep
      · obtain ⟨⟨td', reg, sent⟩, htd, heq⟩ := map_eq_some_iff.mp hstep
        cases heq
        exact filed_teardown htd
      · cases hstep
    | _ => cases hstep

end Threads

/-! ## The tables -/

namespace Routers

variable {S : Type} [PrefixStore S RotondaPaMap] {k : Nat} {cfg : RibConfig}
  {st st' : Routers S} {own : Owner → Dict IngressId Tenure} {n m : Nat} {c d : Connection}
variable {map : FrimMap IngressId Nat} {rest : List TableOp}

structure Filed (k : Nat) (cfg : RibConfig) (st : Routers S) : Prop where
  kept : ∃ own, Kept (unitIds k) cfg own st.sys
  threads (n : Nat) :
    FiledThread st.routerStates st.routerInfo n (st.pending n) (st.sys.sessions n)

section

variable (h : Kept (unitIds k) cfg own st.sys)
include h

/-- A live connection runs under an id of its own. -/
theorem runs_of_live
    (hc : c ∈ (st.sys.sessions n).live) : Runs c.stateMachine.ingressId (own (.session n)) :=
  ((h.threads n).visible c hc).runs

theorem eq_of_runs (hn : Runs id (own (.session n))) (hm : Runs id (own (.session m))) : n = m := by
  have heq : Owner.session n = .session m := by
    rcases hn with hn | hn <;> rcases hm with hm | hm <;> exact h.apart.disjoint hn hm
  exact Owner.session.inj heq

/-- Nobody else runs under an id that a task is about to free. -/
theorem not_runs_of_removes (hun : st.sys.hub.register.Unwrapped)
    (ht : st.sys.sessions n = .busy shown p) (hp : Steps.removes id p) (hne : m ≠ n) :
    ¬ Runs id (own (.session m)) := by
  intro hruns
  obtain ⟨next, rfl⟩ := Steps.removes_iff.mp hp
  have howns := h.threads n
  rw [ht] at howns
  obtain ⟨_, _, ω', _, hspares, _⟩ := howns.2 st.sys.hub hun h.sound (h.apart.holds (.session n))
  -- the entry is gone then, which fits neither tenure
  have hgone : ∀ t : Tenure, (own (.session m)).get id = some t → t.Fits (unitIds k) none := by
    intro t hget
    have hfree : (own (.session n)).get id = none :=
      h.apart.get_eq_none (fun heq => hne (Owner.session.inj heq)) hget
    have hok := (hspares id hfree t (h.apart.holds _ id t hget)).1.2.2
    change t.Fits (unitIds k) ((st.sys.hub.register.remove id).get id) at hok
    rw [Register.get_remove, if_pos rfl] at hok
    exact hok
  rcases hruns with hget | hget
  · obtain ⟨_, hinfo, _⟩ := hgone _ hget
    cases hinfo
  · obtain ⟨_, hinfo, _⟩ := hgone _ hget
    cases hinfo

end

/-- The connection has done an operation on one of the tables, and the others do not notice. -/
theorem Filed.performed (h : Filed k cfg st) {states info : FrimMap IngressId Nat}
    {ops : List TableOp}
    (hthread : FiledThread states info n ops (st.sys.sessions n))
    (hs : ∀ m, m ≠ n → ∀ d ∈ (st.sys.sessions m).live,
      Spared m d (st.pending m) st.routerStates states)
    (hi : ∀ m, m ≠ n → ∀ d ∈ (st.sys.sessions m).live,
      Spared m d (st.pending m) st.routerInfo info) :
    Filed k cfg ⟨st.sys, states, info, Function.update st.pending n ops⟩ where
  kept := h.kept
  threads := by
    intro m
    dsimp only
    by_cases heq : m = n
    · subst heq
      rw [Function.update_self]
      exact hthread
    · rw [Function.update_of_ne heq]
      exact (h.threads m).mono (hs m heq) (hi m heq)

omit [PrefixStore S RotondaPaMap] in
theorem spared_refl :
    ∀ d ∈ (st.sys.sessions m).live, Spared m d (st.pending m) map map :=
  fun d _ => .refl m d _ map

omit [PrefixStore S RotondaPaMap] in
theorem spared_remove
    (hown : ∀ m, map.get id = some m → m = n) : ∀ m, m ≠ n → ∀ d ∈ (st.sys.sessions m).live,
      Spared m d (st.pending m) map (map.remove id).1 :=
  fun _ hne _ _ => .remove hne hown

private theorem Filed.follows (h : Filed k cfg st) : st.Follows := by
  intro n c hc hresolved
  have hfiled := h.threads n
  -- a connection that has settled has nothing left to do on the tables
  have hlisted : c.stateMachine.ingressId = c.ingressId →
      Filing st.routerStates st.routerInfo n c (st.pending n) →
      (st.pending n ≠ [] → c.rebindResolved = false) →
      st.routerStates.get c.ingressId = some n ∧ (st.routerInfo.get c.ingressId).isSome := by
    intro hid hfiling hops
    have hnil : st.pending n = [] := by
      by_contra hne
      cases hresolved.symm.trans (hops hne)
    rw [hnil] at hfiling
    cases hfiling with
    | listed hs hi =>
      rw [hid] at hs hi
      exact ⟨hs, by rw [hi]; rfl⟩
  cases ht : st.sys.sessions n with
  | idle d =>
    rw [ht] at hc hfiled
    cases hc
    obtain ⟨own, hkept⟩ := h.kept
    have howns := hkept.threads n
    rw [ht] at howns
    exact hlisted (Settled.aligned howns).1 hfiled.1 hfiled.2
  | busy shown p =>
    rw [ht] at hc hfiled
    cases hc
    obtain ⟨hid, _, hfiling, hops⟩ := hfiled
    exact hlisted (hid hresolved) hfiling fun hne => (hops hne).1
  | absent | closing _ => rw [ht] at hc; cases hc

section

variable (h : Filed k cfg st) (hun : st.sys.hub.register.Unwrapped)
include h hun

/-- What one connection relies on is not where another one runs. -/
theorem Filed.not_relied (hne : m ≠ n) (hc : c ∈ (st.sys.sessions n).live)
    (hd : d ∈ (st.sys.sessions m).live) :
    ¬ Relied d (st.pending m) c.stateMachine.ingressId := by
  obtain ⟨own, hkept⟩ := h.kept
  have hruns := runs_of_live hkept hc
  have hapart : c.stateMachine.ingressId ≠ d.stateMachine.ingressId := fun heq =>
    hne (eq_of_runs hkept (runs_of_live hkept hd) (heq ▸ hruns))
  rintro (heq | ⟨hops, heq⟩)
  · exact hapart heq
  · have hfiled := h.threads m
    cases ht : st.sys.sessions m with
    | idle d' =>
      rw [ht] at hd
      cases hd
      have hal : Settled d (own (.session m)) := by
        have howns := hkept.threads m
        rwa [ht] at howns
      exact hapart (heq.trans hal.aligned.1.symm)
    | busy shown p =>
      rw [ht] at hd hfiled
      cases hd
      exact not_runs_of_removes hkept hun ht (hfiled.2.2.2 hops).2 hne.symm (heq ▸ hruns)
    | absent | closing _ => rw [ht] at hd; cases hd

/-- A connection enters itself where its state machine runs. -/
theorem Filed.spared_insert (hc : c ∈ (st.sys.sessions n).live)
    (map : FrimMap IngressId Nat) (v : Nat) : ∀ m, m ≠ n → ∀ d ∈ (st.sys.sessions m).live,
      Spared m d (st.pending m) map (map.insert c.stateMachine.ingressId v) :=
  fun _ hne _ hd => .insert (h.not_relied hun hne hc hd)

/-- The next operation of a live connection. -/
theorem Filed.table_live {op : TableOp} (hc : c ∈ (st.sys.sessions n).live)
    (hfiling : Filing st.routerStates st.routerInfo n c (op :: rest))
    (hthread : ∀ states info ops, Filing states info n c ops →
      FiledThread states info n ops (st.sys.sessions n)) :
    Filed k cfg (st.perform n rest op) := by
  have hmine : ∀ {map : FrimMap IngressId Nat} {id : IngressId}, map.get id = some n →
      ∀ m, map.get id = some m → m = n := fun hn m hm => Option.some.inj (hm.symm.trans hn)
  cases hfiling with
  | accepted hid =>
    rw [← hid]
    refine h.performed (hthread _ _ _ ?_) (fun _ _ => spared_refl) (h.spared_insert hun hc _ n)
    have hi : (st.routerInfo.insert c.ingressId n).get c.ingressId = some n :=
      get_insert_self ..
    simp only [hid]
    exact .informed hid hi
  | informed hid hi =>
    rw [← hid]
    refine h.performed (hthread _ _ _ ?_) (h.spared_insert hun hc _ n) fun _ _ => spared_refl
    exact .listed (get_insert_self ..) (hid ▸ hi)
  | rekeying hs hi =>
    exact h.performed (hthread _ _ _ (.taken hi)) (spared_remove (hmine hs)) fun _ _ => spared_refl
  | taken hi =>
    exact h.performed (hthread _ _ _ (.put (get_insert_self ..) hi))
      (h.spared_insert hun hc _ n) fun _ _ => spared_refl
  | put hs hi =>
    simp only [perform, snd_remove, hi]
    exact h.performed (hthread _ _ _ (.moved hs)) (fun _ _ => spared_refl)
      (spared_remove (hmine hi))
  | moved hs =>
    exact h.performed (hthread _ _ _ (.listed hs (get_insert_self ..)))
      (fun _ _ => spared_refl) (h.spared_insert hun hc _ n)

theorem Filed.table {op : TableOp} (hpending : st.pending n = op :: rest)
    (hguard : st.RemovesOwn (.table n)) :
    Filed k cfg (st.perform n rest op) := by
  have hfiled := h.threads n
  simp only [RemovesOwn, hpending] at hguard
  rw [hpending] at hfiled
  cases ht : st.sys.sessions n with
  | absent => rw [ht] at hfiled; cases hfiled
  | idle c =>
    rw [ht] at hfiled
    refine h.table_live hun (by rw [ht]; rfl) hfiled.1 fun states info ops hfiling => ?_
    rw [ht]
    exact ⟨hfiling, fun _ => hfiled.2 (by simp)⟩
  | busy shown p =>
    rw [ht] at hfiled
    cases shown with
    | none => cases hfiled.1
    | some c =>
      obtain ⟨hid, htidy, hfiling, hops⟩ := hfiled
      refine h.table_live hun (by rw [ht]; rfl) hfiling fun states info ops hfiling => ?_
      rw [ht]
      exact ⟨hid, htidy, hfiling, fun _ => hops (by simp)⟩
  | closing td =>
    rw [ht] at hfiled
    rcases hfiled with hnil | ⟨id, hops | hops⟩
    · cases hnil
    · cases hops
      refine h.performed ?_ (spared_remove hguard) fun _ _ => spared_refl
      rw [ht]
      exact .inr ⟨id, .inr rfl⟩
    · cases hops
      refine h.performed ?_ (fun _ _ => spared_refl) (spared_remove hguard)
      rw [ht]
      exact .inl rfl

variable [LawfulPrefixStore S]

private theorem Filed.session {mv : SessionMove} {sys : System S} (hpending : st.pending n = [])
    (hstep : st.sys.step (unitIds k) cfg (.session n mv) = some sys) :
    Filed k cfg { st with
      sys := sys
      pending := Function.update st.pending n (filing n (st.sys.sessions n) (sys.sessions n)) } := by
  obtain ⟨own, hkept⟩ := h.kept
  refine ⟨System.kept_step hun hkept hstep, fun m => ?_⟩
  obtain ⟨⟨t', hub'⟩, hthread, rfl⟩ := map_eq_some_iff.mp hstep
  dsimp only
  by_cases heq : m = n
  · subst heq
    simp only [Function.update_self]
    have hfiled := h.threads m
    rw [hpending] at hfiled
    refine hfiled.step (fun c hc => ?_) hthread
    have howns := hkept.threads m
    rw [hc] at howns
    exact Settled.aligned howns
  · simp only [Function.update_of_ne heq]
    exact h.threads m

private theorem Filed.step {mv : Move} (hguard : st.RemovesOwn mv)
    (hstep : st.step (unitIds k) cfg mv = some st') : Filed k cfg st' := by
  cases mv with
  | table n =>
    simp only [Routers.step] at hstep
    split at hstep <;> cases hstep
    next hpending => exact h.table hun hpending hguard
  | node nm =>
    cases nm with
    | session n m =>
      simp only [Routers.step] at hstep
      split at hstep
      next hempty =>
        obtain ⟨sys, hsys, rfl⟩ := map_eq_some_iff.mp hstep
        exact h.session hun (List.isEmpty_iff.mp hempty) hsys
      · cases hstep
    | bgp m =>
      obtain ⟨sys, hsys, rfl⟩ := map_eq_some_iff.mp hstep
      obtain ⟨own, hkept⟩ := h.kept
      refine ⟨System.kept_step hun hkept hsys, fun n => ?_⟩
      obtain ⟨⟨b, hub⟩, _, rfl⟩ := map_eq_some_iff.mp hsys
      exact h.threads n
    | sweep order =>
      obtain ⟨sys, hsys, rfl⟩ := map_eq_some_iff.mp hstep
      obtain ⟨own, hkept⟩ := h.kept
      refine ⟨System.kept_step hun hkept hsys, fun n => ?_⟩
      simp only [System.step] at hsys
      split at hsys <;> cases hsys
      exact h.threads n

end

variable [LawfulPrefixStore S]

theorem follows_of_own (moves : List Move)
    (hmoves : Along (step (S := S) (unitIds k) cfg)
      (fun st mv => st.sys.hub.register.Unwrapped ∧ st.RemovesOwn mv) (start k) moves)
    (hexec : exec (step (unitIds k) cfg) (start k) moves = some st) : st.Follows := by
  have hstart : Filed k cfg (start k : Routers S) := ⟨⟨_, System.kept_start k⟩, fun _ => rfl⟩
  have hfiled : Filed k cfg st := exec_invariant _ (Filed k cfg) _
    (fun _ _ _ h hguard hstep => h.step hguard.1 hguard.2 hstep) hstart hmoves hexec
  exact hfiled.follows

end Routers

/-! ## The last removal of a session -/

namespace Late

open BmpIn.Reconnect (addr pph initiation)
open Twice (proceeds message config)

abbrev Store := MapStore RotondaPaMap

def nodes (moves : List Node.Move) : List Routers.Move := moves.map .node

def tables (n steps : Nat) : List Routers.Move := List.replicate steps (.table n)

def accepts (n : Nat) : List Routers.Move :=
  nodes (.session n (.connect 1 addr) :: proceeds n 3) ++ tables n 2

/-- The connection is lost and its ingress marked. -/
def marks (n : Nat) : List Routers.Move :=
  nodes [.session n .lose, .session n (.teardown [pph])]

/-- The rest of the teardown, and the last removal. -/
def leaves (n : Nat) : List Routers.Move :=
  nodes [.session n (.teardown [pph]), .session n (.teardown [pph])] ++ tables n 2

/-- A known router says who it is, and its entries move. -/
def rekeys (n : Nat) : List Routers.Move :=
  nodes (message n initiation 5) ++ tables n 4 ++ nodes (proceeds n 3)

def serves (n : Nat) : List Routers.Move := accepts n ++ nodes (message n initiation 6)

/-- The router comes back before its first session has left the tables. -/
def early : List Routers.Move := serves 0 ++ marks 0 ++ accepts 1 ++ rekeys 1 ++ leaves 0

/-- It comes back after that. -/
def inTurn : List Routers.Move := serves 0 ++ marks 0 ++ leaves 0 ++ accepts 1 ++ rekeys 1

def runs (moves : List Routers.Move) : Option (Routers Store) :=
  exec (Routers.step (unitIds 1) config) (.start 1) moves

/-- The id of the second session, whether it has settled on it, and what is listed under it. -/
def look (st : Routers Store) : Option (IngressId × Bool) × Option Nat × Option Nat :=
  ((st.sys.sessions 1).live.map fun c => (c.ingressId, c.rebindResolved),
    st.routerStates.get 2, st.routerInfo.get 2)

theorem late_removal_unlists : ∃ st, runs early = some st ∧ ¬ st.Follows := by
  have hlook : (runs early).map look = some (some (2, true), none, none) := by decide +kernel
  obtain ⟨st, hst, hlook⟩ := map_eq_some_iff.mp hlook
  obtain ⟨hlive, htables⟩ := Prod.mk.inj hlook
  obtain ⟨c, hc, hids⟩ := map_eq_some_iff.mp hlive
  obtain ⟨hid, hresolved⟩ := Prod.mk.inj hids
  refine ⟨st, hst, fun hfollows => ?_⟩
  have hstates := (hfollows 1 c hc hresolved).1
  rw [hid, (Prod.mk.inj htables).1] at hstates
  cases hstates

/-- The guard as a test. -/
def removesOwn (st : Routers Store) : Routers.Move → Bool
  | .table n => match st.pending n with
    | .removeStates id :: _ => (st.routerStates.get id).all (· == n)
    | .removeInfo id :: _ => (st.routerInfo.get id).all (· == n)
    | _ => true
  | _ => true

theorem removesOwn_of_test (st : Routers Store) (mv : Routers.Move)
    (h : removesOwn st mv = true) : st.RemovesOwn mv := by
  cases mv with
  | node m => trivial
  | table n =>
    simp only [removesOwn] at h
    simp only [Routers.RemovesOwn]
    split <;> rename_i hpending <;> simp only [hpending] at h
    · intro m hm
      rw [hm] at h
      exact beq_iff_eq.mp h
    · intro m hm
      rw [hm] at h
      exact beq_iff_eq.mp h
    · trivial

theorem removal_in_turn :
    (runs inTurn).map look = some (some (2, true), some 1, some 1) ∧
      ∀ st, runs inTurn = some st → st.Follows := by
  refine ⟨by decide +kernel, fun st hst => Routers.follows_of_own inTurn ?_ hst⟩
  exact along_of_test (Routers.step (unitIds 1) config)
    (g := fun st mv => st.sys.hub.register.Unwrapped && removesOwn st mv)
    (fun st mv htest => by
      rw [Bool.and_eq_true] at htest
      exact ⟨of_decide_eq_true htest.1, removesOwn_of_test st mv htest.2⟩) (by decide +kernel)

end Late

end Rotonda.Node
