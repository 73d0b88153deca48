import Rotonda.Node.Tasks
import Rotonda.RibUnit.Gc
import Rotonda.BgpIn.Processor

/-!
A node: any number of BMP connections and BGP sessions, the RIB unit with its collector, and the
register that they share.

A move is one step of one task: a call, a mark of a teardown, an entry that the collector frees.
The moves of a schedule come in any order.

* `Thread.step`, `Bgp.step`, `System.step`: the steps of a BMP connection, of the BGP sessions and of
  the node.
-/

namespace Rotonda.Node

open Lib Lib.Ownership BmpIn

/-! ## BMP connections -/

/-- The task of a BMP connection. -/
inductive Thread where
  | absent
  /-- Between two messages. -/
  | idle (c : Connection)
  /-- In the accept or in a message, with the connection as the others see it. -/
  | busy (shown : Option Connection) (p : Steps (Option Connection))
  | closing (t : Teardown)

inductive SessionMove where
  | connect (unit : IngressId) (addr : IpAddr)
  | receive (ignorePostPolicyRoutes accepted : Bool) (orders : IterOrders) (msg : BmpMsg)
  /-- The next call of what the task is doing. -/
  | proceed
  /-- The connection is lost. -/
  | lose
  | teardown (order : List PerPeerHeader)

namespace Thread

def live : Thread → Option Connection
  | idle c => some c
  | busy shown _ => shown
  | _ => none

variable {S : Type} [PrefixStore S RotondaPaMap]

/-- The next call of a program, or its end. -/
def next (cfg : RibConfig) (hub : Hub S) : Thread → Option (Thread × Hub S)
  | busy _ (.ret (some c)) => some (idle c, hub)
  | busy shown p => (p.next (Hub.handle cfg) shown hub).map fun (p, shown, hub) =>
    (busy shown p, hub)
  | _ => none

/-- One step of the task of a connection; an order in which a map is iterated has no key twice. -/
def step (units : List IngressId) (cfg : RibConfig) (hub : Hub S) :
    Thread → SessionMove → Option (Thread × Hub S)
  | absent, .connect unit addr =>
    if unit ∈ units then some (busy none ((Steps.accept unit addr).bind fun c => .ret (some c)), hub)
    else none
  | idle c, .receive ignorePostPolicyRoutes accepted orders msg =>
    if orders.peers.Nodup then
      some (busy (some c) (Steps.handleMsg ignorePostPolicyRoutes accepted c orders msg), hub)
    else none
  | idle c, .lose => some (closing (.lost c), hub)
  | closing t, .teardown order =>
    if order.Nodup then (t.step order hub.register).map fun (t, reg, sent) =>
      (closing t, sent.foldl (Hub.deliver cfg) (hub.setRegister reg))
    else none
  | t, .proceed => t.next cfg hub
  | _, _ => none

end Thread

/-! ## BGP sessions -/

/-- The task of a BGP session with the updates it waits for; `aborted` once an abort was
requested. -/
structure BgpTask where
  processor : BgpIn.Processor
  pending : List Update
  aborted : Bool
  cancelled : Bool

def BgpTask.live (t : BgpTask) : Bool := !t.cancelled && t.processor.phase != .ended

def BgpTask.abortIf (t : BgpTask) (sid : Option Nat) : BgpTask :=
  { t with aborted := t.aborted || (sid.isSome && sid == t.processor.mySessionId) }

inductive BgpMove where
  | accept (n : Nat) (negotiated : BgpIn.Negotiated)
  | act (n : Nat) (input : BgpIn.Input)
  /-- The RIB unit handles the next update that the task waits for. -/
  | handle (n : Nat)
  /-- The task is dropped at an await, with what it waits for. -/
  | cancel (n : Nat)

structure Bgp where
  tasks : Nat → Option BgpTask
  liveSessions : Dict BgpIn.SessionKey BgpIn.LiveSession
  sessionIdCounter : Nat

namespace Bgp

def setTask (b : Bgp) (n : Nat) (t : BgpTask) : Bgp :=
  { b with tasks := Function.update b.tasks n (some t) }

theorem tasks_setTask (b : Bgp) (n : Nat) (t : BgpTask) (m : Nat) :
    (b.setTask n t).tasks m = if m = n then some t else b.tasks m := Function.update_apply ..

variable {S : Type} [PrefixStore S RotondaPaMap]

def shared (b : Bgp) (hub : Hub S) : BgpIn.Shared :=
  ⟨hub.register, b.liveSessions, b.sessionIdCounter⟩

def step (cfg : RibConfig) (hub : Hub S) (b : Bgp) : BgpMove → Option (Bgp × Hub S)
  | .accept n negotiated => match b.tasks n with
    | none =>
      let (id, reg) := hub.register.register
      some (b.setTask n ⟨⟨negotiated, id, none, .connecting⟩, [], false, false⟩,
        hub.setRegister reg)
    | some _ => none
  | .act n input => (b.tasks n).bind fun t =>
    if t.cancelled || !t.pending.isEmpty then none
    else (t.processor.step (b.shared hub) input).map fun (p, sh, sent, abort) =>
      let b := b.setTask n { t with processor := p, pending := sent }
      (⟨fun m => (b.tasks m).map (·.abortIf abort), sh.liveSessions, sh.sessionIdCounter⟩,
        hub.setRegister sh.ingresses)
  | .handle n => (b.tasks n).bind fun t => match t.pending with
    | [] => none
    | u :: rest => some (b.setTask n { t with pending := rest }, hub.deliver cfg u)
  | .cancel n => (b.tasks n).bind fun t =>
    if t.aborted then some (b.setTask n { t with pending := [], cancelled := true }, hub)
    else none

end Bgp

/-! ## The node -/

structure System (S : Type) where
  hub : Hub S
  sessions : Nat → Thread
  bgp : Bgp
  gc : Gc

inductive Move where
  | session (n : Nat) (m : SessionMove)
  | bgp (m : BgpMove)
  /-- The collector goes on; a sweep starts with the register in iteration order. -/
  | sweep (order : List IngressId)

def Listed (reg : Register) (order : List IngressId) : Prop :=
  ∀ id < reg.serial, (reg.get id).isSome → id ∈ order

instance (reg : Register) (order : List IngressId) : Decidable (Listed reg order) :=
  inferInstanceAs (Decidable (∀ id < reg.serial, (reg.get id).isSome → id ∈ order))

def unitIds (k : Nat) : List IngressId := List.range' 1 k

namespace System

variable {S : Type} [PrefixStore S RotondaPaMap]

/-- A node of `k` units at its start. -/
def start (k : Nat) : System S where
  hub := ⟨.new ⟨k + 1, .empty⟩, []⟩
  sessions := fun _ => .absent
  bgp := ⟨fun _ => none, .empty, 0⟩
  gc := .waiting []

def step (units : List IngressId) (cfg : RibConfig) (sys : System S) : Move → Option (System S)
  | .session n m => ((sys.sessions n).step units cfg sys.hub m).map fun (t, hub) =>
    { sys with
      hub := hub
      sessions := Function.update sys.sessions n t }
  | .bgp m => (sys.bgp.step cfg sys.hub m).map fun (b, hub) => { sys with hub := hub, bgp := b }
  | .sweep order =>
    if Listed sys.hub.register order then
      let (gc, rib) := Gc.step order (sys.gc, sys.hub.rib)
      some { sys with hub := { sys.hub with rib := rib }, gc := gc }
    else none

end System

end Rotonda.Node
