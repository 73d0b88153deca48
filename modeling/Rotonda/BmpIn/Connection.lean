import Rotonda.BmpIn.Machine

/-!
The task of one BMP connection: it feeds the state machine, adopts the id of a known router once
the Initiation has resolved it, and tears the session down when the connection is lost.

Tasks share the register, so a task is given in the steps in which it uses it.  One message is
one step, and the teardown is one step for every entry it flips and one for every update.

* `handleMsg`: one message, with the updates it sends through the gate;
* `teardown_uninterrupted`: taken in one go they do what `disconnectIntoRegister` does.
-/

namespace Rotonda.BmpIn

open Lib

structure Connection where
  stateMachine : BmpState
  ingressId : IngressId
  rebindResolved : Bool

namespace Connection

def accept (reg : Register) (unitIngressId : IngressId) (addr : IpAddr) :
    Connection × Register :=
  let (id, reg) := reg.register
  (⟨.new id, id, false⟩, reg.updateInfo id
    { parentIngress := some unitIngressId, remoteAddr := some addr, ingressType := some .bmp })

def isPostPolicyRoutes : BmpMsg → Bool
  | .routeMonitoring pph _ => pph.isPostPolicy
  | _ => false

/-- One message under the verdict of the roto function on it (`accepted`; without a function it
is true), with the updates sent; `none` if the state machine panics. -/
def processMsg (ignorePostPolicyRoutes accepted : Bool) (c : Connection) (reg : Register)
    (orders : IterOrders) (msg : BmpMsg) : Option (Connection × Register × List Update) :=
  if ignorePostPolicyRoutes && isPostPolicyRoutes msg then some (c, reg, [])
  else if !accepted then some (c, reg, [.outputStream])
  else match c.stateMachine.processMsg reg orders msg with
    | (.panicked, _, _) => none
    | (.routingUpdate update, st, reg) =>
      some ({ c with stateMachine := st }, reg, [.outputStream, update])
    | (_, st, reg) => some ({ c with stateMachine := st }, reg, [.outputStream])

/-- After each message: once the state machine runs under another id than the connection, adopt
that id and free the provisional one. -/
def resolveRebind (c : Connection) (reg : Register) : Connection × Register × List Update :=
  if c.rebindResolved then (c, reg, [])
  else if c.stateMachine.ingressId ≠ c.ingressId then
    ({ c with ingressId := c.stateMachine.ingressId, rebindResolved := true },
      reg.remove c.ingressId, [.ingressReappeared c.stateMachine.ingressId])
  else ({ c with rebindResolved := !c.stateMachine.isInitiating }, reg, [])

def handleMsg (ignorePostPolicyRoutes accepted : Bool) (c : Connection) (reg : Register)
    (orders : IterOrders) (msg : BmpMsg) : Option (Connection × Register × List Update) :=
  (processMsg ignorePostPolicyRoutes accepted c reg orders msg).map fun (c, reg, sent) =>
    let (c, reg, sent') := c.resolveRebind reg
    (c, reg, sent ++ sent')

end Connection

/-! ## Teardown -/

/-- Where a connection that was lost is in its teardown. -/
inductive Teardown where
  | lost (c : Connection)
  /-- The peers still to flip and those that were flipped. -/
  | marking (ingressId : IngressId) (todo marked : List IngressId)
  | withdrawn (ingressId : IngressId)
  | ended

namespace Teardown

def peerIds (c : Connection) (order : List PerPeerHeader) : List IngressId :=
  (c.stateMachine.peerStates.select order fun _ _ => true).map fun e => e.2.ingressId

def step (order : List PerPeerHeader) (reg : Register) :
    Teardown → Option (Teardown × Register × List Update)
  | lost c => some (marking c.ingressId (peerIds c order) [],
      reg.updateInfo c.ingressId (.withState .disconnected), [])
  | marking id (p :: todo) marked => some (marking id todo (marked ++ [p]),
      reg.updateInfo p (.withState .disconnected), [])
  | marking id [] marked =>
    some (withdrawn id, reg, [.withdrawBulk (marked.map fun p => (p, none))])
  | withdrawn id => some (ended, reg, [.upstreamStatusChange (.endOfStream id)])
  | ended => none

/-- All steps without interruption: the register and the updates sent. -/
def steps (order : List PerPeerHeader) :
    Nat → Teardown → Register → List Update → Register × List Update
  | 0, _, reg, sent => (reg, sent)
  | fuel + 1, t, reg, sent =>
    match t.step order reg with
    | none => (reg, sent)
    | some (t, reg, more) => steps order fuel t reg (sent ++ more)

theorem steps_marking (order : List PerPeerHeader) (id : IngressId)
    (todo marked : List IngressId) (reg : Register) (sent : List Update) :
    steps order (todo.length + 2) (marking id todo marked) reg sent =
      (todo.foldl (fun reg p => reg.updateInfo p (.withState .disconnected)) reg,
        sent ++ [.withdrawBulk ((marked ++ todo).map fun p => (p, none)),
          .upstreamStatusChange (.endOfStream id)]) := by
  induction todo generalizing marked reg sent with
  | nil => simp [steps, step]
  | cons p todo ih =>
    rw [List.length_cons, Nat.succ_add, steps]
    simp only [step]
    rw [ih]
    simp

/-- Without interruption the teardown marks the connection and all its peers, and withdraws
them. -/
theorem teardown_uninterrupted (order : List PerPeerHeader) (c : Connection) (reg : Register) :
    let (entries, reg') := c.stateMachine.disconnectIntoRegister order
      (reg.updateInfo c.ingressId (.withState .disconnected))
    steps order ((peerIds c order).length + 3) (lost c) reg [] =
      (reg', [.withdrawBulk entries, .upstreamStatusChange (.endOfStream c.ingressId)]) := by
  have hsteps := steps_marking order c.ingressId (peerIds c order) []
    (reg.updateInfo c.ingressId (.withState .disconnected)) []
  simp only [List.nil_append] at hsteps
  have hnone : ∀ order : List PerPeerHeader, (Dict.empty : PeerStates).select order
      (fun _ _ => true) = [] := by
    intro order
    simp [Dict.select, Dict.entry]
  rw [steps]
  simp only [step, List.append_nil, hsteps]
  cases hst : c.stateMachine <;>
    simp [BmpState.disconnectIntoRegister, PeerStates.disconnectIntoRegister, peerIds, hst,
      BmpState.peerStates, hnone]

end Teardown

end Rotonda.BmpIn
