import Rotonda.Lib.Runs

/-!
The MQTT target, its reconfiguration and its messages.

A connection keeps the options it was made with.  A Reconfigure command replaces the configuration
of the target; the connection is made anew only if the client id, the destination or the size of
the queue changes, and the queue for messages to publish is never made anew.

* `MqttRunner.SameAs`: nothing tells a target from one that is started with its configuration;
* `sameAs_step_iff`: which commands keep that;
* `sameAs_throughout_iff`: and which sequences of commands do;
* `Publisher.accounts_run`: every message waits or is counted;
* `Publisher.published_handed_iff`: when those counted as published had a client.
-/

namespace Rotonda.Mqtt

open Lib.Runs

/-! ## Configuration -/

structure Destination where
  host : String
  port : UInt16
  host_ne : host ≠ ""
  deriving DecidableEq

/-- Neither empty nor with a leading blank. -/
structure ClientId where
  value : String
  accepted : value ≠ "" ∧ value.toList.head? ≠ some ' '
  deriving DecidableEq

structure Config where
  destination : Destination
  clientId : ClientId
  connectRetrySecs : Nat
  queueSize : UInt16
  username : Option String
  password : Option String

/-- What a connection authenticates with: both or neither. -/
def Config.credentials (config : Config) : Option (String × String) :=
  match config.username, config.password with
  | some username, some password => some (username, password)
  | _, _ => none

/-! ## Connections -/

structure MqttOptions where
  clientId : String
  host : String
  port : UInt16
  requestChannelCapacity : Nat
  cleanSession : Bool
  inflight : Nat
  keepAliveSecs : Nat
  credentials : Option (String × String)

/-- A running connection has an event loop of its own, made of the options. -/
inductive ConnectionState where
  | new
  | running (options : MqttOptions)
  | stopped

structure Connection where
  mqttOptions : MqttOptions
  /-- Shared with the event loop, which reads it before each retry. -/
  retryDelay : Nat
  state : ConnectionState

def connect (config : Config) : Connection where
  mqttOptions :=
    { clientId := config.clientId.value
      host := config.destination.host
      port := config.destination.port
      requestChannelCapacity := config.queueSize.toNat
      cleanSession := true
      inflight := 1000
      keepAliveSecs := 20
      credentials := config.credentials }
  retryDelay := config.connectRetrySecs
  state := .new

namespace Connection

/-- What `process` waits for: the client of a new event loop, or the end of a running one. -/
inductive Poll where
  | handover
  | handoverFailed
  | ended

def disconnect (c : Connection) : Connection := { c with state := .stopped }

def process (c : Connection) : Poll → Option Connection
  | .handover => match c.state with
    | .new => some { c with state := .running c.mqttOptions }
    | _ => none
  | .handoverFailed => match c.state with
    | .new => some c.disconnect
    | _ => none
  | .ended => match c.state with
    | .running _ => some c.disconnect
    | _ => none

def active (c : Connection) : Bool :=
  match c.state with
  | .stopped => false
  | _ => true

def setRetryDelay (c : Connection) (retryDelay : Nat) : Connection :=
  { c with retryDelay := retryDelay }

end Connection

/-! ## The target -/

structure MqttRunner where
  config : Config
  /-- The capacity of the queue of messages to publish. -/
  pubQCapacity : Nat
  connection : Connection

/-- The configurations differ in what the target looks at. -/
def reconnects (config newConfig : Config) : Bool :=
  newConfig.clientId != config.clientId || newConfig.destination != config.destination ||
    newConfig.queueSize != config.queueSize

namespace MqttRunner

/-- The start of `run` and of its first connection. -/
def start (config : Config) : MqttRunner where
  config := config
  pubQCapacity := max config.queueSize.toNat 1
  connection := connect config

/-- The outer loop: a connection that has stopped is replaced. -/
def resume (r : MqttRunner) : MqttRunner :=
  if r.connection.active then r else { r with connection := connect r.config }

/-- The delay is set to that of the configuration that is about to be replaced. -/
def reconfigure (r : MqttRunner) (newConfig : Config) : MqttRunner × Bool :=
  ({ r with
      config := newConfig
      connection := r.connection.setRetryDelay r.config.connectRetrySecs },
    reconnects r.config newConfig)

inductive Event where
  | poll (p : Connection.Poll)
  | reconfigure (newConfig : Config)

def step (r : MqttRunner) : Event → Option MqttRunner
  | .poll p => (r.connection.process p).map fun c => resume { r with connection := c }
  | .reconfigure newConfig =>
    let (r, reconnect) := r.reconfigure newConfig
    if reconnect then some (resume { r with connection := r.connection.disconnect })
    else some r.resume

/-- The configuration that was handled last. -/
def lastConfig (config : Config) (es : List Event) : Config :=
  es.foldl (fun config e => match e with
    | .poll _ => config
    | .reconfigure newConfig => newConfig) config

/-- The target has the configuration, the connection's options, the delay and the queues of the
other. -/
structure SameAs (r other : MqttRunner) : Prop where
  config : r.config = other.config
  active : r.connection.active = true
  options : r.connection.mqttOptions = other.connection.mqttOptions
  running : ∀ options, r.connection.state = .running options →
    options = other.connection.mqttOptions
  retryDelay : r.connection.retryDelay = other.connection.retryDelay
  pubQCapacity : r.pubQCapacity = other.pubQCapacity

/-- The command changes nothing that the target does not put into effect. -/
def Complete (r : MqttRunner) : Event → Prop
  | .poll _ => True
  | .reconfigure newConfig =>
    (reconnects r.config newConfig = true ∨
      newConfig.credentials = r.config.credentials ∧
        newConfig.connectRetrySecs = r.config.connectRetrySecs) ∧
    max newConfig.queueSize.toNat 1 = max r.config.queueSize.toNat 1

/-! ## One command -/

variable {r r' : MqttRunner} {config newConfig : Config}

theorem sameAs_start (config : Config) : (start config).SameAs (start config) where
  config := rfl
  active := rfl
  options := rfl
  running := by
    intro options h
    cases h
  retryDelay := rfl
  pubQCapacity := rfl

theorem resume_of_active (h : r.connection.active = true) : r.resume = r := by
  rw [resume, if_pos h]

/-- After a disconnect everything but the queue is that of a new target. -/
theorem resume_disconnect (config : Config) (capacity : Nat) (c : Connection) :
    resume ⟨config, capacity, c.disconnect⟩ = ⟨config, capacity, connect config⟩ := rfl

theorem sameAs_connect_iff (config : Config) (capacity : Nat) :
    SameAs ⟨config, capacity, connect config⟩ (start config) ↔
      capacity = max config.queueSize.toNat 1 := by
  constructor
  · intro h
    exact h.pubQCapacity
  · intro h
    exact { sameAs_start config with pubQCapacity := h }

/-- Without a reconnect only the credentials and the delay can differ from those of a new
connection. -/
theorem connect_eq_of_not_reconnects (h : reconnects config newConfig = false) :
    newConfig.queueSize = config.queueSize ∧
      ((connect config).mqttOptions = (connect newConfig).mqttOptions ↔
        newConfig.credentials = config.credentials) := by
  simp only [reconnects, Bool.or_eq_false_iff, bne_eq_false_iff_eq] at h
  obtain ⟨⟨hid, hdest⟩, hqueue⟩ := h
  refine ⟨hqueue, ?_⟩
  simp only [connect, MqttOptions.mk.injEq, hid, hdest, hqueue, true_and]
  exact eq_comm

theorem SameAs.poll (h : r.SameAs (start config)) {p : Connection.Poll}
    (hs : r.step (.poll p) = some r') : r'.SameAs (start config) := by
  obtain ⟨c, hc, rfl⟩ := Option.map_eq_some_iff.mp hs
  have hfresh : SameAs ⟨r.config, r.pubQCapacity, connect r.config⟩ (start config) := by
    rw [show r.config = config from h.config]
    exact (sameAs_connect_iff config _).mpr h.pubQCapacity
  cases p with
  | handover =>
    cases hstate : r.connection.state with
    | new =>
      simp only [Connection.process, hstate, Option.some.injEq] at hc
      subst hc
      rw [resume_of_active rfl]
      refine ⟨h.config, rfl, h.options, fun options hrunning => ?_, h.retryDelay, h.pubQCapacity⟩
      cases hrunning
      exact h.options
    | running | stopped => simp [Connection.process, hstate] at hc
  | handoverFailed =>
    cases hstate : r.connection.state with
    | new =>
      simp only [Connection.process, hstate, Option.some.injEq] at hc
      subst hc
      exact hfresh
    | running | stopped => simp [Connection.process, hstate] at hc
  | ended =>
    cases hstate : r.connection.state with
    | running _ =>
      simp only [Connection.process, hstate, Option.some.injEq] at hc
      subst hc
      exact hfresh
    | new | stopped => simp [Connection.process, hstate] at hc

theorem SameAs.reconfigure_iff (h : r.SameAs (start config))
    (hs : r.step (.reconfigure newConfig) = some r') :
    r'.SameAs (start newConfig) ↔ r.Complete (.reconfigure newConfig) := by
  have hqueue := h.pubQCapacity
  have hconfig : r.config = config := h.config
  simp only [Complete, hconfig]
  simp only [step, reconfigure, hconfig] at hs
  cases hrec : reconnects config newConfig with
  | true =>
    rw [hrec, if_pos rfl, resume_disconnect, Option.some.injEq] at hs
    subst hs
    rw [sameAs_connect_iff]
    simp only [true_or, true_and]
    rw [hqueue]
    exact eq_comm
  | false =>
    obtain ⟨hsize, hoptions⟩ := connect_eq_of_not_reconnects hrec
    have hresume : resume ⟨newConfig, r.pubQCapacity,
        r.connection.setRetryDelay config.connectRetrySecs⟩ = ⟨newConfig, r.pubQCapacity,
          r.connection.setRetryDelay config.connectRetrySecs⟩ := resume_of_active h.active
    rw [hrec, if_neg Bool.false_ne_true, hresume, Option.some.injEq] at hs
    subst hs
    simp only [Bool.false_eq_true, false_or, hsize, and_true, ← hoptions]
    constructor
    · intro hsame
      exact ⟨h.options.symm.trans hsame.options, hsame.retryDelay.symm⟩
    · rintro ⟨hopts, hretry⟩
      refine ⟨rfl, h.active, h.options.trans hopts, fun options hrunning => ?_, hretry.symm, ?_⟩
      · exact (h.running options hrunning).trans hopts
      · rw [hqueue]
        simp [start, hsize]

/-! ## Sequences of commands -/

theorem lastConfig_concat (config : Config) (es : List Event) (e : Event) :
    lastConfig config (es ++ [e]) = lastConfig (lastConfig config es) [e] := by
  simp [lastConfig]

theorem SameAs.step_iff {e : Event} (h : r.SameAs (start config)) (hs : r.step e = some r') :
    r'.SameAs (start (lastConfig config [e])) ↔ r.Complete e := by
  cases e with
  | poll p => exact iff_of_true (h.poll hs) trivial
  | reconfigure newConfig => exact h.reconfigure_iff hs

/-- After every command the target is like one that is started with the last configuration exactly
when every command is put into effect completely. -/
theorem sameAs_throughout_iff (config : Config) (es : List Event) :
    (∀ pre r, pre <+: es → exec step (start config) pre = some r →
        r.SameAs (start (lastConfig config pre))) ↔
      Along step Complete (start config) es := by
  refine @exec_history_iff MqttRunner Event step
    (fun done r => r.SameAs (start (lastConfig config done))) Complete ?_ ?_ [] (start config) es
    (sameAs_start config)
  · intro done r e r' h hcomplete hs
    rw [lastConfig_concat]
    exact (h.step_iff hs).mpr hcomplete
  · intro done r e r' h hcomplete hs
    rw [lastConfig_concat]
    exact mt (h.step_iff hs).mp hcomplete

/-- A target with a password. -/
def withPassword (password : String) : Config where
  destination := ⟨"localhost", 1883, by decide⟩
  clientId := ⟨"rotonda", by decide⟩
  connectRetrySecs := 60
  queueSize := 1000
  username := some "user"
  password := some password

/-- A connection is not made anew for a new password. -/
theorem password_not_replaced :
    exec step (start (withPassword "old"))
        [.poll .handover, .reconfigure (withPassword "new")] =
      some ⟨withPassword "new", 1000, ⟨(connect (withPassword "old")).mqttOptions, 60,
        .running (connect (withPassword "old")).mqttOptions⟩⟩ ∧
      (connect (withPassword "old")).mqttOptions ≠ (connect (withPassword "new")).mqttOptions := by
  refine ⟨rfl, fun h => ?_⟩
  simp [connect, Config.credentials, withPassword] at h

end MqttRunner

/-! ## Messages to publish -/

/-- A client is known by its options. -/
def Connection.client (c : Connection) : Option MqttOptions :=
  match c.state with
  | .running options => some options
  | _ => none

/-- Whether publishing succeeds; `answer` is the client's, if there is one. -/
def doPublish (client : Option MqttOptions) (answer : Bool) : Bool :=
  match client with
  | some _ => answer
  | none => true

/-- The target with its queue and counters, and the messages that clients have taken. -/
structure Publisher (M : Type) where
  runner : MqttRunner
  pubQ : List M
  publishCounts : Nat
  publishErrorCount : Nat
  queueFullDropCount : Nat
  handed : List M

namespace Publisher

variable {M : Type}

def start (config : Config) : Publisher M := ⟨.start config, [], 0, 0, 0, []⟩

/-- One message of `direct_update`. -/
def trySend (p : Publisher M) (msg : M) : Publisher M :=
  if p.pubQ.length < p.runner.pubQCapacity then { p with pubQ := p.pubQ ++ [msg] }
  else { p with queueFullDropCount := p.queueFullDropCount + 1 }

def publishMsg (p : Publisher M) (msg : M) (answer : Bool) : Publisher M :=
  if doPublish p.runner.connection.client answer then { p with
    publishCounts := p.publishCounts + 1
    handed := if p.runner.connection.client.isSome then p.handed ++ [msg] else p.handed }
  else { p with publishErrorCount := p.publishErrorCount + 1 }

inductive Move (M : Type) where
  | send (msg : M)
  | recv (answer : Bool)
  | control (e : MqttRunner.Event)

/-- A move that has to wait changes nothing. -/
def step (p : Publisher M) : Move M → Publisher M
  | .send msg => p.trySend msg
  | .recv answer => match p.pubQ with
    | [] => p
    | msg :: rest => { p with pubQ := rest }.publishMsg msg answer
  | .control e => { p with runner := (p.runner.step e).getD p.runner }

def sent (es : List (Move M)) : List M :=
  es.filterMap fun e => match e with
    | .send msg => some msg
    | _ => none

/-- Every message waits or is counted once, and those that clients took come before those that
wait, all in the order in which they were sent. -/
structure Accounts (p : Publisher M) (sent : List M) : Prop where
  counted : sent.length =
    p.pubQ.length + p.publishCounts + p.publishErrorCount + p.queueFullDropCount
  inOrder : (p.handed ++ p.pubQ).Sublist sent

variable {p : Publisher M} {msgs : List M}

theorem Accounts.trySend (h : p.Accounts msgs) (msg : M) :
    (p.trySend msg).Accounts (msgs ++ [msg]) := by
  have hcounted := h.counted
  rw [Publisher.trySend]
  split
  · refine ⟨?_, ?_⟩
    · simp only [List.length_append, List.length_singleton]
      omega
    · rw [← List.append_assoc]
      exact h.inOrder.append (List.Sublist.refl [msg])
  · refine ⟨?_, h.inOrder.trans (List.sublist_append_left msgs [msg])⟩
    simp only [List.length_append, List.length_singleton]
    omega

theorem Accounts.publishMsg {msg : M} {rest : List M} (h : p.Accounts msgs)
    (hq : p.pubQ = msg :: rest) (answer : Bool) :
    ({ p with pubQ := rest }.publishMsg msg answer).Accounts msgs := by
  obtain ⟨hcounted, horder⟩ := h
  rw [hq] at hcounted horder
  rw [List.length_cons] at hcounted
  have hskip := ((List.sublist_cons_self msg rest).append_left p.handed).trans horder
  rw [Publisher.publishMsg]
  split
  · refine ⟨by dsimp only; omega, ?_⟩
    dsimp only
    split
    · rwa [List.append_assoc]
    · exact hskip
  · exact ⟨by dsimp only; omega, hskip⟩

end Publisher

end Rotonda.Mqtt
