import QuantumSsh.Channel.Inbound

/-!
# The drive loop

`drive` as a machine. One turn of the loop is the flush of child output, the
hand-off of stdin, the closing work and the wait for one event. The stdin pump
runs beside the loop; its steps fall between those of the loop, since no phase
of the loop reads what the pump changes at two of its await points.
-/

namespace QuantumSsh.Channel

open Wire Kex Machine Program Transport

/-- Phase (A). -/
def flushPhase (env : Env) : DriverProg Unit := do
  let active ← look fun w => w.session.rekeyActive
  if !active then flushOutput env

/-- Starts a re-key when one is due and the channel's state allows it. -/
def rekeyIfDue (env : Env) : DriverProg Unit := do
  let now ← onSession (ask env.now)
  let w ← look id
  if w.session.rekeyDue now ∧ w.driver.state.mayRekey then onSession (beginRekey env)

/-- The closing sequence; `true` when `drive` returns. -/
def closeIfReady (env : Env) : DriverProg Bool := do
  let d ← look World.driver
  if d.readyToClose then sendTerminal env
  let d ← look World.driver
  if d.state = .closed then do
    update World.emitFinished
    return true
  else return false

/-- Phases (C) to (E); `true` when `drive` returns. -/
def settlePhase (env : Env) : DriverProg Bool := do
  let active ← look fun w => w.session.rekeyActive
  if active then return false
  else do
    replenishWindow env
    rekeyIfDue env
    let active ← look fun w => w.session.rekeyActive
    if active then return false else closeIfReady env

/-! ### Events -/

/-- Why `read_packet` failed. -/
inductive ReadError where
  | broken
  | ended
  | badAuth
deriving Repr, DecidableEq

def ReadError.toTransport : ReadError → TransportError
  | .broken => .io .packetRead
  | .ended => .io .peerClosed
  | .badAuth => .rejected .packetAuthFailed

/-- What the wait of the loop can return. -/
inductive Event where
  | packet (payload : Bytes)
  | readFailed (error : ReadError)
  | output (chunk : Option ChildChunk)
  | credit
  | deadline
  | wake
deriving DecidableEq

/-- The packet arm. -/
def onPacket (env : Env) (payload : Bytes) : DriverProg Unit := do
  update fun w => { w with session := w.session.receive payload }
  note (.received payload)
  let active ← look fun w => w.session.rekeyActive
  if active then do
    let step ← onSession (stepRekey env payload)
    match step with
    | .passToChannel => passToChannel env payload
    | .completed => drainDeferred env
    | .continued => pure ()
  else if payload.head? = some sshMsgKexinit then do
    let _step ← onSession (stepRekey env payload)
    pure ()
  else handleInbound env payload

/-- The output arm. -/
def onOutput (chunk : Option ChildChunk) : DriverProg Unit := do
  let d ← look World.driver
  match chunk with
  | some (.out kind data) =>
    if d.earlyClose then pure ()
    else do
      note (.output kind data.1)
      updateDriver fun d => { d with pendingOut := some (PendingOut.new kind data) }
  | some (.exited exit) =>
    updateDriver fun d => { d with
      exitStatus := if d.exitStatus.isNone then some exit.code else d.exitStatus
      exitSignal := if d.exitStatus.isNone then exit.signal else d.exitSignal
      state := if d.state = .running then .draining else d.state }
  | none =>
    updateDriver fun d => { d with
      childOutClosed := true
      child := d.child.map fun c : ChildIo => { c with outEnded := true } }

/-- The credit arm: a credit, or the end of the channel. -/
def onCredit : DriverProg Unit := do
  let d ← look World.driver
  match d.child.map ChildIo.consumed with
  | some (n :: rest) => do
    note (.credited n)
    updateDriver fun d => { d with
      creditPending := saturatingAdd u32Max d.creditPending n
      bytesReceived := saturatingAdd u64Max d.bytesReceived n
      child := d.child.map fun c : ChildIo => { c with consumed := rest } }
  | _ => updateDriver fun d => { d with consumedClosed := true }

/-- The event of the wait. -/
def onEvent (env : Env) : Event → DriverProg Unit
  | .packet payload => onPacket env payload
  | .readFailed error => fail error.toTransport
  | .output chunk => onOutput chunk
  | .credit => onCredit
  | .deadline => onSession (rekeyTimeout env)
  | .wake => pure ()

/-- The arm of the `select!` is armed and can resolve. -/
def World.enabled (w : World) : Event → Bool
  | .packet _ | .readFailed _ => true
  | .output chunk =>
    -- Once the output channel has ended it only repeats its end.
    w.driver.pendingOut.isNone && w.driver.state.mayEmitOutput && !w.session.rekeyActive &&
      w.driver.child.any fun c => !c.outEnded || chunk.isNone
  | .credit =>
    !w.driver.consumedClosed && w.driver.child.any fun c => !c.consumed.isEmpty || !c.pumpAlive
  | .deadline => w.session.rekeyActive
  | .wake => w.driver.state.mayRekey && !w.session.rekeyActive

/-! ### The stdin pump -/

/-- A step of `pump_stdin`, or of the input half of `pump_pty`. -/
inductive PumpStep where
  /-- The next chunk leaves the queue. -/
  | take
  /-- So many bytes of the chunk are written and credited. -/
  | write (n : ℕ)
  /-- The pump ends; what it still holds is lost. -/
  | stop
deriving Repr, DecidableEq

def ChildIo.pump (c : ChildIo) : PumpStep → Option ChildIo
  | .take =>
    match c.queue with
    | chunk :: queue =>
      if c.pumpAlive ∧ c.writing = [] then some { c with queue, writing := chunk } else none
    | [] => none
  | .write n =>
    if c.pumpAlive ∧ n ≤ c.writing.length then
      some { c with writing := c.writing.drop n, consumed := c.consumed ++ [n] }
    else none
  | .stop => if c.pumpAlive then some { c with pumpAlive := false, queue := [], writing := [] } else none

/-! ### The machine -/

/-- Where `drive` stands. -/
inductive Pc where
  | flush
  | handoff
  | settle
  | waiting
  | done (result : Except TransportError Unit)

/-- A configuration of the machine. -/
structure Config where
  world : World
  pc : Pc

/-- One input of the machine: the next phase, an event, or a pump step. -/
inductive Input where
  | phase
  | event (event : Event)
  | pump (step : PumpStep)
deriving DecidableEq

/-- The configuration a program leaves: `next` when it returns, the end of
`drive` when it fails. The driver is dropped there, which owes `exec.finished`. -/
def resume {α : Type} (p : DriverProg α) (w : World) (next : α → World → Config) : Config :=
  match p w with
  | (.ok a, w') => next a w'
  | (.error e, w') => ⟨w'.emitFinished, .done (.error e)⟩

/-- One step, if the input is possible. -/
def Config.step (env : Env) (c : Config) (input : Input) : Option Config :=
  match input, c.pc with
  | .phase, .flush => some (resume (flushPhase env) c.world fun _ w => ⟨w, .handoff⟩)
  | .phase, .handoff => some (resume handoffStdin c.world fun _ w => ⟨w, .settle⟩)
  | .phase, .settle =>
    some (resume (settlePhase env) c.world fun finished w =>
      ⟨w, if finished then .done (.ok ()) else .waiting⟩)
  | .event event, .waiting =>
    if c.world.enabled event then
      some (resume (onEvent env event) c.world fun _ w => ⟨w, .flush⟩)
    else none
  | .pump _, .done _ => none
  | .pump step, pc =>
    (c.world.driver.child.bind fun child => child.pump step).map fun child =>
      ⟨c.world.mapDriver fun d => { d with child := some child }, pc⟩
  | _, _ => none

/-! ### The start -/

/-- `MAX_AUTH_ATTEMPTS`. -/
def maxAuthAttempts : ℕ := 12

def sshMsgServiceAccept : UInt8 := 6
def sshMsgExtInfo : UInt8 := 7
def sshMsgUserauthFailure : UInt8 := 51
def sshMsgUserauthSuccess : UInt8 := 52
def sshMsgUserauthPkOk : UInt8 := 60

/-- The messages the server seals before `drive`. -/
def handshakeMessages : List UInt8 :=
  [sshMsgServiceAccept, sshMsgExtInfo, sshMsgUserauthFailure, sshMsgUserauthSuccess,
    sshMsgUserauthPkOk]

/-- What the handshake leaves to `serve`: the keys, the identity, and the packets
sealed since the first NEWKEYS (EXT_INFO, SERVICE_ACCEPT and a reply to each
authentication request). -/
structure Handshake where
  tx : PacketCipher
  rx : PacketCipher
  clientId : Bytes
  sessionId : Bytes
  ptyPermitted : Bool
  thresholds : RekeyThresholds
  now : ℕ
  seqRx : ℕ
  sent : List Bytes
  sent_le : sent.length ≤ 2 + maxAuthAttempts
  sent_msg : ∀ p ∈ sent, ∃ msg ∈ handshakeMessages, p.head? = some msg

/-- The packets of the handshake under the first transmit cipher. -/
def Handshake.frames (h : Handshake) : List Frame :=
  h.sent.mapIdx fun i payload => ⟨0, h.tx, i, payload⟩

/-- `serve`: the session and the driver at the first turn of the loop. -/
def Config.start (h : Handshake) : Config where
  world :=
    { session :=
        { seqTx := h.sent.length
          seqRx := h.seqRx
          tx := h.tx
          rx := h.rx
          txInstalls := 0
          rxInstalls := 0
          clientId := h.clientId
          sessionId := h.sessionId
          ptyPermitted := h.ptyPermitted
          rekey :=
            { bytesRx := 0, bytesTx := 0, lastKex := h.now, started := h.now
              initiator := .server, trigger := .bytes, thresholds := h.thresholds, phase := .idle }
          tick := 0
          log := h.frames.map .sealed }
      driver := Driver.new h.ptyPermitted }
  pc := .flush

/-- A run of `drive` from its start. -/
def Config.runs (env : Env) (h : Handshake) (inputs : List Input) : Option Config :=
  run (Config.step env) (Config.start h) inputs

end QuantumSsh.Channel
