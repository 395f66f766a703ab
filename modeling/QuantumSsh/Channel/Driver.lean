import QuantumSsh.Transport.Session

/-!
# The channel driver

The connection layer of `channel.rs`: one `session` channel running one child.
The child's side (`exec.rs`) is the queue of its stdin pump, the chunk the pump
is writing and the credits it has sent back.
-/

namespace QuantumSsh.Channel

open Wire Kex Machine Program Transport

/-! ### Constants -/

def sshMsgDisconnect : UInt8 := 1
def sshMsgIgnore : UInt8 := 2
def sshMsgUnimplemented : UInt8 := 3
def sshMsgDebug : UInt8 := 4
def sshMsgGlobalRequest : UInt8 := 80
def sshMsgRequestFailure : UInt8 := 82
def sshMsgChannelOpen : UInt8 := 90
def sshMsgChannelOpenConfirmation : UInt8 := 91
def sshMsgChannelOpenFailure : UInt8 := 92
def sshMsgChannelWindowAdjust : UInt8 := 93
def sshMsgChannelData : UInt8 := 94
def sshMsgChannelExtendedData : UInt8 := 95
def sshMsgChannelEof : UInt8 := 96
def sshMsgChannelClose : UInt8 := 97
def sshMsgChannelRequest : UInt8 := 98
def sshMsgChannelSuccess : UInt8 := 99
def sshMsgChannelFailure : UInt8 := 100

def sshOpenAdministrativelyProhibited : ℕ := 1
def sshOpenUnknownChannelType : ℕ := 3
def sshExtendedDataStderr : ℕ := 1

def initialWindow : ℕ := 2 * 1024 * 1024
def maxPacket : ℕ := 32 * 1024
def creditBatch : ℕ := 1024 * 1024
def localChannel : ℕ := 0
def exitSpawnFailed : ℤ := 127
def maxDeferred : ℕ := 64
def channelTypeBound : ℕ := 64
def requestTypeBound : ℕ := 64
def commandBound : ℕ := maxPacket
def subsystemBound : ℕ := 64
/-- `pty::TERM_BOUND` and `pty::MODES_BOUND`. -/
def termBound : ℕ := 64
def modesBound : ℕ := 1024
/-- `exec::CHUNK`. -/
def chunkBound : ℕ := 32 * 1024
/-- `exec::STDIN_QUEUE`. -/
def stdinQueue : ℕ := 8

/-! ### The child -/

/-- A chunk of child output, as the output pumps cut it. -/
def Chunk : Type := { data : Bytes // data ≠ [] ∧ data.length ≤ chunkBound }
deriving DecidableEq

/-- The signals with a name on the wire. -/
inductive ExitSignal where
  | abrt | alrm | fpe | hup | ill | int | kill | pipe | quit | segv | term | usr1 | usr2
deriving Repr, DecidableEq

/-- The name of a signal, without `SIG`. -/
def ExitSignal.name : ExitSignal → String
  | .abrt => "ABRT" | .alrm => "ALRM" | .fpe => "FPE" | .hup => "HUP" | .ill => "ILL"
  | .int => "INT" | .kill => "KILL" | .pipe => "PIPE" | .quit => "QUIT" | .segv => "SEGV"
  | .term => "TERM" | .usr1 => "USR1" | .usr2 => "USR2"

/-- `ChildExit`. -/
structure ChildExit where
  code : ℤ
  signal : Option (ExitSignal × Bool)
deriving Repr, DecidableEq

/-- `ChildChunk`. -/
inductive ChildChunk where
  | out (kind : Stream) (chunk : Chunk)
  | exited (exit : ChildExit)
deriving DecidableEq

/-- `ChildIo` with the far ends of its channels. -/
structure ChildIo where
  /-- `stdin_tx` is held. -/
  stdinOpen : Bool
  /-- The chunks in the stdin pump's queue. -/
  queue : List Bytes
  /-- What is left of the chunk the pump is writing. -/
  writing : Bytes
  /-- The stdin pump is running, so its ends of both channels are open. -/
  pumpAlive : Bool
  /-- The credits on their way to the driver. -/
  consumed : List ℕ
  /-- The output channel has reported its end. -/
  outEnded : Bool
  killRequested : Bool
  /-- A PTY's master is held for `window-change`. -/
  master : Bool
deriving Repr, DecidableEq

/-- A child just spawned. -/
def ChildIo.spawned (onPty : Bool) : ChildIo where
  stdinOpen := true
  queue := []
  writing := []
  pumpAlive := true
  consumed := []
  outEnded := false
  killRequested := false
  master := onPty

/-- `ChildIo::close_stdin`. -/
def ChildIo.closeStdin (c : ChildIo) : ChildIo := { c with stdinOpen := false }

/-- `ChildIo::discard_output`. -/
def ChildIo.discardOutput (c : ChildIo) : ChildIo := { c with master := false }

/-- `ChildIo::kill`. -/
def ChildIo.kill (c : ChildIo) : ChildIo := { c with killRequested := true }

/-- `ChildIo::try_send_stdin`: the child with the chunk taken, or `none` when the
chunk comes back. A chunk for a closed stdin is dropped. -/
def ChildIo.trySendStdin (c : ChildIo) (chunk : Bytes) : Option ChildIo :=
  if !c.stdinOpen then some c
  else if c.pumpAlive ∧ c.queue.length < stdinQueue then
    some { c with queue := c.queue ++ [chunk] }
  else none

/-! ### The driver's state -/

/-- `PendingOut`: an output chunk and how much of it was sent. -/
structure PendingOut where
  kind : Stream
  buf : Chunk
  off : ℕ
deriving DecidableEq

def PendingOut.new (kind : Stream) (buf : Chunk) : PendingOut := ⟨kind, buf, 0⟩

def PendingOut.remaining (p : PendingOut) : ℕ := p.buf.1.length - p.off

def PendingOut.isEmpty (p : PendingOut) : Bool := p.buf.1.length ≤ p.off

/-- The slice `PendingOut::take` returns. -/
def PendingOut.slice (p : PendingOut) (n : ℕ) : Bytes := (p.buf.1.drop p.off).take n

/-- What `PendingOut::take` leaves. -/
def PendingOut.advance (p : PendingOut) (n : ℕ) : PendingOut := { p with off := p.off + n }

/-- `ChannelState`. -/
inductive ChannelState where
  | beforeOpen
  | idle
  | running
  | draining
  | serverClosed
  | closed
deriving Repr, DecidableEq

def ChannelState.mayEmitOutput (s : ChannelState) : Bool := s = .running || s = .draining

/-- The states in which the server starts a re-key. -/
def ChannelState.mayRekey (s : ChannelState) : Bool :=
  s = .running || s = .idle || s = .draining

/-- The `request_type` audit field. -/
inductive RequestType where
  | exec
  | shell
  | subsystem
deriving Repr, DecidableEq

/-- `Driver`, less the identity fields that only the audit events carry. -/
structure Driver where
  /-- The `TERM` of a pending PTY. -/
  pty : Option Bytes
  ptyPermitted : Bool
  state : ChannelState
  peerChan : ℕ
  outWindow : ℕ
  outMaxPkt : ℕ
  inWindow : ℕ
  creditPending : ℕ
  pendingOut : Option PendingOut
  pendingStdin : Option Bytes
  preExecStdin : List Bytes
  clientEof : Bool
  earlyClose : Bool
  exitStatus : Option ℤ
  exitSignal : Option (ExitSignal × Bool)
  childOutClosed : Bool
  consumedClosed : Bool
  command : Option Bytes
  requestType : RequestType
  onPty : Bool
  bytesReceived : ℕ
  bytesSent : ℕ
  finishedEmitted : Bool
  deferred : List Bytes
  child : Option ChildIo
deriving DecidableEq

/-- `Driver::new`. -/
def Driver.new (ptyPermitted : Bool) : Driver where
  pty := none
  ptyPermitted
  state := .beforeOpen
  peerChan := 0
  outWindow := 0
  outMaxPkt := 0
  inWindow := 0
  creditPending := 0
  pendingOut := none
  pendingStdin := none
  preExecStdin := []
  clientEof := false
  earlyClose := false
  exitStatus := none
  exitSignal := none
  childOutClosed := false
  consumedClosed := false
  command := none
  requestType := .exec
  onPty := false
  bytesReceived := 0
  bytesSent := 0
  finishedEmitted := false
  deferred := []
  child := none

/-- The connection: the transport below and the driver above. -/
structure World where
  session : Session
  driver : Driver
deriving DecidableEq

/-- A program over the connection. -/
abbrev DriverProg := Prog World TransportError

/-- A program of the transport. -/
def onSession {α : Type} (p : SessionProg α) : DriverProg α :=
  zoom World.session (fun w s => { w with session := s }) p

/-- An entry of the log. -/
def World.observe (w : World) (obs : Obs) : World := { w with session := w.session.observe obs }

/-- A change of the driver's own state. -/
def World.mapDriver (w : World) (f : Driver → Driver) : World := { w with driver := f w.driver }

def updateDriver (f : Driver → Driver) : DriverProg Unit := update fun w => w.mapDriver f

def note (obs : Obs) : DriverProg Unit := update fun w => w.observe obs

def write (env : Env) (payload : Bytes) : DriverProg Unit := onSession (writePacket env payload)

def refuse {α : Type} (env : Env) (reason : Reason) : DriverProg α :=
  onSession (protocolDisconnect env reason)

/-! ### Frames -/

/-- `build_channel_msg`. -/
def buildChannelMsg (msg : UInt8) (peerChan : ℕ) : Bytes := [msg] ++ putUint32 peerChan

def buildDataFrame (peerChan : ℕ) (kind : Stream) (data : Bytes) : Bytes :=
  match kind with
  | .stdout => [sshMsgChannelData] ++ putUint32 peerChan ++ putString data
  | .stderr => [sshMsgChannelExtendedData] ++ putUint32 peerChan ++
      putUint32 sshExtendedDataStderr ++ putString data

def buildOpenConfirmation (peerChan : ℕ) : Bytes :=
  [sshMsgChannelOpenConfirmation] ++ putUint32 peerChan ++ putUint32 localChannel ++
    putUint32 initialWindow ++ putUint32 maxPacket

def buildOpenFailure (peerChan code : ℕ) (desc : String) : Bytes :=
  [sshMsgChannelOpenFailure] ++ putUint32 peerChan ++ putUint32 code ++
    putString (utf8 desc) ++ putString []

def buildWindowAdjust (peerChan add : ℕ) : Bytes :=
  [sshMsgChannelWindowAdjust] ++ putUint32 peerChan ++ putUint32 add

def buildExitStatus (peerChan status : ℕ) : Bytes :=
  [sshMsgChannelRequest] ++ putUint32 peerChan ++ putString (utf8 "exit-status") ++
    putBoolean false ++ putUint32 status

def buildExitSignal (peerChan : ℕ) (name : String) (coreDumped : Bool) : Bytes :=
  [sshMsgChannelRequest] ++ putUint32 peerChan ++ putString (utf8 "exit-signal") ++
    putBoolean false ++ putString (utf8 name) ++ putBoolean coreDumped ++
    putString [] ++ putString []

def buildEof (peerChan : ℕ) : Bytes := buildChannelMsg sshMsgChannelEof peerChan

def buildClose (peerChan : ℕ) : Bytes := buildChannelMsg sshMsgChannelClose peerChan

/-! ### The loop's phases -/

/-- The loop of `flush_output`; `fuel` bounds its rounds. -/
def flushLoop (env : Env) : (fuel : ℕ) → DriverProg Unit
  | 0 => pure ()
  | fuel + 1 => do
    let d ← look World.driver
    if !d.state.mayEmitOutput then pure ()
    else match d.pendingOut with
    | none => pure ()
    | some p =>
      if d.outWindow = 0 then pure ()
      else do
        let cap := min (min d.outWindow d.outMaxPkt) maxPacket
        let n := min p.remaining cap
        if n = 0 then pure ()
        else do
          updateDriver fun d => { d with pendingOut := some (p.advance n) }
          write env (buildDataFrame d.peerChan p.kind (p.slice n))
          updateDriver fun d => { d with
            outWindow := d.outWindow - n
            bytesSent := saturatingAdd u64Max d.bytesSent n
            pendingOut := if (p.advance n).isEmpty then none else d.pendingOut }
          flushLoop env fuel

/-- `flush_output`. A round sends at least one byte of the pending chunk. -/
def flushOutput (env : Env) : DriverProg Unit := do
  let pending ← look fun w => w.driver.pendingOut
  flushLoop env ((pending.map PendingOut.remaining).getD 0)

/-- The pending slot, refilled from the pre-exec buffer, and what that leaves. -/
def Driver.refill (d : Driver) : Option Bytes × List Bytes :=
  match d.pendingStdin with
  | some chunk => (some chunk, d.preExecStdin)
  | none => (d.preExecStdin.head?, d.preExecStdin.tail)

/-- `handoff_stdin`. -/
def handoffStdin : DriverProg Unit := do
  let d ← look World.driver
  match d.child with
  | none => pure ()
  | some child =>
    let preExec := d.refill.2
    match d.refill.1 with
    | some chunk =>
      match child.trySendStdin chunk with
      | none => updateDriver fun d => { d with pendingStdin := some chunk, preExecStdin := preExec }
      | some child' => do
        updateDriver fun d => { d with
          pendingStdin := none, preExecStdin := preExec, child := some child' }
        if child.stdinOpen then note (.queued chunk)
        closeOnEof
    | none => do
      updateDriver fun d => { d with pendingStdin := none, preExecStdin := preExec }
      closeOnEof
where
  /-- All buffered stdin is delivered: honour a pending client EOF. -/
  closeOnEof : DriverProg Unit := do
    let d ← look World.driver
    match d.child with
    | none => pure ()
    | some child =>
      if d.clientEof ∧ d.pendingStdin = none ∧ d.preExecStdin = [] then do
        updateDriver fun d => { d with child := some child.closeStdin }
        if child.stdinOpen then note .stdinEof

/-- `replenish_window`. -/
def replenishWindow (env : Env) : DriverProg Unit := do
  let d ← look World.driver
  if creditBatch ≤ d.creditPending then do
    write env (buildWindowAdjust d.peerChan d.creditPending)
    updateDriver fun d' => { d' with
      inWindow := saturatingAdd u32Max d'.inWindow d.creditPending
      creditPending := 0 }

/-- `ready_to_close`. -/
def Driver.readyToClose (d : Driver) : Bool :=
  d.state = .draining && d.childOutClosed && d.pendingOut.isNone

/-- The exit report of `send_terminal`. -/
def Driver.exitReport (d : Driver) : Option Bytes :=
  match d.exitSignal, d.exitStatus with
  | some (signal, coreDumped), _ => some (buildExitSignal d.peerChan signal.name coreDumped)
  | none, some code => some (buildExitStatus d.peerChan (code % 2 ^ 32).toNat)
  | none, none => none

/-- `send_terminal`. -/
def sendTerminal (env : Env) : DriverProg Unit := do
  let d ← look World.driver
  if d.earlyClose then do
    write env (buildClose d.peerChan)
    updateDriver fun d => { d with state := .closed }
  else do
    match d.exitReport with
    | some report => write env report
    | none => pure ()
    write env (buildEof d.peerChan)
    write env (buildClose d.peerChan)
    updateDriver fun d => { d with state := .serverClosed }

/-- `emit_finished`. -/
def World.emitFinished (w : World) : World :=
  if w.driver.command.isSome ∧ !w.driver.finishedEmitted then
    let credits := (w.driver.child.map ChildIo.consumed).getD []
    let received := credits.foldl (saturatingAdd u64Max) w.driver.bytesReceived
    ({ w with driver := { w.driver with
        finishedEmitted := true
        bytesReceived := received
        child := w.driver.child.map fun c : ChildIo => { c with consumed := [] } } }).observe
      (.execFinished received w.driver.bytesSent)
  else w

end QuantumSsh.Channel
