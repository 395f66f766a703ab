import QuantumSsh.Channel.Driver

/-!
# Inbound messages

`handle_inbound` and its handlers, and the deferral of messages that arrive
inside a re-key.
-/

namespace QuantumSsh.Channel

open Wire Kex Machine Program Transport

/-! ### Terminal requests -/

/-- `Size`. -/
structure Size where
  cols : ℕ
  rows : ℕ
  widthPx : ℕ
  heightPx : ℕ
deriving Repr, DecidableEq

/-- `valid_term`. -/
def validTerm (term : Bytes) : Bool :=
  term.all fun b => (0x30 ≤ b && b ≤ 0x39) || (0x41 ≤ b && b ≤ 0x5a) || (0x61 ≤ b && b ≤ 0x7a) ||
    b = 0x2e || b = 0x5f || b = 0x2b || b = 0x2d

/-- `Modes::parse` on the values collected so far: `none` for a truncated mode. -/
def parseModes (values : UInt8 → Option ℕ) : Bytes → Option (UInt8 → Option ℕ)
  | [] => some values
  | opcode :: tail =>
    if opcode = 0 ∨ 160 ≤ opcode then some values
    else match tail with
    | a :: b :: c :: d :: rest =>
      parseModes (fun o => if o = opcode then some (beValue [a, b, c, d]) else values o) rest
    | _ => none

/-! ### The fields of the messages -/

def readGlobalRequest : Reader Bool := do
  let _name ← Reader.string requestTypeBound
  Reader.boolean

def readChannelOpen : Reader (Bytes × ℕ × ℕ × ℕ) := do
  let ctype ← Reader.string channelTypeBound
  let sender ← Reader.uint32
  let window ← Reader.uint32
  let maxPkt ← Reader.uint32
  return (ctype, sender, window, maxPkt)

def readChannelRequest : Reader (ℕ × Bytes × Bool) := do
  let recipient ← Reader.uint32
  let rtype ← Reader.string requestTypeBound
  let wantReply ← Reader.boolean
  return (recipient, rtype, wantReply)

def readSize : Reader Size := do
  let cols ← Reader.uint32
  let rows ← Reader.uint32
  let widthPx ← Reader.uint32
  let heightPx ← Reader.uint32
  return { cols, rows, widthPx, heightPx }

def readPtyReq : Reader (Bytes × Size × Bytes) := do
  let term ← Reader.string termBound
  let size ← readSize
  let blob ← Reader.string modesBound
  return (term, size, blob)

def readChannelData : Reader (ℕ × Bytes) := do
  let recipient ← Reader.uint32
  let data ← Reader.string maxPacket
  return (recipient, data)

def readWindowAdjust : Reader (ℕ × ℕ) := do
  let recipient ← Reader.uint32
  let add ← Reader.uint32
  return (recipient, add)

/-! ### The handlers -/

/-- `on_channel_open`. -/
def onChannelOpen (env : Env) (r : Bytes) : DriverProg Unit := do
  let .ok ((ctype, sender, window, maxPkt), _) := readChannelOpen.run r
    | refuse env .malformedChannelOpen
  let state ← look fun w => w.driver.state
  if state ≠ .beforeOpen then
    write env (buildOpenFailure sender sshOpenAdministrativelyProhibited "one channel only")
  else if ctype ≠ utf8 "session" then
    write env (buildOpenFailure sender sshOpenUnknownChannelType "unknown channel type")
  else if maxPkt = 0 then
    refuse env .zeroMaxPacketSize
  else do
    updateDriver fun d => { d with
      peerChan := sender
      outWindow := window
      outMaxPkt := maxPkt
      inWindow := initialWindow
      state := .idle }
    write env (buildOpenConfirmation sender)

/-- `reply`. -/
def reply (env : Env) (wantReply success : Bool) : DriverProg Unit := do
  let peerChan ← look fun w => w.driver.peerChan
  if wantReply then
    write env (buildChannelMsg (if success then sshMsgChannelSuccess else sshMsgChannelFailure)
      peerChan)

/-- `Start`. -/
inductive Start where
  | exec (command : Bytes)
  | shell
  | sftp
deriving Repr, DecidableEq

def Start.command : Start → Bytes
  | .exec command => command
  | .shell => []
  | .sftp => utf8 "sftp"

def Start.requestType : Start → RequestType
  | .exec _ => .exec
  | .shell => .shell
  | .sftp => .subsystem

/-- `start`. -/
def start (env : Env) (what : Start) (wantReply : Bool) : DriverProg Unit := do
  let pending ← look fun w => w.driver.pty
  updateDriver fun d => { d with
    pty := none
    command := some what.command
    requestType := what.requestType
    onPty := pending.isSome }
  note .execStarted
  reply env wantReply true
  let spawned ← onSession (ask env.spawnOk)
  if spawned then
    updateDriver fun d => { d with
      child := some (ChildIo.spawned pending.isSome)
      state := .running }
  else
    updateDriver fun d => { d with
      exitStatus := some exitSpawnFailed
      childOutClosed := true
      consumedClosed := true
      state := .draining }

/-- `on_pty_req`. -/
def onPtyReq (env : Env) (r : Bytes) (wantReply : Bool) : DriverProg Unit := do
  let .ok ((term, _size, blob), _) := readPtyReq.run r | refuse env .malformedPtyReq
  let some _modes := parseModes (fun _ => none) blob | refuse env .truncatedTerminalMode
  let d ← look World.driver
  let allowed := d.ptyPermitted && d.state = .idle && d.pty.isNone && env.helper && validTerm term
  if allowed then do
    let granted ← onSession (ask env.allocateOk)
    if granted then updateDriver fun d => { d with pty := some term }
    reply env wantReply granted
  else reply env wantReply false

/-- `on_subsystem`. -/
def onSubsystem (env : Env) (r : Bytes) (wantReply : Bool) : DriverProg Unit := do
  let .ok (name, _) := (Reader.string subsystemBound).run r | refuse env .malformedSubsystem
  let d ← look World.driver
  if name = utf8 "sftp" ∧ d.state = .idle ∧ d.pty = none ∧ env.helper then
    start env .sftp wantReply
  else reply env wantReply false

/-- `on_window_change`. -/
def onWindowChange (env : Env) (r : Bytes) (wantReply : Bool) : DriverProg Unit := do
  let .ok (_size, _) := readSize.run r | refuse env .malformedWindowChange
  let d ← look World.driver
  let resized ← onSession (ask env.resizeOk)
  let applied := match d.pty, d.child with
    | some _, _ => resized
    | none, some child => d.onPty && child.master && resized
    | none, none => false
  reply env wantReply applied

/-- `on_channel_request`. -/
def onChannelRequest (env : Env) (r : Bytes) : DriverProg Unit := do
  let .ok ((recipient, rtype, wantReply), r) := readChannelRequest.run r
    | refuse env .malformedChannelRequest
  let state ← look fun w => w.driver.state
  if recipient ≠ localChannel then refuse env .unknownChannel
  else if rtype = utf8 "exec" ∧ state = .idle then do
    let .ok (command, _) := (Reader.string commandBound).run r | refuse env .malformedExecRequest
    if !isUtf8 command then refuse env .nonUtf8Command
    else start env (.exec command) wantReply
  else if rtype = utf8 "shell" ∧ state = .idle then start env .shell wantReply
  else if rtype = utf8 "subsystem" then onSubsystem env r wantReply
  else if rtype = utf8 "pty-req" then onPtyReq env r wantReply
  else if rtype = utf8 "window-change" then onWindowChange env r wantReply
  else reply env wantReply false

/-- `on_channel_data`. -/
def onChannelData (env : Env) (r : Bytes) : DriverProg Unit := do
  let .ok ((recipient, data), _) := readChannelData.run r | refuse env .malformedChannelData
  let d ← look World.driver
  if recipient ≠ localChannel then refuse env .unknownChannel
  else if d.state = .serverClosed then pure ()
  else if d.clientEof then refuse env .dataAfterEof
  else if d.inWindow < data.length then refuse env .inboundWindowExceeded
  else do
    note (.accepted data)
    updateDriver fun d => { d with inWindow := d.inWindow - data.length }
    if d.state = .idle then
      updateDriver fun d => { d with preExecStdin := d.preExecStdin ++ [data] }
    else if d.child.isSome then
      updateDriver fun d => { d with pendingStdin := some (d.pendingStdin.getD [] ++ data) }

/-- `on_window_adjust`. -/
def onWindowAdjust (env : Env) (r : Bytes) : DriverProg Unit := do
  let .ok ((recipient, add), _) := readWindowAdjust.run r | refuse env .malformedWindowAdjust
  if recipient ≠ localChannel then refuse env .unknownChannel
  else do
    updateDriver fun d => { d with outWindow := d.outWindow + add }
    let d ← look World.driver
    if u32Max < d.outWindow then refuse env .windowOverflow

/-- `on_channel_eof`. -/
def onChannelEof (env : Env) (r : Bytes) : DriverProg Unit := do
  let .ok (recipient, _) := Reader.uint32.run r | refuse env .malformedChannelEof
  if recipient ≠ localChannel then refuse env .unknownChannel
  else updateDriver fun d => { d with clientEof := true }

/-- `on_channel_close`. -/
def onChannelClose (env : Env) (r : Bytes) : DriverProg Unit := do
  let .ok (recipient, _) := Reader.uint32.run r | refuse env .malformedChannelClose
  let state ← look fun w => w.driver.state
  if recipient ≠ localChannel then refuse env .unknownChannel
  else if state = .serverClosed then updateDriver fun d => { d with state := .closed }
  else updateDriver fun d => { d with
    earlyClose := true
    pendingOut := none
    child := d.child.map fun child => child.closeStdin.discardOutput.kill
    childOutClosed := if d.child.isSome then d.childOutClosed else true
    state := .draining }

/-- The messages about the channel itself. -/
def isChannelMsg (msg : UInt8) : Bool :=
  msg = sshMsgChannelRequest || msg = sshMsgChannelData || msg = sshMsgChannelWindowAdjust ||
    msg = sshMsgChannelEof || msg = sshMsgChannelClose

/-- The dispatch of `handle_inbound` on the message number. -/
def dispatch (env : Env) (msg : UInt8) (r : Bytes) : DriverProg Unit := do
  let state ← look fun w => w.driver.state
  if msg = sshMsgChannelOpen then onChannelOpen env r
  else if isChannelMsg msg ∧ state = .beforeOpen then refuse env .channelMessageBeforeOpen
  else if msg = sshMsgChannelRequest then onChannelRequest env r
  else if msg = sshMsgChannelData then onChannelData env r
  else if msg = sshMsgChannelWindowAdjust then onWindowAdjust env r
  else if msg = sshMsgChannelEof then onChannelEof env r
  else if msg = sshMsgChannelClose then onChannelClose env r
  else if msg = sshMsgGlobalRequest then do
    let .ok (wantReply, _) := readGlobalRequest.run r | refuse env .malformedGlobalRequest
    if wantReply then write env [sshMsgRequestFailure]
  else if msg = sshMsgIgnore ∨ msg = sshMsgUnimplemented ∨ msg = sshMsgDebug then pure ()
  else if msg = sshMsgDisconnect then fail (.rejected .peerDisconnected)
  else if msg = sshMsgChannelExtendedData then refuse env .inboundExtendedData
  else refuse env .unexpectedChannelMessage

/-- `handle_inbound`. -/
def handleInbound (env : Env) (payload : Bytes) : DriverProg Unit := do
  note (.handled payload)
  match payload with
  | [] => refuse env .emptyPacket
  | msg :: r => dispatch env msg r

/-- The message is handled at once even inside a re-key: no reply can follow. -/
def isInline (payload : Bytes) : Bool :=
  payload.head? = some sshMsgChannelData || payload.head? = some sshMsgChannelWindowAdjust ||
    payload.head? = some sshMsgChannelEof

/-- `pass_to_channel`. -/
def passToChannel (env : Env) (payload : Bytes) : DriverProg Unit := do
  if isInline payload then handleInbound env payload
  else do
    let deferred ← look fun w => w.driver.deferred
    if maxDeferred ≤ deferred.length then refuse env .tooManyDeferred
    else updateDriver fun d => { d with deferred := d.deferred ++ [payload] }

/-- `drain_deferred`. -/
def drainDeferred (env : Env) : DriverProg Unit := do
  let deferred ← look fun w => w.driver.deferred
  updateDriver fun d => { d with deferred := [] }
  forEach (handleInbound env) deferred

end QuantumSsh.Channel
