import QuantumSsh.Lib.Lists
import QuantumSsh.Lib.Machine
import QuantumSsh.Lib.Program
import QuantumSsh.Kex

/-!
# The authenticated session

The `Session` stage of `transport.rs`: sealed packets out, opened packets in,
and the re-key sub-state machine. What the operating system and the random
source answer is read from an environment, one answer per tick. The state also
keeps a log of what happened on the connection, which no function reads.
-/

namespace QuantumSsh.Transport

open Wire Kex Machine Program

/-! ### The environment -/

/-- The answers of everything outside the server, by tick. -/
structure Env where
  crypto : Crypto
  /-- `Instant::now()`. -/
  now : ℕ → ℕ
  /-- `PacketCipher::seal` succeeds. -/
  sealOk : ℕ → Bool
  /-- `write_all` succeeds. -/
  writeOk : ℕ → Bool
  /-- `getrandom::fill` of so many bytes. -/
  random : (tick length : ℕ) → Option Bytes
  hostKeyBlob : Bytes
  /-- `HostKey::sign`. -/
  sign : (tick : ℕ) → (message : Bytes) → Option Bytes
  /-- A helper executable is configured. -/
  helper : Bool
  /-- The child process starts. -/
  spawnOk : ℕ → Bool
  /-- `pty::allocate` succeeds. -/
  allocateOk : ℕ → Bool
  /-- The `window-change` ioctls succeed. -/
  resizeOk : ℕ → Bool

/-! ### Ciphers -/

def chacha20Poly1305 : Bytes := utf8 "chacha20-poly1305@openssh.com"
def aes256Gcm : Bytes := utf8 "aes256-gcm@openssh.com"

/-- One direction's cipher: its name and key material. -/
structure PacketCipher where
  name : Bytes
  key : Bytes
  iv : Bytes
deriving Repr, DecidableEq

/-- `PacketCipher::key_len`. -/
def PacketCipher.keyLen (name : Bytes) : ℕ := if name = chacha20Poly1305 then 64 else 32

/-- `PacketCipher::iv_len`. -/
def PacketCipher.ivLen (name : Bytes) : ℕ := if name = chacha20Poly1305 then 0 else 12

/-- `PacketCipher::new`. -/
def PacketCipher.new (name key iv : Bytes) : Option PacketCipher :=
  if key.length ≠ keyLen name ∨ iv.length ≠ ivLen name then none
  else if name = chacha20Poly1305 ∨ name = aes256Gcm then some ⟨name, key, iv⟩
  else none

/-- A packet under a cipher. `install` numbers the installs of that direction's
cipher, so that two installs are told apart even with equal keys. -/
structure Frame where
  install : ℕ
  cipher : PacketCipher
  seq : ℕ
  payload : Bytes
deriving Repr, DecidableEq

/-! ### The log -/

/-- A child stream. -/
inductive Stream where
  | stdout
  | stderr
deriving Repr, DecidableEq

/-- What the log records, in the order it happens. -/
inductive Obs where
  /-- A packet was sealed for the stream. -/
  | sealed (frame : Frame)
  /-- `read_packet` returned a payload. -/
  | received (payload : Bytes)
  /-- `handle_inbound` was entered with a payload. -/
  | handled (payload : Bytes)
  /-- The peer's NEWKEYS was accepted. -/
  | rekeyed
  /-- Channel data was charged to the inbound window. -/
  | accepted (data : Bytes)
  /-- A chunk entered the stdin pump's queue. -/
  | queued (chunk : Bytes)
  /-- The child's stdin was closed for the client's EOF. -/
  | stdinEof
  /-- A chunk of child output was taken up for sending. -/
  | output (kind : Stream) (data : Bytes)
  /-- A stdin credit reached the driver. -/
  | credited (n : ℕ)
  | execStarted
  | execFinished (bytesReceived bytesSent : ℕ)
deriving Repr, DecidableEq

/-! ### The session state -/

/-- `RekeyThresholds`; durations in nanoseconds. -/
structure RekeyThresholds where
  maxBytes : ℕ
  maxInterval : ℕ
  maxPackets : ℕ
  completionDeadline : ℕ
deriving Repr, DecidableEq

/-- `RekeyThresholds::bsi_defaults`. -/
def RekeyThresholds.bsiDefaults (handshakeBudget : ℕ) : RekeyThresholds where
  maxBytes := 1024 * 1024 * 1024
  maxInterval := 3600 * 1000000000
  maxPackets := 2 ^ 31
  completionDeadline := handshakeBudget

/-- `RekeyPhase`. -/
inductive RekeyPhase where
  | idle
  | sentKexInit (iS : Bytes)
  | awaitHybridInit (iC iS : Bytes) (negotiated : Negotiated) (skipGuessed : Bool)
  | awaitNewKeys (newRx : PacketCipher)
deriving Repr, DecidableEq

/-- Who started a re-key. -/
inductive Initiator where
  | server
  | peer
deriving Repr, DecidableEq

/-- What triggered a re-key. -/
inductive Trigger where
  | bytes
  | time
  | packets
  | peer
deriving Repr, DecidableEq

/-- `RekeyState`. -/
structure RekeyState where
  bytesRx : ℕ
  bytesTx : ℕ
  lastKex : ℕ
  started : ℕ
  initiator : Initiator
  trigger : Trigger
  thresholds : RekeyThresholds
  phase : RekeyPhase
deriving Repr, DecidableEq

/-- `Expect<S, Session>`, with the tick and the log. -/
structure Session where
  seqTx : ℕ
  seqRx : ℕ
  tx : PacketCipher
  rx : PacketCipher
  /-- How often a transmit, and a receive, cipher was installed. -/
  txInstalls : ℕ
  rxInstalls : ℕ
  clientId : Bytes
  sessionId : Bytes
  ptyPermitted : Bool
  rekey : RekeyState
  tick : ℕ
  log : List Obs
deriving Repr, DecidableEq

/-- What failed below the protocol. -/
inductive IoFailure where
  | kexinitBuild | packetSeal | packetWrite | packetRead | peerClosed | cipherInstall
deriving Repr, DecidableEq

/-- `TransportError`. -/
inductive TransportError where
  | io (failure : IoFailure)
  | rejected (reason : Reason)
deriving Repr, DecidableEq

/-- A program over the session. -/
abbrev SessionProg := Prog Session TransportError

/-- An entry of the log. -/
def Session.observe (s : Session) (obs : Obs) : Session := { s with log := s.log ++ [obs] }

/-- A new phase of the re-key. -/
def Session.setPhase (s : Session) (phase : RekeyPhase) : Session :=
  { s with rekey := { s.rekey with phase } }

/-- Takes one answer of the environment. -/
def ask {α : Type} (f : ℕ → α) : SessionProg α := do
  let tick ← look Session.tick
  update fun s => { s with tick := s.tick + 1 }
  return f tick

/-! ### Packets -/

/-- `write_sealed`. -/
def writeSealed (env : Env) (payload : Bytes) : SessionProg Unit := do
  let seqnr ← look Session.seqTx
  let (sealOk, writeOk) ← ask fun tick => (env.sealOk tick, env.writeOk tick)
  if !sealOk then fail (.io .packetSeal)
  update fun s => s.observe (.sealed ⟨s.txInstalls, s.tx, seqnr, payload⟩)
  if !writeOk then fail (.io .packetWrite)
  update fun s => { s with seqTx := wrappingAdd 32 seqnr 1 }

/-- `write_packet`. -/
def writePacket (env : Env) (payload : Bytes) : SessionProg Unit := do
  update fun s => { s with rekey := { s.rekey with
    bytesTx := saturatingAdd u64Max s.rekey.bytesTx payload.length } }
  writeSealed env payload

/-- The accounting of `read_packet` once a frame was opened. -/
def Session.receive (s : Session) (payload : Bytes) : Session :=
  { s with
    seqRx := wrappingAdd 32 s.seqRx 1
    rekey := { s.rekey with bytesRx := saturatingAdd u64Max s.rekey.bytesRx payload.length } }

/-- `disconnect_payload`. -/
def disconnectPayload (rejection : Rejection) : Bytes :=
  [sshMsgDisconnect] ++ putUint32 rejection.disconnectCode ++
    putString (utf8 rejection.reason.text) ++ putString []

/-- Sends the DISCONNECT, if it can, and ends the connection. -/
def disconnect {α : Type} (env : Env) (rejection : Rejection) : SessionProg α := do
  attempt (writeSealed env (disconnectPayload rejection))
  fail (.rejected rejection.reason)

/-- `protocol_disconnect`. -/
def protocolDisconnect {α : Type} (env : Env) (reason : Reason) : SessionProg α :=
  disconnect env ⟨reason, disconnectProtocolError⟩

/-- `rekey_reject`. -/
def rekeyReject {α : Type} (env : Env) (rejection : Rejection) : SessionProg α :=
  disconnect env rejection

/-- `rekey_timeout`. -/
def rekeyTimeout {α : Type} (env : Env) : SessionProg α :=
  rekeyReject env ⟨.rekeyTimeout, disconnectKeyExchangeFailed⟩

/-! ### Re-keying -/

/-- `rekey_active`. -/
def Session.rekeyActive (s : Session) : Bool := s.rekey.phase ≠ .idle

/-- The thresholds of the free function `rekey_due`. -/
def thresholdsReached (bytesRx bytesTx packetsRx packetsTx elapsed : ℕ) (t : RekeyThresholds) :
    Bool :=
  t.maxBytes ≤ bytesRx || t.maxBytes ≤ bytesTx || t.maxPackets ≤ packetsRx ||
    t.maxPackets ≤ packetsTx || t.maxInterval ≤ elapsed

/-- `rekey_due` at the instant `now`. -/
def Session.rekeyDue (s : Session) (now : ℕ) : Bool :=
  s.rekey.phase = .idle && thresholdsReached s.rekey.bytesRx s.rekey.bytesTx s.seqRx s.seqTx
    (now - s.rekey.lastKex) s.rekey.thresholds

/-- `begin_rekey`. -/
def beginRekey (env : Env) : SessionProg Unit := do
  let cookie ← ask fun tick => env.random tick 16
  let some cookie := cookie | fail (.io .kexinitBuild)
  let iS := buildRekeyKexinit cookie
  writePacket env iS
  let started ← ask env.now
  let now ← ask env.now
  update fun s => { s with rekey := { s.rekey with
    started
    initiator := .server
    trigger :=
      if s.rekey.thresholds.maxInterval ≤ now - s.rekey.lastKex then .time
      else if s.rekey.thresholds.maxBytes ≤ s.rekey.bytesRx ∨
          s.rekey.thresholds.maxBytes ≤ s.rekey.bytesTx then .bytes
      else .packets
    phase := .sentKexInit iS } }

/-- `RekeyStep`. -/
inductive RekeyStep where
  | continued
  | completed
  | passToChannel
deriving Repr, DecidableEq

/-- `negotiate_rekey`. -/
def negotiateRekey (env : Env) (payload : Bytes) : SessionProg Negotiated :=
  match parseKexinit payload >>= fun peer => negotiate peer false with
  | .ok negotiated => pure negotiated
  | .error (.rejected rejection) => rekeyReject env rejection
  | .error (.wire _) => protocolDisconnect env .malformedRekeyKexinit

/-- `derive_cipher_pair`: the receive and the transmit cipher. -/
def deriveCipherPair (c : Crypto) (k h sessionId c2s s2c : Bytes) :
    Option (PacketCipher × PacketCipher) := do
  let derive := fun letter len => deriveKey c k h letter sessionId len
  let rx ← PacketCipher.new c2s (derive 'C' (PacketCipher.keyLen c2s))
    (derive 'A' (PacketCipher.ivLen c2s))
  let tx ← PacketCipher.new s2c (derive 'D' (PacketCipher.keyLen s2c))
    (derive 'B' (PacketCipher.ivLen s2c))
  return (rx, tx)

theorem PacketCipher.new_deriveKey (c : Crypto) (k h sessionId : Bytes) (letter letter' : Char)
    {name : Bytes} (hname : name = chacha20Poly1305 ∨ name = aes256Gcm) :
    ∃ cipher, PacketCipher.new name (deriveKey c k h letter sessionId (keyLen name))
      (deriveKey c k h letter' sessionId (ivLen name)) = some cipher := by
  rw [PacketCipher.new, if_neg (by simp [length_deriveKey]), if_pos hname]
  exact ⟨_, rfl⟩

/-- Keys for known ciphers can be derived from every exchange. -/
theorem exists_deriveCipherPair (c : Crypto) (k h sessionId : Bytes) {c2s s2c : Bytes}
    (hc2s : c2s = chacha20Poly1305 ∨ c2s = aes256Gcm)
    (hs2c : s2c = chacha20Poly1305 ∨ s2c = aes256Gcm) :
    ∃ rx tx, deriveCipherPair c k h sessionId c2s s2c = some (rx, tx) := by
  obtain ⟨rx, hrx⟩ := PacketCipher.new_deriveKey c k h sessionId 'C' 'A' hc2s
  obtain ⟨tx, htx⟩ := PacketCipher.new_deriveKey c k h sessionId 'D' 'B' hs2c
  refine ⟨rx, tx, ?_⟩
  simp only [deriveCipherPair, hrx, htx]
  rfl

/-- `SERVER_ID`. -/
def serverId : Bytes := utf8 "SSH-2.0-quantumssh_0.2.0"

/-- The `client_init` field of a KEX_HYBRID_INIT. -/
def readHybridInit : Reader Bytes := do
  let _msg ← Reader.byte
  let clientInit ← Reader.string clientInitLen
  Reader.finish
  return clientInit

/-- `complete_rekey_reply`. -/
def completeRekeyReply (env : Env) (initPayload iC iS : Bytes) (negotiated : Negotiated) :
    SessionProg RekeyStep := do
  let .ok (clientInit, _) := readHybridInit.run initPayload
    | protocolDisconnect env .malformedHybridInit
  let m ← ask fun tick => env.random tick 32
  let secret ← ask fun tick => env.random tick 32
  match hybridExchange env.crypto clientInit m secret with
  | .error (.rejected rejection) => rekeyReject env rejection
  | .error (.wire _) => protocolDisconnect env .malformedHybridInit
  | .ok outcome =>
    let s ← look id
    let h := exchangeHash env.crypto
      { clientId := s.clientId, serverId, clientKexinit := iC, serverKexinit := iS,
        hostKeyBlob := env.hostKeyBlob, clientInit, serverReply := outcome.serverReply,
        sharedSecret := outcome.sharedSecret }
    let signature ← ask fun tick => env.sign tick h
    let some signature := signature | rekeyReject env ⟨.rngFailure, disconnectKeyExchangeFailed⟩
    let some (newRx, newTx) := deriveCipherPair env.crypto outcome.sharedSecret h s.sessionId
        negotiated.cipherC2s negotiated.cipherS2c
      | fail (.io .cipherInstall)
    writePacket env ([sshMsgKexHybridReply] ++ putString env.hostKeyBlob ++
      putString outcome.serverReply ++ putString signature)
    writePacket env [sshMsgNewkeys]
    update fun s => { s with
      tx := newTx
      txInstalls := s.txInstalls + 1
      seqTx := 0
      rekey := { s.rekey with phase := .awaitNewKeys newRx } }
    return .continued

/-- `step_rekey`. -/
def stepRekey (env : Env) (payload : Bytes) : SessionProg RekeyStep := do
  let msg := payload.head?.getD 0
  let phase ← look fun s => s.rekey.phase
  update fun s => s.setPhase .idle
  match phase with
  | .idle =>
    if msg ≠ sshMsgKexinit then protocolDisconnect env .unexpectedDuringRekey
    else do
      let now ← ask env.now
      update fun s => { s with rekey := { s.rekey with
        started := now, initiator := .peer, trigger := .peer } }
      let cookie ← ask fun tick => env.random tick 16
      let some cookie := cookie | fail (.io .kexinitBuild)
      let iS := buildRekeyKexinit cookie
      writePacket env iS
      let negotiated ← negotiateRekey env payload
      update fun s => s.setPhase (.awaitHybridInit payload iS negotiated
        negotiated.skipGuessedPacket)
      return .continued
  | .sentKexInit iS =>
    if msg = sshMsgKexinit then do
      let negotiated ← negotiateRekey env payload
      update fun s => s.setPhase (.awaitHybridInit payload iS negotiated
        negotiated.skipGuessedPacket)
      return .continued
    else do
      update fun s => s.setPhase (.sentKexInit iS)
      return .passToChannel
  | .awaitHybridInit iC iS negotiated true => do
    update fun s => s.setPhase (.awaitHybridInit iC iS negotiated false)
    return .continued
  | .awaitHybridInit iC iS negotiated false =>
    if msg = sshMsgKexHybridInit then completeRekeyReply env payload iC iS negotiated
    else protocolDisconnect env .unexpectedDuringRekey
  | .awaitNewKeys newRx =>
    if msg = sshMsgNewkeys then do
      if payload ≠ [sshMsgNewkeys] then protocolDisconnect env .expectedNewkeys
      let now ← ask env.now
      update fun s => { s.observe .rekeyed with
        rx := newRx
        rxInstalls := s.rxInstalls + 1
        seqRx := 0
        rekey := { s.rekey with bytesRx := 0, bytesTx := 0, lastKex := now, phase := .idle } }
      return .completed
    else protocolDisconnect env .unexpectedDuringRekey

end QuantumSsh.Transport
