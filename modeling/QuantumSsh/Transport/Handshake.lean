import QuantumSsh.Cert
import QuantumSsh.Transport.Reading

/-!
# The handshake

The stages of `transport.rs` before the session, from the identification lines to
a verified authentication, on the bytes the peer sends. A stage is consumed by the
function that leaves it, so its data, the ciphers included, is passed along; the
link holds what all stages share. Every packet that is read, or handed to the
stream, is logged with its number, and so is what the authentication asks and
reports.
-/

/-! ### Who may log in -/

namespace QuantumSsh.Auth

/-- `Authenticated`. -/
structure Authenticated where
  fingerprint : Bytes
  certificate : Option Cert.CertIdentity
  ptyPermitted : Bool
deriving Repr, DecidableEq

/-- `Candidate`: a key that may log in. -/
structure Candidate where
  verifyingKey : FixedBytes 32
  authenticated : Authenticated
deriving DecidableEq

/-- `resolve`, where the clock reads `now`. -/
def resolve {sigs : Signatures} (keyAlgorithm keyBlob user : Bytes)
    (authorizedKeys : AuthorizedKeys sigs) (trustedCas : Option (Cert.TrustedUserCaKeys sigs))
    (now : Option ℕ) : Option Candidate :=
  if keyAlgorithm = Auth.keyAlgorithm then
    (authorizedKeys.lookup keyBlob).map fun ak =>
      { verifyingKey := ak.key
        authenticated := {
          fingerprint := ak.fingerprint
          certificate := none
          ptyPermitted := true } }
  else
    let verified : Except Cert.Refusal Cert.Certificate := match trustedCas with
      | none => .error .untrustedCa
      | some cas => Cert.verify keyBlob cas user now
    match verified with
    | .error _ => none
    | .ok c => some {
        verifyingKey := c.key
        authenticated := {
          fingerprint := c.fingerprint
          certificate := some c.identity
          ptyPermitted := c.permitPty } }

end QuantumSsh.Auth

namespace QuantumSsh.Transport

open Wire Kex Machine Program

/-! ### Failures -/

/-- The reasons of the rejections before the session. -/
inductive HandshakeReason where
  /-- One the session raises too. -/
  | common (reason : Reason)
  | badIdentification | malformedPacket | firstPacketNotKexinit | malformedKexinit
  | expectedHybridInit | expectedServiceRequest | serviceNotAvailable
  | expectedUserauthRequest | malformedUserauthRequest | unexpectedServiceName
  | tooManyAuthAttempts | handshakeTimeout
deriving Repr, DecidableEq

/-- The text a reason carries on the wire and in the log. -/
def HandshakeReason.text : HandshakeReason → String
  | .common reason => reason.text
  | .badIdentification => "bad-identification"
  | .malformedPacket => "malformed-packet"
  | .firstPacketNotKexinit => "first-packet-not-kexinit"
  | .malformedKexinit => "malformed-kexinit"
  | .expectedHybridInit => "expected-hybrid-init"
  | .expectedServiceRequest => "expected-service-request"
  | .serviceNotAvailable => "service-not-available"
  | .expectedUserauthRequest => "expected-userauth-request"
  | .malformedUserauthRequest => "malformed-userauth-request"
  | .unexpectedServiceName => "unexpected-service-name"
  | .tooManyAuthAttempts => "too-many-auth-attempts"
  | .handshakeTimeout => "handshake-timeout"

/-- `TransportError` of the handshake. -/
inductive HandshakeError where
  | rejected (reason : HandshakeReason)
  | io (failure : IoFailure)
  | identificationWrite
  | packetEncode
deriving Repr, DecidableEq

/-- What the session's errors are among those of the handshake. -/
def HandshakeError.ofTransport : TransportError → HandshakeError
  | .io failure => .io failure
  | .rejected reason => .rejected (.common reason)

/-! ### The link -/

/-- What the log of a handshake records, in the order it happens. -/
inductive HandshakeObs where
  /-- A packet was encoded for the stream. -/
  | wrotePlain (seq : ℕ) (payload : Bytes)
  /-- A packet was sealed for the stream, with the cipher as it stood. -/
  | wroteSealed (cipher : Cipher.PacketCipher) (seq : ℕ) (payload : Bytes)
  | readPlain (seq : ℕ) (payload : Bytes)
  | readSealed (seq : ℕ) (payload : Bytes)
  /-- The secret and the hash of the exchange are known. -/
  | agreed (sharedSecret exchangeHash : Bytes)
  /-- Our NEWKEYS is on the wire. -/
  | switchedTx
  /-- The peer's NEWKEYS was accepted. -/
  | switchedRx
  /-- `auth::resolve` was asked for a key. -/
  | resolved (keyAlgorithm keyBlob user : Bytes) (candidate : Option Auth.Candidate)
  /-- The event `auth.failed`. -/
  | authFailed (authMethod : Bytes) (failureCount : ℕ)
  /-- The event `auth.succeeded`. -/
  | authSucceeded (authMethod : Bytes) (authenticated : Auth.Authenticated)
deriving DecidableEq

/-- What the stages of `Expect` share: the bytes of the peer still to come, the
counters, the tick and the log. -/
structure Link where
  input : Bytes
  seqTx : ℕ
  seqRx : ℕ
  tick : ℕ
  log : List HandshakeObs

/-- What the handshake takes from outside: the answers of the environment, the
packet primitives, and who may log in. -/
structure Host where
  env : Env
  primitives : Cipher.Primitives
  /-- `getrandom::fill` of a packet's padding. -/
  padding : (tick : ℕ) → Draw
  /-- The handshake budget is spent. -/
  timeUp : ℕ → Bool
  sigs : Signatures
  authorizedKeys : Auth.AuthorizedKeys sigs
  trustedCas : Option (Cert.TrustedUserCaKeys sigs)
  /-- `SystemTime::now`, in seconds since the epoch; `none` before it. -/
  clock : (tick : ℕ) → Option ℕ

/-- `auth::resolve` with the keys of the host. -/
def Host.resolve (host : Host) (tick : ℕ) (keyAlgorithm keyBlob user : Bytes) :
    Option Auth.Candidate :=
  Auth.resolve keyAlgorithm keyBlob user host.authorizedKeys host.trustedCas (host.clock tick)

/-- A program over the link. -/
abbrev HandshakeProg := Prog Link HandshakeError

/-- An entry of the log. -/
def Link.observe (l : Link) (obs : HandshakeObs) : Link := { l with log := l.log ++ [obs] }

/-- Takes one answer of the environment. -/
def consult {α : Type} (f : ℕ → α) : HandshakeProg α := do
  let tick ← look Link.tick
  update fun l => { l with tick := l.tick + 1 }
  return f tick

variable (host : Host)

/-- The budget cuts a handshake off where it waits for the stream. -/
def await : HandshakeProg Unit := do
  let timeUp ← consult host.timeUp
  if timeUp then fail (.rejected .handshakeTimeout)

/-! ### Packets -/

/-- `read_exact`. -/
def readExact (n : ℕ) : HandshakeProg Bytes := do
  await host
  let input ← look Link.input
  if input.length < n then fail (.io .packetRead)
  update fun l => { l with input := input.drop n }
  return input.take n

/-- `read_plain`. -/
def readPlain : HandshakeProg Bytes := do
  let lenBytes ← readExact host 4
  let .ok bodyLen := validatePacketLength (beValue lenBytes) | fail (.rejected .malformedPacket)
  let body ← readExact host bodyLen
  let .ok payload := decodePacketBody body | fail (.rejected .malformedPacket)
  update fun l => { l.observe (.readPlain l.seqRx payload) with seqRx := wrappingAdd 32 l.seqRx 1 }
  return payload

/-- `write_plain`. -/
def writePlain (payload : Bytes) : HandshakeProg Unit := do
  let draw ← consult host.padding
  let .ok _packet := encodePacket draw payload | fail .packetEncode
  update fun l => l.observe (.wrotePlain l.seqTx payload)
  await host
  let writeOk ← consult host.env.writeOk
  if !writeOk then fail (.io .packetWrite)
  update fun l => { l with seqTx := wrappingAdd 32 l.seqTx 1 }

/-- `read_sealed` with a receive cipher: the payload, and the cipher after it. -/
def readSealedPacket (rx : Cipher.PacketCipher) : HandshakeProg (Bytes × Cipher.PacketCipher) := do
  await host
  let l ← look id
  match readSealed host.primitives ⟨l.seqRx, rx⟩ l.input with
  | (.error e, _) => fail (.ofTransport e)
  | (.ok (payload, rest), r) =>
    update fun l => { l.observe (.readSealed l.seqRx payload) with seqRx := r.seqRx, input := rest }
    return (payload, r.rx)

/-- `write_sealed` with a transmit cipher: the cipher after the packet. -/
def writeSealedPacket (tx : Cipher.PacketCipher) (payload : Bytes) :
    HandshakeProg Cipher.PacketCipher := do
  let draw ← consult host.padding
  let seqnr ← look Link.seqTx
  let .ok (_packet, next) := tx.seal host.primitives draw seqnr payload | fail (.io .packetSeal)
  update fun l => l.observe (.wroteSealed tx seqnr payload)
  await host
  let writeOk ← consult host.env.writeOk
  if !writeOk then fail (.io .packetWrite)
  update fun l => { l with seqTx := wrappingAdd 32 l.seqTx 1 }
  return next

/-- `disconnect_payload`. -/
def disconnectMessage (code : ℕ) (reason : HandshakeReason) : Bytes :=
  [sshMsgDisconnect] ++ putUint32 code ++ putString (utf8 reason.text) ++ putString []

/-- Ignores whether a write failed, but not that the budget was spent in it. -/
def tolerate {α : Type} (p : HandshakeProg α) : HandshakeProg Unit := fun l =>
  match p l with
  | (.ok _, l') => (.ok (), l')
  | (.error e, l') => if e = .rejected .handshakeTimeout then (.error e, l') else (.ok (), l')

/-- `reject_plain`. -/
def rejectPlain {α : Type} (code : ℕ) (reason : HandshakeReason) : HandshakeProg α := do
  tolerate (writePlain host (disconnectMessage code reason))
  fail (.rejected reason)

/-- `reject_sealed`. -/
def rejectSealed {α : Type} (tx : Cipher.PacketCipher) (code : ℕ) (reason : HandshakeReason) :
    HandshakeProg α := do
  tolerate (writeSealedPacket host tx (disconnectMessage code reason))
  fail (.rejected reason)

/-! ### The identification lines -/

/-- `MAX_ID_LINE`. -/
def maxIdLine : ℕ := 255

/-- The loop of `read_id_line`: the line and the bytes behind it. -/
def takeIdLine (line : Bytes) : Bytes → Option (Bytes × Bytes)
  | [] => none
  | byte :: rest =>
    if maxIdLine ≤ line.length then none
    else if byte = 0x0a then some (line, rest)
    else takeIdLine (line ++ [byte]) rest

/-- `read_id_line`. -/
def readIdLine : HandshakeProg Bytes := do
  await host
  let input ← look Link.input
  let some (line, rest) := takeIdLine [] input | fail (.rejected .badIdentification)
  update fun l => { l with input := rest }
  return if line.getLast? = some 0x0d then line.dropLast else line

/-- `parse_peer_id` accepts the line. -/
def wellFormedPeerId (line : Bytes) : Bool :=
  line.length ≤ maxIdLine && isUtf8 line && (utf8 "SSH-2.0-").isPrefixOf line &&
    let softwareversion := (line.drop 8).takeWhile fun b => b ≠ 0x20
    softwareversion ≠ [] && softwareversion.all fun b => 0x21 ≤ b && b ≤ 0x7e

/-- Stage 1. -/
structure KexInit where
  peerIdLine : Bytes

/-- `version_exchange`. -/
def versionExchange : HandshakeProg KexInit := do
  await host
  let writeOk ← consult host.env.writeOk
  if !writeOk then fail .identificationWrite
  let peerIdLine ← readIdLine host
  if !wellFormedPeerId peerIdLine then fail (.rejected .badIdentification)
  return { peerIdLine }

/-! ### The key exchange -/

/-- `KEX_LIST`. -/
def kexList : String := "mlkem768x25519-sha256,kex-strict-s-v00@openssh.com"

/-- Stage 2. -/
structure HybridInit where
  peerIdLine : Bytes
  iC : Bytes
  iS : Bytes
  negotiated : Negotiated

/-- `exchange_kexinit`. -/
def exchangeKexinit (stage : KexInit) : HandshakeProg HybridInit := do
  let cookie ← consult fun tick => host.env.random tick 16
  let some cookie := cookie | fail (.io .kexinitBuild)
  let iS := buildKexinitWith kexList cookie
  writePlain host iS
  let iC ← readPlain host
  if iC.head? ≠ some sshMsgKexinit then
    rejectPlain host disconnectProtocolError .firstPacketNotKexinit
  else match parseKexinit iC >>= fun peer => negotiate peer true with
  | .error (.rejected rejection) =>
    rejectPlain host rejection.disconnectCode (.common rejection.reason)
  | .error (.wire _) => rejectPlain host disconnectProtocolError .malformedKexinit
  | .ok negotiated =>
    if negotiated.skipGuessedPacket then do
      let _skipped ← readPlain host
      return { peerIdLine := stage.peerIdLine, iC, iS, negotiated }
    else return { peerIdLine := stage.peerIdLine, iC, iS, negotiated }

/-- Stage 3. -/
structure NewKeys where
  negotiated : Negotiated
  sharedSecret : Bytes
  exchangeHash : Bytes
  clientId : Bytes

/-- `run_hybrid`. -/
def runHybrid (stage : HybridInit) : HandshakeProg NewKeys := do
  let initPayload ← readPlain host
  if initPayload.head?.getD 0 ≠ sshMsgKexHybridInit then
    rejectPlain host disconnectProtocolError .expectedHybridInit
  else match readHybridInit.run initPayload with
  | .error _ => rejectPlain host disconnectProtocolError (.common .malformedHybridInit)
  | .ok (clientInit, _) => do
    let m ← consult fun tick => host.env.random tick 32
    let secret ← consult fun tick => host.env.random tick 32
    match hybridExchange host.env.crypto clientInit m secret with
    | .error (.rejected rejection) =>
      rejectPlain host rejection.disconnectCode (.common rejection.reason)
    | .error (.wire _) => rejectPlain host disconnectProtocolError (.common .malformedHybridInit)
    | .ok outcome => do
      let h := exchangeHash host.env.crypto
        { clientId := stage.peerIdLine, serverId, clientKexinit := stage.iC,
          serverKexinit := stage.iS, hostKeyBlob := host.env.hostKeyBlob, clientInit,
          serverReply := outcome.serverReply, sharedSecret := outcome.sharedSecret }
      let signature ← consult fun tick => host.env.sign tick h
      let some signature := signature
        | rejectPlain host disconnectKeyExchangeFailed (.common .rngFailure)
      writePlain host ([sshMsgKexHybridReply] ++ putString host.env.hostKeyBlob ++
        putString outcome.serverReply ++ putString signature)
      update fun l => l.observe (.agreed outcome.sharedSecret h)
      return { negotiated := stage.negotiated, sharedSecret := outcome.sharedSecret,
               exchangeHash := h, clientId := stage.peerIdLine }

/-- The data of the sealed stages 4 to 6. -/
structure Secured where
  rx : Cipher.PacketCipher
  tx : Cipher.PacketCipher
  sessionId : Bytes
  clientId : Bytes

/-- `SSH_MSG_EXT_INFO`. -/
def sshMsgExtInfo : UInt8 := 7

/-- The `server-sig-algs` extension. -/
def extInfoMessage : Bytes :=
  [sshMsgExtInfo] ++ putUint32 1 ++ putString (utf8 "server-sig-algs") ++
    putString Auth.keyAlgorithm

/-- `PacketCipher::new` on derived key material. -/
def installCipher (material : PacketCipher) : Except Cipher.CipherError Cipher.PacketCipher :=
  Cipher.PacketCipher.new material.name material.key material.iv

/-- `exchange_newkeys`. -/
def exchangeNewkeys (stage : NewKeys) : HandshakeProg Secured := do
  writePlain host [sshMsgNewkeys]
  update fun l => { l.observe .switchedTx with seqTx := 0 }
  let peerNewkeys ← readPlain host
  if peerNewkeys ≠ [sshMsgNewkeys] then
    rejectPlain host disconnectProtocolError (.common .expectedNewkeys)
  else do
    update fun l => { l.observe .switchedRx with seqRx := 0 }
    let some (rx, tx) := deriveCipherPair host.env.crypto stage.sharedSecret stage.exchangeHash
        stage.exchangeHash stage.negotiated.cipherC2s stage.negotiated.cipherS2c
      | fail (.io .cipherInstall)
    let .ok rx := installCipher rx | fail (.io .cipherInstall)
    let .ok tx := installCipher tx | fail (.io .cipherInstall)
    if stage.negotiated.extInfo then do
      let tx ← writeSealedPacket host tx extInfoMessage
      return { rx, tx, sessionId := stage.exchangeHash, clientId := stage.clientId }
    else return { rx, tx, sessionId := stage.exchangeHash, clientId := stage.clientId }

/-! ### The service and the authentication -/

def sshMsgServiceRequest : UInt8 := 5
def sshMsgServiceAccept : UInt8 := 6
def disconnectServiceNotAvailable : ℕ := 7
def disconnectByApplication : ℕ := 11

/-- `parse_service_request`. -/
def parseServiceRequest : Reader Bytes := do
  let msg ← Reader.byte
  if msg ≠ sshMsgServiceRequest then throw .truncated
  let name ← Reader.string 64
  Reader.finish
  if isUtf8 name then return name else throw .truncated

/-- `read_service_request`. -/
def readServiceRequest (stage : Secured) : HandshakeProg (Bytes × Secured) := do
  let (payload, rx) ← readSealedPacket host stage.rx
  match parseServiceRequest.run payload with
  | .error _ => rejectSealed host stage.tx disconnectProtocolError .expectedServiceRequest
  | .ok (service, _) => return (service, { stage with rx })

/-- `deny`. -/
def deny {α : Type} (stage : Secured) : HandshakeProg α := do
  let _tx ← writeSealedPacket host stage.tx
    (disconnectMessage disconnectServiceNotAvailable .serviceNotAvailable)
  fail (.rejected .serviceNotAvailable)

/-- `accept`. -/
def accept (stage : Secured) : HandshakeProg Secured := do
  let tx ← writeSealedPacket host stage.tx [sshMsgServiceAccept]
  return { stage with tx }

/-- Stage 7. -/
structure AuthAccepted where
  secured : Secured
  authenticated : Auth.Authenticated

/-- The reason a malformed request is rejected with. -/
def requestReason : Auth.RequestError → HandshakeReason
  | .notUserauthRequest => .expectedUserauthRequest
  | .malformed => .malformedUserauthRequest
  | .unexpectedService => .unexpectedServiceName

/-- `verify_auth_signature`. -/
def verifyAuthSignature (sessionId : Bytes) (signed : Auth.Signed) (key : FixedBytes 32) : Bool :=
  signed.signature.length = 64 &&
    host.sigs.verifyStrict key.val (Auth.authSignedData sessionId signed.data) signed.signature

/-- What one request earns: the login, a failure of its method, or the word that its
key is known. -/
inductive Verdict where
  | success (candidate : Auth.Candidate)
  | failed (method : Bytes)
  | known (keyAlgorithm keyBlob : Bytes)

/-- Asks `auth::resolve`. -/
def askResolve (keyAlgorithm keyBlob user : Bytes) : HandshakeProg (Option Auth.Candidate) := do
  let candidate ← consult fun tick => host.resolve tick keyAlgorithm keyBlob user
  update fun l => l.observe (.resolved keyAlgorithm keyBlob user candidate)
  return candidate

/-- The decision of `authenticate` on a well-formed request. -/
def judge (sessionId : Bytes) : Auth.UserauthRequest → HandshakeProg Verdict
  | .refused method => return .failed method
  | .publicKey user algorithm keyBlob (some signed) => do
    let candidate ← askResolve host algorithm keyBlob user
    let some candidate := candidate | return .failed Auth.authMethod
    if verifyAuthSignature host sessionId signed candidate.verifyingKey then
      return .success candidate
    else return .failed Auth.authMethod
  | .publicKey user algorithm keyBlob none => do
    let candidate ← askResolve host algorithm keyBlob user
    if candidate.isSome then return .known algorithm keyBlob
    else return .failed Auth.authMethod

/-- The loop of `authenticate`. Every round but the last spends an attempt, so
`fuel` rounds are enough when `attempts + fuel` is the budget. -/
def authenticateLoop : (fuel attempts failures : ℕ) → Secured → HandshakeProg AuthAccepted
  | 0, _, _, stage =>
    rejectSealed host stage.tx disconnectByApplication .tooManyAuthAttempts
  | fuel + 1, attempts, failures, stage => do
    let (payload, rx) ← readSealedPacket host stage.rx
    match Auth.parseUserauthRequest payload with
    | .error e => rejectSealed host stage.tx disconnectProtocolError (requestReason e)
    | .ok request => do
      match ← judge host stage.sessionId request with
      | .success candidate => do
        let tx ← writeSealedPacket host stage.tx Auth.buildSuccessPayload
        update fun l => l.observe (.authSucceeded Auth.authMethod candidate.authenticated)
        return { secured := { stage with rx, tx }, authenticated := candidate.authenticated }
      | .failed method => do
        update fun l => l.observe (.authFailed method (failures + 1))
        if Auth.maxAuthAttempts ≤ attempts + 1 then
          rejectSealed host stage.tx disconnectByApplication .tooManyAuthAttempts
        else do
          let tx ← writeSealedPacket host stage.tx (Auth.buildFailurePayload false)
          authenticateLoop fuel (attempts + 1) (failures + 1) { stage with rx, tx }
      | .known algorithm keyBlob =>
        if Auth.maxAuthAttempts ≤ attempts + 1 then
          rejectSealed host stage.tx disconnectByApplication .tooManyAuthAttempts
        else do
          let tx ← writeSealedPacket host stage.tx (Auth.buildPkOk algorithm keyBlob)
          authenticateLoop fuel (attempts + 1) failures { stage with rx, tx }

/-- `authenticate`. -/
def authenticate (stage : Secured) : HandshakeProg AuthAccepted :=
  authenticateLoop host Auth.maxAuthAttempts 0 0 stage

/-- The handshake of `run_connection`, up to where `serve` takes over. -/
def runHandshake : HandshakeProg AuthAccepted := do
  let stage ← versionExchange host
  let stage ← exchangeKexinit host stage
  let stage ← runHybrid host stage
  let stage ← exchangeNewkeys host stage
  let (service, stage) ← readServiceRequest host stage
  if service = utf8 "ssh-userauth" then do
    let stage ← accept host stage
    authenticate host stage
  else deny host stage

/-- The link at the accept of a connection whose peer sends these bytes. -/
def Link.start (input : Bytes) : Link where
  input
  seqTx := 0
  seqRx := 0
  tick := 0
  log := []

end QuantumSsh.Transport
