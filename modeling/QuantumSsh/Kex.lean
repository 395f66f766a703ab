import QuantumSsh.Wire

/-!
# Key exchange

The KEXINIT profile, the negotiation and the hybrid exchange of `kex.rs`. The
primitives it calls (SHA-256, ML-KEM, X25519) are parameters.
-/

namespace QuantumSsh

/-! ### Why a connection ends -/

/-- The reasons of the rejections raised after authentication. -/
inductive Reason where
  | noHybridKex | noStrictKex | noHostKeyAlgorithm | noCipherC2s | noCipherS2c | noCompression
  | badHybridInitLength | invalidMlkemKey | invalidX25519Key | rngFailure
  | malformedRekeyKexinit | malformedHybridInit | expectedNewkeys | unexpectedDuringRekey
  | rekeyTimeout | packetAuthFailed
  | tooManyDeferred | emptyPacket | channelMessageBeforeOpen | malformedGlobalRequest
  | peerDisconnected | inboundExtendedData | unexpectedChannelMessage
  | malformedChannelOpen | zeroMaxPacketSize | malformedChannelRequest | unknownChannel
  | malformedExecRequest | nonUtf8Command | malformedPtyReq | truncatedTerminalMode
  | malformedSubsystem | malformedWindowChange | malformedChannelData | dataAfterEof
  | inboundWindowExceeded | malformedWindowAdjust | windowOverflow | malformedChannelEof
  | malformedChannelClose
deriving Repr, DecidableEq

/-- The text a reason carries on the wire and in the log. -/
def Reason.text : Reason → String
  | .noHybridKex => "no-hybrid-kex"
  | .noStrictKex => "no-strict-kex"
  | .noHostKeyAlgorithm => "no-host-key-algorithm"
  | .noCipherC2s => "no-cipher-c2s"
  | .noCipherS2c => "no-cipher-s2c"
  | .noCompression => "no-compression"
  | .badHybridInitLength => "bad-hybrid-init-length"
  | .invalidMlkemKey => "invalid-mlkem-key"
  | .invalidX25519Key => "invalid-x25519-key"
  | .rngFailure => "rng-failure"
  | .malformedRekeyKexinit => "malformed-rekey-kexinit"
  | .malformedHybridInit => "malformed-hybrid-init"
  | .expectedNewkeys => "expected-newkeys"
  | .unexpectedDuringRekey => "unexpected-during-rekey"
  | .rekeyTimeout => "rekey-timeout"
  | .packetAuthFailed => "packet-auth-failed"
  | .tooManyDeferred => "too-many-deferred-during-rekey"
  | .emptyPacket => "empty-packet"
  | .channelMessageBeforeOpen => "channel-message-before-open"
  | .malformedGlobalRequest => "malformed-global-request"
  | .peerDisconnected => "peer-disconnected"
  | .inboundExtendedData => "inbound-extended-data"
  | .unexpectedChannelMessage => "unexpected-channel-message"
  | .malformedChannelOpen => "malformed-channel-open"
  | .zeroMaxPacketSize => "zero-max-packet-size"
  | .malformedChannelRequest => "malformed-channel-request"
  | .unknownChannel => "unknown-channel"
  | .malformedExecRequest => "malformed-exec-request"
  | .nonUtf8Command => "non-utf8-command"
  | .malformedPtyReq => "malformed-pty-req"
  | .truncatedTerminalMode => "truncated-terminal-mode"
  | .malformedSubsystem => "malformed-subsystem"
  | .malformedWindowChange => "malformed-window-change"
  | .malformedChannelData => "malformed-channel-data"
  | .dataAfterEof => "data-after-eof"
  | .inboundWindowExceeded => "inbound-window-exceeded"
  | .malformedWindowAdjust => "malformed-window-adjust"
  | .windowOverflow => "window-overflow"
  | .malformedChannelEof => "malformed-channel-eof"
  | .malformedChannelClose => "malformed-channel-close"

/-- `Rejection`: the reason and the disconnect code to send. -/
structure Rejection where
  reason : Reason
  disconnectCode : ℕ
deriving Repr, DecidableEq

namespace Kex

open Wire

/-! ### Message numbers and the profile -/

def sshMsgDisconnect : UInt8 := 1
def sshMsgKexinit : UInt8 := 20
def sshMsgNewkeys : UInt8 := 21
def sshMsgKexHybridInit : UInt8 := 30
def sshMsgKexHybridReply : UInt8 := 31

def disconnectProtocolError : ℕ := 2
def disconnectKeyExchangeFailed : ℕ := 3

def kexAlgorithm : String := "mlkem768x25519-sha256"
def strictKexClient : String := "kex-strict-c-v00@openssh.com"
def extInfoClient : String := "ext-info-c"
def kexListRekey : String := "mlkem768x25519-sha256"
def hostKeyList : String := "ssh-mldsa44-ed25519"
def encryptionList : String := "chacha20-poly1305@openssh.com,aes256-gcm@openssh.com"
def macList : String := "hmac-sha2-512-etm@openssh.com"
def compressionList : String := "none"

/-- `NAME_LIST_BOUND`. -/
def nameListBound : ℕ := 8192

/-- `KexError`. -/
inductive KexError where
  | wire (error : WireError)
  | rejected (rejection : Rejection)
deriving Repr, DecidableEq

/-- `Rejection::kex_failed`. -/
def kexFailed (reason : Reason) : KexError :=
  .rejected ⟨reason, disconnectKeyExchangeFailed⟩

/-! ### KEXINIT -/

/-- `PeerKexInit`: the lists as raw bytes. -/
structure PeerKexInit where
  kexAlgorithms : Bytes
  serverHostKeyAlgorithms : Bytes
  encryptionC2s : Bytes
  encryptionS2c : Bytes
  compressionC2s : Bytes
  compressionS2c : Bytes
  firstKexPacketFollows : Bool
deriving Repr, DecidableEq

/-- `Negotiated`, less its two constant names. -/
structure Negotiated where
  cipherC2s : Bytes
  cipherS2c : Bytes
  extInfo : Bool
  skipGuessedPacket : Bool
deriving Repr, DecidableEq

/-- `build_kexinit_with` on the cookie drawn. -/
def buildKexinitWith (kexList : String) (cookie : Bytes) : Bytes :=
  [sshMsgKexinit] ++ cookie ++ putNameList kexList ++ putNameList hostKeyList ++
    putNameList encryptionList ++ putNameList encryptionList ++
    putNameList macList ++ putNameList macList ++
    putNameList compressionList ++ putNameList compressionList ++
    putNameList "" ++ putNameList "" ++ putBoolean false ++ putUint32 0

/-- `build_rekey_kexinit` on the cookie drawn. -/
def buildRekeyKexinit (cookie : Bytes) : Bytes := buildKexinitWith kexListRekey cookie

/-- The reads of `parse_kexinit`. -/
def readKexinit : Reader PeerKexInit := do
  let msg ← Reader.byte
  if msg ≠ sshMsgKexinit then throw .truncated
  let _cookie ← Reader.bytes 16
  let kexAlgorithms ← Reader.nameList nameListBound
  let serverHostKeyAlgorithms ← Reader.nameList nameListBound
  let encryptionC2s ← Reader.nameList nameListBound
  let encryptionS2c ← Reader.nameList nameListBound
  let _macC2s ← Reader.nameList nameListBound
  let _macS2c ← Reader.nameList nameListBound
  let compressionC2s ← Reader.nameList nameListBound
  let compressionS2c ← Reader.nameList nameListBound
  let _languagesC2s ← Reader.nameList nameListBound
  let _languagesS2c ← Reader.nameList nameListBound
  let firstKexPacketFollows ← Reader.boolean
  let _reserved ← Reader.uint32
  Reader.finish
  return { kexAlgorithms, serverHostKeyAlgorithms, encryptionC2s, encryptionS2c,
           compressionC2s, compressionS2c, firstKexPacketFollows }

/-- `parse_kexinit`. -/
def parseKexinit (payload : Bytes) : Except KexError PeerKexInit :=
  match readKexinit.run payload with
  | .ok (peer, _) => .ok peer
  | .error e => .error (.wire e)

/-- `is_marker`. -/
def isMarker (name : Bytes) : Bool :=
  (utf8 "kex-strict-").isPrefixOf name || (utf8 "ext-info-").isPrefixOf name

/-- The cipher choice of `negotiate`: the client's first name that we offer. -/
def pick (peerList : Bytes) : Option Bytes :=
  (names peerList).find? fun n => n ∈ names (utf8 encryptionList)

/-- `negotiate`. -/
def negotiate (peer : PeerKexInit) (initial : Bool) : Except KexError Negotiated := do
  let peerRealKex := (names peer.kexAlgorithms).filter fun n => !isMarker n
  unless peerRealKex.any fun n => n = utf8 kexAlgorithm do
    throw (kexFailed .noHybridKex)
  if initial && !listContains peer.kexAlgorithms (utf8 strictKexClient) then
    throw (kexFailed .noStrictKex)
  unless listContains peer.serverHostKeyAlgorithms (utf8 hostKeyList) do
    throw (kexFailed .noHostKeyAlgorithm)
  let some cipherC2s := pick peer.encryptionC2s | throw (kexFailed .noCipherC2s)
  let some cipherS2c := pick peer.encryptionS2c | throw (kexFailed .noCipherS2c)
  if !listContains peer.compressionC2s (utf8 compressionList) ||
      !listContains peer.compressionS2c (utf8 compressionList) then
    throw (kexFailed .noCompression)
  let extInfo := initial && listContains peer.kexAlgorithms (utf8 extInfoClient)
  let firstKex := (names peer.kexAlgorithms).head?
  let firstHostkey := (names peer.serverHostKeyAlgorithms).head?
  let skipGuessedPacket := peer.firstKexPacketFollows &&
    (firstKex ≠ some (utf8 kexAlgorithm) || firstHostkey ≠ some (utf8 hostKeyList))
  return { cipherC2s, cipherS2c, extInfo, skipGuessedPacket }

/-! ### The hybrid exchange -/

def mlkemEkLen : ℕ := 1184
def mlkemCtLen : ℕ := 1088
def x25519Len : ℕ := 32
def clientInitLen : ℕ := mlkemEkLen + x25519Len

/-- The primitives the key exchange rests on. -/
structure Crypto where
  sha256 : Bytes → Bytes
  sha256_length : ∀ b, (sha256 b).length = 32
  /-- `EncapsulationKey::new` takes the key. -/
  validEncapsulationKey : (ek : Bytes) → Bool
  /-- `encapsulate_deterministic`: the ciphertext and the secret. -/
  encapsulate : (ek m : Bytes) → Bytes × Bytes
  x25519Public : (secret : Bytes) → Bytes
  /-- `diffie_hellman`, `none` when the exchange is not contributory. -/
  diffieHellman : (secret peer : Bytes) → Option Bytes

/-- `HybridOutcome`. -/
structure HybridOutcome where
  serverReply : Bytes
  sharedSecret : Bytes
deriving Repr, DecidableEq

/-- `hybrid_exchange_with` on the two draws of the random source. -/
def hybridExchange (c : Crypto) (clientInit : Bytes) (m secret : Option Bytes) :
    Except KexError HybridOutcome := do
  if clientInit.length ≠ clientInitLen then throw (kexFailed .badHybridInitLength)
  let ek := clientInit.take mlkemEkLen
  let clientX25519 := clientInit.drop mlkemEkLen
  if !c.validEncapsulationKey ek then throw (kexFailed .invalidMlkemKey)
  let some m := m | throw (kexFailed .rngFailure)
  let (ct, kPq) := c.encapsulate ek m
  let some secret := secret | throw (kexFailed .rngFailure)
  let some kCl := c.diffieHellman secret clientX25519 | throw (kexFailed .invalidX25519Key)
  return { serverReply := ct ++ c.x25519Public secret, sharedSecret := c.sha256 (kPq ++ kCl) }

/-- The ends of `hybrid_exchange_with`: a reason to fail, or the secret of both draws. -/
theorem hybridExchange_cases (c : Crypto) (clientInit : Bytes) (m secret : Option Bytes) :
    (∃ reason ∈ [Reason.badHybridInitLength, .invalidMlkemKey, .rngFailure, .invalidX25519Key],
      hybridExchange c clientInit m secret = .error (kexFailed reason)) ∨
    ∃ seed own kCl, m = some seed ∧ secret = some own ∧
      c.diffieHellman own (clientInit.drop mlkemEkLen) = some kCl ∧
      hybridExchange c clientInit m secret = .ok
        { serverReply := (c.encapsulate (clientInit.take mlkemEkLen) seed).1 ++ c.x25519Public own
          sharedSecret := c.sha256 ((c.encapsulate (clientInit.take mlkemEkLen) seed).2 ++ kCl) } := by
  unfold hybridExchange
  by_cases hlen : clientInit.length ≠ clientInitLen
  · exact .inl ⟨.badHybridInitLength, by simp, by rw [if_pos hlen]; rfl⟩
  by_cases hvalid : (!c.validEncapsulationKey (clientInit.take mlkemEkLen)) = true
  · exact .inl ⟨.invalidMlkemKey, by simp, by rw [if_neg hlen, if_pos hvalid]; rfl⟩
  rw [if_neg hlen, if_neg hvalid]
  cases m with
  | none => exact .inl ⟨.rngFailure, by simp, rfl⟩
  | some seed =>
    cases secret with
    | none => exact .inl ⟨.rngFailure, by simp, rfl⟩
    | some own =>
      cases hdh : c.diffieHellman own (clientInit.drop mlkemEkLen) with
      | none =>
        refine .inl ⟨.invalidX25519Key, by simp, ?_⟩
        simp only [hdh]
        rfl
      | some kCl =>
        refine .inr ⟨seed, own, kCl, rfl, rfl, hdh, ?_⟩
        simp only [hdh]
        rfl

/-- `ExchangeHashInputs`. -/
structure ExchangeHashInputs where
  clientId : Bytes
  serverId : Bytes
  clientKexinit : Bytes
  serverKexinit : Bytes
  hostKeyBlob : Bytes
  clientInit : Bytes
  serverReply : Bytes
  sharedSecret : Bytes
deriving Repr, DecidableEq

/-- `exchange_hash`. -/
def exchangeHash (c : Crypto) (i : ExchangeHashInputs) : Bytes :=
  c.sha256 (putString i.clientId ++ putString i.serverId ++ putString i.clientKexinit ++
    putString i.serverKexinit ++ putString i.hostKeyBlob ++ putString i.clientInit ++
    putString i.serverReply ++ putString i.sharedSecret)

/-- The extension loop of `derive_key`; `fuel` bounds its rounds. -/
def extendKey (c : Crypto) (kString h : Bytes) (needed : ℕ) : (fuel : ℕ) → Bytes → Bytes
  | 0, out => out
  | fuel + 1, out =>
    if out.length < needed then
      extendKey c kString h needed fuel (out ++ c.sha256 (kString ++ h ++ out))
    else out

/-- `derive_key`. Every round adds 32 bytes, so `needed` rounds are enough. -/
def deriveKey (c : Crypto) (k h : Bytes) (letter : Char) (sessionId : Bytes) (needed : ℕ) :
    Bytes :=
  let kString := putString k
  let k1 := c.sha256 (kString ++ h ++ [UInt8.ofNat letter.toNat] ++ sessionId)
  (extendKey c kString h needed needed k1).take needed

theorem length_extendKey (c : Crypto) (kString h : Bytes) (needed fuel : ℕ) (out : Bytes) :
    min needed (out.length + fuel) ≤ (extendKey c kString h needed fuel out).length := by
  induction fuel generalizing out with
  | zero => exact Nat.min_le_right _ _
  | succ fuel ih =>
    rw [extendKey]
    split
    next hlt =>
      have hnext := ih (out ++ c.sha256 (kString ++ h ++ out))
      rw [List.length_append, c.sha256_length] at hnext
      omega
    next hge => omega

/-- A derived key has the length asked for. -/
theorem length_deriveKey (c : Crypto) (k h : Bytes) (letter : Char) (sessionId : Bytes)
    (needed : ℕ) : (deriveKey c k h letter sessionId needed).length = needed := by
  have hlen := length_extendKey c (putString k) h needed needed
    (c.sha256 (putString k ++ h ++ [UInt8.ofNat letter.toNat] ++ sessionId))
  rw [deriveKey, List.length_take]
  omega

end Kex

end QuantumSsh
