import QuantumSsh.Lib.Ratchet
import QuantumSsh.Negotiation
import QuantumSsh.Channel.Strict

/-!
# A conforming client

The other party of a session, as strict key exchange wants it: from its KEXINIT to its
NEWKEYS it sends only messages of the exchange, and either direction changes its cipher and
starts its count again at the NEWKEYS. Client, server and the packets between them are one
machine, in which it is open who moves next.
-/

namespace QuantumSsh.Channel

open Wire Kex Machine Program Transport

/-! ### One end of one direction -/

/-- The cipher that one end of a direction has installed, the number of the install and
the sequence number of the next packet. -/
structure CipherEnd where
  install : ℕ
  cipher : PacketCipher
  seq : ℕ
deriving Repr, DecidableEq

/-- How packets are sealed. -/
def packets : Ratchet.Scheme CipherEnd PacketCipher Bytes Frame where
  mark e p := ⟨e.install, e.cipher, e.seq, p⟩
  next e := { e with seq := wrappingAdd 32 e.seq 1 }
  switch e cipher := ⟨e.install + 1, cipher, 0⟩
  switches p := p.head? = some sshMsgNewkeys

/-- The server's end of its own direction. -/
def World.txEnd (w : World) : CipherEnd := ⟨w.session.txInstalls, w.session.tx, w.session.seqTx⟩

/-- The server's end of the client's direction. -/
def World.rxEnd (w : World) : CipherEnd := ⟨w.session.rxInstalls, w.session.rx, w.session.seqRx⟩

/-! ### What the client computes -/

/-- The client's private keys of one exchange. -/
structure ClientSecret where
  decapsulationKey : Bytes
  x25519Secret : Bytes
deriving Repr, DecidableEq

/-- The client's half of the primitives. ML-KEM and X25519 lead both sides to the same
secrets. -/
structure ClientCrypto (c : Crypto) where
  encapsulationKey : (dk : Bytes) → Bytes
  decapsulate : (dk ct : Bytes) → Bytes
  encapsulationKey_length : ∀ dk, (encapsulationKey dk).length = mlkemEkLen
  x25519Public_length : ∀ x, (c.x25519Public x).length = x25519Len
  ciphertext_length : ∀ dk m, (c.encapsulate (encapsulationKey dk) m).1.length = mlkemCtLen
  decapsulate_encapsulate : ∀ dk m, decapsulate dk (c.encapsulate (encapsulationKey dk) m).1 =
    (c.encapsulate (encapsulationKey dk) m).2
  diffieHellman_comm : ∀ x y,
    c.diffieHellman x (c.x25519Public y) = c.diffieHellman y (c.x25519Public x)

/-- A KEXINIT of the client. -/
structure Offer where
  fields : KexinitFields
  wellFormed : fields.WellFormed

def Offer.payload (o : Offer) : Bytes := o.fields.encode

def Offer.peer (o : Offer) : PeerKexInit := o.fields.peer

/-- The first own name that the other side offers too. -/
def firstShared (own theirs : Bytes) : Option Bytes := (names own).find? fun n => n ∈ names theirs

/-- The two sides do not begin with the same algorithms. -/
def guessedWrong (own theirs : PeerKexInit) : Bool :=
  (names own.kexAlgorithms).head? ≠ (names theirs.kexAlgorithms).head? ||
    (names own.serverHostKeyAlgorithms).head? ≠ (names theirs.serverHostKeyAlgorithms).head?

/-- The client's guess, if it makes one, is the hybrid exchange. -/
def guessesHybrid (own : PeerKexInit) : Bool :=
  (names own.kexAlgorithms).head? = some (utf8 kexAlgorithm)

/-- The server's KEXINIT confirms the guess. -/
def Offer.confirmedBy (o : Offer) (iS : Bytes) : Bool :=
  match parseKexinit iS with
  | .ok theirs => !guessedWrong o.peer theirs
  | .error _ => false

/-- The blob, the server's share and the signature of a KEX_HYBRID_REPLY. -/
def readHybridReply : Reader (Bytes × Bytes × Bytes) := do
  let _msg ← Reader.byte
  let hostKeyBlob ← Reader.string u32Max
  let serverReply ← Reader.string u32Max
  let signature ← Reader.string u32Max
  Reader.finish
  return (hostKeyBlob, serverReply, signature)

namespace ClientCrypto

variable {c : Crypto} (k : ClientCrypto c)

/-- The client's share. -/
def clientInit (secret : ClientSecret) : Bytes :=
  k.encapsulationKey secret.decapsulationKey ++ c.x25519Public secret.x25519Secret

/-- The KEX_HYBRID_INIT. -/
def initPayload (secret : ClientSecret) : Bytes :=
  [sshMsgKexHybridInit] ++ putString (k.clientInit secret)

/-- The shared secret, from the server's share. -/
def sharedSecret (secret : ClientSecret) (serverReply : Bytes) : Option Bytes := do
  let kCl ← c.diffieHellman secret.x25519Secret (serverReply.drop mlkemCtLen)
  return c.sha256 (k.decapsulate secret.decapsulationKey (serverReply.take mlkemCtLen) ++ kCl)

/-- The ciphers that the exchange leads to, of the client's direction and the server's. -/
def ciphers (clientId sessionId : Bytes) (o : Offer) (iS : Bytes) (secret : ClientSecret)
    (replyPayload : Bytes) : Option (PacketCipher × PacketCipher) :=
  match parseKexinit iS, readHybridReply.run replyPayload with
  | .ok theirs, .ok ((hostKeyBlob, serverReply, _signature), _) => do
    let c2s ← firstShared o.peer.encryptionC2s theirs.encryptionC2s
    let s2c ← firstShared o.peer.encryptionS2c theirs.encryptionS2c
    let shared ← k.sharedSecret secret serverReply
    let h := exchangeHash c
      { clientId, serverId, clientKexinit := o.payload, serverKexinit := iS, hostKeyBlob
        clientInit := k.clientInit secret, serverReply, sharedSecret := shared }
    deriveCipherPair c shared h sessionId c2s s2c
  | _, _ => none

end ClientCrypto

/-! ### Where the client stands -/

/-- The packet that `first_kex_packet_follows` announces. -/
inductive Guess where
  | unannounced
  | owed
  /-- It was sent; a guess at the hybrid exchange was made with private keys. -/
  | sent (secret : Option ClientSecret)
deriving Repr, DecidableEq

/-- Where the client stands in a key exchange. -/
inductive Stage where
  | idle
  /-- The server's KEXINIT has arrived. -/
  | asked (iS : Bytes)
  /-- Our KEXINIT is out, and the server's has arrived or not. -/
  | offered (o : Offer) (heard : Option Bytes) (guess : Guess)
  /-- Our KEX_HYBRID_INIT is out. -/
  | waiting (o : Offer) (iS : Bytes) (secret : ClientSecret)
  /-- The reply has arrived. -/
  | keyed (tx rx : PacketCipher)
  /-- Our NEWKEYS is out, the server's has not arrived. -/
  | switched (rx : PacketCipher)
  /-- The server's NEWKEYS has arrived, ours is not out. -/
  | received (tx : PacketCipher)
  /-- The client has left. -/
  | gone

/-- Behind the KEXINITs: a right guess at the hybrid exchange is the KEX_HYBRID_INIT. -/
def Stage.offering (o : Offer) (heard : Option Bytes) (guess : Guess) : Stage :=
  match heard, guess with
  | some iS, .sent (some secret) =>
    if o.confirmedBy iS then .waiting o iS secret else .offered o heard guess
  | _, _ => .offered o heard guess

/-- Messages that are none of the exchange may be sent. -/
def Stage.mayTalk : Stage → Bool
  | .idle | .asked _ | .switched _ => true
  | _ => false

structure Client where
  tx : CipherEnd
  rx : CipherEnd
  clientId : Bytes
  sessionId : Bytes
  stage : Stage

/-! ### What the client does -/

/-- A packet the client may send. -/
inductive Act where
  | message (p : Bytes)
  | kexinit (o : Offer)
  /-- A guess at another exchange than the hybrid. -/
  | guess (g : Bytes)
  | guessInit (secret : ClientSecret)
  | init (secret : ClientSecret)
  | newkeys

/-- A message of some method of key exchange. -/
def isMethodMessage (p : Bytes) : Bool := 30 ≤ p.head?.getD 0 && p.head?.getD 0 ≤ 49

/-- The guess that a KEXINIT announces. -/
def Offer.guess (o : Offer) : Guess := if o.peer.firstKexPacketFollows then .owed else .unannounced

/-- A packet under the cipher installed. -/
def Client.sends (cl : Client) (p : Bytes) (stage : Stage) : Client × Frame :=
  ({ cl with tx := packets.next cl.tx, stage }, packets.mark cl.tx p)

/-- NEWKEYS, and the new cipher. -/
def Client.switches (cl : Client) (tx : PacketCipher) (stage : Stage) : Client × Frame :=
  ({ cl with tx := packets.switch cl.tx tx, stage }, packets.mark cl.tx [sshMsgNewkeys])

variable {c : Crypto}

def Client.act (k : ClientCrypto c) (cl : Client) : Act → Option (Client × Frame)
  | .message p => if cl.stage.mayTalk ∧ isKexMessage p = false then some (cl.sends p cl.stage) else none
  | .kexinit o =>
    match cl.stage with
    | .idle => some (cl.sends o.payload (.offered o none o.guess))
    | .asked iS => some (cl.sends o.payload (.offered o (some iS) o.guess))
    | _ => none
  | .guess g =>
    match cl.stage with
    | .offered o heard .owed =>
      if isMethodMessage g ∧ guessesHybrid o.peer = false then
        some (cl.sends g (.offering o heard (.sent none)))
      else none
    | _ => none
  | .guessInit secret =>
    match cl.stage with
    | .offered o heard .owed =>
      if guessesHybrid o.peer then
        some (cl.sends (k.initPayload secret) (.offering o heard (.sent (some secret))))
      else none
    | _ => none
  | .init secret =>
    match cl.stage with
    | .offered o (some iS) .unannounced | .offered o (some iS) (.sent _) =>
      some (cl.sends (k.initPayload secret) (.waiting o iS secret))
    | _ => none
  | .newkeys =>
    match cl.stage with
    | .keyed tx rx => some (cl.switches tx (.switched rx))
    | .received tx => some (cl.switches tx .idle)
    | _ => none

/-- Where a packet that is no NEWKEYS takes the client. -/
def Client.hears (k : ClientCrypto c) (cl : Client) (p : Bytes) : Stage :=
  if p.head? = some Kex.sshMsgDisconnect then .gone
  else if p.head? = some sshMsgKexinit then
    match cl.stage with
    | .idle => .asked p
    | .offered o none guess => .offering o (some p) guess
    | _ => .gone
  else if p.head? = some sshMsgKexHybridReply then
    match cl.stage with
    | .waiting o iS secret =>
      match k.ciphers cl.clientId cl.sessionId o iS secret p with
      | some (tx, rx) => .keyed tx rx
      | none => .gone
    | _ => .gone
  else cl.stage

/-- The client takes a packet it has opened. -/
def Client.takes (k : ClientCrypto c) (cl : Client) (p : Bytes) : Client :=
  if p.head? = some sshMsgNewkeys then
    match cl.stage with
    | .keyed tx rx => { cl with rx := packets.switch cl.rx rx, stage := .received tx }
    | .switched rx => { cl with rx := packets.switch cl.rx rx, stage := .idle }
    | _ => { cl with stage := .gone }
  else { cl with rx := packets.next cl.rx, stage := cl.hears k p }

/-! ### The two parties -/

/-- A packet, and the end that tried to open it. -/
structure Opening where
  frame : Frame
  opener : CipherEnd
deriving Repr, DecidableEq

/-- The packet was sealed with the cipher, install and number of the end that opens it. -/
def Opening.Matches (o : Opening) : Prop := o.frame = packets.mark o.opener o.frame.payload

instance (o : Opening) : Decidable o.Matches := inferInstanceAs (Decidable (_ = _))

/-- Server, client, the packets under way in both directions, and those opened so far. -/
structure Peers where
  server : Config
  client : Client
  toServer : List Frame
  toClient : List Frame
  opened : List Opening

/-- The packets sealed. -/
def sealedFrames (log : List Obs) : List Frame :=
  log.filterMap fun
    | .sealed f => some f
    | _ => none

/-- What `read_packet` makes of a frame: only the packet that was sealed as it expects is
opened. -/
def World.opens (w : World) (f : Frame) : Event :=
  if f = packets.mark w.rxEnd f.payload then .packet f.payload else .readFailed .badAuth

/-- The input is what a frame was opened to. -/
def isDelivery : Input → Bool
  | .event (.packet _) | .event (.readFailed .badAuth) => true
  | _ => false

/-- The server goes on, and what it seals is under way. -/
def Peers.advance (x : Peers) (server : Config) : Peers :=
  { x with
    server
    toClient := x.toClient ++ (sealedFrames server.world.session.log).drop
      (sealedFrames x.server.world.session.log).length }

/-- A move of one party. -/
inductive Move where
  /-- A step of `drive` that reads no packet. -/
  | server (input : Input)
  /-- The server reads the next packet. -/
  | deliver
  | client (act : Act)
  /-- The client reads the next packet. -/
  | receive

/-- One move, if it is possible. -/
def Peers.step (env : Env) (k : ClientCrypto env.crypto) (x : Peers) : Move → Option Peers
  | .server input => if isDelivery input then none else (x.server.step env input).map x.advance
  | .deliver =>
    match x.toServer with
    | [] => none
    | f :: toServer =>
      (x.server.step env (.event (x.server.world.opens f))).map fun server =>
        { x.advance server with
          toServer, opened := x.opened ++ [⟨f, x.server.world.rxEnd⟩] }
  | .client act =>
    (x.client.act k act).map fun r => { x with client := r.1, toServer := x.toServer ++ [r.2] }
  | .receive =>
    match x.client.stage, x.toClient with
    | .gone, _ => none
    | _, [] => none
    | _, f :: toClient => some
      { x with
        client := if f = packets.mark x.client.rx f.payload then x.client.takes k f.payload
          else { x.client with stage := .gone }
        toClient, opened := x.opened ++ [⟨f, x.client.rx⟩] }

/-- Behind the handshake; its packets to the client are still under way. -/
def Peers.start (h : Handshake) : Peers where
  server := Config.start h
  client :=
    { tx := ⟨0, h.rx, h.seqRx⟩, rx := ⟨0, h.tx, 0⟩
      clientId := h.clientId, sessionId := h.sessionId, stage := .idle }
  toServer := []
  toClient := h.frames
  opened := []

/-- A run of both parties. -/
def Peers.runs (env : Env) (k : ClientCrypto env.crypto) (h : Handshake) (moves : List Move) :
    Option Peers :=
  run (Peers.step env k) (Peers.start h) moves

end QuantumSsh.Channel
