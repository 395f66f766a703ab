import QuantumSsh.Channel.Agreement
import QuantumSsh.Channel.Strict
import QuantumSsh.Lib.Tape
import QuantumSsh.Transport.Login
import QuantumSsh.Transport.Schedule

/-!
# The honest client

The handshake of a client that does what the protocol asks, on a host that works: the two
come to the same session identifier and to the same ciphers, and the client is let in. What
the client sends depends on what it was sent, so the bytes come in two parts: up to its
NEWKEYS, and what it seals with the keys it has derived.
-/

namespace QuantumSsh.Transport

open Wire Kex Machine Program Channel

/-! ### What is read -/

/-- The bytes to come are these. -/
def Link.load (input : Bytes) (l : Link) : Link := { l with input }

/-- The program reads just these bytes. -/
abbrev Takes {α : Type} (p : HandshakeProg α) (l : Link) (head : Bytes) (a : α) (l' : Link) : Prop :=
  Consumes Link.load p l head a l'

/-- The answers of the environment that were taken. -/
def Link.after (l : Link) (n : ℕ) : Link := { l with tick := l.tick + n }

/-- A packet in the clear was read. -/
def Link.gotPlain (l : Link) (payload : Bytes) : Link :=
  { (l.after 2).observe (.readPlain l.seqRx payload) with seqRx := wrappingAdd 32 l.seqRx 1 }

def Link.putPlain (l : Link) (payload : Bytes) : Link :=
  { (l.after 3).observe (.wrotePlain l.seqTx payload) with seqTx := wrappingAdd 32 l.seqTx 1 }

def Link.gotSealed (l : Link) (payload : Bytes) : Link :=
  { (l.after 1).observe (.readSealed l.seqRx payload) with seqRx := wrappingAdd 32 l.seqRx 1 }

def Link.putSealed (l : Link) (tx : Cipher.PacketCipher) (payload : Bytes) : Link :=
  { (l.after 3).observe (.wroteSealed tx l.seqTx payload) with seqTx := wrappingAdd 32 l.seqTx 1 }

/-! ### A host that works -/

/-- Nothing outside the server fails: there is time, the stream takes what is written, the
random sources and the signature key answer, and the host key and its signature fit a packet. -/
structure Host.Works (host : Host) : Prop where
  timely : ∀ tick, host.timeUp tick = false
  writes : ∀ tick, host.env.writeOk tick = true
  draws : ∀ tick n, ∃ b, host.env.random tick n = some b ∧ b.length = n
  pads : ∀ tick n, (host.padding tick n).isSome = true
  signs : ∀ tick m, ∃ signature, host.env.sign tick m = some signature ∧
    host.env.hostKeyBlob.length + signature.length ≤ 32768
  lawful : host.primitives.Lawful

section

variable {host : Host} {l : Link}

theorem consult_takes {α : Type} (f : ℕ → α) (l : Link) :
    Takes (consult f) l [] (f l.tick) (l.after 1) := fun _ => rfl

theorem look_takes {α : Type} {g : Link → α} (hg : ∀ input l, g (Link.load input l) = g l)
    (l : Link) : Takes (look g) l [] (g l) l :=
  consumes_look hg l

theorem update_takes {g : Link → Link}
    (hg : ∀ input l, g (Link.load input l) = Link.load input (g l)) (l : Link) : Takes (update g) l [] () (g l) :=
  consumes_update hg l

theorem await_takes (hworks : host.Works) (l : Link) : Takes (await host) l [] () (l.after 1) := by
  refine (consult_takes host.timeUp l).then_reads ?_
  rw [hworks.timely]
  exact consumes_pure () (l.after 1)

theorem readExact_takes (hworks : host.Works) (l : Link) (head : Bytes) :
    Takes (readExact host head.length) l head head (l.after 1) := by
  refine (await_takes hworks l).then_reads fun rest => ?_
  have hlen : ¬(head ++ rest).length < head.length := by
    rw [List.length_append]
    omega
  have hinput : (Link.load (head ++ rest) (l.after 1)).input = head ++ rest := rfl
  rw [look_bind, hinput, if_neg hlen]
  change (Except.ok ((head ++ rest).take head.length),
    Link.load ((head ++ rest).drop head.length) (l.after 1)) = _
  rw [List.take_left, List.drop_left]

/-- A packet in the clear, taken apart. -/
theorem exists_of_encodePacket {draw : Draw} {payload out : Bytes}
    (h : encodePacket draw payload = .ok out) :
    ∃ lenBytes body, out = lenBytes ++ body ∧ lenBytes.length = 4 ∧
      validatePacketLength (beValue lenBytes) = .ok body.length ∧
      decodePacketBody body = .ok payload := by
  obtain ⟨pad, -, hlen, rfl⟩ := encodePacket_ok.1 h
  obtain ⟨hmin, hmax, hdvd⟩ := paddingFor_plaintext (4 + 1 + payload.length)
  have hpad := pad.property
  refine ⟨_, _, rfl, length_putUint32 _, ?_, ?_⟩
  · have hlong : (UInt8.ofNat pad.val.length :: (payload ++ pad.val)).length =
        1 + payload.length + pad.val.length := by
      simp only [List.length_cons, List.length_append]
      omega
    rw [beValue_putUint32 (by omega), hlong, validatePacketLength,
      if_neg (by simp only [Wire.maxPacket]; omega),
      if_neg (by simp only [plaintextBlock]; omega)]
  · exact @decodePacketBody_padded pad.val.length (by simp only [minPadding]; omega) (by omega)
      payload ⟨pad.val, rfl⟩

theorem readPlain_takes (hworks : host.Works) (l : Link) {draw : Draw} {payload out : Bytes}
    (h : encodePacket draw payload = .ok out) :
    Takes (readPlain host) l out payload (l.gotPlain payload) := by
  obtain ⟨lenBytes, body, rfl, hfour, hlen, hbody⟩ := exists_of_encodePacket h
  have hfirst := readExact_takes hworks l lenBytes
  rw [hfour] at hfirst
  refine hfirst.bind ?_
  simp only [hlen]
  refine (readExact_takes hworks (l.after 1) body).then_rests ?_
  simp only [hbody]
  exact fun _ => rfl

theorem writePlain_takes (hworks : host.Works) (l : Link) {payload : Bytes}
    (hlen : payload.length ≤ 34991) :
    Takes (writePlain host payload) l [] () (l.putPlain payload) := by
  refine (consult_takes host.padding l).then_reads ?_
  obtain ⟨pad, hpad⟩ := Option.isSome_iff_exists.1
    (hworks.pads l.tick (paddingFor (4 + 1 + payload.length) plaintextBlock))
  rw [encodePacket_ok.2 ⟨pad, hpad, hlen, rfl⟩]
  refine (update_takes (fun _ _ => rfl) _).then_reads ((await_takes hworks _).then_reads ?_)
  refine (consult_takes host.env.writeOk _).then_reads ?_
  rw [hworks.writes]
  exact fun _ => rfl

theorem readSealedPacket_takes (hworks : host.Works) (l : Link) {rx next : Cipher.PacketCipher}
    {draw : Draw} {payload frame : Bytes}
    (h : rx.seal host.primitives draw l.seqRx payload = .ok (frame, next)) :
    Takes (readSealedPacket host rx) l frame (payload, rx.after 1) (l.gotSealed payload) := by
  obtain rfl := Cipher.PacketCipher.next_of_seal h
  have hopens := Cipher.PacketCipher.opens_of_seal host.primitives hworks.lawful h
  have hframed := hopens.framed
  refine (await_takes hworks l).then_reads fun rest => ?_
  have hbody : frameBodyLen host.primitives rx l.seqRx (frame.take 4) =
      .ok (frame.drop 4).length := by
    rw [frameBodyLen, hopens.declared]
  have hread : readSealed host.primitives ⟨l.seqRx, rx⟩ (frame ++ rest) =
      (.ok (payload, rest), ⟨wrappingAdd 32 l.seqRx 1, rx.after 1⟩) := by
    rw [@readSealed_frame host.primitives ⟨l.seqRx, rx⟩ frame (frame.drop 4).length
      (by rw [List.length_drop]; omega) hbody, openFrame, hopens.opened]
  have hinput : (id (Link.load (frame ++ rest) (l.after 1))).input = frame ++ rest := rfl
  have hseq : (id (Link.load (frame ++ rest) (l.after 1))).seqRx = l.seqRx := rfl
  rw [look_bind, hinput, hseq, hread]
  rfl

theorem writeSealedPacket_takes (hworks : host.Works) (l : Link) {tx : Cipher.PacketCipher}
    {payload : Bytes} (hlen : payload.length ≤ tx.maxPayload) :
    Takes (writeSealedPacket host tx payload) l [] (tx.after 1) (l.putSealed tx payload) := by
  refine (consult_takes host.padding l).then_reads ?_
  refine (look_takes (fun _ _ => rfl) _).then_reads ?_
  obtain ⟨⟨packet, next⟩, hseal⟩ := (tx.exists_seal_iff host.primitives hworks.lawful
    (hworks.pads l.tick) l.seqTx payload).2 hlen
  obtain rfl := Cipher.PacketCipher.next_of_seal hseal
  simp only [Link.after, hseal]
  refine (update_takes (fun _ _ => rfl) _).then_reads ((await_takes hworks _).then_reads ?_)
  refine (consult_takes host.env.writeOk _).then_reads ?_
  rw [hworks.writes]
  exact fun _ => rfl

/-! ### The stages in the clear -/

theorem takeIdLine_line {line acc : Bytes} (hline : (0x0a : UInt8) ∉ line)
    (hlen : acc.length + line.length < maxIdLine) (rest : Bytes) :
    takeIdLine acc (line ++ 0x0a :: rest) = some (acc ++ line, rest) := by
  induction line generalizing acc with
  | nil =>
    rw [List.length_nil] at hlen
    rw [List.nil_append, takeIdLine, if_neg (by omega), if_pos rfl, List.append_nil]
  | cons byte line ih =>
    obtain ⟨hbyte, hline⟩ : 0x0a ≠ byte ∧ 0x0a ∉ line := by simpa using hline
    rw [List.length_cons] at hlen
    rw [List.cons_append, takeIdLine, if_neg (by omega), if_neg (Ne.symm hbyte),
      ih hline (by rw [List.length_append, List.length_singleton]; omega), List.append_assoc]
    rfl

/-- The line is an identification, and fits. -/
structure IsIdLine (line : Bytes) : Prop where
  wellFormed : wellFormedPeerId line = true
  whole : (0x0a : UInt8) ∉ line
  fits : line.length + 1 < maxIdLine

theorem versionExchange_takes (hworks : host.Works) (l : Link) {line : Bytes}
    (hline : IsIdLine line) :
    Takes (versionExchange host) l (line ++ [0x0d, 0x0a]) ⟨line⟩ (l.after 3) := by
  refine (await_takes hworks l).then_reads ((consult_takes host.env.writeOk _).then_reads ?_)
  rw [hworks.writes]
  have hread : Takes (readIdLine host) (l.after 2) (line ++ [0x0d, 0x0a]) line (l.after 3) := by
    refine (await_takes hworks _).then_reads fun rest => ?_
    have htake : takeIdLine [] (line ++ [0x0d, 0x0a] ++ rest) = some (line ++ [0x0d], rest) := by
      have hcr : (0x0a : UInt8) ∉ line ++ [0x0d] := by
        rw [List.mem_append, List.mem_singleton]
        exact not_or.2 ⟨hline.whole, by decide⟩
      have hfits := hline.fits
      have h := @takeIdLine_line (line ++ [0x0d]) [] hcr (by simpa using hfits) rest
      simpa using h
    have hinput : (Link.load (line ++ [0x0d, 0x0a] ++ rest) ((l.after 2).after 1)).input =
        line ++ [0x0d, 0x0a] ++ rest := rfl
    rw [look_bind, hinput, htake]
    change (Except.ok (if (line ++ [0x0d]).getLast? = some 0x0d then (line ++ [0x0d]).dropLast
      else line ++ [0x0d]), Link.load rest (l.after 3)) = _
    rw [if_pos (by simp), List.dropLast_concat]
  refine hread.then_rests ?_
  rw [hline.wellFormed]
  exact fun _ => rfl

/-- A packet in the clear. -/
def plainFrame (draw : Draw) (payload : Bytes) : Bytes :=
  match encodePacket draw payload with
  | .ok packet => packet
  | .error _ => []

theorem encodePacket_plainFrame {draw : Draw} (hdraw : ∀ n, (draw n).isSome = true)
    {payload : Bytes} (hlen : payload.length ≤ 34991) :
    encodePacket draw payload = .ok (plainFrame draw payload) := by
  obtain ⟨pad, hpad⟩ := Option.isSome_iff_exists.1
    (hdraw (paddingFor (4 + 1 + payload.length) plaintextBlock))
  have hencode := encodePacket_ok.2 ⟨pad, hpad, hlen, rfl⟩
  rw [plainFrame, hencode]

theorem length_buildKexinit {cookie : Bytes} (hcookie : cookie.length = 16) :
    (buildKexinitWith kexList cookie).length ≤ 34991 := by
  have hrest : (buildKexinitWith kexList []).length ≤ 1000 := by decide +kernel
  have hsplit : (buildKexinitWith kexList cookie).length =
      cookie.length + (buildKexinitWith kexList []).length := by
    simp only [buildKexinitWith, List.length_append, List.length_nil]
    omega
  omega

/-- The KEXINIT of the client is read, and a guess that is to be skipped. -/
def Link.offered (l : Link) (iS iC : Bytes) (n : Negotiated) (guess : Bytes) : Link :=
  let l := ((l.after 1).putPlain iS).gotPlain iC
  if n.skipGuessedPacket then l.gotPlain guess else l

theorem exchangeKexinit_takes (hworks : host.Works) (l : Link) (line : Bytes) {o : Offer}
    {n : Negotiated} (hagree : agree o.payload true = .ok n) (hoffer : o.payload.length ≤ 34991)
    {guess : Bytes} (hguess : guess.length ≤ 34991) {draw : ℕ → Draw}
    (hdraw : ∀ i len, (draw i len).isSome = true) :
    ∃ cookie, cookie.length = 16 ∧
      Takes (exchangeKexinit host ⟨line⟩) l
        (plainFrame (draw 0) o.payload ++
          if n.skipGuessedPacket then plainFrame (draw 1) guess else [])
        ⟨line, o.payload, buildKexinitWith kexList cookie, n⟩
        (l.offered (buildKexinitWith kexList cookie) o.payload n guess) := by
  obtain ⟨cookie, hrandom, hcookie⟩ := hworks.draws l.tick 16
  refine ⟨cookie, hcookie, ?_⟩
  refine (consult_takes (fun tick => host.env.random tick 16) l).then_reads ?_
  simp only [hrandom]
  refine (writePlain_takes hworks _ (length_buildKexinit hcookie)).then_reads ?_
  refine (readPlain_takes hworks _ (encodePacket_plainFrame (hdraw 0) hoffer)).bind ?_
  rw [agree] at hagree
  rw [if_neg (not_not_intro o.head), hagree]
  cases hskip : n.skipGuessedPacket with
  | false =>
    simp only [hskip, Link.offered]
    exact fun _ => rfl
  | true =>
    simp only [hskip, if_true, Link.offered]
    have hread := readPlain_takes hworks
      (((l.after 1).putPlain (buildKexinitWith kexList cookie)).gotPlain o.payload)
      (encodePacket_plainFrame (hdraw 1) hguess)
    exact hread.then_rests fun _ => rfl

section

variable (k : ClientCrypto host.env.crypto) {secret : ClientSecret}

theorem readHybridInit_initPayload :
    readHybridInit.run (k.initPayload secret) = .ok (k.clientInit secret, []) := by
  have hlen : (k.clientInit secret).length = clientInitLen := length_clientInit k
  have hsplit : k.initPayload secret =
      sshMsgKexHybridInit :: (putString (k.clientInit secret) ++ []) := by
    simp [ClientCrypto.initPayload]
  rw [hsplit]
  refine Reader.run_bind_ok.2 ⟨_, _, rfl,
    Reader.run_bind_ok.2 ⟨k.clientInit secret, [], ?_, ?_⟩⟩
  · refine Reader.string_putString hlen.le ?_ _
    rw [hlen]
    decide
  · exact Reader.run_bind_ok.2 ⟨(), [], rfl, rfl⟩

/-- The private keys of the client lead to public keys that the server takes. -/
structure IsUsable (secret : ClientSecret) : Prop where
  valid : host.env.crypto.validEncapsulationKey
    (k.encapsulationKey secret.decapsulationKey) = true
  contributory : ∀ x, (host.env.crypto.diffieHellman x
    (host.env.crypto.x25519Public secret.x25519Secret)).isSome = true

theorem exists_hybridExchange (husable : IsUsable k secret) (m own : Bytes) :
    ∃ outcome, hybridExchange host.env.crypto (k.clientInit secret) (some m) (some own) =
      .ok outcome ∧ k.sharedSecret secret outcome.serverReply = some outcome.sharedSecret ∧
        outcome.serverReply.length = mlkemCtLen + x25519Len := by
  have htake : (k.clientInit secret).take mlkemEkLen =
      k.encapsulationKey secret.decapsulationKey := by
    rw [ClientCrypto.clientInit, List.take_left' (k.encapsulationKey_length _)]
  have hdrop : (k.clientInit secret).drop mlkemEkLen =
      host.env.crypto.x25519Public secret.x25519Secret := by
    rw [ClientCrypto.clientInit, List.drop_left' (k.encapsulationKey_length _)]
  obtain ⟨kCl, hkCl⟩ := Option.isSome_iff_exists.1 (husable.contributory own)
  have hexchange : hybridExchange host.env.crypto (k.clientInit secret) (some m) (some own) =
      .ok { serverReply :=
              (host.env.crypto.encapsulate (k.encapsulationKey secret.decapsulationKey) m).1 ++
                host.env.crypto.x25519Public own
            sharedSecret := host.env.crypto.sha256
              ((host.env.crypto.encapsulate (k.encapsulationKey secret.decapsulationKey) m).2 ++
                kCl) } := by
    have hlen : (k.clientInit secret).length = clientInitLen := length_clientInit k
    simp [hybridExchange, hlen, htake, hdrop, husable.valid, hkCl, pure, Except.pure]
  refine ⟨_, hexchange, (exists_of_hybridExchange k hexchange).1, ?_⟩
  rw [List.length_append, k.ciphertext_length, k.x25519Public_length]

/-- The KEX_HYBRID_REPLY. -/
def replyPayload (env : Env) (serverReply signature : Bytes) : Bytes :=
  [sshMsgKexHybridReply] ++ putString env.hostKeyBlob ++ putString serverReply ++
    putString signature

/-- The hash of the exchange. -/
def hashOf (env : Env) (clientId iC iS clientInit serverReply sharedSecret : Bytes) : Bytes :=
  exchangeHash env.crypto
    { clientId, serverId, clientKexinit := iC, serverKexinit := iS, hostKeyBlob := env.hostKeyBlob
      clientInit, serverReply, sharedSecret }

def Link.replied (l : Link) (init reply sharedSecret h : Bytes) : Link :=
  (((l.gotPlain init).after 3).putPlain reply).observe (.agreed sharedSecret h)

theorem runHybrid_takes (hworks : host.Works) (l : Link) (stage : HybridInit)
    (husable : IsUsable k secret) {draw : Draw} (hdraw : ∀ len, (draw len).isSome = true) :
    ∃ serverReply sharedSecret signature tick,
      serverReply.length = mlkemCtLen + x25519Len ∧
      k.sharedSecret secret serverReply = some sharedSecret ∧
      host.env.sign tick (hashOf host.env stage.peerIdLine stage.iC stage.iS (k.clientInit secret)
        serverReply sharedSecret) = some signature ∧
      host.env.hostKeyBlob.length + signature.length ≤ 32768 ∧
      Takes (runHybrid host stage) l (plainFrame draw (k.initPayload secret))
        { negotiated := stage.negotiated, sharedSecret
          exchangeHash := hashOf host.env stage.peerIdLine stage.iC stage.iS (k.clientInit secret)
            serverReply sharedSecret
          clientId := stage.peerIdLine }
        (l.replied (k.initPayload secret) (replyPayload host.env serverReply signature)
          sharedSecret (hashOf host.env stage.peerIdLine stage.iC stage.iS (k.clientInit secret)
            serverReply sharedSecret)) := by
  let l₁ := l.gotPlain (k.initPayload secret)
  obtain ⟨m, hm, -⟩ := hworks.draws l₁.tick 32
  obtain ⟨own, hown, -⟩ := hworks.draws (l₁.after 1).tick 32
  obtain ⟨outcome, hexchange, hsecret, hreply⟩ := exists_hybridExchange k husable m own
  obtain ⟨signature, hsign, hfits⟩ := hworks.signs ((l₁.after 1).after 1).tick
    (hashOf host.env stage.peerIdLine stage.iC stage.iS (k.clientInit secret) outcome.serverReply
      outcome.sharedSecret)
  refine ⟨outcome.serverReply, outcome.sharedSecret, signature, _, hreply, hsecret, hsign, hfits, ?_⟩
  have hinit : (k.initPayload secret).length ≤ 34991 := by
    have hlen : (k.clientInit secret).length = clientInitLen := length_clientInit k
    rw [ClientCrypto.initPayload, List.length_append, length_putString, hlen]
    decide
  refine (readPlain_takes hworks l (encodePacket_plainFrame hdraw hinit)).then_rests ?_
  have hhead : (k.initPayload secret).head?.getD 0 = sshMsgKexHybridInit := rfl
  rw [if_neg (not_not_intro hhead), readHybridInit_initPayload k]
  refine (consult_takes (fun tick => host.env.random tick 32) l₁).then_reads ?_
  refine (consult_takes (fun tick => host.env.random tick 32) (l₁.after 1)).then_reads ?_
  rw [hm, hown, hexchange]
  refine (consult_takes (fun tick => host.env.sign tick _) ((l₁.after 1).after 1)).then_reads ?_
  rw [hashOf] at hsign
  simp only [hsign]
  have hlen : (replyPayload host.env outcome.serverReply signature).length ≤ 34991 := by
    have hsize : mlkemCtLen + x25519Len = 1120 := rfl
    simp only [replyPayload, List.length_append, length_putString, List.length_singleton]
    omega
  refine (writePlain_takes hworks _ hlen).then_reads ?_
  refine (update_takes (fun _ _ => rfl) _).then_reads fun _ => rfl

end

/-- Both NEWKEYS have passed. -/
def Link.switched (l : Link) : Link :=
  let l := { (l.putPlain [sshMsgNewkeys]).observe .switchedTx with seqTx := 0 }
  { (l.gotPlain [sshMsgNewkeys]).observe .switchedRx with seqRx := 0 }

/-- The ciphers of both ends of the two directions: the client's own, and the server's. -/
structure Installs (c : Crypto) (sharedSecret h c2s s2c : Bytes) (rx tx : Cipher.PacketCipher) :
    Prop where
  derived : ∃ forRx forTx, deriveCipherPair c sharedSecret h h c2s s2c = some (forRx, forTx) ∧
    installCipher forRx = .ok rx ∧ installCipher forTx = .ok tx

theorem exists_installs (c : Crypto) (sharedSecret h : Bytes) {c2s s2c : Bytes}
    (hc2s : IsOurCipher c2s) (hs2c : IsOurCipher s2c) :
    ∃ rx tx, Installs c sharedSecret h c2s s2c rx tx := by
  have hpair : DerivesPair c sharedSecret h h c2s s2c := derivesPair hc2s hs2c
  obtain ⟨rx, hrx⟩ := hpair.rx.installs
  obtain ⟨tx, htx⟩ := hpair.tx.installs
  exact ⟨rx, tx, _, _, hpair.pair, hrx, htx⟩

theorem le_maxPayload {n : ℕ} (h : n ≤ 34987) (c : Cipher.PacketCipher) : n ≤ c.maxPayload := by
  cases c with
  | chaCha c =>
    have hmax : (Cipher.PacketCipher.chaCha c).maxPayload = 34995 := rfl
    omega
  | gcm c => exact h

theorem exchangeNewkeys_takes (hworks : host.Works) (l : Link) (stage : NewKeys)
    {rx tx : Cipher.PacketCipher} (hinstalls : Installs host.env.crypto stage.sharedSecret
      stage.exchangeHash stage.negotiated.cipherC2s stage.negotiated.cipherS2c rx tx)
    {draw : Draw} (hdraw : ∀ len, (draw len).isSome = true) :
    Takes (exchangeNewkeys host stage) l (plainFrame draw [sshMsgNewkeys])
      { rx
        tx := if stage.negotiated.extInfo then tx.after 1 else tx
        sessionId := stage.exchangeHash
        clientId := stage.clientId }
      (if stage.negotiated.extInfo then l.switched.putSealed tx extInfoMessage else l.switched) := by
  obtain ⟨forRx, forTx, hpair, hrx, htx⟩ := hinstalls.derived
  refine (writePlain_takes hworks l (by simp)).then_reads ?_
  refine (update_takes (fun _ _ => rfl) _).then_reads ?_
  refine (readPlain_takes hworks _ (encodePacket_plainFrame hdraw (by simp))).then_rests ?_
  rw [if_neg (not_not_intro rfl)]
  refine (update_takes (fun _ _ => rfl) _).then_reads ?_
  simp only [hpair, hrx, htx]
  have hlen : extInfoMessage.length ≤ tx.maxPayload := le_maxPayload (by decide) tx
  cases hext : stage.negotiated.extInfo with
  | false => exact fun _ => rfl
  | true => exact (writeSealedPacket_takes hworks l.switched hlen).then_reads fun _ => rfl

/-! ### The sealed stages -/

/-- The request is signed over the session with a key that may log in whenever it is asked. -/
def Convinces (host : Host) (sessionId p : Bytes) (candidate : Auth.Candidate) : Prop :=
  ∃ user algorithm keyBlob signed,
    Auth.parseUserauthRequest p = .ok (.publicKey user algorithm keyBlob (some signed)) ∧
    (∀ tick, host.resolve tick algorithm keyBlob user = some candidate) ∧
    verifyAuthSignature host sessionId signed candidate.verifyingKey = true

/-- The request is well formed and proves no key, whenever it is asked. -/
def FallsShort (host : Host) (sessionId p : Bytes) : Prop :=
  ∃ request, Auth.parseUserauthRequest p = .ok request ∧
    ∀ user algorithm keyBlob signed tick candidate,
      request = .publicKey user algorithm keyBlob (some signed) →
        host.resolve tick algorithm keyBlob user = some candidate →
          verifyAuthSignature host sessionId signed candidate.verifyingKey = false

theorem askResolve_takes (l : Link) (algorithm keyBlob user : Bytes) :
    Takes (askResolve host algorithm keyBlob user) l [] (host.resolve l.tick algorithm keyBlob user)
      ((l.after 1).observe
        (.resolved algorithm keyBlob user (host.resolve l.tick algorithm keyBlob user))) := by
  refine (consult_takes (fun tick => host.resolve tick algorithm keyBlob user) l).then_reads ?_
  exact (update_takes (fun _ _ => rfl) _).then_reads fun _ => rfl

/-- What the decision on a request leaves of the link. -/
structure Link.Decided (l l' : Link) : Prop where
  seqRx : l'.seqRx = l.seqRx
  log : l.log <+: l'.log

theorem judge_takes_short {request : Auth.UserauthRequest} {sessionId p : Bytes}
    (hparse : Auth.parseUserauthRequest p = .ok request) (hshort : FallsShort host sessionId p)
    (l : Link) :
    ∃ verdict l', Takes (judge host sessionId request) l [] verdict l' ∧ l.Decided l' ∧
      ((∃ method, verdict = .failed method) ∨
        ∃ user algorithm keyBlob, verdict = .known algorithm keyBlob ∧
          request = .publicKey user algorithm keyBlob none) := by
  obtain ⟨_, hparse', hunproven⟩ := hshort
  rw [hparse] at hparse'
  obtain rfl := Except.ok.inj hparse'
  cases request with
  | refused method =>
    exact ⟨_, l, consumes_pure (Verdict.failed method) l, ⟨rfl, List.prefix_rfl⟩, .inl ⟨method, rfl⟩⟩
  | publicKey user algorithm keyBlob signature =>
    have hask := @askResolve_takes host l algorithm keyBlob user
    have hdecided : l.Decided ((l.after 1).observe
        (.resolved algorithm keyBlob user (host.resolve l.tick algorithm keyBlob user))) :=
      ⟨rfl, List.prefix_append _ _⟩
    cases hresolve : host.resolve l.tick algorithm keyBlob user with
    | none =>
      rw [hresolve] at hask hdecided
      cases signature with
      | none => exact ⟨_, _, hask.then_reads fun _ => rfl, hdecided, .inl ⟨_, rfl⟩⟩
      | some signed => exact ⟨_, _, hask.then_reads fun _ => rfl, hdecided, .inl ⟨_, rfl⟩⟩
    | some candidate =>
      rw [hresolve] at hask hdecided
      cases signature with
      | none =>
        exact ⟨_, _, hask.then_reads fun _ => rfl, hdecided,
          .inr ⟨user, algorithm, keyBlob, rfl, rfl⟩⟩
      | some signed =>
        have hverify := hunproven user algorithm keyBlob signed l.tick candidate rfl hresolve
        refine ⟨.failed Auth.authMethod, _, hask.then_reads ?_, hdecided, .inl ⟨_, rfl⟩⟩
        simp only [hverify]
        exact fun _ => rfl

theorem judge_takes_proof {sessionId p : Bytes} {candidate : Auth.Candidate}
    (hproof : Convinces host sessionId p candidate) (l : Link) :
    ∃ request l', Auth.parseUserauthRequest p = .ok request ∧
      Takes (judge host sessionId request) l [] (.success candidate) l' ∧ l.Decided l' := by
  obtain ⟨user, algorithm, keyBlob, signed, hparse, hresolve, hverify⟩ := hproof
  have hask := @askResolve_takes host l algorithm keyBlob user
  rw [hresolve] at hask
  have hdecided : l.Decided
      ((l.after 1).observe (.resolved algorithm keyBlob user (some candidate))) :=
    ⟨rfl, List.prefix_append _ _⟩
  refine ⟨_, _, hparse, hask.then_reads ?_, hdecided⟩
  simp only [hverify]
  exact fun _ => rfl

/-- PK_OK fits a packet. -/
theorem length_buildPkOk {p user algorithm keyBlob : Bytes}
    (h : Auth.parseUserauthRequest p = .ok (.publicKey user algorithm keyBlob none)) :
    (Auth.buildPkOk algorithm keyBlob).length ≤ 34987 := by
  cases Auth.encodes_of_parse h with
  | probe hkey =>
    have hfits := hkey.fits
    have hbound : Auth.blobBound algorithm ≤ 16384 := by
      unfold Auth.blobBound
      split <;> decide
    have halgorithm : algorithm.length ≤ 64 := by
      obtain hold | hcert := hkey.known
      · rw [hold]
        decide
      · rw [hcert]
        decide
    simp only [Auth.buildPkOk, List.length_append, length_putString, List.length_singleton]
    omega

/-- The frames of a sequence, one after the other. -/
theorem exists_of_sealAll {draw : ℕ → Draw} {seqnr : ℕ} {c c' : Cipher.PacketCipher}
    {p : Bytes} {rest frames : List Bytes}
    (h : Cipher.sealAll host.primitives draw seqnr c (p :: rest) = .ok (frames, c')) :
    ∃ frame later, c.seal host.primitives (draw seqnr) seqnr p = .ok (frame, c.after 1) ∧
      Cipher.sealAll host.primitives draw (wrappingAdd 32 seqnr 1) (c.after 1) rest =
        .ok (later, c') ∧ frames = frame :: later := by
  obtain ⟨⟨frame, next⟩, hseal, h⟩ := Cipher.bind_eq_ok.1 h
  obtain ⟨⟨later, c''⟩, hrest, h⟩ := Cipher.bind_eq_ok.1 h
  cases h
  obtain rfl := Cipher.PacketCipher.next_of_seal hseal
  exact ⟨frame, later, hseal, hrest, rfl⟩

theorem Link.Decided.putSealed {l l' : Link} (h : l.Decided l') (tx : Cipher.PacketCipher)
    (payload : Bytes) : l.Decided (l'.putSealed tx payload) :=
  ⟨h.seqRx, h.log.trans (List.prefix_append _ _)⟩

theorem Link.Decided.observe {l l' : Link} (h : l.Decided l') (obs : HandshakeObs) :
    l.Decided (l'.observe obs) :=
  ⟨h.seqRx, h.log.trans (List.prefix_append _ _)⟩

theorem Link.log_gotSealed (l : Link) (p : Bytes) : l.log <+: (l.gotSealed p).log :=
  List.prefix_append _ _

/-- The stage after a request, and its answer. -/
def Secured.onward (stage : Secured) (n : ℕ) : Secured :=
  { stage with rx := stage.rx.after n, tx := stage.tx.after n }

theorem Secured.onward_onward (stage : Secured) (m n : ℕ) :
    (stage.onward m).onward n = stage.onward (m + n) := by
  simp only [onward, Cipher.PacketCipher.after_after]

/-- One round of the loop that does not end it. -/
theorem authenticateLoop_takes_short (hworks : host.Works) {stage : Secured} {l : Link}
    {fuel attempts failures : ℕ} (hattempts : attempts + 1 < Auth.maxAuthAttempts)
    {p frame : Bytes} {draw : Draw} (hshort : FallsShort host stage.sessionId p)
    (hseal : stage.rx.seal host.primitives draw l.seqRx p = .ok (frame, stage.rx.after 1))
    {head : Bytes} {a : AuthAccepted}
    (hrest : ∀ failures l₁, (l.gotSealed p).Decided l₁ → ∃ l',
      Takes (authenticateLoop host fuel (attempts + 1) failures (stage.onward 1)) l₁ head a l' ∧
        l₁.log <+: l'.log) :
    ∃ l', Takes (authenticateLoop host (fuel + 1) attempts failures stage) l (frame ++ head) a l' ∧
      l.log <+: l'.log := by
  obtain ⟨request, hparse, hunproven⟩ := hshort
  obtain ⟨verdict, l₁, hjudge, hdecided, hverdict⟩ :=
    judge_takes_short hparse ⟨request, hparse, hunproven⟩ (l.gotSealed p)
  have hread := readSealedPacket_takes hworks l hseal
  have hbudget : ¬Auth.maxAuthAttempts ≤ attempts + 1 := by omega
  obtain ⟨method, rfl⟩ | ⟨user, algorithm, keyBlob, rfl, rfl⟩ := hverdict
  · have hlen : (Auth.buildFailurePayload false).length ≤ stage.tx.maxPayload :=
      le_maxPayload (by decide) stage.tx
    have hdone := (hdecided.observe (.authFailed method (failures + 1))).putSealed stage.tx
      (Auth.buildFailurePayload false)
    obtain ⟨l', hnext, hlog⟩ := hrest (failures + 1) _ hdone
    refine ⟨l', hread.bind ?_, (l.log_gotSealed p).trans (hdone.log.trans hlog)⟩
    simp only [hparse]
    refine hjudge.then_reads ((update_takes (fun _ _ => rfl) l₁).then_reads ?_)
    rw [if_neg hbudget]
    exact (writeSealedPacket_takes hworks _ hlen).then_reads hnext
  · have hlen : (Auth.buildPkOk algorithm keyBlob).length ≤ stage.tx.maxPayload :=
      le_maxPayload (length_buildPkOk hparse) stage.tx
    have hdone := hdecided.putSealed stage.tx (Auth.buildPkOk algorithm keyBlob)
    obtain ⟨l', hnext, hlog⟩ := hrest failures _ hdone
    refine ⟨l', hread.bind ?_, (l.log_gotSealed p).trans (hdone.log.trans hlog)⟩
    simp only [hparse]
    refine hjudge.then_reads ?_
    simp only [if_neg hbudget]
    refine (writeSealedPacket_takes hworks l₁ hlen).then_reads ?_
    exact hnext

/-- The round of the proof. -/
theorem authenticateLoop_takes_proof (hworks : host.Works) {stage : Secured} {l : Link}
    {fuel attempts failures : ℕ} {p frame : Bytes} {draw : Draw} {candidate : Auth.Candidate}
    (hproof : Convinces host stage.sessionId p candidate)
    (hseal : stage.rx.seal host.primitives draw l.seqRx p = .ok (frame, stage.rx.after 1)) :
    ∃ l', Takes (authenticateLoop host (fuel + 1) attempts failures stage) l frame
      { secured := stage.onward 1, authenticated := candidate.authenticated } l' ∧
        l.log <+: l'.log := by
  obtain ⟨request, l₁, hparse, hjudge, hdecided⟩ := judge_takes_proof hproof (l.gotSealed p)
  have hread := readSealedPacket_takes hworks l hseal
  have hlen : Auth.buildSuccessPayload.length ≤ stage.tx.maxPayload :=
    le_maxPayload (by decide) stage.tx
  have hdone := (hdecided.putSealed stage.tx Auth.buildSuccessPayload).observe
    (.authSucceeded Auth.authMethod candidate.authenticated)
  refine ⟨_, hread.then_rests ?_, (l.log_gotSealed p).trans hdone.log⟩
  simp only [hparse]
  refine hjudge.then_reads ((writeSealedPacket_takes hworks l₁ hlen).then_reads ?_)
  exact (update_takes (fun _ _ => rfl) _).then_reads fun _ => rfl

/-- The loop reads the requests up to the proof, by induction on those before it. -/
theorem authenticateLoop_takes (hworks : host.Works) {draw : ℕ → Draw} {last : Bytes}
    {candidate : Auth.Candidate} {requests : List Bytes} :
    ∀ {fuel attempts failures : ℕ} {stage : Secured} {l : Link} {frames : List Bytes}
      {rx : Cipher.PacketCipher}, requests.length < fuel →
      attempts + requests.length < Auth.maxAuthAttempts →
      (∀ p ∈ requests, FallsShort host stage.sessionId p) →
      Convinces host stage.sessionId last candidate →
      Cipher.sealAll host.primitives draw l.seqRx stage.rx (requests ++ [last]) =
        .ok (frames, rx) →
      ∃ l', Takes (authenticateLoop host fuel attempts failures stage) l frames.flatten
        { secured := stage.onward (requests.length + 1)
          authenticated := candidate.authenticated } l' ∧ l.log <+: l'.log := by
  induction requests with
  | nil =>
    intro fuel attempts failures stage l frames rx hfuel _ _ hproof hseal
    obtain ⟨fuel, rfl⟩ := Nat.exists_eq_succ_of_ne_zero (Nat.ne_of_gt hfuel)
    obtain ⟨frame, later, hframe, hlater, rfl⟩ := exists_of_sealAll hseal
    cases hlater
    rw [List.flatten_singleton]
    exact authenticateLoop_takes_proof hworks hproof hframe
  | cons p requests ih =>
    intro fuel attempts failures stage l frames rx hfuel hattempts hshort hproof hseal
    rw [List.length_cons] at hfuel hattempts
    obtain ⟨fuel, rfl⟩ := Nat.exists_eq_succ_of_ne_zero (Nat.ne_of_gt (Nat.zero_lt_of_lt hfuel))
    obtain ⟨frame, later, hframe, hlater, rfl⟩ := exists_of_sealAll hseal
    rw [List.flatten_cons]
    refine authenticateLoop_takes_short hworks (by omega) (hshort p List.mem_cons_self) hframe ?_
    intro failures l₁ hdecided
    have hlater' : Cipher.sealAll host.primitives draw l₁.seqRx (stage.onward 1).rx
        (requests ++ [last]) = .ok (later, rx) := by
      rw [hdecided.seqRx]
      exact hlater
    have hrest := @ih fuel (attempts + 1) failures (stage.onward 1) l₁ later rx (by omega) (by omega)
      (fun q hq => hshort q (List.mem_cons_of_mem _ hq)) hproof hlater'
    rwa [Secured.onward_onward, Nat.add_comm 1] at hrest

/-! ### The client's side of the first exchange -/

/-- The hash of the first exchange, which becomes the session identifier, and the ciphers of
the two directions, as the client computes them. -/
def opening {c : Crypto} (k : ClientCrypto c) (clientId : Bytes) (o : Offer) (iS : Bytes)
    (secret : ClientSecret) (reply : Bytes) :
    Option (Bytes × Cipher.PacketCipher × Cipher.PacketCipher) :=
  match parseKexinit iS, readHybridReply.run reply with
  | .ok theirs, .ok ((hostKeyBlob, serverReply, _signature), _) => do
    let c2s ← firstShared o.peer.encryptionC2s theirs.encryptionC2s
    let s2c ← firstShared o.peer.encryptionS2c theirs.encryptionS2c
    let shared ← k.sharedSecret secret serverReply
    let h := exchangeHash c
      { clientId, serverId, clientKexinit := o.payload, serverKexinit := iS, hostKeyBlob
        clientInit := k.clientInit secret, serverReply, sharedSecret := shared }
    let (out, inward) ← deriveCipherPair c shared h h c2s s2c
    let out ← (installCipher out).toOption
    let inward ← (installCipher inward).toOption
    return (h, out, inward)
  | _, _ => none

/-- The fields of the KEXINIT of the first exchange. -/
def firstFields (cookie : Bytes) : KexinitFields :=
  { ourFields cookie with kexAlgorithms := utf8 kexList }

theorem parse_firstKexinit {cookie : Bytes} (hcookie : cookie.length = 16) :
    parseKexinit (buildKexinitWith kexList cookie) = .ok (firstFields []).peer := by
  have hlists : ∀ raw ∈ (firstFields []).lists, IsNameList raw ∧ raw.length ≤ nameListBound := by
    decide +kernel
  refine parseKexinit_ok.2 ⟨firstFields cookie, ⟨hcookie, hlists, Nat.two_pow_pos 32⟩, ?_, rfl⟩
  have hempty : utf8 "" = [] := by decide
  simp [buildKexinitWith, putNameList, KexinitFields.encode, KexinitFields.lists, firstFields,
    ourFields, hempty, putBoolean]

theorem readHybridReply_replyPayload {env : Env} {serverReply signature : Bytes}
    (hreply : serverReply.length = mlkemCtLen + x25519Len)
    (hfits : env.hostKeyBlob.length + signature.length ≤ 32768) :
    readHybridReply.run (replyPayload env serverReply signature) =
      .ok ((env.hostKeyBlob, serverReply, signature), []) := by
  have hsplit : replyPayload env serverReply signature = sshMsgKexHybridReply ::
      (putString env.hostKeyBlob ++ (putString serverReply ++ (putString signature ++ []))) := by
    simp [replyPayload]
  have hmax : u32Max = 4294967295 := rfl
  have hsize : mlkemCtLen + x25519Len = 1120 := rfl
  rw [hsplit]
  refine Reader.run_bind_ok.2 ⟨_, _, rfl, Reader.run_bind_ok.2 ⟨env.hostKeyBlob, _,
    Reader.string_putString (by omega) (by omega) _, Reader.run_bind_ok.2 ⟨serverReply, _,
      Reader.string_putString (by omega) (by omega) _, Reader.run_bind_ok.2 ⟨signature, _,
        Reader.string_putString (by omega) (by omega) _, rfl⟩⟩⟩⟩

/-- Both sides choose the same ciphers. -/
theorem picks_of_agree {o : Offer} {initial : Bool} {n : Negotiated}
    (h : agree o.payload initial = .ok n) :
    pick o.peer.encryptionC2s = some n.cipherC2s ∧ pick o.peer.encryptionS2c = some n.cipherS2c := by
  rw [agree, o.parse] at h
  obtain ⟨c2s, s2c, hc2s, hs2c, hn⟩ := negotiate_of_acceptable (negotiate_ok_iff.1 ⟨n, h⟩)
  obtain rfl := Except.ok.inj (hn.symm.trans h)
  exact ⟨hc2s, hs2c⟩

/-- What the server sends in the clear, and what the client makes of it: the session
identifier, signed with the host key, and the ciphers. -/
structure Greets (host : Host) (k : ClientCrypto host.env.crypto) (clientId : Bytes) (o : Offer)
    (secret : ClientSecret) (iS reply h : Bytes) (out inward : Cipher.PacketCipher) : Prop where
  kexinit : ∃ cookie : Bytes, cookie.length = 16 ∧ iS = buildKexinitWith kexList cookie
  signed : ∃ serverReply signature tick,
    readHybridReply.run reply = .ok ((host.env.hostKeyBlob, serverReply, signature), []) ∧
      host.env.sign tick h = some signature
  opening : opening k clientId o iS secret reply = some (h, out, inward)

theorem greets {k : ClientCrypto host.env.crypto} {clientId : Bytes} {o : Offer}
    {secret : ClientSecret} {n : Negotiated} (hagree : agree o.payload true = .ok n)
    {cookie : Bytes} (hcookie : cookie.length = 16) {serverReply sharedSecret signature : Bytes}
    {tick : ℕ} (hreply : serverReply.length = mlkemCtLen + x25519Len)
    (hsecret : k.sharedSecret secret serverReply = some sharedSecret)
    (hsign : host.env.sign tick (hashOf host.env clientId o.payload
      (buildKexinitWith kexList cookie) (k.clientInit secret) serverReply sharedSecret) =
        some signature)
    (hfits : host.env.hostKeyBlob.length + signature.length ≤ 32768)
    {out inward : Cipher.PacketCipher} (hinstalls : Installs host.env.crypto sharedSecret
      (hashOf host.env clientId o.payload (buildKexinitWith kexList cookie) (k.clientInit secret)
        serverReply sharedSecret) n.cipherC2s n.cipherS2c out inward) :
    Greets host k clientId o secret (buildKexinitWith kexList cookie)
      (replyPayload host.env serverReply signature)
      (hashOf host.env clientId o.payload (buildKexinitWith kexList cookie) (k.clientInit secret)
        serverReply sharedSecret) out inward := by
  have hread := readHybridReply_replyPayload hreply hfits
  obtain ⟨hc2s, hs2c⟩ := picks_of_agree hagree
  obtain ⟨forOut, forInward, hpair, hout, hinward⟩ := hinstalls.derived
  refine ⟨⟨cookie, hcookie, rfl⟩, ⟨serverReply, signature, tick, hread, hsign⟩, ?_⟩
  rw [hashOf] at hpair
  simp only [opening, parse_firstKexinit hcookie, hread]
  rw [show (firstFields []).peer.encryptionC2s = utf8 encryptionList from rfl,
    show (firstFields []).peer.encryptionS2c = utf8 encryptionList from rfl, firstShared_eq,
    firstShared_eq, hc2s, hs2c, hsecret]
  simp only [Option.bind_eq_bind, Option.bind_some, hpair, hout, hinward]
  rfl

end

/-! ### The login -/

/-- A client that keeps to the protocol: what it sends in the clear, and its private keys. A
guess goes out only if the server is to skip it; otherwise the guess is the init itself. -/
structure Caller (host : Host) (k : ClientCrypto host.env.crypto) where
  line : Bytes
  isIdLine : IsIdLine line
  offer : Offer
  chosen : Negotiated
  agrees : agree offer.payload true = .ok chosen
  offer_fits : offer.payload.length ≤ 34991
  guess : Bytes
  guess_fits : guess.length ≤ 34991
  secret : ClientSecret
  usable : IsUsable k secret
  padding : ℕ → Draw
  pads : ∀ i n, (padding i n).isSome = true

section

variable {host : Host} {l : Link} {k : ClientCrypto host.env.crypto}

/-- The bytes up to the client's NEWKEYS. -/
def Caller.hello (caller : Caller host k) : Bytes :=
  (caller.line ++ [0x0d, 0x0a]) ++
    ((plainFrame (caller.padding 0) caller.offer.payload ++
      if caller.chosen.skipGuessedPacket then plainFrame (caller.padding 1) caller.guess else []) ++
    (plainFrame (caller.padding 2) (k.initPayload caller.secret) ++
      plainFrame (caller.padding 3) [sshMsgNewkeys]))

/-- The request for the service. -/
def serviceRequest : Bytes := [sshMsgServiceRequest] ++ putString (utf8 "ssh-userauth")

/-- The payload of a packet that was written in the clear. -/
def HandshakeObs.inClear : HandshakeObs → Option Bytes
  | .wrotePlain _ payload => some payload
  | _ => none

theorem after_of_sealAll {draw : ℕ → Draw} {payloads : List Bytes} :
    ∀ {seqnr : ℕ} {c c' : Cipher.PacketCipher} {frames : List Bytes},
      Cipher.sealAll host.primitives draw seqnr c payloads = .ok (frames, c') →
        c' = c.after payloads.length := by
  induction payloads with
  | nil =>
    intro seqnr c c' frames h
    cases h
    exact (Cipher.PacketCipher.after_zero c).symm
  | cons p rest ih =>
    intro seqnr c c' frames h
    obtain ⟨frame, later, -, hlater, rfl⟩ := exists_of_sealAll h
    rw [ih hlater, Cipher.PacketCipher.after_after, List.length_cons, Nat.add_comm 1]

theorem readServiceRequest_takes (hworks : host.Works) {l : Link} {stage : Secured} {draw : Draw}
    {frame : Bytes} (h : stage.rx.seal host.primitives draw l.seqRx serviceRequest =
      .ok (frame, stage.rx.after 1)) :
    Takes (readServiceRequest host stage) l frame
      (utf8 "ssh-userauth", { stage with rx := stage.rx.after 1 }) (l.gotSealed serviceRequest) := by
  have hparse : parseServiceRequest.run serviceRequest = .ok (utf8 "ssh-userauth", []) := by
    decide +kernel
  refine (readSealedPacket_takes hworks l h).then_rests ?_
  simp only [hparse]
  exact fun _ => rfl

theorem accept_takes (hworks : host.Works) (l : Link) (stage : Secured) :
    Takes (accept host stage) l [] { stage with tx := stage.tx.after 1 }
      (l.putSealed stage.tx [sshMsgServiceAccept]) := by
  have hlen : [sshMsgServiceAccept].length ≤ stage.tx.maxPayload :=
    le_maxPayload (by decide) stage.tx
  exact (writeSealedPacket_takes hworks l hlen).then_reads fun _ => rfl

/-- The part behind the NEWKEYS. -/
theorem login_takes (hworks : host.Works) {stage : Secured} {l : Link} (hseq : l.seqRx = 0)
    {draw : ℕ → Draw} {requests frames : List Bytes} {last : Bytes} {candidate : Auth.Candidate}
    {out : Cipher.PacketCipher} (hbudget : requests.length < Auth.maxAuthAttempts)
    (hshort : ∀ p ∈ requests, FallsShort host stage.sessionId p)
    (hproof : Convinces host stage.sessionId last candidate)
    (hseal : Cipher.sealAll host.primitives draw 0 stage.rx
      (serviceRequest :: (requests ++ [last])) = .ok (frames, out)) :
    ∃ l', Takes (do
        let (service, stage) ← readServiceRequest host stage
        if service = utf8 "ssh-userauth" then do
          let stage ← accept host stage
          authenticate host stage
        else deny host stage) l frames.flatten
      { secured := stage.onward (requests.length + 2)
        authenticated := candidate.authenticated } l' ∧
      l.log <+: l'.log := by
  obtain ⟨frame, later, hframe, hlater, rfl⟩ := exists_of_sealAll hseal
  rw [← hseq] at hframe hlater
  obtain ⟨l', hloop, hlog⟩ := @authenticateLoop_takes host hworks draw last candidate requests
    Auth.maxAuthAttempts 0 0 (stage.onward 1)
    ((l.gotSealed serviceRequest).putSealed stage.tx [sshMsgServiceAccept]) later out hbudget
    (by rwa [Nat.zero_add]) hshort hproof hlater
  rw [Secured.onward_onward, Nat.add_comm 1] at hloop
  refine ⟨l', ?_, ((l.log_gotSealed serviceRequest).trans (List.prefix_append _ _)).trans hlog⟩
  rw [List.flatten_cons]
  refine (readServiceRequest_takes hworks hframe).bind ?_
  simp only [if_true]
  exact (accept_takes hworks _ _).then_reads hloop

/-- What was written in the clear, up to the server's NEWKEYS. -/
theorem inClear_switched (iS iC init reply sharedSecret h guess : Bytes) (n : Negotiated) :
    ((((Link.start []).after 3).offered iS iC n guess).replied init reply sharedSecret
      h).switched.log.filterMap HandshakeObs.inClear = [iS, reply, [sshMsgNewkeys]] := by
  unfold Link.offered
  cases n.skipGuessedPacket with
  | false => rfl
  | true => rfl

/-- **The login of an honest client**, on a host that works: the server's side of the exchange
leads the client to the session identifier and the ciphers of the server, and whatever
requests it seals with them, up to the budget and the last one a proof, it is let in. -/
theorem login_completes (hworks : host.Works) (caller : Caller host k) :
    ∃ iS reply h out inward,
      Greets host k caller.line caller.offer caller.secret iS reply h out inward ∧
      ∀ {draw : ℕ → Draw} {requests frames : List Bytes} {last : Bytes}
        {candidate : Auth.Candidate} {out' : Cipher.PacketCipher} (rest : Bytes),
        requests.length < Auth.maxAuthAttempts → (∀ p ∈ requests, FallsShort host h p) →
        Convinces host h last candidate →
        Cipher.sealAll host.primitives draw 0 out (serviceRequest :: (requests ++ [last])) =
          .ok (frames, out') →
        ∃ l, runHandshake host (Link.start (caller.hello ++ frames.flatten ++ rest)) =
            (.ok
              { secured :=
                  { rx := out'
                    tx := inward.after
                      (requests.length + if caller.chosen.extInfo then 3 else 2)
                    sessionId := h
                    clientId := caller.line }
                authenticated := candidate.authenticated }, l) ∧
          l.input = rest ∧
          [iS, reply, [sshMsgNewkeys]] <+: l.log.filterMap HandshakeObs.inClear := by
  obtain ⟨cookie, hcookie, hkexinit⟩ := exchangeKexinit_takes hworks ((Link.start []).after 3)
    caller.line caller.agrees caller.offer_fits caller.guess_fits caller.pads
  let iS := buildKexinitWith kexList cookie
  let l₂ := ((Link.start []).after 3).offered iS caller.offer.payload caller.chosen caller.guess
  obtain ⟨serverReply, sharedSecret, signature, tick, hreply, hsecret, hsign, hfits, hhybrid⟩ :=
    runHybrid_takes k hworks l₂ ⟨caller.line, caller.offer.payload, iS, caller.chosen⟩
      caller.usable (caller.pads 2)
  let h := hashOf host.env caller.line caller.offer.payload iS (k.clientInit caller.secret)
    serverReply sharedSecret
  obtain ⟨hc2s, hs2c⟩ := isOurCipher_of_agree caller.agrees
  obtain ⟨out, inward, hinstalls⟩ := exists_installs host.env.crypto sharedSecret h hc2s hs2c
  let reply := replyPayload host.env serverReply signature
  let l₃ := l₂.replied (k.initPayload caller.secret) reply sharedSecret h
  have hnewkeys := exchangeNewkeys_takes hworks l₃
    ⟨caller.chosen, sharedSecret, h, caller.line⟩ hinstalls (caller.pads 3)
  refine ⟨iS, reply, h, out, inward,
    greets caller.agrees hcookie hreply hsecret hsign hfits hinstalls, ?_⟩
  intro draw requests frames last candidate out' rest hbudget hshort hproof hseal
  -- From here on the packets are sealed, numbered from zero.
  let stage : Secured :=
    { rx := out, tx := if caller.chosen.extInfo then inward.after 1 else inward, sessionId := h
      clientId := caller.line }
  let l₄ := if caller.chosen.extInfo then l₃.switched.putSealed inward extInfoMessage
    else l₃.switched
  have hseq : l₄.seqRx = 0 := by
    cases hext : caller.chosen.extInfo <;> simp [l₄, hext, Link.switched, Link.putSealed, Link.after,
      Link.observe]
  have hopened : [iS, reply, [sshMsgNewkeys]] <+: l₄.log.filterMap HandshakeObs.inClear := by
    rw [← inClear_switched iS caller.offer.payload (k.initPayload caller.secret) reply sharedSecret h
      caller.guess caller.chosen]
    refine List.IsPrefix.filterMap _ ?_
    cases hext : caller.chosen.extInfo with
    | false =>
      have hl₄ : l₄ = l₃.switched := by simp [l₄, hext]
      rw [hl₄]
    | true =>
      have hl₄ : l₄ = l₃.switched.putSealed inward extInfoMessage := by simp [l₄, hext]
      rw [hl₄]
      exact List.prefix_append _ _
  obtain ⟨l', hlogin, hlog⟩ := @login_takes host hworks stage l₄ hseq draw requests frames last
    candidate out' hbudget hshort hproof hseal
  have hrun : Takes (runHandshake host) (Link.start []) (caller.hello ++ frames.flatten)
      { secured := stage.onward (requests.length + 2), authenticated := candidate.authenticated }
      l' := by
    have hsplit : caller.hello ++ frames.flatten = (caller.line ++ [0x0d, 0x0a]) ++
        ((plainFrame (caller.padding 0) caller.offer.payload ++
          if caller.chosen.skipGuessedPacket then plainFrame (caller.padding 1) caller.guess
          else []) ++
        (plainFrame (caller.padding 2) (k.initPayload caller.secret) ++
          (plainFrame (caller.padding 3) [sshMsgNewkeys] ++ frames.flatten))) := by
      simp only [Caller.hello, List.append_assoc]
    rw [hsplit]
    refine (versionExchange_takes hworks _ caller.isIdLine).bind ?_
    refine hkexinit.bind ?_
    refine hhybrid.bind ?_
    exact hnewkeys.bind hlogin
  refine ⟨Link.load rest l', ?_, rfl, hopened.trans (hlog.filterMap _)⟩
  have hout : out' = out.after (requests.length + 2) := by
    rw [after_of_sealAll hseal, List.length_cons, List.length_append, List.length_singleton]
  have hinward : stage.tx.after (requests.length + 2) =
      inward.after (requests.length + if caller.chosen.extInfo then 3 else 2) := by
    cases hext : caller.chosen.extInfo with
    | false => simp [stage, hext]
    | true =>
      simp only [stage, hext, if_true, Cipher.PacketCipher.after_after]
      rw [Nat.add_comm 1]
  have hstage : stage.onward (requests.length + 2) =
      { rx := out'
        tx := inward.after (requests.length + if caller.chosen.extInfo then 3 else 2)
        sessionId := h
        clientId := caller.line } := by
    rw [Secured.onward, hinward, hout]
  rw [← hstage]
  exact hrun rest

/-- Short packets can be sealed one after the other. -/
theorem exists_sealAll (hlaw : host.primitives.Lawful) {draw : ℕ → Draw}
    (hdraw : ∀ i n, (draw i n).isSome = true) {payloads : List Bytes} :
    ∀ (seqnr : ℕ) (c : Cipher.PacketCipher), (∀ p ∈ payloads, p.length ≤ 34987) →
      ∃ frames c', Cipher.sealAll host.primitives draw seqnr c payloads = .ok (frames, c') := by
  induction payloads with
  | nil => exact fun _ c _ => ⟨[], c, rfl⟩
  | cons p rest ih =>
    intro seqnr c hfits
    obtain ⟨⟨frame, next⟩, hseal⟩ := (c.exists_seal_iff host.primitives hlaw (hdraw seqnr) seqnr p).2
      (le_maxPayload (hfits p List.mem_cons_self) c)
    obtain ⟨frames, c', hrest⟩ := ih (wrappingAdd 32 seqnr 1) next
      fun q hq => hfits q (List.mem_cons_of_mem _ hq)
    exact ⟨frame :: frames, c', Cipher.bind_eq_ok.2 ⟨_, hseal, Cipher.bind_eq_ok.2 ⟨_, hrest, rfl⟩⟩⟩

end

/-! ### A login -/

/-- Stand-ins for the signatures: the first bytes of the message. -/
def loginSignatures : Signatures :=
  { plainSignatures with verifyStrict := fun _ m signature => signature = pad 64 m }

def loginKey : FixedBytes 32 := ⟨pad 32 [6], by decide⟩

def loginBlob : Bytes := putString Auth.keyAlgorithm ++ putString loginKey.val

def loginLine : Auth.KeyLine (FixedBytes 32) :=
  ⟨loginBlob, HostKey.fingerprintSha256 loginSignatures loginBlob, loginKey⟩

/-- A host that works and takes one key. -/
def loginHost : Host where
  env := meetingEnv
  primitives := Cipher.streamPrimitives
  padding _ := Cipher.zeroPadding
  timeUp _ := false
  sigs := loginSignatures
  authorizedKeys := ⟨[loginLine], by simp [Auth.KeyLine.Built, loginLine, loginBlob]⟩
  trustedCas := none
  clock _ := none

theorem loginHost_works : loginHost.Works where
  timely _ := rfl
  writes _ := rfl
  draws _ n := ⟨_, rfl, List.length_replicate⟩
  pads _ _ := rfl
  signs _ _ := ⟨[], rfl, by decide⟩
  lawful := Cipher.lawful_streamPrimitives

def loginOffer : Offer where
  fields :=
    { meetingFields "curve25519-sha256,kex-strict-c-v00@openssh.com,ext-info-c," 1 with }
  wellFormed := ⟨by decide +kernel, by decide +kernel, by decide +kernel⟩

/-- The client guesses wrong, so that its guess is skipped. -/
def loginCaller : Caller loginHost meetingClient where
  line := utf8 "SSH-2.0-client"
  isIdLine := ⟨by decide +kernel, by decide +kernel, by decide +kernel⟩
  offer := loginOffer
  chosen := ⟨chacha20Poly1305, chacha20Poly1305, true, true⟩
  agrees := by decide +kernel
  offer_fits := by decide +kernel
  guess := [30]
  guess_fits := by decide
  secret := meetingSecret
  usable := ⟨rfl, fun _ => rfl⟩
  padding _ := Cipher.zeroPadding
  pads _ _ := rfl

def loginData (flag : UInt8) : Bytes := Auth.putKey (utf8 "root") flag Auth.keyAlgorithm loginBlob

/-- A request with a signature. -/
def loginProof (signature : Bytes) : Bytes := loginData 1 ++ putString (Auth.putSignature signature)

theorem loginKey_isKey : Auth.IsKey (utf8 "root") Auth.keyAlgorithm loginBlob :=
  ⟨⟨by decide, by decide⟩, .inl rfl, by decide⟩

theorem parse_loginProof {signature : Bytes} (h : (Auth.putSignature signature).length ≤ 200) :
    Auth.parseUserauthRequest (loginProof signature) =
      .ok (.publicKey (utf8 "root") Auth.keyAlgorithm loginBlob
        (some ⟨loginData 1, signature⟩)) :=
  (Auth.Encodes.signed loginKey_isKey (by decide) (h.trans (by decide))).parse

/-- Another method, a query, and a signature that is too short. -/
def loginRequests : List Bytes :=
  [Auth.putMethod (utf8 "root") (utf8 "none"), loginData 0, loginProof [1, 2, 3]]

theorem fallsShort_loginRequests (h : Bytes) : ∀ p ∈ loginRequests, FallsShort loginHost h p := by
  simp only [loginRequests, List.forall_mem_cons, List.not_mem_nil, false_imp_iff, implies_true,
    and_true]
  refine ⟨⟨.refused (utf8 "none"), by decide +kernel, ?_⟩,
    ⟨.publicKey (utf8 "root") Auth.keyAlgorithm loginBlob none, by decide +kernel, ?_⟩,
    ⟨_, parse_loginProof (by decide), ?_⟩⟩
  · intro _ _ _ _ _ _ hrequest
    cases hrequest
  · intro _ _ _ _ _ _ hrequest
    cases hrequest
  · intro _ _ _ _ _ _ hrequest _
    cases hrequest
    rfl

/-- The signature of the session and the request. -/
def loginSignature (h : Bytes) : Bytes := pad 64 (Auth.authSignedData h (loginData 1))

def loginCandidate : Auth.Candidate :=
  { verifyingKey := loginKey
    authenticated :=
      { fingerprint := loginLine.fingerprint, certificate := none, ptyPermitted := true } }

theorem convinces_loginProof (h : Bytes) :
    Convinces loginHost h (loginProof (loginSignature h)) loginCandidate := by
  have hlen : (loginSignature h).length = 64 := length_pad 64 _
  have hfits : (Auth.putSignature (loginSignature h)).length ≤ 200 := by
    simp only [Auth.putSignature, List.length_append, length_putString, hlen]
    decide
  refine ⟨utf8 "root", Auth.keyAlgorithm, loginBlob, _, parse_loginProof hfits, fun _ => rfl, ?_⟩
  simp [verifyAuthSignature, loginHost, loginSignatures, loginSignature, length_pad]

/-- The client is let in behind three requests, with a packet behind the login still to come. -/
theorem login_completes_meeting :
    ∃ iS reply h out inward frames accepted l,
      Greets loginHost meetingClient loginCaller.line loginOffer meetingSecret iS reply h out
          inward ∧
        runHandshake loginHost (Link.start (loginCaller.hello ++ frames ++ [1, 2])) =
          (.ok accepted, l) ∧
        accepted.secured.sessionId = h ∧ accepted.secured.rx = out.after 5 ∧
        accepted.authenticated = loginCandidate.authenticated ∧ l.input = [1, 2] := by
  obtain ⟨iS, reply, h, out, inward, hgreets, hlogin⟩ := login_completes loginHost_works loginCaller
  have hfits : ∀ p ∈ serviceRequest :: (loginRequests ++ [loginProof (loginSignature h)]),
      p.length ≤ 34987 := by
    have hlast : (loginProof (loginSignature h)).length ≤ 34987 := by
      have hlen : (loginSignature h).length = 64 := length_pad 64 _
      simp only [loginProof, Auth.putSignature, List.length_append, length_putString, hlen]
      decide
    have hothers : ∀ p ∈ serviceRequest :: loginRequests, p.length ≤ 34987 := by decide +kernel
    rw [← List.cons_append]
    exact List.forall_mem_append.2 ⟨hothers, by simpa using hlast⟩
  obtain ⟨frames, out', hseal⟩ := exists_sealAll loginHost_works.lawful
    (fun _ _ => (rfl : (Cipher.zeroPadding _).isSome = true)) 0 out hfits
  obtain ⟨l, hrun, hinput, -⟩ := hlogin [1, 2] (by decide) (fallsShort_loginRequests h)
    (convinces_loginProof h) hseal
  exact ⟨iS, reply, h, out, inward, frames.flatten, _, l, hgreets, hrun, rfl,
    after_of_sealAll hseal, rfl, hinput⟩

end QuantumSsh.Transport
