import QuantumSsh.Lib.ChaCha
import QuantumSsh.Packet
import QuantumSsh.Transport.Session

/-!
# Packet ciphers

The two packet ciphers of `cipher.rs`. The primitives they are assembled from
(ChaCha20, Poly1305, AES-256-GCM) are parameters. A packet's number is a natural
number below `2 ^ 32`; the GCM invocation counter is a `UInt64`, as in the source.
-/

namespace QuantumSsh.Cipher

open Wire Transport Machine

/-- `TAG_LEN`. -/
def tagLen : ℕ := 16

/-- `CipherError`. -/
inductive CipherError where
  | badTag
  | wire (error : WireError)
deriving Repr, DecidableEq

/-! ### Primitives -/

/-- The primitives the ciphers call. -/
structure Primitives where
  /-- The byte of the `ChaCha20Legacy` keystream at a position. -/
  keystream : (key nonce : Bytes) → (position : ℕ) → UInt8
  /-- `Poly1305::compute_unpadded`. -/
  poly1305 : (key message : Bytes) → FixedBytes tagLen
  /-- `encrypt_inout_detached`: the ciphertext and the tag. -/
  gcmEncrypt : (key : FixedBytes 32) → (nonce : FixedBytes 12) → (aad plaintext : Bytes) →
    Option (FixedBytes plaintext.length × FixedBytes tagLen)
  /-- `decrypt_inout_detached`. -/
  gcmDecrypt : (key : FixedBytes 32) → (nonce : FixedBytes 12) → (aad ciphertext : Bytes) →
    (tag : FixedBytes tagLen) → Option Bytes

/-- What the AES-GCM library promises: it encrypts up to `2 ^ 36` bytes, and
decryption undoes encryption. -/
structure Primitives.Lawful (p : Primitives) : Prop where
  encrypts : ∀ key nonce (aad plaintext : Bytes), aad.length ≤ 2 ^ 36 →
    plaintext.length ≤ 2 ^ 36 → (p.gcmEncrypt key nonce aad plaintext).isSome
  decrypts : ∀ key nonce aad plaintext ciphertext tag,
    p.gcmEncrypt key nonce aad plaintext = some (ciphertext, tag) →
      p.gcmDecrypt key nonce aad ciphertext.val tag = some plaintext

variable (p : Primitives)

/-- `apply_keystream`, sought to a position. -/
def Primitives.applyKeystream (key nonce : Bytes) (position : ℕ) (b : Bytes) : Bytes :=
  b.mapIdx fun i x => x ^^^ p.keystream key nonce (position + i)

@[simp] theorem length_applyKeystream (key nonce : Bytes) (position : ℕ) (b : Bytes) :
    (p.applyKeystream key nonce position b).length = b.length :=
  List.length_mapIdx

/-- Applying the keystream twice restores the bytes. -/
@[simp] theorem applyKeystream_applyKeystream (key nonce : Bytes) (position : ℕ) (b : Bytes) :
    p.applyKeystream key nonce position (p.applyKeystream key nonce position b) = b := by
  apply List.ext_getElem (by simp)
  intro i _ _
  simp only [Primitives.applyKeystream, List.getElem_mapIdx, UInt8.xor_assoc, UInt8.xor_self,
    UInt8.xor_zero]

/-! ### Lengths and padding -/

/-- `validate_aead_length`. -/
def validateAeadLength (packetLength block : ℕ) : Except CipherError ℕ :=
  if maxPacket < packetLength ∨ packetLength < 1 + minPadding ∨ ¬ block ∣ packetLength then
    .error (.wire (.badPacketLength packetLength))
  else .ok packetLength

/-- `padded_body` on the padding drawn. -/
def paddedBody (draw : Draw) (payload : Bytes) (block : ℕ) : Except CipherError Bytes := do
  let unpadded := 1 + payload.length
  let padding := paddingFor unpadded block
  let packetLength := unpadded + padding
  if 2 ^ 32 ≤ packetLength ∨ maxPacket < packetLength then
    throw (.wire (.badPacketLength (2 ^ 32 - 1)))
  if 256 ≤ padding then throw (.wire .badPadding)
  let some pad := draw padding | throw (.wire .truncated)
  return UInt8.ofNat padding :: (payload ++ pad.val)

/-! ### `chacha20-poly1305@openssh.com` -/

/-- `ChaCha20Poly1305Openssh`. -/
structure ChaCha20Poly1305Openssh where
  kMain : FixedBytes 32
  kHeader : FixedBytes 32
deriving DecidableEq

namespace ChaCha20Poly1305Openssh

def block : ℕ := 8

/-- `ChaCha20Poly1305Openssh::new`. -/
def new (key : FixedBytes 64) : ChaCha20Poly1305Openssh where
  kMain := ⟨key.val.take 32, by simp [key.property]⟩
  kHeader := ⟨key.val.drop 32, by simp [key.property]⟩

variable (c : ChaCha20Poly1305Openssh)

/-- `poly_key`. -/
def polyKey (nonce : Bytes) : Bytes :=
  p.applyKeystream c.kMain.val nonce 0 (List.replicate 32 0)

/-- `finalize_openssh_poly`. -/
def finalizeOpensshPoly (key lengthBytes ciphertext : Bytes) : Bytes :=
  (p.poly1305 key (lengthBytes ++ ciphertext)).val

/-- `ChaCha20Poly1305Openssh::seal`. -/
def «seal» (draw : Draw) (seqnr : ℕ) (payload : Bytes) : Except CipherError Bytes := do
  let nonce := putUint64 seqnr
  let body ← paddedBody draw payload block
  if 2 ^ 32 ≤ body.length then throw (.wire .badPadding)
  let lengthBytes := p.applyKeystream c.kHeader.val nonce 0 (putUint32 body.length)
  let body := p.applyKeystream c.kMain.val nonce 64 body
  let tag := finalizeOpensshPoly p (c.polyKey p nonce) lengthBytes body
  return lengthBytes ++ body ++ tag

/-- `ChaCha20Poly1305Openssh::body_len`. -/
def bodyLen (seqnr : ℕ) (lengthBytes : Bytes) : Except CipherError ℕ := do
  let decrypted := p.applyKeystream c.kHeader.val (putUint64 seqnr) 0 lengthBytes
  let len ← validateAeadLength (beValue decrypted) block
  return len + tagLen

/-- `ChaCha20Poly1305Openssh::open`. -/
def «open» (seqnr : ℕ) (lengthBytes body : Bytes) : Except CipherError Bytes := do
  let nonce := putUint64 seqnr
  if body.length < tagLen then throw .badTag
  let ciphertext := body.take (body.length - tagLen)
  let tag := body.drop (body.length - tagLen)
  if finalizeOpensshPoly p (c.polyKey p nonce) lengthBytes ciphertext ≠ tag then throw .badTag
  match decodePacketBody (p.applyKeystream c.kMain.val nonce 64 ciphertext) with
  | .ok payload => return payload
  | .error e => throw (.wire e)

end ChaCha20Poly1305Openssh

/-! ### `aes256-gcm@openssh.com` -/

/-- `Aes256GcmOpenssh`. -/
structure Aes256GcmOpenssh where
  key : FixedBytes 32
  fixed : FixedBytes 4
  invocation : UInt64
  initialInvocation : UInt64
deriving DecidableEq

namespace Aes256GcmOpenssh

def block : ℕ := 16

/-- `Aes256GcmOpenssh::new`. -/
def new (key : FixedBytes 32) (iv : FixedBytes 12) : Aes256GcmOpenssh where
  key
  fixed := ⟨iv.val.take 4, by simp [iv.property]⟩
  invocation := UInt64.ofNat (beValue (iv.val.drop 4))
  initialInvocation := UInt64.ofNat (beValue (iv.val.drop 4))

variable (c : Aes256GcmOpenssh)

/-- `nonce`. -/
def nonce : FixedBytes 12 :=
  ⟨c.fixed.val ++ putUint64 c.invocation.toNat, by simp [c.fixed.property]⟩

/-- What the `debug_assert_eq!` of `seal` and `open` states. -/
def synced (seqnr : ℕ) : Prop := c.invocation - c.initialInvocation = UInt64.ofNat seqnr

instance (seqnr : ℕ) : Decidable (c.synced seqnr) := inferInstanceAs (Decidable (_ = _))

/-- The counter moves on. -/
def advance : Aes256GcmOpenssh := { c with invocation := c.invocation + 1 }

/-- `Aes256GcmOpenssh::seal`: the packet's number is only asserted, see `synced`,
and every failure leaves the cipher as it was. -/
def «seal» (draw : Draw) (payload : Bytes) : Except CipherError (Bytes × Aes256GcmOpenssh) := do
  let body ← paddedBody draw payload block
  if 2 ^ 32 ≤ body.length then throw (.wire .badPadding)
  let lengthBytes := putUint32 body.length
  let some (ciphertext, tag) := p.gcmEncrypt c.key c.nonce lengthBytes body | throw .badTag
  return (lengthBytes ++ ciphertext.val ++ tag.val, c.advance)

theorem length_drop_tag {body : Bytes} (h : ¬body.length < tagLen) :
    (body.drop (body.length - tagLen)).length = tagLen := by
  rw [List.length_drop]
  omega

/-- `Aes256GcmOpenssh::open`: the counter moves on once the tag verified. -/
def «open» (lengthBytes body : Bytes) : Except CipherError Bytes × Aes256GcmOpenssh :=
  if hlen : body.length < tagLen then (.error .badTag, c)
  else
    let ciphertext := body.take (body.length - tagLen)
    let tag := ⟨body.drop (body.length - tagLen), length_drop_tag hlen⟩
    match p.gcmDecrypt c.key c.nonce lengthBytes ciphertext tag with
    | none => (.error .badTag, c)
    | some plaintext =>
      match decodePacketBody plaintext with
      | .ok payload => (.ok payload, c.advance)
      | .error e => (.error (.wire e), c.advance)

end Aes256GcmOpenssh

/-! ### The cipher of one direction -/

/-- `PacketCipher`. -/
inductive PacketCipher where
  | chaCha (c : ChaCha20Poly1305Openssh)
  | gcm (c : Aes256GcmOpenssh)
deriving DecidableEq

namespace PacketCipher

/-- `PacketCipher::new`. -/
def new (name key iv : Bytes) : Except CipherError PacketCipher :=
  if hlen : key.length ≠ Transport.PacketCipher.keyLen name ∨
      iv.length ≠ Transport.PacketCipher.ivLen name then .error (.wire .truncated)
  else if hchacha : name = chacha20Poly1305 then
    .ok (.chaCha (.new ⟨key, by simp_all [Transport.PacketCipher.keyLen]⟩))
  else if name = aes256Gcm then
    .ok (.gcm (.new ⟨key, by simp_all [Transport.PacketCipher.keyLen]⟩
      ⟨iv, by simp_all [Transport.PacketCipher.ivLen]⟩))
  else .error (.wire .truncated)

/-- `PacketCipher::seal`. -/
def «seal» (draw : Draw) (seqnr : ℕ) (payload : Bytes) :
    PacketCipher → Except CipherError (Bytes × PacketCipher)
  | .chaCha c => do
    let frame ← c.seal p draw seqnr payload
    return (frame, .chaCha c)
  | .gcm c => do
    let (frame, c) ← c.seal p draw payload
    return (frame, .gcm c)

/-- `PacketCipher::body_len`. -/
def bodyLen (seqnr : ℕ) (lengthBytes : Bytes) : PacketCipher → Except CipherError ℕ
  | .chaCha c => c.bodyLen p seqnr lengthBytes
  | .gcm _ => do
    let len ← validateAeadLength (beValue lengthBytes) Aes256GcmOpenssh.block
    return len + tagLen

/-- `PacketCipher::open`. -/
def «open» (seqnr : ℕ) (lengthBytes body : Bytes) :
    PacketCipher → Except CipherError Bytes × PacketCipher
  | .chaCha c => (c.open p seqnr lengthBytes body, .chaCha c)
  | .gcm c => ((c.open p lengthBytes body).1, .gcm (c.open p lengthBytes body).2)

end PacketCipher

/-! ### Padded bodies -/

/-- A padded body that carries a payload. -/
structure Padded (block : ℕ) (payload body : Bytes) : Prop where
  min : 1 + minPadding ≤ body.length
  max : body.length ≤ maxPacket
  aligned : block ∣ body.length
  decodes : decodePacketBody body = .ok payload

theorem Padded.validates {block : ℕ} {payload body : Bytes} (h : Padded block payload body) :
    validateAeadLength body.length block = .ok body.length := by
  have hmin := h.min
  have hmax := h.max
  refine if_neg ?_
  rintro (hlt | hlt | hdvd)
  · omega
  · omega
  · exact hdvd h.aligned

/-- The length of a padded body goes through the length field. -/
theorem Padded.beValue_length {block : ℕ} {payload body : Bytes} (h : Padded block payload body) :
    beValue (putUint32 body.length) = body.length :=
  beValue_putUint32 (lt_of_le_of_lt h.max (by decide))

theorem padded_of_paddedBody {draw : Draw} {payload body : Bytes} {block : ℕ}
    (hmin : minPadding ≤ block) (hmax : block ≤ 128)
    (h : paddedBody draw payload block = .ok body) : Padded block payload body := by
  obtain ⟨hpad, hlt, hdvd⟩ := paddingFor_spec hmin (1 + payload.length)
  have hbyte : paddingFor (1 + payload.length) block < 256 := by
    simp only [minPadding] at hlt
    omega
  simp only [paddedBody] at h
  by_cases hfits : 2 ^ 32 ≤ 1 + payload.length + paddingFor (1 + payload.length) block ∨
      maxPacket < 1 + payload.length + paddingFor (1 + payload.length) block
  · rw [if_pos hfits] at h
    cases h
  rw [if_neg hfits, if_neg (by omega)] at h
  cases hdraw : draw (paddingFor (1 + payload.length) block) with
  | none =>
    rw [hdraw] at h
    cases h
  | some pad =>
    rw [hdraw] at h
    cases h
    have hlen : (UInt8.ofNat (paddingFor (1 + payload.length) block) ::
        (payload ++ pad.val)).length = 1 + payload.length + paddingFor (1 + payload.length) block := by
      rw [List.length_cons, List.length_append, pad.property]
      omega
    exact ⟨by omega, by omega, hlen ▸ hdvd, decodePacketBody_padded hpad hbyte payload pad⟩

/-- With a working random source, padding fails only on what does not fit. -/
theorem exists_paddedBody_iff {draw : Draw} (hdraw : ∀ n, (draw n).isSome) {block : ℕ}
    (hmin : minPadding ≤ block) (hmax : block ≤ 128) (payload : Bytes) :
    (∃ body, paddedBody draw payload block = .ok body) ↔
      1 + payload.length + paddingFor (1 + payload.length) block ≤ maxPacket := by
  obtain ⟨hpad, hlt, -⟩ := paddingFor_spec hmin (1 + payload.length)
  simp only [minPadding] at hlt
  simp only [paddedBody]
  by_cases hfits : 2 ^ 32 ≤ 1 + payload.length + paddingFor (1 + payload.length) block ∨
      maxPacket < 1 + payload.length + paddingFor (1 + payload.length) block
  · rw [if_pos hfits]
    constructor
    · rintro ⟨body, hbody⟩
      cases hbody
    · intro hle
      simp only [maxPacket] at hfits hle
      omega
  · rw [if_neg hfits, if_neg (by omega)]
    obtain ⟨pad, hpad⟩ := Option.isSome_iff_exists.1 (hdraw (paddingFor (1 + payload.length) block))
    rw [hpad]
    exact ⟨fun _ => by omega, fun _ => ⟨_, rfl⟩⟩

/-! ### One packet there and back -/

/-- A frame that the cipher opens to a payload, with the cipher it is left as. -/
structure PacketCipher.Opens (c : PacketCipher) (seqnr : ℕ) (frame payload : Bytes)
    (next : PacketCipher) : Prop where
  framed : 4 ≤ frame.length
  declared : c.bodyLen p seqnr (frame.take 4) = .ok (frame.drop 4).length
  opened : c.open p seqnr (frame.take 4) (frame.drop 4) = (.ok payload, next)

/-- The cipher after so many packets. -/
def PacketCipher.after (n : ℕ) : PacketCipher → PacketCipher
  | .chaCha c => .chaCha c
  | .gcm c => .gcm { c with invocation := c.invocation + UInt64.ofNat n }

/-- What is left of a frame behind its length and before its tag. -/
theorem splits_frame {lengthBytes : Bytes} (hlength : lengthBytes.length = 4) (ciphertext : Bytes)
    (tag : FixedBytes tagLen) :
    (lengthBytes ++ ciphertext ++ tag.val).take 4 = lengthBytes ∧
      (lengthBytes ++ ciphertext ++ tag.val).drop 4 = ciphertext ++ tag.val ∧
      (ciphertext ++ tag.val).length = ciphertext.length + tagLen := by
  rw [List.append_assoc, ← hlength, List.take_left, List.drop_left, List.length_append,
    tag.property]
  exact ⟨rfl, rfl, rfl⟩

/-- A body behind its tag splits at the tag. -/
theorem splits_body (ciphertext : Bytes) (tag : FixedBytes tagLen) :
    (ciphertext ++ tag.val).take ((ciphertext ++ tag.val).length - tagLen) = ciphertext ∧
      (ciphertext ++ tag.val).drop ((ciphertext ++ tag.val).length - tagLen) = tag.val := by
  rw [List.length_append, tag.property, Nat.add_sub_cancel, List.take_left, List.drop_left]
  exact ⟨rfl, rfl⟩

theorem bind_eq_ok {α β : Type} {x : Except CipherError α} {f : α → Except CipherError β} {b : β} :
    x >>= f = .ok b ↔ ∃ a, x = .ok a ∧ f a = .ok b := by
  cases x with
  | error e => simp [bind, Except.bind]
  | ok a => simp [bind, Except.bind]

theorem ChaCha20Poly1305Openssh.opens_of_seal {c : ChaCha20Poly1305Openssh} {draw : Draw}
    {seqnr : ℕ} {payload frame : Bytes} (h : c.seal p draw seqnr payload = .ok frame) :
    PacketCipher.Opens p (.chaCha c) seqnr frame payload (.chaCha c) := by
  rw [ChaCha20Poly1305Openssh.seal] at h
  obtain ⟨body, hbody, h⟩ := bind_eq_ok.1 h
  have hpadded := padded_of_paddedBody (by decide) (by decide) hbody
  have hmax := hpadded.max
  rw [if_neg (by simp only [maxPacket] at hmax; omega)] at h
  cases h
  let lengthBytes := p.applyKeystream c.kHeader.val (putUint64 seqnr) 0 (putUint32 body.length)
  let ciphertext := p.applyKeystream c.kMain.val (putUint64 seqnr) 64 body
  let tag := p.poly1305 (c.polyKey p (putUint64 seqnr)) (lengthBytes ++ ciphertext)
  have hlength : ciphertext.length = body.length := length_applyKeystream ..
  obtain ⟨htake, hdrop, hlen⟩ := splits_frame
    (length_applyKeystream p c.kHeader.val (putUint64 seqnr) 0 (putUint32 body.length))
    ciphertext tag
  obtain ⟨hbodyTake, hbodyDrop⟩ := splits_body ciphertext tag
  change PacketCipher.Opens p (.chaCha c) seqnr (lengthBytes ++ ciphertext ++ tag.val) payload
    (.chaCha c)
  refine ⟨?_, ?_, ?_⟩
  · simp [lengthBytes]
  · rw [htake, hdrop, hlen, hlength]
    simp only [PacketCipher.bodyLen, ChaCha20Poly1305Openssh.bodyLen,
      applyKeystream_applyKeystream, hpadded.beValue_length]
    rw [hpadded.validates]
    rfl
  · rw [htake, hdrop]
    simp only [PacketCipher.open, ChaCha20Poly1305Openssh.open, hbodyTake, hbodyDrop]
    have htag : finalizeOpensshPoly p (c.polyKey p (putUint64 seqnr)) lengthBytes ciphertext =
      tag.val := rfl
    rw [if_neg (by omega), if_neg (not_not_intro htag)]
    simp only [ciphertext, applyKeystream_applyKeystream, hpadded.decodes]
    rfl

/-- Sealing moves the counter on. -/
theorem Aes256GcmOpenssh.next_of_seal {p : Primitives} {c next : Aes256GcmOpenssh} {draw : Draw}
    {payload frame : Bytes} (h : c.seal p draw payload = .ok (frame, next)) : next = c.advance := by
  rw [Aes256GcmOpenssh.seal] at h
  obtain ⟨body, hbody, h⟩ := bind_eq_ok.1 h
  split at h
  next => cases h
  next =>
    dsimp only at h
    split at h
    next =>
      cases h
      rfl
    next => cases h

theorem Aes256GcmOpenssh.opens_of_seal (hlaw : p.Lawful) {c next : Aes256GcmOpenssh} {draw : Draw}
    {payload frame : Bytes} (h : c.seal p draw payload = .ok (frame, next)) (seqnr : ℕ) :
    PacketCipher.Opens p (.gcm c) seqnr frame payload (.gcm next) := by
  rw [Aes256GcmOpenssh.seal] at h
  obtain ⟨body, hbody, h⟩ := bind_eq_ok.1 h
  have hpadded := padded_of_paddedBody (by decide) (by decide) hbody
  have hmax := hpadded.max
  rw [if_neg (by simp only [maxPacket] at hmax; omega)] at h
  cases hencrypts : p.gcmEncrypt c.key c.nonce (putUint32 body.length) body with
  | none =>
    simp only [hencrypts] at h
    cases h
  | some sealed =>
    obtain ⟨ciphertext, tag⟩ := sealed
    simp only [hencrypts] at h
    cases h
    obtain ⟨htake, hdrop, hlen⟩ := splits_frame (length_putUint32 body.length) ciphertext.val tag
    obtain ⟨hbodyTake, hbodyDrop⟩ := splits_body ciphertext.val tag
    have hdecrypts := hlaw.decrypts _ _ _ _ _ _ hencrypts
    refine ⟨by simp, ?_, ?_⟩
    · rw [htake, hdrop, hlen, ciphertext.property]
      simp only [PacketCipher.bodyLen, hpadded.beValue_length]
      rw [hpadded.validates]
      rfl
    · rw [htake, hdrop]
      simp only [PacketCipher.open, Aes256GcmOpenssh.open, hbodyTake, hbodyDrop]
      rw [dif_neg (by omega)]
      simp only [hdecrypts, hpadded.decodes]

theorem PacketCipher.next_of_seal {p : Primitives} {c next : PacketCipher} {draw : Draw}
    {seqnr : ℕ} {payload frame : Bytes} (h : c.seal p draw seqnr payload = .ok (frame, next)) :
    next = c.after 1 := by
  cases c with
  | chaCha c =>
    obtain ⟨frame', hseal, h⟩ := bind_eq_ok.1 h
    cases h
    rfl
  | gcm c =>
    obtain ⟨⟨frame', c'⟩, hseal, h⟩ := bind_eq_ok.1 h
    cases h
    rw [Aes256GcmOpenssh.next_of_seal hseal]
    rfl

/-- What a cipher sealed, the same cipher opens. -/
theorem PacketCipher.opens_of_seal (hlaw : p.Lawful) {c next : PacketCipher} {draw : Draw}
    {seqnr : ℕ} {payload frame : Bytes} (h : c.seal p draw seqnr payload = .ok (frame, next)) :
    c.Opens p seqnr frame payload next := by
  cases c with
  | chaCha c =>
    obtain ⟨frame', hseal, h⟩ := bind_eq_ok.1 h
    cases h
    exact c.opens_of_seal p hseal
  | gcm c =>
    obtain ⟨⟨frame', c'⟩, hseal, h⟩ := bind_eq_ok.1 h
    cases h
    exact Aes256GcmOpenssh.opens_of_seal p hlaw hseal seqnr

/-! ### Which payloads are accepted -/

/-- The longest payload a cipher seals. -/
def PacketCipher.maxPayload : PacketCipher → ℕ
  | .chaCha _ => 34995
  | .gcm _ => 34987

theorem ChaCha20Poly1305Openssh.fits_iff (n : ℕ) :
    1 + n + paddingFor (1 + n) block ≤ maxPacket ↔ n ≤ 34995 := by
  have hspec := paddingFor_spec (show minPadding ≤ block by decide) (1 + n)
  simp only [block, minPadding, maxPacket] at hspec ⊢
  omega

theorem Aes256GcmOpenssh.fits_iff (n : ℕ) :
    1 + n + paddingFor (1 + n) block ≤ maxPacket ↔ n ≤ 34987 := by
  have hspec := paddingFor_spec (show minPadding ≤ block by decide) (1 + n)
  simp only [block, minPadding, maxPacket] at hspec ⊢
  omega

theorem ChaCha20Poly1305Openssh.exists_seal_iff (c : ChaCha20Poly1305Openssh) (draw : Draw)
    (seqnr : ℕ) (payload : Bytes) :
    (∃ frame, c.seal p draw seqnr payload = .ok frame) ↔
      ∃ body, paddedBody draw payload block = .ok body := by
  constructor
  · rintro ⟨frame, h⟩
    obtain ⟨body, hbody, -⟩ := bind_eq_ok.1 h
    exact ⟨body, hbody⟩
  · rintro ⟨body, hbody⟩
    have hmax := (padded_of_paddedBody (by decide) (by decide) hbody).max
    simp only [maxPacket] at hmax
    rw [ChaCha20Poly1305Openssh.seal, hbody]
    exact ⟨_, if_neg (by omega)⟩

theorem Aes256GcmOpenssh.exists_seal_iff (hlaw : p.Lawful) (c : Aes256GcmOpenssh) (draw : Draw)
    (payload : Bytes) :
    (∃ sealed, c.seal p draw payload = .ok sealed) ↔
      ∃ body, paddedBody draw payload block = .ok body := by
  constructor
  · rintro ⟨sealed, h⟩
    obtain ⟨body, hbody, -⟩ := bind_eq_ok.1 h
    exact ⟨body, hbody⟩
  · rintro ⟨body, hbody⟩
    have hmax := (padded_of_paddedBody (by decide) (by decide) hbody).max
    simp only [maxPacket] at hmax
    obtain ⟨⟨ciphertext, tag⟩, hencrypts⟩ := Option.isSome_iff_exists.1
      (hlaw.encrypts c.key c.nonce (putUint32 body.length) body (by simp) (by omega))
    refine ⟨(putUint32 body.length ++ ciphertext.val ++ tag.val, c.advance), ?_⟩
    refine bind_eq_ok.2 ⟨body, hbody, ?_⟩
    rw [if_neg (by omega)]
    simp only [hencrypts]
    rfl

/-- With a working random source, sealing fails only on a payload that is too long. -/
theorem PacketCipher.exists_seal_iff (hlaw : p.Lawful) {draw : Draw} (hdraw : ∀ n, (draw n).isSome)
    (c : PacketCipher) (seqnr : ℕ) (payload : Bytes) :
    (∃ sealed, c.seal p draw seqnr payload = .ok sealed) ↔ payload.length ≤ c.maxPayload := by
  cases c with
  | chaCha c =>
    rw [maxPayload, ← ChaCha20Poly1305Openssh.fits_iff,
       ← exists_paddedBody_iff hdraw (by decide) (by decide),
      ← c.exists_seal_iff p draw seqnr]
    constructor
    · rintro ⟨sealed, h⟩
      obtain ⟨frame, hseal, -⟩ := bind_eq_ok.1 h
      exact ⟨frame, hseal⟩
    · rintro ⟨frame, hseal⟩
      exact ⟨(frame, .chaCha c), bind_eq_ok.2 ⟨frame, hseal, rfl⟩⟩
  | gcm c =>
    rw [maxPayload, ← Aes256GcmOpenssh.fits_iff,
       ← exists_paddedBody_iff hdraw (by decide) (by decide),
      ← c.exists_seal_iff p hlaw draw]
    constructor
    · rintro ⟨sealed, h⟩
      obtain ⟨frame, hseal, -⟩ := bind_eq_ok.1 h
      exact ⟨frame, hseal⟩
    · rintro ⟨⟨frame, next⟩, hseal⟩
      exact ⟨(frame, .gcm next), bind_eq_ok.2 ⟨(frame, next), hseal, rfl⟩⟩

/-! ### A sequence of packets -/

/-- Seals the payloads one after the other, as `write_sealed` numbers them. -/
def sealAll (draw : ℕ → Draw) : (seqnr : ℕ) → PacketCipher → List Bytes →
    Except CipherError (List Bytes × PacketCipher)
  | _, c, [] => .ok ([], c)
  | seqnr, c, payload :: rest => do
    let (frame, c) ← c.seal p (draw seqnr) seqnr payload
    let (frames, c) ← sealAll draw (wrappingAdd 32 seqnr 1) c rest
    return (frame :: frames, c)

/-- Opens the frames one after the other, as `read_sealed` numbers them. -/
def openAll : (seqnr : ℕ) → PacketCipher → List Bytes →
    Except CipherError (List Bytes × PacketCipher)
  | _, c, [] => .ok ([], c)
  | seqnr, c, frame :: rest => do
    let payload ← (c.open p seqnr (frame.take 4) (frame.drop 4)).1
    let (payloads, c) ← openAll (wrappingAdd 32 seqnr 1)
      (c.open p seqnr (frame.take 4) (frame.drop 4)).2 rest
    return (payload :: payloads, c)

/-- The debug assertion holds before the packet of this number. -/
def PacketCipher.Synced (seqnr : ℕ) : PacketCipher → Prop
  | .chaCha _ => True
  | .gcm c => c.synced seqnr

theorem PacketCipher.after_zero (c : PacketCipher) : c.after 0 = c := by
  cases c with
  | chaCha c => rfl
  | gcm c => simp [after]

theorem PacketCipher.after_after (c : PacketCipher) (m n : ℕ) :
    (c.after m).after n = c.after (m + n) := by
  cases c with
  | chaCha c => rfl
  | gcm c => simp [after, UInt64.ofNat_add, UInt64.add_assoc]

theorem PacketCipher.synced_after {name key iv : Bytes} {c : PacketCipher}
    (h : PacketCipher.new name key iv = .ok c) (n : ℕ) : (c.after n).Synced n := by
  rw [new] at h
  split_ifs at h
  · cases h
    trivial
  · cases h
    simp only [after, Synced, Aes256GcmOpenssh.synced, Aes256GcmOpenssh.new]
    rw [UInt64.add_comm, UInt64.add_sub_cancel]

/-- The number of the next packet, when there is one. -/
theorem next_seqnr {seqnr n : ℕ} (h : seqnr + (n + 1) ≤ 2 ^ 32) :
    wrappingAdd 32 seqnr 1 + n ≤ 2 ^ 32 ∧ (0 < n → wrappingAdd 32 seqnr 1 = seqnr + 1) := by
  by_cases hlt : seqnr + 1 < 2 ^ 32
  · rw [wrappingAdd_of_lt hlt]
    exact ⟨by omega, fun _ => rfl⟩
  · have hle := wrappingAdd_le 32 seqnr 1
    exact ⟨by omega, fun _ => by omega⟩

/-- A sealed sequence cut at any place. -/
theorem sealAll_take (hlaw : p.Lawful) {draw : ℕ → Draw} {seqnr : ℕ} {c tx : PacketCipher}
    {payloads frames : List Bytes} (hcount : seqnr + payloads.length ≤ 2 ^ 32)
    (h : sealAll p draw seqnr c payloads = .ok (frames, tx)) {i : ℕ} (hi : i ≤ payloads.length) :
    sealAll p draw seqnr c (payloads.take i) = .ok (frames.take i, c.after i) ∧
      openAll p seqnr c (frames.take i) = .ok (payloads.take i, c.after i) ∧
      ∀ frame, frames[i]? = some frame → 4 ≤ frame.length ∧
        (c.after i).bodyLen p (seqnr + i) (frame.take 4) = .ok (frame.drop 4).length := by
  induction payloads generalizing seqnr c frames i with
  | nil =>
    cases h
    obtain rfl : i = 0 := by simpa using hi
    refine ⟨?_, ?_, by simp⟩
    · simp [sealAll, PacketCipher.after_zero]
    · simp [openAll, PacketCipher.after_zero]
  | cons payload rest ih =>
    obtain ⟨⟨frame, next⟩, hseal, h⟩ := bind_eq_ok.1 h
    obtain ⟨⟨frames', tx'⟩, hrest, h⟩ := bind_eq_ok.1 h
    cases h
    obtain rfl := PacketCipher.next_of_seal hseal
    have hopens := PacketCipher.opens_of_seal p hlaw hseal
    cases i with
    | zero =>
      refine ⟨by simp [sealAll, PacketCipher.after_zero], by simp [openAll, PacketCipher.after_zero], ?_⟩
      intro frame' hframe
      obtain rfl : frame = frame' := by simpa using hframe
      rw [PacketCipher.after_zero]
      exact ⟨hopens.framed, hopens.declared⟩
    | succ i =>
      obtain ⟨hsealed, hopened, hdeclared⟩ := ih (i := i) (next_seqnr hcount).1 hrest
        (Nat.le_of_succ_le_succ hi)
      rw [PacketCipher.after_after, Nat.add_comm 1 i] at hsealed hopened hdeclared
      refine ⟨?_, ?_, ?_⟩
      · exact bind_eq_ok.2 ⟨(frame, c.after 1), hseal, bind_eq_ok.2 ⟨_, hsealed, rfl⟩⟩
      · rw [List.take_succ_cons, openAll, hopens.opened]
        exact bind_eq_ok.2 ⟨payload, rfl, bind_eq_ok.2 ⟨_, hopened, rfl⟩⟩
      · intro frame' hframe
        rw [List.getElem?_cons_succ] at hframe
        have hpos : 0 < rest.length := by
          rw [List.length_pos_iff]
          rintro rfl
          cases hrest
          simp at hframe
        have hnext := hdeclared frame' hframe
        rw [(next_seqnr hcount).2 hpos, Nat.add_assoc, Nat.add_comm 1 i] at hnext
        exact hnext

/-- Key material of the required lengths makes a cipher. -/
theorem PacketCipher.exists_new {name key iv : Bytes}
    (hname : name = chacha20Poly1305 ∨ name = aes256Gcm)
    (hkey : key.length = Transport.PacketCipher.keyLen name)
    (hiv : iv.length = Transport.PacketCipher.ivLen name) :
    ∃ c, PacketCipher.new name key iv = .ok c := by
  rw [new, dif_neg (by simp [hkey, hiv])]
  split_ifs with hchacha hgcm
  · exact ⟨_, rfl⟩
  · exact ⟨_, rfl⟩
  · exact absurd hname (by simp [hchacha, hgcm])

/-- For both ciphers and every key material of the required lengths: sealing
succeeds exactly up to the longest payload, and what was sealed in sequence is
declared, opened and counted alike on the other side, packet by packet. -/
theorem seal_open_sequence (hlaw : p.Lawful) {draw : ℕ → Draw} (hdraw : ∀ i n, (draw i n).isSome)
    {name key iv : Bytes} (hname : name = chacha20Poly1305 ∨ name = aes256Gcm)
    (hkey : key.length = Transport.PacketCipher.keyLen name)
    (hiv : iv.length = Transport.PacketCipher.ivLen name) :
    (∀ (current : PacketCipher) (seqnr : ℕ) (payload : Bytes),
      (∃ sealed, current.seal p (draw seqnr) seqnr payload = .ok sealed) ↔
        payload.length ≤ current.maxPayload) ∧
    ∃ c, PacketCipher.new name key iv = .ok c ∧
      ∀ (payloads frames : List Bytes) (tx : PacketCipher), payloads.length ≤ 2 ^ 32 →
        sealAll p draw 0 c payloads = .ok (frames, tx) → ∀ i ≤ payloads.length,
          sealAll p draw 0 c (payloads.take i) = .ok (frames.take i, c.after i) ∧
          openAll p 0 c (frames.take i) = .ok (payloads.take i, c.after i) ∧
          (c.after i).Synced i ∧
          ∀ frame, frames[i]? = some frame → 4 ≤ frame.length ∧
            (c.after i).bodyLen p i (frame.take 4) = .ok (frame.drop 4).length := by
  refine ⟨fun current seqnr => current.exists_seal_iff p hlaw (hdraw seqnr) seqnr, ?_⟩
  obtain ⟨c, hnew⟩ := PacketCipher.exists_new hname hkey hiv
  refine ⟨c, hnew, ?_⟩
  intro payloads frames tx hcount hseal i hi
  obtain ⟨hsealed, hopened, hdeclared⟩ :=
    sealAll_take p hlaw (by rw [Nat.zero_add]; exact hcount) hseal hi
  rw [Nat.zero_add] at hdeclared
  exact ⟨hsealed, hopened, PacketCipher.synced_after hnew i, hdeclared⟩

/-- ChaCha20 and Poly1305 themselves; the block cipher mode is left to a stand-in
that encrypts with the same stream. -/
def streamPrimitives : Primitives where
  keystream := ChaCha.keystream
  poly1305 := fun key message => ⟨ChaCha.poly1305 key message, ChaCha.length_leBytes 16 _⟩
  gcmEncrypt := fun key nonce aad plaintext =>
    let ciphertext := plaintext.mapIdx fun i x => x ^^^ ChaCha.keystream key.val nonce.val i
    some (⟨ciphertext, List.length_mapIdx⟩,
      ⟨ChaCha.poly1305 key.val (aad ++ ciphertext), ChaCha.length_leBytes 16 _⟩)
  gcmDecrypt := fun key nonce aad ciphertext tag =>
    if ChaCha.poly1305 key.val (aad ++ ciphertext) = tag.val then
      some (ciphertext.mapIdx fun i x => x ^^^ ChaCha.keystream key.val nonce.val i)
    else none

theorem lawful_streamPrimitives : streamPrimitives.Lawful where
  encrypts := fun _ _ _ _ _ _ => rfl
  decrypts := by
    rintro key nonce aad plaintext ciphertext tag h
    cases h
    change (if _ then _ else none) = some plaintext
    rw [if_pos rfl]
    congr 1
    apply List.ext_getElem (by simp)
    intro i _ _
    simp only [List.getElem_mapIdx, UInt8.xor_assoc, UInt8.xor_self, UInt8.xor_zero]

/-- Padding of zeroes. -/
def zeroPadding : Draw := fun n => some ⟨List.replicate n 0, List.length_replicate⟩

/-- Two packets. -/
def twoPayloads : List Bytes := [[5, 0, 0, 0, 0], [94, 1]]

/-- Each packet that may be sealed adds its frame. -/
theorem sealAll_cons {draw : ℕ → Draw} {seqnr : ℕ} {c : PacketCipher} {payload : Bytes}
    {rest : List Bytes} (hseal : ∃ sealed, c.seal p (draw seqnr) seqnr payload = .ok sealed)
    (hrest : ∀ d, ∃ result, sealAll p draw (wrappingAdd 32 seqnr 1) d rest = .ok result) :
    ∃ result, sealAll p draw seqnr c (payload :: rest) = .ok result := by
  obtain ⟨⟨frame, d⟩, hseal⟩ := hseal
  obtain ⟨⟨frames, e⟩, hrest⟩ := hrest d
  exact ⟨(frame :: frames, e), bind_eq_ok.2 ⟨_, hseal, bind_eq_ok.2 ⟨_, hrest, rfl⟩⟩⟩

theorem exists_sealAll_twoPayloads (hlaw : p.Lawful) {draw : ℕ → Draw}
    (hdraw : ∀ i n, (draw i n).isSome) (c : PacketCipher) :
    ∃ result, sealAll p draw 0 c twoPayloads = .ok result := by
  have hshort : ∀ (d : PacketCipher), ∀ payload ∈ twoPayloads, payload.length ≤ d.maxPayload := by
    intro d payload hmem
    have hlength : payload.length ≤ 5 := by
      revert payload
      decide
    cases d with
    | chaCha d => exact hlength.trans (by simp [PacketCipher.maxPayload])
    | gcm d => exact hlength.trans (by simp [PacketCipher.maxPayload])
  refine sealAll_cons p ((c.exists_seal_iff p hlaw (hdraw 0) 0 _).2 (hshort c _ (by decide)))
    fun d => ?_
  refine sealAll_cons p ((d.exists_seal_iff p hlaw (hdraw _) _ _).2 (hshort d _ (by decide)))
    fun e => ?_
  exact ⟨([], e), rfl⟩

/-- Two packets sealed under a key of zeroes, of either cipher, come back. -/
theorem seal_open_sequence_zeroes :
    (∃ c frames tx, PacketCipher.new chacha20Poly1305 (List.replicate 64 0) [] = .ok c ∧
      sealAll streamPrimitives (fun _ => zeroPadding) 0 c twoPayloads = .ok (frames, tx) ∧
      openAll streamPrimitives 0 c (frames.take 2) = .ok (twoPayloads, c.after 2)) ∧
    ∃ c frames tx, PacketCipher.new aes256Gcm (List.replicate 32 0) (List.replicate 12 0) = .ok c ∧
      sealAll streamPrimitives (fun _ => zeroPadding) 0 c twoPayloads = .ok (frames, tx) ∧
      openAll streamPrimitives 0 c (frames.take 2) = .ok (twoPayloads, c.after 2) := by
  constructor
  · obtain ⟨-, c, hnew, hsequence⟩ := @seal_open_sequence streamPrimitives
      lawful_streamPrimitives (fun _ => zeroPadding) (fun _ _ => rfl) chacha20Poly1305
      (List.replicate 64 0) [] (.inl rfl) (by decide) (by decide)
    obtain ⟨⟨frames, tx⟩, hseal⟩ := @exists_sealAll_twoPayloads streamPrimitives
      lawful_streamPrimitives (fun _ => zeroPadding) (fun _ _ => rfl) c
    exact ⟨c, frames, tx, hnew, hseal, (hsequence _ _ _ (by decide) hseal 2 (by decide)).2.1⟩
  · obtain ⟨-, c, hnew, hsequence⟩ := @seal_open_sequence streamPrimitives
      lawful_streamPrimitives (fun _ => zeroPadding) (fun _ _ => rfl) aes256Gcm
      (List.replicate 32 0) (List.replicate 12 0) (.inr rfl) (by decide) (by decide)
    obtain ⟨⟨frames, tx⟩, hseal⟩ := @exists_sealAll_twoPayloads streamPrimitives
      lawful_streamPrimitives (fun _ => zeroPadding) (fun _ _ => rfl) c
    exact ⟨c, frames, tx, hnew, hseal, (hsequence _ _ _ (by decide) hseal 2 (by decide)).2.1⟩

end QuantumSsh.Cipher
