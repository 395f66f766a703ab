import QuantumSsh.Wire

/-!
# Binary packets

The packet framing of `wire.rs`: a length, the padding length, the payload and
random padding. The padding rule is shared by the plaintext packets here and the
sealed ones of `cipher.rs`.
-/

namespace QuantumSsh

/-- `[u8; n]`. -/
abbrev FixedBytes (n : ℕ) := { b : Bytes // b.length = n }

namespace Wire

def maxPacket : ℕ := 35000
def minPadding : ℕ := 4
def plaintextBlock : ℕ := 8

/-- `getrandom::fill` of a buffer of so many bytes. -/
abbrev Draw := (length : ℕ) → Option (FixedBytes length)

def putUint64 (v : ℕ) : Bytes := putUint32 (v / 2 ^ 32) ++ putUint32 v

@[simp] theorem length_putUint32 (v : ℕ) : (putUint32 v).length = 4 := rfl

@[simp] theorem length_putUint64 (v : ℕ) : (putUint64 v).length = 8 := rfl

theorem length_putString (b : Bytes) : (putString b).length = b.length + 4 := by
  rw [putString, List.length_append, length_putUint32, Nat.add_comm]

/-! ### Padding -/

/-- The loop that lengthens the padding block by block; `fuel` bounds its rounds. -/
def raisePadding (block : ℕ) : (fuel : ℕ) → (padding : ℕ) → ℕ
  | 0, padding => padding
  | fuel + 1, padding =>
    if padding < minPadding then raisePadding block fuel (padding + block) else padding

/-- The padding that aligns `unpadded` bytes. A block is at least one byte, so
`minPadding` rounds are enough. -/
def paddingFor (unpadded block : ℕ) : ℕ :=
  raisePadding block minPadding (block - unpadded % block)

theorem paddingFor_eq {block : ℕ} (hblock : minPadding ≤ block) (unpadded : ℕ) :
    paddingFor unpadded block =
      if block - unpadded % block < minPadding then block - unpadded % block + block
      else block - unpadded % block := by
  have hstop : ∀ fuel padding, minPadding ≤ padding →
      raisePadding block fuel padding = padding := by
    intro fuel padding hpadding
    cases fuel with
    | zero => rfl
    | succ fuel => rw [raisePadding, if_neg (by omega)]
  change (if block - unpadded % block < minPadding then
    raisePadding block 3 (block - unpadded % block + block) else _) = _
  rw [hstop 3 (block - unpadded % block + block) (by omega)]

/-- The padding is long enough, fits a byte and aligns. -/
theorem paddingFor_spec {block : ℕ} (hblock : minPadding ≤ block) (unpadded : ℕ) :
    minPadding ≤ paddingFor unpadded block ∧ paddingFor unpadded block < block + minPadding ∧
      block ∣ unpadded + paddingFor unpadded block := by
  have hpos : 0 < block := lt_of_lt_of_le (by decide) hblock
  have hmod := Nat.mod_lt unpadded hpos
  have hdvd : block ∣ unpadded + (block - unpadded % block) := by
    refine ⟨unpadded / block + 1, ?_⟩
    have hdiv := Nat.div_add_mod unpadded block
    rw [Nat.mul_add, Nat.mul_one]
    omega
  rw [paddingFor_eq hblock]
  split
  next hlt =>
    refine ⟨by omega, by omega, ?_⟩
    rw [← Nat.add_assoc]
    exact Nat.dvd_add hdvd (Nat.dvd_refl block)
  next hge => exact ⟨by omega, by simp only [minPadding] at hblock hge ⊢; omega, hdvd⟩

/-! ### Packets -/

/-- `encode_packet` on the padding drawn. -/
def encodePacket (draw : Draw) (payload : Bytes) : Except WireError Bytes := do
  let unpadded := 4 + 1 + payload.length
  let padding := paddingFor unpadded plaintextBlock
  let packetLength := 1 + payload.length + padding
  if 2 ^ 32 ≤ packetLength then throw (.badPacketLength (2 ^ 32 - 1))
  if maxPacket < packetLength then throw (.badPacketLength packetLength)
  if 256 ≤ padding then throw .badPadding
  let some pad := draw padding | throw .truncated
  return putUint32 packetLength ++ [UInt8.ofNat padding] ++ payload ++ pad.val

/-- `validate_packet_length`. -/
def validatePacketLength (packetLength : ℕ) : Except WireError ℕ :=
  if packetLength = 0 ∨ maxPacket < packetLength then .error (.badPacketLength packetLength)
  else if ¬ plaintextBlock ∣ 4 + packetLength then .error .badPadding
  else .ok packetLength

/-- `decode_packet_body`. -/
def decodePacketBody (body : Bytes) : Except WireError Bytes :=
  match body with
  | [] => .error .truncated
  | paddingLength :: rest =>
    if paddingLength.toNat < minPadding then .error .badPadding
    else if rest.length < paddingLength.toNat then .error .badPadding
    else .ok (rest.take (rest.length - paddingLength.toNat))

/-- The padding of a plaintext packet. -/
theorem paddingFor_plaintext (unpadded : ℕ) :
    4 ≤ paddingFor unpadded plaintextBlock ∧ paddingFor unpadded plaintextBlock ≤ 11 ∧
      8 ∣ unpadded + paddingFor unpadded plaintextBlock := by
  obtain ⟨hmin, hmax, hdvd⟩ := @paddingFor_spec plaintextBlock (by decide) unpadded
  exact ⟨hmin, Nat.le_of_lt_succ hmax, hdvd⟩

/-- What `encode_packet` gives: the checks leave the payloads whose packet fits. -/
theorem encodePacket_ok {draw : Draw} {payload out : Bytes} :
    encodePacket draw payload = .ok out ↔
      ∃ pad : FixedBytes (paddingFor (4 + 1 + payload.length) plaintextBlock),
        draw (paddingFor (4 + 1 + payload.length) plaintextBlock) = some pad ∧
        payload.length ≤ 34991 ∧
        out = putUint32 (1 + payload.length + pad.val.length) ++
          UInt8.ofNat pad.val.length :: (payload ++ pad.val) := by
  obtain ⟨hmin, hmax, hdvd⟩ := paddingFor_plaintext (4 + 1 + payload.length)
  have hfits : payload.length ≤ 34991 ↔
      1 + payload.length + paddingFor (4 + 1 + payload.length) plaintextBlock ≤ 35000 := by
    omega
  simp only [encodePacket]
  generalize paddingFor (4 + 1 + payload.length) plaintextBlock = padding at *
  by_cases hlen : payload.length ≤ 34991
  · have hlong := hfits.1 hlen
    rw [if_neg (by omega), if_neg (by simp only [maxPacket]; omega), if_neg (by omega)]
    cases draw padding with
    | none =>
      refine iff_of_false (fun h => ?_) (fun ⟨_, h, _⟩ => ?_)
      · cases h
      · cases h
    | some pad =>
      constructor
      · intro h
        cases h
        refine ⟨pad, rfl, hlen, ?_⟩
        rw [pad.property]
        simp
      · rintro ⟨_, ⟨⟩, -, rfl⟩
        rw [pad.property]
        simp [pure, Except.pure]
  · refine iff_of_false (fun h => ?_) (fun ⟨_, _, h, _⟩ => hlen h)
    split at h
    next => cases h
    next =>
      rw [if_pos (by simp only [maxPacket]; omega)] at h
      cases h

/-- A padded body decodes to its payload. -/
theorem decodePacketBody_padded {padding : ℕ} (hmin : minPadding ≤ padding) (hbyte : padding < 256)
    (payload : Bytes) (pad : FixedBytes padding) :
    decodePacketBody (UInt8.ofNat padding :: (payload ++ pad.val)) = .ok payload := by
  have hnat : (UInt8.ofNat padding).toNat = padding := by
    rw [UInt8.toNat_ofNat']
    exact Nat.mod_eq_of_lt hbyte
  have hlen : (payload ++ pad.val).length = payload.length + padding := by
    rw [List.length_append, pad.property]
  rw [decodePacketBody, hnat, if_neg (by omega), if_neg (by omega), hlen, Nat.add_sub_cancel,
    List.take_left]

/-- A body is refused or it is the padding length, the payload and that much padding. -/
theorem decodePacketBody_cases (body : Bytes) :
    (∃ e, decodePacketBody body = .error e) ∨
      ∃ paddingLength payload padding, body = paddingLength :: (payload ++ padding) ∧
        padding.length = paddingLength.toNat ∧ minPadding ≤ padding.length ∧
        decodePacketBody body = .ok payload := by
  cases body with
  | nil => exact .inl ⟨_, rfl⟩
  | cons paddingLength rest =>
    by_cases hmin : paddingLength.toNat < minPadding
    · exact .inl ⟨.badPadding, by rw [decodePacketBody, if_pos hmin]⟩
    · by_cases hlen : rest.length < paddingLength.toNat
      · exact .inl ⟨.badPadding, by rw [decodePacketBody, if_neg hmin, if_pos hlen]⟩
      · have hpadding : (rest.drop (rest.length - paddingLength.toNat)).length =
            paddingLength.toNat := by
          rw [List.length_drop]
          omega
        refine .inr ⟨paddingLength, rest.take (rest.length - paddingLength.toNat),
          rest.drop (rest.length - paddingLength.toNat), ?_, hpadding, by omega, ?_⟩
        · rw [List.take_append_drop]
        · rw [decodePacketBody, if_neg hmin, if_neg hlen]

/-- A payload is framed exactly when it is at most 34991 bytes long. The packet is then
aligned, its length field counts the rest of it, and its body decodes to the payload. Any
other body is refused or taken apart within its own bytes. -/
theorem packet_framing (draw : Draw) (hdraw : ∀ length, draw length ≠ none) (payload : Bytes) :
    ((∃ out, encodePacket draw payload = .ok out) ↔ payload.length ≤ 34991) ∧
    (∀ out, encodePacket draw payload = .ok out →
      8 ∣ out.length ∧
      (∃ padding : Bytes, 4 ≤ padding.length ∧ padding.length ≤ 11 ∧
        out.drop 4 = UInt8.ofNat padding.length :: (payload ++ padding)) ∧
      validatePacketLength (beValue (out.take 4)) = .ok (out.drop 4).length ∧
      decodePacketBody (out.drop 4) = .ok payload) ∧
    ∀ body, (∃ e, decodePacketBody body = .error e) ∨
      ∃ paddingLength payload padding, body = paddingLength :: (payload ++ padding) ∧
        padding.length = paddingLength.toNat ∧ 4 ≤ padding.length ∧
        decodePacketBody body = .ok payload := by
  obtain ⟨hmin, hmax, hdvd⟩ := paddingFor_plaintext (4 + 1 + payload.length)
  refine ⟨?_, ?_, decodePacketBody_cases⟩
  · constructor
    · rintro ⟨out, hout⟩
      obtain ⟨-, -, hlen, -⟩ := encodePacket_ok.1 hout
      exact hlen
    · intro hlen
      obtain ⟨pad, hpad⟩ := Option.ne_none_iff_exists'.1
        (hdraw (paddingFor (4 + 1 + payload.length) plaintextBlock))
      exact ⟨_, encodePacket_ok.2 ⟨pad, hpad, hlen, rfl⟩⟩
  · intro out hout
    obtain ⟨pad, -, hlen, rfl⟩ := encodePacket_ok.1 hout
    have hpad := pad.property
    have htake : ∀ v rest, (putUint32 v ++ rest).take 4 = putUint32 v := fun v rest => rfl
    have hdrop : ∀ v rest, (putUint32 v ++ rest).drop 4 = rest := fun v rest => rfl
    rw [htake, hdrop, beValue_putUint32 (by omega)]
    refine ⟨?_, ⟨pad.val, by omega, by omega, rfl⟩, ?_, ?_⟩
    · simp only [List.length_append, length_putUint32, List.length_cons]
      omega
    · have hlong : (UInt8.ofNat pad.val.length :: (payload ++ pad.val)).length =
          1 + payload.length + pad.val.length := by
        simp only [List.length_cons, List.length_append]
        omega
      rw [hlong, validatePacketLength, if_neg (by simp only [maxPacket]; omega),
        if_neg (by simp only [plaintextBlock]; omega)]
    · exact @decodePacketBody_padded pad.val.length (by simp only [minPadding]; omega) (by omega)
        payload ⟨pad.val, rfl⟩

theorem packet_framing_three_bytes :
    ∃ out, encodePacket (fun length => some ⟨List.replicate length 0, by simp⟩) [20, 1, 2] = .ok out ∧
      8 ∣ out.length ∧ decodePacketBody (out.drop 4) = .ok [20, 1, 2] := by
  have hframing := packet_framing (fun length => some ⟨List.replicate length 0, by simp⟩) (by simp)
    [20, 1, 2]
  obtain ⟨out, hout⟩ := hframing.1.2 (by decide)
  obtain ⟨hdvd, -, -, hdecode⟩ := hframing.2.1 out hout
  exact ⟨out, hout, hdvd, hdecode⟩

end Wire

end QuantumSsh
