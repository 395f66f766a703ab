import QuantumSsh.Lib.Feedback
import QuantumSsh.Negotiation
import QuantumSsh.Transport.Handshake

/-!
# The key schedule

`derive_key` cuts its result from a stream of hashes in which every block is the hash of all
the blocks before it, and `derive_cipher_pair` asks it for the lengths that
`PacketCipher::new` demands.
-/

namespace QuantumSsh.Transport

open Wire Kex

variable (c : Crypto) (k h sessionId : Bytes) (letter : Char)

/-! ### The stream of hashes -/

/-- `K1`. -/
def firstBlock : Bytes :=
  c.sha256 (putString k ++ h ++ [UInt8.ofNat letter.toNat] ++ sessionId)

/-- The block after those in `out`. -/
def nextBlock (out : Bytes) : Bytes := c.sha256 (putString k ++ h ++ out)

/-- `K 0`, `K 1`, ... are the blocks `K1`, `K2`, ... of the key derivation. -/
structure IsKeyStream (K : ℕ → Bytes) : Prop where
  first : K 0 = c.sha256 (putString k ++ h ++ [UInt8.ofNat letter.toNat] ++ sessionId)
  later : ∀ i, K (i + 1) = c.sha256 (putString k ++ h ++ (List.range (i + 1)).flatMap K)

variable {c k h sessionId letter}

/-- The recurrence of the stream is one of the library's. -/
theorem isKeyStream_iff_recurs {K : ℕ → Bytes} : IsKeyStream c k h sessionId letter K ↔
    Feedback.Recurs (firstBlock c k h sessionId letter) (nextBlock c k h) K :=
  ⟨fun hK => ⟨hK.first, hK.later⟩, fun hK => ⟨hK.first, hK.later⟩⟩

theorem isKeyStream_block : IsKeyStream c k h sessionId letter
    (Feedback.block (firstBlock c k h sessionId letter) (nextBlock c k h)) :=
  isKeyStream_iff_recurs.2 Feedback.recurs_block

/-- The extension loop unrolls the stream, as far as it goes. -/
theorem exists_extendKey_eq (needed fuel i : ℕ) : ∃ j,
    extendKey c (putString k) h needed fuel
      (Feedback.unroll (firstBlock c k h sessionId letter) (nextBlock c k h) i) =
        Feedback.unroll (firstBlock c k h sessionId letter) (nextBlock c k h) j := by
  induction fuel generalizing i with
  | zero => exact ⟨i, rfl⟩
  | succ fuel ih =>
    rw [extendKey]
    split
    next => exact ih (i + 1)
    next => exact ⟨i, rfl⟩

/-- What is derived is cut from the stream, far enough out. -/
theorem exists_deriveKey_eq (needed : ℕ) : ∃ j,
    needed ≤ (Feedback.unroll (firstBlock c k h sessionId letter) (nextBlock c k h) j).length ∧
      deriveKey c k h letter sessionId needed =
        (Feedback.unroll (firstBlock c k h sessionId letter) (nextBlock c k h) j).take needed := by
  obtain ⟨j, hj⟩ := @exists_extendKey_eq c k h sessionId letter needed needed 0
  have hlen := length_extendKey c (putString k) h needed needed
    (firstBlock c k h sessionId letter)
  rw [Feedback.unroll] at hj
  rw [hj] at hlen
  exact ⟨j, by omega, congrArg (List.take needed) hj⟩

theorem length_unroll (n : ℕ) :
    (Feedback.unroll (firstBlock c k h sessionId letter) (nextBlock c k h) n).length =
      32 * (n + 1) :=
  Feedback.length_unroll (c.sha256_length _) (fun _ => c.sha256_length _) n

/-- The derived key is the beginning of the stream, unrolled to as many blocks as it takes
or to more. -/
theorem deriveKey_eq {K : ℕ → Bytes} (hK : IsKeyStream c k h sessionId letter K) {n r : ℕ}
    (hn : n ≤ 32 * r) :
    deriveKey c k h letter sessionId n = ((List.range r).flatMap K).take n := by
  cases r with
  | zero =>
    obtain rfl : n = 0 := by omega
    rfl
  | succ r =>
    obtain ⟨j, hj, hderived⟩ := @exists_deriveKey_eq c k h sessionId letter n
    have hr := @length_unroll c k h sessionId letter r
    rw [hderived, ← (isKeyStream_iff_recurs.1 hK).unroll_eq r]
    exact Feedback.take_unroll_eq hj (by omega)

/-- A shorter key is the beginning of a longer one. -/
theorem deriveKey_isPrefix {n m : ℕ} (hnm : n ≤ m) :
    deriveKey c k h letter sessionId n <+: deriveKey c k h letter sessionId m := by
  have hn : n ≤ 32 * m := by omega
  have hm : m ≤ 32 * m := by omega
  rw [deriveKey_eq isKeyStream_block hn, deriveKey_eq isKeyStream_block hm]
  exact List.take_prefix_take_left hnm

/-! ### The ciphers -/

/-- The material of a direction, derived under the two letters. -/
def material (c : Crypto) (k h sessionId : Bytes) (keyLetter ivLetter : Char) (name : Bytes) :
    PacketCipher where
  name
  key := deriveKey c k h keyLetter sessionId (PacketCipher.keyLen name)
  iv := deriveKey c k h ivLetter sessionId (PacketCipher.ivLen name)

/-- The lengths are those that `PacketCipher::new` demands for the name, and it takes them. -/
structure PacketCipher.Fits (cipher : PacketCipher) : Prop where
  key : cipher.key.length = PacketCipher.keyLen cipher.name
  iv : cipher.iv.length = PacketCipher.ivLen cipher.name
  new : PacketCipher.new cipher.name cipher.key cipher.iv = some cipher
  installs : ∃ installed, installCipher cipher = .ok installed

theorem fits_material {keyLetter ivLetter : Char} {name : Bytes} (hname : IsOurCipher name) :
    (material c k h sessionId keyLetter ivLetter name).Fits := by
  have hkey := length_deriveKey c k h keyLetter sessionId (PacketCipher.keyLen name)
  have hiv := length_deriveKey c k h ivLetter sessionId (PacketCipher.ivLen name)
  have hours : name = chacha20Poly1305 ∨ name = aes256Gcm := hname
  refine ⟨hkey, hiv, ?_, Cipher.PacketCipher.exists_new hours hkey hiv⟩
  have hlengths : ¬((material c k h sessionId keyLetter ivLetter name).key.length ≠
      PacketCipher.keyLen name ∨ (material c k h sessionId keyLetter ivLetter name).iv.length ≠
      PacketCipher.ivLen name) := by
    simp [material, hkey, hiv]
  change PacketCipher.new name _ _ = _
  rw [PacketCipher.new, if_neg hlengths, if_pos hours]
  rfl

/-- `derive_cipher_pair` for two ciphers of the profile. -/
theorem deriveCipherPair_eq {c2s s2c : Bytes} (hc2s : IsOurCipher c2s) (hs2c : IsOurCipher s2c) :
    deriveCipherPair c k h sessionId c2s s2c =
      some (material c k h sessionId 'C' 'A' c2s, material c k h sessionId 'D' 'B' s2c) := by
  have hrx : (material c k h sessionId 'C' 'A' c2s).Fits := fits_material hc2s
  have htx : (material c k h sessionId 'D' 'B' s2c).Fits := fits_material hs2c
  have hrx := hrx.new
  have htx := htx.new
  simp only [material] at hrx htx
  simp only [deriveCipherPair, hrx, htx, material]
  rfl

/-- What is negotiated are ciphers of the profile. -/
theorem isOurCipher_of_agree {payload : Bytes} {initial : Bool} {n : Negotiated}
    (h : agree payload initial = .ok n) : IsOurCipher n.cipherC2s ∧ IsOurCipher n.cipherS2c := by
  unfold agree at h
  cases hparse : parseKexinit payload with
  | error e =>
    rw [hparse] at h
    cases h
  | ok peer =>
    rw [hparse] at h
    obtain ⟨c2s, s2c, hc2s, hs2c, hn⟩ := negotiate_of_acceptable (negotiate_ok_iff.1 ⟨n, h⟩)
    obtain rfl := Except.ok.inj (hn.symm.trans h)
    obtain ⟨⟨_, _, -, hours, -⟩, -⟩ := chosen_of_pick hc2s
    obtain ⟨⟨_, _, -, hours', -⟩, -⟩ := chosen_of_pick hs2c
    exact ⟨hours, hours'⟩

/-! ### The schedule -/

/-- What `derive_key` owes under one letter. -/
structure DerivesKeys (c : Crypto) (k h sessionId : Bytes) (letter : Char) : Prop where
  length : ∀ n, (deriveKey c k h letter sessionId n).length = n
  /-- There is one stream of blocks, and the key is its beginning. -/
  stream : ∃ K, IsKeyStream c k h sessionId letter K ∧
    (∀ K', IsKeyStream c k h sessionId letter K' → K' = K) ∧
    ∀ n r, n ≤ 32 * r → deriveKey c k h letter sessionId n = ((List.range r).flatMap K).take n
  grows : ∀ n m, n ≤ m →
    deriveKey c k h letter sessionId n <+: deriveKey c k h letter sessionId m

/-- What `derive_cipher_pair` owes for two names: the material of both directions, which
fits. -/
structure DerivesPair (c : Crypto) (k h sessionId c2s s2c : Bytes) : Prop where
  pair : deriveCipherPair c k h sessionId c2s s2c =
    some (material c k h sessionId 'C' 'A' c2s, material c k h sessionId 'D' 'B' s2c)
  rx : (material c k h sessionId 'C' 'A' c2s).Fits
  tx : (material c k h sessionId 'D' 'B' s2c).Fits

theorem derivesKeys (c : Crypto) (k h sessionId : Bytes) (letter : Char) :
    DerivesKeys c k h sessionId letter where
  length := length_deriveKey c k h letter sessionId
  stream := ⟨_, isKeyStream_block, fun _ hK => (isKeyStream_iff_recurs.1 hK).eq_block,
    fun _ _ hn => deriveKey_eq isKeyStream_block hn⟩
  grows _ _ hnm := deriveKey_isPrefix hnm

theorem derivesPair {c2s s2c : Bytes} (hc2s : IsOurCipher c2s) (hs2c : IsOurCipher s2c) :
    DerivesPair c k h sessionId c2s s2c :=
  ⟨deriveCipherPair_eq hc2s hs2c, fits_material hc2s, fits_material hs2c⟩

/-- **The key schedule**, for every hash function with 32 bytes of output: the derived keys,
the ciphers made of them, and that whatever was negotiated can be installed. -/
theorem key_schedule (c : Crypto) (k h sessionId : Bytes) :
    (∀ letter, DerivesKeys c k h sessionId letter) ∧
    (∀ c2s s2c, IsOurCipher c2s → IsOurCipher s2c → DerivesPair c k h sessionId c2s s2c) ∧
    ∀ payload initial n, agree payload initial = .ok n →
      DerivesPair c k h sessionId n.cipherC2s n.cipherS2c :=
  ⟨derivesKeys c k h sessionId, fun _ _ hc2s hs2c => derivesPair hc2s hs2c, fun _ _ _ hn =>
    derivesPair (isOurCipher_of_agree hn).1 (isOurCipher_of_agree hn).2⟩

end QuantumSsh.Transport
