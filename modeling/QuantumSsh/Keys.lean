import QuantumSsh.Auth
import QuantumSsh.Packet

/-!
# Public keys

The keys a login may name: their fingerprints as `host_key.rs` writes them, the
composite signature of `composite.rs`, and the entries of a key file of `auth.rs`.
The signature schemes and the hashes come from libraries; `Signatures` says what is
taken from them.
-/

namespace QuantumSsh

open Wire

/-- What the libraries compute. A key and a signature are their bytes. -/
structure Signatures where
  sha256 : Bytes → Bytes
  sha512 : Bytes → Bytes
  /-- `ed25519_dalek::VerifyingKey::from_bytes` accepts the bytes. -/
  ed25519Valid : FixedBytes 32 → Bool
  /-- `VerifyingKey::is_weak`. -/
  ed25519Weak : FixedBytes 32 → Bool
  /-- Ed25519 `verify_strict`. -/
  verifyStrict : (key message signature : Bytes) → Bool
  /-- `ml_dsa::Signature::decode` and then `verify_with_context`. -/
  mldsaVerify : (key message context signature : Bytes) → Bool

namespace HostKey

/-- `B64_ALPHABET`. -/
def b64Alphabet : Bytes :=
  utf8 "ABCDEFGHIJKLMNOPQRSTUVWXYZabcdefghijklmnopqrstuvwxyz0123456789+/"

/-- The four characters of a chunk. -/
def base64Chars (a b c : UInt8) : Bytes :=
  let n := a.toNat * 2 ^ 16 + b.toNat * 2 ^ 8 + c.toNat
  [n / 2 ^ 18 % 64, n / 2 ^ 12 % 64, n / 2 ^ 6 % 64, n % 64].map fun i => b64Alphabet.getD i 0

/-- `base64_encode_nopad`. -/
def base64EncodeNopad : Bytes → Bytes
  | [] => []
  | [a] => (base64Chars a 0 0).take 2
  | [a, b] => (base64Chars a b 0).take 3
  | a :: b :: c :: rest => base64Chars a b c ++ base64EncodeNopad rest

/-- `fingerprint_sha256`. -/
def fingerprintSha256 (sigs : Signatures) (blob : Bytes) : Bytes :=
  utf8 "SHA256:" ++ base64EncodeNopad (sigs.sha256 blob)

example : base64EncodeNopad (utf8 "foobar!") = utf8 "Zm9vYmFyIQ" := by decide

end HostKey

namespace Composite

/-- `ALGORITHM`. -/
def algorithm : Bytes := utf8 "ssh-mldsa44-ed25519"

/-- `PREFIX`. -/
def domain : Bytes := utf8 "CompositeAlgorithmSignatures2025"
/-- `LABEL`. -/
def label : Bytes := utf8 "COMPSIG-MLDSA44-Ed25519-SHA512"

def mldsaPublicLen : ℕ := 1312
def mldsaSignatureLen : ℕ := 2420
/-- `PUBLIC_LEN`. -/
def publicLen : ℕ := mldsaPublicLen + 32
/-- `SIGNATURE_LEN`. -/
def signatureLen : ℕ := mldsaSignatureLen + 64

/-- `message_representative`. -/
def messageRepresentative (sigs : Signatures) (message : Bytes) : Bytes :=
  domain ++ label ++ [0] ++ sigs.sha512 message

/-- `VerifyingKey`. -/
structure VerifyingKey where
  mldsa : FixedBytes mldsaPublicLen
  ed25519 : FixedBytes 32
deriving DecidableEq

/-- The bytes of a key. -/
def VerifyingKey.bytes (key : VerifyingKey) : Bytes := key.mldsa.val ++ key.ed25519.val

/-- `VerifyingKey::verify`. -/
def VerifyingKey.verify (sigs : Signatures) (key : VerifyingKey) (message signature : Bytes) :
    Bool :=
  if signature.length ≠ signatureLen then false
  else
    let m := messageRepresentative sigs message
    sigs.mldsaVerify key.mldsa.val m label (signature.take mldsaSignatureLen) &&
      sigs.verifyStrict key.ed25519.val m (signature.drop mldsaSignatureLen)

/-- A key is determined by its bytes. -/
theorem VerifyingKey.bytes_inj {key key' : VerifyingKey} (h : key.bytes = key'.bytes) :
    key = key' := by
  obtain ⟨hmldsa, hed25519⟩ := List.append_inj h (key.mldsa.property.trans key'.mldsa.property.symm)
  obtain ⟨mldsa, ed25519⟩ := key
  obtain ⟨mldsa', ed25519'⟩ := key'
  obtain rfl := Subtype.ext hmldsa
  obtain rfl := Subtype.ext hed25519
  rfl

end Composite

/-! ### The entries of a key file -/

namespace Auth

/-- `KeyLine`: the wire blob, its fingerprint, and the key built from its bytes. -/
structure KeyLine (K : Type) where
  blob : Bytes
  fingerprint : Bytes
  key : K
deriving DecidableEq

/-- What `parse_key_lines` builds: the blob is the algorithm and the key's bytes,
the fingerprint is the blob's. -/
def KeyLine.Built (sigs : Signatures) (algorithm : Bytes) {K : Type} (bytes : K → Bytes)
    (line : KeyLine K) : Prop :=
  line.blob = putString algorithm ++ putString (bytes line.key) ∧
    line.fingerprint = HostKey.fingerprintSha256 sigs line.blob

/-- `AuthorizedKeys`: what its parser can build. -/
structure AuthorizedKeys (sigs : Signatures) where
  keys : List (KeyLine (FixedBytes 32))
  built : ∀ line ∈ keys, line.Built sigs keyAlgorithm Subtype.val

/-- `AuthorizedKeys::lookup`. -/
def AuthorizedKeys.lookup {sigs : Signatures} (authorized : AuthorizedKeys sigs)
    (keyBlob : Bytes) : Option (KeyLine (FixedBytes 32)) :=
  authorized.keys.find? fun k => k.blob = keyBlob

end Auth

end QuantumSsh
