import QuantumSsh.Wire

/-!
# Authentication requests

The messages of `auth.rs`: the strict parse of a USERAUTH_REQUEST and the replies
to it. Who may log in with which key is left to the caller.
-/

namespace QuantumSsh.Auth

open Wire

def sshMsgUserauthRequest : UInt8 := 50
def sshMsgUserauthFailure : UInt8 := 51
def sshMsgUserauthSuccess : UInt8 := 52
def sshMsgUserauthPkOk : UInt8 := 60

def authMethod : Bytes := utf8 "publickey"
def keyAlgorithm : Bytes := utf8 "ssh-ed25519"
def certAlgorithm : Bytes := utf8 "ssh-ed25519-cert-v01@openssh.com"

/-- `MAX_AUTH_ATTEMPTS`. -/
def maxAuthAttempts : ℕ := 12

def userNameBound : ℕ := 256
def serviceNameBound : ℕ := 64
def methodNameBound : ℕ := 32
def keyAlgoBound : ℕ := 64
def keyBlobBound : ℕ := 1024
def certBlobBound : ℕ := 16 * 1024
def signatureBound : ℕ := 256

/-- `RequestError`. -/
inductive RequestError where
  | notUserauthRequest
  | malformed
  | unexpectedService
deriving Repr, DecidableEq

/-- `Signed`: the bytes signed and the raw signature. -/
structure Signed where
  data : Bytes
  signature : Bytes
deriving Repr, DecidableEq

/-- `UserauthRequest`. -/
inductive UserauthRequest where
  | refused (method : Bytes)
  | publicKey (user keyAlgorithm keyBlob : Bytes) (signature : Option Signed)
deriving Repr, DecidableEq

/-- A read whose failure makes the request malformed. -/
def field {α : Type} (r : Reader α) : StateT Bytes (Except RequestError) α := fun input =>
  match r.run input with
  | .ok v => .ok v
  | .error _ => .error .malformed

/-- `utf8_field`. -/
def utf8Field (bound : ℕ) : StateT Bytes (Except RequestError) Bytes := do
  let b ← field (Reader.string bound)
  if isUtf8 b then return b else throw .malformed

/-- The nested signature encoding. -/
def readSignature : StateT Bytes (Except RequestError) Bytes := do
  let algorithm ← field (Reader.string keyAlgoBound)
  if algorithm ≠ keyAlgorithm then throw .malformed
  let raw ← field (Reader.string signatureBound)
  field Reader.finish
  return raw

/-- The fields of a request behind its message number. -/
def readRequest (payload : Bytes) : StateT Bytes (Except RequestError) UserauthRequest := do
  let user ← utf8Field userNameBound
  let service ← utf8Field serviceNameBound
  if service ≠ utf8 "ssh-connection" then throw .unexpectedService
  let method ← utf8Field methodNameBound
  if method ≠ authMethod then return .refused method
  let sigPresent ← field Reader.boolean
  let algorithm ← utf8Field keyAlgoBound
  if algorithm ≠ keyAlgorithm ∧ algorithm ≠ certAlgorithm then return .refused method
  let keyBlob ← field (Reader.string (if algorithm = certAlgorithm then certBlobBound else keyBlobBound))
  let remaining ← get
  let data := payload.take (payload.length - remaining.length)
  if sigPresent then
    let signature ← field (Reader.string signatureBound)
    field Reader.finish
    match readSignature.run signature with
    | .error e => throw e
    | .ok (raw, _) => return .publicKey user algorithm keyBlob (some ⟨data, raw⟩)
  else
    field Reader.finish
    return .publicKey user algorithm keyBlob none

/-- `parse_userauth_request`. -/
def parseUserauthRequest (payload : Bytes) : Except RequestError UserauthRequest :=
  match payload with
  | [] => .error .notUserauthRequest
  | msg :: rest =>
    if msg ≠ sshMsgUserauthRequest then .error .notUserauthRequest
    else (readRequest payload).run' rest

/-- `auth_signed_data`. -/
def authSignedData (sessionId payloadWithoutSig : Bytes) : Bytes :=
  putString sessionId ++ payloadWithoutSig

/-- `build_failure_payload`. -/
def buildFailurePayload (partialSuccess : Bool) : Bytes :=
  [sshMsgUserauthFailure] ++ putString authMethod ++ putBoolean partialSuccess

/-- `build_pk_ok`. -/
def buildPkOk (keyAlgorithm keyBlob : Bytes) : Bytes :=
  [sshMsgUserauthPkOk] ++ putString keyAlgorithm ++ putString keyBlob

/-- `build_success_payload`. -/
def buildSuccessPayload : Bytes := [sshMsgUserauthSuccess]

end QuantumSsh.Auth
