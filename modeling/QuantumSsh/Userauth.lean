import QuantumSsh.Auth
import QuantumSsh.Fields

/-!
# The grammar of an authentication request

Which payloads `parse_userauth_request` accepts and as what, and which field it
stops at otherwise. The grammar is written with the writers of `wire.rs`; the
parser is proved to decide it. The bytes a signature covers name one session, one
user and one key.
-/

namespace QuantumSsh.Auth

open Wire Parser

/-! ### The grammar -/

/-- A text of at most `bound` bytes. -/
def IsText (bound : ℕ) (b : Bytes) : Prop := b.length ≤ bound ∧ isUtf8 b = true

/-- The input starts with a string that meets `P`. -/
def StartsWith (P : Bytes → Prop) (input : Bytes) : Prop :=
  ∃ b rest, input = putString b ++ rest ∧ P b

/-- The service that may be asked for. -/
def connectionService : Bytes := utf8 "ssh-connection"

/-- The message number and the user. -/
def putUser (user : Bytes) : Bytes := [sshMsgUserauthRequest] ++ putString user

/-- The fields up to the method. -/
def putMethod (user method : Bytes) : Bytes :=
  putUser user ++ putString connectionService ++ putString method

/-- The fields of a `publickey` request up to the key algorithm. -/
def putAlgorithm (user : Bytes) (flag : UInt8) (algorithm : Bytes) : Bytes :=
  putMethod user authMethod ++ [flag] ++ putString algorithm

/-- The fields of a `publickey` request up to the signature. -/
def putKey (user : Bytes) (flag : UInt8) (algorithm keyBlob : Bytes) : Bytes :=
  putAlgorithm user flag algorithm ++ putString keyBlob

/-- What a signature field holds. -/
def putSignature (raw : Bytes) : Bytes := putString keyAlgorithm ++ putString raw

/-- The bound on a key blob. -/
def blobBound (algorithm : Bytes) : ℕ :=
  if algorithm = certAlgorithm then certBlobBound else keyBlobBound

/-- The user, the key algorithm and the blob of a `publickey` request are within
their bounds. -/
structure IsKey (user algorithm keyBlob : Bytes) : Prop where
  text : IsText userNameBound user
  known : algorithm = keyAlgorithm ∨ algorithm = certAlgorithm
  fits : keyBlob.length ≤ blobBound algorithm

/-- The payload encodes the request. -/
inductive Encodes : Bytes → UserauthRequest → Prop
  | otherMethod {user method : Bytes} (rest : Bytes) (huser : IsText userNameBound user)
      (hmethod : IsText methodNameBound method) (hother : method ≠ authMethod) :
      Encodes (putMethod user method ++ rest) (.refused method)
  | otherAlgorithm {user algorithm : Bytes} (flag : UInt8) (rest : Bytes)
      (huser : IsText userNameBound user) (halgorithm : IsText keyAlgoBound algorithm)
      (hother : algorithm ≠ keyAlgorithm ∧ algorithm ≠ certAlgorithm) :
      Encodes (putAlgorithm user flag algorithm ++ rest) (.refused authMethod)
  | probe {user algorithm keyBlob : Bytes} (hkey : IsKey user algorithm keyBlob) :
      Encodes (putKey user 0 algorithm keyBlob) (.publicKey user algorithm keyBlob none)
  | signed {user algorithm keyBlob raw : Bytes} {flag : UInt8} (hkey : IsKey user algorithm keyBlob)
      (hflag : flag ≠ 0) (hsignature : (putSignature raw).length ≤ signatureBound) :
      Encodes (putKey user flag algorithm keyBlob ++ putString (putSignature raw))
        (.publicKey user algorithm keyBlob (some ⟨putKey user flag algorithm keyBlob, raw⟩))

/-- The first field of the payload, in wire order, that fails. -/
inductive FirstFailure : Bytes → RequestError → Prop
  | message {payload : Bytes} (h : payload.head? ≠ some sshMsgUserauthRequest) :
      FirstFailure payload .notUserauthRequest
  | user {rest : Bytes} (h : ¬StartsWith (IsText userNameBound) rest) :
      FirstFailure ([sshMsgUserauthRequest] ++ rest) .malformed
  | service {user rest : Bytes} (huser : IsText userNameBound user)
      (h : ¬StartsWith (IsText serviceNameBound) rest) :
      FirstFailure (putUser user ++ rest) .malformed
  | otherService {user service : Bytes} (rest : Bytes) (huser : IsText userNameBound user)
      (hservice : IsText serviceNameBound service) (h : service ≠ connectionService) :
      FirstFailure (putUser user ++ putString service ++ rest) .unexpectedService
  | method {user rest : Bytes} (huser : IsText userNameBound user)
      (h : ¬StartsWith (IsText methodNameBound) rest) :
      FirstFailure (putUser user ++ putString connectionService ++ rest) .malformed
  | flag {user : Bytes} (huser : IsText userNameBound user) :
      FirstFailure (putMethod user authMethod) .malformed
  | algorithm {user rest : Bytes} (flag : UInt8) (huser : IsText userNameBound user)
      (h : ¬StartsWith (IsText keyAlgoBound) rest) :
      FirstFailure (putMethod user authMethod ++ [flag] ++ rest) .malformed
  | keyBlob {user algorithm rest : Bytes} (flag : UInt8) (huser : IsText userNameBound user)
      (halgorithm : algorithm = keyAlgorithm ∨ algorithm = certAlgorithm)
      (h : ¬StartsWith (fun b => b.length ≤ blobBound algorithm) rest) :
      FirstFailure (putAlgorithm user flag algorithm ++ rest) .malformed
  | probeEnd {user algorithm keyBlob rest : Bytes} (hkey : IsKey user algorithm keyBlob)
      (h : rest ≠ []) : FirstFailure (putKey user 0 algorithm keyBlob ++ rest) .malformed
  | signature {user algorithm keyBlob rest : Bytes} {flag : UInt8}
      (hkey : IsKey user algorithm keyBlob) (hflag : flag ≠ 0)
      (h : ¬StartsWith (fun b => b.length ≤ signatureBound) rest) :
      FirstFailure (putKey user flag algorithm keyBlob ++ rest) .malformed
  | signedEnd {user algorithm keyBlob signature rest : Bytes} {flag : UInt8}
      (hkey : IsKey user algorithm keyBlob) (hflag : flag ≠ 0)
      (hsignature : signature.length ≤ signatureBound) (h : rest ≠ []) :
      FirstFailure (putKey user flag algorithm keyBlob ++ putString signature ++ rest) .malformed
  | nested {user algorithm keyBlob signature : Bytes} {flag : UInt8}
      (hkey : IsKey user algorithm keyBlob) (hflag : flag ≠ 0)
      (hsignature : signature.length ≤ signatureBound) (h : ∀ raw, signature ≠ putSignature raw) :
      FirstFailure (putKey user flag algorithm keyBlob ++ putString signature) .malformed

/-! ### Every payload is one or the other -/

theorem exists_encodes_or_fails (payload : Bytes) :
    (∃ request, Encodes payload request) ∨ ∃ e, FirstFailure payload e := by
  -- Field by field, in the order of the parser: it is there, or it is the first that fails.
  by_cases hmessage : payload.head? = some sshMsgUserauthRequest
  swap
  · exact .inr ⟨_, .message hmessage⟩
  obtain ⟨rest, rfl⟩ : ∃ rest, payload = [sshMsgUserauthRequest] ++ rest := by
    cases payload with
    | nil => cases hmessage
    | cons msg rest => exact ⟨rest, by simpa using hmessage⟩
  by_cases huser : StartsWith (IsText userNameBound) rest
  swap
  · exact .inr ⟨_, .user huser⟩
  obtain ⟨user, rest, rfl, huser⟩ := huser
  rw [← List.append_assoc, ← putUser]
  by_cases hservice : StartsWith (IsText serviceNameBound) rest
  swap
  · exact .inr ⟨_, .service huser hservice⟩
  obtain ⟨service, rest, rfl, hservice⟩ := hservice
  rw [← List.append_assoc]
  by_cases hname : service = connectionService
  swap
  · exact .inr ⟨_, .otherService rest huser hservice hname⟩
  subst hname
  by_cases hmethod : StartsWith (IsText methodNameBound) rest
  swap
  · exact .inr ⟨_, .method huser hmethod⟩
  obtain ⟨method, rest, rfl, hmethod⟩ := hmethod
  rw [← List.append_assoc, ← putMethod]
  by_cases hmethod' : method = authMethod
  swap
  -- Behind another method everything is accepted unread.
  · exact .inl ⟨_, .otherMethod rest huser hmethod hmethod'⟩
  subst hmethod'
  cases rest with
  | nil =>
    rw [List.append_nil]
    exact .inr ⟨_, .flag huser⟩
  | cons flag rest =>
    rw [← List.singleton_append, ← List.append_assoc]
    by_cases halgorithm : StartsWith (IsText keyAlgoBound) rest
    swap
    · exact .inr ⟨_, .algorithm flag huser halgorithm⟩
    obtain ⟨algorithm, rest, rfl, halgorithm⟩ := halgorithm
    rw [← List.append_assoc, ← putAlgorithm]
    by_cases hknown : algorithm = keyAlgorithm ∨ algorithm = certAlgorithm
    swap
    · exact .inl ⟨_, .otherAlgorithm flag rest huser halgorithm (not_or.1 hknown)⟩
    by_cases hblob : StartsWith (fun b => b.length ≤ blobBound algorithm) rest
    swap
    · exact .inr ⟨_, .keyBlob flag huser hknown hblob⟩
    obtain ⟨keyBlob, rest, rfl, hblob⟩ := hblob
    have hkey : IsKey user algorithm keyBlob := ⟨huser, hknown, hblob⟩
    rw [← List.append_assoc, ← putKey]
    -- Without the flag the request asks whether the key would do.
    by_cases hflag : flag = 0
    · subst hflag
      by_cases hrest : rest = []
      · rw [hrest, List.append_nil]
        exact .inl ⟨_, .probe hkey⟩
      · exact .inr ⟨_, .probeEnd hkey hrest⟩
    · by_cases hsignature : StartsWith (fun b => b.length ≤ signatureBound) rest
      swap
      · exact .inr ⟨_, .signature hkey hflag hsignature⟩
      obtain ⟨signature, rest, rfl, hsignature⟩ := hsignature
      rw [← List.append_assoc]
      by_cases hrest : rest = []
      swap
      · exact .inr ⟨_, .signedEnd hkey hflag hsignature hrest⟩
      rw [hrest, List.append_nil]
      by_cases hnested : ∃ raw, signature = putSignature raw
      · obtain ⟨raw, rfl⟩ := hnested
        exact .inl ⟨_, .signed hkey hflag hsignature⟩
      · exact .inr ⟨_, .nested hkey hflag hsignature (not_exists.1 hnested)⟩

/-! ### The parser on them -/

section

variable {input rest b : Bytes} {bound : ℕ} {e : RequestError}

theorem field_ok {α : Type} {r : Reader α} {a : α} (h : r.run input = .ok (a, rest)) :
    (field r).run input = .ok (a, rest) := by
  show field r input = _
  simp only [field, h]

theorem field_error {α : Type} {r : Reader α} (h : ∀ a rest, r.run input ≠ .ok (a, rest)) :
    (field r).run input = .error .malformed := by
  show field r input = _
  cases hr : r.run input with
  | ok v => exact absurd hr (h v.1 v.2)
  | error e => simp only [field, hr]

theorem string_field (hbound : bound < 2 ^ 32) (hb : b.length ≤ bound) :
    (field (Reader.string bound)).run (putString b ++ rest) = .ok (b, rest) :=
  field_ok (Reader.string_putString hb (by omega) rest)

theorem string_field_error (h : ¬StartsWith (fun b => b.length ≤ bound) input) :
    (field (Reader.string bound)).run input = .error .malformed := by
  refine field_error fun b rest hb => h ?_
  obtain ⟨hlen, hinput⟩ := Reader.string_ok.1 hb
  exact ⟨b, rest, hinput, hlen.1⟩

theorem utf8Field_text (hbound : bound < 2 ^ 32) (hb : IsText bound b) :
    (utf8Field bound).run (putString b ++ rest) = .ok (b, rest) := by
  rw [utf8Field, run_bind_of_ok (string_field hbound hb.1), if_pos hb.2]
  rfl

theorem utf8Field_error (h : ¬StartsWith (IsText bound) input) :
    (utf8Field bound).run input = .error .malformed := by
  rw [utf8Field]
  by_cases hstring : StartsWith (fun b => b.length ≤ bound ∧ b.length < 2 ^ 32) input
  · obtain ⟨b, rest, rfl, hlen⟩ := hstring
    have hutf8 : ¬isUtf8 b = true := fun hb => h ⟨b, rest, rfl, hlen.1, hb⟩
    rw [run_bind_of_ok (field_ok (Reader.string_ok.2 ⟨hlen, rfl⟩)), if_neg hutf8]
    rfl
  · refine run_bind_of_error (field_error fun b rest hb => hstring ?_)
    obtain ⟨hlen, hinput⟩ := Reader.string_ok.1 hb
    exact ⟨b, rest, hinput, hlen⟩

theorem finish_field : (field Reader.finish).run [] = .ok ((), []) := rfl

theorem finish_field_error (h : input ≠ []) :
    (field Reader.finish).run input = .error .malformed :=
  field_error fun _ _ hfinish => h (Reader.finish_ok.1 hfinish).1

theorem readSignature_putSignature {raw : Bytes} (h : (putSignature raw).length ≤ signatureBound) :
    readSignature.run (putSignature raw) = .ok (raw, []) := by
  have hraw : raw.length ≤ signatureBound := by
    simp only [putSignature, putString, List.length_append] at h
    omega
  have halgorithm : (field (Reader.string keyAlgoBound)).run (putSignature raw) =
      .ok (keyAlgorithm, putString raw) :=
    string_field (by decide) (by decide)
  have hread : (field (Reader.string signatureBound)).run (putString raw) = .ok (raw, []) := by
    have h := @string_field [] raw signatureBound (by decide) hraw
    rwa [List.append_nil] at h
  rw [readSignature, run_bind_of_ok halgorithm]
  simp only [ne_eq, not_true_eq_false, if_false]
  rw [run_bind_of_ok hread, run_bind_of_ok finish_field]
  rfl

theorem readSignature_error {signature : Bytes} (h : ∀ raw, signature ≠ putSignature raw) :
    readSignature.run signature = .error .malformed := by
  rw [readSignature]
  by_cases hfirst : StartsWith (fun b => b.length ≤ keyAlgoBound) signature
  swap
  · exact run_bind_of_error (string_field_error hfirst)
  obtain ⟨algorithm, rest, rfl, hlen⟩ := hfirst
  rw [run_bind_of_ok (string_field (by decide) hlen)]
  by_cases halgorithm : algorithm = keyAlgorithm
  swap
  · simp only [if_pos halgorithm]
    rfl
  simp only [ne_eq, halgorithm, not_true_eq_false, if_false]
  by_cases hsecond : StartsWith (fun b => b.length ≤ signatureBound) rest
  swap
  · exact run_bind_of_error (string_field_error hsecond)
  obtain ⟨raw, rest, rfl, hraw⟩ := hsecond
  rw [run_bind_of_ok (string_field (by decide) hraw)]
  refine run_bind_of_error (finish_field_error fun hrest => h raw ?_)
  rw [hrest, List.append_nil, halgorithm]
  rfl

/-- What is read behind the key blob; `data` is the payload up to there. -/
def readProof (user algorithm keyBlob data : Bytes) (sigPresent : Bool) :
    StateT Bytes (Except RequestError) UserauthRequest := do
  if sigPresent then
    let signature ← field (Reader.string signatureBound)
    field Reader.finish
    match readSignature.run signature with
    | .error e => throw e
    | .ok (raw, _) => return .publicKey user algorithm keyBlob (some ⟨data, raw⟩)
  else
    field Reader.finish
    return .publicKey user algorithm keyBlob none

/-- What is read behind the key algorithm. -/
def readBlob (payload user algorithm : Bytes) (sigPresent : Bool) :
    StateT Bytes (Except RequestError) UserauthRequest := do
  let keyBlob ← field (Reader.string (blobBound algorithm))
  let remaining ← get
  readProof user algorithm keyBlob (payload.take (payload.length - remaining.length)) sigPresent

/-- What is read behind the method `publickey`. -/
def readPublicKey (payload user : Bytes) : StateT Bytes (Except RequestError) UserauthRequest := do
  let sigPresent ← field Reader.boolean
  let algorithm ← utf8Field keyAlgoBound
  if algorithm ≠ keyAlgorithm ∧ algorithm ≠ certAlgorithm then return .refused authMethod
  else readBlob payload user algorithm sigPresent

variable {payload user service method algorithm keyBlob signature : Bytes} {flag : UInt8}

theorem isText_connectionService : IsText serviceNameBound connectionService := by
  refine ⟨by decide, by decide⟩

theorem isText_authMethod : IsText methodNameBound authMethod := ⟨by decide, by decide⟩

theorem isText_of_known (h : algorithm = keyAlgorithm ∨ algorithm = certAlgorithm) :
    IsText keyAlgoBound algorithm := by
  obtain rfl | rfl := h
  · exact ⟨by decide, by decide⟩
  · exact ⟨by decide, by decide⟩

theorem blobBound_lt (algorithm : Bytes) : blobBound algorithm < 2 ^ 32 := by
  unfold blobBound
  split <;> decide

/-- The parser up to the service. -/
theorem readRequest_user (huser : IsText userNameBound user) :
    (readRequest payload).run (putString user ++ rest) =
      (utf8Field serviceNameBound >>= fun service =>
        if service ≠ connectionService then throw .unexpectedService
        else utf8Field methodNameBound >>= fun method =>
          if method ≠ authMethod then pure (.refused method)
          else readPublicKey payload user).run rest := by
  rw [readRequest, run_bind_of_ok (utf8Field_text (by decide) huser)]
  have hname : utf8 "ssh-connection" = connectionService := rfl
  congr 2
  funext service
  rw [hname]
  by_cases hservice : service = connectionService
  · simp only [ne_eq, hservice, not_true_eq_false, if_false]
    congr 1
    funext method
    by_cases hmethod : method = authMethod
    · simp only [hmethod, not_true_eq_false, if_false]
      rfl
    · simp only [hmethod, not_false_eq_true, if_true]
  · simp only [ne_eq, hservice, not_false_eq_true, if_true]
    rfl

/-- The parser up to the method. -/
theorem readRequest_method (huser : IsText userNameBound user)
    (hmethod : IsText methodNameBound method) :
    (readRequest payload).run
        (putString user ++ (putString connectionService ++ (putString method ++ rest))) =
      (if method ≠ authMethod then pure (.refused method)
        else readPublicKey payload user : StateT Bytes (Except RequestError) _).run rest := by
  rw [readRequest_user huser,
    run_bind_of_ok (utf8Field_text (by decide) isText_connectionService), if_neg (not_not.2 rfl),
    run_bind_of_ok (utf8Field_text (by decide) hmethod)]

theorem boolean_field : (field Reader.boolean).run (flag :: rest) = .ok (decide (flag ≠ 0), rest) :=
  field_ok (Reader.boolean_ok.2 ⟨flag, rfl, rfl⟩)

/-- The parser up to the key algorithm. -/
theorem readPublicKey_algorithm (halgorithm : IsText keyAlgoBound algorithm) :
    (readPublicKey payload user).run (flag :: (putString algorithm ++ rest)) =
      (if algorithm ≠ keyAlgorithm ∧ algorithm ≠ certAlgorithm then pure (.refused authMethod)
        else readBlob payload user algorithm (decide (flag ≠ 0)) :
          StateT Bytes (Except RequestError) _).run rest := by
  rw [readPublicKey, run_bind_of_ok boolean_field,
    run_bind_of_ok (utf8Field_text (by decide) halgorithm)]

/-- The parser up to the key blob, on a payload that ends in `rest`. -/
theorem readBlob_keyBlob {data : Bytes} (hfits : keyBlob.length ≤ blobBound algorithm)
    (sigPresent : Bool) :
    (readBlob (data ++ rest) user algorithm sigPresent).run (putString keyBlob ++ rest) =
      (readProof user algorithm keyBlob data sigPresent).run rest := by
  have hdata : (data ++ rest).take ((data ++ rest).length - rest.length) = data := by
    rw [List.length_append, Nat.add_sub_cancel, List.take_left]
  rw [readBlob, run_bind_of_ok (string_field (blobBound_lt algorithm) hfits)]
  change (readProof user algorithm keyBlob ((data ++ rest).take _) sigPresent).run rest = _
  rw [hdata]

/-- The parser up to the signature. -/
theorem readRequest_key (hkey : IsKey user algorithm keyBlob) :
    (readRequest (putKey user flag algorithm keyBlob ++ rest)).run
        ((putKey user flag algorithm keyBlob ++ rest).tail) =
      (readProof user algorithm keyBlob (putKey user flag algorithm keyBlob)
        (decide (flag ≠ 0))).run rest := by
  have htail : (putKey user flag algorithm keyBlob ++ rest).tail =
      putString user ++ (putString connectionService ++ (putString authMethod ++
        (flag :: (putString algorithm ++ (putString keyBlob ++ rest))))) := by
    simp [putKey, putAlgorithm, putMethod, putUser]
  have hknown : ¬(algorithm ≠ keyAlgorithm ∧ algorithm ≠ certAlgorithm) := by
    rw [← not_or, not_not]
    exact hkey.known
  rw [htail, readRequest_method hkey.text isText_authMethod, if_neg (not_not.2 rfl),
    readPublicKey_algorithm (isText_of_known hkey.known), if_neg hknown,
    readBlob_keyBlob hkey.fits]

theorem parse_of_run (hmsg : payload.head? = some sshMsgUserauthRequest) :
    parseUserauthRequest payload = (readRequest payload).run' payload.tail := by
  cases payload with
  | nil => cases hmsg
  | cons msg tail =>
    obtain rfl : msg = sshMsgUserauthRequest := by simpa using hmsg
    rw [parseUserauthRequest, if_neg (not_not.2 rfl)]
    rfl

theorem parse_of_ok {request : UserauthRequest} (hmsg : payload.head? = some sshMsgUserauthRequest)
    (h : (readRequest payload).run payload.tail = .ok (request, rest)) :
    parseUserauthRequest payload = .ok request := by
  rw [parse_of_run hmsg, StateT.run'_eq, h]
  rfl

theorem parse_of_error (hmsg : payload.head? = some sshMsgUserauthRequest)
    (h : (readRequest payload).run payload.tail = .error e) :
    parseUserauthRequest payload = .error e := by
  rw [parse_of_run hmsg, StateT.run'_eq, h]
  rfl

/-- Every encoding is accepted, as what it encodes. -/
theorem Encodes.parse {request : UserauthRequest} (h : Encodes payload request) :
    parseUserauthRequest payload = .ok request := by
  cases h with
  | @otherMethod user method rest huser hmethod hother =>
    refine @parse_of_ok rest _ _ rfl ?_
    have htail : (putMethod user method ++ rest).tail =
        putString user ++ (putString connectionService ++ (putString method ++ rest)) := by
      simp [putMethod, putUser]
    rw [htail, readRequest_method huser hmethod, if_pos hother]
    rfl
  | @otherAlgorithm user algorithm flag rest huser halgorithm hother =>
    refine @parse_of_ok rest _ _ rfl ?_
    have htail : (putAlgorithm user flag algorithm ++ rest).tail =
        putString user ++ (putString connectionService ++ (putString authMethod ++
          (flag :: (putString algorithm ++ rest)))) := by
      simp [putAlgorithm, putMethod, putUser]
    rw [htail, readRequest_method huser isText_authMethod, if_neg (not_not.2 rfl),
      readPublicKey_algorithm halgorithm, if_pos hother]
    rfl
  | @probe user algorithm keyBlob hkey =>
    refine @parse_of_ok [] _ _ rfl ?_
    have hread := @readRequest_key [] _ _ _ 0 hkey
    rw [List.append_nil] at hread
    rw [hread]
    rfl
  | @signed user algorithm keyBlob raw flag hkey hflag hsignature =>
    refine @parse_of_ok [] _ _ rfl ?_
    have hread : (field (Reader.string signatureBound)).run (putString (putSignature raw)) =
        .ok (putSignature raw, []) := by
      have h := @string_field [] _ _ (by decide) hsignature
      rwa [List.append_nil] at h
    rw [readRequest_key hkey, readProof, if_pos (decide_eq_true hflag), run_bind_of_ok hread,
      run_bind_of_ok finish_field, readSignature_putSignature hsignature]
    rfl

/-- Every failure is reported, as the error of its field. -/
theorem FirstFailure.parse (h : FirstFailure payload e) :
    parseUserauthRequest payload = .error e := by
  cases h with
  | message hmsg =>
    cases payload with
    | nil => rfl
    | cons msg tail =>
      have hmsg : msg ≠ sshMsgUserauthRequest := by simpa using hmsg
      rw [parseUserauthRequest, if_pos hmsg]
  -- Each case puts the payload in the shape of the reader that fails on it.
  | user huser =>
    refine parse_of_error rfl ?_
    rw [readRequest]
    exact run_bind_of_error (utf8Field_error huser)
  | @service user rest huser hservice =>
    refine parse_of_error rfl ?_
    have htail : (putUser user ++ rest).tail = putString user ++ rest := by simp [putUser]
    rw [htail, readRequest_user huser]
    exact run_bind_of_error (utf8Field_error hservice)
  | @otherService user service rest huser hservice hother =>
    refine parse_of_error rfl ?_
    have htail : (putUser user ++ putString service ++ rest).tail =
        putString user ++ (putString service ++ rest) := by simp [putUser]
    rw [htail, readRequest_user huser, run_bind_of_ok (utf8Field_text (by decide) hservice),
      if_pos hother]
    rfl
  | @method user rest huser hmethod =>
    refine parse_of_error rfl ?_
    have htail : (putUser user ++ putString connectionService ++ rest).tail =
        putString user ++ (putString connectionService ++ rest) := by simp [putUser]
    rw [htail, readRequest_user huser,
      run_bind_of_ok (utf8Field_text (by decide) isText_connectionService),
      if_neg (not_not.2 rfl)]
    exact run_bind_of_error (utf8Field_error hmethod)
  -- Behind the method the request ends before its flag.
  | @flag user huser =>
    refine parse_of_error rfl ?_
    have htail : (putMethod user authMethod).tail =
        putString user ++ (putString connectionService ++ (putString authMethod ++ [])) := by
      simp [putMethod, putUser]
    rw [htail, readRequest_method huser isText_authMethod, if_neg (not_not.2 rfl)]
    rfl
  | @algorithm user rest flag huser halgorithm =>
    refine parse_of_error rfl ?_
    have htail : (putMethod user authMethod ++ [flag] ++ rest).tail =
        putString user ++ (putString connectionService ++ (putString authMethod ++
          (flag :: rest))) := by
      simp [putMethod, putUser]
    rw [htail, readRequest_method huser isText_authMethod, if_neg (not_not.2 rfl), readPublicKey,
      run_bind_of_ok boolean_field]
    exact run_bind_of_error (utf8Field_error halgorithm)
  | @keyBlob user algorithm rest flag huser hknown hblob =>
    refine parse_of_error rfl ?_
    have htail : (putAlgorithm user flag algorithm ++ rest).tail =
        putString user ++ (putString connectionService ++ (putString authMethod ++
          (flag :: (putString algorithm ++ rest)))) := by
      simp [putAlgorithm, putMethod, putUser]
    have hknown' : ¬(algorithm ≠ keyAlgorithm ∧ algorithm ≠ certAlgorithm) := by
      rw [← not_or, not_not]
      exact hknown
    rw [htail, readRequest_method huser isText_authMethod, if_neg (not_not.2 rfl),
      readPublicKey_algorithm (isText_of_known hknown), if_neg hknown', readBlob]
    exact run_bind_of_error (string_field_error hblob)
  | probeEnd hkey hrest =>
    refine parse_of_error rfl ?_
    rw [readRequest_key hkey]
    exact run_bind_of_error (finish_field_error hrest)
  | signature hkey hflag hsignature =>
    refine parse_of_error rfl ?_
    rw [readRequest_key hkey, readProof, if_pos (decide_eq_true hflag)]
    exact run_bind_of_error (string_field_error hsignature)
  | signedEnd hkey hflag hsignature hrest =>
    refine parse_of_error rfl ?_
    rw [List.append_assoc, readRequest_key hkey, readProof, if_pos (decide_eq_true hflag),
      run_bind_of_ok (string_field (by decide) hsignature)]
    exact run_bind_of_error (finish_field_error hrest)
  -- The blob of the signature is read to its end, and fails inside.
  | @nested user algorithm keyBlob signature flag hkey hflag hsignature hnested =>
    refine parse_of_error rfl ?_
    have hread : (field (Reader.string signatureBound)).run (putString signature) =
        .ok (signature, []) := by
      have h := @string_field [] _ _ (by decide) hsignature
      rwa [List.append_nil] at h
    rw [readRequest_key hkey, readProof, if_pos (decide_eq_true hflag), run_bind_of_ok hread,
      run_bind_of_ok finish_field, readSignature_error hnested]
    rfl

end

theorem encodes_of_parse {payload : Bytes} {request : UserauthRequest}
    (h : parseUserauthRequest payload = .ok request) : Encodes payload request := by
  obtain ⟨request', hrequest⟩ | ⟨e, he⟩ := exists_encodes_or_fails payload
  · have hparse := hrequest.parse
    rw [h] at hparse
    cases hparse
    exact hrequest
  · have hparse := he.parse
    rw [h] at hparse
    cases hparse

theorem fails_of_parse {payload : Bytes} {e : RequestError}
    (h : parseUserauthRequest payload = .error e) : FirstFailure payload e := by
  obtain ⟨request, hrequest⟩ | ⟨e', he⟩ := exists_encodes_or_fails payload
  · have hparse := hrequest.parse
    rw [h] at hparse
    cases hparse
  · have hparse := he.parse
    rw [h] at hparse
    cases hparse
    exact he

/-- **The parser decides the grammar**: it accepts a payload as exactly what the
payload encodes, and reports the first field that fails for every other one. -/
theorem userauth_request_exact (payload : Bytes) :
    (∀ request, parseUserauthRequest payload = .ok request ↔ Encodes payload request) ∧
      ∀ e, parseUserauthRequest payload = .error e ↔ FirstFailure payload e :=
  ⟨fun _ => ⟨encodes_of_parse, Encodes.parse⟩, fun _ => ⟨fails_of_parse, FirstFailure.parse⟩⟩

/-! ### What a signature covers -/

/-- The bytes a signature covers determine the request's key fields. -/
theorem putKey_inj {user user' algorithm algorithm' keyBlob keyBlob' : Bytes} {flag flag' : UInt8}
    (hkey : IsKey user algorithm keyBlob) (hkey' : IsKey user' algorithm' keyBlob')
    (h : putKey user flag algorithm keyBlob = putKey user' flag' algorithm' keyBlob') :
    user = user' ∧ algorithm = algorithm' ∧ keyBlob = keyBlob' := by
  have hlt : ∀ {bound : ℕ} {b : Bytes}, bound < 2 ^ 32 → b.length ≤ bound → b.length < 2 ^ 32 :=
    fun hbound hb => hb.trans_lt hbound
  simp only [putKey, putAlgorithm, putMethod, putUser, List.append_assoc,
    List.append_cancel_left_eq] at h
  obtain ⟨huser, h⟩ := putString_append_inj (hlt (by decide) hkey.text.1)
    (hlt (by decide) hkey'.text.1) h
  simp only [List.append_cancel_left_eq, List.singleton_append, List.cons.injEq] at h
  obtain ⟨-, h⟩ := h
  obtain ⟨halgorithm, h⟩ := putString_append_inj (hlt (by decide) (isText_of_known hkey.known).1)
    (hlt (by decide) (isText_of_known hkey'.known).1) h
  have h : putString keyBlob ++ [] = putString keyBlob' ++ [] := by simpa using h
  obtain ⟨hblob, -⟩ := putString_append_inj (hlt (blobBound_lt algorithm) hkey.fits)
    (hlt (blobBound_lt algorithm') hkey'.fits) h
  exact ⟨huser, halgorithm, hblob⟩

theorem data_of_parse {payload user algorithm keyBlob : Bytes} {signed : Signed}
    (h : parseUserauthRequest payload = .ok (.publicKey user algorithm keyBlob (some signed))) :
    IsKey user algorithm keyBlob ∧ ∃ flag, signed.data = putKey user flag algorithm keyBlob := by
  cases encodes_of_parse h with
  | @signed user algorithm keyBlob raw flag hkey hflag hsignature => exact ⟨hkey, flag, rfl⟩

/-- **A signature binds** the session, the user and the key: no two signed requests
that differ in one of them cover the same bytes. -/
theorem signed_data_binds (sessionId sessionId' : FixedBytes 32)
    (payload payload' user user' algorithm algorithm' keyBlob keyBlob' : Bytes)
    (signed signed' : Signed)
    (h : parseUserauthRequest payload = .ok (.publicKey user algorithm keyBlob (some signed)))
    (h' : parseUserauthRequest payload' =
      .ok (.publicKey user' algorithm' keyBlob' (some signed')))
    (hsame : authSignedData sessionId.val signed.data = authSignedData sessionId'.val signed'.data) :
    sessionId = sessionId' ∧ user = user' ∧ algorithm = algorithm' ∧ keyBlob = keyBlob' := by
  obtain ⟨hkey, flag, hdata⟩ := data_of_parse h
  obtain ⟨hkey', flag', hdata'⟩ := data_of_parse h'
  have hshort : ∀ id : FixedBytes 32, id.val.length < 2 ^ 32 := by
    intro id
    rw [id.property]
    decide
  obtain ⟨hid, hrest⟩ := putString_append_inj (hshort sessionId) (hshort sessionId') hsame
  rw [hdata, hdata'] at hrest
  exact ⟨Subtype.ext hid, putKey_inj hkey hkey' hrest⟩

/-- A login as `root` with an `ssh-ed25519` key, under some signature. -/
def rootLogin (fill : UInt8) : Bytes :=
  putKey (utf8 "root") 1 keyAlgorithm [7] ++ putString (putSignature (List.replicate 64 fill))

theorem parse_rootLogin (fill : UInt8) : parseUserauthRequest (rootLogin fill) =
    .ok (.publicKey (utf8 "root") keyAlgorithm [7]
      (some ⟨putKey (utf8 "root") 1 keyAlgorithm [7], List.replicate 64 fill⟩)) := by
  have hkey : IsKey (utf8 "root") keyAlgorithm [7] :=
    ⟨⟨by decide, by decide⟩, .inl rfl, by decide⟩
  have hsignature : (putSignature (List.replicate 64 fill)).length ≤ signatureBound := by
    have halgorithm : (putString keyAlgorithm).length = 15 := by decide
    rw [putSignature, List.length_append, halgorithm, putString, List.length_append,
      List.length_replicate, length_putUint32]
    decide
  exact (Encodes.signed hkey (by decide) hsignature).parse

theorem signed_data_binds_root :
    (⟨List.replicate 32 0, rfl⟩ : FixedBytes 32) = ⟨List.replicate 32 0, rfl⟩ ∧
      utf8 "root" = utf8 "root" ∧ keyAlgorithm = keyAlgorithm ∧ ([7] : Bytes) = [7] :=
  signed_data_binds ⟨List.replicate 32 0, rfl⟩ ⟨List.replicate 32 0, rfl⟩ (rootLogin 0)
    (rootLogin 1) (utf8 "root") (utf8 "root") keyAlgorithm keyAlgorithm [7] [7] _ _
    (parse_rootLogin 0) (parse_rootLogin 1) rfl

end QuantumSsh.Auth
