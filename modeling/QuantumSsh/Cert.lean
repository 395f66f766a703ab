import QuantumSsh.Keys
import QuantumSsh.Lib.Checks
import QuantumSsh.Fields
import Mathlib.Data.List.Forall2

/-!
# User certificates

The certificate of a `publickey` request, `cert.rs`: the strict parse of the blob,
the checks it passes in their order, and what is handed on. The grammar is written
with the writers of `wire.rs`; the parser is proved to decide it, and `verify` to
refuse for the first check that is not met.
-/

namespace QuantumSsh.Cert

open Wire Parser Checks Auth

/-- `MAX_PRINCIPALS`. -/
def maxPrincipals : ℕ := 256
/-- `MIN_NONCE_LEN`. -/
def minNonceLen : ℕ := 16
/-- `ROLE_USER`. -/
def roleUser : ℕ := 1
/-- `PERMIT_PTY`. -/
def permitPtyName : Bytes := utf8 "permit-pty"

variable (sigs : Signatures)

/-- `TrustedUserCaKeys`: what its parser can build. -/
structure TrustedUserCaKeys where
  keys : List (KeyLine Composite.VerifyingKey)
  built : ∀ line ∈ keys, line.Built sigs Composite.algorithm Composite.VerifyingKey.bytes

/-- `CertIdentity`. -/
structure CertIdentity where
  keyId : Bytes
  serial : Bytes
  caFingerprint : Bytes
  principal : Bytes
deriving Repr, DecidableEq

/-- `Certificate`. -/
structure Certificate where
  key : FixedBytes 32
  fingerprint : Bytes
  identity : CertIdentity
  permitPty : Bool
deriving DecidableEq

/-- `Refusal`. -/
inductive Refusal where
  | malformed | untrustedCa | badCaSignature | notUserCertificate
  | notYetValid | expired | principalMismatch | criticalOption
deriving Repr, DecidableEq

/-! ### The parser -/

/-- `Parsed`. -/
structure Parsed where
  key : FixedBytes 32
  serial : ℕ
  role : ℕ
  keyId : Bytes
  principals : List Bytes
  validAfter : ℕ
  validBefore : ℕ
  hasCriticalOptions : Bool
  permitPty : Bool
  caKey : Bytes
  signed : Bytes
  caSignatureAlgorithm : Bytes
  caSignature : Bytes
deriving DecidableEq

/-- A read that ends in `None` when it fails. -/
abbrev Attempt (α : Type) := StateT Bytes (Except Unit) α

/-- `.ok()?` on a read. -/
def orNone {α : Type} (r : Reader α) : Attempt α := fun input =>
  match r.run input with
  | .ok v => .ok v
  | .error _ => .error ()

/-- `parse_principals`. -/
def parsePrincipals (field : Bytes) : Except Unit (List Bytes) :=
  drain (fun principals => do
    if principals.length = maxPrincipals then throw ()
    let principal ← orNone (Reader.string field.length)
    return principals ++ [principal]) field.length [] field

/-- `for_each_option`, where `f` updates what it captures. -/
def forEachOption {σ : Type} (field : Bytes) (f : σ → Bytes → Bytes → σ) (s : σ) :
    Except Unit σ :=
  drain (fun s => do
    let name ← orNone (Reader.string field.length)
    let data ← orNone (Reader.string field.length)
    return f s name data) field.length s field

/-- `VerifyingKey::from_bytes` of a field, and the refusal of a weak key. -/
def certifiedKey (raw : Bytes) : Attempt (FixedBytes 32) :=
  if h : raw.length = 32 then
    if sigs.ed25519Valid ⟨raw, h⟩ && !sigs.ed25519Weak ⟨raw, h⟩ then return ⟨raw, h⟩
    else throw ()
  else throw ()

/-- The signature field. -/
def readCaSignature : Attempt (Bytes × Bytes) := do
  let algorithm ← orNone (Reader.string keyAlgoBound)
  let signature ← orNone (Reader.string Composite.signatureLen)
  orNone Reader.finish
  return (algorithm, signature)

/-- The names and flags the extensions leave: `permit_pty` and `corrupt_flag`. -/
def noteExtension (flags : Bool × Bool) (name data : Bytes) : Bool × Bool :=
  if name = permitPtyName then (true, flags.2 || data ≠ []) else flags

/-- The fields of a certificate, in wire order. -/
def readParsed (blob : Bytes) : Attempt Parsed := do
  let algorithm ← orNone (Reader.string keyAlgoBound)
  if algorithm ≠ certAlgorithm then throw ()
  let nonce ← orNone (Reader.string certBlobBound)
  if nonce.length < minNonceLen then throw ()
  let key ← orNone (Reader.string 32)
  let key ← certifiedKey sigs key
  let serial ← orNone Reader.uint64
  let role ← orNone Reader.uint32
  let keyId ← orNone (Reader.string certBlobBound)
  if !isUtf8 keyId then throw ()
  let principals ← orNone (Reader.string certBlobBound)
  let principals ← liftM (parsePrincipals principals)
  let validAfter ← orNone Reader.uint64
  let validBefore ← orNone Reader.uint64
  let criticalOptions ← orNone (Reader.string certBlobBound)
  let extensions ← orNone (Reader.string certBlobBound)
  let _reserved ← orNone (Reader.string certBlobBound)
  let caKey ← orNone (Reader.string certBlobBound)
  let remaining ← get
  let signed := blob.take (blob.length - remaining.length)
  let sig ← orNone (Reader.string certBlobBound)
  orNone Reader.finish
  let (caSignatureAlgorithm, caSignature) ← liftM (readCaSignature.run' sig)
  let hasCriticalOptions ← liftM (forEachOption criticalOptions (fun _ _ _ => true) false)
  let (permitPty, corruptFlag) ← liftM (forEachOption extensions noteExtension (false, false))
  if corruptFlag then throw ()
  return { key, serial, role, keyId, principals, validAfter, validBefore, hasCriticalOptions,
           permitPty, caKey, signed, caSignatureAlgorithm, caSignature }

/-- `Parsed::parse`. -/
def parse (blob : Bytes) : Option Parsed :=
  if blob.length > certBlobBound then none
  else
    match (readParsed sigs blob).run blob with
    | .ok (cert, _) => some cert
    | .error () => none

/-! ### The checks -/

variable {sigs}

/-- `verify`. -/
def verify (blob : Bytes) (cas : TrustedUserCaKeys sigs) (user : Bytes) (now : Option ℕ) :
    Except Refusal Certificate :=
  match parse sigs blob with
  | none => .error .malformed
  | some cert =>
    match cas.keys.find? fun k => k.blob = cert.caKey with
    | none => .error .untrustedCa
    | some ca =>
      if cert.caSignatureAlgorithm ≠ Composite.algorithm ∨
          ¬ca.key.verify sigs cert.signed cert.caSignature then .error .badCaSignature
      else if cert.role ≠ roleUser then .error .notUserCertificate
      else
        match now with
        | none => .error .notYetValid
        | some now =>
          if now < cert.validAfter then .error .notYetValid
          else if now ≥ cert.validBefore then .error .expired
          else if user ∉ cert.principals then .error .principalMismatch
          else if cert.hasCriticalOptions then .error .criticalOption
          else .ok {
            key := cert.key
            fingerprint := HostKey.fingerprintSha256 sigs
              (putString keyAlgorithm ++ putString cert.key.val)
            identity := {
              keyId := cert.keyId
              serial := utf8 (toString cert.serial)
              caFingerprint := ca.fingerprint
              principal := user }
            permitPty := cert.permitPty }

/-! ### The grammar -/

/-- A sequence of strings. -/
def putStrings (items : List Bytes) : Bytes := (items.map putString).flatten

/-- A sequence of pairs of a name and its data. -/
def putOptions (options : List (Bytes × Bytes)) : Bytes :=
  (options.map fun o => putString o.1 ++ putString o.2).flatten

/-- The fields of a certificate. -/
structure Fields where
  nonce : Bytes
  key : FixedBytes 32
  serial : ℕ
  role : ℕ
  keyId : Bytes
  principals : List Bytes
  validAfter : ℕ
  validBefore : ℕ
  criticalOptions : List (Bytes × Bytes)
  extensions : List (Bytes × Bytes)
  reserved : Bytes
  caKey : Bytes
  caSignatureAlgorithm : Bytes
  caSignature : Bytes

namespace Fields

/-- What the CA signs: everything up to and including its key. -/
def signed (f : Fields) : Bytes :=
  putString certAlgorithm ++ putString f.nonce ++ putString f.key.val ++ putUint64 f.serial ++
    putUint32 f.role ++ putString f.keyId ++ putString (putStrings f.principals) ++
    putUint64 f.validAfter ++ putUint64 f.validBefore ++ putString (putOptions f.criticalOptions) ++
    putString (putOptions f.extensions) ++ putString f.reserved ++ putString f.caKey

/-- What the signature field holds. -/
def signature (f : Fields) : Bytes :=
  putString f.caSignatureAlgorithm ++ putString f.caSignature

/-- The blob. -/
def encode (f : Fields) : Bytes := f.signed ++ putString f.signature

/-- The certificate asks for a PTY. -/
def permitsPty (f : Fields) : Prop := ∃ o ∈ f.extensions, o.1 = permitPtyName

instance (f : Fields) : Decidable f.permitsPty := inferInstanceAs (Decidable (∃ o ∈ _, _))

/-- The fields that a certificate may carry. -/
structure WellFormed (sigs : Signatures) (f : Fields) : Prop where
  fits : f.encode.length ≤ certBlobBound
  nonce : minNonceLen ≤ f.nonce.length
  valid : sigs.ed25519Valid f.key = true
  strong : sigs.ed25519Weak f.key = false
  serial : f.serial < 2 ^ 64
  role : f.role < 2 ^ 32
  keyId : isUtf8 f.keyId = true
  principals : f.principals.length ≤ maxPrincipals
  validAfter : f.validAfter < 2 ^ 64
  validBefore : f.validBefore < 2 ^ 64
  /-- The flag carries no data. -/
  flag : ∀ o ∈ f.extensions, o.1 = permitPtyName → o.2 = []
  caSignatureAlgorithm : f.caSignatureAlgorithm.length ≤ keyAlgoBound
  caSignature : f.caSignature.length ≤ Composite.signatureLen

/-- What the parser makes of the fields. -/
def parsed (f : Fields) : Parsed where
  key := f.key
  serial := f.serial
  role := f.role
  keyId := f.keyId
  principals := f.principals
  validAfter := f.validAfter
  validBefore := f.validBefore
  hasCriticalOptions := !f.criticalOptions.isEmpty
  permitPty := decide f.permitsPty
  caKey := f.caKey
  signed := f.signed
  caSignatureAlgorithm := f.caSignatureAlgorithm
  caSignature := f.caSignature

end Fields

/-! ### The inner sequences -/

section

variable {input rest : Bytes}

theorem orNone_ok {α : Type} {r : Reader α} {a : α} :
    (orNone r).run input = .ok (a, rest) ↔ r.run input = .ok (a, rest) := by
  have horNone : (orNone r).run input = (match r.run input with
    | .ok v => .ok v
    | .error _ => .error ()) := rfl
  rw [horNone]
  cases r.run input with
  | ok v => simp
  | error e => simp

theorem lift_ok {α : Type} {x : Except Unit α} {a : α} :
    (liftM x : Attempt α).run input = .ok (a, rest) ↔ x = .ok a ∧ input = rest := by
  cases x with
  | error e =>
    refine iff_of_false (fun h => ?_) fun h => ?_
    · cases h
    · cases h.1
  | ok v =>
    have hrun : (liftM (.ok v : Except Unit α) : Attempt α).run input = .ok (v, input) := rfl
    rw [hrun]
    simp

theorem putString_ne_nil (b : Bytes) : putString b ≠ [] := by
  intro h
  have := congrArg List.length h
  rw [length_putString] at this
  simp at this

theorem length_le_putStrings {items : List Bytes} {b : Bytes} (h : b ∈ items) :
    b.length ≤ (putStrings items).length := by
  have hmem : (putString b).length ≤ (putStrings items).length :=
    List.Sublist.length_le (List.sublist_flatten_of_mem (List.mem_map_of_mem h))
  rw [length_putString] at hmem
  omega

theorem length_le_putOptions {options : List (Bytes × Bytes)} {o : Bytes × Bytes}
    (h : o ∈ options) : o.1.length + o.2.length ≤ (putOptions options).length := by
  have hmem : (putString o.1 ++ putString o.2).length ≤ (putOptions options).length :=
    List.Sublist.length_le (List.sublist_flatten_of_mem
      (List.mem_map_of_mem (f := fun o : Bytes × Bytes => putString o.1 ++ putString o.2) h))
  rw [List.length_append, length_putString, length_putString] at hmem
  omega

/-- Strings within the bounds of their field, and the words they are read from. -/
theorem forall₂_words {α : Type} {fits : α → Prop} {put : α → Bytes} {items : List α}
    {ws : List Bytes} :
    List.Forall₂ (fun a w => fits a ∧ w = put a) items ws ↔
      (∀ a ∈ items, fits a) ∧ ws = items.map put := by
  induction items generalizing ws with
  | nil => simp [List.forall₂_nil_left_iff]
  | cons a items ih =>
    rw [List.forall₂_cons_left_iff]
    constructor
    · rintro ⟨w, ws, ⟨ha, rfl⟩, hws, rfl⟩
      obtain ⟨hitems, rfl⟩ := ih.1 hws
      exact ⟨List.forall_mem_cons.2 ⟨ha, hitems⟩, rfl⟩
    · rintro ⟨hall, rfl⟩
      obtain ⟨ha, hitems⟩ := List.forall_mem_cons.1 hall
      exact ⟨put a, items.map put, ⟨ha, rfl⟩, ih.2 ⟨hitems, rfl⟩, rfl⟩

/-- The principals are collected up to their number. -/
theorem foldlM_collect {acc items r : List Bytes} (hacc : acc.length ≤ maxPrincipals) :
    items.foldlM (fun acc p => if acc.length = maxPrincipals then none else some (acc ++ [p])) acc =
        some r ↔
      r = acc ++ items ∧ acc.length + items.length ≤ maxPrincipals := by
  induction items generalizing acc with
  | nil => simp [hacc, eq_comm]
  | cons p items ih =>
    rw [List.foldlM_cons]
    by_cases hfull : acc.length = maxPrincipals
    · rw [if_pos hfull]
      simp [hfull]
    · have hroom : (acc ++ [p]).length ≤ maxPrincipals := by
        rw [List.length_append, List.length_singleton]
        omega
      rw [if_neg hfull]
      change items.foldlM _ (acc ++ [p]) = some r ↔ _
      rw [ih hroom, List.append_assoc, List.singleton_append, List.length_append,
        List.length_singleton, List.length_cons]
      have hcount : acc.length + 1 + items.length = acc.length + (items.length + 1) := by omega
      rw [hcount]

theorem parsePrincipals_ok {field : Bytes} (hfield : field.length < 2 ^ 32)
    {principals : List Bytes} :
    parsePrincipals field = .ok principals ↔
      principals.length ≤ maxPrincipals ∧ field = putStrings principals := by
  rw [parsePrincipals, drain_ok
    (fun p w => (p.length ≤ field.length ∧ p.length < 2 ^ 32) ∧ w = putString p)
    (fun acc p => if acc.length = maxPrincipals then none else some (acc ++ [p])) ?step ?word le_rfl]
  case step =>
    intro acc input acc' rest
    rw [run_check_ok]
    simp only [run_bind_ok, run_pure_ok, orNone_ok, Reader.string_ok]
    constructor
    · rintro ⟨hroom, p, _, ⟨hfits, rfl⟩, rfl, rfl⟩
      exact ⟨p, putString p, ⟨hfits, rfl⟩, rfl, if_neg hroom⟩
    · rintro ⟨p, _, ⟨hfits, rfl⟩, rfl, hnext⟩
      by_cases hfull : acc.length = maxPrincipals
      · rw [if_pos hfull] at hnext
        cases hnext
      · rw [if_neg hfull] at hnext
        cases hnext
        exact ⟨hfull, p, rest, ⟨hfits, rfl⟩, rfl, rfl⟩
  case word =>
    rintro p w ⟨-, rfl⟩
    exact putString_ne_nil p
  have hempty : ([] : List Bytes).length ≤ maxPrincipals := Nat.zero_le _
  simp only [forall₂_words, foldlM_collect hempty, List.nil_append, List.length_nil, Nat.zero_add]
  constructor
  · rintro ⟨items, _, ⟨-, rfl⟩, hfield, rfl, hfew⟩
    exact ⟨hfew, hfield⟩
  · rintro ⟨hfew, rfl⟩
    refine ⟨principals, _, ⟨fun p hp => ?_, rfl⟩, rfl, rfl, hfew⟩
    have hp := length_le_putStrings hp
    exact ⟨hp, hp.trans_lt hfield⟩

theorem forEachOption_ok {σ : Type} {field : Bytes} (hfield : field.length < 2 ^ 32)
    {f : σ → Bytes → Bytes → σ} {s s' : σ} :
    forEachOption field f s = .ok s' ↔
      ∃ options, field = putOptions options ∧ s' = options.foldl (fun s o => f s o.1 o.2) s := by
  rw [forEachOption, drain_ok
    (fun (o : Bytes × Bytes) w => ((o.1.length ≤ field.length ∧ o.1.length < 2 ^ 32) ∧
      (o.2.length ≤ field.length ∧ o.2.length < 2 ^ 32)) ∧ w = putString o.1 ++ putString o.2)
    (fun s o => some (f s o.1 o.2)) ?step ?word le_rfl]
  case step =>
    intro s input s' rest
    simp only [run_bind_ok, run_pure_ok, orNone_ok, Reader.string_ok]
    constructor
    · rintro ⟨name, _, ⟨hname, rfl⟩, data, _, ⟨hdata, rfl⟩, rfl, rfl⟩
      exact ⟨(name, data), _, ⟨⟨hname, hdata⟩, rfl⟩, (List.append_assoc _ _ _).symm, rfl⟩
    · rintro ⟨⟨name, data⟩, _, ⟨⟨hname, hdata⟩, rfl⟩, rfl, hnext⟩
      cases hnext
      exact ⟨name, _, ⟨hname, List.append_assoc _ _ _⟩, data, rest, ⟨hdata, rfl⟩, rfl, rfl⟩
  case word =>
    rintro o w ⟨-, rfl⟩ h
    exact putString_ne_nil o.1 (List.append_eq_nil_iff.1 h).1
  have hfold : ∀ (options : List (Bytes × Bytes)) (s : σ),
      options.foldlM (fun s o => some (f s o.1 o.2)) s =
        some (options.foldl (fun s o => f s o.1 o.2) s) := by
    intro options s
    exact List.foldlM_pure
  simp only [forall₂_words, hfold, Option.some.injEq]
  constructor
  · rintro ⟨options, _, ⟨-, rfl⟩, hfield, rfl⟩
    exact ⟨options, hfield, rfl⟩
  · rintro ⟨options, rfl, rfl⟩
    refine ⟨options, _, ⟨fun o ho => ?_, rfl⟩, rfl, rfl⟩
    have ho := length_le_putOptions ho
    exact ⟨⟨by omega, by omega⟩, by omega, by omega⟩

/-- Any critical option is noted. -/
theorem foldl_critical (options : List (Bytes × Bytes)) :
    options.foldl (fun _ _ => true) false = !options.isEmpty := by
  have htrue : ∀ options : List (Bytes × Bytes), options.foldl (fun _ _ => true) true = true := by
    intro options
    induction options with
    | nil => rfl
    | cons o options ih => exact ih
  cases options with
  | nil => rfl
  | cons o options => exact htrue options

/-- What the extensions leave of the two flags. -/
theorem foldl_noteExtension (options : List (Bytes × Bytes)) (flags : Bool × Bool) :
    options.foldl (fun flags o => noteExtension flags o.1 o.2) flags =
      (flags.1 || options.any (fun o => o.1 = permitPtyName),
        flags.2 || options.any (fun o => o.1 = permitPtyName && o.2 ≠ [])) := by
  induction options generalizing flags with
  | nil => simp
  | cons o options ih =>
    rw [List.foldl_cons, ih, List.any_cons, List.any_cons, noteExtension]
    by_cases ho : o.1 = permitPtyName
    · rw [if_pos ho]
      simp [ho, Bool.or_assoc]
    · rw [if_neg ho]
      simp [ho]

theorem certifiedKey_ok {raw : Bytes} {key : FixedBytes 32} :
    (certifiedKey sigs raw).run input = .ok (key, rest) ↔
      (raw = key.val ∧ sigs.ed25519Valid key = true ∧ sigs.ed25519Weak key = false) ∧
        input = rest := by
  obtain ⟨k, hk⟩ := key
  rw [certifiedKey]
  by_cases hlen : raw.length = 32
  swap
  · rw [dif_neg hlen]
    refine iff_of_false run_throw_ok ?_
    rintro ⟨⟨rfl, -⟩, -⟩
    exact hlen hk
  rw [dif_pos hlen]
  by_cases hgood : (sigs.ed25519Valid ⟨raw, hlen⟩ && !sigs.ed25519Weak ⟨raw, hlen⟩) = true
  · rw [if_pos hgood, run_pure_ok]
    simp only [Bool.and_eq_true, Bool.not_eq_true'] at hgood
    constructor
    · rintro ⟨hkey, rfl⟩
      cases hkey
      exact ⟨⟨rfl, hgood⟩, rfl⟩
    · rintro ⟨⟨rfl, -⟩, rfl⟩
      exact ⟨rfl, rfl⟩
  · rw [if_neg hgood]
    refine iff_of_false run_throw_ok ?_
    rintro ⟨⟨rfl, hvalid, hweak⟩, -⟩
    exact hgood (by rw [hvalid, hweak]; rfl)

theorem readCaSignature_ok {field algorithm signature : Bytes} (hfield : field.length < 2 ^ 32) :
    readCaSignature.run' field = .ok (algorithm, signature) ↔
      (algorithm.length ≤ keyAlgoBound ∧ signature.length ≤ Composite.signatureLen) ∧
        field = putString algorithm ++ putString signature := by
  have hrun : readCaSignature.run' field = .ok (algorithm, signature) ↔
      ∃ rest, readCaSignature.run field = .ok ((algorithm, signature), rest) := by
    rw [StateT.run'_eq]
    cases readCaSignature.run field with
    | error e => simp [Functor.map, Except.map]
    | ok v =>
      obtain ⟨a, r⟩ := v
      simp [Functor.map, Except.map]
  rw [hrun]
  simp only [readCaSignature, run_bind_ok, run_pure_ok, orNone_ok, Reader.string_ok,
    Reader.finish_ok]
  constructor
  · rintro ⟨_, a, _, ⟨ha, rfl⟩, v, _, ⟨hv, rfl⟩, -, _, ⟨rfl, rfl⟩, heq, -⟩
    cases heq
    exact ⟨⟨ha.1, hv.1⟩, by rw [List.append_nil]⟩
  · rintro ⟨⟨ha, hv⟩, rfl⟩
    rw [List.length_append, length_putString, length_putString] at hfield
    exact ⟨[], algorithm, putString signature, ⟨⟨ha, by omega⟩, rfl⟩, signature, [],
      ⟨⟨hv, by omega⟩, by rw [List.append_nil]⟩, (), [], ⟨rfl, rfl⟩, rfl, rfl⟩

end

/-! ### The parser decides the grammar -/

theorem Fields.length_encode (f : Fields) :
    f.encode.length = 100 + certAlgorithm.length + f.nonce.length + f.keyId.length +
      (putStrings f.principals).length + (putOptions f.criticalOptions).length +
      (putOptions f.extensions).length + f.reserved.length + f.caKey.length +
      f.signature.length := by
  have hkey := f.key.property
  simp only [Fields.encode, Fields.signed, List.length_append, length_putString]
  simp only [putUint64, List.length_append, length_putUint32]
  omega

theorem any_permitsPty (f : Fields) :
    f.extensions.any (fun o => o.1 = permitPtyName) = decide f.permitsPty := by
  rw [Bool.eq_iff_iff, List.any_eq_true, decide_eq_true_iff]
  simp only [decide_eq_true_iff, Fields.permitsPty]

/-- The fields that a parse has read. -/
theorem fields_of_readParsed {blob rest : Bytes} {cert : Parsed}
    (hfits : blob.length ≤ certBlobBound)
    (h : (readParsed sigs blob).run blob = .ok (cert, rest)) :
    ∃ f : Fields, f.WellFormed sigs ∧ blob = f.encode ∧ cert = f.parsed := by
  have hlt : certBlobBound < 2 ^ 32 := by decide
  rw [readParsed] at h
  -- The reads in their order; what each of them says is looked at below.
  obtain ⟨algorithm, r₁, h₁, h⟩ := run_bind_ok.1 h
  obtain ⟨halgorithm, h⟩ := run_check_ok.1 h
  obtain ⟨nonce, r₂, h₂, h⟩ := run_bind_ok.1 h
  obtain ⟨hnonce, h⟩ := run_check_ok.1 h
  obtain ⟨raw, r₃, h₃, h⟩ := run_bind_ok.1 h
  obtain ⟨key, r₃', hkey, h⟩ := run_bind_ok.1 h
  obtain ⟨serial, r₄, h₄, h⟩ := run_bind_ok.1 h
  obtain ⟨role, r₅, h₅, h⟩ := run_bind_ok.1 h
  obtain ⟨keyId, r₆, h₆, h⟩ := run_bind_ok.1 h
  obtain ⟨hkeyId, h⟩ := run_check_ok.1 h
  obtain ⟨principalsField, r₇, h₇, h⟩ := run_bind_ok.1 h
  obtain ⟨principals, r₇', hlift, h⟩ := run_bind_ok.1 h
  obtain ⟨validAfter, r₈, h₈, h⟩ := run_bind_ok.1 h
  obtain ⟨validBefore, r₉, h₉, h⟩ := run_bind_ok.1 h
  obtain ⟨criticalField, r₁₀, h₁₀, h⟩ := run_bind_ok.1 h
  obtain ⟨extensionsField, r₁₁, h₁₁, h⟩ := run_bind_ok.1 h
  obtain ⟨reserved, r₁₂, h₁₂, h⟩ := run_bind_ok.1 h
  obtain ⟨caKey, r₁₃, h₁₃, h⟩ := run_bind_ok.1 h
  obtain ⟨remaining, r₁₃', hget, h⟩ := run_bind_ok.1 h
  obtain ⟨sig, r₁₄, h₁₄, h⟩ := run_bind_ok.1 h
  obtain ⟨u, r₁₅, h₁₅, h⟩ := run_bind_ok.1 h
  obtain ⟨⟨caSignatureAlgorithm, caSignature⟩, r₁₆, hsig, h⟩ := run_bind_ok.1 h
  obtain ⟨hasCriticalOptions, r₁₇, hcritical, h⟩ := run_bind_ok.1 h
  obtain ⟨⟨permitPty, corruptFlag⟩, r₁₈, hextensions, h⟩ := run_bind_ok.1 h
  obtain ⟨hflag, h⟩ := run_check_ok.1 h
  obtain ⟨rfl, -⟩ := run_pure_ok.1 h
  obtain rfl : algorithm = certAlgorithm := not_not.1 halgorithm
  rw [orNone_ok, Reader.string_ok] at h₁ h₂ h₃ h₆ h₇ h₁₀ h₁₁ h₁₂ h₁₃ h₁₄
  rw [orNone_ok, Reader.uint64_ok] at h₄ h₈ h₉
  rw [orNone_ok, Reader.uint32_ok] at h₅
  obtain ⟨hend, -⟩ := Reader.finish_ok.1 (orNone_ok.1 h₁₅)
  obtain ⟨⟨rfl, hvalid, hstrong⟩, rfl⟩ := certifiedKey_ok.1 hkey
  obtain ⟨hprincipals, rfl⟩ := lift_ok.1 hlift
  obtain ⟨hfew, rfl⟩ := (parsePrincipals_ok h₇.1.2).1 hprincipals
  obtain ⟨hsig, -⟩ := lift_ok.1 hsig
  obtain ⟨⟨halgorithm', hsignature⟩, rfl⟩ := (readCaSignature_ok h₁₄.1.2).1 hsig
  obtain ⟨hcritical, -⟩ := lift_ok.1 hcritical
  obtain ⟨criticalOptions, rfl, rfl⟩ := (forEachOption_ok h₁₀.1.2).1 hcritical
  obtain ⟨hextensions, -⟩ := lift_ok.1 hextensions
  obtain ⟨extensions, rfl, hflags⟩ := (forEachOption_ok h₁₁.1.2).1 hextensions
  rw [foldl_noteExtension, Bool.false_or, Bool.false_or] at hflags
  obtain ⟨rfl, rfl⟩ := Prod.mk.inj hflags
  -- What is signed ends where the signature begins.
  obtain ⟨rfl, rfl⟩ : r₁₃ = remaining ∧ r₁₃ = r₁₃' := by
    cases hget
    exact ⟨rfl, rfl⟩
  let f : Fields := ⟨nonce, key, serial, role, keyId, principals, validAfter, validBefore,
    criticalOptions, extensions, reserved, caKey, caSignatureAlgorithm, caSignature⟩
  have hsigned : blob = f.signed ++ r₁₃ := by
    rw [h₁.2, h₂.2, h₃.2, h₄.2, h₅.2, h₆.2, h₇.2, h₈.2, h₉.2, h₁₀.2, h₁₁.2, h₁₂.2, h₁₃.2]
    simp only [Fields.signed, List.append_assoc, f]
  have hblob : blob = f.encode := by
    rw [hsigned, h₁₄.2, hend, List.append_nil]
    rfl
  have htake : blob.take (blob.length - r₁₃.length) = f.signed := by
    rw [hsigned, List.length_append, Nat.add_sub_cancel, List.take_left]
  refine ⟨f, ?_, hblob, ?_⟩
  · refine ⟨by rwa [← hblob], not_lt.1 hnonce, hvalid, hstrong, h₄.1, h₅.1, by simpa using hkeyId,
      hfew, h₈.1, h₉.1, ?_, halgorithm', hsignature⟩
    intro o ho hname
    by_contra hdata
    exact hflag (List.any_eq_true.2 ⟨o, ho, by simp [hname, hdata]⟩)
  · have hpty := any_permitsPty f
    rw [htake, foldl_critical, hpty]
    rfl

/-- The fields that are written are read back. -/
theorem readParsed_encode {f : Fields} (hf : f.WellFormed sigs) :
    (readParsed sigs f.encode).run f.encode = .ok (f.parsed, []) := by
  have hlt : certBlobBound < 2 ^ 32 := by decide
  have hlen := f.length_encode
  have hfits := hf.fits
  have hstring : ∀ {b rest : Bytes}, b.length ≤ certBlobBound →
      (orNone (Reader.string certBlobBound)).run (putString b ++ rest) = .ok (b, rest) :=
    fun hb => orNone_ok.2 (Reader.string_ok.2 ⟨⟨hb, by omega⟩, rfl⟩)
  have hsigned : f.encode = putString certAlgorithm ++ (putString f.nonce ++ (putString f.key.val ++
      (putUint64 f.serial ++ (putUint32 f.role ++ (putString f.keyId ++
      (putString (putStrings f.principals) ++ (putUint64 f.validAfter ++ (putUint64 f.validBefore ++
      (putString (putOptions f.criticalOptions) ++ (putString (putOptions f.extensions) ++
      (putString f.reserved ++ (putString f.caKey ++ (putString f.signature ++ []))))))))))))) := by
    simp only [Fields.encode, Fields.signed, List.append_assoc, List.append_nil]
  have hsig : readCaSignature.run' f.signature = .ok (f.caSignatureAlgorithm, f.caSignature) :=
    (readCaSignature_ok (by omega)).2 ⟨⟨hf.caSignatureAlgorithm, hf.caSignature⟩, rfl⟩
  have hcritical : forEachOption (putOptions f.criticalOptions) (fun _ _ _ => true) false =
      .ok (!f.criticalOptions.isEmpty) :=
    (forEachOption_ok (by omega)).2 ⟨f.criticalOptions, rfl, (foldl_critical _).symm⟩
  have hextensions : forEachOption (putOptions f.extensions) noteExtension (false, false) =
      .ok (decide f.permitsPty, false) := by
    refine (forEachOption_ok (by omega)).2 ⟨f.extensions, rfl, ?_⟩
    have hflag : f.extensions.any (fun o => o.1 = permitPtyName && o.2 ≠ []) = false := by
      rw [List.any_eq_false]
      intro o ho
      simpa using hf.flag o ho
    rw [foldl_noteExtension, hflag, any_permitsPty, Bool.false_or, Bool.false_or]
  have htake : f.encode.take (f.encode.length - (putString f.signature ++ []).length) = f.signed := by
    rw [List.append_nil, Fields.encode, List.length_append, Nat.add_sub_cancel, List.take_left]
  refine run_bind_ok.2 ⟨certAlgorithm, _, orNone_ok.2 (Reader.string_ok.2
    ⟨⟨by decide, by decide⟩, hsigned⟩), run_check_ok.2 ⟨not_not.2 rfl, ?_⟩⟩
  refine run_bind_ok.2 ⟨f.nonce, _, hstring (by omega), run_check_ok.2 ⟨not_lt.2 hf.nonce, ?_⟩⟩
  refine run_bind_ok.2 ⟨f.key.val, _, orNone_ok.2 (Reader.string_ok.2
    ⟨⟨f.key.property.le, by rw [f.key.property]; decide⟩, rfl⟩), ?_⟩
  refine run_bind_ok.2 ⟨f.key, _, certifiedKey_ok.2 ⟨⟨rfl, hf.valid, hf.strong⟩, rfl⟩, ?_⟩
  refine run_bind_ok.2 ⟨f.serial, _, orNone_ok.2 (Reader.uint64_ok.2 ⟨hf.serial, rfl⟩), ?_⟩
  refine run_bind_ok.2 ⟨f.role, _, orNone_ok.2 (Reader.uint32_ok.2 ⟨hf.role, rfl⟩), ?_⟩
  refine run_bind_ok.2 ⟨f.keyId, _, hstring (by omega), run_check_ok.2 ⟨by simp [hf.keyId], ?_⟩⟩
  refine run_bind_ok.2 ⟨_, _, hstring (by omega), run_bind_ok.2 ⟨f.principals, _,
    lift_ok.2 ⟨(parsePrincipals_ok (by omega)).2 ⟨hf.principals, rfl⟩, rfl⟩, ?_⟩⟩
  refine run_bind_ok.2 ⟨f.validAfter, _, orNone_ok.2 (Reader.uint64_ok.2 ⟨hf.validAfter, rfl⟩), ?_⟩
  refine run_bind_ok.2 ⟨f.validBefore, _, orNone_ok.2 (Reader.uint64_ok.2 ⟨hf.validBefore, rfl⟩),
    ?_⟩
  refine run_bind_ok.2 ⟨_, _, hstring (by omega), run_bind_ok.2 ⟨_, _, hstring (by omega), ?_⟩⟩
  refine run_bind_ok.2 ⟨f.reserved, _, hstring (by omega), ?_⟩
  refine run_bind_ok.2 ⟨f.caKey, _, hstring (by omega), run_bind_ok.2 ⟨_, _, rfl, ?_⟩⟩
  refine run_bind_ok.2 ⟨f.signature, _, hstring (by omega), run_bind_ok.2 ⟨(), [], rfl, ?_⟩⟩
  refine run_bind_ok.2 ⟨_, [], lift_ok.2 ⟨hsig, rfl⟩, ?_⟩
  refine run_bind_ok.2 ⟨_, [], lift_ok.2 ⟨hcritical, rfl⟩, ?_⟩
  refine run_bind_ok.2 ⟨_, [], lift_ok.2 ⟨hextensions, rfl⟩, run_check_ok.2 ⟨by simp, ?_⟩⟩
  rw [htake]
  rfl

/-- The parser accepts what the grammar describes, and reads its fields. -/
theorem parse_eq_some_iff {blob : Bytes} {cert : Parsed} :
    parse sigs blob = some cert ↔
      ∃ f : Fields, f.WellFormed sigs ∧ blob = f.encode ∧ cert = f.parsed := by
  rw [parse]
  by_cases hlong : blob.length > certBlobBound
  · rw [if_pos hlong]
    refine iff_of_false (by simp) ?_
    rintro ⟨f, hf, rfl, -⟩
    exact absurd hf.fits (not_le.2 hlong)
  · rw [if_neg hlong]
    constructor
    · intro h
      cases hrun : (readParsed sigs blob).run blob with
      | error e => rw [hrun] at h; cases h
      | ok v =>
        rw [hrun] at h
        cases h
        exact fields_of_readParsed (not_lt.1 hlong) hrun
    · rintro ⟨f, hf, rfl, rfl⟩
      rw [readParsed_encode hf]

/-! ### The checks in their order -/

section

variable (cas : TrustedUserCaKeys sigs) (user : Bytes) (now : Option ℕ)

/-- The composite signature is valid under the CA key. -/
def SignedByCa (f : Fields) : Prop :=
  f.caSignatureAlgorithm = Composite.algorithm ∧
    ∃ ca ∈ cas.keys, ca.blob = f.caKey ∧ ca.key.verify sigs f.signed f.caSignature = true

/-- What is asked of the fields, in order, and the refusal when it is not met. A clock
before the epoch is before every `valid after`. -/
def checks (f : Fields) : List (Refusal × Prop) :=
  [(.untrustedCa, ∃ ca ∈ cas.keys, ca.blob = f.caKey),
    (.badCaSignature, SignedByCa cas f),
    (.notUserCertificate, f.role = roleUser),
    (.notYetValid, ∃ t, now = some t ∧ f.validAfter ≤ t),
    (.expired, ∃ t, now = some t ∧ t < f.validBefore),
    (.principalMismatch, user ∈ f.principals),
    (.criticalOption, f.criticalOptions = [])]

/-- The certificate the fields make for a user. -/
def Fields.certificate (sigs : Signatures) (user : Bytes) (f : Fields) : Certificate where
  key := f.key
  fingerprint := HostKey.fingerprintSha256 sigs (putString keyAlgorithm ++ putString f.key.val)
  identity := {
    keyId := f.keyId
    serial := utf8 (toString f.serial)
    caFingerprint := HostKey.fingerprintSha256 sigs f.caKey
    principal := user }
  permitPty := decide f.permitsPty

variable {cas user now}

/-- An entry is determined by its blob. -/
theorem eq_of_blob_eq {ca ca' : KeyLine Composite.VerifyingKey} (hca : ca ∈ cas.keys)
    (hca' : ca' ∈ cas.keys) (h : ca.blob = ca'.blob) : ca = ca' := by
  obtain ⟨hblob, hfingerprint⟩ := cas.built ca hca
  obtain ⟨hblob', hfingerprint'⟩ := cas.built ca' hca'
  have hkey : ca.key = ca'.key := by
    have hlen : ∀ key : Composite.VerifyingKey, key.bytes.length < 2 ^ 32 := by
      intro key
      rw [Composite.VerifyingKey.bytes, List.length_append, key.mldsa.property,
        key.ed25519.property]
      decide
    have hputs : putString ca.key.bytes ++ [] = putString ca'.key.bytes ++ [] := by
      rw [List.append_nil, List.append_nil]
      exact List.append_cancel_left (hblob.symm.trans (h.trans hblob'))
    exact Composite.VerifyingKey.bytes_inj (putString_append_inj (hlen _) (hlen _) hputs).1
  obtain ⟨blob, fingerprint, key⟩ := ca
  obtain ⟨blob', fingerprint', key'⟩ := ca'
  obtain rfl : blob = blob' := h
  obtain rfl : key = key' := hkey
  obtain rfl : fingerprint = fingerprint' := hfingerprint.trans hfingerprint'.symm
  rfl

/-- The entry that is found, when there is one. -/
theorem find?_eq_some_iff {caKey : Bytes} {ca : KeyLine Composite.VerifyingKey} :
    cas.keys.find? (fun k => k.blob = caKey) = some ca ↔ ca ∈ cas.keys ∧ ca.blob = caKey := by
  constructor
  · intro h
    exact ⟨List.mem_of_find?_eq_some h, by simpa using List.find?_some h⟩
  · rintro ⟨hmem, rfl⟩
    cases hfind : cas.keys.find? fun k => k.blob = ca.blob with
    | none => simpa using List.find?_eq_none.1 hfind ca hmem
    | some ca' =>
      have hblob : ca'.blob = ca.blob := by simpa using List.find?_some hfind
      rw [eq_of_blob_eq (List.mem_of_find?_eq_some hfind) hmem hblob]

theorem signedByCa_iff {f : Fields} {ca : KeyLine Composite.VerifyingKey} (hca : ca ∈ cas.keys)
    (hblob : ca.blob = f.caKey) :
    SignedByCa cas f ↔ ¬(f.caSignatureAlgorithm ≠ Composite.algorithm ∨
      ¬ca.key.verify sigs f.signed f.caSignature = true) := by
  rw [not_or, not_not, not_not, SignedByCa]
  constructor
  · rintro ⟨halgorithm, ca', hca', hblob', hverify⟩
    rw [eq_of_blob_eq hca hca' (hblob.trans hblob'.symm)]
    exact ⟨halgorithm, hverify⟩
  · rintro ⟨halgorithm, hverify⟩
    exact ⟨halgorithm, ca, hca, hblob, hverify⟩

/-- `verify` behind the look-up of the CA. -/
theorem verify_encode {f : Fields} (hf : f.WellFormed sigs)
    {ca : KeyLine Composite.VerifyingKey} (hca : ca ∈ cas.keys) (hblob : ca.blob = f.caKey) :
    verify f.encode cas user now =
      if f.caSignatureAlgorithm ≠ Composite.algorithm ∨
          ¬ca.key.verify sigs f.signed f.caSignature = true then .error .badCaSignature
      else if f.role ≠ roleUser then .error .notUserCertificate
      else
        match now with
        | none => .error .notYetValid
        | some now =>
          if now < f.validAfter then .error .notYetValid
          else if now ≥ f.validBefore then .error .expired
          else if user ∉ f.principals then .error .principalMismatch
          else if !f.criticalOptions.isEmpty then .error .criticalOption
          else .ok (f.certificate sigs user) := by
  have hfind : cas.keys.find? (fun k => k.blob = f.parsed.caKey) = some ca :=
    find?_eq_some_iff.2 ⟨hca, hblob⟩
  have hfingerprint := (cas.built ca hca).2
  rw [hblob] at hfingerprint
  rw [verify, parse_eq_some_iff.2 ⟨f, hf, rfl, rfl⟩]
  dsimp only
  rw [hfind]
  dsimp only
  rw [hfingerprint]
  rfl

/-- Fields that meet every check make a certificate. -/
theorem verify_of_met {f : Fields} (hf : f.WellFormed sigs)
    (h : ∀ check ∈ checks cas user now f, check.2) :
    verify f.encode cas user now = .ok (f.certificate sigs user) := by
  simp only [checks, List.forall_mem_cons, List.not_mem_nil, false_imp_iff, implies_true,
    and_true] at h
  obtain ⟨⟨ca, hca, hblob⟩, hsigned, hrole, ⟨t, rfl, hafter⟩, ⟨t', ht', hbefore⟩, huser, hcritical⟩ :=
    h
  cases ht'
  rw [verify_encode hf hca hblob, if_neg ((signedByCa_iff hca hblob).1 hsigned),
    if_neg (not_not.2 hrole)]
  dsimp only
  rw [if_neg (not_lt.2 hafter), if_neg (not_le.2 hbefore), if_neg (not_not.2 huser),
    if_neg (by simp [hcritical])]

/-- Fields that do not are refused for the first check they miss. -/
theorem verify_of_unmet {f : Fields} (hf : f.WellFormed sigs) {refusal : Refusal}
    (h : FailsFirst (checks cas user now f) refusal) :
    verify f.encode cas user now = .error refusal := by
  simp only [checks, failsFirst_cons, not_failsFirst_nil, and_false, or_false] at h
  obtain ⟨huntrusted, rfl⟩ | ⟨⟨ca, hca, hblob⟩, h⟩ := h
  · have hnone : cas.keys.find? (fun k => k.blob = f.parsed.caKey) = none := by
      rw [List.find?_eq_none]
      intro ca hca hblob
      exact huntrusted ⟨ca, hca, of_decide_eq_true hblob⟩
    rw [verify, parse_eq_some_iff.2 ⟨f, hf, rfl, rfl⟩]
    dsimp only
    rw [hnone]
  rw [verify_encode hf hca hblob]
  rw [signedByCa_iff hca hblob] at h
  obtain ⟨hsigned, rfl⟩ | ⟨hsigned, h⟩ := h
  · rw [if_pos (not_not.1 hsigned)]
  rw [if_neg hsigned]
  obtain ⟨hrole, rfl⟩ | ⟨hrole, h⟩ := h
  · rw [if_pos hrole]
  rw [if_neg (not_not.2 hrole)]
  cases now with
  | none =>
    obtain ⟨-, rfl⟩ | ⟨⟨t, ht, -⟩, -⟩ := h
    · rfl
    · cases ht
  | some t =>
    simp only [Option.some.injEq, exists_eq_left', not_le, not_lt] at h ⊢
    obtain ⟨hafter, rfl⟩ | ⟨hafter, h⟩ := h
    · rw [if_pos hafter]
    rw [if_neg (not_lt.2 hafter)]
    obtain ⟨hbefore, rfl⟩ | ⟨hbefore, h⟩ := h
    · rw [if_pos hbefore]
    rw [if_neg (not_le.2 hbefore)]
    obtain ⟨huser, rfl⟩ | ⟨huser, h⟩ := h
    · rw [if_pos huser]
    rw [if_neg (not_not.2 huser)]
    obtain ⟨hcritical, rfl⟩ := h
    rw [if_pos (by simpa using hcritical)]

end

/-- How `verify` decides on a blob. -/
structure VerifiesAsSpecified (blob : Bytes) (cas : TrustedUserCaKeys sigs) (user : Bytes)
    (now : Option ℕ) : Prop where
  accepts : (∃ cert, verify blob cas user now = .ok cert) ↔
    ∃ f : Fields, f.WellFormed sigs ∧ blob = f.encode ∧ ∀ check ∈ checks cas user now f, check.2
  malformed : verify blob cas user now = .error .malformed ↔
    ¬∃ f : Fields, f.WellFormed sigs ∧ blob = f.encode
  refuses : ∀ f : Fields, f.WellFormed sigs → blob = f.encode → ∀ refusal,
    verify blob cas user now = .error refusal ↔ FailsFirst (checks cas user now f) refusal
  certificate : ∀ (f : Fields) (cert : Certificate), f.WellFormed sigs → blob = f.encode →
    verify blob cas user now = .ok cert → cert = f.certificate sigs user

/-- A blob that encodes no fields is malformed. -/
theorem verify_of_malformed {blob : Bytes} {cas : TrustedUserCaKeys sigs} {user : Bytes}
    {now : Option ℕ} (h : ¬∃ f : Fields, f.WellFormed sigs ∧ blob = f.encode) :
    verify blob cas user now = .error .malformed := by
  rw [verify]
  cases hparse : parse sigs blob with
  | none => rfl
  | some cert =>
    obtain ⟨f, hf, hblob, -⟩ := parse_eq_some_iff.1 hparse
    exact absurd ⟨f, hf, hblob⟩ h

/-- **Certificates are verified exactly**: whatever the blob, the CAs, the user and the
clock, `verify` accepts the encodings that meet every check, refuses the others for
the first check they miss, and hands on what the blob holds. -/
theorem verify_exact (blob : Bytes) (cas : TrustedUserCaKeys sigs) (user : Bytes)
    (now : Option ℕ) : VerifiesAsSpecified blob cas user now := by
  have hrefuses : ∀ f : Fields, f.WellFormed sigs → blob = f.encode → ∀ refusal,
      verify blob cas user now = .error refusal ↔ FailsFirst (checks cas user now f) refusal := by
    rintro f hf rfl refusal
    refine ⟨fun h => ?_, verify_of_unmet hf⟩
    obtain hmet | ⟨refusal', hrefusal'⟩ := met_or_failsFirst (checks cas user now f)
    · rw [verify_of_met hf hmet] at h
      cases h
    · rw [verify_of_unmet hf hrefusal'] at h
      cases h
      exact hrefusal'
  have haccepts : ∀ (f : Fields) (cert : Certificate), f.WellFormed sigs → blob = f.encode →
      verify blob cas user now = .ok cert →
        (∀ check ∈ checks cas user now f, check.2) ∧ cert = f.certificate sigs user := by
    rintro f cert hf rfl h
    obtain hmet | ⟨refusal, hrefusal⟩ := met_or_failsFirst (checks cas user now f)
    · rw [verify_of_met hf hmet] at h
      cases h
      exact ⟨hmet, rfl⟩
    · rw [verify_of_unmet hf hrefusal] at h
      cases h
  constructor
  case accepts =>
    constructor
    · rintro ⟨cert, h⟩
      by_cases hblob : ∃ f : Fields, f.WellFormed sigs ∧ blob = f.encode
      · obtain ⟨f, hf, hblob⟩ := hblob
        exact ⟨f, hf, hblob, (haccepts f cert hf hblob h).1⟩
      · rw [verify_of_malformed hblob] at h
        cases h
    · rintro ⟨f, hf, rfl, hmet⟩
      exact ⟨_, verify_of_met hf hmet⟩
  case malformed =>
    refine ⟨?_, verify_of_malformed⟩
    rintro h ⟨f, hf, hblob⟩
    have hfails := (hrefuses f hf hblob _).1 h
    simp [checks, failsFirst_cons, not_failsFirst_nil] at hfails
  case refuses => exact hrefuses
  case certificate => exact fun f cert hf hblob h => (haccepts f cert hf hblob h).2

end QuantumSsh.Cert
