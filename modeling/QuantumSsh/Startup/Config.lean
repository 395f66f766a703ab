import QuantumSsh.Keygen.Basic
import QuantumSsh.Lib.Checks

/-!
# The configuration file

What `config.rs` makes of the file behind the check of its permissions: the deserializer of
TOML is a parameter, which returns the sections or a message and the span it is about. The
version and the ranges are checked here.
-/

namespace QuantumSsh.Startup

open Checks

/-! ### The sections -/

/-- `LogFormat`. -/
inductive LogFormat
  | json
  | human
  deriving DecidableEq

/-- `ServerSection`, over the addresses `A`. -/
structure ServerSection (A : Type) where
  listen : Option A
  hostKey : Option Text
  /-- In seconds. -/
  handshakeTimeout : Option UInt64
  /-- In seconds. -/
  drainTimeout : Option UInt64

/-- `AuthSection`. -/
structure AuthSection where
  authorizedKeys : Option Text
  trustedUserCaKeys : Option Text

/-- `LoggingSection`. -/
structure LoggingSection where
  format : Option LogFormat

/-- `LimitsSection`; a `usize` has 64 bits. -/
structure LimitsSection where
  maxConnections : Option UInt64
  maxHalfOpen : Option UInt64
  maxPerSource : Option UInt64
  acceptRate : Option UInt32
  acceptBurst : Option UInt32

/-- `ConfigFile`; a section that is not there has its default, in which nothing is set. -/
structure ConfigFile (A : Type) where
  schemaVersion : UInt32
  server : ServerSection A
  auth : AuthSection
  logging : LoggingSection
  limits : LimitsSection

/-! ### Errors -/

/-- `ConfigError`. -/
inductive ConfigError
  | fileUnavailable (detail : Text)
  | schemaError (detail : Text)
  | versionUnsupported (detail : Text)
  | insecurePermissions (detail : Text)
  deriving DecidableEq

/-- `ConfigError::class`. -/
def ConfigError.name : ConfigError → Text
  | .fileUnavailable _ => "file_unavailable".toList
  | .schemaError _ => "schema_error".toList
  | .versionUnsupported _ => "version_unsupported".toList
  | .insecurePermissions _ => "insecure_permissions".toList

/-- `ConfigError::detail`. -/
def ConfigError.detail : ConfigError → Text
  | .fileUnavailable d | .schemaError d | .versionUnsupported d | .insecurePermissions d => d

/-- The errors of the check of a file are among them. -/
def ConfigError.ofCheck : Keygen.ConfigError → ConfigError
  | .fileUnavailable message => .fileUnavailable message
  | .insecurePermissions message => .insecurePermissions message

/-- `toml::de::Error`: the message and the bytes it is about. -/
structure TomlError where
  message : Text
  span : Option (ℕ × ℕ)

/-- `str::get(..n)`: the first `n` bytes, if a character ends there. -/
def sliceTo : ℕ → Text → Option Text
  | 0, _ => some []
  | _ + 1, [] => none
  | n + 1, c :: rest =>
    if c.utf8Size ≤ n + 1 then (sliceTo (n + 1 - c.utf8Size) rest).map (c :: ·) else none
termination_by _ t => t.length

/-- `Display` of a number. -/
def decimal (n : ℕ) : Text := Nat.toDigits 10 n

/-- `schema_detail`. -/
def schemaDetail (e : TomlError) (text : Text) : Text :=
  let message := (Text.trimEnd e.message).map fun c => if c = '\n' then ' ' else c
  match e.span with
  | none => message
  | some (start, _) =>
    let before := (sliceTo (min start (Text.bytes text).length) text).getD text
    let line := before.count '\n' + 1
    let column := (before.rtakeWhile (· ≠ '\n')).length + 1
    message ++ " at line ".toList ++ decimal line ++ " column ".toList ++ decimal column

/-! ### Parsing -/

/-- `SUPPORTED_SCHEMA_VERSIONS`. -/
def supportedSchemaVersions : List UInt32 := [1]

/-- `i64::MAX`. -/
def i64Max : ℕ := 2 ^ 63 - 1

/-- The message for a version that is not supported. -/
def versionMessage (origin : Text) (version : UInt32) : Text :=
  let why := if supportedSchemaVersions.all fun v => v < version then
      "is newer than this binary understands".toList
    else "is not a version this binary understands".toList
  let supported :=
    List.intercalate ", ".toList (supportedSchemaVersions.map fun v => decimal v.toNat)
  origin ++ ": schema_version ".toList ++ decimal version.toNat ++ [' '] ++ why ++
    " (supported: ".toList ++ supported ++ ")".toList

/-- The integers of the file, with their keys. -/
def ConfigFile.integers {A : Type} (file : ConfigFile A) : List (Option ℕ × Text) :=
  [(file.server.handshakeTimeout.map UInt64.toNat, "server.handshake_timeout".toList),
    (file.server.drainTimeout.map UInt64.toNat, "server.drain_timeout".toList),
    (file.limits.maxConnections.map UInt64.toNat, "limits.max_connections".toList),
    (file.limits.maxHalfOpen.map UInt64.toNat, "limits.max_half_open".toList),
    (file.limits.maxPerSource.map UInt64.toNat, "limits.max_per_source".toList),
    (file.limits.acceptRate.map UInt32.toNat, "limits.accept_rate".toList),
    (file.limits.acceptBurst.map UInt32.toNat, "limits.accept_burst".toList)]

/-- One round of the loop over the integers. -/
def checkInteger (origin : Text) : Option ℕ × Text → Except ConfigError Unit
  | (some 0, key) => .error (.schemaError (origin ++ ": ".toList ++ key ++
      " must be at least 1".toList))
  | (some v, key) =>
    if i64Max < v then
      .error (.schemaError (origin ++ ": ".toList ++ key ++ " must be at most ".toList ++
        decimal i64Max))
    else .ok ()
  | (none, _) => .ok ()

/-- The deserializer. -/
abbrev Toml (A : Type) := Text → Except TomlError (ConfigFile A)

/-- `parse`. -/
def parse {A : Type} (toml : Toml A) (text origin : Text) : Except ConfigError (ConfigFile A) :=
  match toml text with
  | .error e => .error (.schemaError (origin ++ ": ".toList ++ schemaDetail e text))
  | .ok file =>
    if file.schemaVersion ∉ supportedSchemaVersions then
      .error (.versionUnsupported (versionMessage origin file.schemaVersion))
    else match checkEach (checkInteger origin) file.integers with
      | .error e => .error e
      | .ok () => .ok file

/-! ### What is accepted -/

/-- The version is 1 and every integer that is set is between 1 and 2⁶³ - 1. -/
structure ConfigFile.InRange {A : Type} (file : ConfigFile A) : Prop where
  version : file.schemaVersion = 1
  integers : ∀ v key n, (v, key) ∈ file.integers → v = some n → 1 ≤ n ∧ n < 2 ^ 63

variable {A : Type} {toml : Toml A} {text origin : Text} {file : ConfigFile A}

theorem checkInteger_ok {v : Option ℕ} {key : Text} :
    checkInteger origin (v, key) = .ok () ↔ ∀ n, v = some n → 1 ≤ n ∧ n < 2 ^ 63 := by
  have hmax : i64Max = 2 ^ 63 - 1 := rfl
  cases v with
  | none => exact iff_of_true rfl fun n hn => by cases hn
  | some n =>
    cases n with
    | zero =>
      refine iff_of_false (fun h => by cases h) fun h => ?_
      have hpos := (h 0 rfl).1
      omega
    | succ n =>
      simp only [checkInteger, Option.some.injEq, forall_eq']
      by_cases hlt : i64Max < n + 1
      · rw [if_pos hlt]
        exact iff_of_false (fun h => by cases h) (by omega)
      · rw [if_neg hlt]
        exact iff_of_true rfl (by omega)

theorem parse_ok : parse toml text origin = .ok file ↔ toml text = .ok file ∧ file.InRange := by
  unfold parse
  cases htoml : toml text with
  | error e => exact iff_of_false (fun h => by cases h) fun h => by cases h.1
  | ok file' =>
    have hversion : file'.schemaVersion ∉ supportedSchemaVersions ↔ file'.schemaVersion ≠ 1 := by
      rw [supportedSchemaVersions, List.mem_singleton]
    have hintegers : checkEach (checkInteger origin) file'.integers = .ok () ↔
        ∀ v key n, (v, key) ∈ file'.integers → v = some n → 1 ≤ n ∧ n < 2 ^ 63 := by
      rw [checkEach_ok_iff]
      constructor
      · exact fun h v key n hmem hv => checkInteger_ok.1 (h (v, key) hmem) n hv
      · rintro h ⟨v, key⟩ hmem
        exact checkInteger_ok.2 fun n hv => h v key n hmem hv
    constructor
    · intro h
      dsimp only at h
      by_cases hv : file'.schemaVersion ∉ supportedSchemaVersions
      · rw [if_pos hv] at h
        cases h
      · rw [if_neg hv] at h
        cases hcheck : checkEach (checkInteger origin) file'.integers with
        | error e =>
          rw [hcheck] at h
          cases h
        | ok =>
          rw [hcheck] at h
          cases h
          exact ⟨rfl, not_not.1 (hversion.not.1 hv), hintegers.1 hcheck⟩
    · rintro ⟨hfile, hrange⟩
      cases hfile
      dsimp only
      rw [if_neg (hversion.not.2 (not_not.2 hrange.version)), hintegers.2 hrange.integers]

end QuantumSsh.Startup
