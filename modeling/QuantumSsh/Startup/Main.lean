import QuantumSsh.Admission.Basic
import QuantumSsh.HostKey
import QuantumSsh.KeyFile
import QuantumSsh.Startup.Cli
import QuantumSsh.Transport.Session

/-!
# The start of the server

`main` and `run` of `main.rs`, up to the accept loop: the command line, the configuration
file, the merge of both, the keys, and the listener. What a start does is recorded in the
order it is done: the files that are checked and read, the events of the audit log, the
listener that is bound.
-/

namespace QuantumSsh.Startup

open Program FileTree
open Keygen (TrustedClass)
open Auth (AuthError AuthorizedKeys)

/-! ### What the start depends on -/

/-- `Config`. -/
structure Config (sigs : Signatures) (A : Type) where
  listen : A
  /-- In nanoseconds. -/
  handshakeTimeout : ℕ
  hostKey : HostKey.SigningKey
  authorizedKeys : AuthorizedKeys sigs
  trustedUserCaKeys : Option (Cert.TrustedUserCaKeys sigs)
  rekey : Transport.RekeyThresholds
  limits : Admission.Limits
  helper : Option Text

/-- The system: its files, the texts and addresses it reads, the network. -/
structure System (κ D F E A : Type) extends Keygen.Kernel κ D F E where
  readToString : Place → Prog κ E Text
  parseAddr : ParseAddr A
  /-- `Display` of an address. -/
  showAddr : A → Text
  toml : Toml A
  /-- `CARGO_PKG_VERSION`. -/
  version : Text
  /-- The standard error is a terminal. -/
  terminal : Bool
  sigs : Signatures
  expand : HostKey.Expand
  /-- `String::from_utf8_lossy`. -/
  lossy : Bytes → String
  /-- `helper()`. -/
  helper : Option Text
  /-- What `getrandom::fill` gives `keygen`. -/
  draw : Option (FixedBytes (HostKey.seedsLen + HostKey.checkLen))
  /-- `Builder::build`, with so many blocking threads. -/
  buildRuntime : (threads : ℕ) → Prog κ E Unit
  /-- `Server::bind` and `local_addr`. -/
  bind : A → Prog κ E A
  /-- `Server::serve`. -/
  serve : Config sigs A → Prog κ E Unit

/-- What a start does, as it can be seen from outside. -/
inductive Event (sigs : Signatures) (A : Type)
  /-- A text on the standard output. -/
  | printed (text : Text)
  /-- A text on the standard error. -/
  | complained (text : Text)
  /-- `check_trusted_file` passed and returned the canonical path. -/
  | checked (path : Text) (trusted : TrustedClass) (canon : Place)
  /-- The file was opened for reading. -/
  | read (place : Place)
  /-- `init_logging`. -/
  | logging (format : LogFormat)
  /-- `server.config_override`. -/
  | configOverride (key : Text)
  /-- `server.config_error`. -/
  | configError (name detail configFile : Text)
  /-- The listener is asked for. -/
  | binding (config : Config sigs A)
  /-- `server.started`. -/
  | started (addr : A) (fingerprint : Bytes) (configFile : Text)
  /-- `READY=1`. -/
  | ready

/-- `ExitCode`. -/
inductive Exit
  | success
  | failure
  deriving DecidableEq

structure World (κ : Type) (sigs : Signatures) (A : Type) where
  sys : κ
  log : List (Event sigs A)

variable {κ D F E A : Type} (S : System κ D F E A)

/-- A part of the start that may end it. -/
abbrev Start (α : Type) := Prog (World κ S.sigs A) Exit α

/-- A call of the system, whose failure is a value. -/
def System.call {ε α : Type} (p : Prog κ ε α) : Start S (Except ε α) := fun w =>
  (.ok (p w.sys).1, { w with sys := (p w.sys).2 })

def System.record (event : Event S.sigs A) : Start S Unit :=
  update fun w => { w with log := w.log ++ [event] }

/-- `config_error`. -/
def configError (name detail configFile : Text) : Start S Unit :=
  S.record (.configError name detail configFile)

/-- `ExitCode::FAILURE`. -/
def refuse {α : Type} : Start S α := fail .failure

/-! ### Files -/

/-- `check_trusted_file`. -/
def checkTrustedFile (path : Text) (trusted : TrustedClass) :
    Start S (Except ConfigError Place) := do
  match ← S.call (Keygen.checkTrustedFile S.toKernel (Text.bytes path) trusted) with
  | .error e => return .error (.ofCheck e)
  | .ok canon =>
    S.record (.checked path trusted canon)
    return .ok canon

/-- `std::fs::read_to_string`. -/
def readToString (canon : Place) : Start S (Except E Text) := do
  S.record (.read canon)
  S.call (S.readToString canon)

/-- `config::load`. -/
def load (canon : Place) : Start S (Except ConfigError (ConfigFile A)) := do
  match ← readToString S canon with
  | .error e =>
    return .error (.fileUnavailable (S.displayPath canon ++ ": cannot read: ".toList ++
      S.errorText e))
  | .ok text => return parse S.toml text (S.displayPath canon)

/-- `load_config_file`. -/
def loadConfigFile (cli : Cli A) :
    Start S (Text × Except ConfigError (Option (ConfigFile A))) :=
  match cli.configPath with
  | none => return ([], .ok none)
  | some p => do
    match ← checkTrustedFile S p .input with
    | .error e => return (p, .error e)
    | .ok canon =>
      let loaded ← load S canon
      return (S.displayPath canon, loaded.map some)

/-- `HostKeyError`, its `Display`. -/
def hostKeyErrorText : HostKey.HostKeyError → Text
  | .badContainer => "not an openssh-key-v1 container".toList
  | .unsupported =>
    "unsupported host key (need an unencrypted ssh-mldsa44-ed25519 key)".toList
  | .inconsistent => "host key file is internally inconsistent".toList
  | .sign => "host key signing failed".toList

/-- `load_host_key`. -/
def loadHostKey (path configFile : Text) : Start S (Option HostKey.SigningKey) := do
  match ← checkTrustedFile S path .secret with
  | .error e =>
    configError S e.name e.detail configFile
    return none
  | .ok canon =>
    match ← readToString S canon with
    | .error e =>
      configError S "file_unavailable".toList
        ("cannot read host key ".toList ++ S.displayPath canon ++ ": ".toList ++ S.errorText e)
        configFile
      return none
    | .ok pem =>
      match HostKey.fromOpensshPem S.expand pem with
      | .ok key => return some key
      | .error e =>
        configError S "invalid_host_key".toList
          ("cannot load host key ".toList ++ S.displayPath canon ++ ": ".toList ++
            hostKeyErrorText e) configFile
        return none

/-- `AuthError`: the file cannot be read, or its content does not parse. -/
inductive LoadError
  | io (e : Text)
  | content (e : AuthError)

/-- `AuthError`, its `Display`. -/
def LoadError.text (lossy : Bytes → String) : LoadError → Text
  | .io e => "cannot read the file: ".toList ++ e
  | .content (.malformedLine line reason) =>
    "line ".toList ++ decimal line ++ ": ".toList ++ (reason.text lossy).toList
  | .content (.unsupportedKeyType line found expected) =>
    "line ".toList ++ decimal line ++ ": unsupported key type '".toList ++ found ++
      "' (need ".toList ++ expected ++ ")".toList
  | .content (.keyOptions line) =>
    "line ".toList ++ decimal line ++
      ": key options are not enforced, so the line is refused (ADR-0040)".toList
  | .content .empty => "the file contains no keys".toList

/-- `AuthorizedKeys::load` and `TrustedUserCaKeys::load`, with their parser. -/
def loadKeys {K : Type} (parse : Text → Except AuthError K) (canon : Place) :
    Start S (Except LoadError K) := do
  match ← readToString S canon with
  | .error e => return .error (.io (S.errorText e))
  | .ok content =>
    match parse content with
    | .error e => return .error (.content e)
    | .ok keys => return .ok keys

/-- `load_key_file`. -/
def loadKeyFile {K : Type} (path name : Text) (parse : Text → Except AuthError K)
    (configFile : Text) : Start S (Option K) := do
  match ← checkTrustedFile S path .input with
  | .error e =>
    configError S e.name e.detail configFile
    return none
  | .ok canon =>
    match ← loadKeys S parse canon with
    | .ok keys => return some keys
    | .error e =>
      configError S ("invalid_".toList ++ name)
        ("cannot load ".toList ++ name ++ [' '] ++ S.displayPath canon ++ ": ".toList ++
          e.text S.lossy) configFile
      return none

/-! ### The merge -/

/-- `Resolved`. -/
structure Resolved (A : Type) where
  listen : A
  hostKeyPath : Option Text
  authorizedKeysPath : Option Text
  trustedUserCaKeysPath : Option Text
  /-- In nanoseconds. -/
  handshakeTimeout : ℕ
  logFormat : LogFormat
  limits : Admission.Limits
  /-- In nanoseconds. -/
  drainTimeout : ℕ
  overrides : List Text

/-- `Duration::from_secs`. -/
def fromSecs (secs : ℕ) : ℕ := secs * 1000000000

/-- `DEFAULT_LISTEN`. -/
def defaultListen : Text := "127.0.0.1:2222".toList

/-- `DEFAULT_HANDSHAKE_TIMEOUT_SECS`. -/
def defaultHandshakeTimeoutSecs : ℕ := 30

/-- `DEFAULT_DRAIN_TIMEOUT_SECS`. -/
def defaultDrainTimeoutSecs : ℕ := 30

/-- `pick`: the value, and the key if a flag shadows a value of the file. -/
def pick {α : Type} (cli file : Option α) (default : α) (key : Text) : α × List Text :=
  ((cli.or file).getD default, if cli.isSome && file.isSome then [key] else [])

/-- `pick_opt`. -/
def pickOpt {α : Type} (cli file : Option α) (key : Text) : Option α × List Text :=
  (cli.or file, if cli.isSome && file.isSome then [key] else [])

/-- `resolve`. -/
def resolve (cli : Cli A) (file : Option (ConfigFile A)) (default : A) (tty : LogFormat) :
    Resolved A :=
  let server := file.map ConfigFile.server
  let limits := file.map ConfigFile.limits
  let defaults := Admission.Limits.default
  let listen := pick cli.listen (server.bind ServerSection.listen) default "server.listen".toList
  let hostKeyPath := pickOpt cli.hostKeyPath (server.bind ServerSection.hostKey)
    "server.host_key".toList
  let authorizedKeysPath := pickOpt cli.authorizedKeysPath
    (file.bind fun f => f.auth.authorizedKeys) "auth.authorized_keys".toList
  let handshakeTimeout := pick (cli.handshakeTimeout.map fromSecs)
    ((server.bind ServerSection.handshakeTimeout).map fun secs => fromSecs secs.toNat)
    (fromSecs defaultHandshakeTimeoutSecs) "server.handshake_timeout".toList
  let logFormat := pick cli.logFormat (file.bind fun f => f.logging.format) tty
    "logging.format".toList
  let get (value : LimitsSection → Option UInt64) (default : ℕ) : ℕ :=
    ((limits.bind value).map UInt64.toNat).getD default
  let get32 (value : LimitsSection → Option UInt32) (default : ℕ) : ℕ :=
    ((limits.bind value).map UInt32.toNat).getD default
  { listen := listen.1
    hostKeyPath := hostKeyPath.1
    authorizedKeysPath := authorizedKeysPath.1
    trustedUserCaKeysPath := file.bind fun f => f.auth.trustedUserCaKeys
    handshakeTimeout := handshakeTimeout.1
    logFormat := logFormat.1
    limits :=
      { maxConnections := get LimitsSection.maxConnections defaults.maxConnections
        maxHalfOpen := get LimitsSection.maxHalfOpen defaults.maxHalfOpen
        maxPerSource := get LimitsSection.maxPerSource defaults.maxPerSource
        acceptRate := get32 LimitsSection.acceptRate defaults.acceptRate
        acceptBurst := get32 LimitsSection.acceptBurst defaults.acceptBurst }
    drainTimeout := fromSecs
      (((server.bind ServerSection.drainTimeout).map UInt64.toNat).getD defaultDrainTimeoutSecs)
    overrides := listen.2 ++ hostKeyPath.2 ++ authorizedKeysPath.2 ++ handshakeTimeout.2 ++
      logFormat.2 }

/-! ### The start -/

/-- The host key of `run`. -/
def requireHostKey (path : Option Text) (configFile : Text) : Start S HostKey.SigningKey := do
  let some path := path | do
    configError S "missing_setting".toList
      "host key is required (--host-key or [server].host_key)".toList configFile
    refuse S
  let some key ← loadHostKey S path configFile | refuse S
  return key

/-- The authorized keys of `run`. -/
def requireAuthorizedKeys (path : Option Text) (configFile : Text) :
    Start S (AuthorizedKeys S.sigs) := do
  let some path := path | do
    configError S "missing_setting".toList
      "authorized_keys is required (--authorized-keys or [auth].authorized_keys)".toList
      configFile
    refuse S
  let some keys ← loadKeyFile S path "authorized_keys".toList (AuthorizedKeys.parse S.sigs)
    configFile | refuse S
  return keys

/-- The CA keys of `run`, which may be absent. -/
def trustedUserCaKeys (path : Option Text) (configFile : Text) :
    Start S (Option (Cert.TrustedUserCaKeys S.sigs)) := do
  let some path := path | return none
  let some cas ← loadKeyFile S path "trusted_user_ca_keys".toList
    (Cert.TrustedUserCaKeys.parse S.sigs) configFile | refuse S
  return some cas

/-- The first part of `run`: the keys, and the configuration made of them. -/
def assemble (resolved : Resolved A) (configFile : Text) : Start S (Config S.sigs A) := do
  let hostKey ← requireHostKey S resolved.hostKeyPath configFile
  let authorizedKeys ← requireAuthorizedKeys S resolved.authorizedKeysPath configFile
  let trustedUserCaKeys ← trustedUserCaKeys S resolved.trustedUserCaKeysPath configFile
  return {
    listen := resolved.listen
    handshakeTimeout := resolved.handshakeTimeout
    hostKey
    authorizedKeys
    trustedUserCaKeys
    rekey := .bsiDefaults resolved.handshakeTimeout
    limits := resolved.limits
    helper := S.helper }

/-- `run`. -/
def run (resolved : Resolved A) (configFile : Text) : Start S Exit := do
  let config ← assemble S resolved configFile
  S.record (.binding config)
  match ← S.call (S.bind config.listen) with
  | .error e =>
    configError S "bind_failed".toList
      ("cannot bind ".toList ++ S.showAddr resolved.listen ++ ": ".toList ++ S.errorText e)
      configFile
    return .failure
  | .ok addr =>
    S.record (.started addr (config.hostKey.fingerprint S.sigs) configFile)
    S.record .ready
    match ← S.call (S.serve config) with
    | .ok () => return .success
    | .error e =>
      configError S "listener_failed".toList
        ("accept loop failed: ".toList ++ S.errorText e) configFile
      return .failure

/-- `BLOCKING_THREADS_PER_CONNECTION.saturating_mul(..).max(1)`. -/
def blockingThreads (maxConnections : ℕ) : ℕ := max (min (4 * maxConnections) (2 ^ 64 - 1)) 1

/-- `generate_host_key`. -/
def generateHostKey : Except Keygen.RngError Keygen.GeneratedHostKey :=
  match S.draw with
  | none => .error .mk
  | some draw =>
    let generated := (HostKey.generateHostKeyWith S.sigs S.expand draw).get
      (by rw [HostKey.generateHostKeyWith_eq]; rfl)
    .ok {
      privatePem := generated.privatePem
      publicLine := Text.ofAscii generated.publicLine
      fingerprint := Text.ofAscii generated.fingerprint }

/-- `keygen::main`. -/
def keygenMain (path : Text) : Start S Exit := do
  match ← S.call (Keygen.run S.toKernel (Text.bytes path) (generateHostKey S)) with
  | .ok report =>
    S.record (.printed report)
    return .success
  | .error message =>
    S.record (.complained ("error: ".toList ++ message ++ ['\n']))
    return .failure

/-- `main` behind the command line. -/
def serveMain (cli : Cli A) : Start S Exit := do
  let default ← match S.parseAddr defaultListen with
    | .ok addr => pure addr
    | .error e => do
      S.record (.complained ("error: internal default listen address invalid: ".toList ++ e ++
        ['\n']))
      refuse S
  let tty := if S.terminal then LogFormat.human else .json
  let (configFile, loaded) ← loadConfigFile S cli
  match loaded with
  | .error e => do
    S.record (.logging (cli.logFormat.getD tty))
    configError S e.name e.detail configFile
    return .failure
  | .ok file => do
    let resolved := resolve cli file default tty
    S.record (.logging resolved.logFormat)
    forEach (fun key => S.record (.configOverride key)) resolved.overrides
    match ← S.call (S.buildRuntime (blockingThreads resolved.limits.maxConnections)) with
    | .error e => do
      configError S "runtime_failed".toList ("cannot build the runtime: ".toList ++ S.errorText e)
        configFile
      return .failure
    | .ok () => run S resolved configFile

/-- `main`, when it is not run as a helper. -/
def main (args : List Text) : Start S Exit :=
  match parseCli S.parseAddr S.version args with
  | .ok (.run cli) => serveMain S cli
  | .ok (.keygen path) => keygenMain S path
  | .ok (.exit text) => do
    S.record (.printed text)
    return .success
  | .error message => do
    S.record (.complained ("error: ".toList ++ message ++ "\n\n".toList ++ usage ++ ['\n']))
    return .failure

end QuantumSsh.Startup
