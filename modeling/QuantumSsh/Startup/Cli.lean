import QuantumSsh.Startup.Config
import Mathlib.Data.List.Basic

/-!
# The command line

`parse_cli` against the grammar of the command line: a sequence of flags, each with a value
that suits it, of which the last one of a flag counts. The first argument that fits nowhere
decides the error.
-/

namespace QuantumSsh.Startup

/-! ### Numbers -/

/-- `ParseIntError`. -/
inductive ParseIntError
  | empty
  | invalidDigit
  | posOverflow
  deriving DecidableEq

def ParseIntError.text : ParseIntError → Text
  | .empty => "cannot parse integer from empty string".toList
  | .invalidDigit => "invalid digit found in string".toList
  | .posOverflow => "number too large to fit in target type".toList

/-- The value of a digit. -/
def digit (c : Char) : ℕ := c.toNat - '0'.toNat

/-- The loop of `u64::from_str`. -/
def digitsFrom : ℕ → Text → Except ParseIntError ℕ
  | acc, [] => .ok acc
  | acc, c :: rest =>
    if ¬c.isDigit then .error .invalidDigit
    else if 2 ^ 64 ≤ acc * 10 + digit c then .error .posOverflow
    else digitsFrom (acc * 10 + digit c) rest

/-- `u64::from_str`. -/
def parseU64 : Text → Except ParseIntError ℕ
  | [] => .error .empty
  | ['+'] => .error .invalidDigit
  | '+' :: rest => digitsFrom 0 rest
  | t => digitsFrom 0 t

/-- The number that digits write. -/
def valueOf (acc : ℕ) (digits : Text) : ℕ := digits.foldl (fun acc c => acc * 10 + digit c) acc

/-- The text writes the number in digits, perhaps behind a plus sign. -/
def IsDecimal (t : Text) (n : ℕ) : Prop :=
  ∃ digits : Text, (t = digits ∨ t = '+' :: digits) ∧ digits ≠ [] ∧
    (∀ c ∈ digits, c.isDigit = true) ∧ valueOf 0 digits = n ∧ n < 2 ^ 64

theorem le_valueOf (acc : ℕ) (digits : Text) : acc ≤ valueOf acc digits := by
  induction digits generalizing acc with
  | nil => exact le_rfl
  | cons c digits ih =>
    have h := ih (acc * 10 + digit c)
    rw [valueOf, List.foldl_cons]
    unfold valueOf at h
    omega

theorem digitsFrom_ok {acc n : ℕ} {digits : Text} (hacc : acc < 2 ^ 64) :
    digitsFrom acc digits = .ok n ↔
      (∀ c ∈ digits, c.isDigit = true) ∧ valueOf acc digits = n ∧ n < 2 ^ 64 := by
  induction digits generalizing acc with
  | nil =>
    rw [digitsFrom, Except.ok.injEq]
    exact ⟨fun h => ⟨by simp, h, h ▸ hacc⟩, fun h => h.2.1⟩
  | cons c digits ih =>
    rw [digitsFrom, List.forall_mem_cons]
    by_cases hdigit : c.isDigit = true
    · rw [if_neg (not_not.2 hdigit)]
      by_cases hover : 2 ^ 64 ≤ acc * 10 + digit c
      · rw [if_pos hover]
        refine iff_of_false (fun h => by cases h) ?_
        rintro ⟨-, rfl, hlt⟩
        have hle := le_valueOf (acc * 10 + digit c) digits
        rw [valueOf, List.foldl_cons] at hlt
        rw [valueOf] at hle
        omega
      · rw [if_neg hover, ih (not_le.1 hover)]
        exact ⟨fun h => ⟨⟨hdigit, h.1⟩, h.2⟩, fun h => ⟨h.1.2, h.2⟩⟩
    · rw [if_pos hdigit]
      exact iff_of_false (fun h => by cases h) fun h => hdigit h.1.1

theorem parseU64_ok {t : Text} {n : ℕ} : parseU64 t = .ok n ↔ IsDecimal t n := by
  have hzero : (0 : ℕ) < 2 ^ 64 := by decide
  have hplus : ('+').isDigit = false := by decide
  constructor
  · intro h
    unfold parseU64 at h
    split at h
    next => cases h
    next => cases h
    next rest hrest =>
      obtain ⟨hdigits, hvalue⟩ := (digitsFrom_ok hzero).1 h
      exact ⟨rest, .inr rfl, hrest, hdigits, hvalue⟩
    next hnil _ _ =>
      obtain ⟨hdigits, hvalue⟩ := (digitsFrom_ok hzero).1 h
      exact ⟨t, .inl rfl, hnil, hdigits, hvalue⟩
  · rintro ⟨digits, rfl | rfl, hne, hdigits, hvalue⟩
    · have h := (digitsFrom_ok hzero).2 ⟨hdigits, hvalue⟩
      unfold parseU64
      split
      next => exact absurd rfl hne
      next =>
        have hsign := hdigits '+' List.mem_cons_self
        rw [hplus] at hsign
        cases hsign
      next rest _ =>
        have hsign := hdigits '+' List.mem_cons_self
        rw [hplus] at hsign
        cases hsign
      next => exact h
    · have h := (digitsFrom_ok hzero).2 ⟨hdigits, hvalue⟩
      cases digits with
      | nil => exact absurd rfl hne
      | cons c digits => exact h

/-! ### The flags -/

/-- `Cli`. -/
structure Cli (A : Type) where
  configPath : Option Text
  listen : Option A
  hostKeyPath : Option Text
  authorizedKeysPath : Option Text
  /-- In seconds. -/
  handshakeTimeout : Option ℕ
  logFormat : Option LogFormat

/-- `Cli::default`. -/
def Cli.default {A : Type} : Cli A := ⟨none, none, none, none, none, none⟩

/-- `CliOutcome`; an exit is behind a text on the standard output. -/
inductive CliOutcome (A : Type)
  | run (cli : Cli A)
  | keygen (path : Text)
  | exit (printed : Text)

/-- `SocketAddr::from_str`, with the text of its error. -/
abbrev ParseAddr (A : Type) := Text → Except Text A

variable {A : Type}

/-- The flags with a value. -/
inductive Flag
  | config
  | listen
  | hostKey
  | authorizedKeys
  | handshakeTimeout
  | logFormat
  deriving DecidableEq

/-- In the order of the source. -/
def Flag.all : List Flag :=
  [.config, .listen, .hostKey, .authorizedKeys, .handshakeTimeout, .logFormat]

def Flag.name : Flag → Text
  | .config => "--config".toList
  | .listen => "--listen".toList
  | .hostKey => "--host-key".toList
  | .authorizedKeys => "--authorized-keys".toList
  | .handshakeTimeout => "--handshake-timeout".toList
  | .logFormat => "--log-format".toList

/-- The flag of this name. -/
def Flag.ofText (arg : Text) : Option Flag := Flag.all.find? fun f => f.name = arg

/-- What is said when the value is missing. -/
def Flag.missing : Flag → Text
  | .config => "--config requires a path".toList
  | .listen => "--listen requires an address".toList
  | .hostKey => "--host-key requires a path".toList
  | .authorizedKeys => "--authorized-keys requires a path".toList
  | .handshakeTimeout => "--handshake-timeout requires seconds".toList
  | .logFormat => "--log-format requires 'json' or 'human'".toList

/-- What the flag sets to its value. -/
def Flag.set (parseAddr : ParseAddr A) (cli : Cli A) (value : Text) : Flag → Except Text (Cli A)
  | .config => .ok { cli with configPath := some value }
  | .listen =>
    match parseAddr value with
    | .ok addr => .ok { cli with listen := some addr }
    | .error e => .error ("invalid --listen address '".toList ++ value ++ "': ".toList ++ e)
  | .hostKey => .ok { cli with hostKeyPath := some value }
  | .authorizedKeys => .ok { cli with authorizedKeysPath := some value }
  | .handshakeTimeout =>
    match parseU64 value with
    | .ok secs =>
      if secs = 0 then .error "--handshake-timeout must be at least 1 second".toList
      else .ok { cli with handshakeTimeout := some secs }
    | .error e =>
      .error ("invalid --handshake-timeout '".toList ++ value ++ "': ".toList ++ e.text)
  | .logFormat =>
    if value = "json".toList then .ok { cli with logFormat := some .json }
    else if value = "human".toList then .ok { cli with logFormat := some .human }
    else .error ("invalid --log-format '".toList ++ value ++ "'".toList)

/-- `USAGE`. -/
def usage : Text := "quantumssh — memory-safe, post-quantum-first SSH server (alpha)

USAGE:
    quantumssh [OPTIONS]

SUBCOMMANDS:
    keygen <PATH>                 Write a new ssh-mldsa44-ed25519 host key (RFC-0018)

OPTIONS:
    --config <PATH>               TOML configuration file (RFC-0010,
                                  schema v1). Optional; flags override
                                  its values (CLI > config > default)
    --listen <ADDR>               Address to bind (default: 127.0.0.1:2222)
    --host-key <PATH>             ssh-mldsa44-ed25519 host key file
                                  (openssh-key-v1, unencrypted;
                                  quantumssh keygen, or ssh-keygen -t
                                  mldsa44-ed25519 from OpenSSH 10.6 or
                                  later). Required (flag or
                                  [server].host_key).
    --authorized-keys <PATH>      authorized_keys file (one ssh-ed25519
                                  key per line). Required (flag or
                                  [auth].authorized_keys).
    --handshake-timeout <SECS>    Budget from TCP accept to handshake
                                  completion (default: 30; ADR-0022)
    --log-format <FORMAT>         'json' or 'human' (default: json when
                                  stderr is not a TTY, human when it is)
    --help                        Print this help
    --version                     Print version
".toList

/-- `KEYGEN_USAGE`. -/
def keygenUsage : Text := "usage: quantumssh keygen <PATH>".toList

/-- What `--help` and `--version` print; `version` is that of the package. -/
def printed (version arg : Text) : Option Text :=
  if arg = "--help".toList then some usage
  else if arg = "--version".toList then some ("quantumssh ".toList ++ version ++ ['\n'])
  else none

/-- The message for an argument that is no flag. -/
def unknownArgument (arg : Text) : Text := "unknown argument '".toList ++ arg ++ "'".toList

/-- The loop of `parse_cli`. -/
def parseArgs (parseAddr : ParseAddr A) (version : Text) :
    Cli A → List Text → Except Text (CliOutcome A)
  | cli, [] => .ok (.run cli)
  | cli, arg :: rest =>
    match Flag.ofText arg with
    | some f =>
      match rest with
      | [] => .error f.missing
      | value :: rest =>
        match f.set parseAddr cli value with
        | .ok cli => parseArgs parseAddr version cli rest
        | .error e => .error e
    | none =>
      match printed version arg with
      | some text => .ok (.exit text)
      | none => .error (unknownArgument arg)

/-- `parse_cli`. -/
def parseCli (parseAddr : ParseAddr A) (version : Text) (args : List Text) :
    Except Text (CliOutcome A) :=
  match args with
  | [] => parseArgs parseAddr version .default []
  | first :: others =>
    if first = "keygen".toList then
      match others with
      | [path] => if path.head? = some '-' then .error keygenUsage else .ok (.keygen path)
      | _ => .error keygenUsage
    else parseArgs parseAddr version .default (first :: others)

/-! ### The grammar -/

/-- A flag and the value behind it. -/
abbrev Setting := Flag × Text

def Setting.args (setting : Setting) : List Text := [setting.1.name, setting.2]

/-- The flag takes the value. -/
def Setting.Fits (parseAddr : ParseAddr A) : Setting → Prop
  | (.listen, value) => ∃ addr, parseAddr value = .ok addr
  | (.handshakeTimeout, value) => ∃ secs, IsDecimal value secs ∧ secs ≠ 0
  | (.logFormat, value) => value = "json".toList ∨ value = "human".toList
  | _ => True

/-- The value that the flag was given last. -/
def lastValue (settings : List Setting) (f : Flag) : Option Text :=
  ((settings.filter fun s => s.1 = f).getLast?).map Prod.snd

/-- The format of this name. -/
def LogFormat.ofText (value : Text) : LogFormat := if value = "json".toList then .json else .human

/-- The command line on which the flags have these values. -/
def Cli.ofValues (parseAddr : ParseAddr A) (values : Flag → Option Text) : Cli A where
  configPath := values .config
  listen := (values .listen).bind fun value => (parseAddr value).toOption
  hostKeyPath := values .hostKey
  authorizedKeysPath := values .authorizedKeys
  handshakeTimeout := (values .handshakeTimeout).bind fun value => (parseU64 value).toOption
  logFormat := (values .logFormat).map LogFormat.ofText

variable {parseAddr : ParseAddr A} {version : Text}

theorem Flag.mem_all (f : Flag) : f ∈ Flag.all := by cases f <;> decide

theorem Flag.ofText_name (f : Flag) : Flag.ofText f.name = some f := by
  cases f <;> decide +kernel

theorem Flag.ofText_eq_some {arg : Text} {f : Flag} : Flag.ofText arg = some f ↔ f.name = arg := by
  constructor
  · intro h
    simpa using List.find?_some h
  · rintro rfl
    exact f.ofText_name

theorem Flag.ofText_eq_none {arg : Text} : Flag.ofText arg = none ↔ ∀ f : Flag, f.name ≠ arg := by
  rw [Flag.ofText, List.find?_eq_none]
  exact ⟨fun h f => by simpa using h f f.mem_all, fun h f _ => by simpa using h f⟩

theorem lastValue_concat (settings : List Setting) (f : Flag) (value : Text) :
    lastValue (settings ++ [(f, value)]) =
      Function.update (lastValue settings) f (some value) := by
  ext1 g
  by_cases hg : g = f
  · subst hg
    simp [lastValue]
  · rw [Function.update_of_ne hg]
    simp [lastValue, Ne.symm hg]

/-- What a flag sets. -/
theorem set_ofValues {values : Flag → Option Text} {f : Flag} {value : Text} {cli : Cli A} :
    f.set parseAddr (.ofValues parseAddr values) value = .ok cli ↔
      Setting.Fits parseAddr (f, value) ∧
        cli = .ofValues parseAddr (Function.update values f (some value)) := by
  cases f with
  | config | hostKey | authorizedKeys =>
    rw [Flag.set, Except.ok.injEq, eq_comm]
    exact ⟨fun h => ⟨trivial, h⟩, fun h => h.2⟩
  | listen =>
    simp only [Flag.set, Setting.Fits]
    cases haddr : parseAddr value with
    | error e => simp
    | ok addr =>
      have hcli : Cli.ofValues parseAddr (Function.update values .listen (some value)) =
          { Cli.ofValues parseAddr values with listen := some addr } := by
        simp [Cli.ofValues, haddr, Except.toOption]
      simp [hcli, eq_comm]
  | handshakeTimeout =>
    simp only [Flag.set, Setting.Fits, ← parseU64_ok]
    cases hsecs : parseU64 value with
    | error e => simp
    | ok secs =>
      have hcli : Cli.ofValues parseAddr (Function.update values .handshakeTimeout (some value)) =
          { Cli.ofValues parseAddr values with handshakeTimeout := some secs } := by
        simp [Cli.ofValues, hsecs, Except.toOption]
      by_cases hzero : secs = 0
      · simp [hzero]
      · simp [hcli, hzero, eq_comm]
  | logFormat =>
    have hcli : Cli.ofValues parseAddr (Function.update values .logFormat (some value)) =
        { Cli.ofValues parseAddr values with logFormat := some (.ofText value) } := by
      simp [Cli.ofValues]
    rw [hcli]
    simp only [Flag.set, Setting.Fits, LogFormat.ofText]
    by_cases hjson : value = "json".toList
    · rw [if_pos hjson, if_pos hjson]
      exact ⟨fun h => ⟨.inl hjson, (Except.ok.inj h).symm⟩, fun h => congrArg _ h.2.symm⟩
    · rw [if_neg hjson, if_neg hjson]
      by_cases hhuman : value = "human".toList
      · rw [if_pos hhuman]
        exact ⟨fun h => ⟨.inr hhuman, (Except.ok.inj h).symm⟩, fun h => congrArg _ h.2.symm⟩
      · rw [if_neg hhuman]
        exact iff_of_false (fun h => by cases h) fun h => h.1.elim hjson hhuman

theorem parseArgs_flag {cli : Cli A} {f : Flag} {value : Text} {rest : List Text} :
    parseArgs parseAddr version cli (f.name :: value :: rest) =
      match f.set parseAddr cli value with
      | .ok cli => parseArgs parseAddr version cli rest
      | .error e => .error e := by
  rw [parseArgs, f.ofText_name]

/-- The loop reads the settings, and stands before what is behind them. -/
theorem parseArgs_settings {settings more : List Setting} {rest : List Text}
    (hfits : ∀ s ∈ more, s.Fits parseAddr) :
    parseArgs parseAddr version (.ofValues parseAddr (lastValue settings))
        (more.flatMap Setting.args ++ rest) =
      parseArgs parseAddr version (.ofValues parseAddr (lastValue (settings ++ more))) rest := by
  induction more generalizing settings with
  | nil => rw [List.append_nil, List.flatMap_nil, List.nil_append]
  | cons setting more ih =>
    obtain ⟨f, value⟩ := setting
    obtain ⟨hfit, hfits⟩ := List.forall_mem_cons.1 hfits
    have hset := (@set_ofValues _ parseAddr (lastValue settings) f value _).2 ⟨hfit, rfl⟩
    rw [← lastValue_concat] at hset
    rw [List.flatMap_cons, List.append_assoc]
    change parseArgs parseAddr version _
      (f.name :: value :: (more.flatMap Setting.args ++ rest)) = _
    rw [parseArgs_flag, hset]
    dsimp only
    rw [ih hfits, List.append_assoc]
    rfl

/-- What the arguments behind the settings come to. -/
inductive Stops (parseAddr : ParseAddr A) (version : Text) (cli : Cli A) :
    List Text → Except Text (CliOutcome A) → Prop
  | done : Stops parseAddr version cli [] (.ok (.run cli))
  | exit {arg text : Text} (rest : List Text) (hprinted : printed version arg = some text) :
      Stops parseAddr version cli (arg :: rest) (.ok (.exit text))
  | missing (f : Flag) : Stops parseAddr version cli [f.name] (.error f.missing)
  | value {f : Flag} {value e : Text} (rest : List Text)
      (hset : f.set parseAddr cli value = .error e) :
      Stops parseAddr version cli (f.name :: value :: rest) (.error e)
  | unknown {arg : Text} (rest : List Text) (hflag : ∀ f : Flag, f.name ≠ arg)
      (hprinted : printed version arg = none) :
      Stops parseAddr version cli (arg :: rest) (.error (unknownArgument arg))

theorem ofText_of_printed {arg text : Text} (h : printed version arg = some text) :
    Flag.ofText arg = none := by
  unfold printed at h
  split at h
  next hhelp =>
    rw [hhelp]
    decide +kernel
  next =>
    split at h
    next hversion =>
      rw [hversion]
      decide +kernel
    next => cases h

theorem Stops.eq {cli : Cli A} {args : List Text} {r : Except Text (CliOutcome A)}
    (h : Stops parseAddr version cli args r) : parseArgs parseAddr version cli args = r := by
  cases h with
  | done => rfl
  | exit rest hprinted =>
    rw [parseArgs, ofText_of_printed hprinted]
    dsimp only
    rw [hprinted]
  | missing f => rw [parseArgs, f.ofText_name]
  | value rest hset => rw [parseArgs_flag, hset]
  | unknown rest hflag hprinted =>
    rw [parseArgs, Flag.ofText_eq_none.2 hflag]
    dsimp only
    rw [hprinted]

/-- Every command line is a sequence of settings and then stops, by induction on its length. -/
theorem exists_stops (n : ℕ) : ∀ {args : List Text} {settings : List Setting}, args.length ≤ n →
    ∃ more rest r, args = more.flatMap Setting.args ++ rest ∧ (∀ s ∈ more, s.Fits parseAddr) ∧
      Stops parseAddr version (.ofValues parseAddr (lastValue (settings ++ more))) rest r := by
  induction n with
  | zero =>
    intro args settings hlen
    obtain rfl : args = [] := List.length_eq_zero_iff.1 (Nat.le_zero.1 hlen)
    exact ⟨[], [], _, rfl, by simp, .done⟩
  | succ n ih =>
    intro args settings hlen
    cases args with
    | nil => exact ⟨[], [], _, rfl, by simp, .done⟩
    | cons arg args =>
      cases hflag : Flag.ofText arg with
      | none =>
        have hother := Flag.ofText_eq_none.1 hflag
        cases hprinted : printed version arg with
        | none => exact ⟨[], _, _, rfl, by simp, .unknown args hother hprinted⟩
        | some text => exact ⟨[], _, _, rfl, by simp, .exit args hprinted⟩
      | some f =>
        obtain rfl := Flag.ofText_eq_some.1 hflag
        cases args with
        | nil => exact ⟨[], _, _, rfl, by simp, .missing f⟩
        | cons value args =>
          cases hset : f.set parseAddr (.ofValues parseAddr (lastValue settings)) value with
          | error e =>
            refine ⟨[], _, .error e, rfl, by simp, .value args ?_⟩
            rwa [List.append_nil]
          | ok cli =>
            simp only [List.length_cons] at hlen
            obtain ⟨more, rest, r, rfl, hfits, hstops⟩ :=
              @ih args (settings ++ [(f, value)]) (by omega)
            refine ⟨(f, value) :: more, rest, r, rfl,
              List.forall_mem_cons.2 ⟨(set_ofValues.1 hset).1, hfits⟩, ?_⟩
            rwa [List.append_cons]

/-- The command lines, and what they come to. -/
inductive CommandLine (parseAddr : ParseAddr A) (version : Text) :
    List Text → Except Text (CliOutcome A) → Prop
  | keygen {path : Text} (hpath : path.head? ≠ some '-') :
      CommandLine parseAddr version ["keygen".toList, path] (.ok (.keygen path))
  | keygenUsage {others : List Text} (hothers : ∀ path, others = [path] → path.head? = some '-') :
      CommandLine parseAddr version ("keygen".toList :: others) (.error keygenUsage)
  | settings {settings : List Setting} {rest : List Text} {r : Except Text (CliOutcome A)}
      (hfirst : (settings.flatMap Setting.args ++ rest).head? ≠ some "keygen".toList)
      (hfits : ∀ s ∈ settings, s.Fits parseAddr)
      (hstops : Stops parseAddr version (.ofValues parseAddr (lastValue settings)) rest r) :
      CommandLine parseAddr version (settings.flatMap Setting.args ++ rest) r

theorem parseCli_of_commandLine {args : List Text} {r : Except Text (CliOutcome A)}
    (h : CommandLine parseAddr version args r) : parseCli parseAddr version args = r := by
  cases h with
  | keygen hpath =>
    unfold parseCli
    dsimp only
    rw [if_pos rfl, if_neg hpath]
  | keygenUsage hothers =>
    unfold parseCli
    dsimp only
    rw [if_pos rfl]
    split
    next path => rw [if_pos (hothers path rfl)]
    next => rfl
  | @settings settings rest _ hfirst hfits hstops =>
    have hargs : parseCli parseAddr version (settings.flatMap Setting.args ++ rest) =
        parseArgs parseAddr version .default (settings.flatMap Setting.args ++ rest) := by
      cases hcons : settings.flatMap Setting.args ++ rest with
      | nil => rfl
      | cons first others =>
        rw [hcons, List.head?_cons, ne_eq, Option.some.injEq] at hfirst
        unfold parseCli
        exact if_neg hfirst
    rw [hargs]
    exact (@parseArgs_settings _ _ _ [] _ _ hfits).trans hstops.eq

theorem commandLine_of_parseCli {args : List Text} {r : Except Text (CliOutcome A)}
    (h : parseCli parseAddr version args = r) : CommandLine parseAddr version args r := by
  obtain ⟨r', hr'⟩ : ∃ r', CommandLine parseAddr version args r' := by
    by_cases hfirst : args.head? = some "keygen".toList
    · obtain ⟨others, rfl⟩ : ∃ others, args = "keygen".toList :: others := by
        cases args with
        | nil => cases hfirst
        | cons first others => exact ⟨others, by rw [Option.some.inj hfirst]⟩
      by_cases hpath : ∃ path, others = [path] ∧ path.head? ≠ some '-'
      · obtain ⟨path, rfl, hpath⟩ := hpath
        exact ⟨_, .keygen hpath⟩
      · refine ⟨_, .keygenUsage fun path hothers => ?_⟩
        by_contra hhead
        exact hpath ⟨path, hothers, hhead⟩
    · obtain ⟨settings, rest, r', rfl, hfits, hstops⟩ :=
        @exists_stops A parseAddr version args.length args [] le_rfl
      exact ⟨r', .settings hfirst hfits hstops⟩
  rwa [← h, parseCli_of_commandLine hr']

/-- A time limit on the command line is at least a second. -/
theorem CommandLine.handshakeTimeout {args : List Text} {cli : Cli A} {secs : ℕ}
    (h : CommandLine parseAddr version args (.ok (.run cli)))
    (hsecs : cli.handshakeTimeout = some secs) : 1 ≤ secs := by
  cases h with
  | @settings settings rest _ hfirst hfits hstops =>
    cases hstops with
    | done =>
      obtain ⟨value, hvalue, hparse⟩ := Option.bind_eq_some_iff.1 hsecs
      obtain ⟨⟨f, value'⟩, hlast, rfl⟩ := Option.map_eq_some_iff.1 hvalue
      obtain ⟨hmem, hf⟩ := List.mem_filter.1 (List.mem_of_getLast? hlast)
      obtain rfl : f = .handshakeTimeout := of_decide_eq_true hf
      obtain ⟨secs', hdecimal, hne⟩ := hfits _ hmem
      dsimp only at hparse
      rw [parseU64_ok.2 hdecimal] at hparse
      obtain rfl := Option.some.inj hparse
      exact Nat.one_le_iff_ne_zero.2 hne

/-- **`parse_cli` decides the grammar of the command line**: `keygen` with a path that is no
flag, or settings that fit, of which the last of each flag counts, up to the first argument
that asks for a text or fits nowhere. -/
theorem command_line_exact (parseAddr : ParseAddr A) (version : Text) (args : List Text)
    (r : Except Text (CliOutcome A)) :
    parseCli parseAddr version args = r ↔ CommandLine parseAddr version args r :=
  ⟨commandLine_of_parseCli, parseCli_of_commandLine⟩

end QuantumSsh.Startup
