import QuantumSsh.Keygen.StrictModes
import QuantumSsh.Startup.FailsClosed

/-!
# From `keygen` to the first start

A start that is pointed at the file `keygen` has written serves with the key that `keygen` has
drawn, under the fingerprint it has printed.
-/

namespace QuantumSsh.Startup

open Program FileTree
open Keygen (Files Short Takes TrustedClass)
open HostKey (drawnKey)

variable {κ D F E A : Type} {S : System κ D F E A} {files : Files κ D F} {w : Walker}
  {room : Tree → Bytes → Prop}

/-! ### The files stay as they are -/

/-- What a start does to the files, and what it reads from a file of text that belongs to the
process, which may read it and look up its path. -/
structure Reads (files : Files κ D F) (w : Walker) (S : System κ D F E A) : Prop where
  readToString : ∀ place, (S.readToString place).Within files.Same files.Same
  buildRuntime : ∀ threads, (S.buildRuntime threads).Within files.Same files.Same
  text : ∀ place s st text, files.node s place = some (.file st (Text.bytes text)) →
    st.uid = S.geteuid → st.mode &&& 0o400 ≠ 0 → Tree.Open w.search place → Short w place →
    (S.readToString place).Ensures s (fun t _ => t = text) fun _ _ => False

section

variable {path : Text} {trusted : TrustedClass} {canon : Place} {s s' : κ}

theorem Walked.same (laws : files.Lawful S.toKernel) {dirs : List Place} (h : Walked S dirs s s') :
    files.Same s s' := by
  induction h with
  | nil => exact rfl
  | cons hstat _ _ ih => exact ih.trans ((laws.stat _ _).of_ok hstat)

theorem Vetted.same (laws : files.Lawful S.toKernel) (h : Vetted S path trusted canon s s') :
    files.Same s s' := by
  obtain ⟨st, s₁, s₂, hcanon, hstat, -, hwalk⟩ := h
  have hsame₁ := (laws.canonicalize _ _).of_ok hcanon
  have hsame₂ := (laws.stat _ _).of_ok hstat
  exact ((hwalk.same laws).trans hsame₂).trans hsame₁

theorem Loaded.same (laws : files.Lawful S.toKernel) (reads : Reads files w S) {text : Text}
    (h : Loaded S path trusted canon text s s') : files.Same s s' := by
  obtain ⟨s₁, hvetted, hread⟩ := h
  exact ((reads.readToString _ _).of_ok hread).trans (hvetted.same laws)

theorem Provides.same {K : Type} (laws : files.Lawful S.toKernel) (reads : Reads files w S)
    {path : Option Text} {parse : Text → Option K} {key : K}
    (h : Provides S path trusted parse s key s') : files.Same s s' := by
  obtain ⟨p, canon, text, -, hload, -⟩ := h
  exact hload.same laws reads

theorem Configured.same (laws : files.Lawful S.toKernel) (reads : Reads files w S)
    {path : Option Text} {configFile : Text} {file : Option (ConfigFile A)}
    (h : Configured S path s configFile file s') : files.Same s s' := by
  obtain ⟨-, -, -, rfl⟩ | ⟨p, canon, text, f, -, hload, -⟩ := h
  · rfl
  · exact hload.same laws reads

end

/-! ### The key that was written -/

theorem ensures_trivial {σ ε α : Type} {p : Prog σ ε α} {s : σ} :
    p.Ensures s (fun _ _ => True) fun _ _ => True := by
  unfold Prog.Ensures
  split <;> trivial

/-- What both ends of a program show of the state. -/
theorem ensures_state {σ ε α : Type} {p : Prog σ ε α} {s : σ} {P : σ → Prop}
    (h : p.Ensures s (fun _ s' => P s') fun _ s' => P s') : P (p s).2 := by
  unfold Prog.Ensures at h
  split at h
  next heq => rwa [heq]
  next heq => rwa [heq]

/-- Whatever the first part returns. -/
theorem ensures_bind_of_forall {σ ε α β : Type} {p : Prog σ ε α} {f : α → Prog σ ε β} {s : σ}
    {ok : β → σ → Prop} (h : ∀ a s', (f a).Ensures s' ok fun _ _ => True) :
    (p >>= f).Ensures s ok fun _ _ => True := by
  rw [ensures_bind]
  exact ensures_trivial.mono (fun a s' _ => h a s') fun _ _ h => h

section

variable {K : Keygen.Kernel κ D F E} {path : Bytes}
  {generate : Except Keygen.RngError Keygen.GeneratedHostKey}

/-- The report ends with the fingerprint of the key. -/
def Reported (generate : Except Keygen.RngError Keygen.GeneratedHostKey) (report : Text) : Prop :=
  ∃ key before, generate = .ok key ∧ report = before ++ key.fingerprint ++ ['\n']

theorem ensures_writePair_report {dir : D} {priv pub : Keygen.Target}
    {t : Keygen.Writing κ} : (Keygen.writePair K dir priv pub generate).Ensures t
      (fun report _ => Reported generate report) fun _ _ => True := by
  unfold Keygen.writePair
  refine ensures_bind_of_forall fun privateFile t₁ => ?_
  refine ensures_bind_of_forall fun publicFile t₂ => ?_
  refine ensures_bind_of_forall fun _ t₃ => ?_
  cases hkey : generate with
  | error e => exact trivial
  | ok key =>
    rw [ensures_bind]
    refine ensures_bind_of_forall fun _ t₄ => ?_
    refine ensures_bind_of_forall fun _ t₅ => ?_
    refine ensures_bind_of_forall fun privateObserved t₆ => ?_
    refine ensures_bind_of_forall fun publicObserved t₇ => ?_
    exact ⟨key, _, rfl, rfl⟩

theorem ensures_run_report {s : κ} : (Keygen.run K path generate).Ensures s
    (fun report _ => Reported generate report) fun _ _ => True := by
  unfold Keygen.run
  refine ensures_bind_of_forall fun parts s₁ => ?_
  refine ensures_bind_of_forall fun parent s₂ => ?_
  refine ensures_bind_of_forall fun dir s₃ => ?_
  refine ensures_bind_of_forall fun _ s₄ => ?_
  rw [Keygen.ensures_orRemove]
  exact ensures_writePair_report.mono (fun _ _ h => h) fun _ _ _ => ensures_trivial

end

/-- The key is made of the bytes that were drawn. -/
theorem generateHostKey_ok {key : Keygen.GeneratedHostKey} (h : generateHostKey S = .ok key) :
    ∃ draw, S.draw = some draw ∧
      HostKey.fromOpensshPem S.expand key.privatePem = .ok (drawnKey S.expand draw) ∧
      key.fingerprint = Text.ofAscii ((drawnKey S.expand draw).fingerprint S.sigs) := by
  unfold generateHostKey at h
  cases hdraw : S.draw with
  | none =>
    rw [hdraw] at h
    cases h
  | some draw =>
    have hgenerated := HostKey.generateHostKeyWith_eq S.sigs S.expand draw
    rw [hdraw] at h
    cases h
    refine ⟨draw, rfl, ?_, ?_⟩
    · rw [Option.get_of_eq_some _ hgenerated]
      exact HostKey.fromOpensshPem_armored S.expand draw
    · rw [Option.get_of_eq_some _ hgenerated]

/-- `quantumssh keygen <PATH>` with success. -/
theorem main_keygen {path : Text} {s s' : κ} {log : List (Event S.sigs A)}
    (h : main S ["keygen".toList, path] ⟨s, []⟩ = (.ok .success, ⟨s', log⟩)) :
    ∃ report, Keygen.run S.toKernel (Text.bytes path) (generateHostKey S) s = (.ok report, s') ∧
      log = [.printed report] := by
  have hparse : parseCli S.parseAddr S.version ["keygen".toList, path] =
      if path.head? = some '-' then .error keygenUsage else .ok (.keygen path) := by
    unfold parseCli
    exact if_pos rfl
  unfold main at h
  rw [hparse] at h
  split_ifs at h
  · cases h
  · dsimp only at h
    have hrun : (keygenMain S path).Ensures ⟨s, []⟩
        (fun exit w' => exit = .success → ∃ report, Keygen.run S.toKernel (Text.bytes path)
          (generateHostKey S) s = (.ok report, w'.sys) ∧ w'.log = [.printed report])
        fun _ _ => True := by
      simp only [keygenMain, ensures_bind, ensures_call]
      rcases Keygen.run S.toKernel (Text.bytes path) (generateHostKey S) s
        with ⟨message | report, s₁⟩
      · intro hexit
        cases hexit
      · exact fun _ => ⟨report, rfl, rfl⟩
    exact hrun.of_ok h rfl

/-! ### The start -/

/-- The host key, as a start loads it. -/
def pemKey (S : System κ D F E A) (pem : Text) : Option HostKey.SigningKey :=
  (HostKey.fromOpensshPem S.expand pem).toOption

theorem owner_reads {mode : ℕ} (h : mode &&& 0o7777 = 0o600) : mode &&& 0o400 ≠ 0 := by
  have hbits : 0o7777 &&& 0o400 = 0o400 := by decide
  rw [← hbits, ← Nat.and_assoc, h]
  decide

theorem provides_written (laws : files.Lawful S.toKernel) (answers : files.Answers w room S.toKernel)
    (reads : Reads files w S) {path : Text} {parent : Bytes} {leaf : Name} {canonical : Place}
    {key : Keygen.GeneratedHostKey} {st : Stat} {signingKey : HostKey.SigningKey} {s s' t : κ}
    (h : Keygen.Written files S.toKernel w (Text.bytes path) (generateHostKey S) s s' parent leaf
      canonical key st)
    (hkey : HostKey.fromOpensshPem S.expand key.privatePem = .ok signingKey)
    (hstatic : files.Same s' t) (htakes : Takes w room (files.tree t) (Text.bytes path)) :
    ∃ t', Provides S (some path) .secret (pemKey S) t signingKey t' := by
  obtain ⟨canon, u, hcheck, rfl, -⟩ := ((h.ensures_checkTrustedFile answers laws hstatic).mono
    (fun _ _ => id) fun _ _ hrefused => hrefused htakes).exists_ok
  have hvetted := checkTrustedFile_ok.1 hcheck
  have hsame : files.Same s' u := (hvetted.same laws).trans hstatic
  have hnode : files.node u (canonical ++ [leaf]) = some (.file st (Text.bytes key.privatePem)) :=
    (congrFun hsame.node_eq _).trans h.node
  have hshort : Short w (canonical ++ [leaf]) := htakes.2 _ (h.realpath hstatic)
  obtain ⟨text, t', hread, rfl⟩ := (reads.text _ _ _ _ hnode h.uid (owner_reads h.mode)
    h.open_place hshort).exists_ok
  refine ⟨t', path, _, key.privatePem, rfl, ⟨u, hvetted, hread⟩, ?_⟩
  rw [pemKey, hkey]
  rfl

/-- A file that was loaded has a path that the calls take. -/
theorem Provides.takes {K : Type} (answers : files.Answers w room S.toKernel) {path : Text}
    {trusted : TrustedClass} {parse : Text → Option K} {key : K} {s s' : κ}
    (h : Provides S (some path) trusted parse s key s') :
    Takes w room (files.tree s) (Text.bytes path) := by
  obtain ⟨p, canon, text, hpath, ⟨_, ⟨_, _, _, hcanon, hstat, -⟩, -⟩, -⟩ := h
  obtain rfl := Option.some.inj hpath
  obtain ⟨hresolved, hroom⟩ := (answers.canonicalize _ _).of_ok hcanon
  refine ⟨hroom, fun q hq => ?_⟩
  obtain rfl := Option.some.inj (hresolved.symm.trans hq)
  exact ((answers.stat _ _).of_ok hstat).1

/-- What a start needs beside the host key, while the files stay as they are. -/
def Prepared (files : Files κ D F) (S : System κ D F E A) (cli : Cli A) (s : κ) : Prop :=
  ∃ default configFile file s₁ s₂, S.parseAddr defaultListen = .ok default ∧
    Configured S cli.configPath s configFile file s₁ ∧
    S.buildRuntime (blockingThreads (resolve cli file default (ttyDefault S)).limits.maxConnections)
      s₁ = (.ok (), s₂) ∧
    ∀ t, files.Same s t → ∃ keys t₁ cas t₂,
      Provides S (resolve cli file default (ttyDefault S)).authorizedKeysPath .input
        (fun content => (Auth.AuthorizedKeys.parse S.sigs content).toOption) t keys t₁ ∧
      ProvidesCas S (resolve cli file default (ttyDefault S)).trustedUserCaKeysPath t₁ cas t₂

/-- The server has this key, if it has any. -/
structure ServesKey (S : System κ D F E A) (key : HostKey.SigningKey)
    (log : List (Event S.sigs A)) : Prop where
  bound : ∀ config, .binding config ∈ log → config.hostKey = key
  announced : ∀ addr fingerprint configFile, .started addr fingerprint configFile ∈ log →
    fingerprint = key.fingerprint S.sigs

theorem FailsClosed.servesKey {args : List Text} {s : κ} {exit : Exit} {log : List (Event S.sigs A)}
    {key : HostKey.SigningKey} (h : FailsClosed S args s exit log)
    (hkey : ∀ config, Launches S args s config → config.hostKey = key) : ServesKey S key log where
  bound config hmem := hkey config ((h.binds config).1 hmem)
  announced addr fingerprint configFile hmem := by
    obtain ⟨before, after, hsplit⟩ := List.append_of_mem hmem
    obtain ⟨config, hlast, rfl⟩ := h.started before addr fingerprint configFile after hsplit
    have hbound : .binding config ∈ log :=
      hsplit ▸ List.mem_append_left _ (List.mem_of_getLast? hlast)
    rw [hkey config ((h.binds config).1 hbound)]

theorem resolve_hostKeyPath {cli : Cli A} {file : Option (ConfigFile A)} {default : A}
    {tty : LogFormat} {path : Text} (h : cli.hostKeyPath = some path) :
    (resolve cli file default tty).hostKeyPath = some path := by
  simp only [resolve, pickOpt, h, Option.some_or]

/-- **A new key is the one the server starts with**: behind a `keygen` that has succeeded, a
start that names its file serves under the key that was drawn and the fingerprint that was
printed, and it is not refused when everything else is in order and the path of the file is one
that the calls take. -/
theorem new_key_starts (laws : files.Lawful S.toKernel) (answers : files.Answers w room S.toKernel)
    (reads : Reads files w S) {path : Text} {s s' t : κ} {log : List (Event S.sigs A)}
    (hkeygen : main S ["keygen".toList, path] ⟨s, []⟩ = (.ok .success, ⟨s', log⟩))
    (hstatic : files.Same s' t) {args : List Text} {cli : Cli A}
    (hline : parseCli S.parseAddr S.version args = .ok (.run cli))
    (hpath : cli.hostKeyPath = some path) :
    ∃ draw before, S.draw = some draw ∧
      log = [.printed (before ++ Text.ofAscii ((drawnKey S.expand draw).fingerprint S.sigs) ++
        ['\n'])] ∧
      ServesKey S (drawnKey S.expand draw) (main S args ⟨t, []⟩).2.log ∧
      (Prepared files S cli t → Takes w room (files.tree t) (Text.bytes path) →
        ∃ config, .binding config ∈ (main S args ⟨t, []⟩).2.log) := by
  obtain ⟨report, hrun, rfl⟩ := main_keygen hkeygen
  obtain ⟨parent, leaf, canonical, key, st, hwritten⟩ :=
    (Keygen.ensures_run_written laws answers).of_ok hrun
  obtain ⟨key', before, hgenerated, rfl⟩ := ensures_run_report.of_ok hrun
  obtain rfl := Except.ok.inj (hgenerated.symm.trans hwritten.generated)
  obtain ⟨draw, hdraw, hloads, hfingerprint⟩ := generateHostKey_ok hgenerated
  have hprovides : ∀ u, files.Same t u → Takes w room (files.tree u) (Text.bytes path) →
      ∃ u', Provides S (some path) .secret (pemKey S) u (drawnKey S.expand draw) u' :=
    fun u hsame => provides_written laws answers reads hwritten hloads (hsame.trans hstatic)
  have hcommand := commandLine_of_parseCli hline
  have honly : ∀ config, Launches S args t config →
      config.hostKey = drawnKey S.expand draw := by
    rintro config ⟨cli', default, configFile, file, t₁, t₂, t₃, hline', -, hfile, hruntime, hkeys⟩
    cases hcommand.unique hline'
    obtain ⟨u₁, u₂, hhost, -⟩ := hkeys
    rw [resolve_hostKeyPath hpath] at hhost
    have hsame : files.Same t t₂ :=
      ((reads.buildRuntime _ _).of_ok hruntime).trans (hfile.same laws reads)
    obtain ⟨u', hprovided⟩ := hprovides t₂ hsame (hhost.takes answers)
    exact (hprovided.unique hhost).1
  have hready : Prepared files S cli t → Takes w room (files.tree t) (Text.bytes path) →
      ∃ config, Launches S args t config := by
    rintro ⟨default, configFile, file, t₁, t₂, hdefault, hfile, hruntime, hothers⟩ htakes
    have hsame : files.Same t t₂ :=
      ((reads.buildRuntime _ _).of_ok hruntime).trans (hfile.same laws reads)
    obtain ⟨u, hhost⟩ := hprovides t₂ hsame (hsame ▸ htakes)
    obtain ⟨keys, u₁, cas, u₂, hkeys, hcas⟩ := hothers u ((hhost.same laws reads).trans hsame)
    generalize hresolved : resolve cli file default (ttyDefault S) = resolved at *
    refine ⟨⟨resolved.listen, resolved.handshakeTimeout, drawnKey S.expand draw, keys, cas,
      .bsiDefaults resolved.handshakeTimeout, resolved.limits, S.helper⟩,
      cli, default, configFile, file, t₁, t₂, u₂, hcommand, hdefault, hfile, ?_, u, u₁, ?_⟩
    · rw [hresolved]
      exact hruntime
    · rw [hresolved, ← hresolved, resolve_hostKeyPath hpath, hresolved]
      exact ⟨hhost, hkeys, hcas, rfl, rfl, rfl, rfl, rfl⟩
  refine ⟨draw, before, hdraw, by rw [hfingerprint], ?_⟩
  have hends : ∀ {exit} {log : List (Event S.sigs A)}, Outcome S args t exit log →
      ServesKey S (drawnKey S.expand draw) log ∧
        (Prepared files S cli t → Takes w room (files.tree t) (Text.bytes path) →
          ∃ config, .binding config ∈ log) := by
    intro exit log houtcome
    refine ⟨houtcome.failsClosed.servesKey honly, fun hprepared htakes => ?_⟩
    obtain ⟨config, hlaunches⟩ := hready hprepared htakes
    exact ⟨config, (houtcome.failsClosed.binds config).2 hlaunches⟩
  exact ensures_state ((main_outcome S args t).mono (fun _ _ => hends) fun _ _ => hends)


/-! ### A first start -/

/-- `String::from_utf8`. -/
def decodeUtf8 (b : Bytes) : Option Text := (b.toByteArray.utf8Decode?).map Array.toList

theorem decodeUtf8_bytes (t : Text) : decodeUtf8 (Text.bytes t) = some t := by
  have hencode : (Text.bytes t).toByteArray = t.utf8Encode := rfl
  rw [decodeUtf8, hencode, List.utf8Decode?_utf8Encode]
  rfl

/-- An `authorized_keys` file with one key. -/
def oneKey : Text :=
  "ssh-ed25519 AAAAC3NzaC1lZDI1NTE5AAAAIAkJCQkJCQkJCQkJCQkJCQkJCQkJCQkJCQkJCQkJCQkJ".toList

/-- A root directory of mode 0755 with an `authorized_keys` file. -/
def keysTree : Tree where
  node p :=
    if p = [] then some (.dir ⟨0o40755, 0⟩)
    else if p = [[0x61]] then some (.file ⟨0o100644, 0⟩ (Text.bytes oneKey))
    else none
  root := ⟨_, rfl⟩
  parent p c h := by
    rw [if_neg (by simp)] at h
    split_ifs at h with hplace
    · obtain ⟨rfl, -⟩ : p = [] ∧ [c] = [[0x61]] := List.append_inj' hplace rfl
      exact ⟨_, if_pos rfl⟩
    · exact absurd rfl h
  proper p c h := by
    rw [if_neg (by simp)] at h
    split_ifs at h with hplace
    · obtain ⟨-, hname⟩ : p = [] ∧ [c] = [[0x61]] := List.append_inj' hplace rfl
      cases hname
      decide
    · exact absurd rfl h

/-- The text of a file. -/
def textAt (t : Tree) (place : Place) : Option Text :=
  match t.node place with
  | some (.file _ content) => decodeUtf8 content
  | _ => none

theorem textAt_eq {t : Tree} {place : Place} {st : Stat} {text : Text}
    (h : t.node place = some (.file st (Text.bytes text))) : textAt t place = some text := by
  unfold textAt
  rw [h]
  exact decodeUtf8_bytes text

/-- A process of root whose files are a tree. -/
def treeSystem : System Tree Place Place Keygen.Errno Unit where
  toKernel := Keygen.treeKernel Keygen.rootWalker 0o022 0
  readToString place := Keygen.onTree fun t => Keygen.found (textAt t place)
  parseAddr _ := .ok ()
  showAddr _ := defaultListen
  toml _ := .error ⟨[], none⟩
  version := []
  terminal := false
  sigs :=
    { sha256 := fun _ => List.replicate 32 0
      sha512 := fun _ => List.replicate 64 0
      ed25519Valid := fun _ => true
      ed25519Weak := fun _ => false
      verifyStrict := fun _ _ _ => false
      mldsaVerify := fun _ _ _ _ => false }
  expand _ := ⟨List.replicate Composite.publicLen 5, List.length_replicate⟩
  lossy _ := ""
  helper := none
  draw := some ⟨List.replicate 68 9, List.length_replicate⟩
  buildRuntime _ := pure ()
  bind _ := pure ()
  serve _ := pure ()

theorem reads_treeSystem : Reads Keygen.treeFiles Keygen.rootWalker treeSystem where
  readToString place t := by simp [treeSystem, Files.Same]
  buildRuntime threads t := rfl
  text place t st text h _ _ _ _ := by
    have htext : textAt t place = some text := textAt_eq h
    simp [treeSystem, htext]

/-- `quantumssh keygen k`. -/
def firstKeygen : Except Exit Exit × World Tree treeSystem.sigs Unit :=
  main treeSystem ["keygen".toList, "k".toList] ⟨keysTree, []⟩

/-- A start with the key. -/
def firstArgs : List Text :=
  ["--host-key".toList, "k".toList, "--authorized-keys".toList, "a".toList]

def firstCli : Cli Unit := ⟨none, none, some "k".toList, some "a".toList, none, none⟩

theorem prepared_first : Prepared Keygen.treeFiles treeSystem firstCli firstKeygen.2.sys := by
  refine ⟨(), [], none, firstKeygen.2.sys, firstKeygen.2.sys, rfl, .inl ⟨rfl, rfl, rfl, rfl⟩, rfl,
    fun t hsame => ?_⟩
  obtain rfl : firstKeygen.2.sys = t := hsame.symm
  have hnode : firstKeygen.2.sys.node [[0x61]] = some (.file ⟨0o100644, 0⟩ (Text.bytes oneKey)) := rfl
  have hread : treeSystem.readToString [[0x61]] firstKeygen.2.sys =
      (.ok oneKey, firstKeygen.2.sys) := by
    change Keygen.found (textAt firstKeygen.2.sys [[0x61]]) firstKeygen.2.sys = _
    rw [textAt_eq hnode]
    rfl
  have hcheck : Keygen.checkTrustedFile treeSystem.toKernel (Text.bytes "a".toList) .input
    firstKeygen.2.sys = (.ok [[0x61]], firstKeygen.2.sys) := rfl
  have hkeys : (Auth.AuthorizedKeys.parse treeSystem.sigs oneKey).toOption.isSome = true := by
    decide +kernel
  obtain ⟨keys, hparse⟩ := Option.isSome_iff_exists.1 hkeys
  exact ⟨keys, _, none, _, ⟨_, _, oneKey, rfl,
    ⟨_, checkTrustedFile_ok.1 hcheck, hread⟩, hparse⟩,
    .inl ⟨rfl, rfl, rfl⟩⟩

theorem new_key_starts_first : ∃ draw config, treeSystem.draw = some draw ∧
    .binding config ∈ (main treeSystem firstArgs ⟨firstKeygen.2.sys, []⟩).2.log ∧
    config.hostKey = drawnKey treeSystem.expand draw := by
  have laws : Keygen.treeFiles.Lawful treeSystem.toKernel := Keygen.treeFiles_lawful
  have answers : Keygen.treeFiles.Answers Keygen.rootWalker
      (Keygen.Fits Keygen.rootWalker) treeSystem.toKernel :=
    Keygen.treeFiles_answers
  have hkeygen : firstKeygen = (.ok .success, ⟨firstKeygen.2.sys, firstKeygen.2.log⟩) := rfl
  have hstatic : Keygen.treeFiles.Same firstKeygen.2.sys firstKeygen.2.sys := rfl
  have hline : parseCli treeSystem.parseAddr treeSystem.version firstArgs = .ok (.run firstCli) :=
    rfl
  obtain ⟨draw, before, hdraw, -, hserves, hbinds⟩ :=
    new_key_starts laws answers reads_treeSystem hkeygen hstatic hline rfl
  have htakes : Takes Keygen.rootWalker (Keygen.Fits Keygen.rootWalker) firstKeygen.2.sys
      (Text.bytes "k".toList) := by
    have hplace : firstKeygen.2.sys.realpath Keygen.rootWalker (Text.bytes "k".toList) =
        some [[0x6b]] := rfl
    refine ⟨by decide +kernel, fun p hp => ?_⟩
    obtain rfl := Option.some.inj (hplace.symm.trans hp)
    decide
  obtain ⟨config, hmem⟩ := hbinds prepared_first htakes
  exact ⟨draw, config, hdraw, hmem, hserves.bound config hmem⟩

end QuantumSsh.Startup
