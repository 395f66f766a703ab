import QuantumSsh.Startup.Launch

/-!
# What a start does, seen from outside

The guarantees of a start, whatever the command line and the files are: read off the ways it
can go.
-/

namespace QuantumSsh.Startup

open Machine (u32Max)

variable {κ D F E A : Type} {S : System κ D F E A}

/-! ### The configuration is unique and sane -/

theorem Assembled.unique {resolved : Resolved A} {s s₁ s₂ : κ} {config config' : Config S.sigs A}
    (h : Assembled S resolved s config s₁) (h' : Assembled S resolved s config' s₂) :
    config' = config := by
  obtain ⟨t₁, t₂, hhost, hkeys, hcas, hlisten, htimeout, hrekey, hlimits, hhelper⟩ := h
  obtain ⟨u₁, u₂, hhost', hkeys', hcas', hlisten', htimeout', hrekey', hlimits', hhelper'⟩ := h'
  obtain ⟨ehost, rfl⟩ := hhost.unique hhost'
  obtain ⟨ekeys, rfl⟩ := hkeys.unique hkeys'
  obtain ⟨ecas, -⟩ := hcas.unique hcas'
  cases config
  cases config'
  simp only at *
  simp only [ehost, ekeys, ecas, hlisten, htimeout, hrekey, hlimits, hhelper, hlisten', htimeout',
    hrekey', hlimits', hhelper']

theorem Launches.unique {args : List Text} {s : κ} {config config' : Config S.sigs A}
    (h : Launches S args s config) (h' : Launches S args s config') : config' = config := by
  obtain ⟨cli, default, configFile, file, s₁, s₂, s₃, hline, hdefault, hfile, hruntime, hkeys⟩ := h
  obtain ⟨cli', default', configFile', file', t₁, t₂, t₃, hline', hdefault', hfile', hruntime',
    hkeys'⟩ := h'
  cases hline.unique hline'
  obtain rfl := Except.ok.inj (hdefault'.symm.trans hdefault)
  obtain ⟨rfl, rfl⟩ := hfile.unique hfile'
  cases hruntime'.symm.trans hruntime
  exact hkeys.unique hkeys'

/-- An integer that the file sets, or the default, is in the range of the file. -/
theorem ConfigFile.InRange.getD {file : ConfigFile A} (h : file.InRange) {i default : ℕ}
    {v : Option ℕ} {key : Text} (hmem : file.integers[i]? = some (v, key))
    (hdefault : 1 ≤ default ∧ default < 2 ^ 63) : 1 ≤ v.getD default ∧ v.getD default < 2 ^ 63 := by
  cases v with
  | none => exact hdefault
  | some n => exact h.integers _ _ n (List.mem_of_getElem? hmem) rfl

theorem getD_le_u32Max (v : Option UInt32) {default : ℕ} (hdefault : default ≤ u32Max) :
    (v.map UInt32.toNat).getD default ≤ u32Max := by
  cases v with
  | none => exact hdefault
  | some n =>
    have hlt := n.toNat_lt
    simp only [Option.map_some, Option.getD_some, u32Max]
    omega

/-- The merged limits are those that the admission control expects. -/
theorem resolve_limits_admitted {cli : Cli A} {file : Option (ConfigFile A)} {default : A}
    {tty : LogFormat} (h : ∀ f, file = some f → f.InRange) :
    (resolve cli file default tty).limits.Admitted := by
  cases file with
  | none =>
    change Admission.Limits.default.Admitted
    decide
  | some f =>
    have hget {i default : ℕ} {v : Option ℕ} {key : Text}
        (hmem : f.integers[i]? = some (v, key)) (hdefault : 1 ≤ default ∧ default < 2 ^ 63) :
        1 ≤ v.getD default ∧ v.getD default ≤ 2 ^ 63 - 1 := by
      have hrange := (h f rfl).getD hmem hdefault
      omega
    constructor
    · exact hget (i := 2) rfl (by decide)
    · exact hget (i := 3) rfl (by decide)
    · exact hget (i := 4) rfl (by decide)
    · exact ⟨(hget (i := 5) rfl (by decide)).1, getD_le_u32Max f.limits.acceptRate (by decide)⟩
    · exact ⟨(hget (i := 6) rfl (by decide)).1, getD_le_u32Max f.limits.acceptBurst (by decide)⟩

theorem fromSecs_mono {m n : ℕ} (h : m ≤ n) : fromSecs m ≤ fromSecs n :=
  Nat.mul_le_mul_right 1000000000 h

/-- The merged time limit is at least a second. -/
theorem resolve_handshakeTimeout {cli : Cli A} {file : Option (ConfigFile A)} {default : A}
    {tty : LogFormat} (hcli : ∀ secs, cli.handshakeTimeout = some secs → 1 ≤ secs)
    (h : ∀ f, file = some f → f.InRange) :
    fromSecs 1 ≤ (resolve cli file default tty).handshakeTimeout := by
  have hdefault : fromSecs 1 ≤ fromSecs defaultHandshakeTimeoutSecs := fromSecs_mono (by decide)
  have hfile : ∀ secs,
      (file.map ConfigFile.server).bind ServerSection.handshakeTimeout = some secs →
      1 ≤ secs.toNat := by
    intro secs hsecs
    obtain ⟨server, hserver, hset⟩ := Option.bind_eq_some_iff.1 hsecs
    obtain ⟨f, rfl, rfl⟩ := Option.map_eq_some_iff.1 hserver
    refine ((h f rfl).integers (some secs.toNat) "server.handshake_timeout".toList secs.toNat
      (List.mem_of_getElem? (i := 0) ?_) rfl).1
    rw [ConfigFile.integers, hset]
    rfl
  simp only [resolve, pick]
  cases hsecs : cli.handshakeTimeout with
  | some secs =>
    simp only [Option.map_some, Option.some_or, Option.getD_some]
    exact fromSecs_mono (hcli secs hsecs)
  | none =>
    rw [Option.map_none, Option.none_or]
    cases hset : (file.map ConfigFile.server).bind ServerSection.handshakeTimeout with
    | none => exact hdefault
    | some secs =>
      simp only [Option.map_some, Option.getD_some]
      exact fromSecs_mono (hfile secs hset)

theorem Launches.sane {args : List Text} {s : κ} {config : Config S.sigs A}
    (h : Launches S args s config) :
    config.limits.Admitted ∧ fromSecs 1 ≤ config.handshakeTimeout := by
  obtain ⟨cli, default, configFile, file, s₁, s₂, s₃, hline, -, hfile, -, hkeys⟩ := h
  obtain ⟨t₁, t₂, -, -, -, -, htimeout, -, hlimits, -⟩ := hkeys
  have hrange : ∀ f, file = some f → f.InRange := by
    rintro f rfl
    obtain ⟨-, -, hnone, -⟩ | ⟨_, _, _, f', -, -, -, hrange, -, hsome⟩ := hfile
    · cases hnone
    · cases hsome
      exact hrange
  rw [hlimits, htimeout]
  exact ⟨resolve_limits_admitted hrange,
    resolve_handshakeTimeout (fun secs hsecs => hline.handshakeTimeout hsecs) hrange⟩

/-! ### The guarantees -/

/-- The listener is asked for. -/
def Event.isBinding {sigs : Signatures} : Event sigs A → Bool
  | .binding _ => true
  | _ => false

/-- What holds of a start, by its exit and what it did. -/
structure FailsClosed (S : System κ D F E A) (args : List Text) (s : κ) (exit : Exit)
    (log : List (Event S.sigs A)) : Prop where
  /-- The listener is asked for exactly with the configuration that the command line and the
  files make. -/
  binds : ∀ config, .binding config ∈ log ↔ Launches S args s config
  once : log.countP Event.isBinding ≤ 1
  /-- Its limits are positive, and so is the time that a client has. -/
  sane : ∀ config, .binding config ∈ log →
    config.limits.Admitted ∧ fromSecs 1 ≤ config.handshakeTimeout
  /-- A file is read only right behind its check. -/
  guarded : Guarded log
  /-- A failure is reported once, by the last event. -/
  reports : exit = .failure →
    ∃ before e, log = before ++ [e] ∧ e.isError = true ∧ ∀ e ∈ before, e.isError = false
  silent : exit = .success → ∀ e ∈ log, e.isError = false
  /-- The start is announced behind the listener, under the key it has. -/
  started : ∀ before addr fingerprint configFile after,
    log = before ++ .started addr fingerprint configFile :: after →
      ∃ config, before.getLast? = some (.binding config) ∧
        fingerprint = config.hostKey.fingerprint S.sigs
  /-- Readiness is announced behind the start. -/
  ready : ∀ before after, log = before ++ .ready :: after →
    ∃ addr fingerprint configFile,
      before.getLast? = some (.started addr fingerprint configFile)

theorem Event.isError_of_isCalm {sigs : Signatures} {e : Event sigs A} (h : e.isCalm = true) :
    e.isError = false ∧ e.isBinding = false := by
  cases e <;> first | exact ⟨rfl, rfl⟩ | cases h

/-- What is not calm stands behind the calm events. -/
theorem split_calm {sigs : Signatures} {calm rest before after : List (Event sigs A)}
    {e : Event sigs A} (hcalm : ∀ e ∈ calm, e.isCalm = true) (he : e.isCalm = false)
    (h : calm ++ rest = before ++ e :: after) :
    ∃ mid, before = calm ++ mid ∧ rest = mid ++ e :: after := by
  obtain ⟨mid, hbefore, hrest⟩ | ⟨mid, hcalm', hrest⟩ := List.append_eq_append_iff.1 h
  · exact ⟨mid, hbefore, hrest⟩
  · cases mid with
    | nil =>
      rw [List.append_nil] at hcalm'
      exact ⟨[], by rw [hcalm', List.append_nil], hrest.symm⟩
    | cons e' mid =>
      rw [List.cons_append, List.cons.injEq] at hrest
      obtain ⟨rfl, -⟩ := hrest
      have hmem := hcalm e (by simp [hcalm'])
      rw [he] at hmem
      cases hmem

section

variable {args : List Text} {s : κ} {exit : Exit} {before log : List (Event S.sigs A)}

/-- Calm events and one more that is neither the listener nor behind it. -/
theorem FailsClosed.of_calm {e : Event S.sigs A} (hcalm : ∀ e ∈ before, e.isCalm = true)
    (hguarded : Guarded before) (hnone : ∀ config, ¬Launches S args s config)
    (herror : exit = .failure ↔ e.isError = true)
    (he : (∃ text, e = .printed text) ∨ e.isError = true) :
    FailsClosed S args s exit (before ++ [e]) := by
  have hbinding : e.isBinding = false := by
    obtain ⟨text, rfl⟩ | he := he
    · rfl
    · cases e <;> first | rfl | cases he
  have hbefore : ∀ e ∈ before, e.isError = false := fun e he => (e.isError_of_isCalm (hcalm e he)).1
  have hlate : ∀ {b late after}, late.isCalm = false → before ++ [e] = b ++ late :: after →
      late = e := by
    intro b late after hnot hsplit
    obtain ⟨mid, -, hmid⟩ := split_calm hcalm hnot hsplit
    have hmem : late ∈ [e] := hmid ▸ List.mem_append_right _ List.mem_cons_self
    exact List.mem_singleton.1 hmem
  have hunbound : ∀ config, .binding config ∉ before ++ [e] := by
    intro config hmem
    obtain ⟨b, after, hsplit⟩ := List.append_of_mem hmem
    obtain rfl := hlate rfl hsplit
    cases hbinding
  constructor
  case binds => exact fun config => iff_of_false (hunbound config) (hnone config)
  case once =>
    rw [List.countP_append, List.countP_eq_zero.2 fun e he => by
      rw [(e.isError_of_isCalm (hcalm e he)).2]
      exact Bool.false_ne_true]
    simp [hbinding]
  case sane => exact fun config hmem => absurd hmem (hunbound config)
  case guarded =>
    refine hguarded.append (guarded_of_unread fun canon hmem => ?_)
    obtain rfl := List.mem_singleton.1 hmem
    obtain ⟨text, he⟩ | he := he <;> cases he
  case reports => exact fun hexit => ⟨before, e, rfl, herror.1 hexit, hbefore⟩
  case silent =>
    rintro rfl e' hmem
    obtain hmem | hmem := List.mem_append.1 hmem
    · exact hbefore e' hmem
    · obtain rfl := List.mem_singleton.1 hmem
      exact Bool.eq_false_iff.2 fun h => by cases herror.2 h
  case started =>
    intro b addr fingerprint configFile after hsplit
    obtain rfl := hlate rfl hsplit
    obtain ⟨text, he⟩ | he := he <;> cases he
  case ready =>
    intro b after hsplit
    obtain rfl := hlate rfl hsplit
    obtain ⟨text, he⟩ | he := he <;> cases he

/-- What is behind the listener: neither it nor a file, and an error only at the end. -/
theorem Ending.plain {config : Config S.sigs A} {after : List (Event S.sigs A)}
    (h : Ending S config exit after) :
    (∀ e ∈ after, e.isBinding = false) ∧ ∀ canon, .read canon ∉ after := by
  cases h with
  | unbound | served | broken => simp [Event.isBinding]

theorem Ending.reports {config : Config S.sigs A} {after : List (Event S.sigs A)}
    (h : Ending S config exit after) :
    (exit = .failure → ∃ b e, after = b ++ [e] ∧ e.isError = true ∧ ∀ e ∈ b, e.isError = false) ∧
      (exit = .success → ∀ e ∈ after, e.isError = false) := by
  cases h with
  | unbound name detail configFile =>
    exact ⟨fun _ => ⟨[], _, rfl, rfl, by simp⟩, fun hexit => by cases hexit⟩
  | served addr configFile =>
    exact ⟨fun hexit => (by cases hexit), fun _ => by simp [Event.isError]⟩
  | broken addr name detail configFile =>
    exact ⟨fun _ => ⟨[_, _], _, rfl, rfl, by simp [Event.isError]⟩, fun hexit => by cases hexit⟩

theorem Ending.shape {config : Config S.sigs A} {after : List (Event S.sigs A)}
    (h : Ending S config exit after) : ∃ errors, (∀ e ∈ errors, e.isError = true) ∧
      (after = errors ∨ ∃ addr configFile, after =
        .started addr (config.hostKey.fingerprint S.sigs) configFile :: .ready :: errors) := by
  cases h with
  | unbound name detail configFile =>
    exact ⟨[.configError name detail configFile], by simp [Event.isError], .inl rfl⟩
  | served addr configFile => exact ⟨[], by simp, .inr ⟨addr, configFile, rfl⟩⟩
  | broken addr name detail configFile =>
    exact ⟨[.configError name detail configFile], by simp [Event.isError],
      .inr ⟨addr, configFile, rfl⟩⟩

/-- The start is announced first, and readiness second. -/
theorem Ending.announced {config : Config S.sigs A} {after b rest : List (Event S.sigs A)}
    {e : Event S.sigs A} (h : Ending S config exit after) (hsplit : after = b ++ e :: rest)
    (he : e.isError = false) :
    b = [] ∧ (∃ addr configFile,
        e = .started addr (config.hostKey.fingerprint S.sigs) configFile) ∨
      e = .ready ∧ ∃ addr configFile,
        b = [.started addr (config.hostKey.fingerprint S.sigs) configFile] := by
  obtain ⟨errors, herrors, rfl | ⟨addr, configFile, rfl⟩⟩ := h.shape
  · have hmem := herrors e (hsplit ▸ List.mem_append_right _ List.mem_cons_self)
    rw [he] at hmem
    cases hmem
  · cases b with
    | nil =>
      obtain ⟨rfl, -⟩ := List.cons.inj hsplit
      exact .inl ⟨rfl, addr, configFile, rfl⟩
    | cons first b =>
      rw [List.cons_append, List.cons.injEq] at hsplit
      obtain ⟨rfl, hsplit⟩ := hsplit
      cases b with
      | nil =>
        obtain ⟨rfl, -⟩ := List.cons.inj hsplit
        exact .inr ⟨rfl, addr, configFile, rfl⟩
      | cons second b =>
        rw [List.cons_append, List.cons.injEq] at hsplit
        have hsplit := hsplit.2
        have hmem := herrors e (hsplit ▸ List.mem_append_right _ List.mem_cons_self)
        rw [he] at hmem
        cases hmem

theorem FailsClosed.of_launched {config : Config S.sigs A} {after : List (Event S.sigs A)}
    (hlaunches : Launches S args s config) (hcalm : ∀ e ∈ before, e.isCalm = true)
    (hguarded : Guarded before) (hending : Ending S config exit after) :
    FailsClosed S args s exit (before ++ .binding config :: after) := by
  have hbefore : ∀ e ∈ before, e.isError = false := fun e he => (e.isError_of_isCalm (hcalm e he)).1
  obtain ⟨hplain, hunread⟩ := hending.plain
  obtain ⟨hfailure, hsuccess⟩ := hending.reports
  have hbinding : ∀ config', .binding config' ∈ before ++ .binding config :: after →
      config' = config := by
    intro config' hmem
    simp only [List.mem_append, List.mem_cons] at hmem
    obtain hmem | hmem | hmem := hmem
    · cases hcalm _ hmem
    · exact Event.binding.inj hmem
    · cases hplain _ hmem
  -- An announcement is behind the listener.
  have hlate : ∀ {b e rest}, e.isCalm = false → e.isBinding = false →
      before ++ .binding config :: after = b ++ e :: rest →
      ∃ mid, b = before ++ .binding config :: mid ∧ after = mid ++ e :: rest := by
    intro b e rest hnot hother hsplit
    obtain ⟨mid, rfl, hmid⟩ := split_calm hcalm hnot hsplit
    cases mid with
    | nil =>
      obtain ⟨rfl, -⟩ := List.cons.inj hmid
      cases hother
    | cons first mid =>
      rw [List.cons_append, List.cons.injEq] at hmid
      obtain ⟨rfl, hmid⟩ := hmid
      exact ⟨mid, rfl, hmid⟩
  constructor
  case binds =>
    refine fun config' => ⟨fun hmem => hbinding config' hmem ▸ hlaunches, fun h => ?_⟩
    rw [hlaunches.unique h]
    exact List.mem_append_right _ List.mem_cons_self
  case once =>
    have hcalm' : before.countP Event.isBinding = 0 := by
      refine List.countP_eq_zero.2 fun e he => ?_
      rw [(e.isError_of_isCalm (hcalm e he)).2]
      exact Bool.false_ne_true
    have hplain' : after.countP Event.isBinding = 0 := by
      refine List.countP_eq_zero.2 fun e he => ?_
      rw [hplain e he]
      exact Bool.false_ne_true
    rw [List.countP_append, List.countP_cons, hcalm', hplain']
    exact le_rfl
  case sane => exact fun config' hmem => hbinding config' hmem ▸ hlaunches.sane
  case guarded =>
    refine hguarded.append (guarded_of_unread fun canon hmem => ?_)
    obtain hmem | hmem := List.mem_cons.1 hmem
    · cases hmem
    · exact hunread canon hmem
  case reports =>
    intro hexit
    obtain ⟨b, e, rfl, he, hb⟩ := hfailure hexit
    refine ⟨before ++ .binding config :: b, e, by simp, he, List.forall_mem_append.2
      ⟨hbefore, List.forall_mem_cons.2 ⟨rfl, hb⟩⟩⟩
  case silent =>
    exact fun hexit => List.forall_mem_append.2
      ⟨hbefore, List.forall_mem_cons.2 ⟨rfl, hsuccess hexit⟩⟩
  case started =>
    intro b addr fingerprint configFile rest hsplit
    obtain ⟨mid, rfl, hmid⟩ := hlate rfl rfl hsplit
    obtain ⟨rfl, _, _, hstarted⟩ | ⟨hready, -⟩ := hending.announced hmid rfl
    · cases hstarted
      exact ⟨config, List.getLast?_concat, rfl⟩
    · cases hready
  case ready =>
    intro b rest hsplit
    obtain ⟨mid, rfl, hmid⟩ := hlate rfl rfl hsplit
    obtain ⟨-, _, _, hstarted⟩ | ⟨-, addr, configFile, rfl⟩ := hending.announced hmid rfl
    · cases hstarted
    · refine ⟨addr, config.hostKey.fingerprint S.sigs, configFile, ?_⟩
      rw [List.getLast?_append, List.getLast?_cons_cons]
      rfl

theorem Outcome.failsClosed (h : Outcome S args s exit log) : FailsClosed S args s exit log := by
  have hnil : ∀ e ∈ ([] : List (Event S.sigs A)), e.isCalm = true := by simp
  have hguarded : Guarded ([] : List (Event S.sigs A)) := guarded_of_unread (by simp)
  cases h with
  | printed text hnone =>
    exact FailsClosed.of_calm hnil hguarded hnone
      (iff_of_false (by rintro h; cases h) (by rintro h; cases h)) (.inl ⟨text, rfl⟩)
  | complained text hnone =>
    exact FailsClosed.of_calm hnil hguarded hnone (iff_of_true rfl rfl) (.inr rfl)
  | refused name detail configFile hcalm hguarded hnone =>
    exact .of_calm hcalm hguarded hnone (iff_of_true rfl rfl) (.inr rfl)
  | launched hlaunches hcalm hguarded hending => exact .of_launched hlaunches hcalm hguarded hending

end

/-- **A start fails closed**: whatever the arguments, the files and the failures of the system
are, the listener is asked for exactly with the configuration that they make, each file is read
right behind its check, and a start that does not serve says so once, as its last act. -/
theorem startup_fails_closed (S : System κ D F E A) (args : List Text) (s : κ) :
    (main S args).Ensures ⟨s, []⟩ (fun exit w' => FailsClosed S args s exit w'.log)
      fun exit w' => FailsClosed S args s exit w'.log :=
  (main_outcome S args s).mono (fun _ _ => Outcome.failsClosed) fun _ _ => Outcome.failsClosed

end QuantumSsh.Startup
