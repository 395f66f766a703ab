import QuantumSsh.Startup.Main

/-!
# A start fails closed

The listener is asked for exactly when the command line is in order, the configuration file
is trusted and within its ranges, and every key file is trusted and loads; only a file whose
check has just passed is read; and a start that fails says so once, as the last thing it does.
-/

namespace QuantumSsh.Startup

open Program FileTree
open Keygen (TrustedClass)
open Auth (AuthError AuthorizedKeys)

variable {κ D F E A : Type} {S : System κ D F E A}

/-! ### Trusted files -/

/-- The directories were asked for their modes, one after the other, and only their owners may
write to them. -/
inductive Walked (S : System κ D F E A) : List Place → κ → κ → Prop
  | nil (s : κ) : Walked S [] s s
  | cons {dir : Place} {dirs : List Place} {st : Stat} {s s₁ s' : κ}
      (hstat : S.stat dir s = (.ok st, s₁)) (hmode : st.mode &&& 0o022 = 0)
      (hrest : Walked S dirs s₁ s') : Walked S (dir :: dirs) s s'

/-- The file belongs to root or the process, and nobody else may change it or, if it is secret,
read it. -/
structure Private (euid : ℕ) (trusted : TrustedClass) (st : Stat) : Prop where
  unwritable : st.mode &&& 0o022 = 0
  owner : st.uid = 0 ∨ st.uid = euid
  unreadable : trusted = .secret → st.mode &&& 0o044 = 0

/-- The path leads to the file, which is private, as the directories above it are. -/
def Vetted (S : System κ D F E A) (path : Text) (trusted : TrustedClass) (canon : Place)
    (s s' : κ) : Prop :=
  ∃ st s₁ s₂, S.canonicalize (Text.bytes path) s = (.ok canon, s₁) ∧
    S.stat canon s₁ = (.ok st, s₂) ∧ Private S.geteuid trusted st ∧
    Walked S (Keygen.ancestors canon).tail s₂ s'

theorem fileViolation_eq_none {st : Stat} {euid : ℕ} {trusted : TrustedClass} :
    Keygen.fileViolation st.mode st.uid euid trusted = none ↔ Private euid trusted st := by
  unfold Keygen.fileViolation Keygen.writeOthers Keygen.readOthers
  constructor
  · intro h
    split_ifs at h with hwrite howner hread
    refine ⟨not_not.1 hwrite, ?_, fun hsecret => ?_⟩
    · by_contra hother
      exact howner (not_or.1 hother)
    · by_contra hmode
      exact hread ⟨hsecret, hmode⟩
  · intro h
    rw [if_neg (not_not.2 h.unwritable), if_neg (fun hne => h.owner.elim hne.1 hne.2),
      if_neg fun hne => hne.2 (h.unreadable hne.1)]

theorem ancestorViolation_eq_none {mode : ℕ} :
    Keygen.ancestorViolation mode = none ↔ mode &&& 0o022 = 0 := by
  unfold Keygen.ancestorViolation Keygen.writeOthers
  constructor
  · intro h
    split_ifs at h with hwrite
    exact not_not.1 hwrite
  · exact fun h => if_neg (not_not.2 h)

theorem walked_iff {dirs : List Place} {canon : Place} {s s' : κ} :
    forEach (fun dir => do
      let st ← Keygen.statOrUnavailable S.toKernel dir
      failWith ((Keygen.ancestorViolation st.mode).map fun violation =>
        Keygen.ConfigError.insecurePermissions (S.displayPath canon ++ ": ".toList ++ violation ++
          " at ".toList ++ S.displayPath dir))) dirs s = (.ok (), s') ↔ Walked S dirs s s' := by
  induction dirs generalizing s with
  | nil =>
    constructor
    · intro h
      cases h
      exact .nil _
    · intro h
      cases h
      rfl
  | cons dir dirs ih =>
    rw [forEach, bind_ok_iff]
    simp only [bind_ok_iff, Keygen.statOrUnavailable, mapError_ok_iff, failWith_ok_iff,
      Option.map_eq_none_iff, ancestorViolation_eq_none]
    constructor
    · rintro ⟨_, s₁, ⟨st, _, hstat, hmode, rfl⟩, hrest⟩
      exact .cons hstat hmode (ih.1 hrest)
    · intro h
      cases h with
      | cons hstat hmode hrest => exact ⟨(), _, ⟨_, _, hstat, hmode, rfl⟩, ih.2 hrest⟩

/-- The check passes exactly for the files that are vetted. -/
theorem checkTrustedFile_ok {path : Text} {trusted : TrustedClass} {canon : Place} {s s' : κ} :
    Keygen.checkTrustedFile S.toKernel (Text.bytes path) trusted s = (.ok canon, s') ↔
      Vetted S path trusted canon s s' := by
  unfold Keygen.checkTrustedFile Vetted
  simp only [bind_ok_iff, mapError_ok_iff, Keygen.statOrUnavailable, failWith_ok_iff,
    Option.map_eq_none_iff, fileViolation_eq_none]
  constructor
  · rintro ⟨canon', s₁, hcanon, st, s₂, hstat, _, _, ⟨hprivate, rfl⟩, _, _, hwalk, hreturn⟩
    cases hreturn
    exact ⟨st, s₁, _, hcanon, hstat, hprivate, walked_iff.1 hwalk⟩
  · rintro ⟨st, s₁, s₂, hcanon, hstat, hprivate, hwalk⟩
    exact ⟨canon, s₁, hcanon, st, s₂, hstat, (), s₂, ⟨hprivate, rfl⟩, (), s', walked_iff.2 hwalk,
      rfl⟩

theorem Vetted.unique {path : Text} {trusted : TrustedClass} {canon canon' : Place} {s s₁ s₂ : κ}
    (h : Vetted S path trusted canon s s₁) (h' : Vetted S path trusted canon' s s₂) :
    canon' = canon ∧ s₂ = s₁ := by
  have hrun := (checkTrustedFile_ok.2 h).symm.trans (checkTrustedFile_ok.2 h')
  cases hrun
  exact ⟨rfl, rfl⟩

/-- The file at the end of the path is vetted, and holds the text. -/
def Loaded (S : System κ D F E A) (path : Text) (trusted : TrustedClass) (canon : Place)
    (text : Text) (s s' : κ) : Prop :=
  ∃ s₁, Vetted S path trusted canon s s₁ ∧ S.readToString canon s₁ = (.ok text, s')

/-! ### What is recorded -/

/-- The file is checked or read. -/
def Event.isFile {sigs : Signatures} : Event sigs A → Bool
  | .checked _ _ _ | .read _ => true
  | _ => false

/-- Directly before each reading of a file its check has passed. -/
def Guarded {sigs : Signatures} (log : List (Event sigs A)) : Prop :=
  ∀ before canon after, log = before ++ .read canon :: after →
    ∃ path trusted, before.getLast? = some (.checked path trusted canon)

/-- Files were checked, and read behind their check. -/
structure Quiet {sigs : Signatures} (log : List (Event sigs A)) : Prop where
  guarded : Guarded log
  files : ∀ e ∈ log, e.isFile = true

theorem Guarded.append {sigs : Signatures} {log more : List (Event sigs A)} (h : Guarded log)
    (h' : Guarded more) : Guarded (log ++ more) := by
  intro before canon after hsplit
  obtain ⟨mid, rfl, hmore⟩ | ⟨mid, hlog, hafter⟩ := List.append_eq_append_iff.1 hsplit
  · obtain ⟨path, trusted, hlast⟩ := h' mid canon after hmore
    refine ⟨path, trusted, ?_⟩
    rw [List.getLast?_append, hlast]
    rfl
  · cases mid with
    | nil =>
      rw [List.nil_append] at hafter
      obtain ⟨path, trusted, hlast⟩ := h' [] canon after hafter.symm
      cases hlast
    | cons e mid =>
      rw [List.cons_append, List.cons.injEq] at hafter
      obtain ⟨rfl, -⟩ := hafter
      exact h before canon mid hlog

theorem guarded_of_unread {sigs : Signatures} {log : List (Event sigs A)}
    (h : ∀ canon, .read canon ∉ log) : Guarded log := by
  rintro before canon after rfl
  exact absurd (List.mem_append_right _ List.mem_cons_self) (h canon)

theorem Quiet.append {sigs : Signatures} {log more : List (Event sigs A)} (h : Quiet log)
    (h' : Quiet more) : Quiet (log ++ more) :=
  ⟨h.guarded.append h'.guarded, List.forall_mem_append.2 ⟨h.files, h'.files⟩⟩

theorem quiet_nil {sigs : Signatures} : Quiet ([] : List (Event sigs A)) :=
  ⟨guarded_of_unread (by simp), by simp⟩

theorem quiet_read {sigs : Signatures} (path : Text) (trusted : TrustedClass) (canon : Place) :
    Quiet ([.checked path trusted canon, .read canon] : List (Event sigs A)) := by
  refine ⟨fun before canon' after hsplit => ?_, by simp [Event.isFile]⟩
  cases before with
  | nil => cases hsplit
  | cons e before =>
    rw [List.cons_append, List.cons.injEq] at hsplit
    obtain ⟨rfl, hsplit⟩ := hsplit
    cases before with
    | nil =>
      cases hsplit
      exact ⟨path, trusted, rfl⟩
    | cons e before => simp at hsplit

/-! ### The keys -/

section

variable {w : World κ S.sigs A} {path configFile : Text} {trusted : TrustedClass} {K : Type}

@[simp] theorem ensures_call {ε α : Type} {p : Prog κ ε α}
    {ok : Except ε α → World κ S.sigs A → Prop} {err : Exit → World κ S.sigs A → Prop} :
    (S.call p).Ensures w ok err ↔ ok (p w.sys).1 ⟨(p w.sys).2, w.log⟩ := Iff.rfl

@[simp] theorem ensures_record {event : Event S.sigs A} {ok : Unit → World κ S.sigs A → Prop}
    {err : Exit → World κ S.sigs A → Prop} :
    (S.record event).Ensures w ok err ↔ ok () ⟨w.sys, w.log ++ [event]⟩ := Iff.rfl

@[simp] theorem ensures_configError {name detail : Text}
    {ok : Unit → World κ S.sigs A → Prop} {err : Exit → World κ S.sigs A → Prop} :
    (configError S name detail configFile).Ensures w ok err ↔
      ok () ⟨w.sys, w.log ++ [.configError name detail configFile]⟩ := Iff.rfl

@[simp] theorem ensures_refuse {α : Type} {ok : α → World κ S.sigs A → Prop}
    {err : Exit → World κ S.sigs A → Prop} :
    (refuse S).Ensures w ok err ↔ err .failure w := Iff.rfl

theorem ensures_checkTrustedFile {ok : Except ConfigError Place → World κ S.sigs A → Prop}
    {err : Exit → World κ S.sigs A → Prop}
    (hok : ∀ canon s', Vetted S path trusted canon w.sys s' →
      ok (.ok canon) ⟨s', w.log ++ [.checked path trusted canon]⟩)
    (herr : ∀ e s', (∀ canon s', ¬Vetted S path trusted canon w.sys s') →
      ok (.error e) ⟨s', w.log⟩) :
    (checkTrustedFile S path trusted).Ensures w ok err := by
  rw [checkTrustedFile, ensures_bind, ensures_call]
  rcases hrun : Keygen.checkTrustedFile S.toKernel (Text.bytes path) trusted w.sys
    with ⟨e | canon, s'⟩
  · refine herr (.ofCheck e) s' fun canon s₁ hvetted => ?_
    rw [checkTrustedFile_ok.2 hvetted] at hrun
    cases hrun
  · exact hok canon s' (checkTrustedFile_ok.1 hrun)

/-- What comes of a file that a key is to be read from. -/
inductive Fetched (S : System κ D F E A) (path : Text) (trusted : TrustedClass)
    (parse : Text → Option K) (configFile : Text) (w : World κ S.sigs A) :
    Option K → World κ S.sigs A → Prop
  | loaded {canon : Place} {text : Text} {key : K} {s' : κ}
      (hfile : Loaded S path trusted canon text w.sys s') (hkey : parse text = some key) :
      Fetched S path trusted parse configFile w (some key)
        ⟨s', w.log ++ [.checked path trusted canon, .read canon]⟩
  | refused {files : List (Event S.sigs A)} {name detail : Text} {s' : κ} (hfiles : Quiet files)
      (hfails : ∀ canon text s' key, Loaded S path trusted canon text w.sys s' →
        parse text ≠ some key) :
      Fetched S path trusted parse configFile w none
        ⟨s', w.log ++ files ++ [.configError name detail configFile]⟩

section

variable {parse : Text → Option K} {canon : Place} {s₁ s₂ : κ} {name detail text : Text}

theorem fetched_loaded {key : K} (hvetted : Vetted S path trusted canon w.sys s₁)
    (hread : S.readToString canon s₁ = (.ok text, s₂)) (hkey : parse text = some key) :
    Fetched S path trusted parse configFile w (some key)
      ⟨s₂, w.log ++ [.checked path trusted canon] ++ [.read canon]⟩ := by
  rw [List.append_assoc]
  exact .loaded ⟨s₁, hvetted, hread⟩ hkey

theorem fetched_unchecked (hfails : ∀ canon s', ¬Vetted S path trusted canon w.sys s') :
    Fetched S path trusted parse configFile w none
      ⟨s₂, w.log ++ [.configError name detail configFile]⟩ := by
  rw [← List.append_nil w.log]
  refine .refused quiet_nil fun canon text s' key hfile => ?_
  obtain ⟨s₁, hvetted, -⟩ := hfile
  exact absurd hvetted (hfails canon s₁)

/-- The file is vetted, and what is read from it is no key. -/
theorem fetched_unparsed {result : Except E Text} (hvetted : Vetted S path trusted canon w.sys s₁)
    (hread : S.readToString canon s₁ = (result, s₂))
    (hparse : ∀ text, result = .ok text → parse text = none) :
    Fetched S path trusted parse configFile w none
      ⟨s₂, w.log ++ [.checked path trusted canon] ++ [.read canon] ++
        [.configError name detail configFile]⟩ := by
  rw [List.append_assoc w.log]
  refine .refused (quiet_read path trusted canon) fun canon' text s' key hfile hkey => ?_
  obtain ⟨s₁', hvetted', hread'⟩ := hfile
  obtain ⟨rfl, rfl⟩ := hvetted.unique hvetted'
  obtain ⟨rfl, rfl⟩ := Prod.mk.inj (hread.symm.trans hread')
  rw [hparse text rfl] at hkey
  cases hkey

end

theorem loadHostKey_fetched : (loadHostKey S path configFile).Ensures w
    (Fetched S path .secret (fun pem => (HostKey.fromOpensshPem S.expand pem).toOption)
      configFile w) fun _ _ => False := by
  rw [loadHostKey, ensures_bind]
  refine ensures_checkTrustedFile (fun canon s₁ hvetted => ?_) fun e s₁ hfails =>
    fetched_unchecked hfails
  simp only [readToString, ensures_bind, ensures_record, ensures_call]
  rcases hread : S.readToString canon s₁ with ⟨e | pem, s₂⟩
  · exact fetched_unparsed hvetted hread fun text htext => by cases htext
  · dsimp only
    cases hkey : HostKey.fromOpensshPem S.expand pem with
    | error e =>
      refine fetched_unparsed hvetted hread fun text htext => ?_
      cases htext
      rw [hkey]
      rfl
    | ok key =>
      refine fetched_loaded hvetted hread ?_
      rw [hkey]
      rfl

theorem loadKeyFile_fetched {name : Text} {parse : Text → Except AuthError K} :
    (loadKeyFile S path name parse configFile).Ensures w
      (Fetched S path .input (fun content => (parse content).toOption) configFile w)
      fun _ _ => False := by
  rw [loadKeyFile, ensures_bind]
  refine ensures_checkTrustedFile (fun canon s₁ hvetted => ?_) fun e s₁ hfails =>
    fetched_unchecked hfails
  simp only [loadKeys, readToString, ensures_bind, ensures_record, ensures_call]
  rcases hread : S.readToString canon s₁ with ⟨e | content, s₂⟩
  · exact fetched_unparsed hvetted hread fun text htext => by cases htext
  · dsimp only
    cases hkeys : parse content with
    | error e =>
      refine fetched_unparsed hvetted hread fun text htext => ?_
      cases htext
      rw [hkeys]
      rfl
    | ok keys =>
      refine fetched_loaded hvetted hread ?_
      rw [hkeys]
      rfl

end

/-! ### The configuration -/

/-- The file at the path, which has to be given, holds this key. -/
def Provides {K : Type} (S : System κ D F E A) (path : Option Text) (trusted : TrustedClass)
    (parse : Text → Option K) (s : κ) (key : K) (s' : κ) : Prop :=
  ∃ p canon text, path = some p ∧ Loaded S p trusted canon text s s' ∧ parse text = some key

/-- The start is refused, for a reason that is given at the end. -/
def Refused (configFile : Text) (log : List (Event S.sigs A)) : Prop :=
  ∃ files name detail, Quiet files ∧ log = files ++ [.configError name detail configFile]

/-- The program finds what `P` asks for, or refuses the start when there is nothing such. -/
def Finds {α : Type} (configFile : Text) (p : Start S α) (w : World κ S.sigs A)
    (P : κ → α → κ → Prop) : Prop :=
  p.Ensures w
    (fun a w' => P w.sys a w'.sys ∧ ∃ files, Quiet files ∧ w'.log = w.log ++ files)
    fun exit w' => exit = .failure ∧ (∃ more, Refused configFile more ∧ w'.log = w.log ++ more) ∧
      ∀ a s', ¬P w.sys a s'

theorem Loaded.unique {path text text' : Text} {trusted : TrustedClass} {canon canon' : Place}
    {s s₁ s₂ : κ} (h : Loaded S path trusted canon text s s₁)
    (h' : Loaded S path trusted canon' text' s s₂) : text' = text ∧ s₂ = s₁ := by
  obtain ⟨t, hvetted, hread⟩ := h
  obtain ⟨t', hvetted', hread'⟩ := h'
  obtain ⟨rfl, rfl⟩ := hvetted.unique hvetted'
  obtain ⟨htext, hs⟩ := Prod.mk.inj (hread'.symm.trans hread)
  exact ⟨Except.ok.inj htext, hs⟩

section

variable {w : World κ S.sigs A} {configFile : Text} {K α β : Type} {s s₁ s₂ : κ}

theorem Provides.unique {path : Option Text} {trusted : TrustedClass} {parse : Text → Option K}
    {key key' : K} (h : Provides S path trusted parse s key s₁)
    (h' : Provides S path trusted parse s key' s₂) : key' = key ∧ s₂ = s₁ := by
  obtain ⟨p, canon, text, rfl, hload, hkey⟩ := h
  obtain ⟨p', canon', text', hpath, hload', hkey'⟩ := h'
  cases hpath
  obtain ⟨rfl, rfl⟩ := hload.unique hload'
  exact ⟨Option.some.inj (hkey'.symm.trans hkey), rfl⟩

theorem finds_pure (a : α) : Finds configFile (pure a : Start S α) w fun s b s' => b = a ∧ s' = s :=
  ⟨⟨rfl, rfl⟩, [], quiet_nil, (List.append_nil _).symm⟩

/-- One after the other, if what the first looks for is unique. -/
theorem Finds.bind {p : Start S α} {f : α → Start S β} {P : κ → α → κ → Prop}
    {Q : α → κ → β → κ → Prop} (hp : Finds configFile p w P)
    (hunique : ∀ s a a' s₁ s₂, P s a s₁ → P s a' s₂ → a' = a ∧ s₂ = s₁)
    (hf : ∀ a w₁, P w.sys a w₁.sys → Finds configFile (f a) w₁ (Q a)) :
    Finds configFile (p >>= f) w fun s b s' => ∃ a s₁, P s a s₁ ∧ Q a s₁ b s' := by
  unfold Finds
  rw [ensures_bind]
  refine hp.mono (fun a w₁ h₁ => ?_) fun exit w₁ h₁ => ?_
  · obtain ⟨hP, files, hfiles, hlog⟩ := h₁
    refine (hf a w₁ hP).mono (fun b w₂ h₂ => ?_) fun exit w₂ h₂ => ?_
    · obtain ⟨hQ, files', hfiles', hlog'⟩ := h₂
      refine ⟨⟨a, w₁.sys, hP, hQ⟩, files ++ files', hfiles.append hfiles', ?_⟩
      rw [hlog', hlog, List.append_assoc]
    · obtain ⟨hexit, ⟨more, hmore, hlog'⟩, hnone⟩ := h₂
      obtain ⟨files', name, detail, hfiles', rfl⟩ := hmore
      refine ⟨hexit, ⟨files ++ (files' ++ _), ⟨files ++ files', name, detail,
        hfiles.append hfiles', (List.append_assoc ..).symm⟩, ?_⟩, ?_⟩
      · rw [hlog', hlog, List.append_assoc]
      · rintro b s' ⟨a', s₁, hP', hQ⟩
        obtain ⟨rfl, rfl⟩ := hunique _ _ _ _ _ hP hP'
        exact hnone b s' hQ
  · obtain ⟨hexit, hmore, hnone⟩ := h₁
    exact ⟨hexit, hmore, fun b s' ⟨a, s₁, hP, _⟩ => hnone a s₁ hP⟩

/-- A file that was fetched, or not. -/
theorem finds_of_fetched {path : Text} {trusted : TrustedClass} {parse : Text → Option K}
    {p : Start S (Option K)} {f : Option K → Start S α} {g : K → α}
    (h : p.Ensures w (Fetched S path trusted parse configFile w) fun _ _ => False)
    (hsome : ∀ key, f (some key) = pure (g key)) (hnone : f none = refuse S) :
    Finds configFile (p >>= f) w fun s a s' =>
      ∃ key, a = g key ∧ Provides S (some path) trusted parse s key s' := by
  unfold Finds
  rw [ensures_bind]
  refine h.mono (fun result w₁ hfetched => ?_) fun _ _ h => h.elim
  cases hfetched with
  | @loaded canon text key s₁ hfile hkey =>
    rw [hsome]
    exact ⟨⟨key, rfl, path, canon, text, rfl, hfile, hkey⟩, _, quiet_read path trusted canon, rfl⟩
  | refused hfiles hfails =>
    rw [hnone]
    refine ⟨rfl, ⟨_, ⟨_, _, _, hfiles, rfl⟩, by rw [List.append_assoc]⟩, ?_⟩
    rintro a s' ⟨key, -, p', canon, text, hpath, hfile, hkey⟩
    cases hpath
    exact hfails canon text s' key hfile hkey

theorem Finds.congr {p : Start S α} {P Q : κ → α → κ → Prop} (h : Finds configFile p w P)
    (hiff : ∀ s a s', P s a s' ↔ Q s a s') : Finds configFile p w Q := by
  have hPQ : P = Q := funext fun s => funext fun a => funext fun s' => propext (hiff s a s')
  rwa [← hPQ]

/-- A path that is not given. -/
theorem finds_missing {trusted : TrustedClass} {parse : Text → Option K} (name detail : Text) :
    Finds configFile (do
      configError S name detail configFile
      refuse S) w (Provides S none trusted parse) := by
  refine ⟨rfl, ⟨_, ⟨[], name, detail, quiet_nil, rfl⟩, rfl⟩, ?_⟩
  rintro key s' ⟨p, canon, text, hpath, -⟩
  cases hpath

theorem requireHostKey_finds (path : Option Text) :
    Finds configFile (requireHostKey S path configFile) w
      (Provides S path .secret fun pem => (HostKey.fromOpensshPem S.expand pem).toOption) := by
  cases path with
  | none => exact finds_missing _ _
  | some path =>
    refine (finds_of_fetched loadHostKey_fetched (g := id) (fun _ => rfl) rfl).congr ?_
    intro s key s'
    exact exists_eq_left'

theorem requireAuthorizedKeys_finds (path : Option Text) :
    Finds configFile (requireAuthorizedKeys S path configFile) w
      (Provides S path .input fun content => (AuthorizedKeys.parse S.sigs content).toOption) := by
  cases path with
  | none => exact finds_missing _ _
  | some path =>
    refine (finds_of_fetched loadKeyFile_fetched (g := id) (fun _ => rfl) rfl).congr ?_
    intro s keys s'
    exact exists_eq_left'

/-- The CA keys, if a file is given for them. -/
def ProvidesCas (S : System κ D F E A) (path : Option Text) (s : κ)
    (cas : Option (Cert.TrustedUserCaKeys S.sigs)) (s' : κ) : Prop :=
  path = none ∧ cas = none ∧ s' = s ∨
    ∃ keys, cas = some keys ∧ Provides S path .input
      (fun content => (Cert.TrustedUserCaKeys.parse S.sigs content).toOption) s keys s'

theorem trustedUserCaKeys_finds (path : Option Text) :
    Finds configFile (trustedUserCaKeys S path configFile) w (ProvidesCas S path) := by
  cases path with
  | none =>
    refine (finds_pure none).congr fun s cas s' => ⟨fun h => .inl ⟨rfl, h⟩, ?_⟩
    rintro (h | ⟨keys, -, p, canon, text, hpath, -⟩)
    · exact h.2
    · cases hpath
  | some path =>
    refine Finds.congr (finds_of_fetched loadKeyFile_fetched (g := some) (fun _ => ?_) ?_)
      fun s cas s' => ?_
    rotate_left 2
    · refine ⟨.inr, ?_⟩
      rintro (⟨hpath, -⟩ | h)
      · cases hpath
      · exact h
    · rfl
    · rfl

/-- What the keys of the files and the merged settings make. -/
def Assembled (S : System κ D F E A) (resolved : Resolved A) (s : κ) (config : Config S.sigs A)
    (s' : κ) : Prop :=
  ∃ s₁ s₂, Provides S resolved.hostKeyPath .secret
      (fun pem => (HostKey.fromOpensshPem S.expand pem).toOption) s config.hostKey s₁ ∧
    Provides S resolved.authorizedKeysPath .input
      (fun content => (AuthorizedKeys.parse S.sigs content).toOption) s₁ config.authorizedKeys s₂ ∧
    ProvidesCas S resolved.trustedUserCaKeysPath s₂ config.trustedUserCaKeys s' ∧
    config.listen = resolved.listen ∧ config.handshakeTimeout = resolved.handshakeTimeout ∧
    config.rekey = .bsiDefaults resolved.handshakeTimeout ∧ config.limits = resolved.limits ∧
    config.helper = S.helper

theorem ProvidesCas.unique {path : Option Text} {cas cas' : Option (Cert.TrustedUserCaKeys S.sigs)}
    (h : ProvidesCas S path s cas s₁) (h' : ProvidesCas S path s cas' s₂) :
    cas' = cas ∧ s₂ = s₁ := by
  obtain ⟨rfl, rfl, rfl⟩ | ⟨keys, rfl, hkeys⟩ := h
  · obtain ⟨-, rfl, rfl⟩ | ⟨_, -, p, canon, text, hpath, -⟩ := h'
    · exact ⟨rfl, rfl⟩
    · cases hpath
  · obtain ⟨rfl, -⟩ | ⟨keys', rfl, hkeys'⟩ := h'
    · obtain ⟨p, canon, text, hpath, -⟩ := hkeys
      cases hpath
    · obtain ⟨rfl, rfl⟩ := hkeys.unique hkeys'
      exact ⟨rfl, rfl⟩

theorem assemble_finds (resolved : Resolved A) :
    Finds configFile (assemble S resolved configFile) w (Assembled S resolved) := by
  unfold assemble
  refine ((requireHostKey_finds _).bind (fun _ _ _ _ _ => Provides.unique) fun hostKey w₁ _ =>
    (requireAuthorizedKeys_finds _).bind (fun _ _ _ _ _ => Provides.unique) fun keys w₂ _ =>
      (trustedUserCaKeys_finds _).bind (fun _ _ _ _ _ => ProvidesCas.unique) fun cas w₃ _ =>
        finds_pure _).congr fun s config s' => ?_
  constructor
  · rintro ⟨hostKey, s₁, hhost, keys, s₂, hkeys, cas, s₃, hcas, rfl, rfl⟩
    exact ⟨s₁, s₂, hhost, hkeys, hcas, rfl, rfl, rfl, rfl, rfl⟩
  · rintro ⟨s₁, s₂, hhost, hkeys, hcas, hlisten, htimeout, hrekey, hlimits, hhelper⟩
    refine ⟨_, s₁, hhost, _, s₂, hkeys, _, s', hcas, ?_, rfl⟩
    cases config
    simp only at hlisten htimeout hrekey hlimits hhelper
    simp only [hlisten, htimeout, hrekey, hlimits, hhelper]

end

/-! ### The configuration file -/

/-- The configuration file that was asked for, and what it is called in the events. -/
def Configured (S : System κ D F E A) (path : Option Text) (s : κ) (configFile : Text)
    (file : Option (ConfigFile A)) (s' : κ) : Prop :=
  path = none ∧ configFile = [] ∧ file = none ∧ s' = s ∨
    ∃ p canon text f, path = some p ∧ Loaded S p .input canon text s s' ∧ S.toml text = .ok f ∧
      f.InRange ∧ configFile = S.displayPath canon ∧ file = some f

theorem Configured.unique {path : Option Text} {s s₁ s₂ : κ} {configFile configFile' : Text}
    {file file' : Option (ConfigFile A)} (h : Configured S path s configFile file s₁)
    (h' : Configured S path s configFile' file' s₂) : file' = file ∧ s₂ = s₁ := by
  obtain ⟨rfl, -, rfl, rfl⟩ | ⟨p, canon, text, f, rfl, hload, htoml, -, -, rfl⟩ := h
  · obtain ⟨-, -, rfl, rfl⟩ | ⟨_, _, _, _, hpath, -⟩ := h'
    · exact ⟨rfl, rfl⟩
    · cases hpath
  · obtain ⟨hpath, -⟩ | ⟨_, canon', text', f', hpath, hload', htoml', -, -, rfl⟩ := h'
    · cases hpath
    · cases hpath
      obtain ⟨rfl, rfl⟩ := hload.unique hload'
      obtain rfl := Except.ok.inj (htoml'.symm.trans htoml)
      exact ⟨rfl, rfl⟩

theorem loadConfigFile_ensures {cli : Cli A} {w : World κ S.sigs A} :
    (loadConfigFile S cli).Ensures w
      (fun result w' => (∃ files, Quiet files ∧ w'.log = w.log ++ files) ∧
        (∀ file, result.2 = .ok file → Configured S cli.configPath w.sys result.1 file w'.sys) ∧
        ∀ e, result.2 = .error e → ∀ configFile file s',
          ¬Configured S cli.configPath w.sys configFile file s')
      fun _ _ => False := by
  unfold loadConfigFile
  cases hpath : cli.configPath with
  | none =>
    refine ⟨⟨[], quiet_nil, (List.append_nil _).symm⟩, fun file hfile => ?_, fun e he => ?_⟩
    · cases hfile
      exact .inl ⟨rfl, rfl, rfl, rfl⟩
    · cases he
  | some path =>
    simp only [ensures_bind]
    refine ensures_checkTrustedFile (fun canon s₁ hvetted => ?_) fun e s₁ hfails => ?_
    · simp only [load, readToString, ensures_bind, ensures_record, ensures_call]
      have hlog : ∃ files, Quiet files ∧ w.log ++ [.checked path .input canon] ++ [.read canon] =
          w.log ++ files := ⟨_, quiet_read path .input canon, List.append_assoc ..⟩
      rcases hread : S.readToString canon s₁ with ⟨e | text, s₂⟩
      · refine ⟨hlog, (fun file hfile => by cases hfile), fun _ _ configFile file s' h => ?_⟩
        obtain ⟨hnone, -⟩ | ⟨p, canon', text', f, hp, ⟨s₁', hvetted', hread'⟩, -⟩ := h
        · cases hnone
        · cases hp
          obtain ⟨rfl, rfl⟩ := hvetted.unique hvetted'
          cases hread.symm.trans hread'
      · dsimp only
        cases hparse : parse S.toml text (S.displayPath canon) with
        | error e =>
          refine ⟨hlog, (fun file hfile => by cases hfile), fun _ _ configFile file s' h => ?_⟩
          obtain ⟨hnone, -⟩ | ⟨p, canon', text', f, hp, hload, htoml, hrange, -⟩ := h
          · cases hnone
          · cases hp
            obtain ⟨rfl, rfl⟩ := Loaded.unique ⟨s₁, hvetted, hread⟩ hload
            rw [parse_ok.2 ⟨htoml, hrange⟩] at hparse
            cases hparse
        | ok file =>
          obtain ⟨htoml, hrange⟩ := parse_ok.1 hparse
          refine ⟨hlog, fun file' hfile => ?_, fun e he => by cases he⟩
          cases hfile
          exact .inr ⟨path, canon, text, file, rfl, ⟨s₁, hvetted, hread⟩, htoml, hrange, rfl, rfl⟩
    · refine ⟨⟨[], quiet_nil, (List.append_nil _).symm⟩, (fun file hfile => by cases hfile),
        fun _ _ configFile file s' h => ?_⟩
      obtain ⟨hnone, -⟩ | ⟨p, canon', text', f, hp, ⟨s₁', hvetted', -⟩, -⟩ := h
      · cases hnone
      · cases hp
        exact hfails _ _ hvetted'

/-! ### The start -/

/-- The format that the logs have without a setting. -/
def ttyDefault (S : System κ D F E A) : LogFormat := if S.terminal then .human else .json

/-- All that a start asks for before the listener: a command line in order, a configuration file
that is trusted and within its ranges, a runtime, and the keys. -/
def Launches (S : System κ D F E A) (args : List Text) (s : κ) (config : Config S.sigs A) : Prop :=
  ∃ cli default configFile file s₁ s₂ s₃,
    CommandLine S.parseAddr S.version args (.ok (.run cli)) ∧
    S.parseAddr defaultListen = .ok default ∧
    Configured S cli.configPath s configFile file s₁ ∧
    S.buildRuntime (blockingThreads (resolve cli file default (ttyDefault S)).limits.maxConnections)
      s₁ = (.ok (), s₂) ∧
    Assembled S (resolve cli file default (ttyDefault S)) s₂ config s₃

/-- Nothing is bound, and nothing goes wrong. -/
def Event.isCalm {sigs : Signatures} : Event sigs A → Bool
  | .checked _ _ _ | .read _ | .logging _ | .configOverride _ => true
  | _ => false

/-- What goes wrong. -/
def Event.isError {sigs : Signatures} : Event sigs A → Bool
  | .complained _ | .configError _ _ _ => true
  | _ => false

/-- How a start goes on that has asked for the listener. -/
inductive Ending (S : System κ D F E A) (config : Config S.sigs A) :
    Exit → List (Event S.sigs A) → Prop
  | unbound (name detail configFile : Text) :
      Ending S config .failure [.configError name detail configFile]
  | served (addr : A) (configFile : Text) :
      Ending S config .success
        [.started addr (config.hostKey.fingerprint S.sigs) configFile, .ready]
  | broken (addr : A) (name detail configFile : Text) :
      Ending S config .failure
        [.started addr (config.hostKey.fingerprint S.sigs) configFile, .ready,
          .configError name detail configFile]

/-- The ways a start can go. -/
inductive Outcome (S : System κ D F E A) (args : List Text) (s : κ) :
    Exit → List (Event S.sigs A) → Prop
  | printed (text : Text) (hnone : ∀ config, ¬Launches S args s config) :
      Outcome S args s .success [.printed text]
  | complained (text : Text) (hnone : ∀ config, ¬Launches S args s config) :
      Outcome S args s .failure [.complained text]
  | refused {before : List (Event S.sigs A)} (name detail configFile : Text)
      (hcalm : ∀ e ∈ before, e.isCalm = true) (hguarded : Guarded before)
      (hnone : ∀ config, ¬Launches S args s config) :
      Outcome S args s .failure (before ++ [.configError name detail configFile])
  | launched {before after : List (Event S.sigs A)} {config : Config S.sigs A} {exit : Exit}
      (hlaunches : Launches S args s config) (hcalm : ∀ e ∈ before, e.isCalm = true)
      (hguarded : Guarded before) (hending : Ending S config exit after) :
      Outcome S args s exit (before ++ .binding config :: after)

theorem run_ensures {resolved : Resolved A} {configFile : Text} {w : World κ S.sigs A} :
    (run S resolved configFile).Ensures w
      (fun exit w' => ∃ files config s' after, Quiet files ∧
        Assembled S resolved w.sys config s' ∧ Ending S config exit after ∧
        w'.log = w.log ++ files ++ .binding config :: after)
      fun exit w' => exit = .failure ∧ (∃ more, Refused configFile more ∧ w'.log = w.log ++ more) ∧
        ∀ config s', ¬Assembled S resolved w.sys config s' := by
  unfold run
  rw [ensures_bind]
  refine (assemble_finds resolved).mono (fun config w₁ h₁ => ?_) fun _ _ h => h
  obtain ⟨hassembled, files, hfiles, hlog⟩ := h₁
  simp only [ensures_bind, ensures_record, ensures_call]
  rcases S.bind config.listen w₁.sys with ⟨e | addr, s₂⟩
  · refine ⟨files, config, w₁.sys, _, hfiles, hassembled, .unbound "bind_failed".toList
      ("cannot bind ".toList ++ S.showAddr resolved.listen ++ ": ".toList ++ S.errorText e)
      configFile, ?_⟩
    rw [← hlog]
    exact List.append_assoc ..
  · simp only [ensures_bind, ensures_record, ensures_call]
    rcases S.serve config s₂ with ⟨e | _, s₃⟩
    · refine ⟨files, config, w₁.sys, _, hfiles, hassembled, .broken addr
      "listener_failed".toList ("accept loop failed: ".toList ++ S.errorText e) configFile, ?_⟩
      rw [← hlog]
      simp only [List.append_assoc, List.cons_append, List.nil_append]
    · refine ⟨files, config, w₁.sys, _, hfiles, hassembled, .served addr
      configFile, ?_⟩
      rw [← hlog]
      simp only [List.append_assoc, List.cons_append, List.nil_append]

theorem Event.isCalm_of_isFile {sigs : Signatures} {e : Event sigs A} (h : e.isFile = true) :
    e.isCalm = true := by
  cases e <;> first | rfl | cases h

/-- Settings of the log, and files behind them. -/
theorem guarded_logging {sigs : Signatures} (format : LogFormat) (keys : List Text) :
    Guarded (.logging format :: keys.map .configOverride : List (Event sigs A)) := by
  refine guarded_of_unread fun canon hmem => ?_
  simp at hmem

theorem ensures_overrides {keys : List Text} {w : World κ S.sigs A}
    {ok : Unit → World κ S.sigs A → Prop} {err : Exit → World κ S.sigs A → Prop} :
    (forEach (fun key => S.record (.configOverride key)) keys).Ensures w ok err ↔
      ok () ⟨w.sys, w.log ++ keys.map .configOverride⟩ := by
  induction keys generalizing w with
  | nil => simp only [forEach, ensures_pure, List.map_nil, List.append_nil]
  | cons key keys ih =>
    simp only [forEach, ensures_bind, ensures_record, ih, List.map_cons, List.append_assoc,
      List.singleton_append]

theorem CommandLine.unique {args : List Text} {r r' : Except Text (CliOutcome A)}
    (h : CommandLine S.parseAddr S.version args r)
    (h' : CommandLine S.parseAddr S.version args r') : r' = r :=
  (parseCli_of_commandLine h').symm.trans (parseCli_of_commandLine h)

theorem serveMain_outcome {args : List Text} {cli : Cli A} {s : κ}
    (hline : CommandLine S.parseAddr S.version args (.ok (.run cli))) :
    (serveMain S cli).Ensures ⟨s, []⟩ (fun exit w' => Outcome S args s exit w'.log)
      fun exit w' => Outcome S args s exit w'.log := by
  have hlaunches : ∀ {config}, Launches S args s config → ∃ default configFile file s₁ s₂ s₃,
      S.parseAddr defaultListen = .ok default ∧ Configured S cli.configPath s configFile file s₁ ∧
      S.buildRuntime
        (blockingThreads (resolve cli file default (ttyDefault S)).limits.maxConnections) s₁ =
          (.ok (), s₂) ∧
      Assembled S (resolve cli file default (ttyDefault S)) s₂ config s₃ := by
    rintro config ⟨cli', default, configFile, file, s₁, s₂, s₃, hline', hrest⟩
    cases hline.unique hline'
    exact ⟨default, configFile, file, s₁, s₂, s₃, hrest⟩
  unfold serveMain
  cases hdefault : S.parseAddr defaultListen with
  | error e =>
    refine .complained _ fun config h => ?_
    obtain ⟨default, _, _, _, _, _, hok, -⟩ := hlaunches h
    cases hdefault.symm.trans hok
  | ok default =>
    simp only [ensures_bind, ensures_pure]
    refine loadConfigFile_ensures.mono (fun result w₁ h₁ => ?_) fun _ _ h => h.elim
    obtain ⟨configFile, loaded⟩ := result
    obtain ⟨⟨files, hfiles, hlog⟩, hconfigured, hnone⟩ := h₁
    rw [List.nil_append] at hlog
    have htty : (if S.terminal then LogFormat.human else .json) = ttyDefault S := rfl
    cases loaded with
    | error e =>
      simp only [ensures_bind, ensures_record, ensures_configError, hlog]
      refine .refused _ _ _ ?_ ?_ fun config h => ?_
      · exact List.forall_mem_append.2
          ⟨fun e he => Event.isCalm_of_isFile (hfiles.files e he), by simp [Event.isCalm]⟩
      · exact hfiles.guarded.append (guarded_logging _ [])
      · obtain ⟨_, configFile', file, s₁, _, _, -, hfile, -⟩ := hlaunches h
        exact hnone e rfl configFile' file s₁ hfile
    | ok file =>
      have hfile := hconfigured file rfl
      simp only [ensures_bind, ensures_record, ensures_overrides, ensures_call, htty, hlog]
      generalize hresolved : resolve cli file default (ttyDefault S) = resolved
      -- What was recorded before the runtime is built.
      have hcalm : ∀ e ∈ files ++ [.logging resolved.logFormat] ++
          resolved.overrides.map .configOverride, e.isCalm = true := by
        refine List.forall_mem_append.2 ⟨List.forall_mem_append.2
          ⟨fun e he => Event.isCalm_of_isFile (hfiles.files e he), by simp [Event.isCalm]⟩, ?_⟩
        simp [Event.isCalm]
      have hguarded : Guarded (files ++ [.logging resolved.logFormat] ++
          resolved.overrides.map .configOverride) := by
        rw [List.append_assoc]
        exact hfiles.guarded.append (guarded_logging resolved.logFormat resolved.overrides)
      have hassembles : ∀ {config}, Launches S args s config → ∃ s₂ s₃,
          S.buildRuntime (blockingThreads resolved.limits.maxConnections) w₁.sys = (.ok (), s₂) ∧
          Assembled S resolved s₂ config s₃ := by
        intro config h
        obtain ⟨default', _, file', s₁, s₂, s₃, hok, hfile', hruntime, hassembled⟩ := hlaunches h
        obtain rfl := Except.ok.inj (hok.symm.trans hdefault)
        obtain ⟨rfl, rfl⟩ := hfile.unique hfile'
        rw [hresolved] at hruntime hassembled
        exact ⟨s₂, s₃, hruntime, hassembled⟩
      rcases hruntime : S.buildRuntime (blockingThreads resolved.limits.maxConnections) w₁.sys
        with ⟨e | _, s₂⟩
      · refine .refused _ _ _ hcalm hguarded fun config h => ?_
        obtain ⟨_, _, hruntime', -⟩ := hassembles h
        cases hruntime.symm.trans hruntime'
      · refine run_ensures.mono (fun exit w₂ h₂ => ?_) fun exit w₂ h₂ => ?_
        · obtain ⟨files', config, s₃, after, hfiles', hassembled, hending, hlog'⟩ := h₂
          rw [hlog']
          refine .launched ⟨cli, default, configFile, file, w₁.sys, s₂, s₃, hline, hdefault, hfile,
            ?_, ?_⟩ (List.forall_mem_append.2 ⟨hcalm,
              fun e he => Event.isCalm_of_isFile (hfiles'.files e he)⟩)
            (hguarded.append hfiles'.guarded) hending
          · rw [hresolved]
            exact hruntime
          · rw [hresolved]
            exact hassembled
        · obtain ⟨rfl, ⟨_, ⟨files', name, detail, hfiles', rfl⟩, hlog'⟩, hnot⟩ := h₂
          rw [hlog', ← List.append_assoc]
          refine .refused name detail configFile (List.forall_mem_append.2 ⟨hcalm,
            fun e he => Event.isCalm_of_isFile (hfiles'.files e he)⟩)
            (hguarded.append hfiles'.guarded) fun config h => ?_
          obtain ⟨s₃, s₄, hruntime', hassembled⟩ := hassembles h
          cases hruntime.symm.trans hruntime'
          exact hnot config s₄ hassembled

theorem main_outcome (S : System κ D F E A) (args : List Text) (s : κ) :
    (main S args).Ensures ⟨s, []⟩ (fun exit w' => Outcome S args s exit w'.log)
      fun exit w' => Outcome S args s exit w'.log := by
  have hnone : ∀ {r}, parseCli S.parseAddr S.version args = r → (∀ cli, r ≠ .ok (.run cli)) →
      ∀ config, ¬Launches S args s config := by
    rintro r hparse hr config ⟨cli, _, _, _, _, _, _, hline, -⟩
    exact hr cli (hparse.symm.trans (parseCli_of_commandLine hline))
  unfold main
  cases hparse : parseCli S.parseAddr S.version args with
  | error message => exact .complained _ (hnone hparse fun cli h => by cases h)
  | ok outcome =>
    cases outcome with
    | run cli => exact serveMain_outcome (commandLine_of_parseCli hparse)
    | exit text => exact .printed text (hnone hparse fun cli h => by cases h)
    | keygen path =>
      have hnot := hnone hparse fun cli h => by cases h
      simp only [keygenMain, ensures_bind, ensures_call]
      rcases Keygen.run S.toKernel (Text.bytes path) (generateHostKey S) s
        with ⟨message | report, s'⟩
      · exact .complained _ hnot
      · exact .printed report hnot

end QuantumSsh.Startup
