import QuantumSsh.Keygen.Files

/-!
# A key that the server loads

`keygen` checks the directory it writes into through a descriptor and along the canonical path
of the parent; the server checks the file along the canonical path of the file. Both walks pass
the same directories, so a key that `keygen` has written passes the server's check.
-/

namespace QuantumSsh.Keygen

open Program FileTree
open Sftp (rposition)

variable {κ D F E : Type}

/-! ### The path and its last name -/

theorem rposition_eq_none {p : UInt8 → Bool} {l : Bytes} (h : rposition p l = none) :
    ∀ c ∈ l, p c = false := by
  rw [rposition, Option.map_eq_none_iff, List.findIdx?_eq_none_iff] at h
  exact fun c hc => h c (List.mem_reverse.2 hc)

theorem rposition_eq_some {p : UInt8 → Bool} {l : Bytes} {i : ℕ} (h : rposition p l = some i) :
    ∃ c, l = l.take i ++ c :: l.drop (i + 1) ∧ p c = true ∧ ∀ d ∈ l.drop (i + 1), p d = false := by
  rw [rposition, Option.map_eq_some_iff] at h
  obtain ⟨j, hj, hi⟩ := h
  obtain ⟨hlt, hp, hbefore⟩ := List.findIdx?_eq_some_iff_getElem.1 hj
  rw [List.length_reverse] at hlt
  have hlt' : i < l.length := by omega
  refine ⟨l[i], ?_, ?_, fun d hd => ?_⟩
  · rw [← List.drop_eq_getElem_cons hlt', List.take_append_drop]
  · rw [List.getElem_reverse] at hp
    simpa [hi] using hp
  · obtain ⟨k, hk, rfl⟩ := List.mem_drop_iff_getElem.1 hd
    have hnot := hbefore (l.length - 1 - (i + 1 + k)) (by omega)
    rw [List.getElem_reverse] at hnot
    simp only [Bool.not_eq_true] at hnot
    rw [← hnot]
    congr 1
    have hindex : l.length - 1 - (l.length - 1 - (i + 1 + k)) = i + 1 + k := by omega
    simp only [hindex]

/-- The three ways a path is split. -/
theorem split_cases {K : Kernel κ D F E} {path parent : Bytes} {leaf : Name}
    (h : split K path = .ok (parent, leaf)) :
    Proper leaf ∧ slash ∉ leaf ∧
      (parent = dot ∧ path = leaf ∨ parent = [slash] ∧ path = slash :: leaf ∨
        parent ≠ [] ∧ path = parent ++ slash :: leaf) := by
  simp only [split] at h
  split_ifs at h with hleaf
  cases h
  refine ⟨by simpa [Proper] using hleaf, ?_⟩
  clear hleaf
  cases hpos : rposition (fun b => decide (b = slash)) path with
  | none =>
    refine ⟨fun hmem => ?_, .inl ⟨rfl, rfl⟩⟩
    simpa using rposition_eq_none hpos slash hmem
  | some i =>
    obtain ⟨c, hpath, hc, hafter⟩ := rposition_eq_some hpos
    obtain rfl : c = slash := by simpa using hc
    cases i with
    | zero =>
      refine ⟨fun hmem => by simpa using hafter slash hmem, .inr (.inl ⟨rfl, ?_⟩)⟩
      simpa using hpath
    | succ i =>
      refine ⟨fun hmem => by simpa using hafter slash hmem, .inr (.inr ⟨?_, hpath⟩)⟩
      intro hnil
      rcases List.take_eq_nil_iff.1 hnil with hzero | rfl
      · omega
      · simp at hpath

/-- A path leads to the last name in what its parent leads to, once that name is there. -/
theorem realpath_leaf {K : Kernel κ D F E} {path parent : Bytes} {leaf : Name}
    (hsplit : split K path = .ok (parent, leaf)) {w : Walker} {t t' : Tree} {q : Place} {n : Node}
    (hext : t.Extends t') (hparent : t.realpath w parent = some q) (hsearch : w.search q = true)
    (hnode : t'.node (q ++ [leaf]) = some n) (hlink : ∀ target, n ≠ .link target) :
    t'.realpath w path = some (q ++ [leaf]) := by
  obtain ⟨hproper, hslash, hcases⟩ := split_cases hsplit
  have hstart : start w.cwd leaf = w.cwd := by
    rw [start, if_neg]
    intro hhead
    exact hslash (List.mem_of_mem_head? hhead)
  rw [Tree.realpath] at hparent ⊢
  split_ifs at hparent
  rcases hcases with ⟨rfl, rfl⟩ | ⟨rfl, rfl⟩ | ⟨hne, rfl⟩
  · -- the parent of a bare name is `.`
    have hnames : FileTree.names dot = [dot] := List.splitOn_eq_singleton (by decide)
    rw [hnames] at hparent
    have hstay := Tree.walk_stay (.inr rfl) hparent
    rw [Tree.walk_nil, Option.some.injEq] at hstay
    have hcwd : q = w.cwd := hstay.symm
    subst hcwd
    rw [if_neg hproper.1, hstart, FileTree.names, List.splitOn_eq_singleton hslash]
    exact Tree.walk_concat hsearch hproper hnode hlink (Tree.walk_nil t' w.search w.links w.cwd)
  · have hnames : FileTree.names [slash] = [[], []] := names_append [] (by simp)
    rw [hnames] at hparent
    have hempty := Tree.walk_stay (.inl rfl) hparent
    have hstay := Tree.walk_stay (.inl rfl) hempty
    rw [Tree.walk_nil, Option.some.injEq] at hstay
    have hroot : q = [] := hstay.symm
    subst hroot
    have hnames' : FileTree.names (slash :: leaf) = [[]] ++ [leaf] := names_append [] hslash
    rw [if_neg (by simp), hnames']
    exact Tree.walk_concat hsearch hproper hnode hlink (hext.walk hempty)
  · have hhead : start w.cwd (parent ++ slash :: leaf) = start w.cwd parent := by
      rw [start, start, List.head?_append_of_ne_nil _ hne]
    rw [if_neg (by simp), hhead, names_append parent hslash]
    exact Tree.walk_concat hsearch hproper hnode hlink (hext.walk hparent)

/-! ### The directories -/

/-- A directory that the ancestor rule lets pass. -/
def Sound (w : Walker) (t : Tree) (p : Place) : Prop :=
  ∃ q st, t.walk w.search w.links [] p = some q ∧ statOf (t.node q) = some st ∧
    ancestorViolation st.mode = none

theorem Sound.extends {w : Walker} {t t' : Tree} {p : Place} (h : Sound w t p)
    (hext : t.Extends t') : Sound w t' p := by
  obtain ⟨q, st, hwalk, hst, hviolation⟩ := h
  refine ⟨q, st, hext.walk hwalk, ?_, hviolation⟩
  match hnode : t.node q with
  | some n =>
    rw [hext q n hnode, ← hnode, hst]
  | none =>
    rw [hnode] at hst
    cases hst

theorem ancestors_concat (p : Place) (c : Name) : ancestors (p ++ [c]) = (p ++ [c]) :: ancestors p := by
  simp [ancestors, List.inits_append]

theorem ancestors_eq_cons (p : Place) : ancestors p = p :: (ancestors p).tail := by
  cases p using List.reverseRecOn with
  | nil => rfl
  | append_singleton p c => rw [ancestors_concat, List.tail_cons]

section Run

variable {files : Files κ D F} {K : Kernel κ D F E} {w : Walker} {room : Tree → Bytes → Prop} {s : κ}

/-- `check_directory` returns when the directory and all above it pass. -/
theorem ensures_checkDirectory_sound (laws : files.Lawful K) (answers : files.Answers w room K) {dir : D}
    {canonical : Place}
    (hdir : (files.tree s).walk w.search w.links [] canonical = some (files.dir dir)) :
    (checkDirectory K dir canonical).Ensures s
      (fun _ s' => files.Same s s' ∧ ∀ p ∈ ancestors canonical, Sound w (files.tree s) p)
      fun _ _ => True := by
  simp only [checkDirectory, ensures_bind, ensures_mapError]
  refine ((laws.fstatDir dir s).and (answers.fstatDir dir s)).mono (fun st s₁ h₁ => ?_)
    fun _ _ _ => trivial
  obtain ⟨hsame₁, hst⟩ := h₁
  rw [ensures_failWith]
  refine ⟨fun hviolation => ?_, fun _ _ => trivial⟩
  rw [Option.map_eq_none_iff] at hviolation
  have hsound : Sound w (files.tree s) canonical :=
    ⟨_, st, hdir, by rw [← Files.node, hst, statOf], hviolation⟩
  have hends : ∀ u, (files.Same s u ∧ ∀ p ∈ (ancestors canonical).tail, Sound w (files.tree s) p) →
      files.Same s u ∧ ∀ p ∈ ancestors canonical, Sound w (files.tree s) p := by
    rintro u ⟨hsame, htail⟩
    rw [ancestors_eq_cons, List.forall_mem_cons]
    exact ⟨hsame, hsound, htail⟩
  refine Prog.Ensures.mono ?_ (fun _ => hends) fun _ _ h => h
  refine ensures_forEach_all (fun p _ s₂ h₂ => ?_) hsame₁
  simp only [ensures_bind, ensures_mapError]
  refine ((laws.stat p s₂).and (answers.stat p s₂)).mono (fun st₂ s₃ h₃ => ?_) fun _ _ _ => trivial
  obtain ⟨hsame₃, -, q, hwalk, hst₂⟩ := h₃
  rw [ensures_failWith]
  refine ⟨fun hviolation₂ => ⟨hsame₃.trans h₂, q, st₂, ?_, ?_, ?_⟩, fun _ _ => trivial⟩
  · rwa [h₂] at hwalk
  · rw [Files.node, h₂] at hst₂
    exact hst₂
  · rwa [Option.map_eq_none_iff] at hviolation₂

/-- The state of the two files while they are written: the private one is `n`, the public one is
there, and nothing else has changed. -/
structure Pair (files : Files κ D F) (t₀ : Tree) (p q : Place) (n : Node) (s : κ) : Prop where
  fresh : t₀.node p = none ∧ t₀.node q = none
  ne : p ≠ q
  priv : files.node s p = some n
  pub : ∃ st content, files.node s q = some (.file st content)
  others : ∀ r, r ≠ p → r ≠ q → files.node s r = t₀.node r

variable {t₀ : Tree} {p q : Place} {n n' : Node} {s' : κ}

theorem Pair.same (h : Pair files t₀ p q n s) (hsame : files.Same s s') : Pair files t₀ p q n s' := by
  have hnode := hsame.node_eq
  exact ⟨h.fresh, h.ne, hnode ▸ h.priv, hnode ▸ h.pub, hnode ▸ h.others⟩

theorem Pair.changePrivate (h : Pair files t₀ p q n s)
    (hnode : files.node s' = Function.update (files.node s) p (some n')) :
    Pair files t₀ p q n' s' where
  fresh := h.fresh
  ne := h.ne
  priv := by rw [hnode, Function.update_self]
  pub := by
    rw [hnode, Function.update_of_ne h.ne.symm]
    exact h.pub
  others r hp hq := by rw [hnode, Function.update_of_ne hp, h.others r hp hq]

theorem Pair.changePublic (h : Pair files t₀ p q n s) {st : Stat} {content : Bytes}
    (hnode : files.node s' = Function.update (files.node s) q (some (.file st content))) :
    Pair files t₀ p q n s' where
  fresh := h.fresh
  ne := h.ne
  priv := by rw [hnode, Function.update_of_ne h.ne, h.priv]
  pub := ⟨st, content, by rw [hnode, Function.update_self]⟩
  others r hp hq := by rw [hnode, Function.update_of_ne hq, h.others r hp hq]

theorem Pair.extends (h : Pair files t₀ p q n s) : t₀.Extends (files.tree s) := by
  intro r m hr
  have hp : r ≠ p := by
    rintro rfl
    cases h.fresh.1.symm.trans hr
  have hq : r ≠ q := by
    rintro rfl
    cases h.fresh.2.symm.trans hr
  exact (h.others r hp hq).trans hr

/-- A pair that is written: the private file is the process's own, of mode 0600, and holds the
key. -/
theorem ensures_writePair_pair (laws : files.Lawful K) (answers : files.Answers w room K) {dir : D}
    {priv pub : Target} {generate : Except RngError GeneratedHostKey} :
    (writePair K dir priv pub generate).Ensures (s, [])
      (fun _ t => w.search (files.dir dir) = true ∧ ∃ key st, generate = .ok key ∧
        st.uid = K.geteuid ∧ st.mode &&& 0o7777 = 0o600 ∧
        Pair files (files.tree s) (files.dir dir ++ [priv.leaf]) (files.dir dir ++ [pub.leaf])
          (.file st (Text.bytes key.privatePem)) t.1)
      fun _ _ => True := by
  simp only [writePair, create, writeSynced, observed, call, forEach, ensures_bind, ensures_zoom,
    ensures_mapError, ensures_update, ensures_pure]
  refine ((laws.openat dir priv.leaf privateMode s).and
    (answers.openat dir priv.leaf privateMode s)).mono (fun privateFile s₁ h₁ => ?_)
    fun _ _ _ => trivial
  obtain ⟨⟨hprivate, hfresh, st, huid, hnode₁⟩, hsearch⟩ := h₁
  refine (laws.openat dir pub.leaf publicMode s₁).mono (fun publicFile s₂ h₂ => ?_)
    fun _ _ _ => trivial
  obtain ⟨hpublic, hnone, stPublic, -, hnode₂⟩ := h₂
  -- Two files were made, so their names differ.
  have hne : files.dir dir ++ [priv.leaf] ≠ files.dir dir ++ [pub.leaf] := by
    intro heq
    rw [hnode₁, ← heq, Function.update_self] at hnone
    cases hnone
  rw [hnode₁, Function.update_of_ne hne.symm] at hnone
  have hpair : Pair files (files.tree s) (files.dir dir ++ [priv.leaf])
      (files.dir dir ++ [pub.leaf]) (.file st []) s₂ := by
    refine ⟨⟨hfresh, hnone⟩, hne, ?_, ⟨stPublic, [], by rw [hnode₂, Function.update_self]⟩, ?_⟩
    · rw [hnode₂, Function.update_of_ne hne, hnode₁, Function.update_self]
    · intro r hp hq
      rw [hnode₂, Function.update_of_ne hq, hnode₁, Function.update_of_ne hp]
      rfl
  rw [← hprivate, ← hpublic] at hpair ⊢
  refine (laws.fchmod privateFile privateMode s₂ st [] hpair.priv).mono (fun _ s₃ h₃ => ?_)
    fun _ _ _ => trivial
  obtain ⟨st', huid', hmode, hnode₃⟩ := h₃
  -- From here on each call changes one file of the pair, or none.
  have hpair₃ := hpair.changePrivate hnode₃
  obtain ⟨stPublic₃, content₃, hpub₃⟩ := hpair₃.pub
  refine (laws.fchmod publicFile publicMode s₃ stPublic₃ content₃ hpub₃).mono (fun _ s₄ h₄ => ?_)
    fun _ _ _ => trivial
  obtain ⟨_, -, -, hnode₄⟩ := h₄
  have hpair₄ := hpair₃.changePublic hnode₄
  cases generate with
  | error e => exact trivial
  | ok key =>
    refine (laws.writeAll privateFile (Text.bytes key.privatePem) s₄ st' [] hpair₄.priv).mono
      (fun _ s₅ hnode₅ => ?_) fun _ _ _ => trivial
    refine (laws.fsync privateFile s₅).mono (fun _ s₆ h₆ => ?_) fun _ _ _ => trivial
    have hpair₆ := (hpair₄.changePrivate hnode₅).same h₆
    obtain ⟨stPublic₆, content₆, hpub₆⟩ := hpair₆.pub
    refine (laws.writeAll publicFile (Text.bytes (key.publicLine ++ ['\n'])) s₆ stPublic₆ content₆
      hpub₆).mono (fun _ s₇ hnode₇ => ?_) fun _ _ _ => trivial
    refine (laws.fsync publicFile s₇).mono (fun _ s₈ h₈ => ?_) fun _ _ _ => trivial
    refine (laws.fstat privateFile s₈).mono (fun _ s₉ h₉ => ?_) fun _ _ _ => trivial
    refine (laws.fstat publicFile s₉).mono (fun _ s₁₀ h₁₀ => ?_) fun _ _ _ => trivial
    have hend := ((hpair₆.changePublic hnode₇).same h₈).same h₉
    exact ⟨hsearch, key, st', rfl, huid'.trans huid, hmode, hend.same h₁₀⟩

/-- The file that a successful run leaves. -/
structure Written (files : Files κ D F) (K : Kernel κ D F E) (w : Walker) (path : Bytes)
    (generate : Except RngError GeneratedHostKey) (s s' : κ) (parent : Bytes) (leaf : Name)
    (canonical : Place) (key : GeneratedHostKey) (st : Stat) : Prop where
  parts : split K path = .ok (parent, leaf)
  resolved : (files.tree s).realpath w parent = some canonical
  generated : generate = .ok key
  search : w.search canonical = true
  above : Tree.Open w.search canonical
  sound : ∀ p ∈ ancestors canonical, Sound w (files.tree s) p
  uid : st.uid = K.geteuid
  mode : st.mode &&& 0o7777 = 0o600
  grown : (files.tree s).Extends (files.tree s')
  node : files.node s' (canonical ++ [leaf]) = some (.file st (Text.bytes key.privatePem))

variable {path : Bytes} {generate : Except RngError GeneratedHostKey}

theorem ensures_run_written (laws : files.Lawful K) (answers : files.Answers w room K) :
    (run K path generate).Ensures s
      (fun _ s' => ∃ parent leaf canonical key st,
        Written files K w path generate s s' parent leaf canonical key st)
      fun _ _ => True := by
  simp only [run, ensures_bind, ensures_mapError]
  cases hsplit : split K path with
  | error text => exact trivial
  | ok parts =>
    obtain ⟨parent, leaf⟩ := parts
    refine ((laws.canonicalize parent s).and (answers.canonicalize parent s)).mono
      (fun canonical s₁ h₁ => ?_) fun _ _ _ => trivial
    obtain ⟨hsame₁, hcanonical, -⟩ := h₁
    refine ((laws.openDir canonical s₁).and (answers.openDir canonical s₁)).mono
      (fun dir s₂ h₂ => ?_) fun _ _ _ => trivial
    obtain ⟨hsame₂, hdir⟩ := h₂
    have htree : files.tree s₂ = files.tree s := hsame₂.trans hsame₁
    rw [← hsame₂] at hdir
    refine (ensures_checkDirectory_sound laws answers hdir).mono (fun _ s₃ h₃ => ?_)
      fun _ _ _ => trivial
    obtain ⟨hsame₃, hsound⟩ := h₃
    have htree₃ : files.tree s₃ = files.tree s := hsame₃.trans htree
    rw [htree] at hdir hsound
    obtain ⟨hplace, hopen⟩ := (Tree.walk_place (Tree.realpath_stands hcanonical)).1 hdir
    rw [ensures_orRemove]
    refine (ensures_writePair_pair laws answers).mono (fun _ t h => ?_) fun failure t _ => ?_
    · obtain ⟨hsearch, key, st, hkey, huid, hmode, hpair⟩ := h
      rw [hplace, htree₃] at hpair
      rw [hplace] at hsearch
      exact ⟨parent, leaf, canonical, key, st, hsplit, hcanonical, hkey, hsearch, hopen, hsound,
        huid, hmode, hpair.extends, hpair.priv⟩
    · unfold Prog.Ensures
      split <;> exact trivial

theorem fileViolation_private {mode uid : ℕ} (h : mode &&& 0o7777 = 0o600) :
    fileViolation mode uid uid .secret = none := by
  have hbits : ∀ n, 0o7777 &&& n = n → mode &&& n = 0o600 &&& n := by
    intro n hn
    rw [← h, Nat.and_assoc, hn]
  rw [fileViolation, if_neg, if_neg, if_neg]
  · rw [readOthers, hbits 0o044 (by decide)]
    decide
  · exact fun hne => hne.2 rfl
  · rw [writeOthers, hbits 0o022 (by decide)]
    decide

section Check

variable {parent : Bytes} {leaf : Name} {canonical : Place} {key : GeneratedHostKey} {st : Stat}
  {s₁ : κ}

theorem Written.node_of_same
    (h : Written files K w path generate s s' parent leaf canonical key st)
    (hstatic : files.Same s' s₁) :
    (files.tree s₁).node (canonical ++ [leaf]) = some (.file st (Text.bytes key.privatePem)) :=
  (congrFun hstatic.node_eq _).trans h.node

/-- The path of the file leads to it. -/
theorem Written.realpath (h : Written files K w path generate s s' parent leaf canonical key st)
    (hstatic : files.Same s' s₁) :
    (files.tree s₁).realpath w path = some (canonical ++ [leaf]) :=
  realpath_leaf h.parts (hstatic ▸ h.grown) h.resolved h.search (h.node_of_same hstatic) nofun

theorem Written.open_place (h : Written files K w path generate s s' parent leaf canonical key st) :
    Tree.Open w.search (canonical ++ [leaf]) :=
  h.above.concat h.search

theorem Written.walk (h : Written files K w path generate s s' parent leaf canonical key st)
    (hstatic : files.Same s' s₁) :
    (files.tree s₁).walk w.search w.links [] (canonical ++ [leaf]) = some (canonical ++ [leaf]) :=
  (Tree.walk_place ⟨_, h.node_of_same hstatic, nofun⟩).2 ⟨rfl, h.open_place⟩

/-- The path of the file is one that the calls take, when its canonical path is. -/
theorem Written.takes_iff (h : Written files K w path generate s s' parent leaf canonical key st)
    (hstatic : files.Same s' s₁) : Takes w room (files.tree s₁) path ↔
      room (files.tree s₁) path ∧ Short w (canonical ++ [leaf]) := by
  unfold Takes
  rw [h.realpath hstatic]
  simp

/-- The check of a file that a run has left passes, and fails only where a call does not take the
path. -/
theorem Written.ensures_checkTrustedFile (answers : files.Answers w room K) (laws : files.Lawful K)
    (h : Written files K w path generate s s' parent leaf canonical key st)
    (hstatic : files.Same s' s₁) :
    (checkTrustedFile K path .secret).Ensures s₁
      (fun p _ => p = canonical ++ [leaf] ∧ Takes w room (files.tree s₁) path)
      fun _ _ => ¬Takes w room (files.tree s₁) path := by
  have hnode := h.node_of_same hstatic
  have hext : (files.tree s).Extends (files.tree s₁) := hstatic ▸ h.grown
  have hpath := h.realpath hstatic
  have hplace := h.walk hstatic
  simp only [checkTrustedFile, statOrUnavailable, ensures_bind, ensures_mapError, ensures_pure]
  refine ((laws.canonicalize path s₁).and (answers.canonicalize path s₁)).mono
    (fun p s₂ h₂ => ?_) fun e s₂ h₂ => ?_
  · obtain ⟨hsame₂, hp, hroom⟩ := h₂
    obtain rfl : canonical ++ [leaf] = p := Option.some.inj (hpath.symm.trans hp)
    refine ((laws.stat _ s₂).and (answers.stat _ s₂)).mono (fun st' s₃ h₃ => ?_) fun e s₃ h₃ => ?_
    · obtain ⟨hsame₃, hshort, q, hq, hst⟩ := h₃
      rw [hsame₂, hplace, Option.some.injEq] at hq
      subst hq
      rw [Files.node, hsame₂, hnode, statOf, Option.some.injEq] at hst
      subst hst
      rw [ensures_failWith, h.uid, fileViolation_private h.mode]
      refine ⟨fun _ => ?_, fun _ hnone => by cases hnone⟩
      rw [ancestors_concat, List.tail_cons]
      -- Every directory above was sound when the key was written, is as it was, and its path is
      -- no longer than that of the file.
      have hround : ∀ p ∈ ancestors canonical, ∀ u, files.Same s₁ u →
          ((do
            let st ← mapError (fun e => ConfigError.fileUnavailable
              (K.displayPath p ++ ": cannot stat: ".toList ++ K.errorText e)) (K.stat p)
            failWith ((ancestorViolation st.mode).map fun violation =>
              ConfigError.insecurePermissions (K.displayPath (canonical ++ [leaf]) ++
                ": ".toList ++ violation ++ " at ".toList ++ K.displayPath p)) :
            Prog κ ConfigError Unit)).Ensures u (fun _ => files.Same s₁) fun _ _ => False := by
        intro p hmem u hu
        have hshort' : Short w p := by
          refine hshort.ancestor ?_
          rw [ancestors_concat]
          exact List.mem_cons_of_mem _ hmem
        obtain ⟨q, st', hq, hst', hviolation⟩ := (h.sound p hmem).extends hext
        simp only [ensures_bind, ensures_mapError]
        refine ((laws.stat p u).and (answers.stat p u)).mono (fun st'' v hv => ?_) fun e v hv => ?_
        · obtain ⟨hsame, -, q', hq', hst''⟩ := hv
          rw [hu, hq, Option.some.injEq] at hq'
          subst hq'
          rw [Files.node, hu, hst', Option.some.injEq] at hst''
          subst hst''
          rw [ensures_failWith, hviolation]
          exact ⟨fun _ => hsame.trans hu, fun _ hnone => by cases hnone⟩
        · rw [hu, hq] at hv
          obtain hnone | hlong := hv.2
          · cases hnone
          · exact hlong hshort'
      have htakes := (h.takes_iff hstatic).2 ⟨hroom, hshort⟩
      exact (ensures_forEach hround (hsame₃.trans hsame₂)).mono (fun _ _ _ => ⟨rfl, htakes⟩)
        fun _ _ => False.elim
    · rw [hsame₂, hplace] at h₃
      obtain hnone | hlong := h₃.2
      · cases hnone
      · exact fun htakes => hlong (htakes.2 _ hpath)
  · rw [hpath] at h₂
    obtain hnone | hlong := h₂.2
    · cases hnone
    · exact hlong

end Check

/-- A key that `keygen` has written passes the server's check, and the check returns the canonical
parent joined with the leaf, where the key is, exactly when `realpath` has room for the path and
the canonical path of the file is one that a call takes. -/
theorem keygen_passes_strictModes_iff (laws : files.Lawful K) (answers : files.Answers w room K)
    {report : Text} (hrun : run K path generate s = (.ok report, s')) {s₁ : κ}
    (hstatic : files.tree s₁ = files.tree s') :
    ∃ parent leaf canonical key st, split K path = .ok (parent, leaf) ∧
      (files.tree s).realpath w parent = some canonical ∧ generate = .ok key ∧
      files.node s₁ (canonical ++ [leaf]) = some (.file st (Text.bytes key.privatePem)) ∧
      ((checkTrustedFile K path .secret s₁).1 = .ok (canonical ++ [leaf]) ↔
        room (files.tree s₁) path ∧ Short w (canonical ++ [leaf])) := by
  obtain ⟨parent, leaf, canonical, key, st, h⟩ := (ensures_run_written laws answers).of_ok hrun
  refine ⟨parent, leaf, canonical, key, st, h.parts, h.resolved, h.generated,
    h.node_of_same hstatic, ?_⟩
  rw [← h.takes_iff hstatic]
  have hcheck := h.ensures_checkTrustedFile answers laws hstatic
  rcases hresult : checkTrustedFile K path .secret s₁ with ⟨e | p, u⟩
  · have hlong := hcheck.of_error hresult
    exact ⟨nofun, fun htakes => absurd htakes hlong⟩
  · obtain ⟨rfl, htakes⟩ := hcheck.of_ok hresult
    exact ⟨fun _ => htakes, fun _ => rfl⟩

end Run

/-! ### A key that is written and refused -/

section Deep

variable {w : Walker} {umask euid : ℕ} {t : Tree} {dir : Place} {leaf : Name}

theorem ensures_createFile_fresh {st : Stat} (hfresh : t.node (dir ++ [leaf]) = none)
    (hdir : isDir (t.node dir) = true) (hleaf : Proper leaf) (hsearch : w.search dir = true) :
    (createFile w dir leaf st).Ensures t
      (fun file t' => file = dir ++ [leaf] ∧
        t'.node = Function.update t.node (dir ++ [leaf]) (some (.file st [])))
      fun _ _ => False := by
  have hroom : t.node (dir ++ [leaf]) = none ∧ isDir (t.node dir) = true ∧ Proper leaf :=
    ⟨hfresh, hdir, hleaf⟩
  unfold Prog.Ensures
  simp only [createFile, dif_pos hroom, if_pos hsearch]
  exact ⟨trivial, rfl⟩

theorem ensures_changeFile_file {p : Place} {f : Stat → Bytes → Option Node} {st : Stat}
    {content : Bytes} (hfile : t.node p = some (.file st content)) :
    (changeFile p f).Ensures t (fun _ t' => t'.node = Function.update t.node p (f st content))
      fun _ _ => False := by
  refine (ensures_changeFile p f).mono (fun _ t' h => ?_) fun _ _ h => h.2 st content hfile
  obtain ⟨st', content', hfile', hnode⟩ := h
  cases hfile.symm.trans hfile'
  exact hnode

/-- A directory with sound ones above it passes. -/
theorem ensures_checkDirectory_tree (hsearch : ∀ p, w.search p = true) (hshort : Short w dir)
    (hsound : ∀ p ∈ ancestors dir, ∃ st, t.node p = some (.dir st) ∧ ancestorViolation st.mode = none) :
    (checkDirectory (treeKernel w umask euid) dir dir).Ensures t (fun _ t' => t' = t)
      fun _ _ => False := by
  have hself : dir ∈ ancestors dir := by
    rw [ancestors_eq_cons]
    exact List.mem_cons_self
  simp only [checkDirectory, ensures_bind, ensures_mapError, treeKernel, ensures_onTree,
    ensures_found]
  obtain ⟨st, hnode, hviolation⟩ := hsound dir hself
  rw [hnode]
  refine ⟨fun st' hst => ?_, fun h => by simp [statOf, isDir] at h⟩
  obtain rfl : st = st' := by simpa [statOf, isDir] using hst
  rw [ensures_failWith, hviolation]
  refine ⟨fun _ => ?_, by simp⟩
  refine ensures_forEach (I := fun t' => t' = t) (fun p hp t' ht => ?_) rfl
  rw [ht]
  have hmem : p ∈ ancestors dir := List.mem_of_mem_tail hp
  obtain ⟨st', hnode', hviolation'⟩ := hsound p hmem
  have hwalk : t.walk w.search w.links [] p = some p :=
    (Tree.walk_place ⟨_, hnode', by simp⟩).2 ⟨rfl, fun before _ _ _ => hsearch before⟩
  simp only [ensures_bind, ensures_mapError, ensures_onTree, ensures_ifTaken, ensures_found, hwalk]
  refine ⟨fun _ => ⟨fun st₂ hst₂ => ?_, fun h => by simp [hnode', statOf] at h⟩,
    fun hlong => hlong (hshort.ancestor hmem)⟩
  obtain rfl : st' = st₂ := by simpa [hnode', statOf] using hst₂
  rw [ensures_failWith, hviolation']
  exact ⟨fun _ => rfl, by simp⟩

/-- Two files whose names are free are written. -/
theorem ensures_writePair_tree {priv pub : Target} {key : GeneratedHostKey}
    (hsearch : w.search dir = true) (hdir : isDir (t.node dir) = true) (hpriv : Proper priv.leaf)
    (hpub : Proper pub.leaf) (hne : priv.leaf ≠ pub.leaf)
    (hfresh : t.node (dir ++ [priv.leaf]) = none) (hfresh' : t.node (dir ++ [pub.leaf]) = none) :
    (writePair (treeKernel w umask euid) dir priv pub (.ok key)).Ensures (t, []) (fun _ _ => True)
      fun _ _ => False := by
  have hplaces : dir ++ [priv.leaf] ≠ dir ++ [pub.leaf] := by simpa using hne
  have hnot : dir ≠ dir ++ [priv.leaf] := by simp
  simp only [writePair, create, writeSynced, observed, call, forEach, ensures_bind, ensures_zoom,
    ensures_mapError, ensures_update, ensures_pure, treeKernel]
  refine (ensures_createFile_fresh hfresh hdir hpriv hsearch).mono (fun file t₁ h₁ => ?_)
    fun _ _ => id
  obtain ⟨rfl, hnode₁⟩ := h₁
  have hfresh₁ : t₁.node (dir ++ [pub.leaf]) = none := by
    rw [hnode₁, Function.update_of_ne hplaces.symm, hfresh']
  have hdir₁ : isDir (t₁.node dir) = true := by rwa [hnode₁, Function.update_of_ne hnot]
  refine (ensures_createFile_fresh hfresh₁ hdir₁ hpub hsearch).mono (fun file t₂ h₂ => ?_)
    fun _ _ => id
  obtain ⟨rfl, hnode₂⟩ := h₂
  -- From here on both files are there, and each call changes one of them.
  have hthere₂ : ∃ st content, t₂.node (dir ++ [priv.leaf]) = some (.file st content) :=
    ⟨_, _, by rw [hnode₂, Function.update_of_ne hplaces, hnode₁, Function.update_self]⟩
  obtain ⟨st₂, content₂, hthere₂⟩ := hthere₂
  refine (ensures_changeFile_file hthere₂).mono (fun _ t₃ hnode₃ => ?_) fun _ _ => id
  have hthere₃ : ∃ st content, t₃.node (dir ++ [pub.leaf]) = some (.file st content) :=
    ⟨_, _, by rw [hnode₃, Function.update_of_ne hplaces.symm, hnode₂, Function.update_self]⟩
  obtain ⟨st₃, content₃, hthere₃⟩ := hthere₃
  refine (ensures_changeFile_file hthere₃).mono (fun _ t₄ hnode₄ => ?_) fun _ _ => id
  refine (ensures_changeFile_file (p := dir ++ [priv.leaf])
    (by rw [hnode₄, Function.update_of_ne hplaces, hnode₃, Function.update_self])).mono
    (fun _ t₅ hnode₅ => ?_) fun _ _ => id
  refine (ensures_changeFile_file (p := dir ++ [pub.leaf])
    (by rw [hnode₅, Function.update_of_ne hplaces.symm, hnode₄, Function.update_self])).mono
    (fun _ t₆ hnode₆ => ?_) fun _ _ => id
  simp only [ensures_onTree, ensures_found, hnode₆, Function.update_self,
    Function.update_of_ne hplaces, hnode₅, statOf]
  simp

theorem proper_append_pubSuffix (hleaf : leaf ≠ []) : Proper (leaf ++ pubSuffix) := by
  have hlong : 5 ≤ (leaf ++ pubSuffix).length := by
    have hpos := List.length_pos_iff.2 hleaf
    simp only [List.length_append, pubSuffix, List.length_cons, List.length_nil]
    omega
  refine ⟨?_, ?_, ?_⟩ <;>
  · intro heq
    rw [heq] at hlong
    simp [dot, dotDot] at hlong

/-- A bare name that is free is written into the working directory. -/
theorem exists_run_bare {key : GeneratedHostKey} (hsearch : ∀ p, w.search p = true)
    (hleaf : Proper leaf) (hslash : slash ∉ leaf) (htaken : Fits w t dot) (hshort : Short w w.cwd)
    (hsound : ∀ p ∈ ancestors w.cwd,
      ∃ st, t.node p = some (.dir st) ∧ ancestorViolation st.mode = none)
    (hfresh : t.node (w.cwd ++ [leaf]) = none)
    (hfresh' : t.node (w.cwd ++ [leaf ++ pubSuffix]) = none) :
    ∃ report t', run (treeKernel w umask euid) leaf (.ok key) t = (.ok report, t') := by
  have hself : w.cwd ∈ ancestors w.cwd := by
    rw [ancestors_eq_cons]
    exact List.mem_cons_self
  obtain ⟨st, hnode, -⟩ := hsound _ hself
  have hdir : isDir (t.node w.cwd) = true := by
    rw [hnode]
    rfl
  have hsplit : split (treeKernel w umask euid) leaf = .ok (dot, leaf) := by
    have hnone : rposition (fun b => decide (b = slash)) leaf = none := by
      rw [rposition, Option.map_eq_none_iff, List.findIdx?_eq_none_iff]
      intro c hc
      rw [decide_eq_false_iff_not]
      rintro rfl
      exact hslash (List.mem_reverse.1 hc)
    simp only [split, hnone]
    rw [if_neg (by simpa [Proper] using hleaf)]
  have hparent : t.realpath w dot = some w.cwd := by
    have hnames : FileTree.names dot = [dot] := List.splitOn_eq_singleton (by decide)
    have hstart : start w.cwd dot = w.cwd := rfl
    obtain ⟨follow, hwalk⟩ := Tree.exists_walk_eq t w.search w.links
    rw [Tree.realpath, if_neg (by decide), hnames, hstart, hwalk,
      Tree.walkWith_cons hdir (by decide) (hsearch _), if_pos rfl, Tree.walkWith]
  have hopened : t.walk w.search w.links [] w.cwd = some w.cwd :=
    (Tree.walk_place ⟨_, hnode, by simp⟩).2 ⟨rfl, fun before _ _ _ => hsearch before⟩
  have hcheck := @ensures_checkDirectory_tree w umask euid t w.cwd hsearch hshort hsound
  have hpair := @ensures_writePair_tree w umask euid t w.cwd ⟨leaf, w.cwd ++ [leaf]⟩
    ⟨leaf ++ pubSuffix, w.cwd ++ [leaf ++ pubSuffix]⟩ key (hsearch _) hdir hleaf
    (proper_append_pubSuffix hleaf.1) (by simp [pubSuffix]) hfresh hfresh'
  suffices hrun : (run (treeKernel w umask euid) leaf (.ok key)).Ensures t (fun _ _ => True)
      fun _ _ => False by
    obtain ⟨report, t', hrun, -⟩ := hrun.exists_ok
    exact ⟨report, t', hrun⟩
  simp only [run, ensures_bind, ensures_mapError]
  rw [hsplit]
  change ((treeKernel w umask euid).canonicalize dot).Ensures t _ _
  simp only [treeKernel, ensures_onTree, ensures_ifTaken, ensures_found, hparent]
  refine ⟨fun _ => ⟨fun p hp => ?_, by simp⟩, fun hlong => hlong ⟨htaken, fun p hp => ?_⟩⟩
  · obtain rfl := Option.some.inj hp
    rw [hopened]
    refine ⟨fun _ => ⟨fun p hp => ?_, fun hnone => by simp [hdir] at hnone⟩,
      fun hlong => hlong hshort⟩
    obtain rfl : w.cwd = p := Option.some.inj (Option.mem_filter_iff.1 hp).1
    refine hcheck.mono (fun _ t' ht => ?_) fun _ _ => id
    rw [ht, ensures_orRemove]
    exact hpair.mono (fun _ _ _ => trivial) fun _ _ => False.elim
  · obtain rfl := Option.some.inj hp
    exact hshort

/-- The working directory itself. -/
theorem fits_dot (hdir : isDir (t.node w.cwd) = true) (hsearch : w.search w.cwd = true)
    (h : (render w.cwd).length + 3 < w.pathMax) : Fits w t dot := by
  have hnames : FileTree.names dot = [dot] := List.splitOn_eq_singleton (by decide)
  have htargets : t.targets w.search w.links (start w.cwd dot) (FileTree.names dot) = 0 := by
    rw [hnames]
    cases w.links with
    | zero => exact (if_neg (by simp [start, dot, slash, hdir, hsearch])).trans (if_pos (.inr rfl))
    | succ links =>
      exact (if_neg (by simp [start, dot, slash, hdir, hsearch])).trans (if_pos (.inr rfl))
  have hlength : dot.length = 1 := rfl
  rw [Fits, htargets, hlength]
  omega

/-- A path that is too long behind the working directory. -/
theorem not_fits {path : Bytes} (h : w.pathMax ≤ (render w.cwd).length + path.length) :
    ¬Fits w t path := by
  unfold Fits
  omega

theorem checkTrustedFile_not_fits {path : Bytes} {trusted : TrustedClass} (h : ¬Fits w t path) :
    ∃ e, (checkTrustedFile (treeKernel w umask euid) path trusted t).1 = .error e := by
  have hcheck : (checkTrustedFile (treeKernel w umask euid) path trusted).Ensures t
      (fun _ _ => False) fun _ _ => True := by
    simp only [checkTrustedFile, ensures_bind, ensures_mapError, treeKernel, ensures_onTree,
      ensures_ifTaken]
    exact ⟨fun htaken => absurd htaken.1 h, fun _ => trivial⟩
  obtain ⟨e, t', hrun, -⟩ := hcheck.exists_error
  exact ⟨e, by rw [hrun]⟩

end Deep

/-- Directories of mode 0755, each in the one before. -/
def chainTree (dirs : Place) (h : ∀ c ∈ dirs, Proper c) : Tree where
  node p := if p <+: dirs then some (.dir ⟨0o40755, 0⟩) else none
  root := ⟨_, if_pos List.nil_prefix⟩
  parent p c hnode := by
    have hdirs : p ++ [c] <+: dirs := by
      by_contra hnot
      exact hnode (if_neg hnot)
    exact ⟨_, if_pos ((List.prefix_append p [c]).trans hdirs)⟩
  proper p c hnode := by
    refine h c ?_
    by_contra hnot
    refine hnode (if_neg fun hdirs => hnot ?_)
    exact hdirs.subset (by simp)

/-- Twenty names of two hundred bytes. -/
def deepDirs : Place := List.replicate 20 (List.replicate 200 0x64)

theorem proper_of_mem_deepDirs {c : Name} (h : c ∈ deepDirs) : Proper c := by
  rw [List.eq_of_mem_replicate h]
  decide

def deepTree : Tree := chainTree deepDirs fun _ => proper_of_mem_deepDirs

theorem deepTree_node (p : Place) :
    deepTree.node p = if p <+: deepDirs then some (.dir ⟨0o40755, 0⟩) else none :=
  rfl

/-- A process of root in the last of the directories. -/
def deepWalker : Walker where
  cwd := deepDirs
  search _ := true
  links := 40
  pathMax := 4096

/-- The name of the key: a hundred bytes. -/
def longLeaf : Name := List.replicate 100 0x6b

/-- The run that writes a key into the last directory. -/
def runDeep : Except Text Text × Tree :=
  run (treeKernel deepWalker 0o077 0) longLeaf
    (.ok { privatePem := ['p'], publicLine := ['q'], fingerprint := ['f'] }) deepTree

theorem length_render_deepDirs : (render deepDirs).length = 4020 := by
  have hrender : render deepDirs = deepDirs.flatMap (slash :: ·) := rfl
  rw [hrender, List.length_flatMap, deepDirs, List.map_replicate, List.sum_replicate_nat,
    List.length_cons, List.length_replicate]

/-- The path of the directory has 4020 bytes and that of the key 4121: `keygen` writes the key
through the directory it has open, and the server cannot resolve its path. -/
theorem keygen_writes_refused_key : (∃ report, runDeep.1 = .ok report) ∧
    ∃ e, (checkTrustedFile (treeKernel deepWalker 0o077 0) longLeaf .secret runDeep.2).1 =
      .error e := by
  have hcwd : (render deepWalker.cwd).length = 4020 := length_render_deepDirs
  have hmax : deepWalker.pathMax = 4096 := rfl
  constructor
  · have hsound : ∀ p ∈ ancestors deepDirs, ∃ st, deepTree.node p = some (.dir st) ∧
        ancestorViolation st.mode = none := by
      intro p hp
      have hprefix : p <+: deepDirs := (List.mem_inits p deepDirs).1 (List.mem_reverse.1 hp)
      exact ⟨_, by rw [deepTree_node, if_pos hprefix], if_neg (by decide)⟩
    have hfree : ∀ c, deepTree.node (deepDirs ++ [c]) = none := by
      intro c
      rw [deepTree_node, if_neg]
      intro hprefix
      have hle := hprefix.length_le
      simp at hle
    have hdir : isDir (deepTree.node deepWalker.cwd) = true := by
      rw [deepTree_node, deepWalker, if_pos List.prefix_rfl]
      rfl
    have hfits : Fits deepWalker deepTree dot := fits_dot hdir rfl (by omega)
    have hshort : Short deepWalker deepWalker.cwd := by
      unfold Short
      omega
    have hslash : slash ∉ longLeaf := fun hmem => by
      cases List.eq_of_mem_replicate hmem
    obtain ⟨report, t', hrun⟩ := @exists_run_bare deepWalker 0o077 0 deepTree longLeaf
      { privatePem := ['p'], publicLine := ['q'], fingerprint := ['f'] } (fun _ => rfl) (by decide)
      hslash hfits hshort hsound (hfree _) (hfree _)
    exact ⟨report, congrArg Prod.fst hrun⟩
  · have hlength : longLeaf.length = 100 := List.length_replicate
    exact checkTrustedFile_not_fits (not_fits (by omega))

/-- The run that writes a key to `/k`, under a umask of 077. -/
def runForRoot : Except Text Text × Tree :=
  run (treeKernel rootWalker 0o077 0) [0x6b]
    (.ok { privatePem := ['p'], publicLine := ['q'], fingerprint := ['f'] }) emptyTree

theorem keygen_passes_strictModes_iff_root :
    (checkTrustedFile (treeKernel rootWalker 0o077 0) [0x6b] .secret runForRoot.2).1 =
      .ok [[0x6b]] := by
  have hrun : runForRoot = (.ok _, runForRoot.2) := rfl
  obtain ⟨parent, leaf, canonical, key, st, hsplit, hparent, -, -, hcheck⟩ :=
    keygen_passes_strictModes_iff treeFiles_lawful treeFiles_answers hrun rfl
  have hparts : split (treeKernel rootWalker 0o077 0) [0x6b] = .ok (dot, [0x6b]) := rfl
  cases hparts.symm.trans hsplit
  have hroot : emptyTree.realpath rootWalker dot = some [] := rfl
  cases hroot.symm.trans hparent
  exact hcheck.2 ⟨by decide +kernel, by decide⟩

end QuantumSsh.Keygen
